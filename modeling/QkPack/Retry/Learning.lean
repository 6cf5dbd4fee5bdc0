import Mathlib.Algebra.Order.BigOperators.Group.List
import QkPack.Retry.Asking
import QkPack.Retry.Errand

/-!
# A table that is out of date

Requests are on their way side by side; each has its own retry machine, and the table is all they share. A slot is
entered with the first redirection, and is right from then on.
-/

namespace QkPack
open Wire CString Resp

/-- The table that all requests share, and the requests in the order in which they came. -/
structure Traffic where
  table : ClusterMap
  errands : List Errand

/-- A request comes in, is sent on a connection that is there or a new one, or is answered. -/
inductive TrafficEvent where
  | start (request : Request) (reply : Bytes)
  | connect (i : Nat) (scripts : ScriptCache) (stack : Nat → Bytes) (cached : Bool)
  | answer (i : Nat) (scripts : ScriptCache) (stack : Nat → Bytes)

section Traffic

variable (h : Handler) (conf : UpstreamConf) (c : StableCluster)

def trafficStep (s : Traffic) : TrafficEvent → Option Traffic
  | .start request reply =>
    (s.table c.name request.slot).map fun node =>
      let request := { request with nodeIp := node }
      { s with errands := s.errands ++ [⟨request,reply,Upstream.start conf request⟩] }
  | .connect i scripts stack cached => do
    let f ← s.errands[i]?
    let up ← step h conf f.up (.connect ⟨⟨s.table,scripts⟩,none,stack⟩ [] (if cached then .cached else .ok))
    return { s with errands := s.errands.set i { f with up := up } }
  | .answer i scripts stack => do
    let f ← s.errands[i]?
    let world : World := ⟨⟨s.table,scripts⟩,none,stack⟩
    let up ← step h conf f.up (.read world (f.answer c))
    return ⟨learned h world f.up (f.answer c),s.errands.set i { f with up := up }⟩

end Traffic

def TrafficEvent.Routable (h : Handler) (c : StableCluster) : TrafficEvent → Prop
  | .start request reply => QkPack.Routable h c request reply
  | _ => True

structure Traffic.Sound (h : Handler) (conf : UpstreamConf) (c : StableCluster) (s : Traffic) : Prop where
  routable : ∀ f ∈ s.errands, Routable h c f.request f.reply
  underWay : ∀ f ∈ s.errands, UnderWay conf c f.request f.up
  entered : ∀ f ∈ s.errands, f.up.Told → s.table c.name f.request.slot = some (c.owner f.request.slot)

section System

variable {h : Handler} {conf : UpstreamConf} {c : StableCluster} {s s' : Traffic} {e : TrafficEvent}

theorem ClusterMap.set_owner {table : ClusterMap} {k : Nat} (hk : table c.name k = some (c.owner k)) (slot : Nat) :
    table.set c.name slot (c.owner slot) c.name k = some (c.owner k) := by
  rw [ClusterMap.set]
  by_cases hsame : k = slot
  · rw [if_pos ⟨rfl,by rw [hsame]⟩, hsame]
  · rw [if_neg (by simpa using hsame), hk]

theorem Routable.at {request : Request} {reply : Bytes} (hr : Routable h c request reply) (node : Bytes) :
    Routable h c { request with nodeIp := node } reply where
  cluster := hr.cluster
  code := hr.code
  single := hr.single
  tries := hr.tries
  sent := hr.sent
  conclusive := ⟨hr.conclusive.whole,hr.conclusive.answers⟩

/-- What a step can do: a request starts at the node of its entry, one of the requests goes on while the table stays as
it is, or one is told its owner and the owner is entered. -/
theorem trafficStep_cases (hconf : conf.Redirects) (hs : s.Sound h conf c)
    (hstep : trafficStep h conf c s e = some s') :
    (∃ request reply node, e = .start request reply ∧ s.table c.name request.slot = some node ∧
      s' = { s with errands := s.errands ++ [⟨{ request with nodeIp := node },reply,
        Upstream.start conf { request with nodeIp := node }⟩] }) ∨
    ∃ i f up, s.errands[i]? = some f ∧ UnderWay conf c f.request up ∧ up.seen = f.up.seen + 1 ∧
      s'.errands = s.errands.set i { f with up := up } ∧
        (s'.table = s.table ∧ (up.Told → f.up.Told) ∨
          s'.table = s.table.set c.name f.request.slot (c.owner f.request.slot)) := by
  cases e with
  | start request reply =>
    obtain ⟨node,hnode,rfl⟩ := Option.map_eq_some_iff.mp hstep
    exact .inl ⟨request,reply,node,rfl,hnode,rfl⟩
  | connect i scripts stack cached =>
    obtain ⟨f,hf,hstep⟩ := Option.bind_eq_some_iff.mp hstep
    obtain ⟨up,hup,hstep⟩ := Option.bind_eq_some_iff.mp hstep
    cases hstep
    have hmem := List.mem_of_getElem? hf
    obtain ⟨hunder,hseen,htold⟩ := (hs.underWay f hmem).connect (hs.routable f hmem) hup
    exact .inr ⟨i,f,up,hf,hunder,hseen,rfl,.inl ⟨rfl,htold⟩⟩
  | answer i scripts stack =>
    obtain ⟨f,hf,hstep⟩ := Option.bind_eq_some_iff.mp hstep
    obtain ⟨up,hup,hstep⟩ := Option.bind_eq_some_iff.mp hstep
    cases hstep
    have hmem := List.mem_of_getElem? hf
    obtain ⟨hunder,hseen,hlearned⟩ := (hs.underWay f hmem).answer hconf (hs.routable f hmem) hup
    exact .inr ⟨i,f,up,hf,hunder,hseen,rfl,hlearned⟩

theorem Traffic.Sound.step (hconf : conf.Redirects) (hs : s.Sound h conf c) (he : e.Routable h c)
    (hstep : trafficStep h conf c s e = some s') : s'.Sound h conf c := by
  rcases trafficStep_cases hconf hs hstep with ⟨request,reply,node,rfl,-,rfl⟩ | ⟨i,f,up,hf,hunder,-,herrands,htable⟩
  · -- a request that starts has been told nothing
    refine ⟨?_,?_,?_⟩
    · intro g hg
      rcases List.mem_append.mp hg with hg | hg
      · exact hs.routable g hg
      · cases List.mem_singleton.mp hg
        exact Routable.at he node
    · intro g hg
      rcases List.mem_append.mp hg with hg | hg
      · exact hs.underWay g hg
      · cases List.mem_singleton.mp hg
        exact .fresh
    · intro g hg htold
      rcases List.mem_append.mp hg with hg | hg
      · exact hs.entered g hg htold
      · cases List.mem_singleton.mp hg
        rcases htold with hflag | hlength
        · cases hflag
        · exact absurd hlength (by simp [Upstream.start])
  · have hmem := List.mem_of_getElem? hf
    have hcases : ∀ g ∈ s'.errands, g ∈ s.errands ∨ g = { f with up := up } := by
      intro g hg
      rw [herrands] at hg
      exact List.mem_or_eq_of_mem_set hg
    refine ⟨?_,?_,?_⟩
    · intro g hg
      rcases hcases g hg with hg | rfl
      · exact hs.routable g hg
      · exact hs.routable f hmem
    · intro g hg
      rcases hcases g hg with hg | rfl
      · exact hs.underWay g hg
      · exact hunder
    · intro g hg htold
      rcases htable with ⟨htable,hkeeps⟩ | htable
      · rw [htable]
        rcases hcases g hg with hg | rfl
        · exact hs.entered g hg htold
        · exact hs.entered f hmem (hkeeps htold)
      · rw [htable]
        rcases hcases g hg with hg | rfl
        · exact ClusterMap.set_owner (hs.entered g hg htold) _
        · exact if_pos ⟨rfl,rfl⟩

theorem Traffic.sound_start (h : Handler) (conf : UpstreamConf) (c : StableCluster) (table : ClusterMap) :
    Traffic.Sound h conf c ⟨table,[]⟩ where
  routable := fun _ hf => absurd hf List.not_mem_nil
  underWay := fun _ hf => absurd hf List.not_mem_nil
  entered := fun _ hf => absurd hf List.not_mem_nil

theorem Traffic.Sound.run (hconf : conf.Redirects) (hs : s.Sound h conf c) {es : List TrafficEvent}
    (hes : ∀ e ∈ es, e.Routable h c) (hrun : Machine.run (trafficStep h conf c) s es = some s') :
    s'.Sound h conf c := by
  refine Machine.invariant_run ?_ hs (Machine.along_of_forall hes) hrun
  intro t e t' ht he hstep
  exact ht.step hconf he hstep

theorem sum_map_set {α : Type} (w : α → Nat) {l : List α} {i : Nat} {a b : α} (h : l[i]? = some a) :
    ((l.set i b).map w).sum + w a = (l.map w).sum + w b := by
  induction l generalizing i with
  | nil => cases h
  | cons x l ih =>
    cases i with
    | zero =>
      cases h
      simp only [List.set_cons_zero, List.map_cons, List.sum_cons]
      omega
    | succ i =>
      have hrest := ih h
      simp only [List.set_cons_succ, List.map_cons, List.sum_cons]
      omega

theorem trafficStep_seen (hconf : conf.Redirects) (hs : s.Sound h conf c)
    (hstep : trafficStep h conf c s e = some s') :
    s'.errands.length + (s'.errands.map fun f => f.up.seen).sum =
      s.errands.length + (s.errands.map fun f => f.up.seen).sum + 1 := by
  rcases trafficStep_cases hconf hs hstep with ⟨request,reply,node,rfl,-,rfl⟩ | ⟨i,f,up,hf,-,hseen,herrands,-⟩
  · have hnew : (Upstream.start conf { request with nodeIp := node }).seen = 0 := rfl
    simp only [List.length_append, List.length_singleton, List.map_append, List.map_singleton, List.sum_append,
      List.sum_singleton, hnew]
    omega
  · have hsum := sum_map_set (fun g : Errand => g.up.seen) (b := { f with up := up }) hf
    rw [herrands, List.length_set]
    simp only at hsum
    omega

theorem run_seen (hconf : conf.Redirects) (hs : s.Sound h conf c) {es : List TrafficEvent}
    (hes : ∀ e ∈ es, e.Routable h c) (hrun : Machine.run (trafficStep h conf c) s es = some s') :
    s'.errands.length + (s'.errands.map fun f => f.up.seen).sum =
      s.errands.length + (s.errands.map fun f => f.up.seen).sum + es.length := by
  induction es generalizing s with
  | nil =>
    cases hrun
    rfl
  | cons e es ih =>
    obtain ⟨he,hes⟩ := List.forall_mem_cons.mp hes
    obtain ⟨t,hstep,hrest⟩ := Machine.run_cons_eq_some.mp hrun
    have hfirst := trafficStep_seen hconf hs hstep
    have hlater := ih (hs.step hconf he hstep) hes hrest
    rw [List.length_cons]
    omega

end System

section Examples

/-- A cluster with one owner, and a table that has it nowhere. -/
def movedCluster : StableCluster where
  name := text "c1"
  owner := fun _ => text "10.0.0.2:7000"
  accepted := fun _ => ⟨text "10.0.0.2",text "7000",by decide,by decide,by decide⟩
  word := fun _ => by
    have hall : (text "10.0.0.2:7000").all (fun c => c != 32 && c != 13) = true := rfl
    refine ⟨List.cons_ne_nil _ _,fun c hc => ?_⟩
    simpa using List.all_eq_true.mp hall c hc

def oldTable : ClusterMap := fun _ _ => some (text "10.0.0.1:7000")

def delRequest : Request :=
  { Request.fresh with
    commandType := .del
    namespaces := text "aa"
    key := text "k"
    clusterName := text "c1"
    tries := 4
    protoStr := arrayHeader 2 ++ [text "DEL",text "aa" ++ text "k"].flatMap encBulk }

def oldHandler : Handler := yajlHandler literalProto [] 2 fun _ => []

theorem delRequest_routable :
    Routable oldHandler movedCluster delRequest (encode (.integer 1)) where
  cluster := rfl
  code := rfl
  single := rfl
  tries := by decide
  sent := by decide
  conclusive := conclusive_of_decoded _ _ _ _ (by decide) fun stack scripts nodeIp nowTries =>
    ⟨_,redisProtoDecode_integer _ stack scripts none rfl rfl,rfl⟩

def twoRedirected : List TrafficEvent :=
  [.start delRequest (encode (.integer 1)),.start delRequest (encode (.integer 1)),.connect 1 emptyWorld.shared.scripts
    emptyWorld.stack false,.connect 0 emptyWorld.shared.scripts emptyWorld.stack true,
    .answer 1 emptyWorld.shared.scripts emptyWorld.stack,.answer 0 emptyWorld.shared.scripts emptyWorld.stack,
    .connect 1 emptyWorld.shared.scripts emptyWorld.stack false,.answer 1 emptyWorld.shared.scripts emptyWorld.stack]

def oneMore : List TrafficEvent :=
  [.start delRequest (encode (.integer 1)),.connect 2 emptyWorld.shared.scripts emptyWorld.stack false,
    .answer 2 emptyWorld.shared.scripts emptyWorld.stack]

theorem twoRedirected_runs :
    ∃ s, Machine.run (trafficStep oldHandler (tableConf 3 2) movedCluster) ⟨oldTable,[]⟩ twoRedirected = some s ∧
      (∃ f ∈ s.errands, f.up.Told) ∧
      ∃ s', Machine.run (trafficStep oldHandler (tableConf 3 2) movedCluster) s oneMore = some s' := by
  have hrun : (Machine.run (trafficStep oldHandler (tableConf 3 2) movedCluster) ⟨oldTable,[]⟩ twoRedirected).any
      (fun s => s.errands.any (fun f => decide (2 ≤ f.up.attempts.length)) &&
        (Machine.run (trafficStep oldHandler (tableConf 3 2) movedCluster) s oneMore).isSome) = true := by
    decide +kernel
  cases hs : Machine.run (trafficStep oldHandler (tableConf 3 2) movedCluster) ⟨oldTable,[]⟩ twoRedirected with
  | none =>
    rw [hs] at hrun
    cases hrun
  | some s =>
    rw [hs] at hrun
    obtain ⟨htold,hmore⟩ := Bool.and_eq_true_iff.mp hrun
    obtain ⟨f,hf,hlength⟩ := List.any_eq_true.mp htold
    exact ⟨s,rfl,⟨f,hf,.inr (of_decide_eq_true hlength)⟩,Option.isSome_iff_exists.mp hmore⟩

theorem tableConf_redirects : (tableConf 3 2).Redirects := ⟨rfl,⟨rfl,le_rfl⟩,.inr (by decide)⟩

theorem twoRedirected_routable : ∀ e ∈ twoRedirected ++ oneMore, e.Routable oldHandler movedCluster := by
  simp only [twoRedirected, oneMore, List.cons_append, List.nil_append, List.forall_mem_cons, TrafficEvent.Routable,
    delRequest_routable, true_and, List.not_mem_nil, IsEmpty.forall_iff, implies_true]

end Examples

section Owners

variable {h : Handler} {conf : UpstreamConf} {c : StableCluster} (table : ClusterMap)
variable {es fs : List TrafficEvent} {s s' : Traffic}

/-- However many requests are on their way and however their steps are mixed, each of them is answered by the owner of
its slot, at the first attempt if the table had the owner when it came in and at the second otherwise. No request is
stuck, and none has more than four events behind its arrival. -/
theorem requests_reach_owner (hconf : conf.Redirects) (hes : ∀ e ∈ es, e.Routable h c)
    (hrun : Machine.run (trafficStep h conf c) ⟨table,[]⟩ es = some s) :
    (∀ f ∈ s.errands,
      (∀ outcome, f.up.stage = .done outcome →
        outcome = .response ∧ (Direct c f.request f.up.attempts ∨ Detour c f.request f.up.attempts)) ∧
      ∀ world : World, (∃ outcome, f.up.stage = .done outcome) ∨
        (∀ cached : Bool, ∃ v, step h conf f.up (.connect world [] (if cached then .cached else .ok)) = some v) ∨
        ∃ v, step h conf f.up (.read world (f.answer c)) = some v) ∧
    es.length ≤ 5 * s.errands.length := by
  have hsound := (Traffic.sound_start h conf c table).run hconf hes hrun
  refine ⟨fun f hf => ⟨?_,?_⟩,?_⟩
  · intro outcome hdone
    generalize hup : f.up = up at hdone
    have hunder := hsound.underWay f hf
    rw [hup] at hunder
    cases hunder with
    | fresh => cases hdone
    | asked => cases hdone
    | turned => cases hdone
    | again => cases hdone
    | answered hresponse _ hattempts =>
      cases hresponse.symm.trans hdone
      exact ⟨rfl,hattempts⟩
  · intro world
    rcases (hsound.underWay f hf).goes_on (hsound.routable f hf) world with hdone | ⟨-,hv⟩ | ⟨-,hv⟩
    · exact .inl ⟨_,hdone⟩
    · exact .inr (.inl hv)
    · exact .inr (.inr hv)
  · have hseen := run_seen hconf (Traffic.sound_start h conf c table) hes hrun
    have hbound : (s.errands.map fun f => f.up.seen).sum ≤ s.errands.length * 4 := by
      have hle := List.sum_le_card_nsmul (s.errands.map fun f => f.up.seen) 4 (by
        intro n hn
        obtain ⟨f,hf,rfl⟩ := List.mem_map.mp hn
        exact (hsound.underWay f hf).seen_le)
      simpa using hle
    simp only [List.length_nil, List.map_nil, List.sum_nil] at hseen
    omega

theorem requests_reach_owner_two :
    ∃ s, Machine.run (trafficStep oldHandler (tableConf 3 2) movedCluster) ⟨oldTable,[]⟩ twoRedirected = some s ∧
      (∀ f ∈ s.errands,
        (∀ outcome, f.up.stage = .done outcome → outcome = .response ∧
          (Direct movedCluster f.request f.up.attempts ∨ Detour movedCluster f.request f.up.attempts)) ∧
        ∀ world : World, (∃ outcome, f.up.stage = .done outcome) ∨
          (∀ cached : Bool, ∃ v, step oldHandler (tableConf 3 2) f.up
            (.connect world [] (if cached then .cached else .ok)) = some v) ∨
          ∃ v, step oldHandler (tableConf 3 2) f.up (.read world (f.answer movedCluster)) = some v) ∧
      twoRedirected.length ≤ 5 * s.errands.length := by
  obtain ⟨s,hs,-⟩ := twoRedirected_runs
  exact ⟨s,hs,requests_reach_owner oldTable tableConf_redirects
    (fun e he => twoRedirected_routable e (List.mem_append_left _ he)) hs⟩

/-- The owner of the slot is in the table, and the requests behind the first `n` have gone to it. -/
structure Learned (c : StableCluster) (slot n : Nat) (s : Traffic) : Prop where
  entry : s.table c.name slot = some (c.owner slot)
  count : n ≤ s.errands.length
  direct : ∀ g ∈ s.errands.drop n, g.request.slot = slot → g.request.nodeIp = c.owner slot

theorem Learned.step {slot n : Nat} {e : TrafficEvent} (hconf : conf.Redirects) (hs : s.Sound h conf c)
    (hl : Learned c slot n s) (hstep : trafficStep h conf c s e = some s') : Learned c slot n s' := by
  rcases trafficStep_cases hconf hs hstep with ⟨request,reply,node,rfl,hnode,rfl⟩ | ⟨i,f,up,hf,-,-,herrands,htable⟩
  · refine ⟨hl.entry,?_,?_⟩
    · rw [List.length_append]
      exact hl.count.trans (Nat.le_add_right _ _)
    · intro g hg hslot
      rw [List.drop_append_of_le_length hl.count] at hg
      rcases List.mem_append.mp hg with hg | hg
      · exact hl.direct g hg hslot
      · cases List.mem_singleton.mp hg
        have hsame : request.slot = slot := hslot
        rw [hsame, hl.entry] at hnode
        exact (Option.some.inj hnode).symm
  · refine ⟨?_,?_,?_⟩
    · rcases htable with ⟨htable,-⟩ | htable
      · rw [htable]
        exact hl.entry
      · rw [htable]
        exact ClusterMap.set_owner hl.entry _
    · rw [herrands, List.length_set]
      exact hl.count
    · intro g hg hslot
      rw [herrands, List.drop_set] at hg
      split at hg
      · exact hl.direct g hg hslot
      · rename_i hle
        rcases List.mem_or_eq_of_mem_set hg with hg | rfl
        · exact hl.direct g hg hslot
        · have hmem : f ∈ s.errands.drop n := by
            apply List.mem_of_getElem? (i := i - n)
            rw [List.getElem?_drop, ← hf]
            congr 1
            omega
          exact hl.direct f hmem hslot

/-- No request has more than two attempts, and once one request for a slot has been redirected, no request for that slot
that comes in later is. -/
theorem one_redirection_suffices (hconf : conf.Redirects) (hes : ∀ e ∈ es, e.Routable h c)
    (hrun : Machine.run (trafficStep h conf c) ⟨table,[]⟩ es = some s) {f : Errand} (hf : f ∈ s.errands)
    (htold : f.up.Told) (hfs : ∀ e ∈ fs, e.Routable h c)
    (hlater : Machine.run (trafficStep h conf c) s fs = some s') :
    (∀ g ∈ s'.errands, g.up.attempts.length ≤ 2) ∧
    ∀ g ∈ s'.errands.drop s.errands.length, g.request.slot = f.request.slot →
      g.request.nodeIp = c.owner f.request.slot ∧ ¬ g.up.Told := by
  have hsound := (Traffic.sound_start h conf c table).run hconf hes hrun
  have hstart : Learned c f.request.slot s.errands.length s :=
    ⟨hsound.entered f hf htold,le_rfl,by rw [List.drop_length]; exact fun _ hg => absurd hg List.not_mem_nil⟩
  have hend : s'.Sound h conf c ∧ Learned c f.request.slot s.errands.length s' := by
    refine Machine.invariant_run (I := fun t => t.Sound h conf c ∧ Learned c f.request.slot s.errands.length t)
      ?_ ⟨hsound,hstart⟩ (Machine.along_of_forall hfs) hlater
    intro t e t' ht he hstep
    exact ⟨ht.1.step hconf he hstep,ht.2.step hconf ht.1 hstep⟩
  refine ⟨fun g hg => (hend.1.underWay g hg).attempts_le,?_⟩
  intro g hg hslot
  have hnode := hend.2.direct g hg hslot
  exact ⟨hnode,(hend.1.underWay g (List.mem_of_mem_drop hg)).not_told (hnode.trans (by rw [hslot]))⟩

theorem one_redirection_suffices_two :
    ∃ s s' f, Machine.run (trafficStep oldHandler (tableConf 3 2) movedCluster) ⟨oldTable,[]⟩ twoRedirected = some s ∧
      f ∈ s.errands ∧ f.up.Told ∧
      Machine.run (trafficStep oldHandler (tableConf 3 2) movedCluster) s oneMore = some s' ∧
      (∀ g ∈ s'.errands, g.up.attempts.length ≤ 2) ∧
      ∀ g ∈ s'.errands.drop s.errands.length, g.request.slot = f.request.slot →
        g.request.nodeIp = movedCluster.owner f.request.slot ∧ ¬ g.up.Told := by
  obtain ⟨s,hs,⟨f,hf,htold⟩,s',hs'⟩ := twoRedirected_runs
  exact ⟨s,s',f,hs,hf,htold,hs',one_redirection_suffices oldTable tableConf_redirects
    (fun e he => twoRedirected_routable e (List.mem_append_left _ he)) hs hf htold
    (fun e he => twoRedirected_routable e (List.mem_append_right _ he)) hs'⟩

end Owners

end QkPack
