import QkPack.FanOut.DeliveredRounds
import QkPack.Lib.Parts

/-!
# Fan-out requests among other clients

Between any two steps of a request the other clients may turn the store into any other one. A rule for a request says
what each of its sub-requests does to the store it finds. The request is then a task of several parts: every sub-request
is done at once, and none of them twice.
-/

namespace QkPack
open Wire CString Resp

/-- A step of the request, or the store after something that others have done. -/
inductive AmongEvent where
  | own (e : DeliveryEvent)
  | others (store : Redis.Store)

def AmongEvent.foreign : AmongEvent → List Redis.Store
  | .own _ => []
  | .others store => [store]

def AmongEvent.SentWith (P : ScriptCache → Prop) : AmongEvent → Prop
  | .own e => e.SentWith P
  | .others _ => True

def amongStep (h : Handler) (limits : Limits) (conf : UpstreamConf) (node : Redis.Node) (d : Delivery) :
    AmongEvent → Option Delivery
  | .own e => deliveryStep h limits conf node d e
  | .others store => some { d with store := store }

section Pending

variable {ι : Type}

def pending : List ι → List Flight → List ι
  | i :: parts, flight :: flights => if flight.isAnswered then pending parts flights else i :: pending parts flights
  | _, _ => []

theorem pending_set_sent {parts : List ι} {flights : List Flight} {n : Nat} {flight flight' : Flight}
    (hn : flights[n]? = some flight) (hsame : flight'.isAnswered = flight.isAnswered) :
    pending parts (flights.set n flight') = pending parts flights := by
  induction flights generalizing parts n with
  | nil => cases hn
  | cons first flights ih =>
    cases parts with
    | nil => cases n <;> rfl
    | cons i parts =>
      cases n with
      | zero =>
        cases hn
        rw [List.set_cons_zero, pending, pending, hsame]
      | succ n => rw [List.set_cons_succ, pending, pending, ih hn]

theorem pending_set_answered {parts : List ι} {flights : List Flight} {n : Nat} {i : ι} {flight : Flight}
    (hi : parts[n]? = some i) (hn : flights[n]? = some flight) (hopen : flight.isAnswered = false) :
    (pending parts flights).Perm (i :: pending parts (flights.set n .answered)) := by
  induction flights generalizing parts n with
  | nil => cases hn
  | cons first flights ih =>
    cases parts with
    | nil => cases hi
    | cons j parts =>
      cases n with
      | zero =>
        cases hi
        cases hn
        rw [List.set_cons_zero, pending, pending, hopen]
        exact .refl _
      | succ n =>
        rw [List.getElem?_cons_succ] at hi hn
        have hrest := ih hi hn
        rw [List.set_cons_succ, pending, pending]
        split
        · exact hrest
        · exact (hrest.cons j).trans (.swap i j _)

theorem pending_of_all {parts : List ι} {flights : List Flight} (hall : flights.all Flight.isAnswered = true) :
    pending parts flights = [] := by
  induction flights generalizing parts with
  | nil => cases parts <;> rfl
  | cons flight flights ih =>
    rw [List.all_cons, Bool.and_eq_true] at hall
    cases parts with
    | nil => rfl
    | cons i parts => rw [pending, if_pos hall.1, ih hall.2]

theorem pending_waiting (sub : ι → SubRequest) (parts : List ι) :
    pending parts ((parts.map sub).map Flight.waiting) = parts := by
  induction parts with
  | nil => rfl
  | cons i parts ih =>
    rw [List.map_cons, List.map_cons, pending, if_neg (by simp [Flight.isAnswered]), ih]

end Pending

/-- What a request does in parts: `sub i` is the sub-request of the part `i`. -/
structure PartRule (h : Handler) (limits : Limits) (conf : UpstreamConf) (node : Redis.Node) (ι α : Type)
    [DecidableEq ι] where
  request : Request
  parts : List ι
  sub : ι → SubRequest
  /-- What a part does to the store and adds to what has been found. -/
  act : ι → Redis.Store → α → Option (Redis.Store × α)
  found : α
  Cache : ScriptCache → Prop
  /-- The parent, when some parts are left, and some of them for later rounds. -/
  Inv : Request → List ι → List ι → α → Prop
  Sent : ι → Request → Prop
  Shows : Request → α → Prop
  first : ∃ p now later, createSubRequestBody h limits ⟨request,[],[]⟩ = (.again,p) ∧ p.subrequest = now.map sub ∧
    p.vectorSub = later.map sub ∧ now ++ later = parts ∧ Inv p.request parts later found
  send : ∀ {i left later found parent shared nodeIp built}, i ∈ parts → Cache shared.scripts →
    Inv parent left later found → sendSub h conf shared nodeIp parent (sub i) = some built → Sent i built
  serve : ∀ {i left later found store parent shared stack built store' parent'}, i ∈ parts →
    Inv parent left later found → Sent i built →
    serveSub h node shared stack store parent built = some (store',parent') →
    ∃ found', act i store found = some (store',found') ∧ Inv parent' (left.erase i) later found'
  again : ∀ {left later found q p}, Inv q.request left later found → q.vectorSub = later.map sub →
    createSubRequestBody h limits q = (.again,p) → ∃ now later', p.subrequest = now.map sub ∧
      p.vectorSub = later'.map sub ∧ now ++ later' = later ∧ Inv p.request left later' found
  ends : ∀ {left later found rc q p}, Inv q.request left later found → q.vectorSub = later.map sub →
    createSubRequestBody h limits q = (rc,p) → rc ≠ .again → rc ≠ .error →
    later = [] ∧ (left = [] → Shows p.request found)

namespace PartRule

variable {h : Handler} {limits : Limits} {conf : UpstreamConf} {node : Redis.Node} {ι α : Type} [DecidableEq ι]
variable (rule : PartRule h limits conf node ι α)

inductive Flies (i : ι) : Flight → Prop
  | waiting : Flies i (.waiting (rule.sub i))
  | sent {request : Request} (hsent : rule.Sent i request) : Flies i (.sent request)
  | answered : Flies i .answered

/-- A round is under way, and `later` comes behind it. -/
structure Holds (now later : List ι) (d : Delivery) (task : Parts.Task ι Redis.Store α) : Prop where
  known : ∀ i ∈ now, i ∈ rule.parts
  laterKnown : ∀ i ∈ later, i ∈ rule.parts
  inv : rule.Inv d.parent.request task.left later task.found
  flights : List.Forall₂ rule.Flies now d.flights
  vectorSub : d.parent.vectorSub = later.map rule.sub
  left : task.left.Perm (pending now d.flights ++ later)

structure Fresh (d : Delivery) (task : Parts.Task ι Redis.Store α) : Prop where
  parent : d.parent = ⟨rule.request,[],[]⟩
  flights : d.flights = []
  left : task.left = rule.parts
  found : task.found = rule.found

/-- How far the request and the task are. -/
structure Follows (d : Delivery) (task : Parts.Task ι Redis.Store α) : Prop where
  store : task.store = d.store
  before : d.final = none → rule.Fresh d task ∨ ∃ now later, rule.Holds now later d task
  after : d.final = some .ok → task.left = [] ∧ rule.Shows d.parent.request task.found

variable {rule} {d d' : Delivery} {task : Parts.Task ι Redis.Store α} {now later : List ι}

theorem holds_of_waiting (hinv : rule.Inv d.parent.request task.left later task.found)
    (hknown : ∀ i ∈ now ++ later, i ∈ rule.parts) (hflights : d.flights = (now.map rule.sub).map .waiting)
    (hvector : d.parent.vectorSub = later.map rule.sub) (hleft : task.left.Perm (now ++ later)) :
    rule.Holds now later d task := by
  refine ⟨fun i hi => hknown i (List.mem_append_left _ hi),fun i hi => hknown i (List.mem_append_right _ hi),hinv,?_,
    hvector,?_⟩
  · rw [hflights, List.map_map, List.forall₂_map_right_iff, List.forall₂_same]
    intro i _
    exact .waiting
  · rwa [hflights, pending_waiting]

theorem Holds.step (hd : rule.Holds now later d task) (hstore : task.store = d.store) {e : DeliveryEvent}
    (he : e ≠ .post) (hcache : e.SentWith rule.Cache) (hstep : deliveryStep h limits conf node d e = some d') :
    ∃ turns task', Machine.run (Parts.step rule.act) task turns = some task' ∧
      turns.flatMap Parts.Turn.foreign = [] ∧ task'.store = d'.store ∧ rule.Holds now later d' task' := by
  cases e with
  | send n shared nodeIp =>
    obtain ⟨sub,request,hn,hsend,rfl⟩ := deliveryStep_send hstep
    obtain ⟨i,hi,hflies,hset⟩ := forall₂_replace hd.flights hn
    cases hflies
    have hsent := rule.send (hd.known i (List.mem_of_getElem? hi)) hcache hd.inv hsend
    refine ⟨[],task,rfl,rfl,hstore,hd.known,hd.laterKnown,hd.inv,?_,hd.vectorSub,?_⟩
    · exact hset (.sent hsent) fun _ _ _ _ _ hother => hother
    · have hsame : (Flight.sent request).isAnswered = (Flight.waiting (rule.sub i)).isAnswered := rfl
      simpa only [pending_set_sent hn hsame] using hd.left
  | serve n shared stack =>
    obtain ⟨request,store',parent',hn,hserve,rfl⟩ := deliveryStep_serve hstep
    obtain ⟨i,hi,hflies,hset⟩ := forall₂_replace hd.flights hn
    cases hflies with
    | sent hsent =>
      obtain ⟨found',hact,hinv⟩ := rule.serve (hd.known i (List.mem_of_getElem? hi)) hd.inv hsent hserve
      have hopen := pending_set_answered hi hn rfl
      -- the part is one of those that are left
      have hleft : task.left.Perm (i :: (pending now (d.flights.set n .answered) ++ later)) :=
        hd.left.trans (hopen.append_right later)
      have hmem : i ∈ task.left := hleft.mem_iff.mpr List.mem_cons_self
      refine ⟨[.part i],⟨store',task.left.erase i,found'⟩,Machine.run_single (Parts.step_part hmem (hstore ▸ hact)),rfl,
        rfl,hd.known,hd.laterKnown,hinv,?_,hd.vectorSub,?_⟩
      · exact hset .answered fun _ _ _ _ _ hother => hother
      · have herase := hleft.erase i
        rwa [List.erase_cons_head] at herase
  | post => exact absurd rfl he

theorem Holds.again (hd : rule.Holds now later d task) (hall : d.flights.all Flight.isAnswered = true) {p : Parent}
    (hcreate : createSubRequestBody h limits d.parent = (.again,p)) :
    ∃ now' later', rule.Holds now' later' { d with parent := p, flights := p.subrequest.map .waiting } task := by
  obtain ⟨now',later',hsubs,hvector,rfl,hinv⟩ := rule.again hd.inv hd.vectorSub hcreate
  have hleft := hd.left
  rw [pending_of_all hall, List.nil_append] at hleft
  exact ⟨now',later',holds_of_waiting hinv hd.laterKnown (congrArg _ hsubs) hvector hleft⟩

theorem Holds.over (hd : rule.Holds now later d task) (hall : d.flights.all Flight.isAnswered = true) {rc : QkpackRc}
    {p : Parent} (hcreate : createSubRequestBody h limits d.parent = (rc,p)) (hagain : rc ≠ .again)
    (herror : rc ≠ .error) : task.left = [] ∧ rule.Shows p.request task.found := by
  obtain ⟨rfl,hshows⟩ := rule.ends hd.inv hd.vectorSub hcreate hagain herror
  have hleft := hd.left
  rw [pending_of_all hall, List.append_nil] at hleft
  have hnil := hleft.eq_nil
  exact ⟨hnil,hshows hnil⟩

theorem Fresh.post (hd : rule.Fresh d task) {rc : QkpackRc} {p : Parent}
    (hcreate : createSubRequestBody h limits d.parent = (rc,p)) : rc = .again ∧
      ∃ now later, rule.Holds now later { d with parent := p, flights := p.subrequest.map .waiting } task := by
  obtain ⟨p',now,later,hfirst,hsubs,hvector,hparts,hinv⟩ := rule.first
  rw [hd.parent] at hcreate
  cases hfirst.symm.trans hcreate
  refine ⟨rfl,now,later,holds_of_waiting ?_ (fun i hi => hparts ▸ hi) (congrArg _ hsubs) hvector ?_⟩
  · rw [hd.left, hd.found]
    exact hinv
  · rw [hd.left, hparts]

theorem Follows.post (hd : rule.Follows d task) (hstep : deliveryStep h limits conf node d .post = some d') :
    rule.Follows d' task := by
  have hopen := deliveryStep_open hstep
  obtain ⟨hall,⟨p,hprocess,rfl⟩ | ⟨rc,p,hrc,hprocess,rfl⟩⟩ := deliveryStep_post hstep
  · have hcreate := processParent_again hprocess
    refine ⟨hd.store,fun _ => .inr ?_,fun hfinal => nomatch hopen.symm.trans hfinal⟩
    rcases hd.before hopen with hfresh | ⟨now,later,hholds⟩
    · exact (hfresh.post hcreate).2
    · exact hholds.again hall hcreate
  · refine ⟨hd.store,fun hnone => (nomatch hnone),fun hfinal => ?_⟩
    obtain ⟨hcreate,herror⟩ := processParent_ok hprocess (Option.some.inj hfinal)
    rcases hd.before hopen with hfresh | ⟨now,later,hholds⟩
    · exact absurd (hfresh.post hcreate).1 hrc
    · exact hholds.over hall hcreate hrc herror

theorem Follows.step (hd : rule.Follows d task) {e : AmongEvent} (hcache : e.SentWith rule.Cache)
    (hstep : amongStep h limits conf node d e = some d') :
    ∃ turns task', Machine.run (Parts.step rule.act) task turns = some task' ∧
      turns.flatMap Parts.Turn.foreign = e.foreign ∧ rule.Follows d' task' := by
  cases e with
  | own e =>
    by_cases he : e = .post
    · subst he
      exact ⟨[],task,rfl,rfl,hd.post hstep⟩
    · have hopen := deliveryStep_open hstep
      have hfinal := deliveryStep_final he hstep
      rcases hd.before hopen with hfresh | ⟨now,later,hholds⟩
      · exact absurd hstep (answered_no_flights (by rw [hfresh.flights]; rfl) he)
      · obtain ⟨turns,task',hrun,hforeign,hstore,hholds'⟩ := hholds.step hd.store he hcache hstep
        exact ⟨turns,task',hrun,hforeign,hstore,fun _ => .inr ⟨now,later,hholds'⟩,
          fun hok => nomatch hfinal.symm.trans hok⟩
  | others store =>
    cases hstep
    refine ⟨[.others store],{ task with store := store },rfl,rfl,rfl,fun hopen => ?_,hd.after⟩
    rcases hd.before hopen with hfresh | ⟨now,later,hholds⟩
    · exact .inl ⟨hfresh.parent,hfresh.flights,hfresh.left,hfresh.found⟩
    · exact .inr ⟨now,later,hholds.known,hholds.laterKnown,hholds.inv,hholds.flights,hholds.vectorSub,hholds.left⟩

/-- A request that is answered has done all its parts, each of them at once and only once. -/
theorem among_others (rule : PartRule h limits conf node ι α) {store : Redis.Store} {es : List AmongEvent}
    (hcaches : ∀ e ∈ es, e.SentWith rule.Cache)
    (hrun : Machine.run (amongStep h limits conf node) (Delivery.start rule.request store) es = some d)
    (hfinal : d.final = some .ok) :
    ∃ turns found, turns.flatMap Parts.Turn.foreign = es.flatMap AmongEvent.foreign ∧
      Machine.run (Parts.step rule.act) ⟨store,rule.parts,rule.found⟩ turns = some ⟨d.store,[],found⟩ ∧
        (turns.flatMap Parts.Turn.done).Perm rule.parts ∧ rule.Shows d.parent.request found := by
  have hstart : rule.Follows (Delivery.start rule.request store) ⟨store,rule.parts,rule.found⟩ :=
    ⟨rfl,fun _ => .inl ⟨rfl,rfl,rfl,rfl⟩,fun hok => (nomatch hok)⟩
  obtain ⟨turns,⟨store',left,found⟩,hturns,hforeign,hend⟩ : ∃ turns task,
      Machine.run (Parts.step rule.act) ⟨store,rule.parts,rule.found⟩ turns = some task ∧
        turns.flatMap Parts.Turn.foreign = es.flatMap AmongEvent.foreign ∧ rule.Follows d task :=
    Machine.observed_run (fun hd hcache hstep => hd.step hcache hstep) hstart hcaches hrun
  obtain ⟨hleft,hshows⟩ := hend.after hfinal
  have hstore := hend.store
  have hparts := Parts.run_left hturns
  simp only at hleft hstore
  subst hleft hstore
  rw [List.append_nil] at hparts
  exact ⟨turns,found,hforeign,hturns,hparts.symm,hshows⟩

end PartRule

end QkPack
