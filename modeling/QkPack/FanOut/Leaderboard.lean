import QkPack.FanOut.BatchOrder
import QkPack.FanOut.FixedSetAdd
import QkPack.FanOut.MsetOrder
import QkPack.Protocol.FixedSize

/-!
# Many clients add to one set

Any number of requests add members to one set of a fixed size. Their sub-requests may be on their way at the same time
and are carried out in any order, while other keys change. The set has the greatest of all the members that were ever
added, whatever the order was.
-/

namespace QkPack
open Wire CString Resp

/-- Members that a sub-request adds to a set: what it was made from, and what is around when it is answered. -/
structure Adding where
  parent : Request
  ms : List Member
  built : Request
  shared : Shared
  reading : Request
  stack : Nat → Bytes
  /-- The members as the server reads them. -/
  placed : List (Bulk × Double)

/-- A sub-request is carried out and answered, or another key changes. -/
inductive BoardEvent where
  | add (a : Adding)
  | other (key : Bytes) (entry : Option Redis.Entry)

def BoardEvent.placed : BoardEvent → List (Bulk × Double)
  | .add a => a.placed
  | .other _ _ => []

def boardStep (h : Handler) (node : Redis.Node) (store : Redis.Store) : BoardEvent → Option Redis.Store
  | .add a => (serveSub h node a.shared a.stack store a.reading a.built).map Prod.fst
  | .other key entry => some (Function.update store key entry)

/-- The members are for the set `key` of the tenant `ns`, which has room for `n` of them and is kept for some time. The
sub-request was sent at some time before. -/
structure Adding.AddsTo (h : Handler) (conf : UpstreamConf) (node : Redis.Node) (ns key : Bytes) (n : Nat)
    (a : Adding) : Prop where
  tenant : a.parent.namespaces = ns
  command : a.parent.commandType = .zadd
  sets : a.parent.mapKv = [(key,limitFirst n (memberKvs a.ms))]
  nonempty : a.ms ≠ []
  few : a.ms.length < 2 ^ 31
  short : (ns ++ key).length < 2 ^ 31
  names : ∀ m ∈ a.ms, (ns ++ m.name).length < 2 ^ 31
  exptime : 0 < a.parent.exptime ∧ a.parent.exptime < 2 ^ 31
  sent : ∃ shared nodeIp, Registered node shared.scripts ∧
    sendSub h conf shared nodeIp a.parent (keySub .zadd ns key) = some a.built
  placed : List.Forall₂ (Placed node.numbers) (addedPairs ns a.ms) a.placed

def BoardEvent.On (h : Handler) (conf : UpstreamConf) (node : Redis.Node) (ns key : Bytes) (n : Nat) :
    BoardEvent → Prop
  | .add a => a.AddsTo h conf node ns key n
  | .other changed _ => changed ≠ ns ++ key

/-- The set has the greatest of the members `all`. -/
def Keeps (ns key : Bytes) (n : Nat) (store : Redis.Store) (all : List (Bulk × Double)) : Prop :=
  ∃ u, IsZset u ∧ u.Perm all ∧ Redis.members store (ns ++ key) = some (u.rtake n)

section Steps

variable {h : Handler} {conf : UpstreamConf} {node : Redis.Node} {ns key : Bytes} {n : Nat}
  {store store' : Redis.Store} {z all : List (Bulk × Double)}

theorem boardStep_add {a : Adding} (hproto : Registers node h.proto) (hlimit : n < 2 ^ 31)
    (ha : a.AddsTo h conf node ns key n) (hz : Redis.members store (ns ++ key) = some z)
    (hstep : boardStep h node store (.add a) = some store') :
    Redis.members store' (ns ++ key) = some (addAll n a.placed z) := by
  obtain ⟨rfl,hcommand,hsets,hsome,hfew,hshort,hnames,hexptime,⟨shared,nodeIp,hcache,hsend⟩,hplaced⟩ := ha
  obtain ⟨⟨store₁,p⟩,hserve,rfl⟩ := Option.map_eq_some_iff.mp hstep
  have hsent := add_sent hproto hcache hcommand hsets hsome hfew hshort hnames hsend
  obtain ⟨argv,reply,hparse,hexec,-⟩ := serveSub_eq_some hserve
  obtain ⟨sha,hknows,hargv⟩ := hsent.parsed
  cases hparse.symm.trans hargv
  have hcount : (addedPairs a.parent.namespaces a.ms).length = a.ms.length := by
    rw [addedPairs, List.length_map]
  have hroom : Redis.readInt (toString32 n) = some (n : Int) := readInt_toString32 (by omega) (by omega)
  have hkept := readInt_toString32 (n := a.parent.exptime) (by omega) hexptime.2
  obtain ⟨store₂,hscript,hmembers,-⟩ := exists_addZSetScript hroom hkept
    ((Redis.readNat_decimal _).trans (congrArg some hcount.symm)) hplaced hz
  have hone : 1 = [a.parent.namespaces ++ key].length := rfl
  rw [exec_evalsha hknows.2 hone, hscript] at hexec
  cases hexec
  rw [hmembers, if_pos hexptime.1]

theorem Keeps.step (hproto : Registers node h.proto) (hlimit : n < 2 ^ 31) (hkeeps : Keeps ns key n store all)
    {e : BoardEvent} (he : e.On h conf node ns key n) (hnew : ((all ++ e.placed).map (·.1.bytes)).Nodup)
    (hstep : boardStep h node store e = some store') : Keeps ns key n store' (all ++ e.placed) := by
  obtain ⟨u,hu,hperm,hmembers⟩ := hkeeps
  cases e with
  | add a =>
    have hdistinct : (a.placed.map (·.1.bytes) ++ u.map (·.1.bytes)).Nodup := by
      rw [List.map_append] at hnew
      exact ((List.perm_append_comm.trans ((hperm.map _).symm.append_left _)).nodup_iff).mp hnew
    obtain ⟨u',hu',hperm',hadd⟩ := exists_addAll (n := n) hu hdistinct
    refine ⟨u',hu',hperm'.trans (hperm.append_right _),?_⟩
    rw [boardStep_add hproto hlimit he hmembers hstep, hadd]
  | other changed entry =>
    cases hstep
    have hne : ns ++ key ≠ changed := Ne.symm he
    refine ⟨u,hu,hperm.trans (by rw [BoardEvent.placed, List.append_nil]),?_⟩
    rw [← hmembers, Redis.members, Redis.members, Function.update_of_ne hne]

theorem Keeps.run (hproto : Registers node h.proto) (hlimit : n < 2 ^ 31) {es : List BoardEvent}
    (hkeeps : Keeps ns key n store all) (hes : ∀ e ∈ es, e.On h conf node ns key n)
    (hnew : ((all ++ es.flatMap BoardEvent.placed).map (·.1.bytes)).Nodup)
    (hrun : Machine.run (boardStep h node) store es = some store') :
    Keeps ns key n store' (all ++ es.flatMap BoardEvent.placed) := by
  induction es generalizing store all with
  | nil =>
    cases hrun
    rwa [List.flatMap_nil, List.append_nil]
  | cons e es ih =>
    obtain ⟨he,hrest⟩ := List.forall_mem_cons.mp hes
    obtain ⟨store₁,hstep,hrun⟩ := Machine.run_cons_eq_some.mp hrun
    rw [List.flatMap_cons, ← List.append_assoc] at hnew ⊢
    have hfirst : ((all ++ e.placed).map (·.1.bytes)).Nodup :=
      hnew.sublist ((List.sublist_append_left _ _).map _)
    exact ih (hkeeps.step hproto hlimit he hfirst hstep) hrest hnew hrun

/-- A set that was empty at first has, in their order, the members with fewer than `n` above them among all that were
ever added to it. -/
theorem board_keeps_greatest (hproto : Registers node h.proto) (hlimit : n < 2 ^ 31) {es : List BoardEvent}
    (hempty : Redis.members store (ns ++ key) = some []) (hes : ∀ e ∈ es, e.On h conf node ns key n)
    (hnew : ((es.flatMap BoardEvent.placed).map (·.1.bytes)).Nodup)
    (hrun : Machine.run (boardStep h node) store es = some store') :
    ∃ z, Redis.members store' (ns ++ key) = some z ∧ z.Pairwise Redis.Below ∧
      ∀ p, p ∈ z ↔ p ∈ es.flatMap BoardEvent.placed ∧
        ((es.flatMap BoardEvent.placed).filter fun x => Redis.Below p x).length < n := by
  have hstart : Keeps ns key n store [] := by
    refine ⟨[],⟨.nil,.nil⟩,.nil,?_⟩
    rw [hempty, Greatest.rtake_of_length_le (Nat.zero_le n)]
  obtain ⟨u,hu,hperm,hmembers⟩ := hstart.run hproto hlimit hes hnew hrun
  rw [List.nil_append] at hperm
  refine ⟨u.rtake n,hmembers,(hu.rtake n).sorted,?_⟩
  intro p
  rw [Greatest.mem_rtake_iff hu.sorted, hperm.mem_iff, (hperm.filter _).length_eq]

end Steps

section Single

def addingOne (name : Bytes) (score : Double) : Request :=
  { Request.fresh with
    commandType := .zadd
    namespaces := text "ab"
    exptime := 60
    mapKv := [(text "s",limitFirst 1 (memberKvs [⟨name,text "5",score⟩]))] }

def sentOne (name : Bytes) (score : Double) : Option Request :=
  sendSub (scriptHandler literalProto) (tableConf 3 3) noScripts (text "10.0.0.1:7000") (addingOne name score)
    (keySub .zadd (text "ab") (text "s"))

def addedOne (name : Bytes) (score : Double) (placed : Bulk) : Adding where
  parent := addingOne name score
  ms := [⟨name,text "5",score⟩]
  built := (sentOne name score).getD Request.fresh
  shared := noScripts
  reading := addingOne name score
  stack := fun _ => []
  placed := [(placed,score)]

theorem addedOne_addsTo (name : Bytes) (score : Double) (placed : Bulk) (hsent : (sentOne name score).isSome = true)
    (hname : (text "ab" ++ name).length < 2 ^ 31) (hread : twoScores.numbers.read (Arg.score score).sent = some score)
    (hplaced : placed.bytes = text "ab" ++ name) :
    (addedOne name score placed).AddsTo (scriptHandler literalProto) (tableConf 3 3) (scriptNode twoScores.numbers)
      (text "ab") (text "s") 1 where
  tenant := rfl
  command := rfl
  sets := rfl
  nonempty := List.cons_ne_nil _ _
  few := (by decide : 1 < 2 ^ 31)
  short := by decide
  names := fun m hm => by
    rw [List.mem_singleton.mp hm]
    exact hname
  exptime := (by decide : (0 : Int) < 60 ∧ (60 : Int) < 2 ^ 31)
  sent := by
    obtain ⟨built,hbuilt⟩ := Option.isSome_iff_exists.mp hsent
    refine ⟨noScripts,text "10.0.0.1:7000",fun _ _ hne => absurd rfl hne,?_⟩
    rw [addedOne, hbuilt]
    exact hbuilt
  placed := .cons ⟨hread,hplaced⟩ .nil

/-- Both sub-requests were sent. The one with the higher member is carried out first, and another key changes before the
other one. -/
def twoAdds (high low : Bulk) : List BoardEvent :=
  [.add (addedOne (text "b") (.finite 1) high),.other (text "abb") none,.add (addedOne (text "a") (.finite 0) low)]

theorem board_keeps_greatest_one :
    ∃ high low store' z, Machine.run (boardStep (scriptHandler literalProto) (scriptNode twoScores.numbers))
        (fun _ => none) (twoAdds high low) = some store' ∧
      Redis.members store' (text "ab" ++ text "s") = some z ∧ (high,.finite 1) ∈ z ∧ (low,.finite 0) ∉ z := by
  let high : Bulk := ⟨text "abb",by decide⟩
  let low : Bulk := ⟨text "aba",by decide⟩
  have hruns : (Machine.run (boardStep (scriptHandler literalProto) (scriptNode twoScores.numbers))
      (fun _ => none) (twoAdds high low)).isSome = true := by decide +kernel
  obtain ⟨store',hrun⟩ := Option.isSome_iff_exists.mp hruns
  have hhigh := addedOne_addsTo (text "b") (.finite 1) high (by decide +kernel) (by decide) (by decide +kernel) rfl
  have hlow := addedOne_addsTo (text "a") (.finite 0) low (by decide +kernel) (by decide) (by decide +kernel) rfl
  have hes : ∀ e ∈ twoAdds high low, e.On (scriptHandler literalProto) (tableConf 3 3)
      (scriptNode twoScores.numbers) (text "ab") (text "s") 1 := by
    simp only [twoAdds, List.forall_mem_cons]
    exact ⟨hhigh,(by decide : text "abb" ≠ text "ab" ++ text "s"),hlow,List.forall_mem_nil _⟩
  obtain ⟨z,hz,-,hmem⟩ :=
    board_keeps_greatest (registers_scriptNode _ _) (by decide) rfl hes (by decide +kernel) hrun
  refine ⟨high,low,store',z,hrun,hz,(hmem _).mpr ⟨List.mem_cons_self,by decide +kernel⟩,fun hin => ?_⟩
  exact absurd ((hmem _).mp hin).2 (by decide +kernel)

end Single

end QkPack
