import QkPack.FanOut.FixedSetAdd
import QkPack.FanOut.MsetOrder

/-!
# The partition of a request by slots

The readers put the entries of a request under the slots of their keys, with the namespace from behind the last slash
of the URI. The encoders prepend the namespace of access control, from behind the third.
-/

namespace QkPack
open Wire CString Resp Json

section Listed

/-- A member of the set `key`, as the reader enters it. -/
def listedMember (key : Bytes) (mb : Tree) : Option (Bytes × KvPair) := do
  return (key,⟨← mb.getString "mb",← mb.getString "v",← mb.getNumber "sc",0⟩)

def listedMembers (set : Tree) : Option (List (Bytes × KvPair)) := do
  let key ← set.getString "k"
  (← set.getArray "mbs").mapM (listedMember key)

/-- The entries in the body of a request, in its order, each with the key of its set; keys without a set have none.
There are none if an entry is malformed. -/
def listedEntries (tree : Tree) : CommandType → Option (List (Bytes × KvPair))
  | .mget => do (← tree.getArray "ks").mapM fun value => return ([],.plain (← value.getString "k") [])
  | .mset => do
    (← tree.getArray "ks").mapM fun value => return ([],.plain (← value.getString "k") (← value.getString "v"))
  | .zadd => listedMembers tree
  | .zbatchadd => do return (← (← tree.getArray "ks").mapM listedMembers).flatten
  | _ => none

/-- The entries of a request under their slots: each slot once and with an entry, and under it the entries of the slot,
in their order. -/
structure SlotPartition (namespaces : Bytes) (entries : List KvPair) (slots : List (Int × List KvPair)) : Prop where
  once : SortedMap.Sorted slots
  peopled : ∀ entry ∈ slots, entry.2 ≠ []
  exact : ∀ slot, (slots.lookup slot).getD [] = entries.filter (·.slot namespaces = slot)

/-- In every slot, the entries stand in the order of the keys of their sets. -/
def InSetOrder (namespaces : Bytes) (pairs : List (Bytes × KvPair)) : Prop :=
  ∀ slot, ((SortedMap.byKey pairs).map (·.2)).filter (·.slot namespaces = slot) =
    (pairs.map (·.2)).filter (·.slot namespaces = slot)

variable {tree : Tree} {r : Request}

theorem slotPartition_nil_iff {namespaces : Bytes} {entries : List KvPair} :
    SlotPartition namespaces entries [] ↔ entries = [] := by
  constructor
  · intro h
    by_contra hne
    obtain ⟨kv,hkv⟩ := List.exists_mem_of_ne_nil _ hne
    have hmem : kv ∈ entries.filter (·.slot namespaces = kv.slot namespaces) :=
      List.mem_filter.mpr ⟨hkv,decide_eq_true rfl⟩
    rw [← h.exact] at hmem
    exact List.not_mem_nil hmem
  · rintro rfl
    exact ⟨SortedMap.sorted_nil,fun _ h => absurd h List.not_mem_nil,fun _ => rfl⟩

theorem slotPartition_pushSlots_iff {namespaces : Bytes} {kvs entries : List KvPair} :
    SlotPartition namespaces entries (pushSlots namespaces kvs []) ↔
      ∀ slot, kvs.filter (·.slot namespaces = slot) = entries.filter (·.slot namespaces = slot) := by
  constructor
  · intro h slot
    rw [← h.exact, lookup_pushSlots_nil]
  · intro h
    refine ⟨sorted_pushSlots SortedMap.sorted_nil,?_,?_⟩
    · rw [pushSlots_eq_group]
      refine SortedMap.forall_mem_group (fun p _ old => ?_) (fun _ h => absurd h List.not_mem_nil)
      simp
    · intro slot
      rw [lookup_pushSlots_nil, h]

/-- What a body lists is what has been put under slots, in the order of the sets. -/
def Listed (listed : Option (List (Bytes × KvPair))) (r : Request) : Prop :=
  ∃ pairs, pairs ≠ [] ∧ listed = some pairs ∧
    r.mapSlotsKv = pushSlots r.namespaces ((SortedMap.byKey pairs).map (·.2)) []

theorem listed_vector {command : CommandType} {α : Type} {check : Tree → Except Bytes α} {entry : α → KvPair}
    {f : Tree → Option (Bytes × KvPair)} (hf : ∀ value a, check value = .ok a → f value = some ([],entry a))
    (hread : readVector check entry (some tree) (Request.opened command) = (.ok,r)) (hfilled : Filled r.uri) :
    Listed ((tree.getArray "ks").bind fun values => values.mapM f) r := by
  obtain ⟨_,values,uri,as,⟨⟩,hks,has,huri,hne,rfl⟩ := readVector_ok hread
  have hlisted : values.mapM f = some ((as.map entry).map fun kv => ([],kv)) := by
    apply mapM_of_forall₂
    rw [List.map_map, List.forall₂_map_right_iff]
    exact (forall₂_of_mapM has).imp fun value a => hf value a
  refine ⟨(as.map entry).map fun kv => ([],kv),by simpa using hne,?_,?_⟩
  · rw [hks, Option.bind_some, hlisted]
  · rw [(fillVectorSlots_keeps _).1] at hfilled
    rw [SortedMap.values_of_one_key, fillVectorSlots]
    rcases setLastNamespaces_cases { Request.opened command with
        uri := uri, vectorKv := (Request.opened command).vectorKv ++ as.map entry } with
      ⟨namespaces,-,-,heq⟩ | ⟨-,hnot,-⟩
    · rw [heq]
      rfl
    · exact absurd hfilled hnot

theorem listedMember_eq {key : Bytes} {mb : Tree} {m : Member}
    (h : mb.getString "mb" = some m.name ∧ mb.getString "v" = some m.value ∧ m.value ≠ [] ∧
      mb.getNumber "sc" = some m.score) : listedMember key mb = some (key,⟨m.name,m.value,m.score,0⟩) := by
  rw [listedMember, h.1, h.2.1, h.2.2.2]
  rfl

theorem mapM_listedMember {key : Bytes} {mbs : List Tree} {ms : List Member}
    (h : List.Forall₂ (fun mb m => mb.getString "mb" = some m.name ∧ mb.getString "v" = some m.value ∧
      m.value ≠ [] ∧ mb.getNumber "sc" = some m.score) mbs ms) :
    mbs.mapM (listedMember key) = some ((memberKvs ms).map fun kv => (key,kv)) := by
  apply mapM_of_forall₂
  rw [memberKvs, List.map_map, List.forall₂_map_right_iff]
  exact h.imp fun _ _ => listedMember_eq

theorem listed_zadd (hread : readJsonZfixedsetAdd (some tree) (Request.opened .zadd) = (.ok,r))
    (hfilled : Filled r.uri) : Listed (listedMembers tree) r := by
  obtain ⟨_,uri,key,mbs,namespaces,⟨⟩,huri,hkey,hmbs,hne,⟨hnot,rfl⟩ | ⟨-,hlast,ms,hms,rfl⟩⟩ :=
    readJsonZfixedsetAdd_ok hread
  · exact absurd hfilled hnot
  · refine ⟨(memberKvs ms).map fun kv => (key,kv),?_,?_,?_⟩
    · intro hnil
      rw [List.map_eq_nil_iff, memberKvs, List.map_eq_nil_iff] at hnil
      rw [hnil, List.forall₂_nil_right_iff] at hms
      exact hne hms
    · rw [listedMembers, hkey, hmbs]
      exact mapM_listedMember hms
    · rw [SortedMap.values_of_one_key]

theorem readSets_listed {values : List Tree} {request : Request} (h : readSets values request = (.ok,r)) :
    ∃ sets : List (Bytes × List KvPair), (∀ zset ∈ sets, zset.2 ≠ []) ∧
      List.Forall₂ (fun value zset => listedMembers value = some (zset.2.map fun kv => (zset.1,kv))) values sets ∧
      r = { request with mapKv := pushSets sets request.mapKv } := by
  induction values generalizing request with
  | nil =>
    cases h
    exact ⟨[],by simp,.nil,rfl⟩
  | cons value values ih =>
    rw [readSets] at h
    split at h
    · cases h
    · rename_i key mbs hzset
      obtain ⟨hkey,hmbs,hne⟩ := validateZSet_eq_ok hzset
      split at h
      · rename_i r' hmembers
        obtain ⟨ms,hms,rfl⟩ := readMembers_eq hmembers
        obtain ⟨sets,hsets,hall,rfl⟩ := ih h
        refine ⟨(key,memberKvs ms) :: sets,List.forall_mem_cons.mpr ⟨?_,hsets⟩,.cons ?_ hall,rfl⟩
        · intro hnil
          rw [memberKvs, List.map_eq_nil_iff] at hnil
          rw [hnil, List.forall₂_nil_right_iff] at hms
          exact hne hms
        · rw [listedMembers, hkey, hmbs]
          exact mapM_listedMember hms
      · rename_i hnot
        exact absurd h (hnot r)

theorem listed_zbatchadd (hread : readJsonZfixedsetBatchAdd (some tree) (Request.opened .zbatchadd) = (.ok,r))
    (hfilled : Filled r.uri) : Listed (listedEntries tree .zbatchadd) r := by
  obtain ⟨_,uri,values,⟨⟩,-,hvalues,hread⟩ := withAcl_ok hread
  obtain ⟨hks,hne⟩ := validateArray_eq_ok hvalues
  rcases setLastNamespaces_cases { Request.opened .zbatchadd with uri := uri } with
    ⟨namespaces,-,-,heq⟩ | ⟨namespaces,hnot,heq⟩
  · rw [heq] at hread
    simp only at hread
    split at hread
    · rename_i r' hsets
      obtain ⟨sets,hpeopled,hall,rfl⟩ := readSets_listed hsets
      cases hread
      have hlisted : values.mapM listedMembers = some (sets.map fun zset => zset.2.map fun kv => (zset.1,kv)) := by
        apply mapM_of_forall₂
        rw [List.forall₂_map_right_iff]
        exact hall
      refine ⟨SortedMap.pairsOf sets,?_,?_,?_⟩
      · obtain ⟨value,values,rfl⟩ := List.exists_cons_of_ne_nil hne
        obtain ⟨zset,sets,-,-,rfl⟩ := List.forall₂_cons_left_iff.mp hall
        have hzset := (List.forall_mem_cons.mp hpeopled).1
        simp [SortedMap.pairsOf, hzset]
      · rw [listedEntries, hks]
        simp only [Option.bind_eq_bind, Option.bind_some, hlisted, pure, SortedMap.pairsOf, List.flatMap_def]
      · have hsame : (Request.opened .zbatchadd).mapKv = [] := rfl
        rw [← SortedMap.pairsOf_group, SortedMap.map_snd_pairsOf, ← pushSets_eq_group]
        rfl
    · rename_i hnot
      exact absurd hread (hnot r)
  · rw [heq] at hread
    cases hread
    exact absurd hfilled hnot

theorem listed_of_filled {command : CommandType} (hcommand : command ∈ [.mget,.mset,.zadd,.zbatchadd])
    (hread : readJsonFanOut (some tree) (Request.opened command) = (.ok,r)) (hfilled : Filled r.uri) :
    Listed (listedEntries tree command) r := by
  simp only [List.mem_cons, List.not_mem_nil, or_false] at hcommand
  rcases hcommand with rfl | rfl | rfl | rfl
  · refine listed_vector (fun value key hkey => ?_) hread hfilled
    rw [validateString_ok hkey]
    rfl
  · refine listed_vector (fun value kv hkv => ?_) hread hfilled
    obtain ⟨hk,hv,-⟩ := validateKVPair_ok hkv
    rw [hk, hv]
    rfl
  · exact listed_zadd hread hfilled
  · exact listed_zbatchadd hread hfilled

end Listed

/-- The entries of an accepted request lie under the slots of the keys that are sent, all of them and in their order,
exactly if the namespace has no slash in it and the entries of each slot stand in the order of their sets. -/
theorem slot_partition_iff {command : CommandType} (hcommand : command ∈ [.mget,.mset,.zadd,.zbatchadd]) {tree : Tree}
    {r r' : Request} (hread : readJsonFanOut (some tree) (Request.opened command) = (.ok,r))
    (hname : setNameSpace r = (.ok,r')) :
    (∃ pairs, listedEntries tree command = some pairs ∧
        SlotPartition r'.namespaces (pairs.map (·.2)) r'.mapSlotsKv) ↔
      ∃ pairs, listedEntries tree command = some pairs ∧ (47 ∉ r'.namespaces ∨ pairs = []) ∧
        InSetOrder r'.namespaces pairs := by
  have hkind : checkSubRequest (Request.opened command) = true := by
    revert hcommand
    cases command <;> decide
  have hbody := readJsonFanOut_bodyRead hkind hread
  have hslash := filled_iff_of_accepted hbody.uri hname
  by_cases hfilled : Filled r.uri
  · obtain ⟨pairs,-,hlisted,hslots⟩ := listed_of_filled hcommand hread hfilled
    have hsame := setNameSpace_last hbody.uri hname hfilled (hbody.namespaces hfilled hcommand)
    have hkept : r'.mapSlotsKv = r.mapSlotsKv := by
      obtain ⟨pre,s,-,-,-,rfl⟩ := setNameSpace_ok hbody.uri hname
      rfl
    simp only [hlisted, Option.some.injEq, exists_eq_left', hkept, hslots, hsame, slotPartition_pushSlots_iff]
    rw [hsame] at hslash
    exact (and_iff_right (.inl (hslash.mp hfilled))).symm
  · -- the reader has left before it put anything under a slot
    have hempty : r'.mapSlotsKv = [] := by
      obtain ⟨pre,s,-,-,-,rfl⟩ := setNameSpace_ok hbody.uri hname
      exact (hbody.unfilled hfilled).1
    simp only [hempty, slotPartition_nil_iff, List.map_eq_nil_iff]
    refine exists_congr fun pairs => and_congr_right fun _ => ?_
    constructor
    · rintro rfl
      exact ⟨.inr rfl,fun _ => by simp [SortedMap.byKey]⟩
    · rintro ⟨hnone,-⟩
      exact hnone.resolve_left fun hfree => hfilled (hslash.mpr hfree)

theorem slot_partition_sets :
    ∃ r r', readJsonFanOut (some twoSetsBody) (Request.opened .zbatchadd) = (.ok,r) ∧ setNameSpace r = (.ok,r') ∧
      r'.mapSlotsKv.map (·.2.map KvPair.key) = [[text "b"],[text "c"],[text "a"]] ∧
      ∃ pairs, listedEntries twoSetsBody .zbatchadd = some pairs ∧
        SlotPartition r'.namespaces (pairs.map (·.2)) r'.mapSlotsKv := by
  have hsome : (acceptedRequest .zbatchadd (some twoSetsBody)).map (fun r =>
      (r.namespaces,r.mapSlotsKv.map (·.2.map KvPair.key))) =
        some (text "ab",[[text "b"],[text "c"],[text "a"]]) := by
    decide +kernel
  obtain ⟨r₀,hr,hends⟩ := Option.map_eq_some_iff.mp hsome
  obtain ⟨hnamespaces,hslots⟩ := Prod.mk.inj hends
  obtain ⟨r,r',hread,hname,hcluster⟩ := acceptedRequest_eq_some hr
  obtain ⟨clusterName,rfl⟩ := setClusterName_ok hcluster
  have hlisted : ∃ pairs, listedEntries twoSetsBody .zbatchadd = some pairs ∧ SortedMap.byKey pairs = pairs :=
    ⟨_,rfl,List.mergeSort_of_pairwise (by decide +kernel)⟩
  obtain ⟨pairs,hpairs,hsorted⟩ := hlisted
  refine ⟨r,r',hread,hname,hslots,(slot_partition_iff (by decide) hread hname).mpr ⟨pairs,hpairs,.inl ?_,?_⟩⟩
  · rw [show r'.namespaces = text "ab" from hnamespaces]
    decide
  · intro slot
    rw [hsorted]

/-- The later set in the order of their keys first, with a member of each in one slot. -/
def swappedSets : Tree := setsBody [("2",["\x7bt\x7d2"]),("1",["\x7bt\x7d1"])]

/-- A key that is under no slot: the namespace of access control is `/a`, behind the last slash there is one byte. And
two members that have changed places. -/
theorem entries_not_partitioned :
    listedEntries (mgetBody "qkd://BJ//a") .mget = some [([],.plain (text "a") [])] ∧
      (acceptedRequest .mget (some (mgetBody "qkd://BJ//a"))).map (fun r => (r.namespaces,r.mapSlotsKv)) =
        some (text "/a",[]) ∧
      (listedEntries swappedSets .zbatchadd).map (·.map (·.2.key)) = some [text "\x7bt\x7d2",text "\x7bt\x7d1"] ∧
      (acceptedRequest .zbatchadd (some swappedSets)).map (fun r => r.mapSlotsKv.map fun e => e.2.map KvPair.key) =
        some [[text "\x7bt\x7d1",text "\x7bt\x7d2"]] := by
  decide +kernel

end QkPack
