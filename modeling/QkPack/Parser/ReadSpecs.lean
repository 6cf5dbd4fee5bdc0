import QkPack.Lib.Groups
import QkPack.Parser.ReadJson

/-!
# What the readers leave

An accepted body has a URI without a NUL byte and a list that is not empty. What becomes of the lists
depends on the namespace behind the last slash.
-/

namespace QkPack
open Wire CString Resp Json

theorem mem_of_lookup {α β : Type} [BEq α] [LawfulBEq α] {l : List (α × β)} {k : α} {b : β}
    (h : l.lookup k = some b) : (k,b) ∈ l := by
  obtain ⟨l₁,l₂,rfl,-⟩ := List.lookup_eq_some_iff.mp h
  simp

section Maps

variable {κ : Type} [DecidableEq κ] [LT κ] [DecidableLT κ]

theorem mapPush_eq_alter (key : κ) (kv : KvPair) (m : List (κ × List KvPair)) :
    mapPush key kv m = SortedMap.alter key (fun kvs => kvs.getD [] ++ [kv]) m := by
  induction m with
  | nil => rfl
  | cons entry m ih =>
    obtain ⟨k,kvs⟩ := entry
    rw [mapPush, SortedMap.alter, ih]
    rfl

def KvPair.slot (namespaces : Bytes) (kv : KvPair) : Int := keyHashSlot (namespaces ++ kv.key)

variable {namespaces : Bytes} {kvs : List KvPair} {slots : List (Int × List KvPair)}

theorem pushSlots_eq_group :
    pushSlots namespaces kvs slots = SortedMap.group (kvs.map fun kv => (kv.slot namespaces,kv)) slots := by
  rw [pushSlots, SortedMap.group, List.foldl_map]
  congr 1
  funext slots kv
  exact mapPush_eq_alter _ kv slots

theorem fillSlots_eq_pushSlots (mapKv : List (Bytes × List KvPair)) :
    fillSlots namespaces mapKv slots = pushSlots namespaces (mapKv.flatMap (·.2)) slots := rfl

theorem sorted_pushSlots (h : SortedMap.Sorted slots) :
    SortedMap.Sorted (pushSlots namespaces kvs slots) := by
  rw [pushSlots_eq_group]
  exact SortedMap.sorted_group h

theorem mem_keys_pushSlots {slot : Int} :
    slot ∈ (pushSlots namespaces kvs slots).map (·.1) ↔
      slot ∈ slots.map (·.1) ∨ ∃ kv ∈ kvs, kv.slot namespaces = slot := by
  rw [pushSlots_eq_group, SortedMap.mem_keys_group, List.map_map]
  exact or_congr_right List.mem_map

theorem lookup_pushSlots (h : SortedMap.Sorted slots) (slot : Int) :
    ((pushSlots namespaces kvs slots).lookup slot).getD [] =
      (slots.lookup slot).getD [] ++ kvs.filter (·.slot namespaces = slot) := by
  rw [pushSlots_eq_group, SortedMap.lookup_group h, List.filter_map, List.map_map]
  congr 1
  exact List.map_id _

theorem lookup_pushSlots_nil (namespaces : Bytes) (kvs : List KvPair) (slot : Int) :
    ((pushSlots namespaces kvs []).lookup slot).getD [] = kvs.filter (·.slot namespaces = slot) :=
  lookup_pushSlots SortedMap.sorted_nil slot

theorem mem_pushSlots {slot : Int} {entries : List KvPair}
    (hmem : (slot,entries) ∈ pushSlots namespaces kvs []) :
    entries = kvs.filter (·.slot namespaces = slot) := by
  have hsorted : SortedMap.Sorted (pushSlots namespaces kvs []) := sorted_pushSlots SortedMap.sorted_nil
  have hlookup := lookup_pushSlots_nil namespaces kvs slot
  rw [(SortedMap.lookup_eq_some_iff hsorted).mpr hmem] at hlookup
  simpa using hlookup

theorem slot_of_mem {slot : Int} (hmem : slot ∈ (pushSlots namespaces kvs []).map (·.1)) :
    ∃ n : Nat, n < 16384 ∧ slot = n := by
  rcases mem_keys_pushSlots.mp hmem with hnil | ⟨kv,-,rfl⟩
  · cases hnil
  · exact ⟨keyHashSlot (namespaces ++ kv.key),Nat.mod_lt _ (by norm_num),rfl⟩

theorem pushSlots_ne_nil (h : kvs ≠ []) : pushSlots namespaces kvs slots ≠ [] := by
  obtain ⟨kv,kvs,rfl⟩ := List.exists_cons_of_ne_nil h
  intro hnil
  have hmem : kv.slot namespaces ∈ (pushSlots namespaces (kv :: kvs) slots).map (·.1) :=
    mem_keys_pushSlots.mpr (.inr ⟨kv,List.mem_cons_self,rfl⟩)
  rw [hnil] at hmem
  cases hmem

end Maps

section Loops

variable {α : Type} {check : Tree → Except Bytes α}

theorem withAcl_ok {node : Option Tree} {request r : Request}
    {read : α → Request → QkpackRc × Request} (h : withAcl node check request read = (.ok,r)) :
    ∃ tree uri a, node = some tree ∧ validateACLInfo (tree.getString "uri") (tree.getString "ak") = .ok uri ∧
      check tree = .ok a ∧ read a { request with uri := uri } = (.ok,r) := by
  unfold withAcl at h
  split at h
  · cases h
  · rename_i tree
    split at h
    · cases h
    · rename_i uri huri
      split at h
      · cases h
      · rename_i a ha
        exact ⟨tree,uri,a,rfl,huri,ha,h⟩

theorem readEach_ok {enter : Request → α → Request} {values : List Tree} {request r : Request}
    (h : readEach check enter values request = (.ok,r)) :
    ∃ as, values.mapM check = .ok as ∧ r = as.foldl enter request := by
  induction values generalizing request with
  | nil =>
    cases h
    exact ⟨[],rfl,rfl⟩
  | cons value values ih =>
    rw [readEach] at h
    split at h
    · cases h
    · rename_i a ha
      obtain ⟨as,has,rfl⟩ := ih h
      refine ⟨a :: as,?_,rfl⟩
      rw [List.mapM_cons, ha, has]
      rfl

theorem forall₂_of_mapM {values : List Tree} {as : List α} (h : values.mapM check = .ok as) :
    List.Forall₂ (fun value a => check value = .ok a) values as := by
  induction values generalizing as with
  | nil =>
    cases h
    exact .nil
  | cons value values ih =>
    rw [List.mapM_cons] at h
    obtain ⟨a,ha,h⟩ := bind_eq_ok.mp h
    obtain ⟨rest,hrest,h⟩ := bind_eq_ok.mp h
    cases h
    exact .cons ha (ih hrest)

theorem mapM_ne_nil {values : List Tree} {as : List α} (h : values.mapM check = .ok as)
    (hne : values ≠ []) : as ≠ [] := by
  rw [← List.length_pos_iff, ← (forall₂_of_mapM h).length_eq, List.length_pos_iff]
  exact hne

theorem exists_of_mapM {values : List Tree} {as : List α} (h : values.mapM check = .ok as) {a : α}
    (ha : a ∈ as) : ∃ value ∈ values, check value = .ok a := by
  have hall := forall₂_of_mapM h
  clear h
  induction hall with
  | nil => cases ha
  | cons hfirst _ ih =>
    rcases List.mem_cons.mp ha with rfl | ha
    · exact ⟨_,List.mem_cons_self,hfirst⟩
    · obtain ⟨value,hmem,hvalue⟩ := ih ha
      exact ⟨value,List.mem_cons_of_mem _ hmem,hvalue⟩

theorem mapM_of_forall₂ {β γ : Type} {f : β → Option γ} {xs : List β} {ys : List γ}
    (h : List.Forall₂ (fun x y => f x = some y) xs ys) : xs.mapM f = some ys := by
  induction h with
  | nil => rfl
  | cons hfirst _ ih =>
    rw [List.mapM_cons, hfirst, ih]
    rfl

end Loops

theorem validateString_ok {notExist notEmpty : String} {s : Option Bytes} {t : Bytes}
    (h : validateString notExist notEmpty s = .ok t) : s = some t := by
  unfold validateString at h
  split at h
  · cases h
  · split at h
    · cases h
      rfl
    · cases h

theorem validateString_ne_nil {notExist notEmpty : String} {s : Option Bytes} {t : Bytes}
    (h : validateString notExist notEmpty s = .ok t) : t ≠ [] := by
  unfold validateString at h
  split at h
  · cases h
  · split at h
    · rename_i hvalid
      cases h
      rintro rfl
      cases hvalid
    · cases h

theorem validateNumber_ok {notExist : String} {d : Option Double} {x : Double}
    (h : validateNumber notExist d = .ok x) : d = some x := by
  cases d with
  | none => cases h
  | some y =>
    cases h
    rfl

theorem nul_notMem_getString {name : String} {node : Tree} {s : Bytes}
    (h : node.getString name = some s) : 0 ∉ s := by
  unfold Tree.getString at h
  split at h
  · cases h
    exact nul_notMem_cStr _
  · cases h

theorem validateACLInfo_ok {uri ak : Option Bytes} {s : Bytes} (h : validateACLInfo uri ak = .ok s) :
    uri = some s := by
  unfold validateACLInfo at h
  split at h
  · cases h
  · cases h
  · cases h
  · split at h
    · cases h
    · cases h
    · cases h
    · cases h
      rfl

theorem validateArray_eq_ok {notExist notEmpty : String} {keys : Option (List Tree)} {values : List Tree}
    (h : validateArray notExist notEmpty keys = .ok values) : keys = some values ∧ values ≠ [] := by
  unfold validateArray at h
  split at h
  · cases h
  · split at h
    · cases h
    · rename_i hne
      cases h
      exact ⟨rfl,hne⟩

theorem validateArray_ok {notExist notEmpty : String} {keys : Option (List Tree)} {values : List Tree}
    (h : validateArray notExist notEmpty keys = .ok values) : values ≠ [] := (validateArray_eq_ok h).2

section Lists

theorem foldl_vectorKv {α : Type} (f : α → KvPair) (as : List α) (request : Request) :
    as.foldl (fun request a => { request with vectorKv := request.vectorKv ++ [f a] }) request =
      { request with vectorKv := request.vectorKv ++ as.map f } := by
  induction as generalizing request with
  | nil => simp
  | cons a as ih => simp [ih]

theorem readVector_ok {α : Type} {check : Tree → Except Bytes α} {entry : α → KvPair}
    {node : Option Tree} {request r : Request} (h : readVector check entry node request = (.ok,r)) :
    ∃ tree values uri as, node = some tree ∧ tree.getArray "ks" = some values ∧
      values.mapM check = .ok as ∧ 0 ∉ uri ∧ as ≠ [] ∧ r = fillVectorSlots { request with
        uri := uri, vectorKv := request.vectorKv ++ as.map entry } := by
  obtain ⟨tree,uri,values,hnode,huri,hvalues,h⟩ := withAcl_ok h
  split at h
  · rename_i r' hread
    cases h
    obtain ⟨as,has,rfl⟩ := readEach_ok hread
    obtain ⟨hks,hne⟩ := validateArray_eq_ok hvalues
    refine ⟨tree,values,uri,as,hnode,hks,has,nul_notMem_getString (validateACLInfo_ok huri),?_,?_⟩
    · exact mapM_ne_nil has hne
    · rw [foldl_vectorKv entry]
  · rename_i hnot
    exact absurd h (hnot r)

end Lists

section Sets

def pushMembers (key : Bytes) (kvs : List KvPair) (mapKv : List (Bytes × List KvPair)) :
    List (Bytes × List KvPair) :=
  kvs.foldl (fun m kv => mapPush key kv m) mapKv

variable {key : Bytes} {kvs : List KvPair} {mapKv : List (Bytes × List KvPair)}

theorem pushMembers_eq_group :
    pushMembers key kvs mapKv = SortedMap.group (kvs.map fun kv => (key,kv)) mapKv := by
  rw [pushMembers, SortedMap.group, List.foldl_map]
  congr 1
  funext m kv
  exact mapPush_eq_alter key kv m

theorem sorted_pushMembers (h : SortedMap.Sorted mapKv) :
    SortedMap.Sorted (pushMembers key kvs mapKv) := by
  rw [pushMembers_eq_group]
  exact SortedMap.sorted_group h

theorem lookup_pushMembers (h : SortedMap.Sorted mapKv) (k : Bytes) :
    ((pushMembers key kvs mapKv).lookup k).getD [] =
      (mapKv.lookup k).getD [] ++ if k = key then kvs else [] := by
  rw [pushMembers_eq_group, SortedMap.lookup_group h, List.filter_map, List.map_map]
  by_cases hk : k = key
  · simp [Function.comp_def, hk]
  · simp [Function.comp_def, hk, Ne.symm hk]

theorem pushMembers_ne_nil (h : kvs ≠ [] ∨ mapKv ≠ []) : pushMembers key kvs mapKv ≠ [] := by
  induction kvs generalizing mapKv with
  | nil => exact h.resolve_left (not_not.mpr rfl)
  | cons kv kvs ih =>
    rw [pushMembers, List.foldl_cons, mapPush_eq_alter]
    exact ih (.inr (SortedMap.alter_ne_nil _ _ _))

theorem pushMembers_single (old : List KvPair) :
    pushMembers key kvs [(key,old)] = [(key,old ++ kvs)] := by
  induction kvs generalizing old with
  | nil => simp [pushMembers]
  | cons kv kvs ih =>
    have hpush : mapPush key kv [(key,old)] = [(key,old ++ [kv])] := if_pos rfl
    rw [pushMembers, List.foldl_cons, hpush]
    apply (ih (old ++ [kv])).trans
    simp

theorem pushMembers_nil (h : kvs ≠ []) : pushMembers key kvs [] = [(key,kvs)] := by
  obtain ⟨kv,kvs,rfl⟩ := List.exists_cons_of_ne_nil h
  exact pushMembers_single [kv]

def Peopled (mapKv : List (Bytes × List KvPair)) : Prop := ∀ entry ∈ mapKv, entry.2 ≠ []

theorem forall_mem_pushMembers {P : Bytes × List KvPair → Prop} (hnew : ∀ kv old, P (key,old ++ [kv]))
    (h : ∀ entry ∈ mapKv, P entry) : ∀ entry ∈ pushMembers key kvs mapKv, P entry := by
  rw [pushMembers_eq_group]
  refine SortedMap.forall_mem_group (fun p hp old => ?_) h
  obtain ⟨kv,-,rfl⟩ := List.mem_map.mp hp
  exact hnew kv old

theorem peopled_pushMembers (h : Peopled mapKv) : Peopled (pushMembers key kvs mapKv) :=
  forall_mem_pushMembers (fun kv old => by simp) h

theorem Peopled.flatMap_ne_nil (h : Peopled mapKv) (hne : mapKv ≠ []) :
    mapKv.flatMap (·.2) ≠ [] := by
  obtain ⟨entry,rest,rfl⟩ := List.exists_cons_of_ne_nil hne
  have hentry : entry.2 ≠ [] := h entry List.mem_cons_self
  simp [hentry]

theorem foldl_mapKv {α : Type} (f : α → KvPair) (as : List α) (request : Request) :
    as.foldl (fun request a => { request with mapKv := mapPush key (f a) request.mapKv }) request =
      { request with mapKv := pushMembers key (as.map f) request.mapKv } := by
  induction as generalizing request with
  | nil => rfl
  | cons a as ih =>
    rw [List.foldl_cons, ih]
    rfl

theorem readMembers_ok {mbs : List Tree} {request r : Request}
    (h : readMembers key mbs request = (.ok,r)) :
    ∃ kvs, (mbs ≠ [] → kvs ≠ []) ∧ r = { request with mapKv := pushMembers key kvs request.mapKv } := by
  obtain ⟨as,has,rfl⟩ := readEach_ok h
  refine ⟨as.map fun m => ⟨m.1,m.2.1,m.2.2,0⟩,?_,?_⟩
  · intro hne
    exact fun hnil => mapM_ne_nil has hne (List.map_eq_nil_iff.mp hnil)
  · exact foldl_mapKv (fun m : Bytes × Bytes × Double => ⟨m.1,m.2.1,m.2.2,0⟩) as request

theorem validateZSet_ok {key : Option Bytes} {mbs : Option (List Tree)} {zset : Bytes × List Tree}
    (h : validateZSet key mbs = .ok zset) : zset.2 ≠ [] := by
  obtain ⟨k,-,h⟩ := bind_eq_ok.mp h
  obtain ⟨values,hvalues,h⟩ := bind_eq_ok.mp h
  cases h
  exact validateArray_ok hvalues

/-- Sets whose members are pushed one by one, each of which has a member. -/
def pushSets (sets : List (Bytes × List KvPair)) (mapKv : List (Bytes × List KvPair)) :
    List (Bytes × List KvPair) :=
  sets.foldl (fun m zset => pushMembers zset.1 zset.2 m) mapKv

theorem pushSets_eq_group {sets : List (Bytes × List KvPair)} :
    pushSets sets mapKv = SortedMap.group (SortedMap.pairsOf sets) mapKv := by
  induction sets generalizing mapKv with
  | nil => rfl
  | cons zset sets ih =>
    rw [pushSets, List.foldl_cons, SortedMap.pairsOf, List.flatMap_cons, SortedMap.group_append, ← pushMembers_eq_group]
    exact ih

theorem sorted_pushSets {sets : List (Bytes × List KvPair)} (h : SortedMap.Sorted mapKv) :
    SortedMap.Sorted (pushSets sets mapKv) := by
  rw [pushSets_eq_group]
  exact SortedMap.sorted_group h

theorem pushSets_ne_nil {sets : List (Bytes × List KvPair)} (hsets : ∀ zset ∈ sets, zset.2 ≠ [])
    (h : sets ≠ [] ∨ mapKv ≠ []) : pushSets sets mapKv ≠ [] := by
  induction sets generalizing mapKv with
  | nil => exact h.resolve_left (not_not.mpr rfl)
  | cons zset sets ih =>
    obtain ⟨hzset,hrest⟩ := List.forall_mem_cons.mp hsets
    exact ih hrest (.inr (pushMembers_ne_nil (.inl hzset)))

theorem peopled_pushSets {sets : List (Bytes × List KvPair)} (h : Peopled mapKv) :
    Peopled (pushSets sets mapKv) := by
  induction sets generalizing mapKv with
  | nil => exact h
  | cons zset sets ih => exact ih (peopled_pushMembers h)

theorem readSets_ok {values : List Tree} {request r : Request} (h : readSets values request = (.ok,r)) :
    ∃ sets, (∀ zset ∈ sets, zset.2 ≠ []) ∧ (values ≠ [] → sets ≠ []) ∧
      r = { request with mapKv := pushSets sets request.mapKv } := by
  induction values generalizing request with
  | nil =>
    cases h
    exact ⟨[],by simp,fun hne => absurd rfl hne,rfl⟩
  | cons value values ih =>
    rw [readSets] at h
    split at h
    · cases h
    · rename_i key mbs hzset
      split at h
      · rename_i r' hmembers
        obtain ⟨kvs,hkvs,rfl⟩ := readMembers_ok hmembers
        obtain ⟨sets,hsets,-,rfl⟩ := ih h
        refine ⟨(key,kvs) :: sets,?_,fun _ => List.cons_ne_nil _ _,rfl⟩
        exact List.forall_mem_cons.mpr ⟨hkvs (validateZSet_ok hzset),hsets⟩
      · rename_i hnot
        exact absurd h (hnot r)

end Sets

section Bodies

/-- The readers find a namespace of two bytes behind the last slash. -/
def Filled (uri : Bytes) : Prop := ∃ namespaces, lastNamespaces uri = some namespaces ∧ namespaces.length = 2

theorem setLastNamespaces_cases (request : Request) :
    (∃ namespaces, lastNamespaces request.uri = some namespaces ∧ Filled request.uri ∧
      setLastNamespaces request = (true,{ request with namespaces := namespaces })) ∨
    (∃ namespaces, ¬ Filled request.uri ∧
      setLastNamespaces request = (false,{ request with namespaces := namespaces })) := by
  unfold setLastNamespaces
  cases hlast : lastNamespaces request.uri with
  | none =>
    refine .inr ⟨request.namespaces,?_,rfl⟩
    rintro ⟨namespaces,hsome,-⟩
    rw [hlast] at hsome
    cases hsome
  | some namespaces =>
    by_cases hlen : namespaces.length = 2
    · refine .inl ⟨namespaces,rfl,⟨namespaces,hlast,hlen⟩,?_⟩
      simp [hlen]
    · refine .inr ⟨namespaces,?_,?_⟩
      · rintro ⟨namespaces',hsome,hlen'⟩
        cases hlast.symm.trans hsome
        exact hlen hlen'
      · simp [hlen]

/-- A body that was accepted, as it is left by the readers. Its maps are filled if there is a namespace
behind the last slash; otherwise they are empty. -/
structure BodyRead (command : CommandType) (r : Request) : Prop where
  commandType : r.commandType = command
  phase : r.phase = .start
  code : r.code = .ok
  uri : 0 ∉ r.uri
  sortedSlots : SortedMap.Sorted r.mapSlotsKv
  sortedKv : SortedMap.Sorted r.mapKv
  query : command ∈ [.zrangebyscore,.zrange,.batchzrangebyscore] → r.mapQuery ≠ []
  unfilled : ¬ Filled r.uri → r.mapSlotsKv = [] ∧ r.mapKv = []
  namespaces : Filled r.uri → command ∈ [.mget,.mset,.zadd,.zbatchadd] →
    lastNamespaces r.uri = some r.namespaces
  slots : Filled r.uri → command ∈ [.mget,.mset,.zadd,.zbatchadd] → r.mapSlotsKv ≠ []
  sets : Filled r.uri → command ∈ [.zadd,.zbatchadd] → r.mapKv ≠ []
  single : command = .zadd → r.mapKv.length ≤ 1

variable {command : CommandType} {node : Option Tree} {r : Request}

theorem bodyRead_unfilled (hcommand : command ∈ [.mget,.mset,.zadd,.zbatchadd]) {uri namespaces : Bytes}
    {vectorKv : List KvPair} (huri : 0 ∉ uri) (hnot : ¬ Filled uri) :
    BodyRead command { Request.opened command with
      uri := uri, vectorKv := vectorKv, namespaces := namespaces } where
  commandType := rfl
  phase := rfl
  code := rfl
  uri := huri
  sortedSlots := SortedMap.sorted_nil
  sortedKv := SortedMap.sorted_nil
  query hquery := by
    exfalso
    revert hcommand hquery
    cases command <;> decide
  unfilled _ := ⟨rfl,rfl⟩
  namespaces hfilled := absurd hfilled hnot
  slots hfilled := absurd hfilled hnot
  sets hfilled := absurd hfilled hnot
  single _ := Nat.zero_le 1

theorem bodyRead_filled (hcommand : command ∈ [.mget,.mset,.zadd,.zbatchadd]) {uri namespaces : Bytes}
    {vectorKv kvs : List KvPair} {mapKv : List (Bytes × List KvPair)} (huri : 0 ∉ uri)
    (hlast : lastNamespaces uri = some namespaces) (hfilled : Filled uri) (hkvs : kvs ≠ [])
    (hsorted : SortedMap.Sorted mapKv) (hsets : command ∈ [.zadd,.zbatchadd] → mapKv ≠ [])
    (hsingle : command = .zadd → mapKv.length ≤ 1) :
    BodyRead command { Request.opened command with
      uri := uri, vectorKv := vectorKv, namespaces := namespaces
      mapKv := mapKv, mapSlotsKv := pushSlots namespaces kvs [] } where
  commandType := rfl
  phase := rfl
  code := rfl
  uri := huri
  sortedSlots := sorted_pushSlots SortedMap.sorted_nil
  sortedKv := hsorted
  query hquery := by
    exfalso
    revert hcommand hquery
    cases command <;> decide
  unfilled hnot := absurd hfilled hnot
  namespaces _ _ := hlast
  slots _ _ := pushSlots_ne_nil hkvs
  sets _ := hsets
  single := hsingle

theorem bodyRead_query (hcommand : command ∈ [.zrangebyscore,.zrange,.batchzrangebyscore]) {uri : Bytes}
    {vectorKv : List KvPair} {mapQuery : List (Bytes × ZsetQuery)} (huri : 0 ∉ uri)
    (hquery : mapQuery ≠ []) :
    BodyRead command { Request.opened command with
      uri := uri, vectorKv := vectorKv, mapQuery := mapQuery } := by
  have hno : command ∉ [.mget,.mset,.zadd,.zbatchadd] := by
    revert hcommand
    cases command <;> decide
  have hset : command ∉ [.zadd,.zbatchadd] := by
    revert hcommand
    cases command <;> decide
  exact {
    commandType := rfl, phase := rfl, code := rfl, uri := huri
    sortedSlots := SortedMap.sorted_nil
    sortedKv := SortedMap.sorted_nil
    query := fun _ => hquery
    unfilled := fun _ => ⟨rfl,rfl⟩
    namespaces := fun _ h => absurd h hno
    slots := fun _ h => absurd h hno
    sets := fun _ h => absurd h hset
    single := fun _ => Nat.zero_le 1 }

theorem bodyRead_vector {α : Type} {check : Tree → Except Bytes α} {entry : α → KvPair}
    (hcommand : command ∈ [.mget,.mset])
    (h : readVector check entry node (Request.opened command) = (.ok,r)) :
    BodyRead command r := by
  have hkeys : command ∈ [.mget,.mset,.zadd,.zbatchadd] := by
    revert hcommand
    cases command <;> decide
  have hset : command ∉ [.zadd,.zbatchadd] := by
    revert hcommand
    cases command <;> decide
  obtain ⟨-,-,uri,as,-,-,-,huri,has,rfl⟩ := readVector_ok h
  have hkvs : as.map entry ≠ [] := fun hnil => has (List.map_eq_nil_iff.mp hnil)
  unfold fillVectorSlots
  rcases setLastNamespaces_cases { Request.opened command with
      uri := uri, vectorKv := (Request.opened command).vectorKv ++ as.map entry } with
    ⟨namespaces,hlast,hfilled,heq⟩ | ⟨namespaces,hnot,heq⟩
  · rw [heq]
    refine bodyRead_filled hkeys huri hlast hfilled hkvs SortedMap.sorted_nil ?_ ?_
    · exact fun hzset => absurd hzset hset
    · exact fun _ => Nat.zero_le 1
  · rw [heq]
    exact bodyRead_unfilled hkeys huri hnot

theorem bodyRead_zadd
    (h : readJsonZfixedsetAdd node (Request.opened .zadd) = (.ok,r)) :
    BodyRead .zadd r := by
  obtain ⟨tree,uri,zset,-,hacl,hzset,h⟩ := withAcl_ok h
  have huri := nul_notMem_getString (validateACLInfo_ok hacl)
  rcases setLastNamespaces_cases { Request.opened .zadd with uri := uri } with
    ⟨namespaces,hlast,hfilled,heq⟩ | ⟨namespaces,hnot,heq⟩
  · rw [heq] at h
    simp only at h
    split at h
    · rename_i r' hmembers
      obtain ⟨kvs,hkvs,rfl⟩ := readMembers_ok hmembers
      have hne := hkvs (validateZSet_ok hzset)
      cases h
      have hmap : pushMembers zset.1 kvs (Request.opened .zadd).mapKv = [(zset.1,kvs)] :=
        pushMembers_nil hne
      simp only [hmap, List.lookup_cons_self, Option.getD_some]
      exact bodyRead_filled (by decide) huri hlast hfilled hne (List.pairwise_singleton _ _)
        (fun _ => List.cons_ne_nil _ _) (fun _ => le_rfl)
    · rename_i hnot
      exact absurd h (hnot r)
  · rw [heq] at h
    cases h
    exact bodyRead_unfilled (by decide) huri hnot

theorem bodyRead_zbatchadd
    (h : readJsonZfixedsetBatchAdd node (Request.opened .zbatchadd) = (.ok,r)) :
    BodyRead .zbatchadd r := by
  obtain ⟨tree,uri,values,-,hacl,hvalues,h⟩ := withAcl_ok h
  have huri := nul_notMem_getString (validateACLInfo_ok hacl)
  rcases setLastNamespaces_cases { Request.opened .zbatchadd with uri := uri } with
    ⟨namespaces,hlast,hfilled,heq⟩ | ⟨namespaces,hnot,heq⟩
  · rw [heq] at h
    simp only at h
    split at h
    · rename_i r' hread
      obtain ⟨sets,hsets,hne,rfl⟩ := readSets_ok hread
      have hmap : pushSets sets [] ≠ [] :=
        pushSets_ne_nil hsets (.inl (hne (validateArray_ok hvalues)))
      cases h
      refine bodyRead_filled (by decide) huri hlast hfilled ?_ (sorted_pushSets SortedMap.sorted_nil)
        (fun _ => hmap) nofun
      apply Peopled.flatMap_ne_nil _ hmap
      exact peopled_pushSets (List.forall_mem_nil _)
    · rename_i hnot
      exact absurd h (hnot r)
  · rw [heq] at h
    cases h
    exact bodyRead_unfilled (by decide) huri hnot

theorem bodyRead_getByScore
    (hcommand : command ∈ [.zrangebyscore,.zrange,.batchzrangebyscore])
    (h : readJsonZfixedsetGetByScore node (Request.opened command) = (.ok,r)) : BodyRead command r := by
  obtain ⟨tree,uri,query,-,hacl,-,h⟩ := withAcl_ok h
  have hread : BodyRead command { Request.opened command with
      uri := uri, vectorKv := [], mapQuery := SortedMap.alter query.1 (fun _ => query.2) [] } :=
    bodyRead_query hcommand (nul_notMem_getString (validateACLInfo_ok hacl))
      (SortedMap.alter_ne_nil _ _ _)
  cases h
  exact hread

/-- The queries of a list in a map, the last of a key in the place of those before it. -/
def queryMap (queries mapQuery : List (Bytes × ZsetQuery)) : List (Bytes × ZsetQuery) :=
  queries.foldl (fun m q => SortedMap.alter q.1 (fun _ => q.2) m) mapQuery

theorem queryMap_ne_nil {queries mapQuery : List (Bytes × ZsetQuery)} (h : queries ≠ [] ∨ mapQuery ≠ []) :
    queryMap queries mapQuery ≠ [] := by
  induction queries generalizing mapQuery with
  | nil => exact h.resolve_left (not_not.mpr rfl)
  | cons q queries ih => exact ih (.inr (SortedMap.alter_ne_nil _ _ _))

theorem foldl_setQuery (queries : List (Bytes × ZsetQuery)) (request : Request) :
    queries.foldl (fun request query => setQuery query.1 query.2
        { request with vectorKv := request.vectorKv ++ [.plain query.1 []] }) request =
      { request with
        vectorKv := request.vectorKv ++ queries.map fun q => .plain q.1 []
        mapQuery := queryMap queries request.mapQuery } := by
  induction queries generalizing request with
  | nil => simp [queryMap]
  | cons q queries ih =>
    rw [List.foldl_cons, ih]
    simp [setQuery, queryMap]

theorem bodyRead_batchGetByScore
    (h : readJsonZfixedsetBatchGetByScore node (Request.opened .batchzrangebyscore) = (.ok,r)) :
    BodyRead .batchzrangebyscore r := by
  obtain ⟨tree,uri,values,-,hacl,hvalues,h⟩ := withAcl_ok h
  obtain ⟨queries,hqueries,rfl⟩ := readEach_ok h
  rw [foldl_setQuery]
  refine bodyRead_query (by decide) (nul_notMem_getString (validateACLInfo_ok hacl)) (queryMap_ne_nil (.inl ?_))
  exact mapM_ne_nil hqueries (validateArray_ok hvalues)

theorem readJsonFanOut_bodyRead (hcommand : checkSubRequest (Request.opened command) = true)
    (h : readJsonFanOut node (Request.opened command) = (.ok,r)) : BodyRead command r := by
  cases command with
  | mget => exact bodyRead_vector (by decide) h
  | mset => exact bodyRead_vector (by decide) h
  | zadd => exact bodyRead_zadd h
  | zbatchadd => exact bodyRead_zbatchadd h
  | zrangebyscore => exact bodyRead_getByScore (by decide) h
  | zrange => exact bodyRead_getByScore (by decide) h
  | batchzrangebyscore => exact bodyRead_batchGetByScore h
  | _ => cases hcommand

end Bodies

end QkPack
