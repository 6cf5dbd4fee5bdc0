import QkPack.Parser.ReadSingle

/-!
# The keys of a request are short

A body is limited by the server, so no key that is read from it comes near the range of `int`, also with a
namespace before it.
-/

namespace QkPack
open Wire CString Resp Json

/-- There is room for the key and a namespace in an `int`. -/
def ShortKey (key : Bytes) : Prop := key.length + 2 < 2 ^ 31

theorem shortKey_nil : ShortKey [] := by norm_num [ShortKey]

def ShortEntries {κ : Type} (m : List (κ × List KvPair)) : Prop := ∀ entry ∈ m, ∀ kv ∈ entry.2, ShortKey kv.key

def ShortNames {β : Type} (m : List (Bytes × β)) : Prop := ∀ entry ∈ m, ShortKey entry.1

/-- All keys that a request has read and its value, by the fields they are kept in. -/
structure ShortFields (key value : Bytes) (vectorKv : List KvPair) (mapKv : List (Bytes × List KvPair))
    (mapSlotsKv : List (Int × List KvPair)) (mapQuery : List (Bytes × ZsetQuery)) : Prop where
  key : ShortKey key
  value : ShortKey value
  vectorKv : ∀ kv ∈ vectorKv, ShortKey kv.key
  names : ShortNames mapKv
  entries : ShortEntries mapKv
  slots : ShortEntries mapSlotsKv
  queries : ShortNames mapQuery

abbrev KeysShort (r : Request) : Prop := ShortFields r.key r.value r.vectorKv r.mapKv r.mapSlotsKv r.mapQuery

section Maps

variable {κ : Type} [DecidableEq κ] [LT κ] [DecidableLT κ]

theorem mapPush_entries {key : κ} {kv : KvPair} {m : List (κ × List KvPair)} (hkv : ShortKey kv.key)
    (hm : ShortEntries m) : ShortEntries (mapPush key kv m) := by
  induction m with
  | nil =>
    intro entry hentry
    rw [mapPush, List.mem_singleton] at hentry
    subst hentry
    exact List.forall_mem_singleton.mpr hkv
  | cons first m ih =>
    obtain ⟨k,kvs⟩ := first
    obtain ⟨hfirst,hrest⟩ := List.forall_mem_cons.mp hm
    rw [mapPush]
    split
    · refine List.forall_mem_cons.mpr ⟨?_,hrest⟩
      exact List.forall_mem_append.mpr ⟨hfirst,List.forall_mem_singleton.mpr hkv⟩
    · split
      · exact List.forall_mem_cons.mpr ⟨List.forall_mem_singleton.mpr hkv,hm⟩
      · exact List.forall_mem_cons.mpr ⟨hfirst,ih hrest⟩

theorem alter_names {β : Type} {key : Bytes} {f : Option β → β} {m : List (Bytes × β)} (hkey : ShortKey key)
    (hm : ShortNames m) : ShortNames (SortedMap.alter key f m) :=
  SortedMap.forall_mem_alter (P := fun entry => ShortKey entry.1) (fun _ => hkey) hm

theorem mapPush_names {key : Bytes} {kv : KvPair} {m : List (Bytes × List KvPair)} (hkey : ShortKey key)
    (hm : ShortNames m) : ShortNames (mapPush key kv m) := by
  rw [mapPush_eq_alter]
  exact alter_names hkey hm

theorem pushSlots_entries {namespaces : Bytes} {kvs : List KvPair} {slots : List (Int × List KvPair)}
    (hkvs : ∀ kv ∈ kvs, ShortKey kv.key) (hslots : ShortEntries slots) :
    ShortEntries (pushSlots namespaces kvs slots) := by
  induction kvs generalizing slots with
  | nil => exact hslots
  | cons kv kvs ih =>
    obtain ⟨hkv,hrest⟩ := List.forall_mem_cons.mp hkvs
    exact ih hrest (mapPush_entries hkv hslots)

theorem fillSlots_entries (namespaces : Bytes) {mapKv : List (Bytes × List KvPair)}
    {slots : List (Int × List KvPair)} (hmap : ShortEntries mapKv) (hslots : ShortEntries slots) :
    ShortEntries (fillSlots namespaces mapKv slots) := by
  rw [fillSlots_eq_pushSlots]
  apply pushSlots_entries _ hslots
  intro kv hkv
  obtain ⟨entry,hentry,hmem⟩ := List.mem_flatMap.mp hkv
  exact hmap entry hentry kv hmem

end Maps

theorem lookup_entries {κ : Type} [BEq κ] [LawfulBEq κ] {key : κ} {kvs : List KvPair} {m : List (κ × List KvPair)}
    (hm : ShortEntries m) (hkvs : m.lookup key = some kvs) : ∀ kv ∈ kvs, ShortKey kv.key :=
  hm (key,kvs) (mem_of_lookup hkvs)

section Strings

variable {node : Tree} {name : String}

theorem getString_short {s : Bytes} (hs : node.getString name = some s) (hsize : node.size ≤ clientMaxBodySize) :
    ShortKey s := by
  have hlen := Tree.size_getString hs
  rw [clientMaxBodySize] at hsize
  rw [ShortKey]
  omega

theorem getArray_small {values : List Tree} (hvalues : node.getArray name = some values)
    (hsize : node.size ≤ clientMaxBodySize) : ∀ value ∈ values, value.size ≤ clientMaxBodySize := by
  intro value hvalue
  have hall := Tree.size_getArray hvalues
  have hone := Tree.size_le_sizeAll hvalue
  omega

theorem validateString_short {notExist notEmpty : String} {s : Bytes}
    (hs : validateString notExist notEmpty (node.getString name) = .ok s) (hsize : node.size ≤ clientMaxBodySize) :
    ShortKey s := getString_short (validateString_ok hs) hsize

theorem validateArray_small {notExist notEmpty : String} {values : List Tree}
    (hvalues : validateArray notExist notEmpty (node.getArray name) = .ok values)
    (hsize : node.size ≤ clientMaxBodySize) : ∀ value ∈ values, value.size ≤ clientMaxBodySize :=
  getArray_small (validateArray_eq_ok hvalues).1 hsize

end Strings

/-- A request of a client for this command, whose body is being read. -/
def Reading (command : CommandType) (r : Request) : Prop :=
  r.isSubrequest = false ∧ r.commandType = command ∧ r.code = .ok ∧ KeysShort r

section Readers

variable {command : CommandType} {request : Request} {α : Type} {check : Tree → Except Bytes α}

theorem withAcl_reading {node : Option Tree} {read : α → Request → QkpackRc × Request}
    (hbody : ∀ tree ∈ node, tree.size ≤ clientMaxBodySize) (hrequest : Reading command request)
    (hread : ∀ tree a r, tree.size ≤ clientMaxBodySize → check tree = .ok a → Reading command r →
      Reading command (read a r).2) : Reading command (withAcl node check request read).2 := by
  unfold withAcl
  split
  · exact hrequest
  · split
    · exact hrequest
    · split
      · exact hrequest
      · rename_i tree _ _ _ _ a hcheck
        exact hread tree a _ (hbody tree rfl) hcheck hrequest

theorem readEach_reading {enter : Request → α → Request} {values : List Tree}
    (hvalues : ∀ value ∈ values, value.size ≤ clientMaxBodySize) (hrequest : Reading command request)
    (henter : ∀ value a r, value.size ≤ clientMaxBodySize → check value = .ok a → Reading command r →
      Reading command (enter r a)) : Reading command (readEach check enter values request).2 := by
  induction values generalizing request with
  | nil => exact hrequest
  | cons value values ih =>
    obtain ⟨hvalue,hrest⟩ := List.forall_mem_cons.mp hvalues
    rw [readEach]
    split
    · exact hrequest
    · rename_i a hcheck
      exact ih hrest (henter value a request hvalue hcheck hrequest)

end Readers

section Commands

variable {command : CommandType} {node : Option Tree} {request : Request}

theorem Reading.withKey (h : Reading command request) {key value : Bytes} (hkey : ShortKey key)
    (hvalue : ShortKey value) : Reading command { request with key := key, value := value } :=
  ⟨h.1,h.2.1,h.2.2.1,{ h.2.2.2 with key := hkey, value := hvalue }⟩

theorem Reading.withEntry (h : Reading command request) {kv : KvPair} (hkv : ShortKey kv.key) :
    Reading command { request with vectorKv := request.vectorKv ++ [kv] } :=
  ⟨h.1,h.2.1,h.2.2.1,{ h.2.2.2 with
    vectorKv := List.forall_mem_append.mpr ⟨h.2.2.2.vectorKv,List.forall_mem_singleton.mpr hkv⟩ }⟩

theorem Reading.withMember (h : Reading command request) {key : Bytes} {kv : KvPair} (hkey : ShortKey key)
    (hkv : ShortKey kv.key) : Reading command { request with mapKv := mapPush key kv request.mapKv } :=
  ⟨h.1,h.2.1,h.2.2.1,{ h.2.2.2 with
    names := mapPush_names hkey h.2.2.2.names
    entries := mapPush_entries hkv h.2.2.2.entries }⟩

theorem Reading.withQuery (h : Reading command request) {key : Bytes} (query : ZsetQuery) (hkey : ShortKey key) :
    Reading command (setQuery key query request) :=
  ⟨h.1,h.2.1,h.2.2.1,{ h.2.2.2 with queries := alter_names hkey h.2.2.2.queries }⟩

theorem Reading.withSlots (h : Reading command request) {slots : List (Int × List KvPair)}
    (hslots : ShortEntries slots) : Reading command { request with mapSlotsKv := slots } :=
  ⟨h.1,h.2.1,h.2.2.1,{ h.2.2.2 with slots := hslots }⟩

theorem setLastNamespaces_reading (h : Reading command request) : Reading command (setLastNamespaces request).2 := by
  unfold setLastNamespaces
  split
  · exact h
  · exact h

theorem readJsonGet_reading (hbody : ∀ tree ∈ node, tree.size ≤ clientMaxBodySize) (h : Reading command request) :
    Reading command (readJsonGet node request).2 := by
  apply withAcl_reading hbody h
  intro tree key r hsize hcheck hr
  refine hr.withKey ?_ hr.2.2.2.value
  split at hcheck
  · exact validateString_short hcheck hsize
  · exact validateString_short hcheck hsize
  · exact validateString_short hcheck hsize

theorem readJsonSet_reading (hbody : ∀ tree ∈ node, tree.size ≤ clientMaxBodySize) (h : Reading command request) :
    Reading command (readJsonSet node request).2 := by
  apply withAcl_reading hbody h
  intro tree kv r hsize hcheck hr
  -- whatever the command, the key and the value are checked one behind the other
  have hpair {kv : Bytes × Bytes} (hkv : validateKVPair (tree.getString "k") (tree.getString "v") = .ok kv) :
      ShortKey kv.1 ∧ ShortKey kv.2 := by
    obtain ⟨key,hkey,hrest⟩ := bind_eq_ok.mp hkv
    obtain ⟨value,hvalue,hrest⟩ := bind_eq_ok.mp hrest
    cases hrest
    exact ⟨validateString_short hkey hsize,validateString_short hvalue hsize⟩
  suffices hkv : ShortKey kv.1 ∧ ShortKey kv.2 from hr.withKey hkv.1 hkv.2
  split at hcheck
  · obtain ⟨key,hkey,hrest⟩ := bind_eq_ok.mp hcheck
    obtain ⟨value,hvalue,hrest⟩ := bind_eq_ok.mp hrest
    cases hrest
    exact ⟨validateString_short hkey hsize,validateString_short hvalue hsize⟩
  · obtain ⟨kv',hkv,hrest⟩ := bind_eq_ok.mp hcheck
    unfold validateIncrement at hrest
    split at hrest
    · cases hrest
    · cases hrest
      exact hpair hkv
  · exact hpair hcheck

theorem readSetMembers_reading {mbs : List Tree} (h : Reading command request) {r : QkpackRc × Request}
    (hread : readSetMembers mbs request = some r) : Reading command r.2 := by
  induction mbs generalizing request with
  | nil =>
    cases hread
    exact h
  | cons mb mbs ih =>
    cases mb with
    | string s =>
      rw [readSetMembers] at hread
      split at hread
      · refine ih ?_ hread
        exact h
      · cases hread
        exact h
    | null => cases hread
    | boolean b => cases hread
    | number d => cases hread
    | array values => cases hread
    | object members => cases hread

theorem readJsonSadd_reading (hbody : ∀ tree ∈ node, tree.size ≤ clientMaxBodySize) (h : Reading command request)
    {r : QkpackRc × Request} (hread : readJsonSadd node request = some r) : Reading command r.2 := by
  have hfirst : Reading command (withAcl node
      (fun node => validateSet (node.getString "k") (node.getArray "mbs")) request
      fun zset request => (.ok,{ request with key := zset.1 })).2 := by
    apply withAcl_reading hbody h
    intro tree zset r hsize hcheck hr
    obtain ⟨key,hkey,hrest⟩ := bind_eq_ok.mp hcheck
    obtain ⟨mbs,-,hrest⟩ := bind_eq_ok.mp hrest
    cases hrest
    exact hr.withKey (validateString_short hkey hsize) hr.2.2.2.value
  unfold readJsonSadd at hread
  split at hread
  · rename_i heq
    rw [heq] at hfirst
    exact readSetMembers_reading hfirst hread
  · cases hread
    exact hfirst

theorem fillVectorSlots_reading (h : Reading command request) : Reading command (fillVectorSlots request) := by
  unfold fillVectorSlots
  rcases setLastNamespaces_cases request with ⟨namespaces,-,-,heq⟩ | ⟨namespaces,-,heq⟩
  · rw [heq]
    refine Reading.withSlots ?_ (pushSlots_entries h.2.2.2.vectorKv h.2.2.2.slots)
    exact h
  · rw [heq]
    exact h

theorem readVector_reading {α : Type} {check : Tree → Except Bytes α} {entry : α → KvPair}
    (hbody : ∀ tree ∈ node, tree.size ≤ clientMaxBodySize) (h : Reading command request)
    (hcheck : ∀ value a, value.size ≤ clientMaxBodySize → check value = .ok a → ShortKey (entry a).key) :
    Reading command (readVector check entry node request).2 := by
  apply withAcl_reading hbody h
  intro tree keys r hsize hkeys hr
  have heach : Reading command
      (readEach check (fun r a => { r with vectorKv := r.vectorKv ++ [entry a] }) keys r).2 :=
    readEach_reading (validateArray_small hkeys hsize) hr
      fun value a r hvalue ha hr => hr.withEntry (hcheck value a hvalue ha)
  split
  · rename_i r' hread
    rw [hread] at heach
    exact fillVectorSlots_reading heach
  · exact heach

theorem readMembers_reading {key : Bytes} {mbs : List Tree} (hkey : ShortKey key)
    (hmbs : ∀ mb ∈ mbs, mb.size ≤ clientMaxBodySize) (h : Reading command request) :
    Reading command (readMembers key mbs request).2 := by
  apply readEach_reading hmbs h
  intro mb m r hsize hcheck hr
  obtain ⟨member,hmember,hrest⟩ := bind_eq_ok.mp hcheck
  obtain ⟨value,-,hrest⟩ := bind_eq_ok.mp hrest
  obtain ⟨score,-,hrest⟩ := bind_eq_ok.mp hrest
  cases hrest
  exact hr.withMember hkey (validateString_short hmember hsize)

theorem validateZSet_short {tree : Tree} {zset : Bytes × List Tree}
    (hcheck : validateZSet (tree.getString "k") (tree.getArray "mbs") = .ok zset)
    (hsize : tree.size ≤ clientMaxBodySize) :
    ShortKey zset.1 ∧ ∀ mb ∈ zset.2, mb.size ≤ clientMaxBodySize := by
  obtain ⟨key,hkey,hrest⟩ := bind_eq_ok.mp hcheck
  obtain ⟨mbs,hmbs,hrest⟩ := bind_eq_ok.mp hrest
  cases hrest
  exact ⟨validateString_short hkey hsize,validateArray_small hmbs hsize⟩

theorem readJsonZfixedsetAdd_reading (hbody : ∀ tree ∈ node, tree.size ≤ clientMaxBodySize)
    (h : Reading command request) : Reading command (readJsonZfixedsetAdd node request).2 := by
  apply withAcl_reading hbody h
  intro tree zset r hsize hcheck hr
  obtain ⟨hkey,hmbs⟩ := validateZSet_short hcheck hsize
  have hnamed := setLastNamespaces_reading hr
  split
  · rename_i hnone
    rwa [hnone] at hnamed
  · rename_i r' hsome
    rw [hsome] at hnamed
    have hmembers := readMembers_reading hkey hmbs hnamed
    split
    · rename_i r'' hread
      rw [hread] at hmembers
      refine Reading.withSlots hmembers (pushSlots_entries ?_ hmembers.2.2.2.slots)
      cases hkvs : r''.mapKv.lookup zset.1 with
      | none => nofun
      | some kvs => exact lookup_entries hmembers.2.2.2.entries hkvs
    · exact hmembers

theorem readSets_reading {values : List Tree} (hvalues : ∀ value ∈ values, value.size ≤ clientMaxBodySize)
    (h : Reading command request) : Reading command (readSets values request).2 := by
  induction values generalizing request with
  | nil => exact h
  | cons value values ih =>
    obtain ⟨hvalue,hrest⟩ := List.forall_mem_cons.mp hvalues
    rw [readSets]
    split
    · exact h
    · rename_i key mbs hcheck
      obtain ⟨hkey,hmbs⟩ := validateZSet_short hcheck hvalue
      have hmembers := readMembers_reading hkey hmbs h
      split
      · rename_i r hread
        rw [hread] at hmembers
        exact ih hrest hmembers
      · exact hmembers

theorem readJsonZfixedsetBatchAdd_reading (hbody : ∀ tree ∈ node, tree.size ≤ clientMaxBodySize)
    (h : Reading command request) : Reading command (readJsonZfixedsetBatchAdd node request).2 := by
  apply withAcl_reading hbody h
  intro tree keys r hsize hkeys hr
  have hnamed := setLastNamespaces_reading hr
  split
  · rename_i hnone
    rwa [hnone] at hnamed
  · rename_i r' hsome
    rw [hsome] at hnamed
    have hsets := readSets_reading (validateArray_small hkeys hsize) hnamed
    split
    · rename_i r'' hread
      rw [hread] at hsets
      exact hsets.withSlots (fillSlots_entries _ hsets.2.2.2.entries hsets.2.2.2.slots)
    · exact hsets

theorem readQuery_short {tree : Tree} {query : Bytes × ZsetQuery} (hread : readQuery tree = .ok query)
    (hsize : tree.size ≤ clientMaxBodySize) : ShortKey query.1 := by
  obtain ⟨⟨key,min,max⟩,hquery,hrest⟩ := bind_eq_ok.mp hread
  cases hrest
  obtain ⟨key',hkey,hrest⟩ := bind_eq_ok.mp hquery
  obtain ⟨min',-,hrest⟩ := bind_eq_ok.mp hrest
  obtain ⟨max',-,hrest⟩ := bind_eq_ok.mp hrest
  cases hrest
  exact validateString_short hkey hsize

theorem readJsonFanOut_reading (hbody : ∀ tree ∈ node, tree.size ≤ clientMaxBodySize)
    (h : Reading command request) : Reading command (readJsonFanOut node request).2 := by
  have hquery : Reading command (readJsonZfixedsetGetByScore node request).2 := by
    apply withAcl_reading hbody h
    intro tree query r hsize hread hr
    exact hr.withQuery query.2 (readQuery_short hread hsize)
  unfold readJsonFanOut
  split
  · apply readVector_reading hbody h
    intro value key hsize hkey
    exact validateString_short hkey hsize
  · apply readVector_reading hbody h
    intro value kv hsize hkv
    obtain ⟨key,hkey,hrest⟩ := bind_eq_ok.mp hkv
    obtain ⟨v,-,hrest⟩ := bind_eq_ok.mp hrest
    cases hrest
    exact validateString_short hkey hsize
  · exact readJsonZfixedsetAdd_reading hbody h
  · exact readJsonZfixedsetBatchAdd_reading hbody h
  · exact hquery
  · exact hquery
  · apply withAcl_reading hbody h
    intro tree keys r hsize hkeys hr
    apply readEach_reading (validateArray_small hkeys hsize) hr
    intro value query r hvalue hread hr
    have hshort := readQuery_short hread hvalue
    exact Reading.withQuery (hr.withEntry hshort) query.2 hshort
  · exact h

theorem readJson_reading (hbody : ∀ tree ∈ node, tree.size ≤ clientMaxBodySize) (h : Reading command request)
    {r : QkpackRc × Request} (hread : readJson node request = some r) : Reading command r.2 := by
  unfold readJson at hread
  split at hread
  iterate 6
    · cases hread
      exact readJsonGet_reading hbody h
  iterate 3
    · cases hread
      exact readJsonSet_reading hbody h
  iterate 2
    · exact readJsonSadd_reading hbody h hread
  · cases hread
    exact readJsonFanOut_reading hbody h

theorem opened_reading (http : HttpRequest) (command : CommandType) : Reading command (http.opened command) :=
  ⟨rfl,rfl,rfl,⟨shortKey_nil,shortKey_nil,nofun,nofun,nofun,nofun,nofun⟩⟩

theorem parseRequestBody_reading {http : HttpRequest} {client : Client}
    (hbody : ∀ tree ∈ http.body, tree.size ≤ clientMaxBodySize) (hparse : http.parseRequestBody = some (.ok,client)) :
    ∃ command, Reading command client.request := by
  obtain ⟨command,operationType,request,-,hread,rfl⟩ := HttpRequest.parseRequestBody_read hparse
  exact ⟨command,readJson_reading hbody (opened_reading http command) hread⟩

end Commands

section Admitted

variable {command : CommandType} {r r' : Request}

theorem setLimits_entries {policies : List LimitPolicy} {status : Bool} {mapKv : List (Bytes × List KvPair)}
    (h : ShortEntries mapKv) : ShortEntries (setLimits policies status mapKv).2 := by
  induction mapKv generalizing status with
  | nil => exact h
  | cons entry mapKv ih =>
    obtain ⟨key,kvs⟩ := entry
    obtain ⟨hentry,hrest⟩ := List.forall_mem_cons.mp h
    rw [setLimits]
    split
    · refine List.forall_mem_cons.mpr ⟨?_,ih hrest⟩
      cases kvs with
      | nil => exact hentry
      | cons kv kvs =>
        obtain ⟨hkv,hkvs⟩ := List.forall_mem_cons.mp hentry
        exact List.forall_mem_cons.mpr ⟨hkv,hkvs⟩
    · split
      · exact List.forall_mem_cons.mpr ⟨hentry,ih hrest⟩
      · exact h

theorem limitSets_reading {policies : List LimitPolicy} (hr : Reading command r)
    (h : limitSets policies r = (.ok,r')) : Reading command r' := by
  obtain ⟨mapKv,hset,rfl⟩ := limitSets_ok h
  have hkeys := setLimits_keys policies false r.mapKv
  have hentries : ShortEntries (setLimits policies false r.mapKv).2 := setLimits_entries hr.2.2.2.entries
  rw [hset] at hkeys hentries
  refine ⟨hr.1,hr.2.1,hr.2.2.1,{ hr.2.2.2 with names := ?_, entries := hentries }⟩
  intro entry hentry
  obtain ⟨entry',hentry',heq⟩ := List.mem_map.mp (hkeys ▸ List.mem_map_of_mem hentry)
  rw [← heq]
  exact hr.2.2.2.names entry' hentry'

theorem process_reading {answer : Option AclRecord} {client client' : Client} {table table' : AclTable} {i : Nat}
    (hr : Reading command client.request) (h : process answer client table = .ok (some i,client',table')) :
    Reading command client'.request ∧ client'.request.namespaces.length = 2 := by
  obtain ⟨object,tries,r,-,-,hacl,hrequest⟩ := process_accepted h
  obtain ⟨a,r₂,r₃,-,hname,hcluster,hlimit⟩ := aclProcess_ok hacl
  obtain ⟨s,-,-,hlen,rfl⟩ := setNameSpace_inv hname
  obtain ⟨clusterName,rfl⟩ := setClusterName_ok hcluster
  rw [hrequest]
  refine ⟨?_,?_⟩
  · suffices hlimited : Reading command r from hlimited
    unfold getZsetLimit at hlimit
    split at hlimit
    · refine limitSets_reading ?_ hlimit
      exact hr
    · refine limitSets_reading ?_ hlimit
      exact hr
    · cases hlimit
      exact hr
  · obtain ⟨mapKv,rfl,-⟩ := getZsetLimit_ok hlimit
    exact hlen

end Admitted

end QkPack
