import QkPack.Parser.ShortKeys

/-!
# The lengths that access control limits

`CheckInterfaceLimitsLength` measures the key and the value of a request and its body. What a command with many
keys or members has read stands in other fields, which nobody measures.
-/

namespace QkPack
open Wire CString Resp Json

/-- The keys that stand in a list of the request. The members of a fixed set are keys, too. -/
def Request.listedKeys (r : Request) : List Bytes :=
  r.vectorKv.map KvPair.key ++ r.mapKv.flatMap (fun set => set.1 :: set.2.map KvPair.key) ++ r.mapQuery.map Prod.fst

def Request.listedValues (r : Request) : List Bytes :=
  r.vectorKv.map KvPair.value ++ r.mapKv.flatMap (fun set => set.2.map KvPair.value) ++ r.vectorMbs

/-- A text that the client has given is not longer than this; none that is given is empty. -/
def Within (limit : Int) (s : Bytes) : Prop := s ≠ [] → (s.length : Int) ≤ limit

instance (limit : Int) (s : Bytes) : Decidable (Within limit s) := inferInstanceAs (Decidable (_ → _))

namespace LimitsLength

variable (limits : LimitsLength)

structure BindsLists (r : Request) : Prop where
  keys : ∀ key ∈ r.listedKeys, Within limits.keylen key
  values : ∀ value ∈ r.listedValues, Within limits.vallen value

instance (r : Request) : Decidable (limits.BindsLists r) :=
  decidable_of_iff ((∀ key ∈ r.listedKeys, Within limits.keylen key) ∧
    ∀ value ∈ r.listedValues, Within limits.vallen value) ⟨fun h => ⟨h.1,h.2⟩,fun h => ⟨h.keys,h.values⟩⟩

/-- The limits hold for all that a client has sent. -/
structure Binds (client : Client) : Prop extends BindsLists limits client.request where
  key : Within limits.keylen client.request.key
  value : Within limits.vallen client.request.value
  body : (client.bodyLength : Int) ≤ limits.datalen

end LimitsLength

/-- The body is as long as its text, which the server limits. -/
structure HttpRequest.Measured (http : HttpRequest) : Prop where
  text : ∀ tree ∈ http.body, tree.size ≤ http.bodyLength
  limit : http.bodyLength ≤ clientMaxBodySize

theorem HttpRequest.Measured.body_le {http : HttpRequest} (h : http.Measured) :
    ∀ tree ∈ http.body, tree.size ≤ clientMaxBodySize := by
  intro tree htree
  exact (h.text tree htree).trans h.limit

section Checked

variable {limits : LimitsLength} {client client' : Client}

theorem int32_length {s : Bytes} (hs : ShortKey s) : int32 s.length = s.length := by
  rw [ShortKey] at hs
  apply int32_of_range
  · omega
  · omega

theorem LimitsLength.within_of_refusal (hkey : ShortKey client.request.key) (hvalue : ShortKey client.request.value)
    (hbody : client.bodyLength ≤ clientMaxBodySize) (h : limits.refusal client = none) :
    Within limits.keylen client.request.key ∧ Within limits.vallen client.request.value ∧
      (client.bodyLength ≠ 0 → (client.bodyLength : Int) ≤ limits.datalen) := by
  have hdata : int32 client.bodyLength = client.bodyLength := by
    rw [clientMaxBodySize] at hbody
    apply int32_of_range
    · omega
    · omega
  unfold refusal at h
  simp only [int32_length hkey, int32_length hvalue, hdata] at h
  split at h
  · cases h
  · rename_i hk
    split at h
    · cases h
    · rename_i hv
      split at h
      · cases h
      · rename_i hd
        refine ⟨?_,?_,?_⟩
        · intro hne
          have hpos := List.length_pos_of_ne_nil hne
          omega
        · intro hne
          have hpos := List.length_pos_of_ne_nil hne
          omega
        · intro hne
          omega

theorem checkInterfaceLimitsLength_none {entries : List LimitsLength}
    (h : checkInterfaceLimitsLength entries client = none) (hl : limits ∈ entries)
    (hname : limits.interfaceName <:+: client.requestUri) : limits.refusal client = none := by
  apply List.findSome?_eq_none_iff.mp h
  exact List.mem_filter.mpr ⟨hl,decide_eq_true hname⟩

theorem processRecord_lengths {object object' : AclObject}
    (h : processRecord client object = .ok (.ok,client',object')) :
    checkInterfaceLimitsLength object.record.limitsLength client = none := by
  obtain ⟨clusterName,isMatchIp,r,-,-,-,hnone,-,-⟩ := processRecord_inv h
  unfold AclRecord.refusal at hnone
  split at hnone
  · exact hnone
  · cases hnone

theorem process_lengths {answer : Option AclRecord} {table table' : AclTable} {i : Nat} {object : AclObject}
    (h : process answer client table = .ok (some i,client',table')) (hobject : table'.objects[i]? = some object) :
    checkInterfaceLimitsLength object.record.limitsLength client = none := by
  obtain ⟨request,found,found',hname,-,-,hrecord,hfound'⟩ := process_inv h
  obtain ⟨s,-,-,-,rfl⟩ := setNameSpace_inv hname
  obtain ⟨isMatchIp,rfl⟩ := processRecord_object hrecord
  cases hfound'.symm.trans hobject
  have hlengths := processRecord_lengths hrecord
  exact hlengths

end Checked

section Parsed

variable {http : HttpRequest} {client : Client}

theorem parseRequestUri_served {uri : Bytes} {command : CommandType} {operationType : OperationType}
    (h : parseRequestUri uri = some (command,operationType)) : ∃ path, (path,command,operationType) ∈ interfaces := by
  obtain ⟨⟨path,served⟩,hfind,heq⟩ := Option.map_eq_some_iff.mp h
  refine ⟨path,?_⟩
  rw [← heq]
  exact List.mem_of_find?_eq_some hfind

theorem readJson_none {path : String} {command : CommandType} {operationType : OperationType}
    (h : (path,command,operationType) ∈ interfaces) (request : Request) (hcommand : request.commandType = command) :
    ∃ r, readJson none request = some (.error,r) := by
  simp only [interfaces, List.mem_cons, List.not_mem_nil, Prod.mk.injEq, or_false] at h
  unfold readJson readJsonFanOut
  rw [hcommand]
  rcases h with h | h | h | h | h | h | h | h | h | h | h | h | h | h | h | h | h | h
  all_goals
    rw [h.2.1]
    exact ⟨_,rfl⟩

theorem parseRequestBody_ok (h : http.parseRequestBody = some (.ok,client)) :
    client.requestUri = http.uri ∧ client.bodyLength = http.bodyLength ∧ ∃ tree, http.body = some tree := by
  obtain ⟨command,operationType,request,huri,hread,rfl⟩ := HttpRequest.parseRequestBody_read h
  refine ⟨rfl,rfl,?_⟩
  cases hbody : http.body with
  | some tree => exact ⟨tree,rfl⟩
  | none =>
    obtain ⟨path,hserved⟩ := parseRequestUri_served huri
    obtain ⟨r,hnone⟩ := readJson_none hserved (http.opened command) rfl
    rw [hbody, hnone] at hread
    cases hread

def singleCommands : List CommandType := [.get,.ttl,.incr,.del,.scard,.smembers,.set,.incrby,.sismember]

theorem readJson_single {node : Option Tree} {request r : Request} (hcommand : request.commandType ∈ singleCommands)
    (h : readJson node request = some (.ok,r)) :
    ∃ uri key value, r = { request with uri := uri, key := key, value := value } := by
  have hget (h : readJsonGet node request = (.ok,r)) :
      ∃ uri key value, r = { request with uri := uri, key := key, value := value } := by
    obtain ⟨tree,uri,key,-,-,-,hread⟩ := withAcl_ok h
    cases hread
    exact ⟨uri,key,request.value,rfl⟩
  have hset (h : readJsonSet node request = (.ok,r)) :
      ∃ uri key value, r = { request with uri := uri, key := key, value := value } := by
    obtain ⟨tree,uri,kv,-,-,-,hread⟩ := withAcl_ok h
    cases hread
    exact ⟨uri,kv.1,kv.2,rfl⟩
  unfold readJson at h
  simp only [singleCommands, List.mem_cons, List.not_mem_nil, or_false] at hcommand
  rcases hcommand with hc | hc | hc | hc | hc | hc | hc | hc | hc
  all_goals
    rw [hc] at h
    first
      | exact hget (Option.some.inj h)
      | exact hset (Option.some.inj h)

theorem bindsLists_single (hmeasured : http.Measured) (h : http.parseRequestBody = some (.ok,client))
    (hcommand : client.request.commandType ∈ singleCommands) (limits : LimitsLength) :
    limits.BindsLists client.request := by
  obtain ⟨command,operationType,request,-,hread,rfl⟩ := HttpRequest.parseRequestBody_read h
  have hreading : Reading command request :=
    readJson_reading hmeasured.body_le (opened_reading http command) hread
  have hopened : (http.opened command).commandType ∈ singleCommands := hreading.2.1 ▸ hcommand
  obtain ⟨uri,key,value,rfl⟩ := readJson_single hopened hread
  constructor
  · intro key hkey
    cases hkey
  · intro value hvalue
    cases hvalue

end Parsed

section Bound

variable {answer : Option AclRecord} {http : HttpRequest} {opened client : Client} {table table' : AclTable} {i : Nat}
  {object : AclObject}

theorem binds_of_lists (hmeasured : http.Measured) (hparse : http.parseRequestBody = some (.ok,opened))
    (hprocess : process answer opened table = .ok (some i,client,table'))
    (hobject : table'.objects[i]? = some object) {limits : LimitsLength} (hl : limits ∈ object.record.limitsLength)
    (hname : limits.interfaceName <:+: http.uri) (hlists : limits.BindsLists opened.request) :
    limits.Binds opened := by
  obtain ⟨huri,hlength,tree,htree⟩ := parseRequestBody_ok hparse
  obtain ⟨command,hreading⟩ := parseRequestBody_reading hmeasured.body_le hparse
  have hrefusal : limits.refusal opened = none := by
    apply checkInterfaceLimitsLength_none (process_lengths hprocess hobject) hl
    rw [huri]
    exact hname
  obtain ⟨hkey,hvalue,hbody⟩ := LimitsLength.within_of_refusal hreading.2.2.2.key hreading.2.2.2.value
    (hlength ▸ hmeasured.limit) hrefusal
  refine ⟨hlists,hkey,hvalue,hbody ?_⟩
  -- a body that could be read is not empty
  have htext := hmeasured.text tree htree
  have hpos := tree.size_pos
  omega

/-- The commands without lists are bound by every entry for their interface. -/
theorem single_binds (hmeasured : http.Measured) (hparse : http.parseRequestBody = some (.ok,opened))
    (hcommand : opened.request.commandType ∈ singleCommands)
    (hprocess : process answer opened table = .ok (some i,client,table'))
    (hobject : table'.objects[i]? = some object) :
    ∀ limits ∈ object.record.limitsLength, limits.interfaceName <:+: http.uri → limits.Binds opened := by
  intro limits hl hname
  apply binds_of_lists hmeasured hparse hprocess hobject hl hname
  exact bindsLists_single hmeasured hparse hcommand limits

/-- The limits of an accepted request hold exactly where its lists keep them by themselves. -/
theorem length_limits_iff (hmeasured : http.Measured) (hparse : http.parseRequestBody = some (.ok,opened))
    (hprocess : process answer opened table = .ok (some i,client,table'))
    (hobject : table'.objects[i]? = some object) :
    (∀ limits ∈ object.record.limitsLength, limits.interfaceName <:+: http.uri → limits.Binds opened) ↔
      ∀ limits ∈ object.record.limitsLength, limits.interfaceName <:+: http.uri →
        limits.BindsLists opened.request := by
  constructor
  · intro h limits hl hname
    exact (h limits hl hname).toBindsLists
  · intro h limits hl hname
    exact binds_of_lists hmeasured hparse hprocess hobject hl hname (h limits hl hname)

/-- A request to get the keys `a` and `long`. -/
def mgetHttp : HttpRequest where
  uri := text "/hdp/kvstore/kv/mget"
  body := some (.object [(text "uri",.string (text "qkd://BJ/ab")),(text "ak",.string (text "x")),
    (text "ks",.array [.object [(text "k",.string (text "a"))],.object [(text "k",.string (text "long"))]])])
  bodyLength := 60
  xRealIp := text "10.1.0.9"
  tries := 3
  timeout := 0

theorem measured_mgetHttp : mgetHttp.Measured := by
  constructor
  · intro tree htree
    cases htree
    decide +kernel
  · decide +kernel

def keysUpTo (keylen : Int) : AclRecord :=
  { openRecord with limitsLength := [⟨text "/kv/mget",keylen,0,4096⟩] }

def acceptedWith (record : AclRecord) : Option (Client × AclObject) :=
  match mgetHttp.parseRequestBody with
  | some (.ok,opened) =>
    match process (some record) opened .empty with
    | .ok (some i,_,table) => table.objects[i]?.map fun object => (opened,object)
    | _ => none
  | _ => none

theorem acceptedWith_eq_some {record : AclRecord} (h : acceptedWith record = some (opened,object)) :
    ∃ i client table', mgetHttp.parseRequestBody = some (.ok,opened) ∧
      process (some record) opened .empty = .ok (some i,client,table') ∧ table'.objects[i]? = some object := by
  unfold acceptedWith at h
  split at h
  · rename_i opened' hparse
    split at h
    · rename_i i client table' hprocess
      obtain ⟨object',hobject,heq⟩ := Option.map_eq_some_iff.mp h
      cases heq
      exact ⟨i,client,table',hparse,hprocess,hobject⟩
    · cases h
  · cases h

/-- Where both keys are short enough, the limits hold. -/
theorem length_limits_four :
    ∃ opened i client table' object, mgetHttp.parseRequestBody = some (.ok,opened) ∧
      process (some (keysUpTo 4)) opened .empty = .ok (some i,client,table') ∧ table'.objects[i]? = some object ∧
      ∀ limits ∈ object.record.limitsLength, limits.interfaceName <:+: mgetHttp.uri → limits.Binds opened := by
  have hlists : (acceptedWith (keysUpTo 4)).map (fun r =>
      decide (∀ limits ∈ r.2.record.limitsLength, limits.BindsLists r.1.request)) = some true := by decide +kernel
  obtain ⟨⟨opened,object⟩,haccepted,hlists⟩ := Option.map_eq_some_iff.mp hlists
  obtain ⟨i,client,table',hparse,hprocess,hobject⟩ := acceptedWith_eq_some haccepted
  refine ⟨opened,i,client,table',object,hparse,hprocess,hobject,?_⟩
  apply (length_limits_iff measured_mgetHttp hparse hprocess hobject).mpr
  intro limits hl hname
  exact of_decide_eq_true hlists limits hl

/-- A key of four bytes is accepted where three are allowed. -/
theorem long_key_accepted :
    ∃ opened i client table' object, mgetHttp.Measured ∧ mgetHttp.parseRequestBody = some (.ok,opened) ∧
      process (some (keysUpTo 3)) opened .empty = .ok (some i,client,table') ∧ table'.objects[i]? = some object ∧
      ¬ ∀ limits ∈ object.record.limitsLength, limits.interfaceName <:+: mgetHttp.uri → limits.Binds opened := by
  have hlists : (acceptedWith (keysUpTo 3)).map (fun r => decide (∃ limits ∈ r.2.record.limitsLength,
      limits.interfaceName <:+: mgetHttp.uri ∧ ¬ limits.BindsLists r.1.request)) = some true := by decide +kernel
  obtain ⟨⟨opened,object⟩,haccepted,hlists⟩ := Option.map_eq_some_iff.mp hlists
  obtain ⟨i,client,table',hparse,hprocess,hobject⟩ := acceptedWith_eq_some haccepted
  obtain ⟨limits,hl,hname,hnot⟩ := of_decide_eq_true hlists
  refine ⟨opened,i,client,table',object,measured_mgetHttp,hparse,hprocess,hobject,?_⟩
  intro h
  exact hnot (h limits hl hname).toBindsLists

end Bound

end QkPack
