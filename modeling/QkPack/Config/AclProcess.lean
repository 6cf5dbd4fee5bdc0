import Mathlib.Data.List.Infix
import QkPack.Config.Namespaces
import QkPack.Lib.Machine

/-!
# Records of the authority

`QkPackACL::Process` with all it reads of a record. Records are fetched when a URI and an application key are
first seen, and are kept for ever under a text made of both; the flag that `GetNodeList` sets is kept in the
record, too, which all requests share.
-/

namespace QkPack
open Wire CString Resp Json

/-- `route_t`, without the flag. Both maps are in the order of their keys. -/
structure Route where
  defaults : Bytes
  mapClient : List (Bytes × Bytes)
  mapServer : List (Bytes × Bytes)

/-- `timeouts_t`. -/
structure InterfaceTimeout where
  interfaceName : Bytes
  timeout : Int
  tries : Int

/-- `limits_length_t`. -/
structure LimitsLength where
  interfaceName : Bytes
  keylen : Int
  vallen : Int
  datalen : Int

/-- What the authority answers. -/
structure AclRecord extends Acl where
  operation : Int
  timeouts : List InterfaceTimeout
  limitsLength : List LimitsLength
  route : Route

/-- A `qkpack_acl_t` in memory, with the application key and the URI it was fetched for. -/
structure AclObject where
  ak : Bytes
  uri : Bytes
  record : AclRecord
  isMatchIp : Bool

/-- All records in the order in which they were fetched, and `map_acl_`, which holds pointers to them. -/
structure AclTable where
  objects : List AclObject
  mapAcl : List (Bytes × Nat)

def AclTable.empty : AclTable := ⟨[],[]⟩

/-- `QKPACK_OPERATION_*`. -/
inductive OperationType where
  | read | write
deriving DecidableEq

/-- `acl->operation & operation_type`. -/
def OperationType.allowedBy (operation : Int) : OperationType → Bool
  | .read => decide (operation % 2 = 1)
  | .write => decide (operation / 2 % 2 = 1)

/-- A request of a client with what access control reads of it besides. -/
structure Client where
  request : Request
  ak : Bytes
  xRealIp : Bytes
  requestUri : Bytes
  operationType : OperationType
  /-- The length of `request_buffer`. -/
  bodyLength : Nat
  timeout : Nat

/-- The ten bytes on the stack for the network of a client are written behind their end. -/
inductive AclFault where
  | overflow
deriving DecidableEq

section Steps

/-- The key of `map_acl_`. -/
def aclKey (ak uri : Bytes) : Bytes := uri ++ text "&&" ++ ak

/-- `SetACL`; `answer` is what `GetCurlResponse` would make of the answer of the authority. -/
def setACL (answer : Option AclRecord) (ak uri : Bytes) (table : AclTable) : Option Nat × AclTable :=
  match table.mapAcl.lookup (aclKey ak uri) with
  | some i => (some i,table)
  | none =>
    match answer with
    | none => (none,table)
    | some record => (some table.objects.length,
        ⟨table.objects ++ [⟨ak,uri,record,false⟩],(aclKey ak uri,table.objects.length) :: table.mapAcl⟩)

def beforeDot : Nat → Bytes → Bytes
  | _, [] => []
  | 0, c :: s => if c = 46 then [] else c :: beforeDot 0 s
  | n + 1, c :: s => c :: beforeDot (if c = 46 then n else n + 1) s

/-- The network of the client: the first two numbers of its address. The second dot is written, too, before
the loop ends. -/
def clientSubnet (xRealIp : Bytes) : Except AclFault Bytes :=
  let key := beforeDot 1 xRealIp
  let written := if key.length < xRealIp.length then key.length + 1 else key.length
  if written ≤ 10 then .ok key else .error .overflow

def Route.matchIp (route : Route) (xRealIp : Bytes) : Except AclFault Bool := do
  let key ← clientSubnet xRealIp
  return match route.mapClient.lookup key with
    | none => false
    | some group => (route.mapServer.lookup group).isSome

/-- `GetNodeList`. -/
def getNodeList (client : Client) (object : AclObject) : Except AclFault (Client × AclObject) := do
  let isMatchIp ← object.record.route.matchIp client.xRealIp
  return ({ client with request := { client.request with
      exptime := object.record.expire, compressThreshold := object.record.compressThreshold } },
    { object with isMatchIp := isMatchIp })

def LimitsLength.refusal (limits : LimitsLength) (client : Client) : Option Bytes :=
  let keylen := int32 client.request.key.length
  let vallen := int32 client.request.value.length
  let datalen := int32 client.bodyLength
  if keylen ≠ 0 ∧ keylen > limits.keylen then some (text "acl limit keylen too big")
  else if vallen ≠ 0 ∧ vallen > limits.vallen then some (text "acl limit vallen too big")
  else if datalen ≠ 0 ∧ datalen > limits.datalen then some (text "acl limit datalen too big")
  else none

/-- `CheckInterfaceLimitsLength`: every entry for the interface is looked at. -/
def checkInterfaceLimitsLength (limits : List LimitsLength) (client : Client) : Option Bytes :=
  (limits.filter fun l => decide (l.interfaceName <:+: client.requestUri)).findSome? (·.refusal client)

def AclRecord.refusal (record : AclRecord) (client : Client) : Option Bytes :=
  if client.operationType.allowedBy record.operation then
    checkInterfaceLimitsLength record.limitsLength client
  else some (match client.operationType with
    | .read => text "interface operation to read"
    | .write => text "interface operation to write")

/-- `CheckInterfaceTimeout`: the first entry for the interface counts. -/
def checkInterfaceTimeout (timeouts : List InterfaceTimeout) (client : Client) : Client :=
  match timeouts.find? fun t => decide (t.interfaceName <:+: client.requestUri) with
  | none => client
  | some t => { client with
      timeout := (t.timeout % 2 ^ 32).toNat
      request := { client.request with tries := (t.tries % 2 ^ 32).toNat } }

/-- `Process` behind `SetACL`. -/
def processRecord (client : Client) (object : AclObject) :
    Except AclFault (QkpackRc × Client × AclObject) :=
  match setClusterName client.request with
  | (.ok,request) => do
    let (client,object) ← getNodeList { client with request := request } object
    match object.record.refusal client with
    | some desc => return (.error,{ client with request := (refuse client.request desc).2 },object)
    | none =>
      match getZsetLimit object.record.policies client.request with
      | (.ok,request) =>
        return (.ok,checkInterfaceTimeout object.record.timeouts { client with request := request },object)
      | (rc,request) => return (rc,{ client with request := request },object)
  | (rc,request) => .ok (rc,{ client with request := request },object)

/-- `Process`: the record of the request, if it is accepted. -/
def process (answer : Option AclRecord) (client : Client) (table : AclTable) :
    Except AclFault (Option Nat × Client × AclTable) :=
  match setNameSpace client.request with
  | (.ok,request) =>
    match setACL answer client.ak request.uri table with
    | (none,table) => .ok (none,{ client with
        request := (refuse request (text "acl unauthorized")).2 },table)
    | (some i,table) =>
      match table.objects[i]? with
      | none => .ok (none,{ client with request := request },table)
      | some object => do
        let (rc,client,object) ← processRecord { client with request := request } object
        return (if rc = .ok then some i else none,client,
          { table with objects := table.objects.set i object })
  | (_,request) => .ok (none,{ client with request := request },table)

end Steps

section Accepted

variable {client client' : Client} {table table' : AclTable} {answer : Option AclRecord} {found : Option Nat}

theorem processRecord_object {rc : QkpackRc} {object object' : AclObject}
    (h : processRecord client object = .ok (rc,client',object')) :
    ∃ isMatchIp, object' = { object with isMatchIp := isMatchIp } := by
  unfold processRecord at h
  split at h
  · obtain ⟨⟨client₁,object₁⟩,hlist,h⟩ := bind_eq_ok.mp h
    obtain ⟨isMatchIp,-,hlist⟩ := bind_eq_ok.mp hlist
    cases hlist
    refine ⟨isMatchIp,?_⟩
    simp only at h
    split at h
    · cases h
      rfl
    · split at h
      · cases h
        rfl
      · cases h
        rfl
  · cases h
    exact ⟨object.isMatchIp,rfl⟩

theorem checkInterfaceTimeout_request (timeouts : List InterfaceTimeout) (client : Client) :
    ∃ tries, (checkInterfaceTimeout timeouts client).request = { client.request with tries := tries } := by
  unfold checkInterfaceTimeout
  split
  · exact ⟨client.request.tries,rfl⟩
  · exact ⟨_,rfl⟩

/-- The request that a record looks at: the name of its cluster and what the record says of values are in it. -/
def Client.admitted (client : Client) (clusterName : Bytes) (record : AclRecord) : Client :=
  { client with request := { client.request with
      clusterName := clusterName
      exptime := record.expire
      compressThreshold := record.compressThreshold } }

theorem processRecord_inv {object object' : AclObject}
    (h : processRecord client object = .ok (.ok,client',object')) :
    ∃ clusterName isMatchIp r,
      setClusterName client.request = (.ok,{ client.request with clusterName := clusterName }) ∧
      object.record.route.matchIp client.xRealIp = .ok isMatchIp ∧
      object' = { object with isMatchIp := isMatchIp } ∧
      object.record.refusal (client.admitted clusterName object.record) = none ∧
      getZsetLimit object.record.policies (client.admitted clusterName object.record).request = (.ok,r) ∧
      client' = checkInterfaceTimeout object.record.timeouts { client with request := r } := by
  unfold processRecord at h
  split at h
  · rename_i request hcluster
    obtain ⟨clusterName,rfl⟩ := setClusterName_ok hcluster
    obtain ⟨⟨client₁,object₁⟩,hlist,h⟩ := bind_eq_ok.mp h
    obtain ⟨isMatchIp,hmatch,hlist⟩ := bind_eq_ok.mp hlist
    cases hlist
    simp only at h
    split at h
    · cases h
    · rename_i hnone
      split at h
      · rename_i r hlimit
        cases h
        exact ⟨clusterName,isMatchIp,r,hcluster,hmatch,rfl,hnone,hlimit,rfl⟩
      · rename_i hnot _
        cases h
        exact absurd rfl hnot
  · rename_i hnot _
    cases h
    exact absurd rfl hnot

theorem processRecord_ok {object object' : AclObject} {request : Request}
    (hname : setNameSpace request = (.ok,client.request))
    (h : processRecord client object = .ok (.ok,client',object')) :
    ∃ tries r, aclProcess (some object.record.toAcl) none request = (.ok,r) ∧
      client'.request = { r with tries := tries } := by
  obtain ⟨clusterName,isMatchIp,r,hcluster,-,-,-,hlimit,rfl⟩ := processRecord_inv h
  obtain ⟨tries,htries⟩ := checkInterfaceTimeout_request object.record.timeouts { client with request := r }
  refine ⟨tries,r,?_,htries⟩
  simp only [aclProcess, hname, hcluster]
  exact hlimit

theorem process_inv {i : Nat} (h : process answer client table = .ok (some i,client',table')) :
    ∃ request object object', setNameSpace client.request = (.ok,request) ∧
      (setACL answer client.ak client.request.uri table).1 = some i ∧
      (setACL answer client.ak client.request.uri table).2.objects[i]? = some object ∧
      processRecord { client with request := request } object = .ok (.ok,client',object') ∧
      table'.objects[i]? = some object' := by
  unfold process at h
  split at h
  · rename_i request hname
    have huri : request.uri = client.request.uri := by
      obtain ⟨s,-,-,-,rfl⟩ := setNameSpace_inv hname
      rfl
    rw [huri] at h
    split at h
    · cases h
    · rename_i j table₁ hset
      split at h
      · cases h
      · rename_i object hobject
        obtain ⟨⟨rc,client₁,object₁⟩,hrecord,h⟩ := bind_eq_ok.mp h
        have hlt := (List.getElem?_eq_some_iff.mp hobject).1
        rw [hset]
        cases rc with
        | ok =>
          cases h
          exact ⟨request,object,object₁,hname,rfl,hobject,hrecord,List.getElem?_set_self hlt⟩
        | error => cases h
        | again => cases h
        | upstreamInvalidHeader => cases h
  · cases h

/-- A request is accepted in the way of `aclProcess`, with the record that `SetACL` finds. -/
theorem process_accepted {i : Nat} (h : process answer client table = .ok (some i,client',table')) :
    ∃ object tries r, (setACL answer client.ak client.request.uri table).1 = some i ∧
      (setACL answer client.ak client.request.uri table).2.objects[i]? = some object ∧
      aclProcess (some object.record.toAcl) none client.request = (.ok,r) ∧
      client'.request = { r with tries := tries } := by
  obtain ⟨request,object,object',hname,hset,hobject,hrecord,-⟩ := process_inv h
  obtain ⟨tries,r,hacl,hrequest⟩ := processRecord_ok hname hrecord
  exact ⟨object,tries,r,hset,hobject,hacl,hrequest⟩

end Accepted

section Cache

variable {client client' : Client} {table table' : AclTable} {answer : Option AclRecord}

theorem behindSlash_append {n : Nat} {s t u : Bytes} (h : behindSlash n s = some t) :
    behindSlash n (s ++ u) = some (t ++ u) := by
  induction s generalizing n with
  | nil =>
    cases n with
    | zero =>
      cases h
      rw [behindSlash]
    | succ n => cases h
  | cons c s ih =>
    cases n with
    | zero =>
      cases h
      rw [behindSlash]
    | succ n =>
      rw [List.cons_append, behindSlash]
      rw [behindSlash] at h
      split at h
      · rename_i hc
        rw [if_pos hc]
        exact ih h
      · rename_i hc
        rw [if_neg hc]
        exact ih h

theorem behindSlash_of_setNameSpace {request r : Request} (huri : 0 ∉ request.uri)
    (h : setNameSpace request = (.ok,r)) :
    ∃ s, behindSlash 3 request.uri = some s ∧ s.length = 2 := by
  obtain ⟨s,-,hbehind,hlen,-⟩ := setNameSpace_inv h
  rw [cStr_behindSlash huri hbehind] at hlen
  exact ⟨s,hbehind,hlen⟩

/-- Where the namespace has two bytes, the key of the cache can be taken apart. -/
theorem aclKey_injective {ak ak' uri uri' s s' : Bytes} (hs : behindSlash 3 uri = some s)
    (hlen : s.length = 2) (hs' : behindSlash 3 uri' = some s') (hlen' : s'.length = 2)
    (h : aclKey ak uri = aclKey ak' uri') : ak = ak' ∧ uri = uri' := by
  rw [aclKey, aclKey, List.append_assoc, List.append_assoc] at h
  have hbehind := congrArg (behindSlash 3) h
  rw [behindSlash_append hs, behindSlash_append hs', Option.some.injEq] at hbehind
  obtain ⟨-,htail⟩ := List.append_inj hbehind (hlen.trans hlen'.symm)
  obtain ⟨-,hak⟩ := List.append_inj htail rfl
  refine ⟨hak,?_⟩
  subst hak
  exact List.append_cancel_right h

/-- Every pointer in `map_acl_` is to a record that was fetched for the key it is kept under. -/
structure AclTable.Sound (table : AclTable) : Prop where
  entry : ∀ {key i}, table.mapAcl.lookup key = some i → ∃ object, table.objects[i]? = some object ∧
    key = aclKey object.ak object.uri ∧ ∃ s, behindSlash 3 object.uri = some s ∧ s.length = 2

theorem AclTable.sound_empty : AclTable.empty.Sound := by
  constructor
  intro key i h
  cases h

theorem AclTable.Sound.setACL (ht : table.Sound) {ak uri s : Bytes} {i : Nat}
    (hs : behindSlash 3 uri = some s) (hlen : s.length = 2)
    (h : setACL answer ak uri table = (some i,table')) :
    ∃ object, table'.objects[i]? = some object ∧ object.ak = ak ∧ object.uri = uri := by
  unfold QkPack.setACL at h
  split at h
  · rename_i j hlookup
    cases h
    obtain ⟨object,hobject,hkey,s',hs',hlen'⟩ := ht.entry hlookup
    obtain ⟨rfl,rfl⟩ := aclKey_injective hs hlen hs' hlen' hkey
    exact ⟨object,hobject,rfl,rfl⟩
  · split at h
    · cases h
    · cases h
      refine ⟨_,List.getElem?_concat_length,rfl,rfl⟩

theorem AclTable.Sound.fetched (ht : table.Sound) {ak uri s : Bytes} {found : Option Nat}
    (hs : behindSlash 3 uri = some s) (hlen : s.length = 2)
    (h : QkPack.setACL answer ak uri table = (found,table')) : table'.Sound := by
  unfold QkPack.setACL at h
  split at h
  · cases h
    exact ht
  · split at h
    · cases h
      exact ht
    · cases h
      constructor
      intro key i hlookup
      rw [List.lookup_cons] at hlookup
      split at hlookup
      · rename_i hkey
        cases hlookup
        exact ⟨_,List.getElem?_concat_length,eq_of_beq hkey,s,hs,hlen⟩
      · obtain ⟨object,hobject,hrest⟩ := ht.entry hlookup
        refine ⟨object,?_,hrest⟩
        rw [List.getElem?_append_left]
        · exact hobject
        · exact (List.getElem?_eq_some_iff.mp hobject).1

theorem AclTable.Sound.set (ht : table.Sound) {i : Nat} {object object' : AclObject}
    (hobject : table.objects[i]? = some object) (hak : object'.ak = object.ak)
    (huri : object'.uri = object.uri) : AclTable.Sound { table with objects := table.objects.set i object' } := by
  constructor
  intro key j hlookup
  obtain ⟨other,hother,hrest⟩ := ht.entry hlookup
  by_cases hij : i = j
  · subst hij
    cases hobject.symm.trans hother
    refine ⟨object',List.getElem?_set_self (List.getElem?_eq_some_iff.mp hobject).1,?_⟩
    rw [hak, huri]
    exact hrest
  · refine ⟨other,?_,hrest⟩
    rw [List.getElem?_set_ne hij]
    exact hother

theorem AclTable.Sound.process (ht : table.Sound) (huri : 0 ∉ client.request.uri) {found : Option Nat}
    (h : process answer client table = .ok (found,client',table')) : table'.Sound := by
  unfold QkPack.process at h
  split at h
  · rename_i request hname
    obtain ⟨s,hs,hlen⟩ := behindSlash_of_setNameSpace huri hname
    obtain ⟨_,-,-,-,rfl⟩ := setNameSpace_inv hname
    split at h
    · rename_i table₁ hset
      cases h
      exact ht.fetched hs hlen hset
    · rename_i i table₁ hset
      have ht₁ := ht.fetched hs hlen hset
      split at h
      · cases h
        exact ht₁
      · rename_i object hobject
        obtain ⟨⟨rc,client₁,object₁⟩,hrecord,h⟩ := bind_eq_ok.mp h
        cases h
        obtain ⟨isMatchIp,rfl⟩ := processRecord_object hrecord
        exact ht₁.set hobject rfl rfl
  · cases h
    exact ht

/-- A request of a client, and what the authority would answer about it. -/
structure AclCall where
  client : Client
  answer : Option AclRecord

def aclStep (table : AclTable) (call : AclCall) : Option AclTable :=
  match process call.answer call.client table with
  | .ok (_,_,table) => some table
  | .error _ => none

theorem AclTable.Sound.aclStep (ht : table.Sound) {call : AclCall} (huri : 0 ∉ call.client.request.uri)
    (h : aclStep table call = some table') : table'.Sound := by
  unfold QkPack.aclStep at h
  split at h
  · rename_i hprocess
    cases h
    exact ht.process huri hprocess
  · cases h

/-- However many requests came before, the record that a request gets past `SetACL` with was fetched for its
own application key and URI, and no other URI with a namespace has the same key in the cache. -/
theorem acl_fetched_for_request {calls : List AclCall}
    (hcalls : ∀ call ∈ calls, 0 ∉ call.client.request.uri)
    (hrun : Machine.run aclStep AclTable.empty calls = some table) {request r : Request}
    (huri : 0 ∉ request.uri) (hname : setNameSpace request = (.ok,r)) (ak : Bytes)
    (answer : Option AclRecord) :
    (∀ {i table'}, setACL answer ak request.uri table = (some i,table') →
      ∃ object, table'.objects[i]? = some object ∧ object.ak = ak ∧ object.uri = request.uri) ∧
    ∀ {request' r' : Request} {ak' : Bytes}, 0 ∉ request'.uri → setNameSpace request' = (.ok,r') →
      aclKey ak request.uri = aclKey ak' request'.uri → ak = ak' ∧ request.uri = request'.uri := by
  obtain ⟨s,hs,hlen⟩ := behindSlash_of_setNameSpace huri hname
  have hsound : table.Sound := by
    have halong : Machine.Along aclStep (fun _ call => 0 ∉ call.client.request.uri) AclTable.empty calls :=
      Machine.along_of_forall hcalls
    exact Machine.invariant_run (fun ht h hstep => ht.aclStep h hstep) AclTable.sound_empty halong hrun
  constructor
  · intro i table' hset
    exact hsound.setACL hs hlen hset
  · intro request' r' ak' huri' hname' hkey
    obtain ⟨s',hs',hlen'⟩ := behindSlash_of_setNameSpace huri' hname'
    exact aclKey_injective hs hlen hs' hlen' hkey

def openRecord : AclRecord where
  expire := 60
  compressThreshold := 1024
  policies := []
  operation := 3
  timeouts := []
  limitsLength := []
  route := ⟨text "10.0.0.1:7000",[],[]⟩

def sampleClient (ak uri : String) : Client where
  request := { Request.fresh with uri := text uri }
  ak := text ak
  xRealIp := text "10.1.0.9"
  requestUri := text "/hdp/kvstore/kv/get"
  operationType := .read
  bodyLength := 64
  timeout := 0

/-- The second request with the key `x` gets the record of the first; no answer is needed for it. -/
theorem acl_fetched_for_request_again :
    ∃ table i table' object, Machine.run aclStep AclTable.empty
        [⟨sampleClient "x" "qkd://BJ/ab",some openRecord⟩,⟨sampleClient "y" "qkd://BJ/cd",some openRecord⟩] =
          some table ∧
      setACL none (text "x") (text "qkd://BJ/ab") table = (some i,table') ∧
      table'.objects[i]? = some object ∧ object.ak = text "x" ∧ object.uri = text "qkd://BJ/ab" := by
  have hfound : ((Machine.run aclStep AclTable.empty
      [⟨sampleClient "x" "qkd://BJ/ab",some openRecord⟩,⟨sampleClient "y" "qkd://BJ/cd",some openRecord⟩]).map
        fun table => (setACL none (text "x") (text "qkd://BJ/ab") table).1) = some (some 0) := by
    decide +kernel
  obtain ⟨table,hrun,hset⟩ := Option.map_eq_some_iff.mp hfound
  have hname : setNameSpace (sampleClient "x" "qkd://BJ/ab").request =
      (.ok,(setNameSpace (sampleClient "x" "qkd://BJ/ab").request).2) := Prod.ext (by decide +kernel) rfl
  obtain ⟨hown,-⟩ := acl_fetched_for_request (by simp only [List.forall_mem_cons]; decide +kernel) hrun
    (by decide +kernel) hname (text "x") none
  obtain ⟨object,hobject,hak,huri⟩ := hown (Prod.ext hset rfl)
  exact ⟨table,0,_,object,hrun,Prod.ext hset rfl,hobject,hak,huri⟩

end Cache

end QkPack
