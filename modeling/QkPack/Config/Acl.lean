import QkPack.Parser.ReadJson

/-!
# Access control

`QkPackACL::Process`: the namespace and the cluster come from the URI, the namespace from behind its
third slash; the rest comes from the record that the authority keeps for the URI. The checks of the
operation and of the lengths only refuse; they are an argument here.
-/

namespace QkPack
open Wire CString Resp Json

/-- An entry of `vector_policies`: the limit of a set, by the length of its key. -/
structure LimitPolicy where
  min : Int
  max : Int
  limit : Int

/-- The part of `qkpack_acl_t` that a request takes over. -/
structure Acl where
  expire : Int
  compressThreshold : Int
  policies : List LimitPolicy

def behindSlash : Nat → Bytes → Option Bytes
  | 0, s => some s
  | _ + 1, [] => none
  | n + 1, c :: s => if c = 47 then behindSlash n s else behindSlash (n + 1) s

def setNameSpace (request : Request) : QkpackRc × Request :=
  if ¬ startsWith request.uri "qkd://" then refuse request (text "acl format illegal")
  else match behindSlash 3 request.uri with
    | none => refuse request (text "acl namespace may not be empty")
    | some s =>
      let request := { request with namespaces := cStr s }
      if request.namespaces.length ≠ 2 then
        refuse request (text "acl namespace length must be equal to 2")
      else (.ok,request)

/-- The cluster is named between the second and the third slash. -/
def setClusterName (request : Request) : QkpackRc × Request :=
  match behindSlash 2 request.uri, behindSlash 3 request.uri with
  | some s, some _ => (.ok,{ request with clusterName := s.takeWhile (· ≠ 47) })
  | _, _ => (.error,request)

def LimitPolicy.covers (policy : LimitPolicy) (key : Bytes) : Bool :=
  decide (policy.min ≤ (key.length : Int) ∧ (key.length : Int) ≤ policy.max)

/-- The loop of `GetZsetLimit`: the limit goes to the first entry of a key. A key without a policy is
refused only as long as no key before it had one (`status` is never reset). -/
def setLimits (policies : List LimitPolicy) (status : Bool) :
    List (Bytes × List KvPair) → Option Bytes × List (Bytes × List KvPair)
  | [] => (none,[])
  | (key,kvs) :: rest =>
    match policies.find? (·.covers key) with
    | some policy =>
      let (refused,rest) := setLimits policies true rest
      (refused,(key,kvs.modifyHead fun kv => { kv with limit := policy.limit }) :: rest)
    | none =>
      if status then
        let (refused,rest) := setLimits policies true rest
        (refused,(key,kvs) :: rest)
      else (some (toString32 key.length),(key,kvs) :: rest)

def limitSets (policies : List LimitPolicy) (request : Request) : QkpackRc × Request :=
  match setLimits policies false request.mapKv with
  | (none,mapKv) => (.ok,{ request with mapKv := mapKv })
  | (some length,mapKv) => refuse { request with mapKv := mapKv }
      (request.desc ++ text "key length could not match limit policy, keyLength=" ++ length)

def getZsetLimit (policies : List LimitPolicy) (request : Request) : QkpackRc × Request :=
  match request.commandType with
  | .zadd | .zbatchadd => limitSets policies request
  | _ => (.ok,request)

/-- `Process`; `refusal` is the description the checks of the operation and the lengths refuse with. -/
def aclProcess (acl : Option Acl) (refusal : Option Bytes) (request : Request) : QkpackRc × Request :=
  match setNameSpace request with
  | (.ok,request) =>
    match acl with
    | none => refuse request (text "acl unauthorized")
    | some acl =>
      match setClusterName request with
      | (.ok,request) =>
        let request := { request with
          exptime := acl.expire, compressThreshold := acl.compressThreshold }
        match refusal with
        | some desc => refuse request desc
        | none => getZsetLimit acl.policies request
      | r => r
  | r => r

/-- The beginning of `CreateRequest` for a request of a client: its body and its rights. -/
def createParent (command : CommandType) (node : Option Tree) (acl : Option Acl)
    (refusal : Option Bytes) : QkpackRc × Request :=
  match readJsonFanOut node (Request.opened command) with
  | (.ok,request) =>
    match aclProcess acl refusal request with
    | (.ok,request) => (.ok,request)
    | (_,request) => (.error,{ request with code := .illegalRight })
  | (_,request) => (.error,{ request with code := .parseError })

end QkPack
