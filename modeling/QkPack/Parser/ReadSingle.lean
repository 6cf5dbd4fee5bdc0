import QkPack.Config.AclProcess
import QkPack.Core.ClusterNodes

/-!
# Reading the request of a client

`ParseRequestUri`, the `ReadJson*` functions of the commands for a single key, and `ParseRequestBody` for the
requests of clients.
-/

namespace QkPack
open Wire CString Resp Json

section Validate

def validateSetByKey (key : Option Bytes) : Except Bytes Bytes :=
  validateString "set key not exist" "set key may not be empty" key

def validateSetByKV (key value : Option Bytes) : Except Bytes (Bytes × Bytes) := do
  let key ← validateSetByKey key
  let value ← validateString "set value not exist" "set value may not be empty" value
  return (key,value)

def validateSet (key : Option Bytes) (mbs : Option (List Tree)) : Except Bytes (Bytes × List Tree) := do
  let key ← validateSetByKey key
  let mbs ← validateArray "set mbs not exist" "set mbs may not be empty" mbs
  return (key,mbs)

/-- The increment of an `INCRBY` may not be zero for `atoi`. -/
def validateIncrement (kv : Bytes × Bytes) : Except Bytes (Bytes × Bytes) :=
  if int32 (strtol10 kv.2) = 0 then .error (text "kvpair value must be a number") else .ok kv

end Validate

section Read

variable (node : Option Tree) (request : Request)

/-- `ReadJsonGet`, for the commands with a key only. -/
def readJsonGet : QkpackRc × Request :=
  withAcl node (fun node => match request.commandType with
      | .scard | .smembers => validateSetByKey (node.getString "k")
      | _ => validateKVPairByKey (node.getString "k")) request
    fun key request => (.ok,{ request with key := key })

/-- `ReadJsonSet`, for the commands with a key and a value. -/
def readJsonSet : QkpackRc × Request :=
  withAcl node (fun node => match request.commandType with
      | .sismember => validateSetByKV (node.getString "k") (node.getString "v")
      | .incrby => do validateIncrement (← validateKVPair (node.getString "k") (node.getString "v"))
      | _ => validateKVPair (node.getString "k") (node.getString "v")) request
    fun kv request => (.ok,{ request with key := kv.1, value := kv.2 })

def readSetMembers : List Tree → Request → Option (QkpackRc × Request)
  | [], request => some (.ok,request)
  | .string s :: mbs, request =>
    if validateStrEmpty (cStr s) then
      readSetMembers mbs { request with vectorMbs := request.vectorMbs ++ [cStr s] }
    else some (refuse request (text "set mbs value may not be empty"))
  | _ :: _, _ => none

/-- `ReadJsonSadd`, for the commands with a key and members. -/
def readJsonSadd : Option (QkpackRc × Request) :=
  match withAcl node (fun node => validateSet (node.getString "k") (node.getArray "mbs")) request
      fun zset request => (.ok,{ request with key := zset.1 }) with
  | (.ok,request) => readSetMembers ((node.bind (·.getArray "mbs")).getD []) request
  | r => some r

end Read

/-- What reaches the module of a request: the body as the JSON library has parsed it, and what the module sets
before it calls `CreateRequest`. -/
structure HttpRequest where
  uri : Bytes
  body : Option Tree
  bodyLength : Nat
  xRealIp : Bytes
  tries : Nat
  timeout : Nat

/-- The paths that are served, with what they stand for. -/
def interfaces : List (String × CommandType × OperationType) :=
  [("/hdp/kvstore/kv/get",.get,.read),
    ("/hdp/kvstore/kv/set",.set,.write),
    ("/hdp/kvstore/kv/del",.del,.write),
    ("/hdp/kvstore/kv/ttl",.ttl,.read),
    ("/hdp/kvstore/kv/incr",.incr,.write),
    ("/hdp/kvstore/kv/incrby",.incrby,.write),
    ("/hdp/kvstore/set/sadd",.sadd,.write),
    ("/hdp/kvstore/set/srem",.srem,.write),
    ("/hdp/kvstore/set/scard",.scard,.read),
    ("/hdp/kvstore/set/smembers",.smembers,.read),
    ("/hdp/kvstore/set/sismember",.sismember,.read),
    ("/hdp/kvstore/kv/mget",.mget,.read),
    ("/hdp/kvstore/kv/mset",.mset,.write),
    ("/hdp/kvstore/zfixedset/add",.zadd,.write),
    ("/hdp/kvstore/zfixedset/batchadd",.zbatchadd,.write),
    ("/hdp/kvstore/zfixedset/getbyscore",.zrangebyscore,.read),
    ("/hdp/kvstore/zfixedset/getbyrank",.zrange,.read),
    ("/hdp/kvstore/zfixedset/batchgetbyscore",.batchzrangebyscore,.read)]

def parseRequestUri (uri : Bytes) : Option (CommandType × OperationType) :=
  (interfaces.find? fun i => sameWord (cStr uri) i.1).map (·.2)

def readJson (node : Option Tree) (request : Request) : Option (QkpackRc × Request) :=
  match request.commandType with
  | .get | .ttl | .incr | .del | .scard | .smembers => some (readJsonGet node request)
  | .set | .incrby | .sismember => some (readJsonSet node request)
  | .sadd | .srem => readJsonSadd node request
  | _ => some (readJsonFanOut node request)

namespace HttpRequest

variable (http : HttpRequest)

def opened (command : CommandType) : Request := { Request.opened command with tries := http.tries }

def client (operationType : OperationType) (request : Request) : Client where
  request := request
  ak := (http.body.bind (·.getString "ak")).getD []
  xRealIp := http.xRealIp
  requestUri := http.uri
  operationType := operationType
  bodyLength := http.bodyLength
  timeout := http.timeout

/-- `ParseRequestBody`. For a path that is not served the command stays open. -/
def parseRequestBody : Option (QkpackRc × Client) :=
  match parseRequestUri http.uri with
  | none => some (.error,http.client .read { http.opened .unknown with code := .illegalRight })
  | some (command,operationType) =>
    (readJson http.body (http.opened command)).map fun r => (r.1,http.client operationType r.2)

theorem parseRequestBody_read {http : HttpRequest} {client : Client} (h : http.parseRequestBody = some (.ok,client)) :
    ∃ command operationType request, parseRequestUri http.uri = some (command,operationType) ∧
      readJson http.body (http.opened command) = some (.ok,request) ∧ client = http.client operationType request := by
  unfold parseRequestBody at h
  split at h
  · cases h
  · rename_i command operationType huri
    obtain ⟨⟨rc,request⟩,hread,heq⟩ := Option.map_eq_some_iff.mp h
    cases heq
    exact ⟨command,operationType,request,huri,hread,rfl⟩

end HttpRequest

end QkPack
