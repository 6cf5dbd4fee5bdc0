import QkPack.Lib.Double
import QkPack.Lib.Resp

/-!
# Requests

The part of `qkpack_request_t` and `kvpair_t` that the protocol, the handler and the fan-out work on.
A sub-request points to its parent; the functions here take the parent as an argument of its own.
-/

namespace QkPack
open Wire CString Resp

inductive CommandType where
  | get | del | ttl | set | incr | incrby | sadd | srem | scard | smembers | sismember
  | mget | mset | zadd | zbatchadd | zrangebyscore | zrange | batchzrangebyscore | unknown
deriving DecidableEq

/-- `QKPACK_RESPONSE_CODE_*`. -/
inductive ResponseCode where
  | ok | unknown | parseError | illegalRight | timeout5xx | redisStorageError
deriving DecidableEq

def ResponseCode.value : ResponseCode → Nat
  | .ok => 0
  | .unknown => 1000
  | .parseError => 2000
  | .illegalRight => 3000
  | .timeout5xx => 4000
  | .redisStorageError => 5000

/-- The values of `moved_ask`. -/
inductive MovedAsk where
  | ok | moved | ask | asking | askingEnd
deriving DecidableEq

/-- What the functions of `RedisProto` return. -/
inductive RedisRc where
  | ok | error | moved | ask | tryagain
deriving DecidableEq

/-- What the functions of the handler and of the parser return. -/
inductive QkpackRc where
  | ok | error | again | upstreamInvalidHeader
deriving DecidableEq

/-- `QKPACK_SUBREQUEST_*`. -/
inductive Phase where
  | start | mget | mset | zfixedsetAdd | zfixedsetBatchadd | zfixedsetGetbyscore
  | zfixedsetBatchgetbyscore | done
deriving DecidableEq

/-- An entry of `map_kv` and `vector_kv`. -/
structure KvPair where
  key : Bytes
  value : Bytes
  score : Double
  limit : Int
deriving DecidableEq

structure ZsetQuery where
  min : Double
  max : Double
  asc : Bool
  ws : Bool
deriving DecidableEq

structure Request where
  isSubrequest : Bool
  commandType : CommandType
  slotId : Int
  key : Bytes
  value : Bytes
  namespaces : Bytes
  exptime : Int
  num : Int
  compressThreshold : Int
  movedAsk : MovedAsk
  command : Bytes
  protoStr : Bytes
  responseBuffer : Bytes
  nodeIp : Bytes
  clusterName : Bytes
  tries : Nat
  nowTries : Nat
  code : ResponseCode
  desc : Bytes
  cost : Nat
  phase : Phase
  uri : Bytes
  vectorKv : List KvPair
  mapKv : List (Bytes × List KvPair)
  mapSlotsKv : List (Int × List KvPair)
  mapQuery : List (Bytes × ZsetQuery)
  vectorMbs : List Bytes

/-- A request as its constructor leaves it. The threshold of compression, which it leaves open, is set by access
control, and that of a sub-request is whatever the memory held. -/
def Request.fresh : Request where
  isSubrequest := false
  commandType := .unknown
  slotId := -1
  key := []
  value := []
  namespaces := text "null"
  exptime := 604800
  num := 0
  compressThreshold := 0
  movedAsk := .ok
  command := []
  protoStr := []
  responseBuffer := []
  nodeIp := []
  clusterName := []
  tries := 0
  nowTries := 0
  code := .ok
  desc := []
  cost := 0
  phase := .start
  uri := []
  vectorKv := []
  mapKv := []
  mapSlotsKv := []
  mapQuery := []
  vectorMbs := []

/-- `namespaces + key`. -/
def Request.nsKey (request : Request) : Bytes := request.namespaces ++ request.key

/-- `StringUtil::ToString`, which takes an `int`. -/
def toString32 (v : Int) : Bytes := intText (int32 v)

/-- `CheckSubRequest`: a request of a client that is answered by sub-requests. -/
def checkSubRequest (request : Request) : Bool :=
  !request.isSubrequest && match request.commandType with
    | .mget | .mset | .zadd | .zbatchadd | .zrangebyscore | .zrange | .batchzrangebyscore => true
    | _ => false

end QkPack
