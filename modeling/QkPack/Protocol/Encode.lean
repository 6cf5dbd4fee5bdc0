import QkPack.Protocol.StoredValue

/-!
# Building the Redis command of a request

`RedisProtoEncode` and the encoders it calls. The Lua scripts are loaded into a node before the first
`EVALSHA` for it; their hashes are kept in `map_script_`.
-/

namespace QkPack
open Wire CString Resp

inductive Script where
  | addMultikv | addZset | incrby | addRset
deriving DecidableEq

/-- `map_script_`: for each node the hashes of the scripts, empty when not loaded. -/
abbrev ScriptCache := Bytes → Script → Bytes

/-- What `RedisProto` calls: the compressor, `StrToDouble`, and `InitClusterScript`, which gives no
hash when the node cannot be reached. -/
structure RedisProto where
  compress : SnappyLib
  strToDouble : Bytes → Double
  initClusterScript : Bytes → Script → Option Bytes

/-- Why an encoder builds nothing: it returns `REDIS_ERROR`, `append` throws because of a negative
length, or memory is read that is not there. -/
inductive EncodeFault where
  | redisError | lengthError | badAccess
deriving DecidableEq

/-- `StringUtil::DoubleToString`: `snprintf` into 128 bytes, of which the string takes as many as the
text has. -/
def doubleToString (d : Double) : Except EncodeFault Bytes :=
  if d.shown.length < 128 then .ok d.shown
  else if d.shown.length = 128 then .ok (d.shown.take 127 ++ [0])
  else .error .badAccess

/-- An argument in `RedisProtoCmd`; its length is an `int`. -/
def cmdArg (arg : Bytes) : Except EncodeFault Bytes :=
  let len := int32 arg.length
  if len < 0 then .error .lengthError else .ok (encBulk (arg.take len.toNat))

/-- The first `argc` arguments; the callers count them by formulas of their own. -/
def redisProtoCmd (argc : Nat) (argv : List Bytes) : Except EncodeFault Bytes :=
  if argv.length < argc then .error .badAccess
  else ((argv.take argc).mapM cmdArg).map fun args => arrayHeader argc ++ args.flatten

/-- `redisProtoCmd` into the `proto_str` of a request. -/
def Request.build (request : Request) (argc : Nat) (argv : List Bytes) : Except EncodeFault Request :=
  (redisProtoCmd argc argv).map fun protoStr => { request with protoStr := protoStr }

section LoadScript

variable (proto : RedisProto) (nodeIp : Bytes)

/-- The scripts that are still missing, one after the other; a failure keeps those loaded so far. -/
def loadScripts : List Script → ScriptCache → RedisRc × ScriptCache
  | [], scripts => (.ok,scripts)
  | script :: rest, scripts =>
    if scripts nodeIp script = [] then
      match proto.initClusterScript nodeIp script with
      | none => (.error,scripts)
      | some sha => loadScripts rest fun ip s =>
          if ip = nodeIp ∧ s = script then sha else scripts ip s
    else loadScripts rest scripts

def redisProtoEncodeLoadScript (scripts : ScriptCache) : RedisRc × ScriptCache :=
  loadScripts proto nodeIp [.addMultikv,.addZset,.incrby,.addRset] scripts

def withScript (script : Script) (scripts : ScriptCache)
    (build : Bytes → Except EncodeFault Request) : Except EncodeFault Request × ScriptCache :=
  match redisProtoEncodeLoadScript proto nodeIp scripts with
  | (.ok,scripts) =>
    let sha := scripts nodeIp script
    (if sha = [] then .error .redisError else build sha, scripts)
  | (_,scripts) => (.error .redisError,scripts)

end LoadScript

def evalsha : Bytes := text "EVALSHA"

def redisProtoEncodePing (request : Request) : Except EncodeFault Request :=
  request.build 1 [text "ping"]

def redisProtoEncodeParamOne (request : Request) : Except EncodeFault Request :=
  request.build 2 [request.command,request.nsKey]

section Encoders

variable (proto : RedisProto)

/-- A value of a request, as `CompressValue` leaves it. -/
def RedisProto.storedFor (request : Request) (value : Bytes) : Bytes :=
  stored proto.compress value request.compressThreshold

def redisProtoEncodeParamTwo (request : Request) : Except EncodeFault Request :=
  request.build 3 [request.command,request.nsKey,proto.storedFor request request.value]

def redisProtoEncodeParamThree (request : Request) : Except EncodeFault Request :=
  request.build 4 [request.command,request.nsKey,toString32 request.exptime,
    proto.storedFor request request.value]

def redisProtoEncodeParamMulti (parent request : Request) : Except EncodeFault Request :=
  match parent.mapSlotsKv.lookup request.slotId with
  | none => .error .redisError
  | some kvs => request.build (kvs.length + 1)
      (request.command :: kvs.map fun kv : KvPair => parent.namespaces ++ kv.key)

def redisProtoEncodeSrem (request : Request) : Except EncodeFault Request :=
  request.build (request.vectorMbs.length + 2) (request.command :: request.nsKey ::
    request.vectorMbs.map (proto.storedFor request))

def redisProtoEncodeSadd (scripts : ScriptCache) (request : Request) :
    Except EncodeFault Request × ScriptCache :=
  withScript proto request.nodeIp .addRset scripts fun sha =>
    { request with command := evalsha }.build (request.vectorMbs.length + 6)
      ([evalsha,sha,text "1",request.nsKey,toString32 request.exptime,
        toString32 request.vectorMbs.length] ++ request.vectorMbs.map (proto.storedFor request))

/-- For `INCR` an absent increment is 1. -/
def incrValue (request : Request) : Bytes :=
  if request.commandType = .incr ∧ request.value = [] then text "1" else request.value

/-- `INCRBY` insists on an increment. -/
def redisProtoEncodeIncrBy (scripts : ScriptCache) (request : Request) :
    Except EncodeFault Request × ScriptCache :=
  withScript proto request.nodeIp .incrby scripts fun sha =>
    if incrValue request = [] then .error .redisError
    else
      { request with
        command := if request.commandType = CommandType.incr then text "INCR" else evalsha
        value := incrValue request }.build 6
        [evalsha,sha,text "1",request.nsKey,incrValue request,toString32 request.exptime]

def redisProtoEncodeMset (scripts : ScriptCache) (parent request : Request) :
    Except EncodeFault Request × ScriptCache :=
  match parent.mapSlotsKv.lookup request.slotId with
  | none => (.error .redisError,scripts)
  | some kvs =>
    withScript proto request.nodeIp .addMultikv scripts fun sha =>
      { request with command := evalsha }.build (3 + kvs.length * 3)
        ([evalsha,sha,toString32 kvs.length] ++ kvs.map (fun kv : KvPair => parent.namespaces ++ kv.key) ++
          kvs.map (fun kv : KvPair => proto.storedFor request kv.value) ++
          kvs.map fun _ => toString32 parent.exptime)

/-- The limit is the one of the first member, which is read before anything else. -/
def redisProtoEncodeZfixedsetAdd (scripts : ScriptCache) (parent request : Request) :
    Except EncodeFault Request × ScriptCache :=
  match parent.mapKv.lookup request.key with
  | none => (.error .redisError,scripts)
  | some [] => (.error .badAccess,scripts)
  | some (first :: kvs) =>
    withScript proto request.nodeIp .addZset scripts fun sha => do
      let members ← (first :: kvs).mapM fun kv : KvPair =>
        (doubleToString kv.score).map fun score => [score,parent.namespaces ++ kv.key]
      { request with command := evalsha }.build (7 + (kvs.length + 1) * 2)
        ([evalsha,sha,text "1",parent.namespaces ++ request.key,toString32 first.limit,
          toString32 parent.exptime,toString32 (kvs.length + 1)] ++ members.flatten)

end Encoders

/-- The arguments of a range query; `WITHSCORES` stands at the end when asked for. -/
def rangeArgs (parent request : Request) (query : ZsetQuery) (command lo hi : Bytes) :
    Except EncodeFault Request :=
  { request with command := command }.build (if query.ws then 5 else 4)
    ([command,parent.namespaces ++ request.key,lo,hi] ++ if query.ws then [text "WITHSCORES"] else [])

def redisProtoEncodeZfixedsetGetByScore (parent request : Request) : Except EncodeFault Request :=
  match parent.mapQuery.lookup request.key with
  | none => .error .redisError
  | some query => do
    let strMin ← doubleToString query.min
    let strMax ← doubleToString query.max
    if query.asc then rangeArgs parent request query (text "ZRANGEBYSCORE") strMin strMax
    else rangeArgs parent request query (text "ZREVRANGEBYSCORE") strMax strMin

/-- The bounds keep their order also for the descending query. -/
def redisProtoEncodeZfixedsetGetByRank (parent request : Request) : Except EncodeFault Request :=
  match parent.mapQuery.lookup request.key with
  | none => .error .redisError
  | some query =>
    rangeArgs parent request query (if query.asc then text "ZRANGE" else text "ZREVRANGE")
      (toString32 query.min.whole) (toString32 query.max.whole)

def withParent (parent : Option Request) (scripts : ScriptCache)
    (encode : Request → Except EncodeFault Request × ScriptCache) :
    Except EncodeFault Request × ScriptCache :=
  match parent with
  | none => (.error .badAccess,scripts)
  | some parent => encode parent

def Request.named (request : Request) (command : String) : Request :=
  { request with command := text command }

/-- A request that has failed is sent as `PING`. -/
def redisProtoEncode (proto : RedisProto) (scripts : ScriptCache) (parent : Option Request)
    (request : Request) : Except EncodeFault Request × ScriptCache :=
  if request.code ≠ .ok then (redisProtoEncodePing request,scripts)
  else match request.commandType with
    | .get => (redisProtoEncodeParamOne (request.named "GET"),scripts)
    | .del => (redisProtoEncodeParamOne (request.named "DEL"),scripts)
    | .ttl => (redisProtoEncodeParamOne (request.named "TTL"),scripts)
    | .set => (redisProtoEncodeParamThree proto (request.named "SETEX"),scripts)
    | .incr | .incrby => redisProtoEncodeIncrBy proto scripts request
    | .sadd => redisProtoEncodeSadd proto scripts (request.named "SADD")
    | .srem => (redisProtoEncodeSrem proto (request.named "SREM"),scripts)
    | .scard => (redisProtoEncodeParamOne (request.named "SCARD"),scripts)
    | .smembers => (redisProtoEncodeParamOne (request.named "SMEMBERS"),scripts)
    | .sismember => (redisProtoEncodeParamTwo proto (request.named "SISMEMBER"),scripts)
    | .mget => withParent parent scripts fun p => (redisProtoEncodeParamMulti p (request.named "MGET"),scripts)
    | .mset => withParent parent scripts fun p => redisProtoEncodeMset proto scripts p request
    | .zadd => withParent parent scripts fun p => redisProtoEncodeZfixedsetAdd proto scripts p request
    | .zbatchadd => (.ok request,scripts)
    | .zrangebyscore =>
      withParent parent scripts fun p => (redisProtoEncodeZfixedsetGetByScore p request,scripts)
    | .zrange =>
      withParent parent scripts fun p => (redisProtoEncodeZfixedsetGetByRank p request,scripts)
    | .batchzrangebyscore | .unknown => (.error .redisError,scripts)

theorem bind_eq_ok {ε α β : Type} {x : Except ε α} {f : α → Except ε β} {b : β} :
    (x >>= f) = .ok b ↔ ∃ a, x = .ok a ∧ f a = .ok b := by
  rcases x with fault | a
  · exact iff_of_false nofun fun ⟨_,ha,_⟩ => nomatch ha
  · constructor
    · exact fun hb => ⟨a,rfl,hb⟩
    · rintro ⟨_,⟨⟩,hb⟩
      exact hb

theorem cmdArg_short {arg : Bytes} (h : arg.length < 2 ^ 31) : cmdArg arg = .ok (encBulk arg) := by
  have hlen : int32 arg.length = arg.length := int32_of_range (by omega) (by omega)
  simp only [cmdArg, hlen, Int.toNat_natCast, List.take_length]
  exact if_neg (by omega)

theorem mapM_cmdArg_short {argv : List Bytes} (h : ∀ arg ∈ argv, arg.length < 2 ^ 31) :
    argv.mapM cmdArg = .ok (argv.map encBulk) := by
  induction argv with
  | nil => rfl
  | cons arg argv ih =>
    rw [List.mapM_cons, cmdArg_short (h arg List.mem_cons_self),
      ih fun a ha => h a (List.mem_cons_of_mem _ ha)]
    rfl

theorem redisProtoCmd_short {argv : List Bytes} (h : ∀ arg ∈ argv, arg.length < 2 ^ 31) :
    redisProtoCmd argv.length argv = .ok (arrayHeader argv.length ++ argv.flatMap encBulk) := by
  rw [redisProtoCmd, if_neg (Nat.lt_irrefl _), List.take_length, mapM_cmdArg_short h, List.flatMap_def]
  rfl

theorem build_short (request : Request) {argc : Nat} {argv : List Bytes} (hargc : argc = argv.length)
    (h : ∀ arg ∈ argv, arg.length < 2 ^ 31) : request.build argc argv =
      .ok { request with protoStr := arrayHeader argv.length ++ argv.flatMap encBulk } := by
  rw [Request.build, hargc, redisProtoCmd_short h]
  rfl

end QkPack
