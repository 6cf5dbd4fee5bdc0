import QkPack.Protocol.Encode
import QkPack.Upstream.SimpleReplies

/-!
# Taking a reply apart

`RedisProtoDecode` and the decoders it calls. The reply of a sub-request for several keys is written
into the entries of its parent.
-/

namespace QkPack
open Wire CString Resp

/-- How a decoder can end without a return value: an exception of the snappy stream, one of
`std::string` for a negative length, or an access outside the reply or a vector. -/
inductive DecodeFault where
  | badMagic | lengthError | badAccess
deriving DecidableEq

/-- `std::string(p, n)` in the reply; the terminating NUL may be read, nothing behind it. -/
def readString (reply : Bytes) (p n : Int) : Except DecodeFault Bytes :=
  if n < 0 then .error .lengthError
  else if p < 0 ∨ p + n > reply.length + 1 then .error .badAccess
  else .ok ((peek (reply ++ [0]) p).take n.toNat)

def readLine (reply : Bytes) (rdata : Int) : Except DecodeFault Bytes :=
  match crlfScan (peek reply rdata) with
  | none => .error .badAccess
  | some size => .ok ((peek reply rdata).take size)

/-- `UncompressValue` on a string that has just been read, and what is kept of it. -/
def uncompressed (lib : SnappyLib) (stack value : Bytes) : Except DecodeFault Bytes :=
  match readValue lib stack value with
  | .error _ => .error .badMagic
  | .ok v => .ok v

def null : Bytes := text "null"

/-- `parent->map_slots_kv[slot_id][i]->value = value`. -/
def Request.setSlotValue (parent : Request) (slotId : Int) (i : Nat) (value : Bytes) :
    Except DecodeFault Request :=
  match parent.mapSlotsKv.lookup slotId with
  | none => .error .badAccess
  | some kvs =>
    if i < kvs.length then
      .ok { parent with mapSlotsKv := parent.mapSlotsKv.map fun slot =>
        if slot.1 = slotId then (slot.1,slot.2.modify i fun kv => { kv with value := value }) else slot }
    else .error .badAccess

/-- `map[key].push_back(kv)` for a map in the order of its keys. -/
def mapPush {κ : Type} [DecidableEq κ] [LT κ] [DecidableLT κ] (key : κ) (kv : KvPair) :
    List (κ × List KvPair) → List (κ × List KvPair)
  | [] => [(key,[kv])]
  | (k,kvs) :: rest =>
    if key = k then (k,kvs ++ [kv]) :: rest
    else if key < k then (key,[kv]) :: (k,kvs) :: rest
    else (k,kvs) :: mapPush key kv rest

/-- A request, its parent, and the member whose score is still to come. -/
structure ArrayState where
  request : Request
  parent : Option Request
  member : Bytes

section Decoders

variable (proto : RedisProto) (stack : Nat → Bytes) (reply : Bytes)

def redisProtoDecodeGetString (rdata : Int) (request : Request) : Except DecodeFault Request :=
  let num := strtol (peek reply rdata)
  let bulklen := int32 num.value
  if bulklen = -1 then .ok { request with value := null }
  else do
    let value ← readString reply (rdata + num.used + 2) bulklen
    let value ← uncompressed proto.compress (stack 0) value
    return { request with value := value }

def redisProtoDecodeGetStatus (rdata : Int) (request : Request) : Except DecodeFault Request := do
  let line ← readLine reply rdata
  return { request with value := line }

def redisProtoDecodeGetInteger (rdata : Int) (request : Request) : Request :=
  { request with num := int32 (strtol (peek reply rdata)).value }

def startsWith (s : Bytes) (word : String) : Bool := (text word).isPrefixOf s

/-- Redirections are left to the caller; any other error is noted in the request and counts as
decoded. -/
def redisProtoDecodeGetError (rdata : Int) (scripts : ScriptCache) (request : Request) :
    Except DecodeFault (RedisRc × Request × ScriptCache) :=
  let line := peek reply rdata
  if startsWith line "MOVED" then .ok (.moved,request,scripts)
  else if startsWith line "ASK" then .ok (.ask,request,scripts)
  else if startsWith line "TRYAGAIN" then .ok (.tryagain,request,scripts)
  else if startsWith line "NOSCRIPT" then
    match redisProtoEncodeLoadScript proto request.nodeIp scripts with
    | (.ok,scripts) => .ok (.tryagain,request,scripts)
    | (_,scripts) => .ok (.error,request,scripts)
  else do
    let line ← readLine reply rdata
    return (.ok,{ request with desc := line, code := .redisStorageError },scripts)

/-- An element that is to be written into the entry of the parent. -/
def ArrayState.putSlot (s : ArrayState) (i : Nat) (value : Bytes) : Except DecodeFault ArrayState :=
  match s.parent with
  | none => .error .badAccess
  | some parent => do
    let parent ← parent.setSlotValue s.request.slotId i value
    return { s with parent := some parent }

/-- `vector_mbs.push_back(mb)`. -/
def ArrayState.pushMember (s : ArrayState) (member : Bytes) : ArrayState :=
  { s with request := { s.request with vectorMbs := s.request.vectorMbs ++ [member] } }

/-- A member, or the score behind it, with which it is entered into `map_kv` of the parent. -/
def ArrayState.pushScored (s : ArrayState) (i : Nat) (bytes : Except DecodeFault Bytes) :
    Except DecodeFault ArrayState :=
  match s.parent with
  | none => .error .badAccess
  | some parent => do
    let value ← bytes
    if i % 2 = 1 then
      let kv : KvPair := ⟨s.member,[],proto.strToDouble value,0⟩
      return ⟨s.request,some { parent with mapKv := mapPush s.request.key kv parent.mapKv },[]⟩
    else return { s with member := value.drop parent.namespaces.length }

/-- The element number `i`. Its bytes are made a string only by the commands that expect them. -/
def getArrayValue (i : Nat) (bytes : Except DecodeFault Bytes) (s : ArrayState) :
    Except DecodeFault ArrayState :=
  match s.request.commandType with
  | .mget | .mset => do
    let value ← uncompressed proto.compress (stack i) (← bytes)
    s.putSlot i value
  | .smembers => do
    let value ← uncompressed proto.compress (stack i) (← bytes)
    return s.pushMember value
  | .zrangebyscore | .zrange => s.pushScored proto i bytes
  | _ => .ok s

def getArrayNull (i : Nat) (s : ArrayState) : Except DecodeFault ArrayState :=
  match s.request.commandType with
  | .mget | .mset => s.putSlot i null
  | _ => .ok s

def getArrayLoop : Nat → Nat → Int → ArrayState → Except DecodeFault ArrayState
  | 0, _, _, s => .ok s
  | n + 1, i, rest, s => do
    let (bulklen,data,next) := getArrayElem reply rest
    let s ← if bulklen = -1 then getArrayNull i s
      else getArrayValue proto stack i (readString reply data bulklen) s
    getArrayLoop n (i + 1) next s

def redisProtoDecodeGetArray (rdata : Int) (parent : Option Request) (request : Request) :
    Except DecodeFault (RedisRc × ArrayState) :=
  let num := strtol (peek reply rdata)
  let multibulkSize := int32 num.value
  if multibulkSize = -1 then .ok (.error,⟨request,parent,[]⟩)
  else do
    let s ← getArrayLoop proto stack reply multibulkSize.toNat 0 (rdata + num.used + 2)
      ⟨request,parent,[]⟩
    return (.ok,s)

end Decoders

/-- What `RedisProtoDecode` returns and leaves behind. -/
structure Decoded where
  rc : RedisRc
  request : Request
  parent : Option Request
  scripts : ScriptCache

/-- The test on `TTL` behind the switch; only bulk strings and arrays come past it. -/
def ttlCheck (d : Decoded) : Decoded :=
  if d.request.commandType = .ttl ∧ d.request.num = -1 then
    { d with
      rc := .error
      request := { d.request with
        desc := text "kvpair the key exists but has no associated expire"
        code := .redisStorageError } }
  else if d.request.commandType = .ttl ∧ d.request.num = -2 then
    { d with
      rc := .error
      request := { d.request with
        desc := text "kvpair the key does not exist"
        code := .redisStorageError } }
  else d

def redisProtoDecode (proto : RedisProto) (stack : Nat → Bytes) (scripts : ScriptCache)
    (parent : Option Request) (request : Request) : Except DecodeFault Decoded :=
  let reply := request.responseBuffer
  if request.code ≠ .ok then .ok ⟨.error,request,parent,scripts⟩
  else match reply.head? with
    | some 45 => do
      let (rc,request,scripts) ← redisProtoDecodeGetError proto reply 1 scripts request
      return ⟨rc,request,parent,scripts⟩
    | some 43 => do
      let request ← redisProtoDecodeGetStatus reply 1 request
      return ⟨.ok,request,parent,scripts⟩
    | some 58 => .ok ⟨.ok,redisProtoDecodeGetInteger reply 1 request,parent,scripts⟩
    | some 36 => do
      let request ← redisProtoDecodeGetString proto stack reply 1 request
      return ttlCheck ⟨.ok,request,parent,scripts⟩
    | some 42 => do
      let (rc,s) ← redisProtoDecodeGetArray proto stack reply 1 parent request
      return ttlCheck ⟨rc,s.request,s.parent,scripts⟩
    | _ => .ok ⟨.error,request,parent,scripts⟩

theorem redisProtoDecode_coded {proto : RedisProto} {stack : Nat → Bytes} {scripts : ScriptCache}
    {parent : Option Request} {request : Request} (hcode : request.code ≠ .ok) :
    redisProtoDecode proto stack scripts parent request = .ok ⟨.error,request,parent,scripts⟩ :=
  if_pos hcode

end QkPack
