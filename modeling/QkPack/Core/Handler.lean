import QkPack.Core.Cluster

/-!
# The handler of a single request

`CreateRequestError`, `ProcessBodyError`, `ReinitRequest`, and `ProcessBody` for a request that is not
answered by sub-requests. Both error paths copy the code of a sub-request to its parent.
-/

namespace QkPack
open Wire CString Resp

/-- The functions that write the answer to a client. -/
inductive Writer where
  | get | ttl | smembers | mset | mget | zfixedsetGetByScore | zfixedsetBatchGetByScore
deriving DecidableEq

/-- What the handler is configured with and what it calls; a writer gives nothing when the JSON library
fails. -/
structure Handler where
  proto : RedisProto
  backupServer : Bytes
  writer : Writer → Request → Option Bytes
  /-- What the memory of a new sub-request for a slot holds in the place of the threshold, which its constructor
  leaves open. -/
  memory : Int → Int

/-- What requests share: the slot tables and the loaded scripts. -/
structure Shared where
  cluster : ClusterMap
  scripts : ScriptCache

/-- `parent->code = request->code` and the same for the description. -/
def copyCode (request parent : Request) : Request :=
  { parent with code := request.code, desc := request.desc }

def Handler.write (h : Handler) (writer : Writer) (request : Request) : QkpackRc × Request :=
  match h.writer writer request with
  | none => (.error,request)
  | some body => (.ok,{ request with responseBuffer := body })

/-- `ParseResponseBody`: nothing is written for a sub-request. -/
def parseResponseBody (h : Handler) (request : Request) : QkpackRc × Request :=
  if request.isSubrequest then (.ok,request)
  else if request.code ≠ .ok then h.write .mset request
  else match request.commandType with
    | .get => h.write .get request
    | .set | .ttl | .del | .incr | .incrby | .sadd | .srem | .scard | .sismember => h.write .ttl request
    | .smembers => h.write .smembers request
    | _ => (.ok,request)

/-- `ParseResponseError`: an error without a code of its own is reported as unknown. -/
def parseResponseError (h : Handler) (request : Request) : Request :=
  (h.write .mset
    { request with code := if request.code = .ok then .unknown else request.code }).2

/-- The parent gets the code before `ParseResponseError` replaces an absent one. -/
def processBodyError (h : Handler) (parent : Option Request) (request : Request) :
    Request × Option Request :=
  (parseResponseError h request,parent.map (copyCode request))

/-- The request is turned into a `PING` for the backup server. -/
def createRequestError (h : Handler) (scripts : ScriptCache) (parent : Option Request)
    (request : Request) : QkpackRc × Request × Option Request :=
  let parent := parent.map (copyCode request)
  if checkSubRequest request then
    let (request,parent) := processBodyError h parent request
    (.ok,request,parent)
  else
    let request := { request with nodeIp := h.backupServer }
    match (redisProtoEncode h.proto scripts parent request).1 with
    | .ok request => (.ok,request,parent)
    | .error _ => (.error,request,parent)

/-- The frame `ReinitRequest` puts before a request that is to be sent after an `ASK`. -/
def askingFrame : Bytes := text "*1" ++ crlf ++ text "$6" ++ crlf ++ text "ASKING" ++ crlf

/-- Whether this is the last try; `now_tries` and `tries` are unsigned. -/
def Request.isLastTry (request : Request) : Bool :=
  request.nowTries == (request.tries + (2 ^ 32 - 1)) % 2 ^ 32

def reinitRequest (h : Handler) (scripts : ScriptCache) (parent : Option Request)
    (request : Request) : QkpackRc × Request × Option Request :=
  if request.isLastTry then
    createRequestError h scripts parent { request with movedAsk := .ok, code := .timeout5xx }
  else if request.movedAsk = .ask then
    (.ok,{ request with protoStr := askingFrame ++ request.protoStr, movedAsk := .asking },parent)
  else (.ok,request,parent)

/-- What `ProcessBody` returns and leaves behind. -/
structure Processed where
  rc : QkpackRc
  request : Request
  parent : Option Request
  shared : Shared

/-- `ProcessBody` behind the check for sub-requests. A `TRYAGAIN` is treated like a `MOVED` that names
no node; a redirection in answer to `ASKING` is given up. -/
def processReply (h : Handler) (stack : Nat → Bytes) (shared : Shared) (parent : Option Request)
    (request : Request) : Except DecodeFault Processed := do
  let d ← redisProtoDecode h.proto stack shared.scripts parent request
  let shared := { shared with scripts := d.scripts }
  let giveUp (request : Request) : Processed :=
    let (request,parent) := processBodyError h d.parent request
    ⟨.ok,request,parent,shared⟩
  match d.rc with
  | .ok =>
    let (rc,request) := parseResponseBody h d.request
    if rc = .ok then return ⟨.ok,request,d.parent,shared⟩ else return giveUp request
  | .error => return giveUp d.request
  | rc =>
    if d.request.movedAsk = .askingEnd then
      return giveUp { d.request with code := .redisStorageError }
    else
      let movedAsk := if rc = .ask then .ask else .moved
      let (rc,nodeIp,cluster) ← processMoved d.request.responseBuffer d.request.clusterName
        d.request.nodeIp rc shared.cluster
      let request := { d.request with movedAsk := movedAsk, nodeIp := nodeIp }
      if rc = .ok then
        return ⟨.upstreamInvalidHeader,request,d.parent,{ shared with cluster := cluster }⟩
      else
        return giveUp { request with code := .redisStorageError }

end QkPack
