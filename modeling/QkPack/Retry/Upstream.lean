import QkPack.Core.Handler
import QkPack.Lib.Machine
import QkPack.Upstream.ProcessHeader

/-!
# The retry machine of a request

A request on its way through `ngx_http_upstream_connect`, the peer selection of the module,
`ngx_http_qkupstream_reinit_request`, `process_header` and `ngx_http_upstream_next`. The request bytes
are kept three times: in `proto_str`, in `ctx->request_buffer` and in `u->request_bufs`.
-/

namespace QkPack
open Wire CString Resp

/-- `NGX_HTTP_UPSTREAM_FT_*`: why an attempt is given up. -/
inductive FtType where
  | error | timeout | invalidHeader | nolive
deriving DecidableEq

/-- The configuration of the upstream and the peer table the request was initialised with. -/
structure UpstreamConf where
  upstreamTries : Nat
  nextUpstream : FtType → Bool
  retryCachedConnection : Bool
  single : Bool
  peersNumber : Nat

/-- How a request ends: with a response, given up by `ngx_http_upstream_next`, with an internal error,
or with an exception in a decoder. -/
inductive Outcome where
  | response | gaveUp (ft : FtType) | internalError | crashed
deriving DecidableEq

inductive Stage where
  | connect | connecting | sent | done (outcome : Outcome)
deriving DecidableEq

structure Upstream where
  stage : Stage
  request : Request
  /-- `ctx->moved_ask`, `ctx->request_buffer`, `ctx->upstream_ip`. -/
  movedAsk : MovedAsk
  requestBuffer : Bytes
  upstreamIp : Bytes
  /-- `u->request_bufs`, `u->request_sent`, `u->buffer`. -/
  requestBufs : Bytes
  requestSent : Bool
  buffer : Bytes
  /-- `hp->tries`, `r->us_tries`, `u->peer.tries`, `u->peer.cached`, and whether `u->peer.sockaddr`
  is set. -/
  hpTries : Nat
  usTries : Nat
  peerTries : Nat
  cached : Bool
  hasPeer : Bool
  /-- The addresses of the attempts, where the module chose them. -/
  attempts : List (Option Bytes)
  /-- The buffers written, each with the code the request had at that time. -/
  written : List (ResponseCode × Bytes)

/-- After `ngx_http_qkupstream_create_request`. -/
def Upstream.start (conf : UpstreamConf) (request : Request) : Upstream where
  stage := .connect
  request := request
  movedAsk := .ok
  requestBuffer := request.protoStr
  upstreamIp := request.nodeIp
  requestBufs := request.protoStr
  requestSent := false
  buffer := []
  hpTries := 0
  usTries := 1
  peerTries := conf.peersNumber
  cached := false
  hasPeer := false
  attempts := []
  written := []

/-- What a request finds when it is woken: the state shared with other requests, its parent, and the
contents of the stack. -/
structure World where
  shared : Shared
  parent : Option Request
  stack : Nat → Bytes

inductive ConnectResult where
  | ok | cached | again | declined | busy | error
deriving DecidableEq

/-- What happens to a request. The peer that `update_nodes` picks at random and the result of
`ngx_event_connect_peer` are part of the connect event; `overflow` is a reply for which the buffer is
too small. -/
inductive Event where
  | connect (world : World) (randomIp : Bytes) (result : ConnectResult)
  | established
  | refused
  | timeout
  | closed
  | overflow
  | read (world : World) (bytes : Bytes)

section Steps

variable (h : Handler) (conf : UpstreamConf)

/-- `ngx_http_qkupstream_process_reinit_request`. -/
def processReinitRequest (world : World) (u : Upstream) : Option Upstream :=
  let request := { u.request with
    nodeIp := u.upstreamIp
    nowTries := u.hpTries % 2 ^ 32
    movedAsk := u.movedAsk }
  match reinitRequest h world.shared.scripts world.parent request with
  | (.ok,request,_) => some { u with
      request := request
      upstreamIp := request.nodeIp
      movedAsk := request.movedAsk
      requestBuffer := if request.movedAsk = .asking then request.protoStr else u.requestBuffer }
  | _ => none

/-- `ngx_http_upstream_update_nodes`: without a redirection another peer is picked. -/
def updateNodes (world : World) (randomIp : Bytes) (u : Upstream) : Option Upstream :=
  if u.movedAsk ≠ .ok then processReinitRequest h world u
  else processReinitRequest h world { u with upstreamIp := randomIp }

/-- `ngx_http_qkupstream_node_get_peer`; after fifty tries plain round robin. -/
def getPeer (world : World) (randomIp : Bytes) (u : Upstream) : Option Upstream :=
  let u := { u with cached := false, hasPeer := true }
  if u.hpTries > 50 then some { u with attempts := u.attempts ++ [none] }
  else
    (if u.hpTries > 0 then updateNodes h world randomIp u else some u).map fun u =>
      { u with hpTries := u.hpTries + 1, attempts := u.attempts ++ [some u.upstreamIp] }

/-- `ngx_http_qkupstream_reinit_request`. -/
def qkupstreamReinitRequest (u : Upstream) : Option Upstream :=
  if u.requestBuffer = [] then none
  else match u.movedAsk with
    | .ok => some u
    | .moved => some { u with movedAsk := .ok }
    | .asking => some { u with movedAsk := .askingEnd, requestBufs := u.requestBuffer }
    | .ask | .askingEnd => none

def Upstream.finish (u : Upstream) (outcome : Outcome) : Upstream := { u with stage := .done outcome }

/-- `ngx_http_upstream_send_request`. -/
def sendRequest (u : Upstream) : Upstream :=
  { u with
    stage := .sent
    requestSent := true
    written := u.written ++ [(u.request.code,u.requestBufs)] }

/-- `u->peer.free` of round robin. -/
def freePeer (u : Upstream) : Upstream :=
  if u.hasPeer then
    { u with hasPeer := false, peerTries := if conf.single then 0 else u.peerTries - 1 }
  else u

/-- `ngx_http_upstream_next`: an error on a cached connection costs nothing. -/
def upstreamNext (ft : FtType) (u : Upstream) : Upstream :=
  let u := freePeer conf u
  if conf.retryCachedConnection ∧ u.cached ∧ ft = .error then
    { u with peerTries := u.peerTries + 1, stage := .connect }
  else if conf.upstreamTries ≠ 0 ∧ u.usTries ≥ conf.upstreamTries then
    { u with usTries := u.usTries + 1 }.finish (.gaveUp ft)
  else
    let u := { u with usTries := if conf.upstreamTries = 0 then u.usTries else u.usTries + 1 }
    if u.peerTries = 0 ∨ conf.nextUpstream ft = false then u.finish (.gaveUp ft)
    else { u with stage := .connect }

/-- `ngx_http_upstream_connect` behind a connection that is there or on its way. -/
def connected (result : ConnectResult) (u : Upstream) : Upstream :=
  let u := { u with cached := result = .cached }
  match if u.requestSent then qkupstreamReinitRequest u else some u with
  | none => u.finish .internalError
  | some u =>
    let u := { u with requestSent := false, buffer := [] }
    if result = .again then { u with stage := .connecting } else sendRequest u

/-- `ngx_http_upstream_connect`. Only round robin can find no live peer. -/
def upstreamConnect (world : World) (randomIp : Bytes) (result : ConnectResult) (u : Upstream) :
    Option Upstream :=
  match getPeer h world randomIp u with
  | none => some (u.finish .internalError)
  | some v =>
    match result with
    | .error => some (v.finish .internalError)
    | .busy =>
      if u.hpTries > 50 then some (upstreamNext conf .nolive { v with hasPeer := false }) else none
    | .declined => some (upstreamNext conf .error v)
    | result => some (connected result v)

/-- `ngx_http_qkupstream_process_response`. -/
def processResponse (world : World) (response : Bytes) (u : Upstream) : Upstream :=
  let request := { u.request with responseBuffer := response, movedAsk := u.movedAsk }
  match processReply h world.stack world.shared world.parent request with
  | .error _ => u.finish .crashed
  | .ok p =>
    let u := { u with request := p.request }
    match p.rc with
    | .upstreamInvalidHeader => upstreamNext conf .invalidHeader
        { u with upstreamIp := p.request.nodeIp, movedAsk := p.request.movedAsk }
    | .ok => u.finish .response
    | _ => u.finish .internalError

/-- `ngx_http_upstream_process_header` with the header callback of the module. -/
def processHeader (world : World) (bytes : Bytes) (u : Upstream) : Upstream :=
  let u := { u with buffer := u.buffer ++ bytes }
  let check := headerCheck u.movedAsk u.buffer
  match check.response with
  | some response => processResponse h conf world response u
  | none =>
    match check.frame.rc with
    | .again => u
    | .invalidHeader => upstreamNext conf .invalidHeader u
    | _ => u.finish .internalError

def step (u : Upstream) (e : Event) : Option Upstream :=
  match u.stage, e with
  | .connect, .connect world randomIp result => upstreamConnect h conf world randomIp result u
  | .connecting, .established => some (sendRequest u)
  | .connecting, .refused => some (upstreamNext conf .error u)
  | .connecting, .timeout => some (upstreamNext conf .timeout u)
  | .sent, .timeout => some (upstreamNext conf .timeout u)
  | .sent, .closed => some (upstreamNext conf .error u)
  | .sent, .overflow => some (upstreamNext conf .invalidHeader u)
  | .sent, .read world bytes => some (processHeader h conf world bytes u)
  | _, _ => none

end Steps

end QkPack
