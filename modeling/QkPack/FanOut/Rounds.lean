import QkPack.FanOut.SubRequests
import QkPack.Retry.Copies

/-!
# Rounds of sub-requests

The request of a client and its sub-requests, each of which goes through the retry machine on its own.
They are created and finish in any order; every one of them can write to its parent. When all of a round
are done, `ngx_http_qksubrequest_check` lets the parent go on.
-/

namespace QkPack
open Wire CString Resp

/-- A sub-request of the present round: not created yet, ended without an upstream state, or on its
way. -/
inductive Sub where
  | pending (sub : SubRequest)
  | failed
  | running (u : Upstream)

/-- What the client gets: a response with a code, or an error page. -/
inductive Final where
  | response (code : ResponseCode) | internalError
deriving DecidableEq

structure FanOut where
  parent : Parent
  subs : List Sub
  /-- The sub-requests of earlier rounds. -/
  finished : List Sub
  final : Option Final

def FanOut.start (request : Request) : FanOut := ⟨⟨request,[],[]⟩,[],[],none⟩

section Create

def lowerByte (c : UInt8) : UInt8 := if 65 ≤ c ∧ c ≤ 90 then c + 32 else c

/-- The loop of `ngx_http_arg` over the positions of the arguments; `first` says that an argument can begin
here, at the very beginning or behind an ampersand. The name is in lower case. -/
def ngxHttpArgFrom (name : Bytes) (first : Bool) : Bytes → Option Bytes
  | [] => none
  | c :: s =>
    if first ∧ ((c :: s).take name.length).map lowerByte = name ∧ (c :: s)[name.length]? = some 61 then
      some (((c :: s).drop (name.length + 1)).takeWhile (· ≠ 38))
    else ngxHttpArgFrom name (c = 38) s

/-- `ngx_http_arg`: the value of the first argument of that name. -/
def ngxHttpArg (name args : Bytes) : Option Bytes := ngxHttpArgFrom name true args

/-- `ngx_atoi`, in 64 bits, and the conversion of its result to `int`. -/
def ngxAtoi (s : Bytes) : Int :=
  let value : Int := Int.bmod (digitsValue s) (2 ^ 64)
  if s ≠ [] ∧ (s.all fun c => 48 ≤ c && c ≤ 57) ∧ 0 ≤ value then int32 value else -1

/-- `ngx_http_qkupstream_init` for a sub-request, which needs a slot. -/
def qkupstreamInit (sub : SubRequest) : Option Request :=
  let slotId := ((ngxHttpArg (text "slotid") sub.args).filter (· ≠ [])).elim (-1) ngxAtoi
  if slotId < 0 then none
  else some { Request.fresh with
    isSubrequest := true
    slotId := slotId
    key := (ngxHttpArg (text "key") sub.args).getD [] }

/-- `ParseRequestBody` of a sub-request; `parsed` tells whether its URI is known. -/
def parseSubRequestBody (parent : Request) (parsed : Bool) (uri : CommandType) (request : Request) :
    QkpackRc × Request :=
  let request := { request with clusterName := parent.clusterName }
  match parent.commandType with
  | .mget | .mset => (.ok,{ request with commandType := parent.commandType })
  | _ => if parsed then (.ok,{ request with commandType := uri })
    else (.error,{ request with code := .illegalRight })

variable (h : Handler) (conf : UpstreamConf)

/-- A sub-request handed to `CreateRequestError`. -/
def refuseSub (scripts : ScriptCache) (parent request : Request) : Sub × Request :=
  match createRequestError h scripts (some parent) request with
  | (.ok,request,parent') => (.running (Upstream.start conf request),parent'.getD parent)
  | (_,_,parent') => (.failed,parent'.getD parent)

/-- `RedisProtoEncode` in `CreateRequest`; an exception ends the worker. -/
def encodeSub (scripts : ScriptCache) (parent request : Request) : Option (Sub × Request) :=
  match (redisProtoEncode h.proto scripts (some parent) request).1 with
  | .ok request => some (.running (Upstream.start conf request),parent)
  | .error .redisError => some (refuseSub h conf scripts parent { request with code := .unknown })
  | .error _ => none

/-- `CreateRequest` for a sub-request, and what it leaves of the parent. `nodeIp` comes from a variable of
nginx. -/
def createSub (shared : Shared) (parsed : Bool) (nodeIp : Bytes) (parent : Request) (sub : SubRequest) :
    Option (Sub × Request) :=
  match qkupstreamInit sub with
  | none => some (.failed,parent)
  | some request =>
    match parseSubRequestBody parent parsed sub.uri
      { request with
        nodeIp := nodeIp, tries := conf.upstreamTries, compressThreshold := h.memory request.slotId } with
    | (.ok,request) =>
      if nodeIp = [] then
        match shared.cluster parent.clusterName request.slotId with
        | none => some (refuseSub h conf shared.scripts parent { request with code := .unknown })
        | some ip => encodeSub h conf shared.scripts parent { request with nodeIp := ip }
      else encodeSub h conf shared.scripts parent request
    | (_,request) => some (refuseSub h conf shared.scripts parent { request with code := .parseError })

end Create

/-- The event for a sub-request of `parent`. -/
def Event.under (parent : Request) : Event → Event
  | .connect world randomIp result => .connect { world with parent := some parent } randomIp result
  | .read world bytes => .read { world with parent := some parent } bytes
  | e => e

/-- What `ProcessBody` leaves of the parent of a sub-request. -/
def repliedParent (h : Handler) (world : World) (parent request : Request) : Request :=
  match processReply h world.stack world.shared (some parent) request with
  | .ok p => p.parent.getD parent
  | .error _ => parent

/-- What the calls of `ReinitRequest` and `ProcessBody` for a sub-request leave of its parent. -/
def Upstream.parentAfter (h : Handler) (u : Upstream) (parent : Request) : Event → Request
  | .connect world randomIp _ =>
    if 0 < u.hpTries ∧ u.hpTries ≤ 50 then
      let ip := if u.movedAsk ≠ .ok then u.upstreamIp else randomIp
      (reinitRequest h world.shared.scripts (some parent) { u with upstreamIp := ip }.handed).2.2.getD
        parent
    else parent
  | .read world bytes =>
    match (headerCheck u.movedAsk (u.buffer ++ bytes)).response with
    | none => parent
    | some response => repliedParent h world parent
        { u.request with responseBuffer := response, movedAsk := u.movedAsk }
  | _ => parent

inductive CheckRc where
  | again | error | ok (allOk : Bool)

/-- `ngx_http_qksubrequest_check`, with whether every upstream status is 200. -/
def qksubrequestCheck : List Sub → CheckRc
  | [] => .ok true
  | .pending _ :: _ => .again
  | .failed :: _ => .error
  | .running u :: subs =>
    match u.stage with
    | .done outcome =>
      match qksubrequestCheck subs with
      | .ok allOk => .ok (outcome == .response && allOk)
      | rc => rc
    | _ => .again

inductive FanEvent where
  | create (i : Nat) (shared : Shared) (parsed : Bool) (nodeIp : Bytes)
  | sub (i : Nat) (e : Event)
  | post

section Steps

variable (h : Handler) (limits : Limits) (conf : UpstreamConf)

/-- `ProcessBody` and the end of `CreateRequest` for a request answered by sub-requests. -/
def processParent (p : Parent) : QkpackRc × Parent :=
  match createSubRequestBody h limits p with
  | (.error,p) => (.ok,{ p with request := (processBodyError h none p.request).1 })
  | r => r

/-- `ngx_http_qksubrequest_post`: the next round, or the response. -/
def qksubrequestPost (s : FanOut) (p : Parent) : FanOut :=
  match processParent h limits p with
  | (.again,p) => ⟨p,p.subrequest.map .pending,s.finished ++ s.subs,none⟩
  | (_,p) => ⟨p,[],s.finished ++ s.subs,some (.response p.request.code)⟩

def fanStep (s : FanOut) (e : FanEvent) : Option FanOut :=
  if s.final ≠ none then none
  else match e with
    | .create i shared parsed nodeIp =>
      match s.subs[i]? with
      | some (.pending sub) =>
        (createSub h conf shared parsed nodeIp s.parent.request sub).map fun r =>
          { s with subs := s.subs.set i r.1, parent := { s.parent with request := r.2 } }
      | _ => none
    | .sub i e =>
      match s.subs[i]? with
      | some (.running u) =>
        match step h conf u (e.under s.parent.request) with
        | none => none
        | some v =>
          if v.stage = .done .crashed then none
          else some { s with
            subs := s.subs.set i (.running v)
            parent := { s.parent with request := u.parentAfter h s.parent.request e } }
      | _ => none
    | .post =>
      match qksubrequestCheck s.subs with
      | .again => none
      | .error => some { s with final := some .internalError }
      | .ok allOk =>
        let cost := if allOk then s.parent.request.cost else 4000
        some (qksubrequestPost h limits s
          { s.parent with request := { s.parent.request with cost := cost } })

inductive FanMove (s : FanOut) : FanEvent → FanOut → Prop
  | create {i : Nat} {shared : Shared} {parsed : Bool} {nodeIp : Bytes} {sub : SubRequest} {created : Sub × Request}
      (hsub : s.subs[i]? = some (.pending sub))
      (hcreate : createSub h conf shared parsed nodeIp s.parent.request sub = some created) :
      FanMove s (.create i shared parsed nodeIp)
        { s with subs := s.subs.set i created.1, parent := { s.parent with request := created.2 } }
  | sub {i : Nat} {e : Event} {u v : Upstream} (hsub : s.subs[i]? = some (.running u))
      (hstep : step h conf u (e.under s.parent.request) = some v) (hstage : v.stage ≠ .done .crashed) :
      FanMove s (.sub i e)
        { s with
          subs := s.subs.set i (.running v)
          parent := { s.parent with request := u.parentAfter h s.parent.request e } }
  | error (hcheck : qksubrequestCheck s.subs = .error) : FanMove s .post { s with final := some .internalError }
  | post {allOk : Bool} (hcheck : qksubrequestCheck s.subs = .ok allOk) :
      FanMove s .post (qksubrequestPost h limits s
        { s.parent with
          request := { s.parent.request with cost := if allOk then s.parent.request.cost else 4000 } })

end Steps

theorem fanStep_move {h : Handler} {limits : Limits} {conf : UpstreamConf} {s s' : FanOut} {e : FanEvent}
    (hstep : fanStep h limits conf s e = some s') : s.final = none ∧ FanMove h limits conf s e s' := by
  unfold fanStep at hstep
  split at hstep
  · cases hstep
  · rename_i hfinal
    refine ⟨not_not.mp hfinal,?_⟩
    cases e with
    | create i shared parsed nodeIp =>
      simp only at hstep
      split at hstep
      · rename_i sub hsub
        obtain ⟨created,hcreate,rfl⟩ := Option.map_eq_some_iff.mp hstep
        exact .create hsub hcreate
      · cases hstep
    | sub i e =>
      simp only at hstep
      split at hstep
      · rename_i u hsub
        split at hstep
        · cases hstep
        · rename_i v hv
          split at hstep
          · cases hstep
          · rename_i hstage
            cases hstep
            exact .sub hsub hv hstage
      · cases hstep
    | post =>
      simp only at hstep
      split at hstep
      · cases hstep
      · rename_i hcheck
        cases hstep
        exact .error hcheck
      · rename_i allOk hcheck
        cases hstep
        exact .post hcheck

theorem processParent_of_create {h : Handler} {limits : Limits} {p p' : Parent} {rc : QkpackRc}
    (hcreate : createSubRequestBody h limits p = (rc,p')) (hrc : rc ≠ .error) :
    processParent h limits p = (rc,p') := by
  rw [processParent, hcreate]
  cases rc with
  | error => exact absurd rfl hrc
  | _ => rfl

theorem processParent_again {h : Handler} {limits : Limits} {p p' : Parent}
    (hprocess : processParent h limits p = (.again,p')) : createSubRequestBody h limits p = (.again,p') := by
  unfold processParent at hprocess
  split at hprocess
  · cases hprocess
  · exact hprocess

end QkPack
