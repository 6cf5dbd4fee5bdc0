import QkPack.FanOut.SubArgs
import QkPack.FanOut.Writes
import QkPack.Lib.Redis

/-!
# Rounds with a server behind them

Runs in which every sub-request succeeds. It is created, the server executes its command on the store, and
its answer is taken apart; all this happens in any order. Such a run is one of the rounds machine, in which
a sub-request connects once and is answered in one piece.
-/

namespace QkPack
open Wire CString Resp

/-- A sub-request of the present round: to be created, on its way to the server, or answered. -/
inductive Flight where
  | waiting (sub : SubRequest)
  | sent (request : Request)
  | answered

structure Delivery where
  parent : Parent
  flights : List Flight
  store : Redis.Store
  /-- The code of the response, once there is one. -/
  final : Option ResponseCode

def Delivery.start (request : Request) (store : Redis.Store) : Delivery := ⟨⟨request,[],[]⟩,[],store,none⟩

inductive DeliveryEvent where
  | send (i : Nat) (shared : Shared) (nodeIp : Bytes)
  | serve (i : Nat) (shared : Shared) (stack : Nat → Bytes)
  | post

def Flight.isAnswered : Flight → Bool
  | .answered => true
  | _ => false

section Steps

variable (h : Handler) (limits : Limits) (conf : UpstreamConf) (node : Redis.Node)

def sendSub (shared : Shared) (nodeIp : Bytes) (parent : Request) (sub : SubRequest) : Option Request :=
  match createSub h conf shared true nodeIp parent sub with
  | some (.running u,_) => if u.request.code = .ok then some u.request else none
  | _ => none

/-- The server executes the command, and `ProcessBody` finds nothing wrong with the answer. -/
def serveSub (shared : Shared) (stack : Nat → Bytes) (store : Redis.Store) (parent request : Request) :
    Option (Redis.Store × Request) := do
  let (argv,rest) ← parseCommand request.protoStr
  let (store,reply) ← node.exec store argv
  let response ← (headerCheck .ok (encode reply)).response
  match processReply h stack shared (some parent)
    { request with responseBuffer := response, movedAsk := .ok } with
  | .ok p =>
    if rest = [] ∧ p.rc = .ok ∧ p.request.code = .ok then some (store,p.parent.getD parent) else none
  | .error _ => none

def deliveryStep (d : Delivery) (e : DeliveryEvent) : Option Delivery :=
  if d.final ≠ none then none
  else match e with
    | .send i shared nodeIp =>
      match d.flights[i]? with
      | some (.waiting sub) =>
        (sendSub h conf shared nodeIp d.parent.request sub).map fun request =>
          { d with flights := d.flights.set i (.sent request) }
      | _ => none
    | .serve i shared stack =>
      match d.flights[i]? with
      | some (.sent request) =>
        (serveSub h node shared stack d.store d.parent.request request).map fun r =>
          { d with
            flights := d.flights.set i .answered
            store := r.1
            parent := { d.parent with request := r.2 } }
      | _ => none
    | .post =>
      if d.flights.all Flight.isAnswered then
        match processParent h limits d.parent with
        | (.again,p) => some { d with parent := p, flights := p.subrequest.map .waiting }
        | (_,p) => some { d with parent := p, flights := [], final := some p.request.code }
      else none

end Steps

section Inversion

variable {h : Handler} {limits : Limits} {conf : UpstreamConf} {node : Redis.Node} {d d' : Delivery} {i : Nat}
  {shared : Shared}

theorem deliveryStep_open {e : DeliveryEvent} (hstep : deliveryStep h limits conf node d e = some d') :
    d.final = none := by
  unfold deliveryStep at hstep
  split at hstep
  · cases hstep
  · rename_i hnone
    exact not_not.mp hnone

theorem deliveryStep_send {nodeIp : Bytes}
    (hstep : deliveryStep h limits conf node d (.send i shared nodeIp) = some d') :
    ∃ sub request, d.flights[i]? = some (.waiting sub) ∧
      sendSub h conf shared nodeIp d.parent.request sub = some request ∧
      d' = { d with flights := d.flights.set i (.sent request) } := by
  have hopen := deliveryStep_open hstep
  rw [deliveryStep, if_neg (not_not.mpr hopen)] at hstep
  split at hstep
  · rename_i sub hsub
    obtain ⟨request,hsend,rfl⟩ := Option.map_eq_some_iff.mp hstep
    exact ⟨sub,request,hsub,hsend,rfl⟩
  · cases hstep

theorem deliveryStep_serve {stack : Nat → Bytes}
    (hstep : deliveryStep h limits conf node d (.serve i shared stack) = some d') :
    ∃ request store parent, d.flights[i]? = some (.sent request) ∧
      serveSub h node shared stack d.store d.parent.request request = some (store,parent) ∧
      d' = { d with
        flights := d.flights.set i .answered, store := store
        parent := { d.parent with request := parent } } := by
  have hopen := deliveryStep_open hstep
  rw [deliveryStep, if_neg (not_not.mpr hopen)] at hstep
  split at hstep
  · rename_i request hsent
    obtain ⟨⟨store,parent⟩,hserve,rfl⟩ := Option.map_eq_some_iff.mp hstep
    exact ⟨request,store,parent,hsent,hserve,rfl⟩
  · cases hstep

theorem deliveryStep_post (hstep : deliveryStep h limits conf node d .post = some d') :
    d.flights.all Flight.isAnswered = true ∧
      ((∃ p, processParent h limits d.parent = (.again,p) ∧
          d' = { d with parent := p, flights := p.subrequest.map .waiting }) ∨
        ∃ rc p, rc ≠ .again ∧ processParent h limits d.parent = (rc,p) ∧
          d' = { d with parent := p, flights := [], final := some p.request.code }) := by
  have hopen := deliveryStep_open hstep
  rw [deliveryStep, if_neg (not_not.mpr hopen)] at hstep
  split at hstep
  · rename_i hall
    refine ⟨hall,?_⟩
    split at hstep
    · rename_i p hprocess
      cases hstep
      exact .inl ⟨p,hprocess,rfl⟩
    · rename_i rc p hnot hprocess
      cases hstep
      refine .inr ⟨rc,p,?_,hprocess,rfl⟩
      rintro rfl
      exact hnot rfl
  · cases hstep

end Inversion

section Sent

variable {h : Handler} {conf : UpstreamConf} {shared : Shared} {nodeIp : Bytes} {parent : Request}
  {sub : SubRequest} {request built : Request}

def subCommand (parent : Request) (sub : SubRequest) : CommandType :=
  match parent.commandType with
  | .mget => .mget
  | .mset => .mset
  | _ => sub.uri

def SubRequest.opened (conf : UpstreamConf) (parent : Request) (sub : SubRequest) (nodeIp : Bytes)
    (memory : Int → Int) (request : Request) : Request :=
  { request with
    nodeIp := nodeIp
    tries := conf.upstreamTries
    compressThreshold := memory request.slotId
    clusterName := parent.clusterName
    commandType := subCommand parent sub }

theorem parseSubRequestBody_opened :
    parseSubRequestBody parent true sub.uri
      { request with
        nodeIp := nodeIp, tries := conf.upstreamTries, compressThreshold := h.memory request.slotId } =
        (.ok,sub.opened conf parent nodeIp h.memory request) := by
  unfold parseSubRequestBody SubRequest.opened subCommand
  cases parent.commandType <;> rfl

theorem refuseSub_code (request : Request) {scripts : ScriptCache} {u : Upstream} {parent' : Request}
    (hsub : request.isSubrequest = true) (hcode : request.code ≠ .ok)
    (hrefuse : refuseSub h conf scripts parent request = (.running u,parent')) : u.request.code ≠ .ok := by
  have hfan : checkSubRequest request = false := by simp [checkSubRequest, hsub]
  simp only [refuseSub, createRequestError_single request hfan hcode] at hrefuse
  cases hrefuse
  exact hcode

theorem encodeSub_sent {scripts : ScriptCache} {u : Upstream} {parent' : Request}
    (hsub : request.isSubrequest = true)
    (hencode : encodeSub h conf scripts parent request = some (.running u,parent'))
    (hok : u.request.code = .ok) :
    (redisProtoEncode h.proto scripts (some parent) request).1 = .ok u.request ∧
      u = Upstream.start conf u.request ∧ parent' = parent := by
  unfold encodeSub at hencode
  split at hencode
  · rename_i r hr
    cases hencode
    exact ⟨hr,rfl,rfl⟩
  · rw [Option.some.injEq] at hencode
    exact absurd hok (refuseSub_code { request with code := .unknown } hsub (by simp) hencode)
  · cases hencode

theorem sendSub_eq_some (hsend : sendSub h conf shared nodeIp parent sub = some built) :
    ∃ request ip, qkupstreamInit sub = some request ∧
      (redisProtoEncode h.proto shared.scripts (some parent) (sub.opened conf parent ip h.memory request)).1 =
        .ok built ∧
      createSub h conf shared true nodeIp parent sub =
        some (.running (Upstream.start conf built),parent) ∧ built.code = .ok := by
  unfold sendSub at hsend
  split at hsend
  · rename_i u parent' hcreate
    split at hsend
    · rename_i hok
      cases hsend
      have hcreated := hcreate
      unfold createSub at hcreated
      cases hinit : qkupstreamInit sub with
      | none =>
        rw [hinit] at hcreated
        cases hcreated
      | some request =>
        rw [hinit] at hcreated
        simp only [parseSubRequestBody_opened] at hcreated
        obtain ⟨hsub,-⟩ := qkupstreamInit_fresh hinit
        have hopened (ip : Bytes) : (sub.opened conf parent ip h.memory request).isSubrequest = true := hsub
        have hsent (ip : Bytes) (hencode : encodeSub h conf shared.scripts parent
            (sub.opened conf parent ip h.memory request) = some (.running u,parent')) :
            ∃ r ip, some request = some r ∧ (redisProtoEncode h.proto shared.scripts (some parent)
              (sub.opened conf parent ip h.memory r)).1 = .ok u.request ∧
              createSub h conf shared true nodeIp parent sub =
                some (.running (Upstream.start conf u.request),parent) ∧ u.request.code = .ok := by
          obtain ⟨hbuilt,hu,rfl⟩ := encodeSub_sent (hopened ip) hencode hok
          rw [hu] at hcreate
          exact ⟨request,ip,rfl,hbuilt,hcreate,hok⟩
        split at hcreated
        · split at hcreated
          · rw [Option.some.injEq] at hcreated
            exact absurd hok (refuseSub_code { sub.opened conf parent nodeIp h.memory request with
              code := .unknown } (hopened nodeIp) (by simp) hcreated)
          · rename_i ip _
            exact hsent ip hcreated
        · exact hsent nodeIp hcreated
    · cases hsend
  · cases hsend

end Sent

section Served

variable {h : Handler} {node : Redis.Node} {shared : Shared} {stack : Nat → Bytes}
  {store store' : Redis.Store} {parent parent' request : Request}

theorem processBodyError_code (parent : Option Request) (request : Request) :
    (processBodyError h parent request).1.code ≠ .ok := by
  simp only [processBodyError, parseResponseError, Handler.write]
  split
  · simp only
    split
    · simp
    · assumption
  · simp only
    split
    · simp
    · assumption

theorem processReply_decoded {parent : Option Request} {p : Processed}
    (hreply : processReply h stack shared parent request = .ok p) (hrc : p.rc = .ok)
    (hcode : p.request.code = .ok) :
    ∃ d, redisProtoDecode h.proto stack shared.scripts parent request = .ok d ∧ d.rc = .ok ∧
      p.parent = d.parent := by
  obtain ⟨d,hd,hend⟩ := processReply_cases hreply
  refine ⟨d,hd,?_⟩
  cases hend with
  | taken hok _ => exact ⟨hok,rfl⟩
  | refused | failed | lost => exact absurd hcode (processBodyError_code d.parent _)
  | redirected => cases hrc

/-- What the header check hands on without `ASKING` is the whole buffer. -/
theorem headerCheck_whole {buffer response : Bytes}
    (hcheck : (headerCheck .ok buffer).response = some response) : response = buffer := by
  have hflag : ¬ (MovedAsk.ok = .ask ∨ MovedAsk.ok = .asking) := by decide
  have hend : ¬ MovedAsk.ok = .askingEnd := by decide
  simp only [headerCheck, if_neg hflag, if_neg hend, List.drop_zero] at hcheck
  split at hcheck
  · exact (Option.some.inj hcheck).symm
  · cases hcheck

theorem serveSub_processed
    (hserve : serveSub h node shared stack store parent request = some (store',parent')) :
    ∃ argv reply p, parseCommand request.protoStr = some (argv,[]) ∧
      node.exec store argv = some (store',reply) ∧
      (headerCheck .ok (encode reply)).response = some (encode reply) ∧
      processReply h stack shared (some parent)
        { request with responseBuffer := encode reply, movedAsk := .ok } = .ok p ∧
      p.rc = .ok ∧ p.request.code = .ok ∧ p.parent.getD parent = parent' := by
  unfold serveSub at hserve
  rw [Option.bind_eq_bind, Option.bind_eq_some_iff] at hserve
  obtain ⟨⟨argv,rest⟩,hparse,hserve⟩ := hserve
  simp only at hserve
  rw [Option.bind_eq_bind, Option.bind_eq_some_iff] at hserve
  obtain ⟨⟨store₁,reply⟩,hexec,hserve⟩ := hserve
  simp only at hserve
  rw [Option.bind_eq_bind, Option.bind_eq_some_iff] at hserve
  obtain ⟨response,hcheck,hserve⟩ := hserve
  obtain rfl := headerCheck_whole hcheck
  split at hserve
  · rename_i p hp
    split at hserve
    · rename_i hall
      obtain ⟨rfl,hrc,hcode⟩ := hall
      cases hserve
      exact ⟨argv,reply,p,hparse,hexec,hcheck,hp,hrc,hcode,rfl⟩
    · cases hserve
  · cases hserve

/-- A served sub-request, step by step. -/
structure Served (h : Handler) (node : Redis.Node) (shared : Shared) (stack : Nat → Bytes)
    (store : Redis.Store) (parent request : Request) (store' : Redis.Store) (parent' : Request)
    (argv : List Bytes) (reply : Reply) : Prop where
  parsed : parseCommand request.protoStr = some (argv,[])
  executed : node.exec store argv = some (store',reply)
  decoded : ∃ d, redisProtoDecode h.proto stack shared.scripts (some parent)
    { request with responseBuffer := encode reply, movedAsk := .ok } = .ok d ∧ d.rc = .ok ∧
    d.parent.getD parent = parent'

theorem serveSub_eq_some (hserve : serveSub h node shared stack store parent request = some (store',parent')) :
    ∃ argv reply, Served h node shared stack store parent request store' parent' argv reply := by
  obtain ⟨argv,reply,p,hparse,hexec,-,hp,hrc,hcode,hparent'⟩ := serveSub_processed hserve
  obtain ⟨d,hd,hdrc,hparent⟩ := processReply_decoded hp hrc hcode
  exact ⟨argv,reply,hparse,hexec,d,hd,hdrc,by rw [← hparent, hparent']⟩

theorem headerCheck_bulks (bs : List Bulk) :
    (headerCheck .ok (encode (.array (bs.map some)))).response = some (encode (.array (bs.map some))) := by
  have hflag : ¬ (MovedAsk.ok = .ask ∨ MovedAsk.ok = .asking) := by decide
  have hend : ¬ MovedAsk.ok = .askingEnd := by decide
  have hsome : ∀ e ∈ ((bs.map some).take (arraySize (bs.map some).length).toNat).dropLast, e ≠ none := by
    intro e he
    obtain ⟨b,-,rfl⟩ := List.mem_map.mp (List.mem_of_mem_take (List.mem_of_mem_dropLast he))
    exact Option.some_ne_none b
  have hframe := (frameBehind_complete_array [] hsome).1
  simp only [headerCheck, if_neg hflag, if_neg hend, List.drop_zero]
  exact if_pos hframe

theorem parseResponseBody_filling (h : Handler) {r : Request} (hcode : r.code = .ok)
    (hcommand : r.commandType = .mget ∨ r.commandType = .zrangebyscore) : parseResponseBody h r = (.ok,r) := by
  unfold parseResponseBody
  rcases hcommand with hc | hc <;> simp only [hc, hcode, ne_eq, not_true_eq_false, if_false, ite_self]

theorem serveSub_array {argv : List Bytes} {bs : List Bulk} {scripts : ScriptCache} {p : Option Request}
    (hcode : request.code = .ok)
    (hcommand : request.commandType = .mget ∨ request.commandType = .zrangebyscore)
    (hparse : parseCommand request.protoStr = some (argv,[]))
    (hexec : node.exec store argv = some (store',.array (bs.map some)))
    (hdecode : redisProtoDecode h.proto stack shared.scripts (some parent)
      { request with responseBuffer := encode (.array (bs.map some)), movedAsk := .ok } =
        .ok ⟨.ok,{ request with responseBuffer := encode (.array (bs.map some)), movedAsk := .ok },p,scripts⟩) :
    serveSub h node shared stack store parent request = some (store',p.getD parent) := by
  have hreply : processReply h stack shared (some parent)
      { request with responseBuffer := encode (.array (bs.map some)), movedAsk := .ok } =
        .ok ⟨.ok,{ request with responseBuffer := encode (.array (bs.map some)), movedAsk := .ok },p,
          { shared with scripts := scripts }⟩ := by
    refine bind_eq_ok.mpr ⟨_,hdecode,?_⟩
    have hbody := parseResponseBody_filling h (r := { request with
      responseBuffer := encode (.array (bs.map some))
      movedAsk := .ok }) hcode hcommand
    simp only [hbody, if_true]
    rfl
  simp only [serveSub, hparse, Option.bind_eq_bind, Option.bind_some, hexec, headerCheck_bulks, hreply]
  exact if_pos ⟨trivial,trivial,hcode⟩

end Served

section Mirror

variable {h : Handler} {limits : Limits} {conf : UpstreamConf} {node : Redis.Node}

/-- The sub-request of the rounds machine for one that is delivered. -/
inductive FlightMirrors (conf : UpstreamConf) : Flight → Sub → Prop
  | waiting (sub : SubRequest) : FlightMirrors conf (.waiting sub) (.pending sub)
  | sent (request : Request) : FlightMirrors conf (.sent request) (.running (Upstream.start conf request))
  | answered {u : Upstream} (hdone : u.stage = .done .response) : FlightMirrors conf .answered (.running u)

structure Mirrors (conf : UpstreamConf) (d : Delivery) (s : FanOut) : Prop where
  parent : s.parent = d.parent
  final : s.final = d.final.map .response
  flights : List.Forall₂ (FlightMirrors conf) d.flights s.subs

def Upstream.firstTry (conf : UpstreamConf) (request : Request) : Upstream :=
  { Upstream.start conf request with
    stage := .sent
    requestSent := true
    hpTries := 1
    hasPeer := true
    attempts := [some request.nodeIp]
    written := [(request.code,request.protoStr)] }

theorem step_firstTry (request : Request) (world : World) (ip : Bytes) :
    step h conf (Upstream.start conf request) (.connect world ip .ok) =
      some (Upstream.firstTry conf request) := rfl

theorem step_answered (conf : UpstreamConf) {request parent : Request} {shared : Shared} {stack : Nat → Bytes}
    {reply : Reply} {p : Processed} (hcheck : (headerCheck .ok (encode reply)).response = some (encode reply))
    (hreply : processReply h stack shared (some parent)
      { request with responseBuffer := encode reply, movedAsk := .ok } = .ok p) (hrc : p.rc = .ok) :
    ∃ v, step h conf (Upstream.firstTry conf request)
        (.read ⟨shared,some parent,stack⟩ (encode reply)) = some v ∧ v.stage = .done .response := by
  refine ⟨_,rfl,?_⟩
  have hbuffer : (Upstream.firstTry conf request).buffer ++ encode reply = encode reply := rfl
  have hflag : (Upstream.firstTry conf request).movedAsk = .ok := rfl
  have hrequest : (Upstream.firstTry conf request).request = request := rfl
  simp only [processHeader, hbuffer, hflag, hcheck, processResponse, hrequest, hreply, hrc]
  rfl

theorem parentAfter_firstTry (request parent : Request) (world : World) (ip : Bytes) :
    (Upstream.start conf request).parentAfter h parent (.connect world ip .ok) = parent := rfl

theorem parentAfter_answered {request parent : Request} (world : World) {reply : Reply} {p : Processed}
    (hcheck : (headerCheck .ok (encode reply)).response = some (encode reply))
    (hreply : processReply h world.stack world.shared (some parent)
      { request with responseBuffer := encode reply, movedAsk := .ok } = .ok p) :
    (Upstream.firstTry conf request).parentAfter h parent (.read world (encode reply)) =
      p.parent.getD parent := by
  have hbuffer : (Upstream.firstTry conf request).buffer ++ encode reply = encode reply := rfl
  have hflag : (Upstream.firstTry conf request).movedAsk = .ok := rfl
  have hrequest : (Upstream.firstTry conf request).request = request := rfl
  simp only [Upstream.parentAfter, hbuffer, hflag, hcheck, hrequest, repliedParent, hreply]

theorem forall₂_set {α β : Type} {R : α → β → Prop} {as : List α} {bs : List β} {a : α} {b : β}
    (hall : List.Forall₂ R as bs) (hab : R a b) (i : Nat) : List.Forall₂ R (as.set i a) (bs.set i b) := by
  induction hall generalizing i with
  | nil => exact .nil
  | cons hhead hrest ih =>
    cases i with
    | zero => exact .cons hab hrest
    | succ i => exact .cons hhead (ih i)

theorem forall₂_getElem? {α β : Type} {R : α → β → Prop} {as : List α} {bs : List β} {a : α} {i : Nat}
    (hall : List.Forall₂ R as bs) (ha : as[i]? = some a) : ∃ b, bs[i]? = some b ∧ R a b := by
  induction hall generalizing i with
  | nil => cases ha
  | cons hhead _ ih =>
    cases i with
    | zero =>
      cases ha
      exact ⟨_,rfl,hhead⟩
    | succ i => exact ih ha

theorem check_answered {flights : List Flight} {subs : List Sub}
    (hall : List.Forall₂ (FlightMirrors conf) flights subs)
    (hdone : flights.all Flight.isAnswered = true) : qksubrequestCheck subs = .ok true := by
  induction hall with
  | nil => rfl
  | cons hhead _ ih =>
    rw [List.all_cons, Bool.and_eq_true] at hdone
    cases hhead with
    | waiting sub => exact absurd hdone.1 (by simp [Flight.isAnswered])
    | sent request => exact absurd hdone.1 (by simp [Flight.isAnswered])
    | answered hstage => simp [qksubrequestCheck, hstage, ih hdone.2]

section Step

variable {d : Delivery} {s : FanOut} (hm : Mirrors conf d s) (hopen : d.final = none)
include hm hopen

theorem Mirrors.not_final : ¬ s.final ≠ none := by
  rw [hm.final, hopen]
  exact not_not.mpr rfl

theorem Mirrors.send (limits : Limits) {i : Nat} {shared : Shared} {nodeIp : Bytes} {sub : SubRequest}
    {request : Request} (hsub : d.flights[i]? = some (.waiting sub))
    (hsend : sendSub h conf shared nodeIp d.parent.request sub = some request) :
    ∃ s', fanStep h limits conf s (.create i shared true nodeIp) = some s' ∧
      Mirrors conf { d with flights := d.flights.set i (.sent request) } s' := by
  obtain ⟨-,-,-,-,hcreate,-⟩ := sendSub_eq_some hsend
  obtain ⟨b,hb,hmirror⟩ := forall₂_getElem? hm.flights hsub
  cases hmirror
  refine ⟨{ s with subs := s.subs.set i (.running (Upstream.start conf request)) },?_,hm.parent,hm.final,
    forall₂_set hm.flights (.sent request) i⟩
  rw [fanStep, if_neg (hm.not_final hopen)]
  simp only [hb, hm.parent, hcreate, Option.map_some]

theorem Mirrors.serve {i : Nat} {shared : Shared} {stack : Nat → Bytes} {request parent' : Request}
    {store' : Redis.Store} (hsent : d.flights[i]? = some (.sent request))
    (hserve : serveSub h node shared stack d.store d.parent.request request = some (store',parent')) :
    ∃ es s', Machine.run (fanStep h limits conf) s es = some s' ∧
      Mirrors conf { d with
        flights := d.flights.set i .answered, store := store'
        parent := { d.parent with request := parent' } } s' := by
  obtain ⟨b,hb,hmirror⟩ := forall₂_getElem? hm.flights hsent
  cases hmirror
  obtain ⟨argv,reply,p,-,-,hcheck,hreply,hrc,-,rfl⟩ := serveSub_processed hserve
  obtain ⟨v,hanswer,hdone⟩ := step_answered conf hcheck hreply hrc
  obtain ⟨hlt,-⟩ := List.getElem?_eq_some_iff.mp hb
  have hfirst : fanStep h limits conf s (.sub i (.connect ⟨shared,none,stack⟩ [] .ok)) =
      some { s with subs := s.subs.set i (.running (Upstream.firstTry conf request)) } := by
    rw [fanStep, if_neg (hm.not_final hopen)]
    simp only [hb, Event.under, step_firstTry, parentAfter_firstTry]
    rw [if_neg (by simp [Upstream.firstTry])]
  have hsecond : fanStep h limits conf
      { s with subs := s.subs.set i (.running (Upstream.firstTry conf request)) }
      (.sub i (.read ⟨shared,none,stack⟩ (encode reply))) = some { s with
        subs := s.subs.set i (.running v)
        parent := { d.parent with request := p.parent.getD d.parent.request } } := by
    rw [fanStep, if_neg (hm.not_final hopen)]
    simp only [List.getElem?_set_self hlt, Event.under, hm.parent, hanswer, hdone,
      parentAfter_answered ⟨shared,none,stack⟩ hcheck hreply, List.set_set]
    rw [if_neg (by simp)]
  exact ⟨_,_,Machine.run_cons_eq_some.mpr ⟨_,hfirst,Machine.run_single hsecond⟩,rfl,hm.final,
    forall₂_set hm.flights (.answered hdone) i⟩

theorem Mirrors.post (h : Handler) (limits : Limits) (hdone : d.flights.all Flight.isAnswered = true) :
    fanStep h limits conf s .post = some (qksubrequestPost h limits s d.parent) := by
  rw [fanStep, if_neg (hm.not_final hopen)]
  simp only [check_answered hm.flights hdone, if_true]
  rw [← hm.parent]

end Step

theorem flights_waiting (subs : List SubRequest) :
    List.Forall₂ (FlightMirrors conf) (subs.map .waiting) (subs.map .pending) := by
  rw [List.forall₂_map_left_iff, List.forall₂_map_right_iff, List.forall₂_same]
  intro sub _
  exact .waiting sub

/-- Every step of a delivery is made by the rounds machine, in one or in two. -/
theorem deliveryStep_mirrored {d d' : Delivery} {s : FanOut} {e : DeliveryEvent}
    (hm : Mirrors conf d s) (hstep : deliveryStep h limits conf node d e = some d') :
    ∃ es s', Machine.run (fanStep h limits conf) s es = some s' ∧ Mirrors conf d' s' := by
  have hopen := deliveryStep_open hstep
  cases e with
  | send i shared nodeIp =>
    obtain ⟨sub,request,hsub,hsend,rfl⟩ := deliveryStep_send hstep
    obtain ⟨s',hfan,hm'⟩ := hm.send hopen limits hsub hsend
    exact ⟨_,s',Machine.run_single hfan,hm'⟩
  | serve i shared stack =>
    obtain ⟨request,store,parent,hsent,hserve,rfl⟩ := deliveryStep_serve hstep
    exact hm.serve hopen hsent hserve
  | post =>
    obtain ⟨hdone,hprocess⟩ := deliveryStep_post hstep
    refine ⟨[.post],_,Machine.run_single (hm.post hopen h limits hdone),?_⟩
    rw [qksubrequestPost]
    rcases hprocess with ⟨p,hprocess,rfl⟩ | ⟨rc,p,hrc,hprocess,rfl⟩
    · rw [hprocess]
      exact ⟨rfl,by rw [hopen]; rfl,flights_waiting p.subrequest⟩
    · rw [hprocess]
      cases rc with
      | again => exact absurd rfl hrc
      | _ => exact ⟨rfl,rfl,.nil⟩

theorem delivery_mirrored {request : Request} {store : Redis.Store} {es : List DeliveryEvent}
    {d : Delivery}
    (hrun : Machine.run (deliveryStep h limits conf node) (Delivery.start request store) es = some d) :
    ∃ fs s, Machine.run (fanStep h limits conf) (FanOut.start request) fs = some s ∧ Mirrors conf d s := by
  have hstart : Mirrors conf (Delivery.start request store) (FanOut.start request) := ⟨rfl,rfl,.nil⟩
  exact Machine.simulated_run deliveryStep_mirrored hstart hrun

end Mirror

end QkPack
