import QkPack.Core.Redirect
import QkPack.Protocol.Frames
import QkPack.Retry.Upstream

/-!
# The functions of the retry machine

What each of them can do to the state, said once. The invariants of the machine are derived from this.
-/

namespace QkPack
open Wire CString Resp

/-- `now_tries == tries - 1` for the call of `ReinitRequest` that comes next. -/
def Upstream.lastTry (u : Upstream) : Bool :=
  u.hpTries % 2 ^ 32 == (u.request.tries + (2 ^ 32 - 1)) % 2 ^ 32

/-- The event makes `ReinitRequest` mark the request as failed. -/
def Upstream.marks (u : Upstream) : Event → Prop
  | .connect _ _ _ => 0 < u.hpTries ∧ u.hpTries ≤ 50 ∧ u.lastTry = true
  | _ => False

instance (u : Upstream) : ∀ e, Decidable (u.marks e)
  | .connect _ _ _ => inferInstanceAs (Decidable (_ ∧ _ ∧ _))
  | .established | .refused | .timeout | .closed | .overflow | .read _ _ =>
    inferInstanceAs (Decidable False)

def Upstream.isDone (u : Upstream) : Prop := ∃ outcome, u.stage = .done outcome

instance (u : Upstream) : Decidable u.isDone :=
  match hstage : u.stage with
  | .done outcome => isTrue ⟨outcome,hstage⟩
  | .connect | .connecting | .sent => isFalse fun ⟨_,hdone⟩ => by cases hstage.symm.trans hdone

theorem not_isDone_of_step {h : Handler} {conf : UpstreamConf} {u v : Upstream} {e : Event}
    (hstep : step h conf u e = some v) : ¬ u.isDone := by
  rintro ⟨outcome,hdone⟩
  simp [step, hdone] at hstep

theorem not_isDone_of_sent {u : Upstream} (hsent : u.stage = .sent) : ¬ u.isDone := by
  rintro ⟨outcome,hdone⟩
  cases hsent.symm.trans hdone

section Reinit

variable {h : Handler} {u v : Upstream}

theorem createRequestError_single (request : Request) {scripts : ScriptCache} {parent : Option Request}
    (hsub : checkSubRequest request = false) (hcode : request.code ≠ .ok) :
    createRequestError h scripts parent request =
      (.ok,{ request with nodeIp := h.backupServer, protoStr := pingFrame },
        parent.map (copyCode request)) := by
  have hsub' : checkSubRequest { request with nodeIp := h.backupServer } = false := hsub
  have hping : (redisProtoEncode h.proto scripts (parent.map (copyCode request))
      { request with nodeIp := h.backupServer }).1 =
        .ok { request with nodeIp := h.backupServer, protoStr := pingFrame } := by
    simp only [redisProtoEncode, ne_eq, hcode, not_false_eq_true, if_true, redisProtoEncodePing]
    rw [build_short _ (by rfl) (by decide)]
    simp [pingFrame]
  simp only [createRequestError, hsub, Bool.false_eq_true, if_false, hping]

/-- The request as `process_reinit_request` hands it to `ReinitRequest`. -/
def Upstream.handed (u : Upstream) : Request :=
  { u.request with nodeIp := u.upstreamIp, nowTries := u.hpTries % 2 ^ 32, movedAsk := u.movedAsk }

theorem processReinitRequest_of_eq {world : World} {request : Request} {parent : Option Request}
    (hre : reinitRequest h world.shared.scripts world.parent u.handed = (.ok,request,parent)) :
    processReinitRequest h world u = some { u with
      request := request
      upstreamIp := request.nodeIp
      movedAsk := request.movedAsk
      requestBuffer := if request.movedAsk = .asking then request.protoStr else u.requestBuffer } := by
  unfold Upstream.handed at hre
  simp only [processReinitRequest, hre]

theorem processReinitRequest_cases (world : World) (hsub : checkSubRequest u.request = false) :
    (u.lastTry = true ∧ processReinitRequest h world u = some { u with
        request := { u.handed with
          movedAsk := .ok, code := .timeout5xx, nodeIp := h.backupServer, protoStr := pingFrame }
        upstreamIp := h.backupServer
        movedAsk := .ok }) ∨
      (u.lastTry = false ∧ u.movedAsk = .ask ∧ processReinitRequest h world u = some { u with
        request := { u.handed with
          protoStr := askingFrame ++ u.request.protoStr, movedAsk := .asking }
        movedAsk := .asking
        requestBuffer := askingFrame ++ u.request.protoStr }) ∨
      (u.lastTry = false ∧ u.movedAsk ≠ .ask ∧ processReinitRequest h world u = some { u with
        request := u.handed
        requestBuffer := if u.movedAsk = .asking then u.request.protoStr else u.requestBuffer }) := by
  have hlast : u.handed.isLastTry = u.lastTry := rfl
  cases hl : u.lastTry with
  | true =>
    have hre : reinitRequest h world.shared.scripts world.parent u.handed =
        createRequestError h world.shared.scripts world.parent
          { u.handed with movedAsk := .ok, code := .timeout5xx } := by
      rw [reinitRequest, hlast, hl, if_pos rfl]
    exact .inl ⟨rfl,processReinitRequest_of_eq
      (hre.trans (createRequestError_single _ hsub (by simp)))⟩
  | false =>
    have hnot : ¬ u.handed.isLastTry = true := by simp [hlast, hl]
    by_cases hask : u.movedAsk = .ask
    · have hre : reinitRequest h world.shared.scripts world.parent u.handed = (.ok,{ u.handed with
          protoStr := askingFrame ++ u.handed.protoStr, movedAsk := .asking },world.parent) := by
        rw [reinitRequest, if_neg hnot, if_pos (show u.handed.movedAsk = .ask from hask)]
      exact .inr (.inl ⟨rfl,hask,processReinitRequest_of_eq hre⟩)
    · have hre : reinitRequest h world.shared.scripts world.parent u.handed =
          (.ok,u.handed,world.parent) := by
        rw [reinitRequest, if_neg hnot, if_neg (show ¬ u.handed.movedAsk = .ask from hask)]
      exact .inr (.inr ⟨rfl,hask,processReinitRequest_of_eq hre⟩)

end Reinit

/-- What choosing a peer does: `v` is the state `u` with a peer. -/
structure PeerChosen (h : Handler) (u v : Upstream) : Prop where
  stage : v.stage = u.stage
  fanOut : checkSubRequest v.request = checkSubRequest u.request
  isSubrequest : v.request.isSubrequest = u.request.isSubrequest
  tries : v.request.tries = u.request.tries
  requestSent : v.requestSent = u.requestSent
  usTries : v.usTries = u.usTries
  peerTries : v.peerTries = u.peerTries
  cached : v.cached = false
  hasPeer : v.hasPeer = true
  counted : u.hpTries ≤ 50 → v.hpTries = u.hpTries + 1 ∧ v.attempts = u.attempts ++ [some v.upstreamIp]
  roundRobin : 50 < u.hpTries → v.hpTries = u.hpTries ∧ v.attempts = u.attempts ++ [none]
  marked : 0 < u.hpTries → u.hpTries ≤ 50 → u.lastTry = true →
    v.upstreamIp = h.backupServer ∧ v.request.code = .timeout5xx
  unmarked : ¬ (0 < u.hpTries ∧ u.hpTries ≤ 50 ∧ u.lastTry = true) → v.request.code = u.request.code
  followed : 0 < u.hpTries → u.hpTries ≤ 50 → u.lastTry = false → u.movedAsk ≠ .ok →
    v.upstreamIp = u.upstreamIp

section Functions

variable {h : Handler} {conf : UpstreamConf} {u v : Upstream}

theorem getPeer_chosen (world : World) (randomIp : Bytes) (hsub : checkSubRequest u.request = false) :
    ∃ v, getPeer h world randomIp u = some v ∧ PeerChosen h u v := by
  unfold getPeer
  by_cases hmany : u.hpTries > 50
  · have hfew : ¬ u.hpTries ≤ 50 := not_le.mpr hmany
    simp only [if_pos hmany]
    exact ⟨_,rfl,rfl,rfl,rfl,rfl,rfl,rfl,rfl,rfl,rfl,fun hle => absurd hle hfew,fun _ => ⟨rfl,rfl⟩,
      fun _ hle => absurd hle hfew,fun _ => rfl,fun _ hle => absurd hle hfew⟩
  · simp only [if_neg hmany]
    by_cases hpos : u.hpTries > 0
    · simp only [if_pos hpos, updateNodes]
      -- with and without a redirection the request is handed to `ReinitRequest`, for different nodes
      have hpeer (ip : Bytes) (hip : u.movedAsk ≠ .ok → ip = u.upstreamIp) :
          ∃ v, Option.map (fun v : Upstream => { v with
              hpTries := v.hpTries + 1, attempts := v.attempts ++ [some v.upstreamIp] })
            (processReinitRequest h world
              { u with cached := false, hasPeer := true, upstreamIp := ip }) = some v ∧
            PeerChosen h u v := by
        have hfew : u.hpTries ≤ 50 := not_lt.mp hmany
        rcases processReinitRequest_cases (h := h) world
            (u := { u with cached := false, hasPeer := true, upstreamIp := ip }) hsub with
          ⟨hlast,hv⟩ | ⟨hlast,-,hv⟩ | ⟨hlast,-,hv⟩
        · rw [hv]
          exact ⟨_,rfl,rfl,rfl,rfl,rfl,rfl,rfl,rfl,rfl,rfl,fun _ => ⟨rfl,rfl⟩,fun hm => absurd hm hmany,
            fun _ _ _ => ⟨rfl,rfl⟩,fun hnot => absurd ⟨hpos,hfew,hlast⟩ hnot,
            fun _ _ hl => absurd (hlast.symm.trans hl) nofun⟩
        · rw [hv]
          exact ⟨_,rfl,rfl,rfl,rfl,rfl,rfl,rfl,rfl,rfl,rfl,fun _ => ⟨rfl,rfl⟩,fun hm => absurd hm hmany,
            fun _ _ hl => absurd (hl.symm.trans hlast) nofun,fun _ => rfl,fun _ _ _ => hip⟩
        · rw [hv]
          exact ⟨_,rfl,rfl,rfl,rfl,rfl,rfl,rfl,rfl,rfl,rfl,fun _ => ⟨rfl,rfl⟩,fun hm => absurd hm hmany,
            fun _ _ hl => absurd (hl.symm.trans hlast) nofun,fun _ => rfl,fun _ _ _ => hip⟩
      split
      · exact hpeer u.upstreamIp fun _ => rfl
      · rename_i hplain
        exact hpeer randomIp fun hflag => absurd hflag hplain
    · simp only [if_neg hpos]
      exact ⟨_,rfl,rfl,rfl,rfl,rfl,rfl,rfl,rfl,rfl,rfl,fun _ => ⟨rfl,rfl⟩,fun hm => absurd hm hmany,
        fun h => absurd h hpos,fun _ => rfl,fun h => absurd h hpos⟩

theorem connected_cases (result : ConnectResult) :
    connected result u =
        Upstream.finish { u with cached := decide (result = .cached) } .internalError ∨
      ∃ flag bufs, connected result u = if result = .again
        then { u with
          cached := decide (result = .cached), movedAsk := flag, requestBufs := bufs
          requestSent := false, buffer := [], stage := .connecting }
        else sendRequest { u with
          cached := decide (result = .cached), movedAsk := flag, requestBufs := bufs
          requestSent := false, buffer := [] } := by
  unfold connected
  simp only
  split
  · exact .inl rfl
  · rename_i w hw
    right
    split at hw
    · unfold qkupstreamReinitRequest at hw
      split at hw
      · cases hw
      · split at hw
        · cases hw
          exact ⟨_,_,rfl⟩
        · cases hw
          exact ⟨_,_,rfl⟩
        · cases hw
          exact ⟨_,_,rfl⟩
        · cases hw
        · cases hw
    · cases hw
      exact ⟨_,_,rfl⟩

theorem upstreamNext_cases (conf : UpstreamConf) (ft : FtType) (u : Upstream) :
    ∃ hasPeer peerTries usTries stage, upstreamNext conf ft u = { u with
        hasPeer := hasPeer, peerTries := peerTries, usTries := usTries, stage := stage } ∧
      (stage = .connect ∨ stage = .done (.gaveUp ft)) := by
  have hfree : ∃ hasPeer peerTries, freePeer conf u =
      { u with hasPeer := hasPeer, peerTries := peerTries } := by
    unfold freePeer
    split
    · exact ⟨_,_,rfl⟩
    · exact ⟨_,_,rfl⟩
  obtain ⟨hasPeer,peerTries,hfree⟩ := hfree
  simp only [upstreamNext, hfree]
  split
  · exact ⟨_,_,_,_,rfl,.inl rfl⟩
  split
  · exact ⟨_,_,_,_,rfl,.inr rfl⟩
  split
  · exact ⟨_,_,_,_,rfl,.inr rfl⟩
  · exact ⟨_,_,_,_,rfl,.inl rfl⟩

theorem lastTry_iff (hpos : 0 < u.request.tries) (hlimit : u.request.tries < 2 ^ 32)
    (hfew : u.hpTries < u.request.tries) : u.lastTry = true ↔ u.hpTries + 1 = u.request.tries := by
  unfold Upstream.lastTry
  rw [beq_iff_eq]
  omega

end Functions

def Event.failure : Event → Option FtType
  | .refused | .closed => some .error
  | .timeout => some .timeout
  | .overflow => some .invalidHeader
  | _ => none

/-- What becomes of the connection to the peer that was chosen in `w`. -/
inductive PeerStep (conf : UpstreamConf) (u w : Upstream) : ConnectResult → Upstream → Prop
  | error : PeerStep conf u w .error (w.finish .internalError)
  | busy (hmany : u.hpTries > 50) :
      PeerStep conf u w .busy (upstreamNext conf .nolive { w with hasPeer := false })
  | declined : PeerStep conf u w .declined (upstreamNext conf .error w)
  | connected {result : ConnectResult} (hresult : result = .ok ∨ result = .cached ∨ result = .again) :
      PeerStep conf u w result (connected result w)

/-- With these bytes a reply is whole, and `ProcessBody` makes `p` of it. -/
def Upstream.Replied (h : Handler) (world : World) (bytes : Bytes) (u : Upstream) (p : Processed) : Prop :=
  ∃ response, (headerCheck u.movedAsk (u.buffer ++ bytes)).response = some response ∧
    processReply h world.stack world.shared world.parent
      { u.request with responseBuffer := response, movedAsk := u.movedAsk } = .ok p

/-- All that bytes from the server can do. -/
inductive HeaderStep (h : Handler) (conf : UpstreamConf) (world : World) (bytes : Bytes) (u : Upstream) :
    Upstream → Prop
  | waits : HeaderStep h conf world bytes u { u with buffer := u.buffer ++ bytes }
  | malformed :
      HeaderStep h conf world bytes u (upstreamNext conf .invalidHeader { u with buffer := u.buffer ++ bytes })
  | broken {outcome : Outcome} (houtcome : outcome = .internalError ∨ outcome = .crashed) :
      HeaderStep h conf world bytes u { u with buffer := u.buffer ++ bytes, stage := .done outcome }
  | redirected {p : Processed} (hreplied : u.Replied h world bytes p) (hrc : p.rc = .upstreamInvalidHeader) :
      HeaderStep h conf world bytes u (upstreamNext conf .invalidHeader
        { u with
          buffer := u.buffer ++ bytes, request := p.request, upstreamIp := p.request.nodeIp
          movedAsk := p.request.movedAsk })
  | answered {p : Processed} (hreplied : u.Replied h world bytes p) (hrc : p.rc = .ok) :
      HeaderStep h conf world bytes u
        { u with buffer := u.buffer ++ bytes, request := p.request, stage := .done .response }
  | refused {p : Processed} (hreplied : u.Replied h world bytes p) :
      HeaderStep h conf world bytes u
        { u with buffer := u.buffer ++ bytes, request := p.request, stage := .done .internalError }

/-- All that a step can do. -/
inductive UpstreamStep (h : Handler) (conf : UpstreamConf) (u : Upstream) : Event → Upstream → Prop
  | noPeer {world : World} {randomIp : Bytes} {result : ConnectResult} (hpeer : getPeer h world randomIp u = none) :
      UpstreamStep h conf u (.connect world randomIp result) (u.finish .internalError)
  | connect {world : World} {randomIp : Bytes} {result : ConnectResult} {w v : Upstream} (hstage : u.stage = .connect)
      (hpeer : getPeer h world randomIp u = some w) (hresult : PeerStep conf u w result v) :
      UpstreamStep h conf u (.connect world randomIp result) v
  | established (hstage : u.stage = .connecting) : UpstreamStep h conf u .established (sendRequest u)
  | failed {e : Event} {ft : FtType} (hstage : u.stage = .connecting ∨ u.stage = .sent)
      (hfailure : e.failure = some ft) : UpstreamStep h conf u e (upstreamNext conf ft u)
  | read {world : World} {bytes : Bytes} {v : Upstream} (hstage : u.stage = .sent)
      (hread : HeaderStep h conf world bytes u v) : UpstreamStep h conf u (.read world bytes) v

section Inversion

variable {h : Handler} {conf : UpstreamConf} {world : World} {randomIp : Bytes} {result : ConnectResult}
  {u v w : Upstream} {e : Event}

theorem upstreamConnect_peerStep (hpeer : getPeer h world randomIp u = some w)
    (hv : upstreamConnect h conf world randomIp result u = some v) : PeerStep conf u w result v := by
  rw [upstreamConnect, hpeer] at hv
  cases result with
  | error =>
    cases hv
    exact .error
  | busy =>
    simp only at hv
    split at hv
    · rename_i hmany
      cases hv
      exact .busy hmany
    · cases hv
  | declined =>
    cases hv
    exact .declined
  | ok =>
    cases hv
    exact .connected (.inl rfl)
  | cached =>
    cases hv
    exact .connected (.inr (.inl rfl))
  | again =>
    cases hv
    exact .connected (.inr (.inr rfl))

theorem processHeader_headerStep (h : Handler) (conf : UpstreamConf) (world : World) (bytes : Bytes) (u : Upstream) :
    HeaderStep h conf world bytes u (processHeader h conf world bytes u) := by
  unfold processHeader
  simp only
  split
  · rename_i response hresponse
    unfold processResponse
    simp only
    split
    · exact .broken (.inr rfl)
    · rename_i p hreply
      have hreplied : u.Replied h world bytes p := ⟨response,hresponse,hreply⟩
      split
      · exact .redirected hreplied ‹_›
      · exact .answered hreplied ‹_›
      · exact .refused hreplied
  · split
    · exact .waits
    · exact .malformed
    · exact .broken (.inl rfl)

theorem step_upstreamStep (hstep : step h conf u e = some v) : UpstreamStep h conf u e v := by
  unfold step at hstep
  split at hstep
  · rename_i world randomIp result hstage
    cases hpeer : getPeer h world randomIp u with
    | none =>
      rw [upstreamConnect, hpeer] at hstep
      cases hstep
      exact .noPeer hpeer
    | some w => exact .connect hstage hpeer (upstreamConnect_peerStep hpeer hstep)
  · cases hstep
    exact .established ‹_›
  iterate 2
    · cases hstep
      exact .failed (.inl ‹_›) rfl
  iterate 3
    · cases hstep
      exact .failed (.inr ‹_›) rfl
  · cases hstep
    exact .read ‹_› (processHeader_headerStep _ _ _ _ _)
  · cases hstep

end Inversion

end QkPack
