import QkPack.Retry.Ping

/-!
# The same command, written again

As long as no reply redirects it, a request is written with the bytes that were built for it, at every try. This holds
for the last try too, on which the request is marked as failed.
-/

namespace QkPack
open Wire CString Resp

/-- A request on its way that no reply has redirected; `request` was encoded as `orig`. -/
structure Repeats (request : Request) (orig : Bytes) (u : Upstream) : Prop where
  fanOut : checkSubRequest u.request = false
  flag : u.movedAsk = .ok
  requestBuffer : u.requestBuffer = orig
  requestBufs : u.requestBufs = orig
  /-- Until it is marked, no more than its node, the number of tries and the flag change. -/
  unmarked : u.request.code = .ok → ∃ nodeIp nowTries movedAsk, u.request =
    { request with nodeIp := nodeIp, nowTries := nowTries, movedAsk := movedAsk }
  buffer : u.stage ≠ .connect → u.request.code = .ok → u.buffer = []
  last : u.stage = .sent → u.written.getLast? = some (u.request.code,orig)

/-- What becomes of such a request without a reply, when `written` were its copies. -/
structure Turned (request : Request) (orig : Bytes) (written : List (ResponseCode × Bytes)) (v : Upstream) :
    Prop where
  repeats : ¬ v.isDone → Repeats request orig v
  written : v.written = written ∨ v.written = written ++ [(v.request.code,orig)]

def Event.silent : Event → Bool
  | .read _ _ => false
  | _ => true

section Steps

variable {h : Handler} {conf : UpstreamConf} {request : Request} {orig : Bytes} {u v : Upstream}

theorem repeats_start (hsub : checkSubRequest request = false) (conf : UpstreamConf) :
    Repeats request request.protoStr (Upstream.start conf request) where
  fanOut := hsub
  flag := rfl
  requestBuffer := rfl
  requestBufs := rfl
  unmarked := fun _ => ⟨_,_,_,rfl⟩
  buffer := fun _ _ => rfl
  last := nofun

theorem Repeats.reinit (hu : Repeats request orig u) (hstage : u.stage = .connect) (world : World) :
    ∃ v, processReinitRequest h world u = some v ∧ Repeats request orig v ∧ v.written = u.written ∧
      v.stage = .connect := by
  have hsent : u.stage ≠ .sent := fun hsent => by cases hstage.symm.trans hsent
  rcases processReinitRequest_cases (h := h) world hu.fanOut with ⟨-,hv⟩ | ⟨-,hask,-⟩ | ⟨-,-,hv⟩
  · exact ⟨_,hv,⟨hu.fanOut,rfl,hu.requestBuffer,hu.requestBufs,nofun,fun hne => absurd hstage hne,
      fun h => absurd h hsent⟩,rfl,hstage⟩
  · cases hu.flag.symm.trans hask
  · refine ⟨_,hv,⟨hu.fanOut,hu.flag,?_,hu.requestBufs,?_,fun hne => absurd hstage hne,fun h => absurd h hsent⟩,rfl,
      hstage⟩
    · simp [hu.flag, hu.requestBuffer]
    · intro hcode
      obtain ⟨nodeIp,nowTries,movedAsk,hrequest⟩ := hu.unmarked hcode
      exact ⟨_,_,_,by rw [Upstream.handed, hrequest]⟩

theorem Repeats.getPeer (hu : Repeats request orig u) (hstage : u.stage = .connect) (world : World)
    (randomIp : Bytes) : ∃ v, QkPack.getPeer h world randomIp u = some v ∧ Repeats request orig v ∧
      v.written = u.written ∧ v.stage = .connect := by
  have hset : ∀ ip, Repeats request orig { u with cached := false, hasPeer := true, upstreamIp := ip } := fun _ =>
    ⟨hu.fanOut,hu.flag,hu.requestBuffer,hu.requestBufs,hu.unmarked,hu.buffer,hu.last⟩
  have hcounted : ∀ {v : Upstream} {hpTries attempts}, Repeats request orig v →
      Repeats request orig { v with hpTries := hpTries, attempts := attempts } := fun hv =>
    ⟨hv.fanOut,hv.flag,hv.requestBuffer,hv.requestBufs,hv.unmarked,hv.buffer,hv.last⟩
  unfold QkPack.getPeer
  by_cases hmany : u.hpTries > 50
  · simp only [if_pos hmany]
    exact ⟨_,rfl,hcounted (hset u.upstreamIp),rfl,hstage⟩
  · simp only [if_neg hmany]
    by_cases hpos : u.hpTries > 0
    · obtain ⟨v,hv,hrepeats,hwritten,hstage⟩ := (hset randomIp).reinit (h := h) hstage world
      simp only [if_pos hpos, updateNodes, if_neg (not_not.mpr hu.flag)]
      rw [hv]
      exact ⟨_,rfl,hcounted hrepeats,hwritten,hstage⟩
    · simp only [if_neg hpos]
      exact ⟨_,rfl,hcounted (hset u.upstreamIp),rfl,hstage⟩

theorem Repeats.upstreamNext (hu : Repeats request orig u) (conf : UpstreamConf) (ft : FtType) :
    Turned request orig u.written (QkPack.upstreamNext conf ft u) := by
  obtain ⟨hasPeer,peerTries,usTries,stage,hnext,rfl | rfl⟩ := upstreamNext_cases conf ft u
  · rw [hnext]
    exact ⟨fun _ => ⟨hu.fanOut,hu.flag,hu.requestBuffer,hu.requestBufs,hu.unmarked,fun hne => absurd rfl hne,nofun⟩,
      .inl rfl⟩
  · rw [hnext]
    exact ⟨fun hrunning => absurd ⟨_,rfl⟩ hrunning,.inl rfl⟩

theorem turned_finish {outcome : Outcome} : Turned request orig u.written (u.finish outcome) :=
  ⟨fun hrunning => absurd ⟨_,rfl⟩ hrunning,.inl rfl⟩

theorem Repeats.sendRequest (hu : Repeats request orig u) (hbuffer : u.request.code = .ok → u.buffer = []) :
    Turned request orig u.written (QkPack.sendRequest u) where
  repeats := fun _ => {
    fanOut := hu.fanOut
    flag := hu.flag
    requestBuffer := hu.requestBuffer
    requestBufs := hu.requestBufs
    unmarked := hu.unmarked
    buffer := fun _ => hbuffer
    last := fun _ => by simp [QkPack.sendRequest, hu.requestBufs] }
  written := .inr (by simp [QkPack.sendRequest, hu.requestBufs])

theorem Repeats.connected_eq (hu : Repeats request orig u) (horig : orig ≠ []) (result : ConnectResult) :
    QkPack.connected result u = if result = .again
      then { u with cached := decide (result = .cached), requestSent := false, buffer := [], stage := .connecting }
      else QkPack.sendRequest { u with cached := decide (result = .cached), requestSent := false, buffer := [] } := by
  have hcallback : (if u.requestSent = true then
      qkupstreamReinitRequest { u with cached := decide (result = .cached) }
        else some { u with cached := decide (result = .cached) }) =
      some { u with cached := decide (result = .cached) } := by
    simp [qkupstreamReinitRequest, hu.requestBuffer, horig, hu.flag]
  rw [connected, hcallback]

theorem Repeats.connected (hu : Repeats request orig u) (horig : orig ≠ []) (result : ConnectResult) :
    Turned request orig u.written (QkPack.connected result u) := by
  have hset : Repeats request orig { u with
      cached := decide (result = .cached), requestSent := false, buffer := [] } :=
    ⟨hu.fanOut,hu.flag,hu.requestBuffer,hu.requestBufs,hu.unmarked,fun _ _ => rfl,hu.last⟩
  rw [hu.connected_eq horig result]
  split
  · exact ⟨fun _ => ⟨hu.fanOut,hu.flag,hu.requestBuffer,hu.requestBufs,hu.unmarked,fun _ _ => rfl,nofun⟩,.inl rfl⟩
  · exact hset.sendRequest fun _ => rfl

theorem Repeats.turn (hu : Repeats request orig u) (horig : orig ≠ []) {e : Event} (he : e.silent = true)
    (hstep : step h conf u e = some v) : Turned request orig u.written v := by
  cases step_upstreamStep hstep with
  | noPeer _ => exact turned_finish
  | @connect world randomIp result w _ hstage hpeer hresult =>
    obtain ⟨w',hchosen,hrepeats,hwritten,-⟩ := hu.getPeer (h := h) hstage world randomIp
    cases hpeer.symm.trans hchosen
    have hturned : Turned request orig w.written v := by
      cases hresult with
      | error => exact turned_finish
      | busy _ =>
        have hfreed : Repeats request orig { w with hasPeer := false } :=
          ⟨hrepeats.fanOut,hrepeats.flag,hrepeats.requestBuffer,hrepeats.requestBufs,hrepeats.unmarked,
            hrepeats.buffer,hrepeats.last⟩
        exact hfreed.upstreamNext conf .nolive
      | declined => exact hrepeats.upstreamNext conf .error
      | connected _ => exact hrepeats.connected horig _
    exact ⟨hturned.repeats,hwritten ▸ hturned.written⟩
  | established hstage => exact hu.sendRequest (hu.buffer (by simp [hstage]))
  | failed _ _ => exact hu.upstreamNext conf _
  | read _ _ => cases he

theorem Repeats.marked_read (hu : Repeats request orig u) (hcode : u.request.code ≠ .ok) {world : World}
    {bytes : Bytes} (hstep : step h conf u (.read world bytes) = some v) :
    (¬ v.isDone → Repeats request orig v) ∧ v.written = u.written := by
  have hread : Repeats request orig { u with buffer := u.buffer ++ bytes } :=
    ⟨hu.fanOut,hu.flag,hu.requestBuffer,hu.requestBufs,fun hok => absurd hok hcode,fun _ hok => absurd hok hcode,
      hu.last⟩
  cases step_upstreamStep hstep with
  | failed _ hfailure => cases hfailure
  | read _ hheader =>
    refine ⟨?_,hheader.written⟩
    cases hheader with
    | waits => exact fun _ => hread
    | malformed => exact (hread.upstreamNext conf .invalidHeader).repeats
    | redirected hreplied hrc =>
      obtain ⟨response,-,hp⟩ := hreplied
      exact absurd (processReply_redirected hp hrc).1 hcode
    | broken _ => exact fun hrunning => absurd ⟨_,rfl⟩ hrunning
    | answered _ _ => exact fun hrunning => absurd ⟨_,rfl⟩ hrunning
    | refused _ => exact fun hrunning => absurd ⟨_,rfl⟩ hrunning

theorem step_silent_unanswered {e : Event} (he : e.silent = true) (hstep : step h conf u e = some v) :
    v.stage ≠ .done .response := by
  have hnext : ∀ ft w, (upstreamNext conf ft w).stage ≠ .done .response := by
    intro ft w
    obtain ⟨hasPeer,peerTries,usTries,stage,hnext,rfl | rfl⟩ := upstreamNext_cases conf ft w
    · rw [hnext]
      nofun
    · rw [hnext]
      nofun
  cases step_upstreamStep hstep with
  | noPeer _ => nofun
  | @connect _ _ result w _ _ _ hresult =>
    cases hresult with
    | error => nofun
    | busy _ => exact hnext _ _
    | declined => exact hnext _ _
    | connected _ =>
      rcases connected_cases (u := w) result with hdone | ⟨flag,bufs,hconnected⟩
      · rw [hdone]
        nofun
      · rw [hconnected]
        split
        · nofun
        · nofun
  | established _ => nofun
  | failed _ _ => exact hnext _ _
  | read _ _ => cases he

end Steps

end QkPack
