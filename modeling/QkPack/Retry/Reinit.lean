import QkPack.Retry.Asking

/-!
# The callback that prepares a request for another attempt

`ngx_http_upstream_connect` calls `ngx_http_qkupstream_reinit_request` when the request has been written
before. The callback knows what to do for three of the five values of the flag; it fails for `ASK`, which
is still there after fifty tries, and for `ASKING_END`, which nothing but the last try resets.
-/

namespace QkPack
open Wire CString Resp Relation

def ConnectResult.live : ConnectResult → Bool
  | .ok | .cached | .again => true
  | .declined | .busy | .error => false

section Callback

variable (h : Handler)

/-- The state in which `ngx_http_upstream_connect` calls the callback, if it does. -/
def callbackState (u : Upstream) : Event → Option Upstream
  | .connect world randomIp result =>
    if result.live then
      ((getPeer h world randomIp u).map fun v => { v with cached := decide (result = .cached) }).filter
        (·.requestSent)
    else none
  | _ => none

/-- Where the callback is called it returns `NGX_OK`. -/
def ReinitOk (u : Upstream) (e : Event) : Prop :=
  ∀ v ∈ callbackState h u e, (qkupstreamReinitRequest v).isSome = true

instance (u : Upstream) (e : Event) : Decidable (ReinitOk h u e) :=
  inferInstanceAs (Decidable (∀ v ∈ _, _))

/-- An attempt whose connection is there, or on its way, is made. -/
def GoesOn (conf : UpstreamConf) (u : Upstream) : Event → Prop
  | .connect world randomIp result => result.live = true →
      ∀ v ∈ upstreamConnect h conf world randomIp result u, v.stage = .connecting ∨ v.stage = .sent
  | _ => True

/-- Before a request that was written is connected again: the flag is `ASKING_END` only for the last
try, and `ASK` only while the module chooses the peers. -/
def Resumable (u : Upstream) : Event → Prop
  | .connect world randomIp result => result.live = true → u.requestSent = true →
      (u.movedAsk = .askingEnd → u.marks (.connect world randomIp result)) ∧
        (u.movedAsk = .ask → 0 < u.hpTries ∧ u.hpTries ≤ 50)
  | _ => True

instance (u : Upstream) : ∀ e, Decidable (Resumable u e)
  | .connect _ _ _ => inferInstanceAs (Decidable (_ → _ → (_ → _) ∧ (_ → _)))
  | .established | .refused | .timeout | .closed | .overflow | .read _ _ =>
    inferInstanceAs (Decidable True)

end Callback

section Flag

variable {h : Handler} {u v : Upstream}

def Upstream.flagAfterPeer (u : Upstream) : MovedAsk :=
  if 0 < u.hpTries ∧ u.hpTries ≤ 50 then
    if u.lastTry = true then .ok else if u.movedAsk = .ask then .asking else u.movedAsk
  else u.movedAsk

theorem getPeer_flag (world : World) (randomIp : Bytes) (hsub : checkSubRequest u.request = false)
    (hpeer : getPeer h world randomIp u = some v) : v.movedAsk = u.flagAfterPeer := by
  unfold getPeer at hpeer
  unfold Upstream.flagAfterPeer
  by_cases hmany : u.hpTries > 50
  · simp only [if_pos hmany, Option.some.injEq] at hpeer
    rw [← hpeer, if_neg (by omega)]
  · simp only [if_neg hmany] at hpeer
    by_cases hpos : u.hpTries > 0
    · rw [if_pos ⟨hpos,by omega⟩]
      have hreinit (ip : Bytes) {w : Upstream} (hw : processReinitRequest h world
            { u with cached := false, hasPeer := true, upstreamIp := ip } = some w) :
          w.movedAsk = if u.lastTry = true then .ok else if u.movedAsk = .ask then .asking
            else u.movedAsk := by
        rcases processReinitRequest_cases (h := h) world
            (u := { u with cached := false, hasPeer := true, upstreamIp := ip }) hsub with
          ⟨hlast,hv⟩ | ⟨hlast,hask,hv⟩ | ⟨hlast,hask,hv⟩
        · cases hv.symm.trans hw
          exact (if_pos hlast).symm
        · cases hv.symm.trans hw
          have hnot : ¬ u.lastTry = true := Bool.eq_false_iff.mp hlast
          exact ((if_neg hnot).trans (if_pos hask)).symm
        · cases hv.symm.trans hw
          have hnot : ¬ u.lastTry = true := Bool.eq_false_iff.mp hlast
          exact ((if_neg hnot).trans (if_neg hask)).symm
      simp only [if_pos hpos, updateNodes] at hpeer
      obtain ⟨w,hw,rfl⟩ := Option.map_eq_some_iff.mp hpeer
      split at hw
      · have hflag := hreinit u.upstreamIp hw
        exact hflag
      · have hflag := hreinit randomIp hw
        exact hflag
    · simp only [if_neg hpos, Option.map_some, Option.some.injEq] at hpeer
      rw [← hpeer, if_neg (by omega)]

theorem flagAfterPeer_iff : (u.flagAfterPeer ≠ .ask ∧ u.flagAfterPeer ≠ .askingEnd) ↔
    (u.movedAsk = .askingEnd → 0 < u.hpTries ∧ u.hpTries ≤ 50 ∧ u.lastTry = true) ∧
      (u.movedAsk = .ask → 0 < u.hpTries ∧ u.hpTries ≤ 50) := by
  unfold Upstream.flagAfterPeer
  by_cases hchosen : 0 < u.hpTries ∧ u.hpTries ≤ 50
  · rw [if_pos hchosen]
    cases u.lastTry with
    | true => simp [hchosen]
    | false => cases u.movedAsk <;> simp [hchosen]
  · have hnot : ¬ (0 < u.hpTries ∧ u.hpTries ≤ 50 ∧ u.lastTry = true) :=
      fun hall => hchosen ⟨hall.1,hall.2.1⟩
    rw [if_neg hchosen, iff_false_intro hnot, iff_false_intro hchosen]
    exact and_comm

theorem qkupstreamReinitRequest_isSome (hbuffer : u.requestBuffer ≠ []) :
    (qkupstreamReinitRequest u).isSome = true ↔ u.movedAsk ≠ .ask ∧ u.movedAsk ≠ .askingEnd := by
  rw [qkupstreamReinitRequest, if_neg hbuffer]
  cases u.movedAsk <;> simp

end Flag

section Runs

variable {h : Handler} {conf : UpstreamConf} {orig : Bytes} {u v : Upstream} {e : Event}

theorem Sound.buffer_ne_nil {w : Copies} (hs : Sound orig w) (horig : orig ≠ []) :
    w.requestBuffer ≠ [] := by
  rcases hs.buffer with hbuffer | hbuffer
  · rw [hbuffer]
    exact horig
  · rw [hbuffer]
    intro hnil
    exact horig (List.append_eq_nil_iff.mp hnil).2

theorem reinitOk_iff_resumable (hs : Sound orig u.copies) (horig : orig ≠ []) :
    ReinitOk h u e ↔ Resumable u e := by
  cases e with
  | connect world randomIp result =>
    obtain ⟨v,hv,-,hcopies⟩ := getPeer_copies (h := h) (fun _ => True) world randomIp hs.fanOut
      fun _ => trivial
    obtain ⟨w,hw,hchosen⟩ := getPeer_chosen (h := h) world randomIp hs.fanOut
    obtain rfl : v = w := Option.some.inj (hv.symm.trans hw)
    have hsent := hchosen.requestSent
    have hflag := getPeer_flag world randomIp hs.fanOut hv
    have hbuffer : v.requestBuffer ≠ [] := (hs.copySteps hcopies).buffer_ne_nil horig
    have hcalled : ReinitOk h u (.connect world randomIp result) ↔
        (result.live = true → u.requestSent = true →
          (qkupstreamReinitRequest { v with cached := decide (result = .cached) }).isSome = true) := by
      simp [ReinitOk, callbackState, hv, Option.filter, ← hsent]
    have hsome := qkupstreamReinitRequest_isSome
      (u := { v with cached := decide (result = .cached) }) hbuffer
    rw [hcalled, hsome, hflag, flagAfterPeer_iff]
    rfl
  | _ => exact iff_of_true (fun v hv => by cases hv) trivial

theorem connected_goesOn {result : ConnectResult}
    (hok : v.requestSent = true →
      (qkupstreamReinitRequest { v with cached := decide (result = .cached) }).isSome = true) :
    (connected result v).stage = .connecting ∨ (connected result v).stage = .sent := by
  unfold connected
  simp only
  split
  · rename_i hnone
    split at hnone
    · rename_i hsent
      have hfails := hok hsent
      rw [hnone] at hfails
      cases hfails
    · cases hnone
  · split
    · exact .inl rfl
    · exact .inr rfl

theorem ReinitOk.goesOn (hok : ReinitOk h u e) (hsub : checkSubRequest u.request = false) :
    GoesOn h conf u e := by
  cases e with
  | connect world randomIp result =>
    intro hlive v hv
    obtain ⟨w,hw,-⟩ := getPeer_chosen (h := h) world randomIp hsub
    have hcallback : w.requestSent = true →
        (qkupstreamReinitRequest { w with cached := decide (result = .cached) }).isSome = true := by
      intro hsent
      refine hok _ ?_
      simp [callbackState, hlive, hw, hsent]
    cases upstreamConnect_peerStep hw hv with
    | error | busy | declined => cases hlive
    | connected _ => exact connected_goesOn hcallback
  | _ => exact trivial

/-- Along a run the callback never fails, and every attempt that gets a connection is made, exactly if
every connect event meets the condition. -/
theorem reinit_ok_along_iff {request : Request} (hc : Created request) {es : List Event}
    (hrun : Machine.run (step h conf) (Upstream.start conf request) es = some u) :
    Machine.Along (step h conf) (fun u e => ReinitOk h u e ∧ GoesOn h conf u e)
        (Upstream.start conf request) es ↔
      Machine.Along (step h conf) Resumable (Upstream.start conf request) es := by
  refine Machine.along_iff_along runSound_step ?_ (runSound_start hc) hrun
  intro u e v hs hstep
  have hlive := hs.live (not_isDone_of_step hstep)
  rw [← reinitOk_iff_resumable (h := h) hlive hc.ne_nil]
  exact and_iff_left_of_imp fun hok => hok.goesOn hlive.fanOut

end Runs

theorem reinit_ok_along_redirected :
    ∃ u, Machine.run (step plainHandler (tableConf 3 3)) (Upstream.start (tableConf 3 3) (getRequest 3))
        askEvents = some u ∧
      Machine.Along (step plainHandler (tableConf 3 3))
        (fun u e => ReinitOk plainHandler u e ∧ GoesOn plainHandler (tableConf 3 3) u e)
        (Upstream.start (tableConf 3 3) (getRequest 3)) askEvents := by
  have hsome : (Machine.run (step plainHandler (tableConf 3 3))
      (Upstream.start (tableConf 3 3) (getRequest 3)) askEvents).isSome = true := by decide +kernel
  obtain ⟨u,hrun⟩ := Option.isSome_iff_exists.mp hsome
  exact ⟨u,hrun,(reinit_ok_along_iff (created_getRequest 3) hrun).mpr (by decide +kernel)⟩

/-- With four tries, the redirected request times out after `ASKING`. The attempt that follows is not
the last one; it gets its connection, and the callback ends the request with an internal error. -/
theorem reinit_aborts_after_ask :
    Created (getRequest 4) ∧
      ¬ Machine.Along (step plainHandler (tableConf 4 4)) (ReinitOk plainHandler)
        (Upstream.start (tableConf 4 4) (getRequest 4))
        (askEvents ++ [.timeout,.connect emptyWorld [] .ok]) ∧
      (Machine.run (step plainHandler (tableConf 4 4)) (Upstream.start (tableConf 4 4) (getRequest 4))
        (askEvents ++ [.timeout,.connect emptyWorld [] .ok])).map
          (fun u => (u.stage,u.movedAsk,u.hpTries)) =
        some (.done .internalError,.askingEnd,3) :=
  ⟨created_getRequest 4,by decide +kernel,by decide +kernel⟩

end QkPack
