import QkPack.Retry.Asking

/-!
# What is sent for a request that has failed

When `ReinitRequest` gives a request up it turns `proto_str` into `PING`, but `u->request_bufs` is not
built again: what is written after that is still the command the request was created with.
-/

namespace QkPack
open Wire CString Resp Relation

/-- The event leaves the request with a connection to write to. -/
def Event.connects : Event → Bool
  | .connect _ _ result => result == .ok || result == .cached
  | .established => true
  | _ => false

/-- No connection is obtained once the request has been marked as failed, nor with the event that marks
it. -/
def QuietWhenFailed (u : Upstream) (e : Event) : Prop :=
  e.connects = true → u.request.code ≠ .timeout5xx ∧ ¬ u.marks e

instance (u : Upstream) (e : Event) : Decidable (QuietWhenFailed u e) :=
  inferInstanceAs (Decidable (_ → _ ∧ _))

section Writes

variable {h : Handler} {conf : UpstreamConf} {u v : Upstream} {e : Event}

theorem upstreamNext_written (ft : FtType) : (upstreamNext conf ft u).written = u.written := by
  obtain ⟨hasPeer,peerTries,usTries,stage,hnext,-⟩ := upstreamNext_cases conf ft u
  rw [hnext]

theorem getPeer_written {world : World} {randomIp : Bytes}
    (hv : getPeer h world randomIp u = some v) : v.written = u.written := by
  have hreinit : ∀ w w', processReinitRequest h world w = some w' → w'.written = w.written := by
    intro w w' hw
    unfold processReinitRequest at hw
    simp only at hw
    split at hw
    · cases hw
      rfl
    · cases hw
  unfold getPeer at hv
  simp only at hv
  split at hv
  · cases hv
    rfl
  · obtain ⟨w,hw,rfl⟩ := Option.map_eq_some_iff.mp hv
    split at hw
    · unfold updateNodes at hw
      split at hw
      · have hsame := hreinit _ _ hw
        exact hsame
      · have hsame := hreinit _ _ hw
        exact hsame
    · cases hw
      rfl

theorem connected_writes (result : ConnectResult) :
    if result = .again then (connected result u).written = u.written
    else (connected result u).isDone ∧ (connected result u).written = u.written ∨
      (connected result u).stage = .sent ∧ (connected result u).written =
        u.written ++ [((connected result u).request.code,(connected result u).requestBufs)] := by
  rcases connected_cases (u := u) result with hdone | ⟨flag,bufs,hconnected⟩
  · rw [hdone]
    split
    · rfl
    · exact .inl ⟨⟨_,rfl⟩,rfl⟩
  · rw [hconnected]
    split
    · rfl
    · exact .inr ⟨rfl,rfl⟩

theorem HeaderStep.written {world : World} {bytes : Bytes} (hread : HeaderStep h conf world bytes u v) :
    v.written = u.written := by
  cases hread with
  | waits => rfl
  | malformed => exact upstreamNext_written _
  | broken _ => rfl
  | redirected _ _ => exact upstreamNext_written _
  | answered _ _ => rfl
  | refused _ => rfl

theorem not_connects_of_failure {ft : FtType} (h : e.failure = some ft) : e.connects ≠ true := by
  cases e with
  | connect | established | read => cases h
  | refused | timeout | closed | overflow => exact Bool.false_ne_true

theorem step_writes (hstep : step h conf u e = some v) :
    (e.connects = true → v.isDone) ∧ v.written = u.written ∨
      e.connects = true ∧ v.stage = .sent ∧
        v.written = u.written ++ [(v.request.code,v.requestBufs)] := by
  cases step_upstreamStep hstep with
  | noPeer _ => exact .inl ⟨fun _ => ⟨_,rfl⟩,rfl⟩
  | @connect _ _ result w _ _ hpeer hresult =>
    have hwritten := getPeer_written hpeer
    cases hresult with
    | error => exact .inl ⟨nofun,hwritten⟩
    | busy _ => exact .inl ⟨nofun,(upstreamNext_written _).trans hwritten⟩
    | declined => exact .inl ⟨nofun,(upstreamNext_written _).trans hwritten⟩
    | connected hresult =>
      have hconn := connected_writes (u := w) result
      rw [← hwritten]
      rcases hresult with rfl | rfl | rfl
      · exact hconn.imp (fun hd => ⟨fun _ => hd.1,hd.2⟩) fun hsent => ⟨rfl,hsent⟩
      · exact hconn.imp (fun hd => ⟨fun _ => hd.1,hd.2⟩) fun hsent => ⟨rfl,hsent⟩
      · exact .inl ⟨nofun,hconn⟩
  | established _ => exact .inr ⟨rfl,rfl,rfl⟩
  | failed _ hfailure =>
    exact .inl ⟨fun hconn => absurd hconn (not_connects_of_failure hfailure),upstreamNext_written _⟩
  | read _ hread => exact .inl ⟨nofun,hread.written⟩

end Writes

section Codes

variable {h : Handler} {conf : UpstreamConf} {orig : Bytes} {u v : Upstream} {e : Event}
  {marks : Copies → Prop} {w w' : Copies}

theorem copySteps_timeout (hsteps : ReflTransGen (CopyStep marks) w w') (hw : w.code = .timeout5xx) :
    w'.code = .timeout5xx := by
  induction hsteps with
  | refl => exact hw
  | tail _ hstep ih =>
    cases hstep with
    | mark h => rfl
    | ask h => exact ih
    | refresh h => exact ih
    | moved h => exact ih
    | asking h => exact ih
    | redirect flag hcode hold hnew => exact ih

theorem copySteps_code (hsteps : ReflTransGen (CopyStep marks) w w') (hmarks : ∀ w, ¬ marks w) :
    w'.code = w.code := by
  induction hsteps with
  | refl => rfl
  | tail _ hstep ih =>
    cases hstep with
    | mark h => exact absurd h (hmarks _)
    | ask h => exact ih
    | refresh h => exact ih
    | moved h => exact ih
    | asking h => exact ih
    | redirect flag hcode hold hnew => exact ih

theorem getPeer_marks {world : World} {randomIp : Bytes} (hsub : checkSubRequest u.request = false)
    (hmarks : 0 < u.hpTries ∧ u.hpTries ≤ 50 ∧ u.lastTry = true)
    (hv : getPeer h world randomIp u = some v) : v.request.code = .timeout5xx := by
  obtain ⟨w,hw,hchosen⟩ := getPeer_chosen (h := h) world randomIp hsub
  cases hw.symm.trans hv
  exact (hchosen.marked hmarks.1 hmarks.2.1 hmarks.2.2).2

theorem step_unmarked (hsub : checkSubRequest u.request = false) (hmarks : ¬ u.marks e)
    (hstep : step h conf u e = some v) (hlive : ¬ v.isDone) : v.request.code = u.request.code := by
  rcases step_copies hsub hstep with hdone | hcopies
  · exact absurd hdone.1 hlive
  · exact copySteps_code hcopies fun w hw => hmarks hw.2

theorem failed_step_writes (hs : RunSound orig u) (horig : orig ≠ []) (hconn : e.connects = true)
    (hfailed : u.request.code = .timeout5xx ∨ u.marks e) (hstep : step h conf u e = some v) :
    v.stage = .sent ∧ v.request.code = .timeout5xx := by
  have hu := hs.live (not_isDone_of_step hstep)
  cases step_upstreamStep hstep with
  | @noPeer world randomIp _ hpeer =>
    obtain ⟨w,hchosen,-⟩ := getPeer_chosen (h := h) world randomIp hu.fanOut
    cases hpeer.symm.trans hchosen
  | @connect world randomIp _ w _ _ hpeer hresult =>
    obtain ⟨w',hchosen,-,hcopies⟩ := getPeer_copies (h := h) (fun _ => True) world randomIp hu.fanOut
      fun _ => trivial
    cases hpeer.symm.trans hchosen
    have hw := hu.copySteps hcopies
    have hcode : w.request.code = .timeout5xx := by
      rcases hfailed with hcode | hmarks
      · exact copySteps_timeout hcopies hcode
      · exact getPeer_marks hu.fanOut hmarks hpeer
    have hflag : w.movedAsk = .ok := hw.marked hcode
    have hbuffer : w.requestBuffer ≠ [] := by
      have hframe : askingFrame ≠ [] := by decide
      intro hnil
      rcases hw.buffer with hb | hb
      · exact horig (hb.symm.trans hnil)
      · exact hframe (List.append_eq_nil_iff.mp (hb.symm.trans hnil)).1
    have hsend (r : ConnectResult) (hr : r ≠ .again) :
        (connected r w).stage = .sent ∧ (connected r w).request.code = .timeout5xx := by
      simp only [connected, qkupstreamReinitRequest, if_neg hbuffer, hflag, ite_self, if_neg hr]
      exact ⟨rfl,hcode⟩
    cases hresult with
    | error => cases hconn
    | busy _ => cases hconn
    | declined => cases hconn
    | connected hresult =>
      rcases hresult with rfl | rfl | rfl
      · exact hsend _ nofun
      · exact hsend _ nofun
      · cases hconn
  | established _ =>
    rcases hfailed with hcode | hmarks
    · exact ⟨rfl,hcode⟩
    · cases hmarks
  | failed _ hfailure => exact absurd hconn (not_connects_of_failure hfailure)
  | read _ _ => cases hconn

end Codes

section Runs

variable {h : Handler} {conf : UpstreamConf} {orig : Bytes} {u v : Upstream} {e : Event}

theorem run_written {es : List Event} (hrun : Machine.run (step h conf) u es = some v) :
    u.written <+: v.written := by
  refine Machine.always_run (I := fun w => u.written <+: w.written) ?_ List.prefix_rfl hrun
  intro w e w' hw hstep
  rcases step_writes hstep with ⟨-,hsame⟩ | ⟨-,-,hmore⟩
  · rw [hsame]
    exact hw
  · rw [hmore]
    exact hw.trans (List.prefix_append _ _)

/-- A request that was created with an error is `PING` from the start: no reply redirects it. -/
structure PingOnly (orig : Bytes) (w : Copies) : Prop where
  fanOut : w.fanOut = false
  flag : w.flag = .ok
  code : w.code ≠ .ok
  bufs : w.requestBufs = orig

theorem PingOnly.copySteps {marks : Copies → Prop} {w w' : Copies} (hw : PingOnly orig w)
    (hsteps : ReflTransGen (CopyStep marks) w w') : PingOnly orig w' := by
  induction hsteps with
  | refl => exact hw
  | tail _ hstep ih =>
    cases hstep with
    | mark h => exact ⟨ih.fanOut,rfl,nofun,ih.bufs⟩
    | ask h => exact absurd (ih.flag.symm.trans h) nofun
    | refresh h => exact absurd (ih.flag.symm.trans h) nofun
    | moved h => exact absurd (ih.flag.symm.trans h) nofun
    | asking h => exact absurd (ih.flag.symm.trans h) nofun
    | redirect flag hcode hold hnew => exact absurd hcode ih.code

theorem written_of_error {request : Request} {es : List Event} (hc : Created request)
    (herror : request.code ≠ .ok)
    (hrun : Machine.run (step h conf) (Upstream.start conf request) es = some u) :
    ∀ entry ∈ u.written, entry.2 = request.protoStr := by
  refine (Machine.always_run (I := fun w => (∀ entry ∈ w.written, entry.2 = request.protoStr) ∧
    (¬ w.isDone → PingOnly request.protoStr w.copies)) ?_
      ⟨nofun,fun _ => ⟨hc.single,rfl,herror,rfl⟩⟩ hrun).1
  rintro w e w' ⟨hwritten,hping⟩ hstep
  have hw := hping (not_isDone_of_step hstep)
  have hw' : ¬ w'.isDone → PingOnly request.protoStr w'.copies := by
    intro hlive
    rcases step_copies hw.fanOut hstep with hdone | hcopies
    · exact absurd hdone.1 hlive
    · exact hw.copySteps hcopies
  refine ⟨?_,hw'⟩
  rcases step_writes hstep with ⟨-,hsame⟩ | ⟨-,hsent,hmore⟩
  · rwa [hsame]
  · rw [hmore]
    intro entry hentry
    rcases List.mem_append.mp hentry with hold | hnew
    · exact hwritten entry hold
    · cases List.mem_singleton.mp hnew
      exact (hw' (not_isDone_of_sent hsent)).bufs

theorem written_of_quiet {request : Request} {es : List Event} (hc : Created request)
    (hquiet : Machine.Along (step h conf) QuietWhenFailed (Upstream.start conf request) es)
    (hrun : Machine.run (step h conf) (Upstream.start conf request) es = some u) :
    ∀ entry ∈ u.written, entry.1 ≠ .timeout5xx := by
  refine (Machine.invariant_run (I := fun w => (∀ entry ∈ w.written, entry.1 ≠ .timeout5xx) ∧
    RunSound request.protoStr w) ?_ ⟨nofun,runSound_start hc⟩ hquiet hrun).1
  rintro w e w' ⟨hwritten,hsound⟩ hquiet hstep
  refine ⟨?_,runSound_step hsound hstep⟩
  rcases step_writes hstep with ⟨-,hsame⟩ | ⟨hconn,hsent,hmore⟩
  · rwa [hsame]
  · obtain ⟨hcode,hmarks⟩ := hquiet hconn
    have hfanOut := (hsound.live (not_isDone_of_step hstep)).fanOut
    rw [hmore]
    intro entry hentry
    rcases List.mem_append.mp hentry with hold | hnew
    · exact hwritten entry hold
    · cases List.mem_singleton.mp hnew
      rwa [step_unmarked hfanOut hmarks hstep (not_isDone_of_sent hsent)]

theorem Created.ne_ping {request : Request} (hc : Created request) (hcode : request.code = .ok)
    {bufs : Bytes} (hbufs : bufs = request.protoStr ∨ bufs = askingFrame ++ request.protoStr) :
    bufs ≠ pingFrame := by
  have hframe := hc.frame
  rw [if_pos hcode] at hframe
  rcases hbufs with rfl | rfl
  · exact hframe.ne_ping
  · intro hping
    exact pingFrame_not_asking (hping ▸ List.prefix_append _ _)

/-- Whatever is written for a request marked as failed is `PING` exactly if nothing is written for it,
or if the request was created with an error. -/
theorem failed_sends_ping_iff {request : Request} (hc : Created request) {es : List Event}
    (hrun : Machine.run (step h conf) (Upstream.start conf request) es = some u) :
    (∀ entry ∈ u.written, entry.1 = .timeout5xx → entry.2 = pingFrame) ↔
      request.code ≠ .ok ∨
        Machine.Along (step h conf) QuietWhenFailed (Upstream.start conf request) es := by
  constructor
  · intro hping
    by_contra hnot
    obtain ⟨hcode,hloud⟩ := not_or.mp hnot
    -- the first connection after the mark writes the command that was there before
    obtain ⟨pre,e,post,u₁,u₂,rfl,hpre,hstep,hpost,hbreak⟩ := Machine.exists_of_not_along hrun hloud
    obtain ⟨hconn,hfailed⟩ := Classical.not_imp.mp hbreak
    have hfailed : u₁.request.code = .timeout5xx ∨ u₁.marks e := by
      rcases not_and_or.mp hfailed with hcode | hmarks
      · exact .inl (not_not.mp hcode)
      · exact .inr (not_not.mp hmarks)
    have hstart : RunSound request.protoStr (Upstream.start conf request) := runSound_start hc
    have hsound := Machine.always_run runSound_step hstart hpre
    obtain ⟨hsent,htimeout⟩ := failed_step_writes hsound hc.ne_nil hconn hfailed hstep
    rcases step_writes hstep with ⟨hdone,-⟩ | ⟨-,-,hmore⟩
    · exact not_isDone_of_sent hsent (hdone hconn)
    · have hentry : (u₂.request.code,u₂.requestBufs) ∈ u.written := by
        refine (run_written hpost).subset ?_
        rw [hmore]
        exact List.mem_append_right _ (List.mem_singleton.mpr rfl)
      exact hc.ne_ping (not_not.mp hcode) (runSound_step hsound hstep).bufs (hping _ hentry htimeout)
  · rintro (herror | hquiet) entry hentry hcode
    · have hframe := hc.frame
      rw [if_neg herror] at hframe
      exact (written_of_error hc herror hrun entry hentry).trans hframe
    · exact absurd hcode (written_of_quiet hc hquiet hrun entry hentry)

end Runs

/-- The backup server refuses the connection of the last try. -/
theorem failed_sends_ping_iff_refused :
    ∃ u, Machine.run (step plainHandler (tableConf 2 2)) (Upstream.start (tableConf 2 2) (getRequest 2))
        [.connect emptyWorld [] .ok,.timeout,.connect emptyWorld [] .declined] = some u ∧
      u.request.code = .timeout5xx ∧
        ∀ entry ∈ u.written, entry.1 = .timeout5xx → entry.2 = pingFrame := by
  have hcode : (Machine.run (step plainHandler (tableConf 2 2))
      (Upstream.start (tableConf 2 2) (getRequest 2))
        [.connect emptyWorld [] .ok,.timeout,.connect emptyWorld [] .declined]).map (·.request.code) =
      some .timeout5xx := by
    decide +kernel
  obtain ⟨u,hrun,hfailed⟩ := Option.map_eq_some_iff.mp hcode
  refine ⟨u,hrun,hfailed,?_⟩
  exact (failed_sends_ping_iff (created_getRequest 2) hrun).mpr (.inr (by decide +kernel))

/-- With two tries the first connection times out, the request is marked, and the backup server is sent
the command itself. -/
theorem failed_sends_command :
    Created (getRequest 2) ∧
      (Machine.run (step plainHandler (tableConf 2 2)) (Upstream.start (tableConf 2 2) (getRequest 2))
        [.connect emptyWorld [] .ok,.timeout,.connect emptyWorld [] .ok]).map (·.written) =
        some [(.ok,(getRequest 2).protoStr),(.timeout5xx,(getRequest 2).protoStr)] ∧
      (getRequest 2).protoStr ≠ pingFrame :=
  ⟨created_getRequest 2,by decide +kernel,by decide +kernel⟩

end QkPack
