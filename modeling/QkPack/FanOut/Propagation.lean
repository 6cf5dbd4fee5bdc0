import QkPack.FanOut.Writes
import QkPack.Retry.Asking

/-!
# Errors of sub-requests and the code of the response

A sub-request that fails is reported to the client only through the code of its parent. An error reply,
a reply that cannot be decoded, and a sub-request that nginx gives up leave that code as it was, or reset
it; every other failure is reported.
-/

namespace QkPack
open Wire CString Resp

/-- The sub-request has received a reply that is not an error. -/
def Upstream.Answered (u : Upstream) : Prop :=
  u.stage = .done .response ∧ u.request.code = .ok ∧
    u.request.responseBuffer.head? ∈ [some 43,some 58,some 36,some 42]

def Sub.Answered : Sub → Prop
  | .running u => u.Answered
  | _ => False

instance : ∀ sub : Sub, Decidable sub.Answered
  | .running _ => inferInstanceAs (Decidable (_ ∧ _ ∧ _))
  | .pending _ | .failed => inferInstanceAs (Decidable False)

/-- A reply that the decoder accepts, and that is no error line other than a redirection. -/
def Upstream.Legible (h : Handler) (u : Upstream) (parent : Request) : Event → Prop
  | .read world bytes => ∀ response d,
      (headerCheck u.movedAsk (u.buffer ++ bytes)).response = some response →
        redisProtoDecode h.proto world.stack world.shared.scripts (some parent)
          { u.request with responseBuffer := response, movedAsk := u.movedAsk } = .ok d →
          d.rc ≠ .error ∧ (d.rc = .ok → response.head? ≠ some 45)
  | _ => True

instance (h : Handler) (u : Upstream) (parent : Request) : ∀ e, Decidable (u.Legible h parent e)
  | .read world bytes =>
    match hresp : (headerCheck u.movedAsk (u.buffer ++ bytes)).response with
    | none => isTrue fun response d h => by cases hresp.symm.trans h
    | some response =>
      match hd : redisProtoDecode h.proto world.stack world.shared.scripts (some parent)
        { u.request with responseBuffer := response, movedAsk := u.movedAsk } with
      | .error fault => isTrue fun response d h => by
        cases hresp.symm.trans h
        intro hd'
        cases hd.symm.trans hd'
      | .ok d => decidable_of_iff (d.rc ≠ .error ∧ (d.rc = .ok → response.head? ≠ some 45))
        ⟨fun hlegible response d h => by
          cases hresp.symm.trans h
          intro hd'
          cases hd.symm.trans hd'
          exact hlegible,fun hlegible => hlegible response d hresp hd⟩
  | .connect _ _ _ | .established | .refused | .timeout | .closed | .overflow =>
    inferInstanceAs (Decidable True)

/-- An upstream failure: nginx ends the request without a response. -/
def Upstream.FailsOn (h : Handler) (conf : UpstreamConf) (u : Upstream) (e : Event) : Prop :=
  ∃ v, step h conf u e = some v ∧ v.isDone ∧ v.stage ≠ .done .response

instance (h : Handler) (conf : UpstreamConf) (u : Upstream) (e : Event) :
    Decidable (u.FailsOn h conf e) :=
  match hv : step h conf u e with
  | none => isFalse fun ⟨v,hv',_⟩ => by cases hv.symm.trans hv'
  | some v => decidable_of_iff (v.isDone ∧ v.stage ≠ .done .response)
    ⟨fun hfails => ⟨v,hv,hfails⟩,fun ⟨v',hv',hfails⟩ => by
      cases hv.symm.trans hv'
      exact hfails⟩

/-- As long as `ReinitRequest` has not marked a sub-request, its replies are legible and its upstream does
not fail. -/
def Reported (h : Handler) (conf : UpstreamConf) (s : FanOut) : FanEvent → Prop
  | .sub i e => ∀ u, s.subs[i]? = some (.running u) → u.request.code = .ok →
      u.Legible h s.parent.request e ∧
        (¬ u.marks e → ¬ u.FailsOn h conf (e.under s.parent.request))
  | _ => True

instance (h : Handler) (conf : UpstreamConf) (s : FanOut) : ∀ e, Decidable (Reported h conf s e)
  | .sub i e =>
    match hu : s.subs[i]? with
    | some (.running u) => decidable_of_iff (u.request.code = .ok →
        u.Legible h s.parent.request e ∧
          (¬ u.marks e → ¬ u.FailsOn h conf (e.under s.parent.request)))
      ⟨fun hreported u' hu' => by
        cases hu.symm.trans hu'
        exact hreported,fun hreported => hreported u hu⟩
    | some (.pending _) | some .failed | none => isTrue fun u hu' => by cases hu.symm.trans hu'
  | .create _ _ _ _ | .post => inferInstanceAs (Decidable True)

/-- What an event does to a sub-request and to the code of its parent: no code is reset, and a code that
stays absent means that nothing has gone wrong. -/
structure SubStep (u v : Upstream) (parent parent' : Request) : Prop where
  live : ¬ v.isDone → v.request.isSubrequest = true
  kept : parent'.code = .ok → parent.code = .ok
  clean : parent'.code = .ok → u.request.code = .ok →
    v.request.code = .ok ∧ (v.isDone → v.Answered)

section Steps

variable {h : Handler} {conf : UpstreamConf} {u v : Upstream} {parent parent' : Request}

theorem SubStep.of_unanswered (hsub : v.request.isSubrequest = true)
    (hcode : v.request.code = u.request.code) (hparent : parent'.code = parent.code)
    (hstage : v.stage ≠ .done .response)
    (hends : u.request.code = .ok → v.isDone → v.stage = .done .response) :
    SubStep u v parent parent' where
  live _ := hsub
  kept hok := hparent.symm.trans hok
  clean _ hok := ⟨hcode.trans hok,fun hdone => absurd (hends hok hdone) hstage⟩

theorem upstreamNext_unanswered (conf : UpstreamConf) (ft : FtType) (u : Upstream) :
    (upstreamNext conf ft u).request = u.request ∧
      (upstreamNext conf ft u).stage ≠ .done .response := by
  obtain ⟨hasPeer,peerTries,usTries,stage,hnext,hstage⟩ := upstreamNext_cases conf ft u
  rw [hnext]
  refine ⟨rfl,?_⟩
  rcases hstage with rfl | rfl
  · nofun
  · nofun

theorem connected_unanswered (result : ConnectResult) :
    (connected result u).request = u.request ∧ (connected result u).stage ≠ .done .response := by
  rcases connected_cases (u := u) result with hdone | ⟨flag,bufs,hconnected⟩
  · rw [hdone]
    exact ⟨rfl,nofun⟩
  · rw [hconnected]
    split
    · exact ⟨rfl,nofun⟩
    · exact ⟨rfl,nofun⟩

theorem upstreamConnect_unanswered {world : World} {randomIp : Bytes} {result : ConnectResult}
    {w : Upstream} (hw : getPeer h world randomIp u = some w)
    (hv : upstreamConnect h conf world randomIp result u = some v) :
    v.request = w.request ∧ v.stage ≠ .done .response := by
  cases upstreamConnect_peerStep hw hv with
  | error => exact ⟨rfl,nofun⟩
  | busy _ => exact upstreamNext_unanswered _ _ _
  | declined => exact upstreamNext_unanswered _ _ _
  | connected _ => exact connected_unanswered _

theorem subStep_connect {world : World} {randomIp : Bytes} {result : ConnectResult}
    (hsub : u.request.isSubrequest = true)
    (hends : u.request.code = .ok → ¬ u.marks (.connect world randomIp result) →
      v.isDone → v.stage = .done .response)
    (hv : upstreamConnect h conf { world with parent := some parent } randomIp result u = some v) :
    SubStep u v parent (u.parentAfter h parent (.connect world randomIp result)) := by
  have hfan : checkSubRequest u.request = false := by simp [checkSubRequest, hsub]
  have hparent := parentAfter_connect (h := h) parent world randomIp result hfan
  obtain ⟨w,hw,hchosen⟩ := getPeer_chosen (h := h) { world with parent := some parent } randomIp hfan
  obtain ⟨hrequest,hstage⟩ := upstreamConnect_unanswered hw hv
  have hvsub : v.request.isSubrequest = true := by
    rw [hrequest, hchosen.isSubrequest, hsub]
  by_cases hmarks : u.marks (.connect world randomIp result)
  · rw [if_pos hmarks] at hparent
    have hne : (u.parentAfter h parent (.connect world randomIp result)).code ≠ .ok := by
      rw [hparent]
      decide
    exact ⟨fun _ => hvsub,fun hok => absurd hok hne,fun hok => absurd hok hne⟩
  · rw [if_neg hmarks] at hparent
    refine .of_unanswered hvsub ?_ hparent hstage fun hok => hends hok hmarks
    rw [hrequest]
    exact hchosen.unmarked hmarks

/-- The code that is written is absent only if a reply to a request without a code was not decoded. -/
theorem code_ne_ok_of_givenUp {stack : Nat → Bytes} {scripts : ScriptCache} {parent : Option Request}
    {request r : Request} {d : Decoded} (hd : redisProtoDecode h.proto stack scripts parent request = .ok d)
    (hlegible : request.code = .ok → d.rc ≠ .error) (hr : r.code = .ok → d.rc = .error ∧ d.request.code = .ok) :
    r.code ≠ .ok := by
  intro hrok
  obtain ⟨herror,hdok⟩ := hr hrok
  by_cases hcode : request.code = .ok
  · exact hlegible hcode herror
  · rw [redisProtoDecode_coded hcode] at hd
    cases hd
    exact hcode hdok

theorem subStep_reply {world : World} {bytes response : Bytes} (hsub : u.request.isSubrequest = true)
    (hlegible : u.request.code = .ok → u.Legible h parent (.read world bytes))
    (hends : u.request.code = .ok → v.isDone → v.stage = .done .response)
    (hresp : (headerCheck u.movedAsk (u.buffer ++ bytes)).response = some response)
    (hv : processResponse h conf { world with parent := some parent } response
      { u with buffer := u.buffer ++ bytes } = v) :
    SubStep u v parent (u.parentAfter h parent (.read world bytes)) := by
  have hafter : u.parentAfter h parent (.read world bytes) = repliedParent h world parent
      { u.request with responseBuffer := response, movedAsk := u.movedAsk } := by
    simp only [Upstream.parentAfter, hresp]
  have hsub' : ({ u.request with responseBuffer := response, movedAsk := u.movedAsk } :
      Request).isSubrequest = true := hsub
  simp only [processResponse] at hv
  rw [hafter, repliedParent]
  cases hp : processReply h world.stack world.shared (some parent)
      { u.request with responseBuffer := response, movedAsk := u.movedAsk } with
  | error fault =>
    simp only [hp] at hv ⊢
    subst hv
    exact .of_unanswered hsub rfl rfl nofun hends
  | ok p =>
    simp only [hp] at hv ⊢
    obtain ⟨d,hd,hend⟩ := processReply_sub hsub' hp
    have hkeeps := redisProtoDecode_keeps hd
    obtain ⟨dparent,hdparent,hdcode⟩ := Option.map_eq_some_iff.mp hkeeps.parent
    cases hend with
    | taken hdecoded hrc hrequest hparent =>
      simp only [hrc] at hv
      subst hv
      rw [hparent, hdparent, Option.getD_some]
      refine ⟨fun hlive => absurd ⟨_,rfl⟩ hlive,fun hok => hdcode.symm.trans hok,fun _ hcode => ?_⟩
      have hline := (hlegible hcode response d hresp hd).2 hdecoded
      obtain ⟨hdok,hhead⟩ := hkeeps.reply hdecoded hline
      have hpok : p.request.code = .ok := by
        rw [hrequest, hdok]
        exact hcode
      refine ⟨hpok,fun _ => ⟨rfl,hpok,?_⟩⟩
      change p.request.responseBuffer.head? ∈ _
      rw [hrequest, hkeeps.responseBuffer]
      exact hhead
    | givenUp r hrcode hrc hrequest hparent =>
      have hne : (p.parent.getD parent).code ≠ .ok := by
        rw [hparent, hdparent]
        exact code_ne_ok_of_givenUp hd (fun hcode => (hlegible hcode response d hresp hd).1) hrcode
      simp only [hrc] at hv
      subst hv
      exact ⟨fun hlive => absurd ⟨_,rfl⟩ hlive,fun hok => absurd hok hne,fun hok => absurd hok hne⟩
    | redirected hrc hparent =>
      obtain ⟨hcode,-,-,hrest⟩ := processReply_redirected hp hrc
      simp only [hrc] at hv
      subst hv
      obtain ⟨hrequest,hstage⟩ := upstreamNext_unanswered conf .invalidHeader { u with
        buffer := u.buffer ++ bytes, request := p.request, upstreamIp := p.request.nodeIp
        movedAsk := p.request.movedAsk }
      refine .of_unanswered ?_ ?_ ?_ hstage hends
      · rw [hrequest, hrest]
        exact hsub
      · rw [hrequest, hrest]
      · rw [hparent, hdparent]
        exact hdcode

theorem subStep_read {world : World} {bytes : Bytes} (hsub : u.request.isSubrequest = true)
    (hsent : u.stage = .sent) (hlegible : u.request.code = .ok → u.Legible h parent (.read world bytes))
    (hends : u.request.code = .ok → v.isDone → v.stage = .done .response)
    (hv : processHeader h conf { world with parent := some parent } bytes u = v) :
    SubStep u v parent (u.parentAfter h parent (.read world bytes)) := by
  simp only [processHeader] at hv
  cases hresp : (headerCheck u.movedAsk (u.buffer ++ bytes)).response with
  | some response =>
    simp only [hresp] at hv
    exact subStep_reply hsub hlegible hends hresp hv
  | none =>
    have hafter : u.parentAfter h parent (.read world bytes) = parent := by
      simp only [Upstream.parentAfter, hresp]
    simp only [hresp] at hv
    rw [hafter]
    split at hv
    · subst hv
      refine .of_unanswered hsub rfl rfl ?_ hends
      intro hstage
      cases hsent.symm.trans hstage
    · obtain ⟨hrequest,hstage⟩ := upstreamNext_unanswered conf .invalidHeader
        { u with buffer := u.buffer ++ bytes }
      subst hv
      refine .of_unanswered ?_ ?_ rfl hstage hends
      · rw [hrequest]
        exact hsub
      · rw [hrequest]
    · subst hv
      exact .of_unanswered hsub rfl rfl nofun hends

theorem subStep_next (ft : FtType) (hsub : u.request.isSubrequest = true)
    (hends : u.request.code = .ok → v.isDone → v.stage = .done .response)
    (hv : upstreamNext conf ft u = v) : SubStep u v parent parent := by
  obtain ⟨hrequest,hstage⟩ := upstreamNext_unanswered conf ft u
  subst hv
  refine .of_unanswered ?_ ?_ rfl hstage hends
  · rw [hrequest]
    exact hsub
  · rw [hrequest]

theorem subStep_step {e : Event} (hsub : u.request.isSubrequest = true)
    (hlegible : u.request.code = .ok → u.Legible h parent e)
    (hends : u.request.code = .ok → ¬ u.marks e → v.isDone → v.stage = .done .response)
    (hstep : step h conf u (e.under parent) = some v) :
    SubStep u v parent (u.parentAfter h parent e) := by
  generalize he : e.under parent = e' at hstep
  unfold step at hstep
  split at hstep
  · cases e <;> cases he
    exact subStep_connect hsub hends hstep
  · cases e <;> cases he
    cases hstep
    exact .of_unanswered hsub rfl rfl nofun fun hok => hends hok nofun
  · cases e <;> cases he
    exact subStep_next .error hsub (fun hok => hends hok nofun) (Option.some.inj hstep)
  · cases e <;> cases he
    exact subStep_next .timeout hsub (fun hok => hends hok nofun) (Option.some.inj hstep)
  · cases e <;> cases he
    exact subStep_next .timeout hsub (fun hok => hends hok nofun) (Option.some.inj hstep)
  · cases e <;> cases he
    exact subStep_next .error hsub (fun hok => hends hok nofun) (Option.some.inj hstep)
  · cases e <;> cases he
    exact subStep_next .invalidHeader hsub (fun hok => hends hok nofun) (Option.some.inj hstep)
  · rename_i hsent
    cases e <;> cases he
    exact subStep_read hsub hsent hlegible (fun hok => hends hok nofun) (Option.some.inj hstep)
  · cases hstep

end Steps

section Rounds

variable {h : Handler} {limits : Limits} {conf : UpstreamConf} {s s' : FanOut}

/-- Without a code in the parent nothing has gone wrong in the present round; the rounds before it have
been answered. -/
structure FanOut.Sound (s : FanOut) : Prop where
  live : ∀ u, .running u ∈ s.subs → ¬ u.isDone → u.request.isSubrequest = true
  clean : s.parent.request.code = .ok → ∀ u, .running u ∈ s.subs →
    u.request.code = .ok ∧ (u.isDone → u.Answered)
  earlier : s.final = none ∨ s.final = some (.response .ok) → ∀ sub ∈ s.finished, sub.Answered

theorem sound_start (request : Request) : (FanOut.start request).Sound where
  live _ hmem := absurd hmem List.not_mem_nil
  clean _ _ hmem := absurd hmem List.not_mem_nil
  earlier _ _ hmem := absurd hmem List.not_mem_nil

theorem FanOut.Sound.replace (hs : s.Sound) {i : Nat} {sub : Sub} {request : Request}
    (hkept : request.code = .ok → s.parent.request.code = .ok)
    (hlive : ∀ u, sub = .running u → ¬ u.isDone → u.request.isSubrequest = true)
    (hclean : request.code = .ok → ∀ u, sub = .running u →
      u.request.code = .ok ∧ (u.isDone → u.Answered)) :
    FanOut.Sound { s with
      subs := s.subs.set i sub, parent := { s.parent with request := request } } where
  live u hmem := by
    rcases List.mem_or_eq_of_mem_set hmem with hold | hnew
    · exact hs.live u hold
    · exact hlive u hnew.symm
  clean hok u hmem := by
    rcases List.mem_or_eq_of_mem_set hmem with hold | hnew
    · exact hs.clean (hkept hok) u hold
    · exact hclean hok u hnew.symm
  earlier := hs.earlier

theorem qksubrequestCheck_done {subs : List Sub} {allOk : Bool} (h : qksubrequestCheck subs = .ok allOk) :
    ∀ sub ∈ subs, ∃ u, sub = .running u ∧ u.isDone := by
  induction subs generalizing allOk with
  | nil => exact fun _ hmem => absurd hmem List.not_mem_nil
  | cons sub subs ih =>
    cases sub with
    | pending _ => cases h
    | failed => cases h
    | running u =>
      simp only [qksubrequestCheck] at h
      split at h
      · rename_i outcome hdone
        split at h
        · rename_i rest hrest
          exact List.forall_mem_cons.mpr ⟨⟨u,rfl,outcome,hdone⟩,ih hrest⟩
        · rename_i hnot
          exact absurd h (hnot allOk)
      · cases h

theorem processParent_failed (h : Handler) (limits : Limits) {p : Parent} (hcode : p.request.code ≠ .ok) :
    ∃ request, processParent h limits p = (.ok,{ p with request := request }) ∧
      request.code = p.request.code := by
  refine ⟨parseResponseError h p.request,?_,?_⟩
  · simp only [processParent, createSubRequestBody, ne_eq, hcode, not_false_eq_true, if_true,
      processBodyError]
  · simp only [parseResponseError, Handler.write, if_neg hcode]
    split
    · rfl
    · rfl

theorem qksubrequestPost_sound {p : Parent} (hs : s.Sound) (hfinal : s.final = none)
    (hcode : p.request.code = s.parent.request.code)
    (hdone : ∀ sub ∈ s.subs, ∃ u, sub = .running u ∧ u.isDone) :
    (qksubrequestPost h limits s p).Sound ∧
      ((qksubrequestPost h limits s p).parent.request.code = .ok → s.parent.request.code = .ok) := by
  by_cases hok : s.parent.request.code = .ok
  · have hanswered : ∀ sub ∈ s.finished ++ s.subs, sub.Answered := by
      intro sub hmem
      rcases List.mem_append.mp hmem with hearlier | hround
      · exact hs.earlier (.inl hfinal) sub hearlier
      · obtain ⟨u,rfl,hu⟩ := hdone sub hround
        exact (hs.clean hok u hround).2 hu
    refine ⟨?_,fun _ => hok⟩
    unfold qksubrequestPost
    split
    · rename_i p' _
      have hpending : ∀ u, Sub.running u ∉ p'.subrequest.map .pending := by
        intro u hmem
        obtain ⟨sub,-,hsub⟩ := List.mem_map.mp hmem
        cases hsub
      exact ⟨fun u hmem => absurd hmem (hpending u),fun _ u hmem => absurd hmem (hpending u),
        fun _ => hanswered⟩
    · exact ⟨fun _ hmem => absurd hmem List.not_mem_nil,fun _ _ hmem => absurd hmem List.not_mem_nil,
        fun _ => hanswered⟩
  · have hne : p.request.code ≠ .ok := fun hpok => hok (hcode.symm.trans hpok)
    obtain ⟨request,hparent,hrequest⟩ := processParent_failed h limits hne
    have hreq : request.code ≠ .ok := fun h => hne (hrequest.symm.trans h)
    simp only [qksubrequestPost, hparent]
    refine ⟨⟨fun _ hmem => absurd hmem List.not_mem_nil,fun _ _ hmem => absurd hmem List.not_mem_nil,?_⟩,
      fun h => absurd h hreq⟩
    rintro (hnone | hresponse)
    · cases hnone
    · exact absurd (Final.response.inj (Option.some.inj hresponse)) hreq

/-- A step within the condition keeps the invariant, and resets no code. -/
theorem fanStep_sound {e : FanEvent} (hs : s.Sound) (hreported : Reported h conf s e)
    (hstep : fanStep h limits conf s e = some s') :
    s'.Sound ∧ (s'.parent.request.code = .ok → s.parent.request.code = .ok) := by
  obtain ⟨hfinal,hmove⟩ := fanStep_move hstep
  cases hmove with
  | create _ hcreate =>
    have hc := createSub_created hcreate
    refine ⟨hs.replace hc.kept ?_ ?_,hc.kept⟩
    · intro u hu _
      exact (hc.running u hu).2.1
    · intro hok u hu
      obtain ⟨hlive,-,hcode⟩ := hc.running u hu
      exact ⟨hcode hok,fun hdone => absurd hdone hlive⟩
  | @sub i e u v hu hv _ =>
    have hmem := List.mem_of_getElem? hu
    have hends : u.request.code = .ok → ¬ u.marks e → v.isDone → v.stage = .done .response := by
      intro hok hmarks hdone
      by_contra hstage
      exact (hreported u hu hok).2 hmarks ⟨v,hv,hdone,hstage⟩
    have hsub := subStep_step (hs.live u hmem (not_isDone_of_step hv))
      (fun hok => (hreported u hu hok).1) hends hv
    refine ⟨hs.replace hsub.kept ?_ ?_,hsub.kept⟩
    · rintro _ ⟨⟩
      exact hsub.live
    · rintro hok _ ⟨⟩
      exact hsub.clean hok (hs.clean (hsub.kept hok) u hmem).1
  | error _ =>
    refine ⟨⟨hs.live,hs.clean,?_⟩,id⟩
    rintro (hnone | hresponse)
    · cases hnone
    · cases hresponse
  | post hcheck => exact qksubrequestPost_sound hs hfinal rfl (qksubrequestCheck_done hcheck)

/-- In a run whose failures are all reported, a response without a code means that every sub-request was
answered, and no event resets a code of the parent. -/
theorem response_ok_answered {request : Request} (es es' : List FanEvent)
    (hreported : Machine.Along (fanStep h limits conf) (Reported h conf) (FanOut.start request) (es ++ es'))
    (hs : Machine.run (fanStep h limits conf) (FanOut.start request) es = some s)
    (hs' : Machine.run (fanStep h limits conf) s es' = some s') :
    (s'.final = some (.response .ok) → ∀ sub ∈ s'.finished, sub.Answered) ∧
      (s.parent.request.code ≠ .ok → s'.parent.request.code ≠ .ok) := by
  obtain ⟨hes,hes'⟩ := hreported.append hs
  have hsound : s.Sound :=
    Machine.invariant_run (fun hI hP hstep => (fanStep_sound hI hP hstep).1) (sound_start request) hes hs
  obtain ⟨hsound',hkept⟩ := Machine.invariant_run
    (I := fun t : FanOut => t.Sound ∧ (t.parent.request.code = .ok → s.parent.request.code = .ok))
    (fun hI hP hstep => (fanStep_sound hI.1 hP hstep).imp_right fun hkept hok => hI.2 (hkept hok))
    ⟨hsound,id⟩ hes' hs'
  exact ⟨fun hfinal => hsound'.earlier (.inr hfinal),fun hne hok => hne (hkept hok)⟩

end Rounds

/-- `MGET` of two keys, under their slots. -/
def mgetTwo : Request :=
  { Request.fresh with
    commandType := .mget
    namespaces := text "ab"
    mapSlotsKv := [(7390,[⟨text "k",[],.finite 0,0⟩]),(11321,[⟨text "l",[],.finite 0,0⟩])] }

/-- The machine for `MGET` with at most three tries. -/
def mgetRun (es : List FanEvent) : Option FanOut :=
  Machine.run (fanStep plainHandler ⟨10,10⟩ (tableConf 3 3)) (FanOut.start mgetTwo) es

/-- The round begins: the first sub-request is created on this node, the second on a known one. -/
def createEvents (nodeIp : Bytes) : List FanEvent :=
  [.post,.create 0 emptyWorld.shared true nodeIp,
    .create 1 emptyWorld.shared true (text "10.0.0.2:7000")]

def answerEvents (i : Nat) (reply : Bytes) : List FanEvent :=
  [.sub i (.connect emptyWorld [] .ok),.sub i (.read emptyWorld reply)]

def oneValue : Bytes := text "*1" ++ crlf ++ text "$1" ++ crlf ++ text "v" ++ crlf

/-- Both sub-requests are answered. Without a node for the first one its code stays in the parent. -/
theorem response_ok_answered_mget :
    (∃ s, mgetRun (createEvents (text "10.0.0.1:7000") ++ answerEvents 0 oneValue ++
        answerEvents 1 oneValue ++ [.post]) = some s ∧ s.final = some (.response .ok) ∧
      ∀ sub ∈ s.finished, sub.Answered) ∧
    ∃ s s', mgetRun (createEvents []) = some s ∧
      mgetRun (createEvents [] ++ answerEvents 1 oneValue) = some s' ∧
      s.parent.request.code = .unknown ∧ s'.parent.request.code ≠ .ok := by
  constructor
  · have hfinal : (mgetRun (createEvents (text "10.0.0.1:7000") ++ answerEvents 0 oneValue ++
        answerEvents 1 oneValue ++ [.post])).map (·.final) = some (some (.response .ok)) := by
      decide +kernel
    obtain ⟨s,hs,hok⟩ := Option.map_eq_some_iff.mp hfinal
    have hanswered := response_ok_answered [] _ (by decide +kernel) rfl hs
    exact ⟨s,hs,hok,hanswered.1 hok⟩
  · have hcode : (mgetRun (createEvents [])).map (·.parent.request.code) = some .unknown := by
      decide +kernel
    obtain ⟨s,hs,hunknown⟩ := Option.map_eq_some_iff.mp hcode
    have hlive : (mgetRun (createEvents [] ++ answerEvents 1 oneValue)).isSome := by decide +kernel
    obtain ⟨s',hs'⟩ := Option.isSome_iff_exists.mp hlive
    have hrest := (Machine.run_append hs).symm.trans hs'
    refine ⟨s,s',hs,hs',hunknown,?_⟩
    refine (response_ok_answered _ _ (by decide +kernel) hs hrest).2 ?_
    rw [hunknown]
    nofun

/-- An error reply is not reported, nor is an upstream failure. A null array resets the code of a
sub-request that has failed. -/
theorem response_ok_not_answered :
    (mgetRun (createEvents (text "10.0.0.1:7000") ++ answerEvents 0 (text "-ERR x" ++ crlf) ++
        answerEvents 1 oneValue ++ [.post])).map
          (fun s => (s.final,s.finished.map fun sub => decide sub.Answered)) =
      some (some (.response .ok),[false,true]) ∧
    (mgetRun (createEvents (text "10.0.0.1:7000") ++ [.sub 0 (.connect emptyWorld [] .error)] ++
        answerEvents 1 oneValue ++ [.post])).map
          (fun s => (s.final,s.finished.map fun sub => decide sub.Answered)) =
      some (some (.response .ok),[false,true]) ∧
    (mgetRun (createEvents [] ++ answerEvents 0 (text "+PONG" ++ crlf))).map
        (·.parent.request.code) = some .unknown ∧
    (mgetRun (createEvents [] ++ answerEvents 0 (text "+PONG" ++ crlf) ++
        answerEvents 1 (text "*-1" ++ crlf))).map (·.parent.request.code) = some .ok ∧
    (mgetRun (createEvents [] ++ answerEvents 0 (text "+PONG" ++ crlf) ++
        answerEvents 1 (text "*-1" ++ crlf) ++ [.post])).map (·.final) =
      some (some (.response .ok)) := by
  decide +kernel

end QkPack
