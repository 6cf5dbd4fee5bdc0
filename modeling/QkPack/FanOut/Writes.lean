import QkPack.FanOut.Rounds
import QkPack.Core.Redirect
import QkPack.Protocol.CommandArgs

/-!
# What a sub-request writes to its parent

The decoders put values into the parent and leave its code alone. The code is written by
`CreateRequestError` and `ProcessBodyError` only, which copy the code that the sub-request has then.
-/

namespace QkPack
open Wire CString Resp

def SamePurpose (request request' : Request) : Prop :=
  request'.commandType = request.commandType ∧ request'.key = request.key

theorem SamePurpose.refl (request : Request) : SamePurpose request request := ⟨rfl,rfl⟩

theorem SamePurpose.trans {a b c : Request} (hab : SamePurpose a b) (hbc : SamePurpose b c) : SamePurpose a c :=
  ⟨hbc.1.trans hab.1,hbc.2.trans hab.2⟩

section Decode

variable {proto : RedisProto} {stack : Nat → Bytes}

/-- The decoders of arrays keep the code of the parent and what the handler reads of the request. -/
structure ArrayState.Keeps (s s' : ArrayState) : Prop where
  parent : s'.parent.map (·.code) = s.parent.map (·.code)
  isSubrequest : s'.request.isSubrequest = s.request.isSubrequest
  code : s'.request.code = s.request.code
  responseBuffer : s'.request.responseBuffer = s.request.responseBuffer
  purpose : SamePurpose s.request s'.request

theorem ArrayState.Keeps.refl (s : ArrayState) : s.Keeps s := ⟨rfl,rfl,rfl,rfl,.refl _⟩

theorem ArrayState.Keeps.trans {s t u : ArrayState} (hst : s.Keeps t) (htu : t.Keeps u) : s.Keeps u :=
  ⟨htu.parent.trans hst.parent,htu.isSubrequest.trans hst.isSubrequest,htu.code.trans hst.code,
    htu.responseBuffer.trans hst.responseBuffer,hst.purpose.trans htu.purpose⟩

theorem setSlotValue_code {parent parent' : Request} {slotId : Int} {i : Nat} {value : Bytes}
    (h : parent.setSlotValue slotId i value = .ok parent') : parent'.code = parent.code := by
  unfold Request.setSlotValue at h
  split at h
  · cases h
  · split at h
    · cases h
      rfl
    · cases h

theorem ArrayStep.keeps {s s' : ArrayState} (h : ArrayStep proto s s') : s.Keeps s' := by
  cases h with
  | passed => exact .refl s
  | slot hparent hset =>
    refine ⟨?_,rfl,rfl,rfl,.refl _⟩
    rw [hparent, Option.map_some, Option.map_some, setSlotValue_code hset]
  | listed member => exact ⟨rfl,rfl,rfl,rfl,rfl,rfl⟩
  | named hparent hlen => exact ⟨rfl,rfl,rfl,rfl,rfl,rfl⟩
  | scored hparent value =>
    refine ⟨?_,rfl,rfl,rfl,.refl _⟩
    rw [hparent]
    rfl

theorem arraySteps_keep {s s' : ArrayState} (h : Relation.ReflTransGen (ArrayStep proto) s s') : s.Keeps s' := by
  induction h with
  | refl => exact .refl s
  | tail _ hstep ih => exact ih.trans hstep.keeps

/-- What decoding a reply leaves of a request and its parent. Only an error line gives the request a
code. -/
structure Decoded.Keeps (parent : Option Request) (request : Request) (d : Decoded) : Prop where
  parent : d.parent.map (·.code) = parent.map (·.code)
  isSubrequest : d.request.isSubrequest = request.isSubrequest
  responseBuffer : d.request.responseBuffer = request.responseBuffer
  purpose : SamePurpose request d.request
  reply : d.rc = .ok → request.responseBuffer.head? ≠ some 45 →
    d.request.code = request.code ∧ request.responseBuffer.head? ∈ [some 43,some 58,some 36,some 42]

theorem ttlCheck_keeps {parent : Option Request} {request : Request} {d : Decoded}
    (h : d.Keeps parent request) : (ttlCheck d).Keeps parent request := by
  unfold ttlCheck
  split
  · exact ⟨h.parent,h.isSubrequest,h.responseBuffer,h.purpose,nofun⟩
  · split
    · exact ⟨h.parent,h.isSubrequest,h.responseBuffer,h.purpose,nofun⟩
    · exact h

theorem redisProtoDecode_keeps {scripts : ScriptCache} {parent : Option Request} {request : Request}
    {d : Decoded} (h : redisProtoDecode proto stack scripts parent request = .ok d) :
    d.Keeps parent request := by
  cases redisProtoDecode_cases h with
  | nothing => exact ⟨rfl,rfl,rfl,.refl _,nofun⟩
  | redirection _ _ hline _ => exact ⟨rfl,rfl,rfl,.refl _,fun _ hnot => absurd hline hnot⟩
  | complaint desc hline => exact ⟨rfl,rfl,rfl,.refl _,fun _ hnot => absurd hline hnot⟩
  | status value hline => exact ⟨rfl,rfl,rfl,.refl _,fun _ _ => ⟨rfl,by simp [hline]⟩⟩
  | integer num hline => exact ⟨rfl,rfl,rfl,.refl _,fun _ _ => ⟨rfl,by simp [hline]⟩⟩
  | bulk value hline => exact ttlCheck_keeps ⟨rfl,rfl,rfl,.refl _,fun _ _ => ⟨rfl,by simp [hline]⟩⟩
  | nullArray => exact ttlCheck_keeps ⟨rfl,rfl,rfl,.refl _,nofun⟩
  | array hline hsteps =>
    have hkeeps := arraySteps_keep hsteps
    exact ttlCheck_keeps ⟨hkeeps.parent,hkeeps.isSubrequest,hkeeps.responseBuffer,hkeeps.purpose,
      fun _ _ => ⟨hkeeps.code,by simp [hline]⟩⟩

end Decode

/-- How `ProcessBody` ends for a sub-request whose reply is decoded to `d`: the reply is taken, or an error
is reported with the code the request `r` has then, or the request is redirected. -/
inductive SubReplyEnd (h : Handler) (d : Decoded) (p : Processed) : Prop
  | taken (hdecoded : d.rc = .ok) (hrc : p.rc = .ok) (hrequest : p.request = d.request)
      (hparent : p.parent = d.parent)
  | givenUp (r : Request) (hcode : r.code = .ok → d.rc = .error ∧ d.request.code = .ok)
      (hrc : p.rc = .ok) (hrequest : p.request = parseResponseError h r)
      (hparent : p.parent = d.parent.map (copyCode r))
  | redirected (hrc : p.rc = .upstreamInvalidHeader) (hparent : p.parent = d.parent)

theorem processReply_sub {h : Handler} {stack : Nat → Bytes} {shared : Shared}
    {parent : Option Request} {request : Request} {p : Processed} (hsub : request.isSubrequest = true)
    (hp : processReply h stack shared parent request = .ok p) :
    ∃ d, redisProtoDecode h.proto stack shared.scripts parent request = .ok d ∧ SubReplyEnd h d p := by
  obtain ⟨d,hd,hend⟩ := processReply_cases hp
  have hbody : parseResponseBody h d.request = (.ok,d.request) := by
    have hd' : d.request.isSubrequest = true := (redisProtoDecode_keeps hd).isSubrequest.trans hsub
    simp only [parseResponseBody, hd', if_true]
  refine ⟨d,hd,?_⟩
  cases hend with
  | taken hok => exact .taken hok rfl (congrArg Prod.snd hbody) rfl
  | refused hok hnot => exact absurd (congrArg Prod.fst hbody) hnot
  | failed herror => exact .givenUp d.request (fun hcode => ⟨herror,hcode⟩) rfl rfl rfl
  | lost hredirects flag nodeIp => exact .givenUp { d.request with
      movedAsk := flag, nodeIp := nodeIp, code := .redisStorageError } nofun rfl rfl rfl
  | redirected => exact .redirected rfl rfl

section Reinit

variable {h : Handler} {u : Upstream}

theorem reinitRequest_parent (scripts : ScriptCache) (parent request : Request)
    (hsub : checkSubRequest request = false) :
    ∃ parent', (reinitRequest h scripts (some parent) request).2.2 = some parent' ∧
      parent'.code = if request.isLastTry then .timeout5xx else parent.code := by
  unfold reinitRequest
  by_cases hlast : request.isLastTry = true
  · simp only [if_pos hlast]
    rw [createRequestError_single { request with movedAsk := .ok, code := .timeout5xx } hsub (by simp)]
    exact ⟨_,rfl,rfl⟩
  · simp only [if_neg hlast]
    split
    · exact ⟨parent,rfl,rfl⟩
    · exact ⟨parent,rfl,rfl⟩

/-- Choosing a peer writes to the parent exactly when it marks the request. -/
theorem parentAfter_connect (parent : Request) (world : World) (randomIp : Bytes)
    (result : ConnectResult) (hsub : checkSubRequest u.request = false) :
    (u.parentAfter h parent (.connect world randomIp result)).code =
      if u.marks (.connect world randomIp result) then .timeout5xx else parent.code := by
  unfold Upstream.parentAfter
  simp only
  by_cases hcounts : 0 < u.hpTries ∧ u.hpTries ≤ 50
  · rw [if_pos hcounts]
    have hparent (ip : Bytes) : ((reinitRequest h world.shared.scripts (some parent)
        ({ u with upstreamIp := ip } : Upstream).handed).2.2.getD parent).code =
          if u.lastTry then .timeout5xx else parent.code := by
      obtain ⟨parent',hp,hcode⟩ := reinitRequest_parent (h := h) world.shared.scripts parent
        (({ u with upstreamIp := ip } : Upstream).handed) hsub
      rw [hp, Option.getD_some, hcode]
      rfl
    rw [hparent]
    simp only [Upstream.marks, hcounts, true_and]
  · rw [if_neg hcounts, if_neg]
    exact fun hmarks => hcounts ⟨hmarks.1,hmarks.2.1⟩

end Reinit

section Create

variable {h : Handler} {conf : UpstreamConf}

/-- What is left behind when a sub-request is created. A code of its own is in the parent by then. -/
structure SubCreated (parent : Request) (created : Sub × Request) : Prop where
  kept : created.2.code = .ok → parent.code = .ok
  running : ∀ u, created.1 = .running u → ¬ u.isDone ∧ u.request.isSubrequest = true ∧
    (created.2.code = .ok → u.request.code = .ok)

theorem start_not_isDone (request : Request) : ¬ (Upstream.start conf request).isDone := by
  rintro ⟨outcome,hstage⟩
  cases hstage

theorem refuseSub_created (scripts : ScriptCache) (parent request : Request)
    (hsub : request.isSubrequest = true) (hcode : request.code ≠ .ok) :
    SubCreated parent (refuseSub h conf scripts parent request) := by
  have hfan : checkSubRequest request = false := by simp [checkSubRequest, hsub]
  simp only [refuseSub, createRequestError_single request hfan hcode]
  refine ⟨fun hok => absurd hok hcode,?_⟩
  rintro u ⟨⟩
  exact ⟨start_not_isDone _,hsub,id⟩

theorem encodeSub_created {scripts : ScriptCache} {parent : Request} {created : Sub × Request}
    (request : Request) (hsub : request.isSubrequest = true)
    (hcode : request.code = .ok)
    (hcreated : encodeSub h conf scripts parent request = some created) : SubCreated parent created := by
  unfold encodeSub at hcreated
  split at hcreated
  · rename_i r hr
    cases hcreated
    obtain ⟨hrcode,hrsub,-,-,-⟩ := redisProtoEncode_sameOrigin _ hcode hr
    refine ⟨id,?_⟩
    rintro u ⟨⟩
    exact ⟨start_not_isDone _,hrsub.trans hsub,fun _ => hrcode.trans hcode⟩
  · cases hcreated
    exact refuseSub_created scripts parent { request with code := .unknown } hsub nofun
  · cases hcreated

theorem qkupstreamInit_fresh {sub : SubRequest} {request : Request}
    (h : qkupstreamInit sub = some request) : request.isSubrequest = true ∧ request.code = .ok := by
  simp only [qkupstreamInit] at h
  split at h
  · cases h
  · cases h
    exact ⟨rfl,rfl⟩

theorem parseSubRequestBody_keeps {parent request r : Request} {parsed : Bool} {uri : CommandType}
    {rc : QkpackRc} (h : parseSubRequestBody parent parsed uri request = (rc,r)) :
    r.isSubrequest = request.isSubrequest ∧ (rc = .ok → r.code = request.code) := by
  simp only [parseSubRequestBody] at h
  split at h
  · cases h
    exact ⟨rfl,fun _ => rfl⟩
  · cases h
    exact ⟨rfl,fun _ => rfl⟩
  · split at h
    · cases h
      exact ⟨rfl,fun _ => rfl⟩
    · cases h
      exact ⟨rfl,nofun⟩

theorem createSub_created {shared : Shared} {parsed : Bool} {nodeIp : Bytes} {parent : Request}
    {sub : SubRequest} {created : Sub × Request}
    (hcreated : createSub h conf shared parsed nodeIp parent sub = some created) :
    SubCreated parent created := by
  unfold createSub at hcreated
  split at hcreated
  · cases hcreated
    refine ⟨id,?_⟩
    intro u hu
    cases hu
  · rename_i request hinit
    obtain ⟨hsub,hcode⟩ := qkupstreamInit_fresh hinit
    split at hcreated
    · rename_i r hparse
      obtain ⟨hrsub,hrcode⟩ := parseSubRequestBody_keeps hparse
      have hsub' : r.isSubrequest = true := hrsub.trans hsub
      have hcode' : r.code = .ok := (hrcode rfl).trans hcode
      split at hcreated
      · split at hcreated
        · cases hcreated
          exact refuseSub_created _ _ { r with code := .unknown } hsub' nofun
        · rename_i ip _
          exact encodeSub_created { r with nodeIp := ip } hsub' hcode' hcreated
      · exact encodeSub_created r hsub' hcode' hcreated
    · rename_i rc r _ hparse
      cases hcreated
      have hsub' : r.isSubrequest = true := (parseSubRequestBody_keeps hparse).1.trans hsub
      exact refuseSub_created _ _ { r with code := .parseError } hsub' nofun

end Create

end QkPack
