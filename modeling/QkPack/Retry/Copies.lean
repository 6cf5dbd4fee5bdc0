import QkPack.Retry.Steps
import Mathlib.Logic.Relation

/-!
# The three copies of the request bytes

What a step of the retry machine can do to the flag, to the code and to the three copies of the request
bytes. The abstract machine has one rule for each function that touches them; every step of the retry
machine that does not end the request is a sequence of such rules.
-/

namespace QkPack
open Wire CString Resp

structure Copies where
  flag : MovedAsk
  code : ResponseCode
  protoStr : Bytes
  requestBuffer : Bytes
  requestBufs : Bytes
  fanOut : Bool

def Upstream.copies (u : Upstream) : Copies :=
  ⟨u.movedAsk,u.request.code,u.request.protoStr,u.requestBuffer,u.requestBufs,checkSubRequest u.request⟩

/-- `ReinitRequest` marks the request as failed when `marks`, else puts `ASKING` before it; the two
functions of the upstream module refresh their copies; a reply redirects. -/
inductive CopyStep (marks : Copies → Prop) : Copies → Copies → Prop
  | mark (w : Copies) (h : marks w) :
    CopyStep marks w { w with flag := .ok, code := .timeout5xx, protoStr := pingFrame }
  | ask (w : Copies) (h : w.flag = .ask) : CopyStep marks w { w with
      flag := .asking
      protoStr := askingFrame ++ w.protoStr
      requestBuffer := askingFrame ++ w.protoStr }
  | refresh (w : Copies) (h : w.flag = .asking) :
    CopyStep marks w { w with requestBuffer := w.protoStr }
  | moved (w : Copies) (h : w.flag = .moved) : CopyStep marks w { w with flag := .ok }
  | asking (w : Copies) (h : w.flag = .asking) :
    CopyStep marks w { w with flag := .askingEnd, requestBufs := w.requestBuffer }
  | redirect (w : Copies) (flag : MovedAsk) (hcode : w.code = .ok)
      (hold : w.flag = .ok ∨ w.flag = .moved) (hnew : flag = .moved ∨ flag = .ask) :
    CopyStep marks w { w with flag := flag }

/-- `v` has ended with the request bytes of `u`. -/
def Upstream.endsFrom (v u : Upstream) : Prop := v.isDone ∧ v.requestBufs = u.requestBufs

section Refinement

open Relation

variable {h : Handler} {conf : UpstreamConf} {u v : Upstream} {marks : Copies → Prop}

theorem CopyStep.imp {marks' : Copies → Prop} (himp : ∀ w, marks w → marks' w) {w w' : Copies}
    (hstep : CopyStep marks w w') : CopyStep marks' w w' := by
  cases hstep with
  | mark h => exact .mark w (himp w h)
  | ask h => exact .ask w h
  | refresh h => exact .refresh w h
  | moved h => exact .moved w h
  | asking h => exact .asking w h
  | redirect flag hcode hold hnew => exact .redirect w flag hcode hold hnew

theorem processReinitRequest_copies (world : World) (hsub : checkSubRequest u.request = false) :
    ∃ v, processReinitRequest h world u = some v ∧ v.requestBufs = u.requestBufs ∧
      ReflTransGen (CopyStep fun w => w = u.copies ∧ u.lastTry = true) u.copies v.copies := by
  rcases processReinitRequest_cases (h := h) world hsub with
    ⟨hlast,hv⟩ | ⟨-,hask,hv⟩ | ⟨-,hask,hv⟩
  · exact ⟨_,hv,rfl,.single (.mark u.copies ⟨rfl,hlast⟩)⟩
  · exact ⟨_,hv,rfl,.single (.ask u.copies hask)⟩
  · refine ⟨_,hv,rfl,?_⟩
    by_cases hasking : u.movedAsk = .asking
    · rw [if_pos hasking]
      exact .single (.refresh u.copies hasking)
    · rw [if_neg hasking]
      exact .refl

variable (marks) in
theorem getPeer_copies (world : World) (randomIp : Bytes) (hsub : checkSubRequest u.request = false)
    (hmarks : 0 < u.hpTries ∧ u.hpTries ≤ 50 ∧ u.lastTry = true → marks u.copies) :
    ∃ v, getPeer h world randomIp u = some v ∧ v.requestBufs = u.requestBufs ∧
      ReflTransGen (CopyStep marks) u.copies v.copies := by
  unfold getPeer
  by_cases hmany : u.hpTries > 50
  · simp only [if_pos hmany]
    exact ⟨_,rfl,rfl,.refl⟩
  · simp only [if_neg hmany]
    by_cases hpos : u.hpTries > 0
    · simp only [if_pos hpos, updateNodes]
      have hpeer (ip : Bytes) : ∃ v, processReinitRequest h world
            { u with cached := false, hasPeer := true, upstreamIp := ip } = some v ∧
          v.requestBufs = u.requestBufs ∧ ReflTransGen (CopyStep marks) u.copies v.copies := by
        obtain ⟨v,hv,hbufs,hcopies⟩ := processReinitRequest_copies (h := h) world
          (u := { u with cached := false, hasPeer := true, upstreamIp := ip }) hsub
        refine ⟨v,hv,hbufs,ReflTransGen.mono ?_ _ _ hcopies⟩
        intro w w' hstep
        refine hstep.imp ?_
        rintro _ ⟨rfl,hlast⟩
        exact hmarks ⟨hpos,by omega,hlast⟩
      split
      · obtain ⟨v,hv,hcopies⟩ := hpeer u.upstreamIp
        rw [hv]
        exact ⟨_,rfl,hcopies⟩
      · obtain ⟨v,hv,hcopies⟩ := hpeer randomIp
        rw [hv]
        exact ⟨_,rfl,hcopies⟩
    · simp only [if_neg hpos]
      exact ⟨_,rfl,rfl,.refl⟩

theorem upstreamNext_copies (ft : FtType) : (upstreamNext conf ft u).copies = u.copies := by
  obtain ⟨hasPeer,peerTries,usTries,stage,hnext,-⟩ := upstreamNext_cases conf ft u
  rw [hnext]
  rfl

theorem connected_copies (result : ConnectResult) :
    (connected result u).endsFrom u ∨
      ReflTransGen (CopyStep marks) u.copies (connected result u).copies := by
  have hreinit : ∀ v w, qkupstreamReinitRequest v = some w →
      ReflTransGen (CopyStep marks) v.copies w.copies := by
    intro v w hw
    unfold qkupstreamReinitRequest at hw
    split at hw
    · cases hw
    · split at hw
      · cases hw
        exact .refl
      · rename_i hflag
        cases hw
        exact .single (.moved v.copies hflag)
      · rename_i hflag
        cases hw
        exact .single (.asking v.copies hflag)
      · cases hw
      · cases hw
  unfold connected
  simp only
  split
  · exact .inl ⟨⟨_,rfl⟩,rfl⟩
  · rename_i w hw
    right
    have hcopies : ReflTransGen (CopyStep marks) u.copies w.copies := by
      split at hw
      · have hstep := hreinit _ _ hw
        exact hstep
      · cases hw
        exact .refl
    split
    · exact hcopies
    · exact hcopies

theorem headerCheck_response {flag : MovedAsk} {buffer response : Bytes}
    (hresp : (headerCheck flag buffer).response = some response) : flag ≠ .ask ∧ flag ≠ .asking := by
  unfold headerCheck at hresp
  split at hresp
  · cases hresp
  · rename_i hflag
    rwa [not_or] at hflag

theorem HeaderStep.copies {world : World} {bytes : Bytes} (hread : HeaderStep h conf world bytes u v) :
    v.endsFrom u ∨ ReflTransGen (CopyStep marks) u.copies v.copies := by
  cases hread with
  | waits => exact .inr .refl
  | malformed =>
    rw [upstreamNext_copies]
    exact .inr .refl
  | broken _ => exact .inl ⟨⟨_,rfl⟩,rfl⟩
  | @redirected p hreplied hrc =>
    obtain ⟨response,hresponse,hp⟩ := hreplied
    obtain ⟨hask,hasking⟩ := headerCheck_response hresponse
    obtain ⟨hcode,hnot,hnew,hrest⟩ := processReply_redirected hp hrc
    have hold : u.movedAsk = .ok ∨ u.movedAsk = .moved := by
      cases hu : u.movedAsk with
      | ok => exact .inl rfl
      | moved => exact .inr rfl
      | ask => exact absurd hu hask
      | asking => exact absurd hu hasking
      | askingEnd => exact absurd hu hnot
    have hcopies : Upstream.copies { u with
          buffer := u.buffer ++ bytes, request := p.request, upstreamIp := p.request.nodeIp
          movedAsk := p.request.movedAsk } =
        { u.copies with flag := p.request.movedAsk } := by
      rw [hrest]
      rfl
    rw [upstreamNext_copies, hcopies]
    exact .inr (.single (.redirect u.copies _ hcode hold hnew))
  | answered _ _ => exact .inl ⟨⟨_,rfl⟩,rfl⟩
  | refused _ => exact .inl ⟨⟨_,rfl⟩,rfl⟩

/-- A step that does not end the request is a sequence of rules of the abstract machine. -/
theorem step_copies {e : Event} (hsub : checkSubRequest u.request = false)
    (hstep : step h conf u e = some v) :
    v.endsFrom u ∨ ReflTransGen (CopyStep fun w => w = u.copies ∧ u.marks e) u.copies v.copies := by
  cases step_upstreamStep hstep with
  | @noPeer world randomIp _ hpeer =>
    obtain ⟨w,hchosen,-⟩ := getPeer_chosen (h := h) world randomIp hsub
    cases hpeer.symm.trans hchosen
  | @connect world randomIp result w _ _ hpeer hresult =>
    obtain ⟨w',hchosen,hbufs,hcopies⟩ := getPeer_copies (h := h)
      (fun w => w = u.copies ∧ u.marks (.connect world randomIp result)) world randomIp hsub
      fun hm => ⟨rfl,hm⟩
    cases hpeer.symm.trans hchosen
    cases hresult with
    | error => exact .inl ⟨⟨_,rfl⟩,hbufs⟩
    | busy _ =>
      rw [upstreamNext_copies]
      exact .inr hcopies
    | declined =>
      rw [upstreamNext_copies]
      exact .inr hcopies
    | connected _ =>
      refine (connected_copies _).imp ?_ hcopies.trans
      exact fun hdone => ⟨hdone.1,hdone.2.trans hbufs⟩
  | established _ => exact .inr .refl
  | failed _ _ =>
    rw [upstreamNext_copies]
    exact .inr .refl
  | read _ hread => exact hread.copies

end Refinement

end QkPack
