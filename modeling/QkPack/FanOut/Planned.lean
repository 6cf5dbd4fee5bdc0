import QkPack.FanOut.CallCases
import QkPack.FanOut.SubArgs
import QkPack.Parser.ShortKeys

/-!
# What a parent plans

The calls of `CreateSubRequestBody` leave the namespace of a request as it is, make sub-requests of a few kinds
only, and give them no keys but short ones.
-/

namespace QkPack
open Wire CString Resp

def CommandType.OfSub (command : CommandType) : Prop :=
  command ∈ [.mget,.mset,.zadd,.zrangebyscore,.zrange]

instance : DecidablePred CommandType.OfSub := fun command =>
  inferInstanceAs (Decidable (command ∈ [.mget,.mset,.zadd,.zrangebyscore,.zrange]))

theorem CommandType.OfSub.ne_zbatchadd {command : CommandType} (h : command.OfSub) : command ≠ .zbatchadd := by
  rintro rfl
  revert h
  decide

/-- A sub-request for a slot, or for a short key. -/
structure SubRequest.Sound (sub : SubRequest) : Prop where
  uri : sub.uri.OfSub
  args : (∃ slotId, sub.args = text "is_subrequest=1" ++ argSlotid slotId) ∨
    ∃ key slotId, ShortKey key ∧ sub.args = keyArgs key slotId

theorem ampersand_notMem_toString32 (v : Int) : 38 ∉ toString32 v := by
  intro hmem
  rw [toString32, intText] at hmem
  have hdigits (n : Nat) : 38 ∉ decimal n := by
    intro h
    have hdigit := decimal_isDigit h
    revert hdigit
    decide
  split at hmem
  · rcases List.mem_cons.mp hmem with hminus | hmem
    · revert hminus
      decide
    · exact hdigits _ hmem
  · exact hdigits _ hmem

theorem SubRequest.Sound.key_short {sub : SubRequest} (h : sub.Sound) {request : Request}
    (hinit : qkupstreamInit sub = some request) : ShortKey request.key := by
  unfold qkupstreamInit at hinit
  simp only at hinit
  split at hinit
  · cases hinit
  · cases hinit
    rcases h.args with ⟨slotId,hargs⟩ | ⟨key,slotId,hkey,hargs⟩
    · have hnone := slotArgs_key (ampersand_notMem_toString32 slotId)
      rw [argSlotid] at hargs
      simp only [hargs, hnone]
      exact shortKey_nil
    · simp only [hargs, keyArgs_key, Option.getD_some]
      have hlen : (key.takeWhile (· ≠ 38)).length ≤ key.length := (List.takeWhile_sublist _).length_le
      rw [ShortKey] at hkey ⊢
      omega

structure Planned (namespaces : Bytes) (p : Parent) : Prop where
  namespaces : p.request.namespaces = namespaces
  keys : KeysShort p.request
  vectorSub : ∀ sub ∈ p.vectorSub, sub.Sound
  subrequest : ∀ sub ∈ p.subrequest, sub.Sound

section Calls

variable {h : Handler} {limits : Limits} {namespaces : Bytes} {p p' : Parent}

theorem Planned.setPhase (hp : Planned namespaces p) (phase : Phase) : Planned namespaces (p.setPhase phase) :=
  ⟨hp.namespaces,hp.keys,hp.vectorSub,hp.subrequest⟩

theorem Planned.entered (hp : Planned namespaces p) (phase : Phase) :
    Planned namespaces (if p.request.phase = .start then p.setPhase phase else p) := by
  split
  · exact hp.setPhase phase
  · exact hp

theorem slotSubs_sound {uri : CommandType} (huri : uri.OfSub) : ∀ sub ∈ p.slotSubs uri, sub.Sound := by
  intro sub hsub
  obtain ⟨slot,-,rfl⟩ := List.mem_map.mp hsub
  exact ⟨huri,.inl ⟨slot.1,rfl⟩⟩

theorem keySubs_sound {uri : CommandType} {β : Type} {m : List (Bytes × β)} (huri : uri.OfSub) (hm : ShortNames m) :
    ∀ sub ∈ m.map fun entry => keySub uri p.request.namespaces entry.1, sub.Sound := by
  intro sub hsub
  obtain ⟨entry,hentry,rfl⟩ := List.mem_map.mp hsub
  exact ⟨huri,.inr ⟨entry.1,_,hm entry hentry,rfl⟩⟩

theorem batch_planned {limit : Nat} {phase : Phase} {subs : List SubRequest} (hp : Planned namespaces p)
    (hsubs : ∀ sub ∈ subs, sub.Sound) (hbatch : p.batch limit phase subs = (.again,p')) :
    Planned namespaces p' := by
  unfold Parent.batch at hbatch
  split at hbatch
  · cases hbatch
  · cases hbatch
    exact ⟨hp.namespaces,hp.keys,fun sub hsub => hsubs sub (List.mem_of_mem_drop hsub),
      fun sub hsub => hsubs sub (List.mem_of_mem_take hsub)⟩

theorem createSubRequestMget_planned (hp : Planned namespaces p)
    (hagain : createSubRequestMget h p = (.again,p')) : Planned namespaces p' := by
  have hround {q : Parent} (hq : Planned namespaces q) : Planned namespaces
      ({ q with subrequest := q.subrequest ++ q.slotSubs .mget }.setPhase .done) :=
    ⟨hq.namespaces,hq.keys,hq.vectorSub,
      List.forall_mem_append.mpr ⟨hq.subrequest,slotSubs_sound (by decide)⟩⟩
  have hstart := hp.entered .mget
  unfold createSubRequestMget at hagain
  simp only at hagain
  generalize (if p.request.phase = .start then p.setPhase .mget else p) = q at hagain hstart
  split at hagain
  · cases hagain
    exact hround hstart
  · split at hagain
    · exact absurd hagain write_ne_again
    · cases hagain
  · cases hagain

theorem processMset_planned (hp : Planned namespaces p) (hagain : processMset limits p = (.again,p')) :
    Planned namespaces p' := by
  unfold processMset at hagain
  split at hagain
  · apply batch_planned hp _ hagain
    split
    · exact slotSubs_sound (by decide)
    · exact hp.vectorSub
  · split at hagain
    · cases hagain
    · split at hagain
      · cases hagain
        exact hp.setPhase .mset
      · cases hagain
  · cases hagain

theorem createSubRequestMset_planned (hp : Planned namespaces p)
    (hagain : createSubRequestMset h limits p = (.again,p')) : Planned namespaces p' := by
  have hstart := hp.entered .mset
  unfold createSubRequestMset at hagain
  simp only at hagain
  generalize (if p.request.phase = .start then p.setPhase .mset else p) = q at hagain hstart
  split at hagain
  · rename_i q' hprocess
    have hq' := processMset_planned hstart hprocess
    split at hagain
    · exact processMset_planned hq' hagain
    · split at hagain
      · cases hagain
        exact hq'
      · cases hagain
  · exact absurd hagain write_ne_again
  · cases hagain

theorem createSubRequestZfixedsetAdd_planned (hp : Planned namespaces p)
    (hagain : createSubRequestZfixedsetAdd h limits p = (.again,p')) : Planned namespaces p' := by
  have hstart := hp.entered .zfixedsetAdd
  unfold createSubRequestZfixedsetAdd at hagain
  simp only at hagain
  generalize (if p.request.phase = .start then p.setPhase .zfixedsetAdd else p) = q at hagain hstart
  split at hagain
  · apply batch_planned hstart _ hagain
    split
    · exact keySubs_sound (by decide) hstart.keys.names
    · exact hstart.vectorSub
  · split at hagain
    · cases hagain
    · have hnone : Planned namespaces { q with subrequest := [] } :=
        ⟨hstart.namespaces,hstart.keys,hstart.vectorSub,nofun⟩
      split at hagain
      · cases hagain
        exact hnone.setPhase .zfixedsetBatchadd
      · exact createSubRequestMset_planned hnone hagain
  · exact createSubRequestMset_planned hstart hagain

theorem processZfixedsetBatchAdd_planned (hp : Planned namespaces p)
    (hagain : processZfixedsetBatchAdd h limits p = (.again,p')) : Planned namespaces p' := by
  unfold processZfixedsetBatchAdd at hagain
  apply createSubRequestZfixedsetAdd_planned _ hagain
  split
  · exact hp.setPhase .zfixedsetAdd
  · exact hp

theorem createSubRequestZfixedsetBatchAdd_planned (hp : Planned namespaces p)
    (hagain : createSubRequestZfixedsetBatchAdd h limits p = (.again,p')) : Planned namespaces p' := by
  have hstart := hp.entered .zfixedsetBatchadd
  unfold createSubRequestZfixedsetBatchAdd at hagain
  simp only at hagain
  generalize (if p.request.phase = .start then p.setPhase .zfixedsetBatchadd else p) = q at hagain hstart
  split at hagain
  · rename_i q' hprocess
    have hq' := processZfixedsetBatchAdd_planned hstart hprocess
    split at hagain
    · exact processZfixedsetBatchAdd_planned hq' hagain
    · cases hagain
      exact hq'
  · exact processZfixedsetBatchAdd_planned hstart hagain

theorem createSubRequestZfixedsetGetByScore_planned (hp : Planned namespaces p)
    (hagain : createSubRequestZfixedsetGetByScore h p = (.again,p')) : Planned namespaces p' := by
  have hstart := hp.entered .zfixedsetGetbyscore
  unfold createSubRequestZfixedsetGetByScore at hagain
  simp only at hagain
  generalize (if p.request.phase = .start then p.setPhase .zfixedsetGetbyscore else p) = q at hagain hstart
  split at hagain
  · cases hagain
    refine ⟨hstart.namespaces,hstart.keys,hstart.vectorSub,keySubs_sound ?_ hstart.keys.queries⟩
    split
    · decide
    · decide
  · split at hagain
    · cases hagain
    · split at hagain
      · refine createSubRequestMget_planned ?_ hagain
        have hslots := fillSlots_entries q.request.namespaces hstart.keys.entries hstart.keys.slots
        exact ⟨hstart.namespaces,{ hstart.keys with slots := hslots },hstart.vectorSub,nofun⟩
      · exact absurd hagain finishGetByScore_ne_again
  · exact absurd hagain finishGetByScore_ne_again
  · cases hagain

/-- A call that wants to be called again keeps the plan sound. -/
theorem createSubRequestBody_planned (hp : Planned namespaces p)
    (hagain : createSubRequestBody h limits p = (.again,p')) : Planned namespaces p' := by
  unfold createSubRequestBody at hagain
  split at hagain
  · cases hagain
  · split at hagain
    · exact createSubRequestMget_planned hp hagain
    · exact createSubRequestMset_planned hp hagain
    · exact createSubRequestZfixedsetAdd_planned hp hagain
    · exact createSubRequestZfixedsetBatchAdd_planned hp hagain
    · exact createSubRequestZfixedsetGetByScore_planned hp hagain
    · exact createSubRequestZfixedsetGetByScore_planned hp hagain
    · unfold createSubRequestZfixedsetBatchGetByScore at hagain
      apply createSubRequestZfixedsetGetByScore_planned _ hagain
      split
      · exact hp.setPhase .zfixedsetGetbyscore
      · exact hp
    · cases hagain

end Calls

end QkPack
