import QkPack.FanOut.Calls

/-!
# What a call does in each phase

One equation for each command and phase that occur. A round takes as many sub-requests as the command's
maximum allows and leaves the others for the next call.
-/

namespace QkPack
open Wire CString Resp

/-- A round of at most `limit` sub-requests of `subs`. -/
def Parent.sent (p : Parent) (limit : Nat) (phase : Phase) (subs : List SubRequest) : Parent :=
  ⟨{ p.request with phase := phase },subs.drop limit,subs.take limit⟩

def Parent.keySubs (p : Parent) : List SubRequest :=
  p.request.mapKv.map fun kv => keySub .zadd p.request.namespaces kv.1

theorem batch_of_ne_nil {p : Parent} {limit : Nat} {phase : Phase} {subs : List SubRequest}
    (h : subs ≠ []) : p.batch limit phase subs = (.again,p.sent limit phase subs) := if_neg h

theorem batch_nil {p : Parent} {limit : Nat} {phase : Phase} :
    (p.batch limit phase []).1 = .error := rfl

theorem write_ne_again {h : Handler} {writer : Writer} {p p' : Parent} :
    p.write h writer ≠ (.again,p') := by
  unfold Parent.write Handler.write
  intro heq
  split at heq
  rename_i heq'
  split at heq' <;> cases heq' <;> cases heq

theorem write_eq {h : Handler} {writer : Writer} {q q' : Parent} {rc : QkpackRc} (hwrite : q.write h writer = (rc,q'))
    (hrc : rc ≠ .error) : ∃ body, q' = { q with request := { q.request with responseBuffer := body } } := by
  unfold Parent.write Handler.write at hwrite
  cases hbody : h.writer writer q.request with
  | none =>
    simp only [hbody] at hwrite
    cases hwrite
    exact absurd rfl hrc
  | some body =>
    simp only [hbody] at hwrite
    cases hwrite
    exact ⟨body,rfl⟩

section Cases

variable (h : Handler) (limits : Limits) {p p' : Parent}

theorem create_of_code (hcode : p.request.code ≠ .ok) :
    createSubRequestBody h limits p = (.error,p) := if_pos hcode

section Mset

theorem processMset_round (hphase : p.request.phase = .mset) :
    processMset limits p = p.batch limits.msetMaxCount .done
      (if p.vectorSub = [] then p.slotSubs .mset else p.vectorSub) := by
  unfold processMset
  rw [hphase]

theorem createSubRequestMset_start (hphase : p.request.phase = .start) :
    createSubRequestMset h limits p = createSubRequestMset h limits (p.setPhase .mset) := by
  have hnot : ¬ (p.setPhase .mset).request.phase = .start := nofun
  unfold createSubRequestMset
  simp only [if_pos hphase, if_neg hnot]

theorem createSubRequestMset_slots (hphase : p.request.phase = .mset) (hvector : p.vectorSub = [])
    (hslots : p.slotSubs .mset ≠ []) :
    createSubRequestMset h limits p = (.again,p.sent limits.msetMaxCount .done (p.slotSubs .mset)) := by
  have hnot : ¬ p.request.phase = .start := by simp [hphase]
  have hprocess : processMset limits p =
      (.again,p.sent limits.msetMaxCount .done (p.slotSubs .mset)) := by
    rw [processMset_round limits hphase, if_pos hvector]
    exact batch_of_ne_nil hslots
  unfold createSubRequestMset
  simp only [if_neg hnot, hprocess]
  rfl

theorem createSubRequestMset_empty (hphase : p.request.phase = .mset) (hvector : p.vectorSub = [])
    (hslots : p.slotSubs .mset = []) : (createSubRequestMset h limits p).1 = .error := by
  have hnot : ¬ p.request.phase = .start := by simp [hphase]
  have hprocess : processMset limits p = (.error,{ p with subrequest := [], vectorSub := [] }) := by
    rw [processMset_round limits hphase, if_pos hvector, hslots]
    rfl
  unfold createSubRequestMset
  simp only [if_neg hnot, hprocess]

theorem createSubRequestMset_rest (hphase : p.request.phase = .done) (hcode : p.request.code = .ok)
    (hvector : p.vectorSub ≠ []) :
    createSubRequestMset h limits p = (.again,p.sent limits.msetMaxCount .done p.vectorSub) := by
  have hfirst : processMset limits p = (.again,p.setPhase .mset) := by
    unfold processMset checkSubRequestStatus
    rw [hphase]
    simp [hcode, hvector]
  have hsecond : processMset limits (p.setPhase .mset) =
      (.again,p.sent limits.msetMaxCount .done p.vectorSub) := by
    have hrest : (p.setPhase .mset).vectorSub ≠ [] := hvector
    rw [processMset_round limits rfl, if_neg hrest]
    exact batch_of_ne_nil hrest
  have hnot : ¬ p.request.phase = .start := by simp [hphase]
  unfold createSubRequestMset
  simp only [if_neg hnot, hfirst]
  exact hsecond

theorem createSubRequestMset_done (hphase : p.request.phase = .done) (hcode : p.request.code = .ok)
    (hvector : p.vectorSub = []) : createSubRequestMset h limits p = p.write h .mset := by
  have hfirst : processMset limits p = (.ok,p) := by
    unfold processMset checkSubRequestStatus
    rw [hphase]
    simp [hcode, hvector]
  have hnot : ¬ p.request.phase = .start := by simp [hphase]
  unfold createSubRequestMset
  simp only [if_neg hnot, hfirst]

end Mset

section Zset

theorem createSubRequestZfixedsetAdd_round (hphase : p.request.phase = .zfixedsetAdd) :
    createSubRequestZfixedsetAdd h limits p = p.batch limits.batchaddMaxCount .mset
      (if p.vectorSub = [] then p.keySubs else p.vectorSub) := by
  have hnot : ¬ p.request.phase = .start := by simp [hphase]
  unfold createSubRequestZfixedsetAdd
  simp only [if_neg hnot]
  rw [hphase]
  rfl

theorem createSubRequestZfixedsetAdd_start (hphase : p.request.phase = .start) :
    createSubRequestZfixedsetAdd h limits p =
      createSubRequestZfixedsetAdd h limits (p.setPhase .zfixedsetAdd) := by
  have hnot : ¬ (p.setPhase .zfixedsetAdd).request.phase = .start := nofun
  unfold createSubRequestZfixedsetAdd
  simp only [if_pos hphase, if_neg hnot]

theorem createSubRequestZfixedsetAdd_rest (hphase : p.request.phase = .mset)
    (hcode : p.request.code = .ok) (hvector : p.vectorSub ≠ []) :
    createSubRequestZfixedsetAdd h limits p =
      (.again,{ p with subrequest := [] }.setPhase .zfixedsetBatchadd) := by
  have hnot : ¬ p.request.phase = .start := by simp [hphase]
  unfold createSubRequestZfixedsetAdd checkSubRequestStatus
  simp [hphase, hcode, hvector]

theorem createSubRequestZfixedsetAdd_last (hphase : p.request.phase = .mset)
    (hcode : p.request.code = .ok) (hvector : p.vectorSub = []) :
    createSubRequestZfixedsetAdd h limits p =
      createSubRequestMset h limits { p with subrequest := [] } := by
  unfold createSubRequestZfixedsetAdd checkSubRequestStatus
  simp [hphase, hcode, hvector]

theorem createSubRequestZfixedsetAdd_done (hphase : p.request.phase = .done) :
    createSubRequestZfixedsetAdd h limits p = createSubRequestMset h limits p := by
  have hnot : ¬ p.request.phase = .start := by simp [hphase]
  unfold createSubRequestZfixedsetAdd
  simp only [if_neg hnot]
  rw [hphase]

theorem createSubRequestZfixedsetBatchAdd_eq (hstart : p.request.phase ≠ .start)
    (hbatch : p.request.phase ≠ .zfixedsetBatchadd)
    (hphase : ∀ q, createSubRequestZfixedsetAdd h limits p = (.again,q) →
      q.request.phase ≠ .zfixedsetBatchadd) :
    createSubRequestZfixedsetBatchAdd h limits p = createSubRequestZfixedsetAdd h limits p := by
  have hprocess : processZfixedsetBatchAdd h limits p = createSubRequestZfixedsetAdd h limits p := by
    unfold processZfixedsetBatchAdd
    rw [if_neg hbatch]
  unfold createSubRequestZfixedsetBatchAdd
  simp only [if_neg hstart, hprocess]
  split
  · rename_i q heq
    rw [if_neg (hphase q heq), heq]
  · rfl

theorem createSubRequestZfixedsetBatchAdd_start (hphase : p.request.phase = .start) :
    createSubRequestZfixedsetBatchAdd h limits p =
      createSubRequestZfixedsetBatchAdd h limits (p.setPhase .zfixedsetAdd) := by
  have hnot : ¬ (p.setPhase .zfixedsetAdd).request.phase = .start := nofun
  unfold createSubRequestZfixedsetBatchAdd
  simp only [if_pos hphase, if_neg hnot]
  rfl

theorem processZfixedsetBatchAdd_next (hphase : p.request.phase = .zfixedsetBatchadd)
    (hvector : p.vectorSub ≠ []) : processZfixedsetBatchAdd h limits p =
      (.again,p.sent limits.batchaddMaxCount .mset p.vectorSub) := by
  have hvector' : (p.setPhase .zfixedsetAdd).vectorSub ≠ [] := hvector
  unfold processZfixedsetBatchAdd
  rw [if_pos hphase, createSubRequestZfixedsetAdd_round h limits rfl, if_neg hvector']
  exact batch_of_ne_nil hvector'

theorem createSubRequestZfixedsetBatchAdd_rest (hphase : p.request.phase = .mset)
    (hcode : p.request.code = .ok) (hvector : p.vectorSub ≠ []) :
    createSubRequestZfixedsetBatchAdd h limits p =
      (.again,p.sent limits.batchaddMaxCount .mset p.vectorSub) := by
  have hstart : ¬ p.request.phase = .start := by simp [hphase]
  have hbatch : ¬ p.request.phase = .zfixedsetBatchadd := by simp [hphase]
  have hfirst : processZfixedsetBatchAdd h limits p =
      (.again,{ p with subrequest := [] }.setPhase .zfixedsetBatchadd) := by
    unfold processZfixedsetBatchAdd
    rw [if_neg hbatch, createSubRequestZfixedsetAdd_rest h limits hphase hcode hvector]
  unfold createSubRequestZfixedsetBatchAdd
  simp only [if_neg hstart, hfirst]
  exact processZfixedsetBatchAdd_next h limits rfl hvector

end Zset

section Body

variable {h limits}

def CommandType.IsZset (command : CommandType) : Prop := command = .zadd ∨ command = .zbatchadd

/-- The commands whose last rounds are those of `MSET`. -/
def CommandType.Writes (command : CommandType) : Prop := command = .mset ∨ command.IsZset

theorem create_mset_first (hcommand : p.request.commandType = .mset) (hcode : p.request.code = .ok)
    (hphase : p.request.phase = .start) (hvector : p.vectorSub = []) (hslots : p.slotSubs .mset ≠ []) :
    createSubRequestBody h limits p =
      (.again,p.sent limits.msetMaxCount .done (p.slotSubs .mset)) := by
  have hbody : createSubRequestBody h limits p = createSubRequestMset h limits p := by
    simp [createSubRequestBody, hcode, hcommand]
  rw [hbody, createSubRequestMset_start h limits hphase]
  exact createSubRequestMset_slots h limits (p := p.setPhase .mset) rfl hvector hslots

theorem create_mset_empty (hcommand : p.request.commandType = .mset) (hcode : p.request.code = .ok)
    (hphase : p.request.phase = .start) (hvector : p.vectorSub = []) (hslots : p.slotSubs .mset = []) :
    (createSubRequestBody h limits p).1 = .error := by
  have hbody : createSubRequestBody h limits p = createSubRequestMset h limits p := by
    simp [createSubRequestBody, hcode, hcommand]
  rw [hbody, createSubRequestMset_start h limits hphase]
  exact createSubRequestMset_empty h limits rfl hvector hslots

theorem create_done_eq (hcommand : p.request.commandType.Writes) (hcode : p.request.code = .ok)
    (hphase : p.request.phase = .done) :
    createSubRequestBody h limits p = createSubRequestMset h limits p := by
  rcases hcommand with hmset | hzadd | hbatch
  · simp [createSubRequestBody, hcode, hmset]
  · simp only [createSubRequestBody, hcode, hzadd, ne_eq, not_true_eq_false, if_false]
    exact createSubRequestZfixedsetAdd_done h limits hphase
  · simp only [createSubRequestBody, hcode, hbatch, ne_eq, not_true_eq_false, if_false]
    rw [createSubRequestZfixedsetBatchAdd_eq h limits (by simp [hphase]) (by simp [hphase]),
      createSubRequestZfixedsetAdd_done h limits hphase]
    intro q hq
    rw [createSubRequestZfixedsetAdd_done h limits hphase] at hq
    by_cases hvector : p.vectorSub = []
    · rw [createSubRequestMset_done h limits hphase hcode hvector] at hq
      exact absurd hq write_ne_again
    · rw [createSubRequestMset_rest h limits hphase hcode hvector] at hq
      cases hq
      nofun

theorem create_done_rest (hcommand : p.request.commandType.Writes) (hcode : p.request.code = .ok)
    (hphase : p.request.phase = .done) (hvector : p.vectorSub ≠ []) :
    createSubRequestBody h limits p = (.again,p.sent limits.msetMaxCount .done p.vectorSub) := by
  rw [create_done_eq hcommand hcode hphase]
  exact createSubRequestMset_rest h limits hphase hcode hvector

theorem create_done (hcommand : p.request.commandType.Writes) (hcode : p.request.code = .ok)
    (hphase : p.request.phase = .done) (hvector : p.vectorSub = []) :
    createSubRequestBody h limits p = p.write h .mset := by
  rw [create_done_eq hcommand hcode hphase]
  exact createSubRequestMset_done h limits hphase hcode hvector

theorem create_zset_first_eq (hcommand : p.request.commandType.IsZset) (hcode : p.request.code = .ok)
    (hphase : p.request.phase = .start) (hvector : p.vectorSub = []) :
    createSubRequestBody h limits p =
      (p.setPhase .zfixedsetAdd).batch limits.batchaddMaxCount .mset p.keySubs := by
  have hround : createSubRequestZfixedsetAdd h limits (p.setPhase .zfixedsetAdd) =
      (p.setPhase .zfixedsetAdd).batch limits.batchaddMaxCount .mset p.keySubs := by
    have hvector' : (p.setPhase .zfixedsetAdd).vectorSub = [] := hvector
    rw [createSubRequestZfixedsetAdd_round h limits rfl, if_pos hvector']
    rfl
  rcases hcommand with hzadd | hbatch
  · simp only [createSubRequestBody, hcode, hzadd, ne_eq, not_true_eq_false, if_false]
    rw [createSubRequestZfixedsetAdd_start h limits hphase, hround]
  · simp only [createSubRequestBody, hcode, hbatch, ne_eq, not_true_eq_false, if_false]
    rw [createSubRequestZfixedsetBatchAdd_start h limits hphase,
      createSubRequestZfixedsetBatchAdd_eq h limits (by simp [Parent.setPhase])
        (by simp [Parent.setPhase]), hround]
    intro q hq
    rw [hround] at hq
    by_cases hkeys : p.keySubs = []
    · rw [hkeys] at hq
      cases hq
    · rw [batch_of_ne_nil hkeys] at hq
      cases hq
      nofun

theorem create_zset_first (hcommand : p.request.commandType.IsZset) (hcode : p.request.code = .ok)
    (hphase : p.request.phase = .start) (hvector : p.vectorSub = []) (hkeys : p.keySubs ≠ []) :
    createSubRequestBody h limits p = (.again,p.sent limits.batchaddMaxCount .mset p.keySubs) := by
  rw [create_zset_first_eq hcommand hcode hphase hvector]
  exact batch_of_ne_nil hkeys

theorem create_zset_empty (hcommand : p.request.commandType.IsZset) (hcode : p.request.code = .ok)
    (hphase : p.request.phase = .start) (hvector : p.vectorSub = []) (hkeys : p.keySubs = []) :
    (createSubRequestBody h limits p).1 = .error := by
  rw [create_zset_first_eq hcommand hcode hphase hvector, hkeys]
  exact batch_nil

theorem create_zset_rest (hcommand : p.request.commandType = .zbatchadd) (hcode : p.request.code = .ok)
    (hphase : p.request.phase = .mset) (hvector : p.vectorSub ≠ []) :
    createSubRequestBody h limits p = (.again,p.sent limits.batchaddMaxCount .mset p.vectorSub) := by
  simp only [createSubRequestBody, hcode, hcommand, ne_eq, not_true_eq_false, if_false]
  exact createSubRequestZfixedsetBatchAdd_rest h limits hphase hcode hvector

theorem create_zset_last_eq (hcommand : p.request.commandType.IsZset) (hcode : p.request.code = .ok)
    (hphase : p.request.phase = .mset) (hvector : p.vectorSub = []) :
    createSubRequestBody h limits p = createSubRequestMset h limits { p with subrequest := [] } := by
  have hlast := createSubRequestZfixedsetAdd_last h limits hphase hcode hvector
  rcases hcommand with hzadd | hbatch
  · simp only [createSubRequestBody, hcode, hzadd, ne_eq, not_true_eq_false, if_false]
    exact hlast
  · simp only [createSubRequestBody, hcode, hbatch, ne_eq, not_true_eq_false, if_false]
    rw [createSubRequestZfixedsetBatchAdd_eq h limits (by simp [hphase]) (by simp [hphase]), hlast]
    intro q hq
    rw [hlast] at hq
    by_cases hslots : p.slotSubs .mset = []
    · have herror := createSubRequestMset_empty h limits (p := { p with subrequest := [] }) hphase
        hvector hslots
      rw [hq] at herror
      cases herror
    · rw [createSubRequestMset_slots h limits (p := { p with subrequest := [] }) hphase hvector
        hslots] at hq
      cases hq
      nofun

theorem create_zset_last (hcommand : p.request.commandType.IsZset) (hcode : p.request.code = .ok)
    (hphase : p.request.phase = .mset) (hvector : p.vectorSub = []) (hslots : p.slotSubs .mset ≠ []) :
    createSubRequestBody h limits p =
      (.again,p.sent limits.msetMaxCount .done (p.slotSubs .mset)) := by
  rw [create_zset_last_eq hcommand hcode hphase hvector]
  exact createSubRequestMset_slots h limits (p := { p with subrequest := [] }) hphase hvector hslots

theorem create_zset_last_empty (hcommand : p.request.commandType.IsZset) (hcode : p.request.code = .ok)
    (hphase : p.request.phase = .mset) (hvector : p.vectorSub = []) (hslots : p.slotSubs .mset = []) :
    (createSubRequestBody h limits p).1 = .error := by
  rw [create_zset_last_eq hcommand hcode hphase hvector]
  exact createSubRequestMset_empty h limits (p := { p with subrequest := [] }) hphase hvector hslots

end Body

section Reads

variable {h limits}

theorem create_mget_first (hcommand : p.request.commandType = .mget) (hcode : p.request.code = .ok)
    (hphase : p.request.phase = .start) :
    createSubRequestBody h limits p =
      (.again,{ p with subrequest := p.subrequest ++ p.slotSubs .mget }.setPhase .done) := by
  simp only [createSubRequestBody, hcode, hcommand, ne_eq, not_true_eq_false, if_false,
    createSubRequestMget, if_pos hphase]
  rfl

theorem createSubRequestMget_done (hphase : p.request.phase = .done) :
    createSubRequestMget h p ≠ (.again,p') := by
  have hnot : ¬ p.request.phase = .start := by simp [hphase]
  unfold createSubRequestMget
  simp only [if_neg hnot]
  rw [hphase]
  intro heq
  simp only at heq
  split at heq
  · exact write_ne_again heq
  · cases heq

theorem create_mget_done (hcommand : p.request.commandType = .mget) (hphase : p.request.phase = .done) :
    createSubRequestBody h limits p ≠ (.again,p') := by
  unfold createSubRequestBody
  rw [hcommand]
  intro heq
  split at heq
  · cases heq
  · exact createSubRequestMget_done hphase heq

theorem finishGetByScore_ne_again : finishGetByScore h p ≠ (.again,p') := by
  unfold finishGetByScore
  intro heq
  split at heq
  · cases heq
  · exact write_ne_again heq

def CommandType.Queries (command : CommandType) : Prop :=
  command = .zrangebyscore ∨ command = .zrange ∨ command = .batchzrangebyscore

theorem createSubRequestZfixedsetGetByScore_again (hquery : p.request.mapQuery ≠ [])
    (hagain : createSubRequestZfixedsetGetByScore h p = (.again,p')) :
    p'.subrequest ≠ [] ∧ p'.request.commandType = p.request.commandType ∧
      p'.request.mapQuery = p.request.mapQuery := by
  have hround {q : Parent} (hphase : q.request.phase = .zfixedsetGetbyscore)
      (hq : q.request.mapQuery ≠ []) (heq : createSubRequestZfixedsetGetByScore h q = (.again,p')) :
      p'.subrequest ≠ [] ∧ p'.request.commandType = q.request.commandType ∧
        p'.request.mapQuery = q.request.mapQuery := by
    have hnot : ¬ q.request.phase = .start := by simp [hphase]
    unfold createSubRequestZfixedsetGetByScore at heq
    simp only [if_neg hnot] at heq
    rw [hphase] at heq
    cases heq
    refine ⟨?_,rfl,rfl⟩
    exact fun hnil => hq (List.map_eq_nil_iff.mp hnil)
  by_cases hstart : p.request.phase = .start
  · have hsame : createSubRequestZfixedsetGetByScore h p =
        createSubRequestZfixedsetGetByScore h (p.setPhase .zfixedsetGetbyscore) := by
      have hnot : ¬ (p.setPhase .zfixedsetGetbyscore).request.phase = .start := nofun
      unfold createSubRequestZfixedsetGetByScore
      simp only [if_pos hstart, if_neg hnot]
    rw [hsame] at hagain
    exact hround (q := p.setPhase .zfixedsetGetbyscore) rfl hquery hagain
  by_cases hfirst : p.request.phase = .zfixedsetGetbyscore
  · exact hround hfirst hquery hagain
  · unfold createSubRequestZfixedsetGetByScore at hagain
    simp only [if_neg hstart] at hagain
    split at hagain
    · exact absurd ‹_› hfirst
    · rename_i hphase
      split at hagain
      · cases hagain
      · split at hagain
        · rename_i hslots
          have hmget : ¬ Phase.mget = Phase.start := nofun
          unfold createSubRequestMget at hagain
          simp only [hphase, if_neg hmget] at hagain
          cases hagain
          refine ⟨?_,rfl,rfl⟩
          simpa [Parent.slotSubs, Parent.setPhase] using hslots
        · exact absurd hagain finishGetByScore_ne_again
    · exact absurd hagain finishGetByScore_ne_again
    · cases hagain

theorem create_query_again (hcommand : p.request.commandType.Queries) (hquery : p.request.mapQuery ≠ [])
    (hagain : createSubRequestBody h limits p = (.again,p')) :
    p'.subrequest ≠ [] ∧ p'.request.commandType = p.request.commandType ∧
      p'.request.mapQuery = p.request.mapQuery := by
  unfold createSubRequestBody at hagain
  split at hagain
  · cases hagain
  · rcases hcommand with hct | hct | hct
    · rw [hct] at hagain
      exact createSubRequestZfixedsetGetByScore_again hquery hagain
    · rw [hct] at hagain
      exact createSubRequestZfixedsetGetByScore_again hquery hagain
    · rw [hct] at hagain
      simp only [createSubRequestZfixedsetBatchGetByScore] at hagain
      split at hagain
      · exact createSubRequestZfixedsetGetByScore_again (p := p.setPhase .zfixedsetGetbyscore) hquery
          hagain
      · exact createSubRequestZfixedsetGetByScore_again hquery hagain

end Reads

end Cases

end QkPack
