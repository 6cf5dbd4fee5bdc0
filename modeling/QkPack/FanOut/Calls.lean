import QkPack.FanOut.ParentWrites

/-!
# The calls of `CreateSubRequestBody`

A request answered by sub-requests seen from its parser: calls of `CreateSubRequestBody`, and between two
calls whatever the sub-requests of the round write. They leave the plan alone, that is, all that decides
which sub-requests are still to be sent.
-/

namespace QkPack
open Wire CString Resp Relation

/-- What sub-requests never write to their parent. -/
structure SamePlan (p p' : Request) : Prop where
  commandType : p'.commandType = p.commandType
  phase : p'.phase = p.phase
  namespaces : p'.namespaces = p.namespaces
  mapQuery : p'.mapQuery = p.mapQuery
  slots : p'.mapSlotsKv.map (·.1) = p.mapSlotsKv.map (·.1)

theorem SamePlan.refl (p : Request) : SamePlan p p := ⟨rfl,rfl,rfl,rfl,rfl⟩

theorem SamePlan.trans {p q r : Request} (hpq : SamePlan p q) (hqr : SamePlan q r) : SamePlan p r :=
  ⟨hqr.commandType.trans hpq.commandType,hqr.phase.trans hpq.phase,hqr.namespaces.trans hpq.namespaces,
    hqr.mapQuery.trans hpq.mapQuery,hqr.slots.trans hpq.slots⟩

/-- What is done to a request before the first call: limits, expiry and cost are no part of the plan. -/
structure Admitted (r r' : Request) : Prop where
  plan : SamePlan r r'
  sets : r'.mapKv.map (·.1) = r.mapKv.map (·.1)

theorem Admitted.refl (r : Request) : Admitted r r := ⟨.refl r,rfl⟩

theorem setSlotValue_samePlan {p p' : Request} {slotId : Int} {i : Nat} {value : Bytes}
    (h : p.setSlotValue slotId i value = .ok p') : SamePlan p p' := by
  unfold Request.setSlotValue at h
  split at h
  · cases h
  · split at h
    · cases h
      refine ⟨rfl,rfl,rfl,rfl,?_⟩
      rw [List.map_map]
      apply List.map_congr_left
      intro slot _
      simp only [Function.comp_apply]
      split <;> rfl
    · cases h

theorem ParentWrites.samePlan {key : Bytes} {p p' : Request} (h : ParentWrites key p p') : SamePlan p p' := by
  induction h with
  | refl => exact .refl p
  | tail _ hwrite ih =>
    refine ih.trans ?_
    cases hwrite with
    | slotValue hset => exact setSlotValue_samePlan hset
    | member kv _ _ => exact ⟨rfl,rfl,rfl,rfl,rfl⟩
    | code request => exact ⟨rfl,rfl,rfl,rfl,rfl⟩

section Calls

variable (h : Handler) (limits : Limits)

/-- A call that wants to be called again, with the request as the sub-requests have left it. -/
def callStep (p : Parent) (request : Request) : Option Parent :=
  match createSubRequestBody h limits { p with request := request } with
  | (.again,p) => some p
  | _ => none

def dispatch : Parent → List Request → List (List SubRequest) × QkpackRc
  | _, [] => ([],.again)
  | p, request :: requests =>
    match createSubRequestBody h limits { p with request := request } with
    | (.again,p) =>
      let (rounds,rc) := dispatch p requests
      (p.subrequest :: rounds,rc)
    | (rc,_) => ([],rc)

abbrev KeptPlan (p : Parent) (request : Request) : Prop := SamePlan p.request request

/-- A request without a code whose sub-requests have reported none. -/
abbrev NoError (p : Parent) (request : Request) : Prop := SamePlan p.request request ∧ request.code = .ok

variable {h limits}

theorem callStep_eq_some {p p' : Parent} {request : Request} :
    callStep h limits p request = some p' ↔
      createSubRequestBody h limits { p with request := request } = (.again,p') := by
  unfold callStep
  split
  · rename_i heq
    rw [heq, Option.some.injEq, Prod.mk.injEq]
    exact (and_iff_right rfl).symm
  · rename_i hne
    constructor
    · intro hnone
      cases hnone
    · intro heq
      exact absurd heq (hne p')

end Calls

section Rounds

variable {h : Handler} {limits : Limits} {conf : UpstreamConf} {s s' : FanOut}

/-- A fan-out that is not over: no call was made yet, or its state is one that the calls have reached, up to
what the sub-requests of this round have written since. -/
def Reached (h : Handler) (limits : Limits) (r : Request) (s : FanOut) : Prop :=
  s.final = none → s.parent = ⟨r,[],[]⟩ ∧ s.subs = [] ∨
    ∃ r' rs p, Admitted r r' ∧ Machine.Along (callStep h limits) KeptPlan ⟨r',[],[]⟩ (r' :: rs) ∧
      Machine.run (callStep h limits) ⟨r',[],[]⟩ (r' :: rs) = some p ∧
      s.parent.vectorSub = p.vectorSub ∧ s.parent.subrequest = p.subrequest ∧
      SamePlan p.request s.parent.request

theorem qksubrequestPost_again {p : Parent} (hfinal : (qksubrequestPost h limits s p).final = none) :
    ∃ p', createSubRequestBody h limits p = (.again,p') ∧ (qksubrequestPost h limits s p).parent = p' := by
  unfold qksubrequestPost at hfinal ⊢
  split at hfinal
  · rename_i p' heq
    refine ⟨p',?_,rfl⟩
    unfold processParent at heq
    split at heq
    · cases heq
    · exact heq
  · cases hfinal

theorem fanStep_reached {r : Request} {e : FanEvent} (hs : Reached h limits r s)
    (hstep : fanStep h limits conf s e = some s') : Reached h limits r s' := by
  obtain ⟨hfinal,hnext⟩ := fanStep_next hstep
  intro hfinal'
  cases hnext with
  | writes key request hsubs _ hwrites hparent _ =>
    rcases hs hfinal with ⟨-,hnone⟩ | ⟨r',rs,p,hadmitted,halong,hrun,hvector,hsub,hplan⟩
    · exact absurd hnone hsubs
    · rw [hparent]
      exact .inr ⟨r',rs,p,hadmitted,halong,hrun,hvector,hsub,hplan.trans hwrites.samePlan⟩
  | call cost hs' =>
    subst hs'
    obtain ⟨p',hagain,hparent⟩ := qksubrequestPost_again hfinal'
    rw [hparent]
    rcases hs hfinal with ⟨hstart,-⟩ | ⟨r',rs,p,hadmitted,halong,hrun,hvector,hsub,hplan⟩
    · rw [hstart] at hagain
      have hcall : callStep h limits ⟨{ r with cost := cost },[],[]⟩ { r with cost := cost } = some p' :=
        callStep_eq_some.mpr hagain
      refine .inr ⟨{ r with cost := cost },[],p',⟨⟨rfl,rfl,rfl,rfl,rfl⟩,rfl⟩,
        ⟨.refl _,fun _ _ => trivial⟩,?_,rfl,rfl,.refl _⟩
      rw [Machine.run, hcall]
      rfl
    · have hsame : ({ p with request := { s.parent.request with cost := cost } } : Parent) =
          { s.parent with request := { s.parent.request with cost := cost } } := by
        rw [Parent.mk.injEq]
        exact ⟨rfl,hvector.symm,hsub.symm⟩
      have hcall : callStep h limits p { s.parent.request with cost := cost } = some p' := by
        rw [callStep_eq_some, hsame]
        exact hagain
      refine .inr ⟨r',rs ++ [{ s.parent.request with cost := cost }],p',hadmitted,?_,?_,rfl,rfl,.refl _⟩
      · exact halong.concat hrun (hplan.trans ⟨rfl,rfl,rfl,rfl,rfl⟩)
      · rw [← List.cons_append, Machine.run_append hrun, Machine.run, hcall]
        rfl
  | ends hends =>
    rw [hends] at hfinal'
    cases hfinal'

/-- Every run of the fan-out is a sequence of calls between which the plan is kept. -/
theorem reached_run {request : Request} {es : List FanEvent}
    (hrun : Machine.run (fanStep h limits conf) (FanOut.start request) es = some s) :
    Reached h limits request s := by
  refine Machine.always_run fanStep_reached ?_ hrun
  intro _
  exact .inl ⟨rfl,rfl⟩

end Rounds

end QkPack
