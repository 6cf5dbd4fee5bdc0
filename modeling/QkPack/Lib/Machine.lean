import Mathlib.Data.List.Basic

/-!
# Runs of a machine

A machine is a partial step function on states and events. A run feeds it a list of events; invariants
are carried along runs all of whose steps meet a condition.
-/

namespace Machine

variable {σ ε : Type} (step : σ → ε → Option σ)

/-- The state after a list of events, if every one of them was possible. -/
def run : σ → List ε → Option σ
  | s, [] => some s
  | s, e :: es => (step s e).bind fun s' => run s' es

/-- Every step that the events take meets the condition `P`. -/
def Along (P : σ → ε → Prop) : σ → List ε → Prop
  | _, [] => True
  | s, e :: es => P s e ∧ ∀ s', step s e = some s' → Along P s' es

instance decidableAlong (P : σ → ε → Prop) [∀ s e, Decidable (P s e)] :
    ∀ s es, Decidable (Along step P s es)
  | _, [] => isTrue trivial
  | s, e :: es =>
    match hs : step s e with
    | none => decidable_of_iff (P s e) (by simp [Along, hs])
    | some s' =>
      have := decidableAlong P s' es
      decidable_of_iff (P s e ∧ Along step P s' es) (by simp [Along, hs])

variable {step}

theorem run_cons_eq_some {s t : σ} {e : ε} {es : List ε} :
    run step s (e :: es) = some t ↔ ∃ s', step s e = some s' ∧ run step s' es = some t :=
  Option.bind_eq_some_iff

theorem run_single {s t : σ} {e : ε} (h : step s e = some t) : run step s [e] = some t :=
  run_cons_eq_some.mpr ⟨t,h,rfl⟩

theorem run_append {s t : σ} {es fs : List ε} (h : run step s es = some t) :
    run step s (es ++ fs) = run step t fs := by
  induction es generalizing s with
  | nil =>
    cases h
    rfl
  | cons e es ih =>
    obtain ⟨s',hstep,hrun⟩ := run_cons_eq_some.mp h
    rw [List.cons_append, run, hstep]
    exact ih hrun

/-- A machine whose steps are runs of another is simulated by it. -/
theorem simulated_run {σ' ε' : Type} {step' : σ' → ε' → Option σ'} {R : σ → σ' → Prop}
    (hstep : ∀ {s s' t e}, R s t → step s e = some s' → ∃ fs t', run step' t fs = some t' ∧ R s' t')
    {s s' : σ} {t : σ'} {es : List ε} (hR : R s t) (hrun : run step s es = some s') :
    ∃ fs t', run step' t fs = some t' ∧ R s' t' := by
  induction es generalizing s t with
  | nil =>
    cases hrun
    exact ⟨[],t,rfl,hR⟩
  | cons e es ih =>
    obtain ⟨s₁,hfirst,hrest⟩ := run_cons_eq_some.mp hrun
    obtain ⟨fs,t₁,hfs,hR₁⟩ := hstep hR hfirst
    obtain ⟨gs,t₂,hgs,hR₂⟩ := ih hR₁ hrest
    exact ⟨fs ++ gs,t₂,(run_append hfs).trans hgs,hR₂⟩

/-- A simulation in which both machines let the same be observed. -/
theorem observed_run {σ' ε' ω : Type} {step' : σ' → ε' → Option σ'} {R : σ → σ' → Prop} {P : ε → Prop}
    {seen : ε → List ω} {seen' : ε' → List ω}
    (hstep : ∀ {s s' t e}, R s t → P e → step s e = some s' →
      ∃ fs t', run step' t fs = some t' ∧ fs.flatMap seen' = seen e ∧ R s' t')
    {s s' : σ} {t : σ'} {es : List ε} (hR : R s t) (hevents : ∀ e ∈ es, P e) (hrun : run step s es = some s') :
    ∃ fs t', run step' t fs = some t' ∧ fs.flatMap seen' = es.flatMap seen ∧ R s' t' := by
  induction es generalizing s t with
  | nil =>
    cases hrun
    exact ⟨[],t,rfl,rfl,hR⟩
  | cons e es ih =>
    obtain ⟨s₁,hfirst,hrest⟩ := run_cons_eq_some.mp hrun
    obtain ⟨he,hes⟩ := List.forall_mem_cons.mp hevents
    obtain ⟨fs,t₁,hfs,hseen,hR₁⟩ := hstep hR he hfirst
    obtain ⟨gs,t₂,hgs,hseen',hR₂⟩ := ih hR₁ hes hrest
    refine ⟨fs ++ gs,t₂,(run_append hfs).trans hgs,?_,hR₂⟩
    rw [List.flatMap_append, List.flatMap_cons, hseen, hseen']

theorem along_of_forall {P : ε → Prop} {s : σ} {es : List ε} (h : ∀ e ∈ es, P e) :
    Along step (fun _ e => P e) s es := by
  induction es generalizing s with
  | nil => trivial
  | cons e es ih =>
    obtain ⟨he,hes⟩ := List.forall_mem_cons.mp h
    exact ⟨he,fun s' _ => ih hes⟩

theorem Along.and {P Q : σ → ε → Prop} {s : σ} {es : List ε} (hP : Along step P s es)
    (hQ : Along step Q s es) : Along step (fun s e => P s e ∧ Q s e) s es := by
  induction es generalizing s with
  | nil => trivial
  | cons e es ih => exact ⟨⟨hP.1,hQ.1⟩,fun s' hs' => ih (hP.2 s' hs') (hQ.2 s' hs')⟩

theorem Along.imp {P Q : σ → ε → Prop} (hPQ : ∀ s e, P s e → Q s e) {s : σ} {es : List ε}
    (hP : Along step P s es) : Along step Q s es := by
  induction es generalizing s with
  | nil => trivial
  | cons e es ih => exact ⟨hPQ s e hP.1,fun s' hs' => ih (hP.2 s' hs')⟩

theorem Along.append {P : σ → ε → Prop} {s t : σ} {es fs : List ε} (h : Along step P s (es ++ fs))
    (hrun : run step s es = some t) : Along step P s es ∧ Along step P t fs := by
  induction es generalizing s with
  | nil =>
    cases hrun
    exact ⟨trivial,h⟩
  | cons e es ih =>
    obtain ⟨s',hs',hrest⟩ := run_cons_eq_some.mp hrun
    obtain ⟨hes,hfs⟩ := ih (h.2 s' hs') hrest
    refine ⟨⟨h.1,fun s'' hs'' => ?_⟩,hfs⟩
    cases hs'.symm.trans hs''
    exact hes

theorem Along.concat {P : σ → ε → Prop} {s t : σ} {e : ε} {es : List ε} (h : Along step P s es)
    (hrun : run step s es = some t) (he : P t e) : Along step P s (es ++ [e]) := by
  induction es generalizing s with
  | nil =>
    cases hrun
    exact ⟨he,fun _ _ => trivial⟩
  | cons e' es ih =>
    obtain ⟨s',hs',hrest⟩ := run_cons_eq_some.mp hrun
    refine ⟨h.1,fun s'' hs'' => ?_⟩
    cases hs'.symm.trans hs''
    exact ih (h.2 s' hs') hrest

/-- What every step within the condition preserves, a whole run preserves. -/
theorem invariant_run {I : σ → Prop} {P : σ → ε → Prop}
    (hstep : ∀ {s e s'}, I s → P s e → step s e = some s' → I s')
    {s t : σ} {es : List ε} (hs : I s) (halong : Along step P s es) (hrun : run step s es = some t) :
    I t := by
  induction es generalizing s with
  | nil =>
    cases hrun
    exact hs
  | cons e es ih =>
    obtain ⟨s',hs',hrest⟩ := run_cons_eq_some.mp hrun
    exact ih (hstep hs halong.1 hs') (halong.2 s' hs') hrest

theorem always_run {I : σ → Prop} (hstep : ∀ {s e s'}, I s → step s e = some s' → I s')
    {s t : σ} {es : List ε} (hs : I s) (hrun : run step s es = some t) : I t := by
  induction es generalizing s with
  | nil =>
    cases hrun
    exact hs
  | cons e es ih =>
    obtain ⟨s',hs',hrest⟩ := run_cons_eq_some.mp hrun
    exact ih (hstep hs hs') hrest

/-- What every step preserves together with the events so far, a whole run preserves. -/
theorem traced_run {I : List ε → σ → Prop} (hstep : ∀ {es s e s'}, I es s → step s e = some s' → I (es ++ [e]) s')
    {s : σ} (hs : I [] s) {es : List ε} {t : σ} (hrun : run step s es = some t) : I es t := by
  suffices h : ∀ {before s}, I before s → run step s es = some t → I (before ++ es) t from h hs hrun
  clear hs hrun
  induction es with
  | nil =>
    intro before s hs hrun
    cases hrun
    rwa [List.append_nil]
  | cons e es ih =>
    intro before s hs hrun
    obtain ⟨s',hs',hrest⟩ := run_cons_eq_some.mp hrun
    simpa using ih (hstep hs hs') hrest

/-- A condition holds along the events if it holds of each of them that a run gets to. -/
theorem along_iff_forall_run {P : σ → ε → Prop} {s : σ} {es : List ε} :
    Along step P s es ↔
      ∀ before e after t, es = before ++ e :: after → run step s before = some t → P t e := by
  induction es generalizing s with
  | nil => simp [Along]
  | cons e es ih =>
    constructor
    · rintro ⟨hfirst,hrest⟩ before e' after t hes hrun
      cases before with
      | nil =>
        cases hes
        cases hrun
        exact hfirst
      | cons _ before =>
        cases hes
        obtain ⟨s',hs',hrun'⟩ := run_cons_eq_some.mp hrun
        exact ih.mp (hrest s' hs') before e' after t rfl hrun'
    · intro hall
      refine ⟨hall [] e es s rfl rfl,fun s' hs' => ih.mpr ?_⟩
      rintro before e' after t rfl hrun
      exact hall (e :: before) e' after t rfl (run_cons_eq_some.mpr ⟨s',hs',hrun⟩)

/-- Conditions that agree in the states of an invariant agree along all events, also where no run gets through. -/
theorem along_congr {I : σ → Prop} {P Q : σ → ε → Prop}
    (hstep : ∀ {s e s'}, I s → step s e = some s' → I s') (hiff : ∀ {s e}, I s → (P s e ↔ Q s e))
    {s : σ} {es : List ε} (hs : I s) : Along step P s es ↔ Along step Q s es := by
  induction es generalizing s with
  | nil => exact Iff.rfl
  | cons e es ih =>
    apply and_congr (hiff hs)
    apply forall_congr'
    intro s'
    apply imp_congr_right
    intro hs'
    exact ih (hstep hs hs')

/-- Conditions that agree in the states of an invariant agree along every run, when the second of them keeps the
invariant. -/
theorem along_iff_while {I : σ → Prop} {P Q : σ → ε → Prop}
    (hiff : ∀ {s e s'}, I s → step s e = some s' → (P s e ↔ Q s e))
    (hkeep : ∀ {s e s'}, I s → Q s e → step s e = some s' → I s')
    {s t : σ} {es : List ε} (hs : I s) (hrun : run step s es = some t) :
    Along step P s es ↔ Along step Q s es := by
  induction es generalizing s with
  | nil => exact Iff.rfl
  | cons e es ih =>
    obtain ⟨s',hs',hrest⟩ := run_cons_eq_some.mp hrun
    constructor
    · rintro ⟨hP,halong⟩
      have hQ := (hiff hs hs').mp hP
      refine ⟨hQ,fun s'' hs'' => ?_⟩
      cases hs'.symm.trans hs''
      exact (ih (hkeep hs hQ hs') hrest).mp (halong s' hs')
    · rintro ⟨hQ,halong⟩
      refine ⟨(hiff hs hs').mpr hQ,fun s'' hs'' => ?_⟩
      cases hs'.symm.trans hs''
      exact (ih (hkeep hs hQ hs') hrest).mpr (halong s' hs')

/-- Conditions that agree at the steps from the states of an invariant agree along every run. -/
theorem along_iff_along {I : σ → Prop} {P Q : σ → ε → Prop}
    (hstep : ∀ {s e s'}, I s → step s e = some s' → I s')
    (hiff : ∀ {s e s'}, I s → step s e = some s' → (P s e ↔ Q s e))
    {s t : σ} {es : List ε} (hs : I s) (hrun : run step s es = some t) :
    Along step P s es ↔ Along step Q s es :=
  along_iff_while hiff (fun hI _ => hstep hI) hs hrun

/-- An invariant that a step keeps exactly if it meets a condition is kept all along a run exactly if all its steps
meet the condition. -/
theorem along_invariant_iff {I : σ → Prop} {P : σ → ε → Prop}
    (hstep : ∀ {s e s'}, I s → step s e = some s' → (I s' ↔ P s e))
    {s t : σ} {es : List ε} (hs : I s) (hrun : run step s es = some t) :
    Along step (fun s e => ∀ s', step s e = some s' → I s') s es ↔ Along step P s es := by
  refine along_iff_while (I := I) ?_ (fun hI hP hstep' => (hstep hI hstep').mpr hP) hs hrun
  intro s e s' hI hs'
  rw [← hstep hI hs']
  constructor
  · exact fun h => h s' hs'
  · intro h s'' hs''
    cases hs'.symm.trans hs''
    exact h

/-- A property that a step keeps exactly if it meets a condition holds after a run exactly if all its steps meet
the condition. -/
theorem holds_run_iff {I G : σ → Prop} {P : σ → ε → Prop}
    (hstep : ∀ {s e s'}, I s → step s e = some s' → I s' ∧ (G s' ↔ G s ∧ P s e))
    {s t : σ} {es : List ε} (hs : I s) (hrun : run step s es = some t) : G t ↔ G s ∧ Along step P s es := by
  induction es generalizing s with
  | nil =>
    cases hrun
    exact (and_iff_left trivial).symm
  | cons e es ih =>
    obtain ⟨s',hs',hrest⟩ := run_cons_eq_some.mp hrun
    obtain ⟨hI,hiff⟩ := hstep hs hs'
    rw [ih hI hrest, hiff, and_assoc, Along]
    constructor
    · rintro ⟨hG,hP,halong⟩
      refine ⟨hG,hP,fun s'' hs'' => ?_⟩
      cases hs'.symm.trans hs''
      exact halong
    · rintro ⟨hG,hP,halong⟩
      exact ⟨hG,hP,halong s' hs'⟩

/-- A run that breaks the condition does so at one of its steps. -/
theorem exists_of_not_along {P : σ → ε → Prop} {s t : σ} {es : List ε} (hrun : run step s es = some t)
    (hnot : ¬ Along step P s es) :
    ∃ pre e post s₁ s₂, es = pre ++ e :: post ∧ run step s pre = some s₁ ∧ step s₁ e = some s₂ ∧
      run step s₂ post = some t ∧ ¬ P s₁ e := by
  induction es generalizing s with
  | nil => exact absurd trivial hnot
  | cons e es ih =>
    obtain ⟨s',hs',hrest⟩ := run_cons_eq_some.mp hrun
    by_cases hP : P s e
    · have hlater : ¬ Along step P s' es := by
        intro hlater
        refine hnot ⟨hP,fun s'' hs'' => ?_⟩
        cases hs'.symm.trans hs''
        exact hlater
      obtain ⟨pre,e',post,s₁,s₂,rfl,hpre,hstep,hpost,hbreak⟩ := ih hrest hlater
      refine ⟨e :: pre,e',post,s₁,s₂,rfl,?_,hstep,hpost,hbreak⟩
      rw [run, hs']
      exact hpre
    · exact ⟨[],e,es,s,s',rfl,rfl,hs',hrest,hP⟩

/-- A map that turns each step from a state of the invariant into the step of another machine does so with runs. -/
theorem map_run {σ' : Type} {step' : σ' → ε → Option σ'} {I : σ → Prop} {f : σ → σ'}
    (hstep : ∀ {s e s'}, I s → step s e = some s' → I s')
    (hmap : ∀ {s e}, I s → (step s e).map f = step' (f s) e) {s : σ} (hs : I s) (es : List ε) :
    (run step s es).map f = run step' (f s) es := by
  induction es generalizing s with
  | nil => rfl
  | cons e es ih =>
    rw [run, run, ← hmap hs]
    cases hs' : step s e with
    | none => rfl
    | some s' => exact ih (hstep hs hs')

end Machine
