import QkPack.FanOut.EmptyRound

/-!
# The schedule of a request that writes

As long as no sub-request reports an error, the calls first dispatch the sets and then the slots, each of
them once, in rounds of at most the configured maximum, and then write the answer.
-/

namespace QkPack
open Wire CString Resp Json

section Plays

variable {h : Handler} {limits : Limits} {p p' : Parent}

/-- The calls dispatch these rounds and then end well, whatever the sub-requests write, as long as they
report no error. -/
def Plays (h : Handler) (limits : Limits) (p : Parent) (rounds : List (List SubRequest)) : Prop :=
  ∀ rs, Machine.Along (callStep h limits) NoError p rs → rs.length = rounds.length + 1 →
    dispatch h limits p rs = (rounds,.ok)

theorem write_ok {writer : Writer} (hwriter : (h.writer writer p.request).isSome = true) :
    (p.write h writer).1 = .ok := by
  obtain ⟨body,hbody⟩ := Option.isSome_iff_exists.mp hwriter
  simp only [Parent.write, Handler.write, hbody]

theorem plays_nil
    (hlast : ∀ r, NoError p r → (createSubRequestBody h limits { p with request := r }).1 = .ok) :
    Plays h limits p [] := by
  intro rs halong hlen
  obtain ⟨r,rfl⟩ := List.length_eq_one_iff.mp hlen
  have hok := hlast r halong.1
  rw [dispatch]
  split
  · rename_i heq
    rw [heq] at hok
    cases hok
  · rename_i heq
    rw [heq] at hok
    exact congrArg (Prod.mk []) hok

theorem plays_cons {round : List SubRequest} {rounds : List (List SubRequest)}
    (hnext : ∀ r, NoError p r → ∃ p', createSubRequestBody h limits { p with request := r } = (.again,p') ∧
      p'.subrequest = round ∧ Plays h limits p' rounds) : Plays h limits p (round :: rounds) := by
  intro rs halong hlen
  obtain ⟨r,rs,rfl⟩ := List.exists_cons_of_length_eq_add_one hlen
  obtain ⟨p',hagain,hround,hplays⟩ := hnext r halong.1
  have hrest := hplays rs (halong.2 p' (callStep_eq_some.mpr hagain)) (Nat.succ.inj hlen)
  rw [dispatch, hagain]
  simp only [hrest, hround]

/-- Rounds of at most `limit`, none of them empty and as few as possible, that make up `xs`. -/
structure RoundsOf {α : Type} (limit : Nat) (xs : List α) (rounds : List (List α)) : Prop where
  flatten : rounds.flatten = xs
  sizes : ∀ round ∈ rounds, 1 ≤ round.length ∧ round.length ≤ limit
  count : rounds.length = (xs.length + limit - 1) / limit

theorem roundsOf_nil {α : Type} (limit : Nat) : RoundsOf limit ([] : List α) [] where
  flatten := rfl
  sizes := nofun
  count := by
    cases limit with
    | zero => exact (Nat.div_zero _).symm
    | succ limit =>
      rw [List.length_nil, List.length_nil, Nat.div_eq_of_lt]
      omega

theorem RoundsOf.cons {α : Type} {limit : Nat} {xs : List α} {rounds : List (List α)}
    (hlimit : 1 ≤ limit) (hxs : xs ≠ []) (h : RoundsOf limit (xs.drop limit) rounds) :
    RoundsOf limit xs (xs.take limit :: rounds) where
  flatten := by rw [List.flatten_cons, h.flatten, List.take_append_drop]
  sizes := by
    have hpos : 1 ≤ xs.length := List.length_pos_iff.mpr hxs
    rw [List.forall_mem_cons, List.length_take]
    exact ⟨by omega,h.sizes⟩
  count := by
    have hpos : 1 ≤ xs.length := List.length_pos_iff.mpr hxs
    rw [List.length_cons, h.count, List.length_drop, ← Nat.add_div_right _ hlimit]
    rcases Nat.le_total xs.length limit with hle | hge
    · rw [Nat.sub_eq_zero_of_le hle, Nat.div_eq_of_lt_le (k := 1) (by omega) (by omega),
        Nat.div_eq_of_lt_le (k := 1) (by omega) (by omega)]
    · congr 1
      omega

section Rounds

variable {α : Type} (f : α → SubRequest)

theorem exists_msetRounds (hwriter : ∀ r, (h.writer .mset r).isSome = true)
    (hlimit : 1 ≤ limits.msetMaxCount) (xs : List α) :
    ∃ rounds, RoundsOf limits.msetMaxCount xs rounds ∧
      ∀ p, p.request.commandType.Writes → p.request.phase = .done → p.vectorSub = xs.map f →
        Plays h limits p (rounds.map (·.map f)) := by
  -- the induction is on the number of slots that are still to be sent
  induction hn : xs.length using Nat.strong_induction_on generalizing xs with
  | _ n ih =>
    by_cases hxs : xs = []
    · subst hxs
      refine ⟨[],roundsOf_nil _,?_⟩
      intro p hcommand hphase hvector
      apply plays_nil
      intro r hr
      have hcommand' : r.commandType.Writes := hr.1.commandType ▸ hcommand
      rw [create_done (p := { p with request := r }) hcommand' hr.2 (hr.1.phase.trans hphase) hvector]
      exact write_ok (hwriter r)
    · have hpos : 0 < xs.length := List.length_pos_iff.mpr hxs
      have hfewer : (xs.drop limits.msetMaxCount).length < n := by
        rw [List.length_drop]
        omega
      obtain ⟨rounds,hrounds,hplays⟩ := ih _ hfewer (xs.drop limits.msetMaxCount) rfl
      refine ⟨xs.take limits.msetMaxCount :: rounds,hrounds.cons hlimit hxs,?_⟩
      intro p hcommand hphase hvector
      apply plays_cons
      intro r hr
      have hcommand' : r.commandType.Writes := hr.1.commandType ▸ hcommand
      have hne : p.vectorSub ≠ [] := by
        rw [hvector]
        exact fun hnil => hxs (List.map_eq_nil_iff.mp hnil)
      refine ⟨_,create_done_rest hcommand' hr.2 (hr.1.phase.trans hphase) hne,?_,?_⟩
      · rw [hvector]
        exact List.map_take.symm
      · apply hplays _ hcommand' rfl
        rw [hvector]
        exact List.map_drop.symm

end Rounds

section Slots

theorem slotSubs_eq (p : Parent) (uri : CommandType) :
    p.slotSubs uri = (p.request.mapSlotsKv.map (·.1)).map (slotSub uri) := by
  rw [Parent.slotSubs, List.map_map]
  rfl

theorem keySubs_eq (p : Parent) :
    p.keySubs = (p.request.mapKv.map (·.1)).map (keySub .zadd p.request.namespaces) := by
  rw [Parent.keySubs, List.map_map]
  rfl

/-- The next call without an error dispatches the first of these slots and goes on to the last phase. -/
def DispatchesSlots (h : Handler) (limits : Limits) (p : Parent) (slots : List Int) : Prop :=
  ∀ r, NoError p r → createSubRequestBody h limits { p with request := r } =
    (.again,({ p with request := r } : Parent).sent limits.msetMaxCount .done (slots.map (slotSub .mset)))

theorem exists_slotRounds (hwriter : ∀ r, (h.writer .mset r).isSome = true)
    (hlimit : 1 ≤ limits.msetMaxCount) {slots : List Int} (hslots : slots ≠ []) :
    ∃ rounds, RoundsOf limits.msetMaxCount slots rounds ∧
      ∀ p, p.request.commandType.Writes → DispatchesSlots h limits p slots →
        Plays h limits p (rounds.map (·.map (slotSub .mset))) := by
  obtain ⟨rounds,hrounds,hplays⟩ := exists_msetRounds (slotSub .mset) hwriter hlimit
    (slots.drop limits.msetMaxCount)
  refine ⟨slots.take limits.msetMaxCount :: rounds,hrounds.cons hlimit hslots,?_⟩
  intro p hcommand hcreate
  apply plays_cons
  intro r hr
  have hcommand' : r.commandType.Writes := hr.1.commandType ▸ hcommand
  refine ⟨_,hcreate r hr,List.map_take.symm,?_⟩
  exact hplays _ hcommand' rfl List.map_drop.symm

theorem exists_setRounds (hlimit : 1 ≤ limits.batchaddMaxCount) {slots : List Int} (hslots : slots ≠ [])
    {slotRounds : List (List SubRequest)}
    (hslotRounds : ∀ p, p.request.commandType.Writes → DispatchesSlots h limits p slots →
      Plays h limits p slotRounds)
    {α : Type} (f : α → SubRequest) (xs : List α) :
    ∃ rounds, RoundsOf limits.batchaddMaxCount xs rounds ∧
      ∀ p, p.request.commandType.IsZset → (p.request.commandType = .zadd → xs = []) →
        p.request.phase = .mset → p.vectorSub = xs.map f → p.request.mapSlotsKv.map (·.1) = slots →
        Plays h limits p (rounds.map (·.map f) ++ slotRounds) := by
  -- the induction is on the number of sets that are still to be sent
  induction hn : xs.length using Nat.strong_induction_on generalizing xs with
  | _ n ih =>
    by_cases hxs : xs = []
    · subst hxs
      refine ⟨[],roundsOf_nil _,?_⟩
      intro p hcommand _ hphase hvector hkeys
      apply hslotRounds p (.inr hcommand)
      intro r hr
      have hcommand' : r.commandType.IsZset := hr.1.commandType ▸ hcommand
      have hsubs : ({ p with request := r } : Parent).slotSubs .mset = slots.map (slotSub .mset) := by
        rw [slotSubs_eq, hr.1.slots, hkeys]
      rw [← hsubs]
      apply create_zset_last (p := { p with request := r }) hcommand' hr.2 (hr.1.phase.trans hphase)
        hvector
      rw [hsubs]
      exact fun hnil => hslots (List.map_eq_nil_iff.mp hnil)
    · have hpos : 0 < xs.length := List.length_pos_iff.mpr hxs
      have hfewer : (xs.drop limits.batchaddMaxCount).length < n := by
        rw [List.length_drop]
        omega
      obtain ⟨rounds,hrounds,hplays⟩ := ih _ hfewer (xs.drop limits.batchaddMaxCount) rfl
      refine ⟨xs.take limits.batchaddMaxCount :: rounds,hrounds.cons hlimit hxs,?_⟩
      intro p hcommand hsingle hphase hvector hkeys
      have hbatchadd : p.request.commandType = .zbatchadd :=
        hcommand.resolve_left fun hzadd => hxs (hsingle hzadd)
      rw [List.map_cons, List.cons_append]
      apply plays_cons
      intro r hr
      have hbatchadd' : r.commandType = .zbatchadd := hr.1.commandType.trans hbatchadd
      have hne : p.vectorSub ≠ [] := by
        rw [hvector]
        exact fun hnil => hxs (List.map_eq_nil_iff.mp hnil)
      refine ⟨_,create_zset_rest hbatchadd' hr.2 (hr.1.phase.trans hphase) hne,?_,?_⟩
      · rw [hvector]
        exact List.map_take.symm
      · apply hplays _ (.inr hbatchadd') _ rfl _ (hr.1.slots.trans hkeys)
        · intro hzadd
          cases hbatchadd'.symm.trans hzadd
        · rw [hvector]
          exact List.map_drop.symm

end Slots

end Plays

section Schedule

variable {h : Handler} {limits : Limits} {command : CommandType} {r : Request}

def Request.dispatchedSets (r : Request) : List Bytes :=
  if r.commandType = .mset then [] else r.mapKv.map (·.1)

def Request.subRounds (r : Request) (setRounds : List (List Bytes)) (slotRounds : List (List Int)) :
    List (List SubRequest) :=
  setRounds.map (·.map (keySub .zadd r.namespaces)) ++ slotRounds.map (·.map (slotSub .mset))

theorem exists_schedule (hwriter : ∀ r, (h.writer .mset r).isSome = true)
    (hmset : 1 ≤ limits.msetMaxCount) (hbatch : 1 ≤ limits.batchaddMaxCount)
    (hcommand : r.commandType.Writes) (hphase : r.phase = .start) (hslots : r.mapSlotsKv ≠ [])
    (hsets : r.commandType.IsZset → r.mapKv ≠ []) (hsingle : r.commandType = .zadd → r.mapKv.length ≤ 1) :
    ∃ setRounds slotRounds, RoundsOf limits.batchaddMaxCount r.dispatchedSets setRounds ∧
      RoundsOf limits.msetMaxCount (r.mapSlotsKv.map (·.1)) slotRounds ∧
      ∀ rs, Machine.Along (callStep h limits) NoError ⟨r,[],[]⟩ (r :: rs) →
        rs.length = setRounds.length + slotRounds.length →
        dispatch h limits ⟨r,[],[]⟩ (r :: rs) = (r.subRounds setRounds slotRounds,.ok) := by
  have hkeys : r.mapSlotsKv.map (·.1) ≠ [] := fun hnil => hslots (List.map_eq_nil_iff.mp hnil)
  obtain ⟨slotRounds,hslotRounds,hplays⟩ := exists_slotRounds hwriter hmset hkeys
  rcases hcommand with hset | hzset
  · refine ⟨[],slotRounds,?_,hslotRounds,?_⟩
    · rw [Request.dispatchedSets, if_pos hset]
      exact roundsOf_nil _
    · intro rs halong hlen
      refine hplays ⟨r,[],[]⟩ (.inl hset) ?_ (r :: rs) halong ?_
      · intro r' hr
        have hsubs : (⟨r',[],[]⟩ : Parent).slotSubs .mset =
            (r.mapSlotsKv.map (·.1)).map (slotSub .mset) := by
          rw [slotSubs_eq, hr.1.slots]
        rw [← hsubs]
        apply create_mset_first (hr.1.commandType.trans hset) hr.2 (hr.1.phase.trans hphase) rfl
        rw [hsubs]
        exact fun hnil => hkeys (List.map_eq_nil_iff.mp hnil)
      · simpa using hlen
  · have hnot : ¬ r.commandType = .mset := by
      rcases hzset with hzadd | hbatchadd
      · simp [hzadd]
      · simp [hbatchadd]
    have hne : r.mapKv.map (·.1) ≠ [] := fun hnil => hsets hzset (List.map_eq_nil_iff.mp hnil)
    obtain ⟨setRounds,hsetRounds,hsetPlays⟩ := exists_setRounds hbatch hkeys hplays
      (keySub .zadd r.namespaces) ((r.mapKv.map (·.1)).drop limits.batchaddMaxCount)
    refine ⟨(r.mapKv.map (·.1)).take limits.batchaddMaxCount :: setRounds,slotRounds,?_,hslotRounds,?_⟩
    · rw [Request.dispatchedSets, if_neg hnot]
      exact hsetRounds.cons hbatch hne
    · intro rs halong hlen
      have hcreate : createSubRequestBody h limits ⟨r,[],[]⟩ =
          (.again,(⟨r,[],[]⟩ : Parent).sent limits.batchaddMaxCount .mset
            ((r.mapKv.map (·.1)).map (keySub .zadd r.namespaces))) := by
        have hsubs := keySubs_eq ⟨r,[],[]⟩
        rw [← hsubs]
        exact create_zset_first hzset halong.1.2 hphase rfl (keySubs_ne_nil (hsets hzset))
      have hrest := hsetPlays _ hzset ?_ rfl List.map_drop.symm rfl rs
        (halong.2 _ (callStep_eq_some.mpr hcreate)) ?_
      · rw [dispatch, hcreate]
        simp only [hrest]
        rw [Request.subRounds, List.map_cons, List.map_take]
        rfl
      · intro hzadd
        apply List.drop_eq_nil_of_le
        rw [List.length_map]
        exact (hsingle hzadd).trans hbatch
      · simp only [List.length_append, List.length_map, List.length_cons] at hlen ⊢
        omega

theorem dispatch_append {p p' : Parent} {requests : List Request} (rest : List Request)
    (hrun : Machine.run (callStep h limits) p requests = some p') :
    dispatch h limits p (requests ++ rest) =
      ((dispatch h limits p requests).1 ++ (dispatch h limits p' rest).1,
        (dispatch h limits p' rest).2) := by
  induction requests generalizing p with
  | nil =>
    cases hrun
    rfl
  | cons request requests ih =>
    obtain ⟨q,hcall,hrest⟩ := Machine.run_cons_eq_some.mp hrun
    rw [List.cons_append, dispatch, callStep_eq_some.mp hcall, dispatch, callStep_eq_some.mp hcall]
    simp only [ih hrest, List.cons_append]

theorem dispatch_of_error {p : Parent} {request : Request} (rest : List Request)
    (herror : checkSubRequestStatus { p with request := request } = .error) :
    dispatch h limits p (request :: rest) = ([],.error) := by
  have hcode : request.code ≠ .ok := by
    intro hok
    simp [checkSubRequestStatus, hok] at herror
  rw [dispatch, create_of_code h limits hcode]

/-- A request with filled maps dispatches every set once and then every slot once, in rounds that are not
empty and not above the maximum, and is answered; an error of a sub-request ends the dispatching. -/
theorem dispatch_schedule {node : Option Tree} {acl : Option Acl} {refusal : Option Bytes}
    (hwriter : ∀ r, (h.writer .mset r).isSome = true)
    (hmset : 1 ≤ limits.msetMaxCount) (hbatch : 1 ≤ limits.batchaddMaxCount) (hcommand : command.Writes)
    (hcreate : createParent command node acl refusal = (.ok,r)) (hslots : r.mapSlotsKv ≠ []) :
    (r.dispatchedSets.Nodup ∧ (r.mapSlotsKv.map (·.1)).Nodup ∧
      ∃ setRounds slotRounds, RoundsOf limits.batchaddMaxCount r.dispatchedSets setRounds ∧
        RoundsOf limits.msetMaxCount (r.mapSlotsKv.map (·.1)) slotRounds ∧
        ∀ rs, Machine.Along (callStep h limits) NoError ⟨r,[],[]⟩ (r :: rs) →
          rs.length = setRounds.length + slotRounds.length →
          dispatch h limits ⟨r,[],[]⟩ (r :: rs) = (r.subRounds setRounds slotRounds,.ok)) ∧
    ∀ requests p request rest, Machine.run (callStep h limits) ⟨r,[],[]⟩ requests = some p →
      checkSubRequestStatus { p with request := request } = .error →
      dispatch h limits ⟨r,[],[]⟩ (requests ++ request :: rest) =
        ((dispatch h limits ⟨r,[],[]⟩ requests).1,.error) := by
  obtain ⟨hs,-⟩ := started_of_createParent hcreate
  have hslash : 47 ∉ r.namespaces := fun hmem => hslots (hs.unfilled hmem).1
  refine ⟨⟨?_,hs.sortedSlots.nodup,?_⟩,?_⟩
  · rw [Request.dispatchedSets]
    split
    · exact List.nodup_nil
    · exact hs.sortedKv.nodup
  · apply exists_schedule hwriter hmset hbatch (hs.commandType ▸ hcommand) hs.phase hslots
    · intro hzset
      exact hs.sets hslash (hs.commandType ▸ hzset)
    · intro hzadd
      exact hs.single (hs.commandType.symm.trans hzadd)
  · intro requests p request rest hrun herror
    rw [dispatch_append _ hrun, dispatch_of_error rest herror, List.append_nil]

end Schedule

instance (p p' : Request) : Decidable (SamePlan p p') :=
  decidable_of_iff (p'.commandType = p.commandType ∧ p'.phase = p.phase ∧ p'.namespaces = p.namespaces ∧
      p'.mapQuery = p.mapQuery ∧ p'.mapSlotsKv.map (·.1) = p.mapSlotsKv.map (·.1))
    ⟨fun ⟨hc,hp,hn,hq,hs⟩ => ⟨hc,hp,hn,hq,hs⟩,fun ⟨hc,hp,hn,hq,hs⟩ => ⟨hc,hp,hn,hq,hs⟩⟩

def tenMembers : Acl := ⟨60,1024,[⟨0,255,10⟩]⟩

def addTwoSets : Request := (createParent .zbatchadd (some twoSetsBody) (some tenMembers) none).2

/-- What the sub-requests leave of it, which write nothing: the sets are out, and then two rounds of slots. -/
def addTwoSetsCalls : List Request := [.mset,.done,.done].map fun phase => { addTwoSets with phase := phase }

theorem dispatch_schedule_sets :
    createParent .zbatchadd (some twoSetsBody) (some tenMembers) none = (.ok,addTwoSets) ∧
      addTwoSets.dispatchedSets = [text "1",text "2"] ∧ addTwoSets.mapSlotsKv.length = 3 ∧
      ∃ setRounds slotRounds, RoundsOf 2 addTwoSets.dispatchedSets setRounds ∧
        RoundsOf 2 (addTwoSets.mapSlotsKv.map (·.1)) slotRounds ∧
        dispatch plainHandler ⟨2,2⟩ ⟨addTwoSets,[],[]⟩ (addTwoSets :: addTwoSetsCalls) =
          (addTwoSets.subRounds setRounds slotRounds,.ok) := by
  have hcreate : createParent .zbatchadd (some twoSetsBody) (some tenMembers) none = (.ok,addTwoSets) :=
    Prod.ext (by decide +kernel) rfl
  have hsets : addTwoSets.dispatchedSets = [text "1",text "2"] := by decide +kernel
  have hslots : addTwoSets.mapSlotsKv.length = 3 := by decide +kernel
  obtain ⟨⟨-,-,setRounds,slotRounds,hset,hslot,hdispatch⟩,-⟩ :=
    @dispatch_schedule plainHandler ⟨2,2⟩ .zbatchadd _ _ _ _ (fun _ => rfl) (by decide) (by decide)
      (.inr (.inr rfl)) hcreate (List.ne_nil_of_length_pos (by omega))
  refine ⟨hcreate,hsets,hslots,setRounds,slotRounds,hset,hslot,hdispatch _ ?_ ?_⟩
  · decide +kernel
  · rw [hset.count, hslot.count, hsets, List.length_map, hslots]
    rfl

end QkPack
