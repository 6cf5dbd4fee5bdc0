import QkPack.FanOut.CallCases
import QkPack.Retry.Asking
import QkPack.Config.Namespaces

/-!
# Rounds without sub-requests

With an empty round `ngx_http_qksubrequest_start` starts nothing, and nothing is left that could wake the
request. `MGET` dispatches the slots it has, which may be none: the readers fill them only if they find a
namespace behind the last slash, while access control looks behind the third.
-/

namespace QkPack
open Wire CString Resp Json

/-- Whenever a call wants to be called again it has dispatched something, whatever the sub-requests write
in between. -/
def NoEmptyRound (h : Handler) (limits : Limits) (r : Request) : Prop :=
  ∀ r' rs p, Admitted r r' → Machine.Along (callStep h limits) KeptPlan ⟨r',[],[]⟩ (r' :: rs) →
    Machine.run (callStep h limits) ⟨r',[],[]⟩ (r' :: rs) = some p → p.subrequest ≠ []

/-- The maxima that a command uses are not zero. -/
def Limits.Positive (limits : Limits) (command : CommandType) : Prop :=
  command.Writes → 0 < limits.msetMaxCount ∧ (command.IsZset → 0 < limits.batchaddMaxCount)

/-- For `MGET` there is no slash in the namespace; where the maps are filled, the maxima are not zero. -/
def RoundsFilled (command : CommandType) (limits : Limits) (namespaces : Bytes) : Prop :=
  (command = .mget → 47 ∉ namespaces) ∧ (47 ∉ namespaces → limits.Positive command)

structure Started (command : CommandType) (r : Request) : Prop where
  commandType : r.commandType = command
  phase : r.phase = .start
  query : command.Queries → r.mapQuery ≠ []
  unfilled : 47 ∈ r.namespaces → r.mapSlotsKv = [] ∧ r.mapKv = []
  slots : 47 ∉ r.namespaces → command = .mget ∨ command.Writes → r.mapSlotsKv ≠ []
  sets : 47 ∉ r.namespaces → command.IsZset → r.mapKv ≠ []
  single : command = .zadd → r.mapKv.length ≤ 1
  sortedSlots : SortedMap.Sorted r.mapSlotsKv
  sortedKv : SortedMap.Sorted r.mapKv
  fanOut : command = .mget ∨ command.Writes ∨ command.Queries

section Started

variable {command : CommandType} {node : Option Tree} {r r₁ r₂ r₃ : Request}

theorem checkSubRequest_opened (h : checkSubRequest (Request.opened command) = true) :
    command = .mget ∨ command.Writes ∨ command.Queries := by
  revert h
  unfold CommandType.Writes CommandType.Queries CommandType.IsZset
  cases command <;> decide

/-- The other commands do not come this far, since no body gives them a URI. -/
theorem checkSubRequest_of_accepted (hread : readJsonFanOut node (Request.opened command) = (.ok,r₁))
    (hname : setNameSpace r₁ = (.ok,r₂)) : checkSubRequest (Request.opened command) = true := by
  by_contra hnot
  have hsame : readJsonFanOut node (Request.opened command) = (.ok,Request.opened command) := by
    revert hnot
    cases command <;> intro hnot <;> first | rfl | exact absurd rfl hnot
  cases hsame.symm.trans hread
  have hrefused : (setNameSpace (Request.opened command)).1 = .error := rfl
  rw [hname] at hrefused
  cases hrefused

theorem started_of_accepted (h : acceptedRequest command node = some r) :
    Started command r ∧ r.code = .ok := by
  obtain ⟨r₁,r₂,hread,hname,hcluster⟩ := acceptedRequest_eq_some h
  have hfan := checkSubRequest_of_accepted hread hname
  have hbody := readJsonFanOut_bodyRead hfan hread
  have hfilled := filled_iff_of_accepted hbody.uri hname
  obtain ⟨pre,s,hpre,hne,hlen,rfl⟩ := setNameSpace_ok hbody.uri hname
  obtain ⟨clusterName,rfl⟩ := setClusterName_ok hcluster
  refine ⟨⟨hbody.commandType,hbody.phase,?_,?_,?_,?_,hbody.single,hbody.sortedSlots,hbody.sortedKv,
    checkSubRequest_opened hfan⟩,hbody.code⟩
  · rintro (rfl | rfl | rfl) <;> exact hbody.query (by decide)
  · intro hslash
    exact hbody.unfilled fun h => hfilled.mp h hslash
  · intro hslash hkeys
    refine hbody.slots (hfilled.mpr hslash) ?_
    rcases hkeys with rfl | rfl | rfl | rfl <;> decide
  · intro hslash hzset
    refine hbody.sets (hfilled.mpr hslash) ?_
    rcases hzset with rfl | rfl <;> decide

theorem Started.admitted (hs : Started command r) {r' : Request} (h : Admitted r r') :
    Started command r' where
  commandType := h.plan.commandType.trans hs.commandType
  phase := h.plan.phase.trans hs.phase
  query hquery := by
    rw [h.plan.mapQuery]
    exact hs.query hquery
  unfilled hslash := by
    rw [h.plan.namespaces] at hslash
    obtain ⟨hslots,hsets⟩ := hs.unfilled hslash
    rw [← List.map_eq_nil_iff, h.plan.slots, ← List.map_eq_nil_iff (l := r'.mapKv), h.sets, hslots, hsets]
    exact ⟨rfl,rfl⟩
  slots hslash hkeys := by
    rw [h.plan.namespaces] at hslash
    intro hnil
    rw [← List.map_eq_nil_iff, h.plan.slots, List.map_eq_nil_iff] at hnil
    exact hs.slots hslash hkeys hnil
  sets hslash hzset := by
    rw [h.plan.namespaces] at hslash
    intro hnil
    rw [← List.map_eq_nil_iff, h.sets, List.map_eq_nil_iff] at hnil
    exact hs.sets hslash hzset hnil
  single hzadd := by
    have hlength := congrArg List.length h.sets
    rw [List.length_map, List.length_map] at hlength
    rw [hlength]
    exact hs.single hzadd
  sortedSlots := by
    rw [SortedMap.Sorted, h.plan.slots]
    exact hs.sortedSlots
  sortedKv := by
    rw [SortedMap.Sorted, h.sets]
    exact hs.sortedKv
  fanOut := hs.fanOut

/-- A request that has come past access control is ready for the first call. -/
theorem started_of_createParent {node : Option Tree} {acl : Option Acl} {refusal : Option Bytes}
    (hcreate : createParent command node acl refusal = (.ok,r)) : Started command r ∧ r.code = .ok := by
  obtain ⟨a,r₀,-,haccepted,hlimit⟩ := createParent_ok hcreate
  obtain ⟨hs,hcode⟩ := started_of_accepted haccepted
  obtain ⟨mapKv,rfl,hkeys⟩ := getZsetLimit_ok hlimit
  exact ⟨hs.admitted ⟨⟨rfl,rfl,rfl,rfl,rfl⟩,hkeys⟩,hcode⟩

end Started

section Runs

variable {h : Handler} {limits : Limits} {command : CommandType} {p p' : Parent} {r : Request}

/-- Between two calls: the phase fits the command, and the last round was not empty. -/
structure Waiting (command : CommandType) (p : Parent) : Prop where
  commandType : p.request.commandType = command
  round : p.subrequest ≠ []
  mget : command = .mget → p.request.phase = .done
  mset : command = .mset → p.request.phase = .done
  zset : command.IsZset → p.request.phase = .done ∨
    p.request.phase = .mset ∧ (command = .zadd → p.vectorSub = [])
  query : command.Queries → p.request.mapQuery ≠ []

theorem sent_subrequest_ne_nil {limit : Nat} {phase : Phase} {subs : List SubRequest}
    (hlimit : 0 < limit) (hsubs : subs ≠ []) : (p.sent limit phase subs).subrequest ≠ [] := by
  intro hnil
  rcases List.take_eq_nil_iff.mp hnil with hzero | hempty
  · omega
  · exact hsubs hempty

theorem Writes.not_mget (hw : CommandType.Writes command) : command ≠ .mget := by
  rcases hw with rfl | rfl | rfl <;> nofun

theorem Writes.not_queries (hw : CommandType.Writes command) : ¬ command.Queries := by
  rcases hw with rfl | rfl | rfl <;> rintro (hq | hq | hq) <;> cases hq

theorem waiting_sent (hw : command.Writes) (hcommand : p.request.commandType = command) {limit : Nat}
    {subs : List SubRequest} (hlimit : 0 < limit) (hsubs : subs ≠ []) {phase : Phase}
    (hphase : phase = .done ∨
      phase = .mset ∧ command.IsZset ∧ (command = .zadd → subs.length ≤ limit)) :
    Waiting command (p.sent limit phase subs) where
  commandType := hcommand
  round := sent_subrequest_ne_nil hlimit hsubs
  mget hget := absurd hget (Writes.not_mget hw)
  mset hset := by
    subst hset
    rcases hphase with hdone | ⟨-,hzadd | hbatch,-⟩
    · exact hdone
    · cases hzadd
    · cases hbatch
  zset _ := by
    rcases hphase with hdone | ⟨hmset,-,hfits⟩
    · exact .inl hdone
    · exact .inr ⟨hmset,fun hzadd => List.drop_eq_nil_of_le (hfits hzadd)⟩
  query hquery := absurd hquery (Writes.not_queries hw)

theorem Waiting.kept (hp : Waiting command p) (hplan : KeptPlan p r) :
    Waiting command { p with request := r } where
  commandType := hplan.commandType.trans hp.commandType
  round := hp.round
  mget hget := hplan.phase.trans (hp.mget hget)
  mset hset := hplan.phase.trans (hp.mset hset)
  zset hzset := by
    rcases hp.zset hzset with hdone | ⟨hmset,hsingle⟩
    · exact .inl (hplan.phase.trans hdone)
    · exact .inr ⟨hplan.phase.trans hmset,hsingle⟩
  query hquery := by
    rw [hplan.mapQuery]
    exact hp.query hquery

theorem waiting_create_writes (hlimits : limits.Positive command) (hw : command.Writes)
    (hp : Waiting command p) (hcode : p.request.code = .ok)
    (hagain : createSubRequestBody h limits p = (.again,p')) : Waiting command p' := by
  obtain ⟨hmset,hbatch⟩ := hlimits hw
  have hwrites : p.request.commandType.Writes := hp.commandType ▸ hw
  by_cases hphase : p.request.phase = .done
  · by_cases hvector : p.vectorSub = []
    · rw [create_done hwrites hcode hphase hvector] at hagain
      exact absurd hagain write_ne_again
    · rw [create_done_rest hwrites hcode hphase hvector] at hagain
      cases hagain
      exact waiting_sent hw hp.commandType hmset hvector (.inl rfl)
  · rcases hw with hset | hzset
    · exact absurd (hp.mset hset) hphase
    · obtain ⟨hphase,hsingle⟩ := (hp.zset hzset).resolve_left hphase
      have hzset' : p.request.commandType.IsZset := hp.commandType ▸ hzset
      by_cases hvector : p.vectorSub = []
      · by_cases hslots : p.slotSubs .mset = []
        · have herror : (createSubRequestBody h limits p).1 = .error :=
            create_zset_last_empty hzset' hcode hphase hvector hslots
          rw [hagain] at herror
          cases herror
        · rw [create_zset_last hzset' hcode hphase hvector hslots] at hagain
          cases hagain
          exact waiting_sent (.inr hzset) hp.commandType hmset hslots (.inl rfl)
      · rcases hzset with hzadd | hbatchadd
        · exact absurd (hsingle hzadd) hvector
        · rw [create_zset_rest (hp.commandType.trans hbatchadd) hcode hphase hvector] at hagain
          cases hagain
          refine waiting_sent (.inr (.inr hbatchadd)) hp.commandType (hbatch (.inr hbatchadd)) hvector
            (.inr ⟨rfl,.inr hbatchadd,?_⟩)
          rw [hbatchadd]
          nofun

theorem waiting_of_query (hquery : command.Queries) (hcommand : p.request.commandType = command)
    (hmap : p.request.mapQuery ≠ []) (hagain : createSubRequestBody h limits p = (.again,p')) :
    Waiting command p' := by
  obtain ⟨hround,hct,hq⟩ := create_query_again (hcommand ▸ hquery) hmap hagain
  refine ⟨hct.trans hcommand,hround,?_,?_,?_,?_⟩
  · rintro rfl
    rcases hquery with hq | hq | hq <;> cases hq
  · rintro rfl
    rcases hquery with hq | hq | hq <;> cases hq
  · rintro (rfl | rfl) <;> rcases hquery with hq | hq | hq <;> cases hq
  · intro _
    rw [hq]
    exact hmap

theorem waiting_step (hlimits : limits.Positive command)
    (hfan : command = .mget ∨ command.Writes ∨ command.Queries) (hp : Waiting command p)
    (hplan : KeptPlan p r) (hcall : callStep h limits p r = some p') : Waiting command p' := by
  have hagain := callStep_eq_some.mp hcall
  have hq := hp.kept hplan
  by_cases hcode : r.code = .ok
  · rcases hfan with hget | hw | hquery
    · exact absurd hagain (create_mget_done (hq.commandType.trans hget) (hq.mget hget))
    · exact waiting_create_writes hlimits hw hq hcode hagain
    · exact waiting_of_query hquery hq.commandType (hq.query hquery) hagain
  · rw [create_of_code h limits hcode] at hagain
    cases hagain

/-- A command that writes does not come past the first call with empty maps. -/
theorem filled_of_first (hs : Started command r) (hw : command.Writes) (hcode : r.code = .ok)
    (hagain : createSubRequestBody h limits ⟨r,[],[]⟩ = (.again,p)) : 47 ∉ r.namespaces := by
  intro hmem
  obtain ⟨hslots,hsets⟩ := hs.unfilled hmem
  have herror : (createSubRequestBody h limits ⟨r,[],[]⟩).1 = .error := by
    rcases hw with hset | hzset
    · apply create_mset_empty (hs.commandType.trans hset) hcode hs.phase rfl
      rw [Parent.slotSubs, hslots, List.map_nil]
    · apply create_zset_empty (hs.commandType ▸ hzset) hcode hs.phase rfl
      rw [Parent.keySubs, hsets, List.map_nil]
  rw [hagain] at herror
  cases herror

theorem slotSubs_ne_nil (hslots : r.mapSlotsKv ≠ []) (uri : CommandType) :
    (⟨r,[],[]⟩ : Parent).slotSubs uri ≠ [] :=
  fun hnil => hslots (List.map_eq_nil_iff.mp hnil)

theorem keySubs_ne_nil (hsets : r.mapKv ≠ []) : (⟨r,[],[]⟩ : Parent).keySubs ≠ [] :=
  fun hnil => hsets (List.map_eq_nil_iff.mp hnil)

theorem waiting_first (hfilled : RoundsFilled command limits r.namespaces) (hs : Started command r)
    (hcode : r.code = .ok) (hagain : createSubRequestBody h limits ⟨r,[],[]⟩ = (.again,p)) :
    Waiting command p := by
  rcases hs.fanOut with hget | hw | hquery
  · have hslots := hs.slots (hfilled.1 hget) (.inl hget)
    subst hget
    rw [create_mget_first hs.commandType hcode hs.phase] at hagain
    cases hagain
    refine ⟨hs.commandType,slotSubs_ne_nil hslots .mget,fun _ => rfl,nofun,?_,?_⟩
    · rintro (hz | hz) <;> cases hz
    · rintro (hq | hq | hq) <;> cases hq
  · have hslash := filled_of_first hs hw hcode hagain
    obtain ⟨hmset,hbatch⟩ := hfilled.2 hslash hw
    rcases hw with hset | hzset
    · have hslots := slotSubs_ne_nil (hs.slots hslash (.inr (.inl hset))) .mset
      rw [create_mset_first (hs.commandType.trans hset) hcode hs.phase rfl hslots] at hagain
      cases hagain
      exact waiting_sent (.inl hset) hs.commandType hmset hslots (.inl rfl)
    · have hkeys := keySubs_ne_nil (hs.sets hslash hzset)
      rw [create_zset_first (hs.commandType ▸ hzset) hcode hs.phase rfl hkeys] at hagain
      cases hagain
      refine waiting_sent (.inr hzset) hs.commandType (hbatch hzset) hkeys (.inr ⟨rfl,hzset,?_⟩)
      intro hzadd
      rw [Parent.keySubs, List.length_map]
      exact (hs.single hzadd).trans (hbatch hzset)
  · exact waiting_of_query hquery hs.commandType (hs.query hquery) hagain

theorem code_of_again (hagain : createSubRequestBody h limits p = (.again,p')) : p.request.code = .ok := by
  by_contra hne
  rw [create_of_code h limits hne] at hagain
  cases hagain

theorem noEmptyRound_of_roundsFilled (hs : Started command r)
    (hfilled : RoundsFilled command limits r.namespaces) : NoEmptyRound h limits r := by
  intro r' rs p hadmitted halong hrun
  have hs' := hs.admitted hadmitted
  rw [← hadmitted.plan.namespaces] at hfilled
  obtain ⟨p₁,hfirst,hrest⟩ := Machine.run_cons_eq_some.mp hrun
  have hagain := callStep_eq_some.mp hfirst
  have hcode := code_of_again hagain
  have hp₁ := waiting_first hfilled hs' hcode hagain
  have hlimits : limits.Positive command := by
    intro hw
    exact hfilled.2 (filled_of_first hs' hw hcode hagain) hw
  have hp := Machine.invariant_run
    (fun hI hP hstep => waiting_step hlimits hs'.fanOut hI hP hstep) hp₁ (halong.2 p₁ hfirst) hrest
  exact hp.round

section Converse

theorem NoEmptyRound.quiet (hno : NoEmptyRound h limits r) (rs : List Request)
    (halong : Machine.Along (callStep h limits) KeptPlan ⟨r,[],[]⟩ (r :: rs))
    (hrun : Machine.run (callStep h limits) ⟨r,[],[]⟩ (r :: rs) = some p) : p.subrequest ≠ [] :=
  hno r rs p (.refl r) halong hrun

theorem NoEmptyRound.first (hno : NoEmptyRound h limits r)
    (hagain : createSubRequestBody h limits ⟨r,[],[]⟩ = (.again,p)) : p.subrequest ≠ [] := by
  have hcall : callStep h limits ⟨r,[],[]⟩ r = some p := callStep_eq_some.mpr hagain
  apply hno.quiet [] ⟨.refl r,fun _ _ => trivial⟩
  rw [Machine.run, hcall]
  rfl

theorem exists_run_sets (hbatch : 0 < limits.batchaddMaxCount) {n : Nat}
    (hn : p.vectorSub.length ≤ n) (hcommand : p.request.commandType.IsZset)
    (hcode : p.request.code = .ok) (hphase : p.request.phase = .mset)
    (hsingle : p.request.commandType = .zadd → p.vectorSub = []) :
    ∃ rs subs, Machine.Along (callStep h limits) KeptPlan p rs ∧
      Machine.run (callStep h limits) p rs = some ⟨p.request,[],subs⟩ := by
  -- the induction is on the number of sets that are still to be sent
  induction n generalizing p with
  | zero =>
    have hnil : p.vectorSub = [] := List.length_eq_zero_iff.mp (Nat.le_zero.mp hn)
    refine ⟨[],p.subrequest,trivial,?_⟩
    rw [Machine.run, ← hnil]
  | succ n ih =>
    by_cases hvector : p.vectorSub = []
    · refine ⟨[],p.subrequest,trivial,?_⟩
      rw [Machine.run, ← hvector]
    · have hbatchadd : p.request.commandType = .zbatchadd :=
        hcommand.resolve_left fun hzadd => hvector (hsingle hzadd)
      have hcall : callStep h limits p p.request =
          some (p.sent limits.batchaddMaxCount .mset p.vectorSub) :=
        callStep_eq_some.mpr (create_zset_rest hbatchadd hcode hphase hvector)
      have hsame : (p.sent limits.batchaddMaxCount .mset p.vectorSub).request = p.request := by
        rw [Parent.sent, ← hphase]
      have hfewer : (p.sent limits.batchaddMaxCount .mset p.vectorSub).vectorSub.length ≤ n := by
        rw [Parent.sent, List.length_drop]
        omega
      have hnot : (p.sent limits.batchaddMaxCount .mset p.vectorSub).request.commandType ≠ .zadd := by
        rw [hsame, hbatchadd]
        simp
      obtain ⟨rs,subs,halong,hrun⟩ := ih hfewer (hsame ▸ hcommand) (hsame ▸ hcode) (hsame ▸ hphase)
        (fun hzadd => absurd hzadd hnot)
      refine ⟨p.request :: rs,subs,⟨.refl _,?_⟩,?_⟩
      · intro p' hp'
        cases hcall.symm.trans hp'
        exact halong
      · rw [Machine.run, hcall, Option.bind_some, hrun, hsame]

theorem NoEmptyRound.later (hno : NoEmptyRound h limits r) {p₁ : Parent} {rs : List Request}
    (hagain : createSubRequestBody h limits ⟨r,[],[]⟩ = (.again,p₁))
    (halong : Machine.Along (callStep h limits) KeptPlan p₁ rs)
    (hrun : Machine.run (callStep h limits) p₁ rs = some p)
    (hlast : createSubRequestBody h limits p = (.again,p')) : p'.subrequest ≠ [] := by
  have hcall : callStep h limits ⟨r,[],[]⟩ r = some p₁ := callStep_eq_some.mpr hagain
  have hcall' : callStep h limits p p.request = some p' := callStep_eq_some.mpr hlast
  apply hno.quiet (rs ++ [p.request])
  · refine ⟨.refl r,?_⟩
    intro q hq
    cases hcall.symm.trans hq
    exact halong.concat hrun (.refl _)
  · rw [Machine.run, hcall, Option.bind_some, Machine.run_append hrun, Machine.run, hcall']
    rfl

theorem pos_of_sent {limit : Nat} {phase : Phase} {subs : List SubRequest}
    (h : (p.sent limit phase subs).subrequest ≠ []) : 0 < limit := by
  cases limit with
  | zero => exact absurd rfl h
  | succ n => exact Nat.succ_pos n

theorem positive_of_noEmptyRound (hno : NoEmptyRound h limits r) (hs : Started command r)
    (hcode : r.code = .ok) (hslash : 47 ∉ r.namespaces) : limits.Positive command := by
  intro hw
  have hslots := slotSubs_ne_nil (hs.slots hslash (.inr hw)) .mset
  rcases hw with hset | hzset
  · have hfirst := hno.first (create_mset_first (hs.commandType.trans hset) hcode hs.phase rfl hslots)
    refine ⟨pos_of_sent hfirst,?_⟩
    rintro (hzadd | hbatchadd)
    · cases hset.symm.trans hzadd
    · cases hset.symm.trans hbatchadd
  · have hzset' : r.commandType.IsZset := hs.commandType ▸ hzset
    have hkeys := keySubs_ne_nil (hs.sets hslash hzset)
    have hcreate : createSubRequestBody h limits ⟨r,[],[]⟩ = (.again,(⟨r,[],[]⟩ : Parent).sent
        limits.batchaddMaxCount .mset (⟨r,[],[]⟩ : Parent).keySubs) :=
      create_zset_first hzset' hcode hs.phase rfl hkeys
    have hbatch : 0 < limits.batchaddMaxCount := pos_of_sent (hno.first hcreate)
    refine ⟨?_,fun _ => hbatch⟩
    have hsingle : r.commandType = .zadd →
        ((⟨r,[],[]⟩ : Parent).keySubs.drop limits.batchaddMaxCount) = [] := by
      intro hzadd
      apply List.drop_eq_nil_of_le
      rw [Parent.keySubs, List.length_map]
      exact (hs.single (hs.commandType.symm.trans hzadd)).trans hbatch
    obtain ⟨rs,subs,halong,hrun⟩ := exists_run_sets (h := h)
      (p := (⟨r,[],[]⟩ : Parent).sent limits.batchaddMaxCount .mset (⟨r,[],[]⟩ : Parent).keySubs)
      hbatch le_rfl hzset' hcode rfl hsingle
    exact pos_of_sent (hno.later hcreate halong hrun (create_zset_last hzset' hcode rfl rfl hslots))

theorem roundsFilled_of_noEmptyRound (hno : NoEmptyRound h limits r) (hs : Started command r)
    (hcode : r.code = .ok) : RoundsFilled command limits r.namespaces := by
  refine ⟨?_,positive_of_noEmptyRound hno hs hcode⟩
  intro hget hmem
  have hfirst := hno.first (create_mget_first (hs.commandType.trans hget) hcode hs.phase)
  apply hfirst
  simp [Parent.setPhase, Parent.slotSubs, (hs.unfilled hmem).1]

end Converse

/-- On a body and a URI that are accepted no round is empty exactly if `MGET` finds no slash in the
namespace and the maxima are not zero where the maps are filled. -/
theorem noEmptyRound_iff {node : Option Tree} (haccepted : acceptedRequest command node = some r) :
    NoEmptyRound h limits r ↔ RoundsFilled command limits r.namespaces := by
  obtain ⟨hs,hcode⟩ := started_of_accepted haccepted
  constructor
  · intro hno
    exact roundsFilled_of_noEmptyRound hno hs hcode
  · exact noEmptyRound_of_roundsFilled hs

/-- A fan-out that waits for its sub-requests has some to wait for. -/
theorem NoEmptyRound.subrequest_ne_nil (hno : NoEmptyRound h limits r) {conf : UpstreamConf}
    {s : FanOut} {es : List FanEvent}
    (hrun : Machine.run (fanStep h limits conf) (FanOut.start r) es = some s) (hfinal : s.final = none)
    (hcalled : s.parent.request.phase ≠ r.phase) : s.parent.subrequest ≠ [] := by
  rcases reached_run hrun hfinal with ⟨hstart,-⟩ | ⟨r',rs,p,hadmitted,halong,hcalls,-,hsub,-⟩
  · rw [hstart] at hcalled
    exact absurd rfl hcalled
  · rw [hsub]
    exact hno r' rs p hadmitted halong hcalls

end Runs

def mgetBody (uri : String) : Tree :=
  .object [(text "uri",.string (text uri)),(text "ak",.string (text "x")),
    (text "ks",.array [.object [(text "k",.string (text "a"))]])]

def setsBody (sets : List (String × List String)) : Tree :=
  .object [(text "uri",.string (text "qkd://BJ/ab")),(text "ak",.string (text "x")),
    (text "ks",.array (sets.map fun zset => .object [(text "k",.string (text zset.1)),
      (text "mbs",.array (zset.2.map fun member => .object [(text "mb",.string (text member)),
        (text "v",.string (text "5")),(text "sc",.number (.finite 0))]))]))]

def twoSetsBody : Tree := setsBody [("1",["a","b"]),("2",["c"])]

theorem noEmptyRound_plain :
    ∃ r, acceptedRequest .mget (some (mgetBody "qkd://BJ/ab")) = some r ∧
      NoEmptyRound plainHandler ⟨1000,1000⟩ r := by
  have hsome : (acceptedRequest .mget (some (mgetBody "qkd://BJ/ab"))).map (·.namespaces) =
      some (text "ab") := by decide +kernel
  obtain ⟨r,hr,hnamespaces⟩ := Option.map_eq_some_iff.mp hsome
  refine ⟨r,hr,(noEmptyRound_iff hr).mpr ⟨?_,?_⟩⟩
  · intro _
    rw [hnamespaces]
    decide
  · rintro - (hset | hzadd | hbatch)
    · cases hset
    · cases hzadd
    · cases hbatch

/-- The namespace behind the third slash is `/a`, the one behind the last slash has a single byte. The
request is accepted, its first round is empty, and it waits for it. -/
theorem mget_waits_for_nothing :
    (acceptedRequest .mget (some (mgetBody "qkd://BJ//a"))).map (fun r =>
      ((createSubRequestBody plainHandler ⟨1000,1000⟩ ⟨r,[],[]⟩).1,
        (createSubRequestBody plainHandler ⟨1000,1000⟩ ⟨r,[],[]⟩).2.subrequest)) = some (.again,[]) ∧
    ((acceptedRequest .mget (some (mgetBody "qkd://BJ//a"))).bind fun r =>
      (Machine.run (fanStep plainHandler ⟨1000,1000⟩ (tableConf 3 3)) (FanOut.start r) [.post]).map
        fun s => (s.final,s.subs.length)) = some (none,0) := by
  decide +kernel

end QkPack
