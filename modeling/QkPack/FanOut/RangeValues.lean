import Mathlib.Algebra.Order.BigOperators.Group.List
import QkPack.FanOut.CallCases
import QkPack.FanOut.MgetRound
import QkPack.FanOut.RangeRound

/-!
# The answers to queries by score

The members that were found are looked up slot by slot, like the keys of `MGET`. Members without a value are left out
of the answer.
-/

namespace QkPack
open Wire CString Resp

section Shown

variable {namespaces : Bytes} {α : Type} {f : KvPair → α} {P : KvPair → Prop}

theorem SlotsHave.seenMap {mapKv : List (Bytes × List KvPair)} {slots : List (Int × List KvPair)}
    (h : SlotsHave namespaces f P (mapKv.flatMap (·.2)) slots) :
    List.Forall₂ (fun entry seen => seen.1 = entry.1 ∧ seen.2.map f = entry.2.map f ∧ ∀ kv ∈ seen.2, P kv)
      mapKv (seenMap namespaces mapKv slots) := by
  induction mapKv generalizing slots with
  | nil => exact .nil
  | cons entry mapKv ih =>
    obtain ⟨key,kvs⟩ := entry
    rw [List.flatMap_cons] at h
    obtain ⟨hsame,hall,hmore⟩ := h.seenKvs
    exact .cons ⟨rfl,hsame,hall⟩ (ih hmore)

theorem seenMap_keys (namespaces : Bytes) (mapKv : List (Bytes × List KvPair)) (slots : List (Int × List KvPair)) :
    (QkPack.seenMap namespaces mapKv slots).map (·.1) = mapKv.map (·.1) := by
  induction mapKv generalizing slots with
  | nil => rfl
  | cons entry mapKv ih =>
    obtain ⟨key,kvs⟩ := entry
    exact congrArg (key :: ·) (ih _)

theorem filterNull_keys (m : List (Bytes × List KvPair)) :
    ((filterGetByScoreMemberNullValue m).map (·.1)).Sublist (m.map (·.1)) := by
  have hkeys : (m.map fun entry => (entry.1,entry.2.filter (·.value ≠ null))).map (·.1) = m.map (·.1) := by
    rw [List.map_map]
    rfl
  rw [← hkeys]
  exact List.filter_sublist.map _

theorem lookup_filterNull {m : List (Bytes × List KvPair)} (hnodup : (m.map (·.1)).Nodup) (key : Bytes) :
    ((filterGetByScoreMemberNullValue m).lookup key).getD [] =
      ((m.lookup key).getD []).filter (·.value ≠ null) := by
  induction m with
  | nil => rfl
  | cons entry m ih =>
    obtain ⟨k,kvs⟩ := entry
    obtain ⟨hnot,hnodup⟩ := List.nodup_cons.mp hnodup
    have hcons : filterGetByScoreMemberNullValue ((k,kvs) :: m) =
        if kvs.filter (·.value ≠ null) = [] then filterGetByScoreMemberNullValue m
        else (k,kvs.filter (·.value ≠ null)) :: filterGetByScoreMemberNullValue m := by
      rw [filterGetByScoreMemberNullValue, List.map_cons, List.filter_cons]
      by_cases hnil : kvs.filter (·.value ≠ null) = []
      · rw [if_pos hnil, if_neg (by simpa using hnil)]
        rfl
      · rw [if_neg hnil, if_pos (by simpa using hnil)]
        rfl
    have ih := ih hnodup
    rw [hcons, SortedMap.lookup_cons_ite]
    by_cases hkey : key = k
    · subst hkey
      rw [SortedMap.lookup_eq_none hnot, Option.getD_none, List.filter_nil] at ih
      rw [if_pos rfl, Option.getD_some]
      split
      · rename_i hnil
        rw [ih, hnil]
      · rw [SortedMap.lookup_cons_ite, if_pos rfl, Option.getD_some]
    · rw [if_neg hkey]
      split
      · exact ih
      · rw [SortedMap.lookup_cons_ite, if_neg hkey]
        exact ih

theorem SlotsHave.shown {mapKv : List (Bytes × List KvPair)} {slots : List (Int × List KvPair)}
    (h : SlotsHave namespaces f P (mapKv.flatMap (·.2)) slots) (hsorted : SortedMap.Sorted mapKv) (key : Bytes) :
    ∃ seen : List KvPair, seen.map f = ((mapKv.lookup key).getD []).map f ∧ (∀ kv ∈ seen, P kv) ∧
      ((filterGetByScoreMemberNullValue (QkPack.seenMap namespaces mapKv slots)).lookup key).getD [] =
        seen.filter (·.value ≠ null) := by
  have hall := h.seenMap
  have hnodup := hsorted.nodup
  have hkeys := seenMap_keys namespaces mapKv slots
  clear h hsorted
  generalize QkPack.seenMap namespaces mapKv slots = seen at hall hkeys
  rw [← hkeys] at hnodup
  refine ⟨(seen.lookup key).getD [],?_⟩
  rw [lookup_filterNull hnodup]
  clear hkeys hnodup
  induction hall with
  | nil => exact ⟨rfl,List.forall_mem_nil _,rfl⟩
  | @cons entry found mapKv seen hentry _ ih =>
    obtain ⟨k,kvs⟩ := entry
    obtain ⟨k',kvs'⟩ := found
    obtain ⟨rfl,hsame,hP⟩ := hentry
    rw [SortedMap.lookup_cons_ite, SortedMap.lookup_cons_ite]
    by_cases hkey : key = k'
    · rw [if_pos hkey, if_pos hkey]
      exact ⟨hsame,hP,rfl⟩
    · rw [if_neg hkey, if_neg hkey]
      exact ih

end Shown

section Calls

variable {h : Handler} {limits : Limits} {p p' : Parent} {rc : QkpackRc}

def CommandType.ByScore (command : CommandType) : Prop := command = .zrangebyscore ∨ command = .batchzrangebyscore

theorem CommandType.ByScore.queries {command : CommandType} (h : command.ByScore) : command.Queries := by
  rcases h with hct | hct
  · exact .inl hct
  · exact .inr (.inr hct)

theorem create_queries (hcommand : p.request.commandType.Queries) (hcode : p.request.code = .ok)
    (hphase : p.request.phase ≠ .start ∧ p.request.phase ≠ .zfixedsetBatchgetbyscore) :
    createSubRequestBody h limits p = createSubRequestZfixedsetGetByScore h p := by
  have hok : ¬ p.request.code ≠ .ok := not_not.mpr hcode
  rw [createSubRequestBody, if_neg hok]
  rcases hcommand with hct | hct | hct <;> simp only [hct]
  rw [createSubRequestZfixedsetBatchGetByScore, if_neg (not_or.mpr hphase)]

theorem create_byScore_first (hcommand : p.request.commandType.ByScore) (hcode : p.request.code = .ok)
    (hphase : p.request.phase = .start) :
    createSubRequestBody h limits p = (.again,⟨{ p.request with phase := .mget },p.vectorSub,
      (p.request.mapQuery.map (·.1)).map (keySub .zrangebyscore p.request.namespaces)⟩) := by
  have hok : ¬ p.request.code ≠ .ok := not_not.mpr hcode
  rw [createSubRequestBody, if_neg hok, List.map_map]
  rcases hcommand with hct | hct
  · simp only [hct, createSubRequestZfixedsetGetByScore, if_pos hphase, Parent.setPhase]
    rfl
  · simp only [hct, createSubRequestZfixedsetBatchGetByScore, if_pos (Or.inl hphase),
      createSubRequestZfixedsetGetByScore, Parent.setPhase]
    rfl

theorem create_queries_mget (hcommand : p.request.commandType.Queries) (hcode : p.request.code = .ok)
    (hphase : p.request.phase = .mget) {slots : List (Int × List KvPair)}
    (hslots : fillSlots p.request.namespaces p.request.mapKv p.request.mapSlotsKv = slots) :
    createSubRequestBody h limits p =
      if slots ≠ [] then (.again,⟨{ p.request with mapSlotsKv := slots, phase := .done },p.vectorSub,
        slots.map fun slot => slotSub .mget slot.1⟩)
      else finishGetByScore h ⟨{ p.request with mapSlotsKv := slots, phase := .done },p.vectorSub,[]⟩ := by
  have hnot : ¬ p.request.phase = .start := by simp [hphase]
  have hcheck : ¬ checkSubRequestStatus p ≠ .ok := by simp [checkSubRequestStatus, hcode]
  have hmget : ¬ Phase.mget = Phase.start := nofun
  rw [create_queries hcommand hcode (by simp [hphase])]
  simp only [createSubRequestZfixedsetGetByScore, if_neg hnot, hslots]
  rw [hphase]
  simp only [if_neg hcheck]
  split
  · simp only [createSubRequestMget, if_neg hmget, List.nil_append]
    rfl
  · rfl

theorem create_queries_done (hcommand : p.request.commandType.Queries) (hcode : p.request.code = .ok)
    (hphase : p.request.phase = .done) : createSubRequestBody h limits p = finishGetByScore h p := by
  have hnot : ¬ p.request.phase = .start := by simp [hphase]
  rw [create_queries hcommand hcode (by simp [hphase])]
  simp only [createSubRequestZfixedsetGetByScore, if_neg hnot]
  rw [hphase]

theorem finishGetByScore_eq (hfinish : finishGetByScore h p = (rc,p')) (hrc : rc ≠ .error) :
    ∃ body, p'.request = { p.request with
      mapKv := filterGetByScoreMemberNullValue (seenMap p.request.namespaces p.request.mapKv p.request.mapSlotsKv)
      responseBuffer := body } := by
  unfold finishGetByScore at hfinish
  split at hfinish
  · cases hfinish
    exact absurd rfl hrc
  · obtain ⟨body,rfl⟩ := write_eq hfinish hrc
    exact ⟨body,rfl⟩

theorem finishGetByScore_written (hwriter : ∀ writer request, h.writer writer request ≠ none)
    (hcode : p.request.code = .ok) : ∃ p', finishGetByScore h p = (.ok,p') ∧ p'.request.code = .ok := by
  have hcheck : ¬ checkSubRequestStatus p ≠ .ok := by simp [checkSubRequestStatus, hcode]
  simp only [finishGetByScore, if_neg hcheck, Parent.write, Handler.write]
  split
  · rename_i hnone
    exact absurd hnone (hwriter _ _)
  · exact ⟨_,rfl,hcode⟩

end Calls

section Fit

theorem scoredPairs_key_length {proto : RedisProto} {namespaces : Bytes} {bs : List Bulk} :
    ∀ kv ∈ scoredPairs proto namespaces bs, kv.key.length ≤ 512 * 1024 * 1024 := by
  fun_induction scoredPairs proto namespaces bs with
  | case1 member score rest ih =>
    refine List.forall_mem_cons.mpr ⟨?_,ih⟩
    rw [List.length_drop]
    exact (Nat.sub_le _ _).trans member.size_le
  | case2 bs _ => exact List.forall_mem_nil _

theorem sum_map_le_of_subset {α : Type} {l l' : List α} (g : α → Nat) (hnodup : l.Nodup) (hsub : l ⊆ l') :
    (l.map g).sum ≤ (l'.map g).sum := by
  obtain ⟨l'',hperm,hsublist⟩ := List.subperm_of_subset hnodup hsub
  rw [← (hperm.map g).sum_eq]
  exact (hsublist.map g).sum_le_sum fun _ _ => Nat.zero_le _

end Fit

def foundCount (node : Redis.Node) (store : Redis.Store) (namespaces : Bytes)
    (queries : List (Bytes × ZsetQuery)) : Nat :=
  (queries.map fun q => ((node.selection store (rangeArgv namespaces q.1 q.2)).getD []).length).sum

/-- A request with queries by score before the first call. -/
structure QueryStarted (r : Request) : Prop where
  command : r.commandType.ByScore
  phase : r.phase = .start
  code : r.code = .ok
  sets : r.mapKv = []
  slots : r.mapSlotsKv = []
  sorted : SortedMap.Sorted r.mapQuery
  namespaces : r.namespaces.length = 2
  short : ∀ key ∈ r.mapQuery.map (·.1), (r.namespaces ++ key).length < 2 ^ 31

section Found

variable {h : Handler} {node : Redis.Node} {store : Redis.Store} {p₀ p : Request}

structure AllFound (h : Handler) (node : Redis.Node) (store : Redis.Store) (p₀ p : Request) : Prop where
  members : OnlyMembers p₀ p
  done : ∀ key ∈ p₀.mapQuery.map (·.1), RangeDone h node store p₀ key p

theorem AllFound.entries (hfound : AllFound h node store p₀ p) {entry : Bytes × List KvPair}
    (hentry : entry ∈ p.mapKv) :
    ∃ query z, p₀.mapQuery.lookup entry.1 = some query ∧
      node.selection store (rangeArgv p₀.namespaces entry.1 query) = some z ∧
      entry.2 = foundEntries h.proto node.numbers p₀.namespaces query.ws z := by
  obtain ⟨query,z,hquery,hz,hentries⟩ := hfound.done entry.1 (hfound.members.keys entry hentry)
  have hlookup : p.mapKv.lookup entry.1 = some entry.2 :=
    (SortedMap.lookup_eq_some_iff hfound.members.sorted).mpr hentry
  rw [hlookup, Option.getD_some] at hentries
  exact ⟨query,z,hquery,hz,hentries⟩

theorem AllFound.length_le (hfound : AllFound h node store p₀ p) (hsorted : SortedMap.Sorted p₀.mapQuery) :
    (p.mapKv.flatMap (·.2)).length ≤ foundCount node store p₀.namespaces p₀.mapQuery := by
  let count (key : Bytes) : Nat := (p₀.mapQuery.lookup key).elim 0 fun query =>
    ((node.selection store (rangeArgv p₀.namespaces key query)).getD []).length
  have hentry : ∀ entry ∈ p.mapKv, entry.2.length ≤ count entry.1 := by
    intro entry hmem
    obtain ⟨query,z,hquery,hz,hentries⟩ := hfound.entries hmem
    simp only [count, hquery, Option.elim_some, hz, Option.getD_some, hentries]
    exact foundEntries_length_le _ _ _ _ _
  have hsub : p.mapKv.map (·.1) ⊆ p₀.mapQuery.map (·.1) := by
    intro key hkey
    obtain ⟨entry,hmem,rfl⟩ := List.mem_map.mp hkey
    exact hfound.members.keys entry hmem
  have hcount : (p₀.mapQuery.map (·.1)).map count = p₀.mapQuery.map fun q =>
      ((node.selection store (rangeArgv p₀.namespaces q.1 q.2)).getD []).length := by
    rw [List.map_map]
    apply List.map_congr_left
    intro q hq
    have hlookup : p₀.mapQuery.lookup q.1 = some q.2 := (SortedMap.lookup_eq_some_iff hsorted).mpr hq
    simp only [Function.comp, count, hlookup, Option.elim_some]
  calc (p.mapKv.flatMap (·.2)).length
      = (p.mapKv.map fun entry => entry.2.length).sum := List.length_flatMap
    _ ≤ (p.mapKv.map fun entry => count entry.1).sum := List.sum_le_sum hentry
    _ = ((p.mapKv.map (·.1)).map count).sum := by rw [List.map_map]; rfl
    _ ≤ ((p₀.mapQuery.map (·.1)).map count).sum := sum_map_le_of_subset count hfound.members.sorted.nodup hsub
    _ = foundCount node store p₀.namespaces p₀.mapQuery := by rw [hcount, foundCount]

def Request.lookingUp (p : Request) : Request :=
  { p with mapSlotsKv := pushSlots p.namespaces (p.mapKv.flatMap (·.2)) [], phase := .done }

theorem AllFound.slotsFit (hfound : AllFound h node store p₀ p) (hsorted : SortedMap.Sorted p₀.mapQuery)
    (hns : p.namespaces.length = 2) (hfew : foundCount node store p₀.namespaces p₀.mapQuery < 2 ^ 31) :
    SlotsFit p.lookingUp := by
  have hslots : p.lookingUp.mapSlotsKv = pushSlots p.lookingUp.namespaces (p.mapKv.flatMap (·.2)) [] := rfl
  refine slotsFit_of_vector hslots ?_ ((hfound.length_le hsorted).trans_lt hfew)
  intro kv hkv
  obtain ⟨entry,hentry,hmem⟩ := List.mem_flatMap.mp hkv
  obtain ⟨query,z,-,-,hentries⟩ := hfound.entries hentry
  rw [hentries] at hmem
  have hkey := scoredPairs_key_length kv hmem
  change (p.namespaces ++ kv.key).length < 2 ^ 31
  rw [List.length_append, hns]
  omega

end Found

/-- What is shown under a key: the members that are found for a query, each with its value; those without a value are
left out. -/
def ShowsFound (h : Handler) (node : Redis.Node) (store : Redis.Store) (namespaces key : Bytes) (query : ZsetQuery)
    (shown : List KvPair) : Prop :=
  ∃ z, node.selection store (rangeArgv namespaces key query) = some z ∧ ∃ seen : List KvPair,
    seen.map KvPair.mark = (foundEntries h.proto node.numbers namespaces query.ws z).map KvPair.mark ∧
    (∀ kv ∈ seen, Reads h.proto.compress (Redis.mgetElem store (namespaces ++ kv.key)) kv.value) ∧
    shown = seen.filter (·.value ≠ null)

section Runs

variable {h : Handler} {limits : Limits} {conf : UpstreamConf} {node : Redis.Node} {store : Redis.Store}
  {r : Request}

structure Answered (h : Handler) (node : Redis.Node) (store : Redis.Store) (r p : Request) : Prop where
  vectorKv : p.vectorKv = r.vectorKv
  nodup : (p.mapKv.map (·.1)).Nodup
  keys : ∀ key ∈ p.mapKv.map (·.1), key ∈ r.mapQuery.map (·.1)
  shows : ∀ key query, r.mapQuery.lookup key = some query →
    ShowsFound h node store r.namespaces key query ((p.mapKv.lookup key).getD [])

def Request.asking (r : Request) : Request := { r with phase := .mget }

theorem subCommand_byScore {p : Request} (hp : p.commandType.ByScore) (sub : SubRequest) :
    subCommand p sub = sub.uri := by
  rcases hp with hct | hct <;> simp only [subCommand, hct]

theorem answered_of_finish {q q' : Parent} {rc : QkpackRc} {p : Request}
    (hfound : AllFound h node store r.asking p)
    (hq : q.request = { p.lookingUp with mapSlotsKv := q.request.mapSlotsKv })
    (hslots : SlotsHave r.namespaces KvPair.mark (fun kv => Reads h.proto.compress
      (Redis.mgetElem store (r.namespaces ++ kv.key)) kv.value) (p.mapKv.flatMap (·.2)) q.request.mapSlotsKv)
    (hfinish : finishGetByScore h q = (rc,q')) (hrc : rc ≠ .error) : Answered h node store r q'.request := by
  obtain ⟨body,hbody⟩ := finishGetByScore_eq hfinish hrc
  have hrest := hfound.members.rest
  have hns : q.request.namespaces = r.namespaces := by
    rw [hq, Request.lookingUp, hrest, Request.asking]
  have hvector : q.request.vectorKv = r.vectorKv := by
    rw [hq, Request.lookingUp, hrest, Request.asking]
  have hsets : q.request.mapKv = p.mapKv := by
    rw [hq, Request.lookingUp]
  have hkeys : (q'.request.mapKv.map (·.1)).Sublist (p.mapKv.map (·.1)) := by
    rw [← seenMap_keys q.request.namespaces p.mapKv q.request.mapSlotsKv, hbody, hsets]
    exact filterNull_keys _
  constructor
  · rw [hbody]
    exact hvector
  · exact hfound.members.sorted.nodup.sublist hkeys
  · intro key hkey
    obtain ⟨entry,hentry,rfl⟩ := List.mem_map.mp (hkeys.subset hkey)
    exact hfound.members.keys entry hentry
  · intro key query hquery
    rw [hbody, hns, hsets]
    obtain ⟨query',z,hquery',hz,hentries⟩ := hfound.done key (List.mem_map_of_mem (mem_of_lookup hquery))
    cases hquery.symm.trans hquery'
    obtain ⟨seen,hmarks,hreads,hshown⟩ := hslots.shown hfound.members.sorted key
    rw [hentries] at hmarks
    exact ⟨z,hz,seen,hmarks,hreads,hshown⟩

section TwoRounds

variable (h) (conf) (node) (store) (hr : QueryStarted r)

def queryRound (hamp : ∀ key ∈ r.mapQuery.map (·.1), 38 ∉ key) : OnceRule h conf node :=
  rangeRule h conf node store r.asking hr.sorted (fun key hkey => ⟨hamp key hkey,hr.short key hkey⟩)
    fun _ => subCommand_byScore hr.command _

variable {h} {node} {store} {p : Request}

theorem AllFound.commandType (hp : AllFound h node store r.asking p) : p.lookingUp.commandType = r.commandType := by
  rw [Request.lookingUp, hp.members.rest, Request.asking]

theorem AllFound.namespaces (hp : AllFound h node store r.asking p) : p.lookingUp.namespaces = r.namespaces := by
  rw [Request.lookingUp, hp.members.rest, Request.asking]

def valueRound (hfew : foundCount node store r.namespaces r.mapQuery < 2 ^ 31)
    (hp : AllFound h node store r.asking p) : RoundRule h conf node :=
  mgetRule h conf node store p.lookingUp (p.lookingUp.mapSlotsKv.map fun slot => slotSub .mget slot.1)
    (hp.slotsFit hr.sorted ((congrArg List.length hp.namespaces).trans hr.namespaces) hfew) (by
      intro sub hsub
      obtain ⟨slot,-,rfl⟩ := List.mem_map.mp hsub
      apply subCommand_byScore
      rw [hp.commandType]
      exact hr.command)

variable {conf} {hr}

theorem slotsHave_of_values {q : Request} (hp : AllFound h node store r.asking p) (hq : OnlyValues p.lookingUp q)
    (hdone : ∀ sub ∈ p.lookingUp.mapSlotsKv.map (fun slot => slotSub .mget slot.1),
      MgetDone h.proto.compress store p.lookingUp sub q) :
    SlotsHave r.namespaces KvPair.mark (fun kv => Reads h.proto.compress
      (Redis.mgetElem store (r.namespaces ++ kv.key)) kv.value) (p.mapKv.flatMap (·.2)) q.mapSlotsKv := by
  rw [← hp.namespaces]
  exact slotsHave_of_done ⟨p.lookingUp,[],[]⟩ rfl hq hdone

theorem queryRound_call {hamp : ∀ key ∈ r.mapQuery.map (·.1), 38 ∉ key} {d : Delivery}
    (hd : (queryRound h conf node store hr hamp).Holds d) (hall : d.flights.all Flight.isAnswered = true) :
    d.store = store ∧ AllFound h node store r.asking d.parent.request ∧ createSubRequestBody h limits d.parent =
      if d.parent.request.lookingUp.mapSlotsKv ≠ [] then
        (.again,⟨d.parent.request.lookingUp,d.parent.vectorSub,
          d.parent.request.lookingUp.mapSlotsKv.map fun slot => slotSub .mget slot.1⟩)
      else finishGetByScore h ⟨d.parent.request.lookingUp,d.parent.vectorSub,[]⟩ := by
  obtain ⟨hstore,hmembers⟩ := hd.inv
  have hrest := hmembers.rest
  refine ⟨hstore,⟨hmembers,hd.all_done hall⟩,create_queries_mget ?_ ?_ ?_ ?_⟩
  · rw [hrest]
    exact hr.command.queries
  · rw [hrest]
    exact hr.code
  · rw [hrest, Request.asking]
  · have hnone : d.parent.request.mapSlotsKv = [] := by
      rw [hrest]
      exact hr.slots
    rw [hnone]
    rfl

theorem valueRound_call {hfew : foundCount node store r.namespaces r.mapQuery < 2 ^ 31}
    {hp : AllFound h node store r.asking p} {d : Delivery} (hd : (valueRound conf hr hfew hp).Holds d) :
    createSubRequestBody h limits d.parent = finishGetByScore h d.parent := by
  have hvalues := hd.inv.2
  apply create_queries_done
  · rw [hvalues.commandType, hp.commandType]
    exact hr.command.queries
  · rw [hvalues.rest, Request.lookingUp, hp.members.rest]
    exact hr.code
  · rw [hvalues.rest, Request.lookingUp]

variable (h) (conf) (node) (store) (hr) in
def QueryUnderWay (hamp : ∀ key ∈ r.mapQuery.map (·.1), 38 ∉ key)
    (hfew : foundCount node store r.namespaces r.mapQuery < 2 ^ 31) (d : Delivery) : Prop :=
  d = Delivery.start r store ∨ (queryRound h conf node store hr hamp).Holds d ∨
    ∃ p, ∃ hp : AllFound h node store r.asking p, (valueRound conf hr hfew hp).Holds d

variable {hamp : ∀ key ∈ r.mapQuery.map (·.1), 38 ∉ key}
  {hfew : foundCount node store r.namespaces r.mapQuery < 2 ^ 31} {d d' : Delivery}

theorem QueryUnderWay.step (hd : QueryUnderWay h conf node store hr hamp hfew d) {e : DeliveryEvent} (he : e ≠ .post)
    (hstep : deliveryStep h limits conf node d e = some d') : QueryUnderWay h conf node store hr hamp hfew d' := by
  rcases hd with rfl | hd | ⟨p,hp,hd⟩
  · exact absurd hstep (start_no_flights he)
  · exact .inr (.inl (hd.step he e.sentWith_true hstep).1)
  · exact .inr (.inr ⟨p,hp,(hd.step he e.sentWith_true hstep).holds⟩)

theorem create_started (hr : QueryStarted r) : createSubRequestBody h limits (Delivery.start r store).parent =
    (.again,⟨r.asking,[],(r.mapQuery.map (·.1)).map (keySub .zrangebyscore r.namespaces)⟩) :=
  create_byScore_first hr.command hr.code hr.phase

theorem QueryUnderWay.again (hd : QueryUnderWay h conf node store hr hamp hfew d)
    (hall : d.flights.all Flight.isAnswered = true) {q : Parent}
    (hagain : createSubRequestBody h limits d.parent = (.again,q)) :
    QueryUnderWay h conf node store hr hamp hfew { d with parent := q, flights := q.subrequest.map .waiting } := by
  rcases hd with rfl | hd | ⟨p,hp,hd⟩
  · cases (create_started hr).symm.trans hagain
    have hnone : r.asking.mapKv = [] := hr.sets
    refine .inr (.inl (OnceRule.holds_of_waiting ⟨rfl,rfl,?_,?_⟩ ?_ rfl))
    · rw [hnone]
      exact SortedMap.sorted_nil
    · rw [hnone]
      exact List.forall_mem_nil _
    · intro key _
      change (r.asking.mapKv.lookup key).getD [] = []
      rw [hnone]
      rfl
  · obtain ⟨hstore,hfound,hcall⟩ := queryRound_call hd hall
    rw [hcall] at hagain
    split at hagain
    · cases hagain
      exact .inr (.inr ⟨_,hfound,RoundRule.holds_of_waiting ⟨hstore,.refl _⟩ rfl⟩)
    · exact absurd hagain finishGetByScore_ne_again
  · rw [valueRound_call hd] at hagain
    exact absurd hagain finishGetByScore_ne_again

theorem QueryUnderWay.last (hd : QueryUnderWay h conf node store hr hamp hfew d)
    (hall : d.flights.all Flight.isAnswered = true) {rc : QkpackRc} {q' : Parent}
    (hend : createSubRequestBody h limits d.parent = (rc,q')) (hrc : rc ≠ .again) :
    ∃ p q, AllFound h node store r.asking p ∧
      q.request = { p.lookingUp with mapSlotsKv := q.request.mapSlotsKv } ∧
      SlotsHave r.namespaces KvPair.mark (fun kv => Reads h.proto.compress
        (Redis.mgetElem store (r.namespaces ++ kv.key)) kv.value) (p.mapKv.flatMap (·.2)) q.request.mapSlotsKv ∧
      finishGetByScore h q = (rc,q') := by
  rcases hd with rfl | hd | ⟨p,hp,hd⟩
  · cases (create_started hr).symm.trans hend
    exact absurd rfl hrc
  · obtain ⟨-,hfound,hcall⟩ := queryRound_call hd hall
    rw [hcall] at hend
    split at hend
    · cases hend
      exact absurd rfl hrc
    · rename_i hnone
      -- nothing was found, so there is nothing to look up
      refine ⟨_,_,hfound,rfl,slotsHave_of_values hfound (.refl _) ?_,hend⟩
      rw [not_not.mp hnone]
      exact List.forall_mem_nil _
  · rw [valueRound_call hd] at hend
    have hvalues := hd.inv.2
    exact ⟨p,d.parent,hp,hvalues.rest,slotsHave_of_values hp hvalues (hd.all_done hall),hend⟩

end TwoRounds

/-- Whatever the order of the sub-requests, the request is under way until it is answered. What is shown under a key is
what a server finds for its query; only a writer can fail. -/
theorem queries_under_way (hr : QueryStarted r) (hamp : ∀ key ∈ r.mapQuery.map (·.1), 38 ∉ key)
    (hfew : foundCount node store r.namespaces r.mapQuery < 2 ^ 31) {es : List DeliveryEvent} {d : Delivery}
    (hrun : Machine.run (deliveryStep h limits conf node) (Delivery.start r store) es = some d) :
    (d.final = none → QueryUnderWay h conf node store hr hamp hfew d) ∧ ∀ code, d.final = some code →
      (code = .ok → Answered h node store r d.parent.request) ∧
        ((∀ writer request, h.writer writer request ≠ none) → code = .ok) := by
  obtain ⟨hway,hend⟩ := delivered (J := QueryUnderWay h conf node store hr hamp hfew) (P := fun _ => True)
    (Q := fun _ request => (request.code = .ok → Answered h node store r request) ∧
      ((∀ writer request, h.writer writer request ≠ none) → request.code = .ok))
    (fun hd he _ hstep => hd.step he hstep) (fun hd hall hagain => hd.again hall hagain) (by
      intro d rc q' hd hall hprocess hrc
      constructor
      · intro hcode
        obtain ⟨hcreate,herror⟩ := processParent_ok hprocess hcode
        obtain ⟨p,q,hfound,hq,hslots,hfinish⟩ := hd.last hall hcreate hrc
        exact answered_of_finish hfound hq hslots hfinish herror
      · intro hwriter
        generalize hcreate : createSubRequestBody h limits d.parent = result
        obtain ⟨rc₀,q₀⟩ := result
        have hagain : rc₀ ≠ .again := by
          rintro rfl
          rw [processParent_of_create hcreate QkpackRc.noConfusion] at hprocess
          exact hrc (Prod.mk.inj hprocess).1.symm
        obtain ⟨p,q,hfound,hq,-,hfinish⟩ := hd.last hall hcreate hagain
        have hcode : q.request.code = .ok := by
          rw [hq, Request.lookingUp, hfound.members.rest]
          exact hr.code
        obtain ⟨q₁,hwritten,hok⟩ := finishGetByScore_written hwriter hcode
        cases hwritten.symm.trans hfinish
        rw [processParent_of_create hcreate QkpackRc.noConfusion] at hprocess
        cases hprocess
        exact hok) (.inl rfl) rfl (fun _ _ => trivial) hrun
  refine ⟨hway,?_⟩
  intro code hcode
  obtain ⟨rfl,hanswer⟩ := hend code hcode
  exact hanswer

theorem queries_delivered (hr : QueryStarted r) (hamp : ∀ key ∈ r.mapQuery.map (·.1), 38 ∉ key)
    (hfew : foundCount node store r.namespaces r.mapQuery < 2 ^ 31) {es : List DeliveryEvent} {d : Delivery}
    (hrun : Machine.run (deliveryStep h limits conf node) (Delivery.start r store) es = some d)
    (hfinal : d.final = some .ok) : Answered h node store r d.parent.request :=
  ((queries_under_way hr hamp hfew hrun).2 .ok hfinal).1 rfl

end Runs

end QkPack
