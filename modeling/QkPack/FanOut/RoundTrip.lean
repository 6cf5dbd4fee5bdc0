import Mathlib.Data.List.Perm.Basic
import QkPack.FanOut.BatchOrder
import QkPack.FanOut.FixedSetAdd
import QkPack.FanOut.MsetOrder

/-!
# Members that are written and read back

A set is written as a sorted set and a string for every member, all of them keys of one key space. A query by score
finds the members and then looks up their strings.
-/

namespace QkPack
open Wire CString Resp Json

def KvPair.member (kv : KvPair) : Member := ⟨kv.key,kv.value,kv.score⟩

/-- The answer to a query has exactly these members under the key, and none of their scores is missing in its text. -/
def ReadBack (key : Bytes) (ms : List Member) (request : Request) : Prop :=
  ∃ kvs : List KvPair, (kvs.map KvPair.member).Perm ms ∧ request.mapKv = [(key,kvs)] ∧ ∀ cost printDouble,
    writerJsonZfixedsetGetByScore cost request printDouble = .map (writerJsonCommon cost request ++
      (text "k",.string key) :: writtenSet printDouble kvs) ∧
    (writerJsonZfixedsetGetByScore cost request printDouble).Whole

/-- What is needed of members so that a query can read them back. No member is the set itself, whose place its value
would take. No value is the word for a missing one. No score is an infinity, which JSON has no word for. The server
reads bounds and scores from their texts; it has to find the scores between the bounds, and its own texts for them have
to be read as the scores. -/
structure Survives (proto : RedisProto) (numbers : Redis.Numbers) (key : Bytes) (ms : List Member)
    (query : ZsetQuery) : Prop where
  key : key ∉ ms.map Member.name
  value : ∀ m ∈ ms, m.value ≠ null
  finite : ∀ m ∈ ms, m.score.isFinite = true
  score : ∃ lo hi, numbers.read (Arg.score query.min).sent = some lo ∧
    numbers.read (Arg.score query.max).sent = some hi ∧ ∀ m ∈ ms, ∃ d,
      numbers.read (Arg.score m.score).sent = some d ∧ (lo ≤ d ∧ d ≤ hi) ∧
        proto.strToDouble (numbers.shown d).bytes = m.score

/-- There is an answer, or a sub-request has been delivered that the server answers with an error or the proxy cannot
take apart. -/
def Delivery.Over (h : Handler) (limits : Limits) (conf : UpstreamConf) (node : Redis.Node) (d : Delivery) : Prop :=
  d.final ≠ none ∨ ∃ i request shared stack, d.flights[i]? = some (.sent request) ∧
    deliveryStep h limits conf node d (.serve i shared stack) = none

section Body

theorem createParent_query {tree : Tree} {acl : Option Acl} {refusal : Option Bytes} {r : Request}
    {q : Bytes × ZsetQuery} (hcreate : createParent .zrangebyscore (some tree) acl refusal = (.ok,r))
    (hbody : tree.size ≤ clientMaxBodySize) (hq : requestedQuery tree = some q) :
    QueryStarted r ∧ r.mapQuery = [q] := by
  have hreads (r₁ : Request) (h : readJsonZfixedsetGetByScore (some tree) (Request.opened .zrangebyscore) = (.ok,r₁)) :
      ∃ uri, 0 ∉ uri ∧ r₁ = { Request.opened .zrangebyscore with uri := uri, mapQuery := [q] } := by
    obtain ⟨_,uri,q',⟨⟩,huri,hread,h⟩ := withAcl_ok h
    cases hq.symm.trans (readQuery_ok hread)
    cases h
    exact ⟨uri,nul_notMem_getString (validateACLInfo_ok huri),rfl⟩
  obtain ⟨r₁,hread,hlen,hrest,hsets⟩ := createParent_read (by
    intro r₁ h
    obtain ⟨uri,huri,rfl⟩ := hreads r₁ h
    exact huri) hcreate
  obtain ⟨uri,-,rfl⟩ := hreads r₁ hread
  obtain ⟨hstarted,hcode⟩ := started_of_createParent hcreate
  have hmap : r.mapQuery = [q] := congrArg Request.mapQuery hrest
  have hslots : r.mapSlotsKv = [] := congrArg Request.mapSlotsKv hrest
  refine ⟨⟨.inl hstarted.commandType,hstarted.phase,hcode,List.map_eq_nil_iff.mp hsets,hslots,?_,hlen,?_⟩,hmap⟩
  · rw [hmap]
    exact List.pairwise_singleton _ _
  · intro key hkey
    rw [hmap] at hkey
    have hkey : key = q.1 := List.mem_singleton.mp hkey
    have hsize := Tree.size_getString (requestedQuery_key hq)
    rw [clientMaxBodySize] at hbody
    rw [hkey, List.length_append, hlen]
    omega

end Body

section Lists

theorem exists_perm_forall₂ {α β : Type} {R : α → β → Prop} {as : List α} {bs bs' : List β}
    (hall : List.Forall₂ R as bs) (hperm : bs'.Perm bs) : ∃ as', as'.Perm as ∧ List.Forall₂ R as' bs' := by
  obtain ⟨as',hrel,hsame⟩ := List.perm_comp_forall₂ hperm hall.flip
  exact ⟨as',hsame,hrel.flip⟩

theorem ZsetQuery.select_perm (query : ZsetQuery) (z : List (Bulk × Double)) :
    (query.select z).Perm (Redis.rangeByScore query.min query.max z) := by
  unfold ZsetQuery.select
  split
  · exact .refl _
  · exact List.reverse_perm _

end Lists

section Selection

variable {node : Redis.Node} {store : Redis.Store} {namespaces : Bytes} {q : Bytes × ZsetQuery}

theorem selection_some {z' : List (Bulk × Double)}
    (h : node.selection store (rangeArgv namespaces q.1 q.2) = some z') :
    ∃ lo hi z, node.numbers.read (Arg.score q.2.min).sent = some lo ∧
      node.numbers.read (Arg.score q.2.max).sent = some hi ∧ Redis.members store (namespaces ++ q.1) = some z ∧
      z'.Perm (Redis.rangeByScore lo hi z) := by
  have hread : ∃ lo hi, node.numbers.read (Arg.score q.2.min).sent = some lo ∧
      node.numbers.read (Arg.score q.2.max).sent = some hi := by
    rw [rangeArgv, rangeCommand] at h
    cases hasc : q.2.asc with
    | true =>
      rw [hasc, if_pos rfl] at h
      obtain ⟨z,-,hselect⟩ := Option.bind_eq_some_iff.mp h
      rw [Redis.select, if_pos rfl] at hselect
      obtain ⟨lo,hlo,hselect⟩ := Option.bind_eq_some_iff.mp hselect
      obtain ⟨hi,hhi,-⟩ := Option.bind_eq_some_iff.mp hselect
      exact ⟨lo,hi,hlo,hhi⟩
    | false =>
      have hrev : ¬ text "ZREVRANGEBYSCORE" = text "ZRANGEBYSCORE" := by decide
      rw [hasc, if_neg Bool.false_ne_true] at h
      obtain ⟨z,-,hselect⟩ := Option.bind_eq_some_iff.mp h
      rw [Redis.select, if_neg hrev, if_pos rfl] at hselect
      obtain ⟨lo,hlo,hselect⟩ := Option.bind_eq_some_iff.mp hselect
      obtain ⟨hi,hhi,-⟩ := Option.bind_eq_some_iff.mp hselect
      exact ⟨lo,hi,hlo,hhi⟩
  obtain ⟨lo,hi,hlo,hhi⟩ := hread
  rw [selection_rangeArgv hlo hhi, Option.map_eq_some_iff] at h
  obtain ⟨z,hz,rfl⟩ := h
  exact ⟨lo,hi,z,hlo,hhi,hz,ZsetQuery.select_perm _ z⟩

end Selection

section Seen

variable {h : Handler} {node : Redis.Node} {store : Redis.Store} {namespaces key : Bytes} {ms : List Member}

/-- Values as bodies have them, that can be told from compressed ones. -/
structure PlainValues (ms : List Member) : Prop where
  form : ∀ m ∈ ms, m.value ≠ [] ∧ 0 ∉ m.value ∧ m.value.length < clientMaxBodySize
  word : ∀ m ∈ ms, m.value ≠ snappyWord

theorem Added.stored {numbers : Redis.Numbers} (hadded : Added h numbers namespaces key ms store)
    (hplain : PlainValues ms) {m : Member} (hm : m ∈ ms) : ∃ v : Value, v.bytes = m.value ∧ v.bytes ≠ snappyWord ∧
      Redis.mgetElem store (namespaces ++ m.name) =
        some (storedBulk h.proto (h.memory (keyHashSlot (namespaces ++ m.name))) v) := by
  obtain ⟨hne,hnul,hlen⟩ := hplain.form m hm
  rw [clientMaxBodySize] at hlen
  obtain ⟨b,hb,hbytes⟩ := hadded.value m hm
  obtain ⟨v,hv⟩ : ∃ v : Value, v.bytes = m.value := ⟨⟨m.value,hne,hnul,by omega⟩,rfl⟩
  have hsame : b = storedBulk h.proto (h.memory (keyHashSlot (namespaces ++ m.name))) v := by
    apply Bulk.eq_of_bytes
    rw [hbytes, ← hv, storedBulk]
  refine ⟨v,hv,hv ▸ hplain.word m hm,?_⟩
  rw [hb, hsame]

theorem Added.reads {numbers : Redis.Numbers} (hadded : Added h numbers namespaces key ms store)
    (hplain : PlainValues ms) {m : Member} (hm : m ∈ ms) {value : Bytes}
    (hreads : Reads h.proto.compress (Redis.mgetElem store (namespaces ++ m.name)) value) : value = m.value := by
  obtain ⟨v,hv,hword,helem⟩ := hadded.stored hplain hm
  rw [helem] at hreads
  obtain ⟨stack,hread⟩ := hreads
  rw [uncompressed_stored _ _ _ hword, Except.ok.injEq] at hread
  exact hread.symm.trans hv

def ReadBy (numbers : Redis.Numbers) (namespaces : Bytes) (m : Member) (x : Bulk × Double) : Prop :=
  numbers.read (Arg.score m.score).sent = some x.2 ∧ x.1.bytes = namespaces ++ m.name

theorem Added.inOrder {numbers : Redis.Numbers} (hadded : Added h numbers namespaces key ms store)
    (hkey : key ∉ ms.map Member.name) : ∃ z ms', Redis.members store (namespaces ++ key) = some z ∧ ms'.Perm ms ∧
      List.Forall₂ (ReadBy numbers namespaces) ms' z := by
  obtain ⟨placed,z,hplaced,hperm,hz⟩ := hadded.members hkey
  rw [addedPairs, List.forall₂_map_left_iff] at hplaced
  obtain ⟨ms',hsame,hall⟩ := exists_perm_forall₂ hplaced hperm
  exact ⟨z,ms',hz,hsame,hall⟩

theorem seen_members (hadded : Added h node.numbers namespaces key ms store) (hplain : PlainValues ms)
    {ms' : List Member} {z : List (Bulk × Double)} (hsub : ms' ⊆ ms) (hfew : 2 * z.length < 2 ^ 31)
    (hall : List.Forall₂ (ReadBy node.numbers namespaces) ms' z) {seen : List KvPair}
    (hmarks : seen.map KvPair.mark = (foundEntries h.proto node.numbers namespaces true z).map KvPair.mark)
    (hreads : ∀ kv ∈ seen, Reads h.proto.compress (Redis.mgetElem store (namespaces ++ kv.key)) kv.value) :
    List.Forall₂ (fun m kv => kv.key = m.name ∧ kv.value = m.value ∧ ∃ d,
      node.numbers.read (Arg.score m.score).sent = some d ∧
        kv.score = h.proto.strToDouble (node.numbers.shown d).bytes) ms' seen := by
  rw [foundEntries_all h.proto node.numbers namespaces hfew, List.map_map] at hmarks
  have hlen : z.length = seen.length := by
    have := congrArg List.length hmarks
    simpa using this.symm
  rw [List.forall₂_iff_get]
  refine ⟨hall.length_eq.trans hlen,?_⟩
  intro i hi hi'
  have hiz : i < z.length := hlen ▸ hi'
  obtain ⟨hscore,hname⟩ := hall.get hi hiz
  have hmark : seen[i].mark = (z[i].1.bytes.drop namespaces.length,
      h.proto.strToDouble (node.numbers.shown z[i].2).bytes) := by
    have hget := congrArg (fun l => l[i]?) hmarks
    simp only [List.getElem?_map, List.getElem?_eq_getElem hi', List.getElem?_eq_getElem hiz, Option.map_some,
      Option.some.injEq] at hget
    exact hget
  obtain ⟨hkey,hscore'⟩ := Prod.mk.inj hmark
  simp only [List.get_eq_getElem] at hscore hname ⊢
  rw [hname, List.drop_left] at hkey
  refine ⟨hkey,?_,z[i].2,hscore,hscore'⟩
  apply hadded.reads hplain (hsub (List.getElem_mem hi))
  rw [← hkey]
  exact hreads _ (List.getElem_mem hi')

end Seen

structure Asks (h : Handler) (node : Redis.Node) (store : Redis.Store) (key : Bytes) (ms : List Member)
    (query : ZsetQuery) (r : Request) : Prop where
  added : Added h node.numbers r.namespaces key ms store
  plain : PlainValues ms
  nodup : (ms.map Member.name).Nodup
  ne_nil : ms ≠ []
  few : 2 * ms.length < 2 ^ 31
  started : QueryStarted r
  queries : r.mapQuery = [(key,query)]
  scored : query.ws = true

section Query

variable {h : Handler} {limits : Limits} {conf : UpstreamConf} {node : Redis.Node} {store : Redis.Store}
  {key : Bytes} {ms : List Member} {query : ZsetQuery} {r p : Request}

theorem Asks.lookup (ha : Asks h node store key ms query r) : r.mapQuery.lookup key = some query := by
  rw [ha.queries, List.lookup_cons_self]

theorem Asks.selected (ha : Asks h node store key ms query r) {z' : List (Bulk × Double)}
    (hz' : node.selection store (rangeArgv r.namespaces key query) = some z') :
    key ∉ ms.map Member.name ∧ ∃ lo hi z ms', node.numbers.read (Arg.score query.min).sent = some lo ∧
      node.numbers.read (Arg.score query.max).sent = some hi ∧ z'.Perm (Redis.rangeByScore lo hi z) ∧ ms'.Perm ms ∧
      List.Forall₂ (ReadBy node.numbers r.namespaces) ms' z := by
  obtain ⟨lo,hi,z,hlo,hhi,hz,hperm⟩ := selection_some (q := (key,query)) hz'
  have hkey : key ∉ ms.map Member.name := by
    intro hmem
    cases (ha.added.replaced hmem).symm.trans hz
  obtain ⟨z₁,ms',hz₁,hsame,hall⟩ := ha.added.inOrder hkey
  cases hz.symm.trans hz₁
  exact ⟨hkey,lo,hi,z,ms',hlo,hhi,hperm,hsame,hall⟩

theorem Asks.selected_length (ha : Asks h node store key ms query r) {z' : List (Bulk × Double)}
    (hz' : node.selection store (rangeArgv r.namespaces key query) = some z') : z'.length ≤ ms.length := by
  obtain ⟨-,lo,hi,z,ms',-,-,hperm,hsame,hall⟩ := ha.selected hz'
  rw [hperm.length_eq, ← hsame.length_eq, hall.length_eq]
  exact List.length_filter_le _ z

theorem Asks.selected_few (ha : Asks h node store key ms query r) {z' : List (Bulk × Double)}
    (hz' : node.selection store (rangeArgv r.namespaces key query) = some z') : 2 * z'.length < 2 ^ 31 := by
  have hlen := ha.selected_length hz'
  have hfew := ha.few
  omega

theorem Asks.foundCount_lt (ha : Asks h node store key ms query r) :
    foundCount node store r.namespaces r.mapQuery < 2 ^ 31 := by
  rw [ha.queries, foundCount, List.map_singleton, List.sum_singleton]
  cases hz : node.selection store (rangeArgv r.namespaces key query) with
  | none =>
    rw [Option.getD_none, List.length_nil]
    omega
  | some z' =>
    have hfew := ha.selected_few hz
    rw [Option.getD_some]
    omega

theorem Asks.ampersand (ha : Asks h node store key ms query r) : ∀ k ∈ r.mapQuery.map (·.1), 38 ∉ k := by
  intro k hk
  rw [ha.queries] at hk
  rw [List.mem_singleton.mp hk]
  exact ha.added.ampersand

theorem Asks.found (ha : Asks h node store key ms query r) (hs : Survives h.proto node.numbers key ms query) :
    ∃ z' ms', node.selection store (rangeArgv r.namespaces key query) = some z' ∧ ms'.Perm ms ∧
      List.Forall₂ (ReadBy node.numbers r.namespaces) ms' z' := by
  obtain ⟨z,ms₁,hz,hsame,hall⟩ := ha.added.inOrder hs.key
  obtain ⟨lo,hi,hlo,hhi,hscores⟩ := hs.score
  have hrange : Redis.rangeByScore lo hi z = z := by
    rw [Redis.rangeByScore, List.filter_eq_self]
    intro x hx
    obtain ⟨i,hi',rfl⟩ := List.getElem_of_mem hx
    have him : i < ms₁.length := hall.length_eq ▸ hi'
    obtain ⟨hread,-⟩ := hall.get him hi'
    obtain ⟨d,hd,hbounds,-⟩ := hscores _ (hsame.subset (List.getElem_mem him))
    cases hread.symm.trans hd
    exact decide_eq_true hbounds
  have hperm := ZsetQuery.select_perm { query with min := lo, max := hi } z
  rw [hrange] at hperm
  obtain ⟨ms',hsame',hall'⟩ := exists_perm_forall₂ hall hperm
  have hselection : node.selection store (rangeArgv r.namespaces key query) =
      (Redis.members store (r.namespaces ++ key)).map { query with min := lo, max := hi }.select :=
    selection_rangeArgv (q := (key,query)) hlo hhi
  rw [hz, Option.map_some] at hselection
  exact ⟨_,ms',hselection,hsame'.trans hsame,hall'⟩

theorem eq_singleton {m : List (Bytes × List KvPair)} {kvs : List KvPair} (hnodup : (m.map (·.1)).Nodup)
    (hkeys : ∀ k ∈ m.map (·.1), k = key) (hlookup : (m.lookup key).getD [] = kvs) (hne : kvs ≠ []) :
    m = [(key,kvs)] := by
  cases m with
  | nil => exact absurd hlookup.symm hne
  | cons entry rest =>
    obtain ⟨k,entries⟩ := entry
    obtain ⟨hfirst,hkeys⟩ := List.forall_mem_cons.mp hkeys
    obtain ⟨hnot,-⟩ := List.nodup_cons.mp hnodup
    have hfirst : k = key := hfirst
    subst hfirst
    rw [List.lookup_cons_self, Option.getD_some] at hlookup
    subst hlookup
    cases rest with
    | nil => rfl
    | cons other rest => exact absurd (hkeys other.1 List.mem_cons_self ▸ List.mem_cons_self) hnot

theorem Asks.readBack (ha : Asks h node store key ms query r) (hs : Survives h.proto node.numbers key ms query)
    (hanswered : Answered h node store r p) : ReadBack key ms p := by
  obtain ⟨z,ms',hz,hsame,hall⟩ := ha.found hs
  obtain ⟨_,hz',seen,hmarks,hreads,hshown⟩ := hanswered.shows key query ha.lookup
  cases hz.symm.trans hz'
  have hfew := ha.selected_few hz
  rw [ha.scored] at hmarks
  have hseen := seen_members ha.added ha.plain hsame.subset hfew hall hmarks hreads
  obtain ⟨lo,hi,-,-,hscores⟩ := hs.score
  have hmembers : seen.map KvPair.member = ms' := by
    rw [← List.forall₂_eq_eq_eq, List.forall₂_map_left_iff]
    have hboth := (List.forall₂_and_left _ _).mpr ⟨fun m (hm : m ∈ ms') => hsame.subset hm,hseen⟩
    refine hboth.flip.imp ?_
    rintro kv m ⟨hm,hname,hvalue,d,hd,hscore⟩
    obtain ⟨d',hd',-,hback⟩ := hscores m hm
    cases hd.symm.trans hd'
    rw [KvPair.member, hname, hvalue, hscore, hback]
  have hkept : seen.filter (·.value ≠ null) = seen := by
    rw [List.filter_eq_self]
    intro kv hkv
    have hm : kv.member ∈ ms' := hmembers ▸ List.mem_map_of_mem hkv
    exact decide_eq_true (hs.value _ (hsame.subset hm))
  have hne : seen ≠ [] := by
    rintro rfl
    rw [← hmembers, List.map_nil] at hsame
    exact ha.ne_nil hsame.nil_eq.symm
  have hmap : p.mapKv = [(key,seen)] := by
    refine eq_singleton hanswered.nodup ?_ (hshown.trans hkept) hne
    intro k hk
    have hk := hanswered.keys k hk
    rw [ha.queries] at hk
    exact List.mem_singleton.mp hk
  refine ⟨seen,hmembers ▸ hsame,hmap,fun cost printDouble => ⟨?_,?_⟩⟩
  · rw [writerJsonZfixedsetGetByScore, hmap]
    rfl
  · rw [whole_getByScore, hmap]
    rintro _ ⟨⟩ kv hkv
    have hm : kv.member ∈ ms' := hmembers ▸ List.mem_map_of_mem hkv
    exact hs.finite _ (hsame.subset hm)

/-- Where as many are left as there were, all were let through. -/
theorem forall_of_length_filter {α : Type} {p : α → Bool} {l : List α} (h : l.length ≤ (l.filter p).length) :
    ∀ a ∈ l, p a = true :=
  List.length_filter_eq_length_iff.mp ((List.length_filter_le p l).antisymm h)

theorem Asks.survives (ha : Asks h node store key ms query r) (hanswered : Answered h node store r p)
    (hback : ReadBack key ms p) : Survives h.proto node.numbers key ms query := by
  obtain ⟨kvs,hperm,hmap,hdoc⟩ := hback
  obtain ⟨z',hz',seen,hmarks,hreads,hshown⟩ := hanswered.shows key query ha.lookup
  rw [hmap, List.lookup_cons_self, Option.getD_some] at hshown
  obtain ⟨hkey,lo,hi,z,ms₁,hlo,hhi,hrange,hsame,hall⟩ := ha.selected hz'
  have hfew := ha.selected_few hz'
  rw [ha.scored] at hmarks
  have hseenlen : seen.length = z'.length := by
    have hlen := congrArg List.length hmarks
    rwa [foundEntries_all h.proto node.numbers r.namespaces hfew, List.length_map, List.length_map,
      List.length_map] at hlen
  -- as many are shown as were added, so none is left out on the way
  have hcount : ms.length = kvs.length := by
    rw [← hperm.length_eq, List.length_map]
  have hzlen : z.length = ms.length := by
    rw [← hall.length_eq, hsame.length_eq]
  have hkvslen : kvs.length ≤ seen.length := by
    rw [hshown]
    exact List.length_filter_le _ _
  have hrangelen : (Redis.rangeByScore lo hi z).length ≤ z.length := List.length_filter_le _ _
  have hrangelen' := hrange.length_eq
  have hinside := forall_of_length_filter (show z.length ≤ (Redis.rangeByScore lo hi z).length by omega)
  have hkept : ∀ kv ∈ seen, kv ∈ kvs := by
    intro kv hkv
    rw [hshown]
    exact List.mem_filter.mpr ⟨hkv,forall_of_length_filter (by rw [← hshown]; omega) kv hkv⟩
  have hz : z'.Perm z := by
    have hself : Redis.rangeByScore lo hi z = z := List.filter_eq_self.mpr hinside
    rwa [hself] at hrange
  obtain ⟨ms',hsame',hall'⟩ := exists_perm_forall₂ hall hz
  have hms' := hsame'.trans hsame
  have hseen := seen_members ha.added ha.plain hms'.subset hfew hall' hmarks hreads
  refine ⟨hkey,?_,?_,lo,hi,hlo,hhi,?_⟩
  · intro m hm
    obtain ⟨kv,hkv,rfl⟩ := List.mem_map.mp (hperm.symm.subset hm)
    rw [hshown] at hkv
    exact of_decide_eq_true (List.mem_filter.mp hkv).2
  · intro m hm
    obtain ⟨kv,hkv,rfl⟩ := List.mem_map.mp (hperm.symm.subset hm)
    have hwhole := (hdoc 0 Double.shown).2
    rw [whole_getByScore, hmap] at hwhole
    exact hwhole _ rfl kv hkv
  · intro m hm
    obtain ⟨i,hi',rfl⟩ := List.getElem_of_mem (hms'.symm.subset hm)
    have hiz : i < z'.length := hall'.length_eq ▸ hi'
    have his : i < seen.length := hseen.length_eq ▸ hi'
    obtain ⟨hread,-⟩ := hall'.get hi' hiz
    obtain ⟨hname,-,d,hd,hscore⟩ := hseen.get hi' his
    simp only [List.get_eq_getElem] at hread hname hd hscore
    cases hread.symm.trans hd
    refine ⟨_,hread,of_decide_eq_true (hinside _ (hz.subset (List.getElem_mem hiz))),?_⟩
    -- the entry that is seen is that of the member, which is the only one with its name
    have hmember : seen[i].member ∈ ms := hperm.subset (List.mem_map_of_mem (hkept _ (List.getElem_mem his)))
    have hself : seen[i].member = ms'[i] := List.inj_on_of_nodup_map ha.nodup hmember hm hname
    rw [← hscore, ← hself]
    rfl

theorem Asks.planned (ha : Asks h node store key ms query r) (hs : Survives h.proto node.numbers key ms query)
    (hp : AllFound h node store r.asking p) {slot : Int} {keys : List Bytes}
    (hkeys : p.lookingUp.slotPlan.lookup slot = some keys) :
    ∀ k ∈ keys, (keyHashSlot (p.lookingUp.namespaces ++ k) : Int) = slot ∧ ∃ m ∈ ms, k = m.name := by
  intro k hk
  rw [lookup_slotPlan, Option.map_eq_some_iff] at hkeys
  obtain ⟨kvs,hkvs,rfl⟩ := hkeys
  obtain ⟨kv,hkv,rfl⟩ := List.mem_map.mp hk
  rw [mem_pushSlots (mem_of_lookup hkvs)] at hkv
  refine ⟨of_decide_eq_true (List.mem_filter.mp hkv).2,?_⟩
  obtain ⟨entry,hentry,hkv⟩ := List.mem_flatMap.mp (List.mem_of_mem_filter hkv)
  obtain ⟨query',z',hquery',hz',hentries⟩ := hp.entries hentry
  have hentrykey := hp.members.keys entry hentry
  rw [Request.asking, ha.queries] at hentrykey
  have hentrykey : entry.1 = key := List.mem_singleton.mp hentrykey
  rw [hentrykey] at hquery' hz'
  cases ha.lookup.symm.trans hquery'
  obtain ⟨_,ms',hz,hsame,hall⟩ := ha.found hs
  cases hz.symm.trans hz'
  have hfew := ha.selected_few hz
  have hall' := foundEntries_all h.proto node.numbers r.namespaces hfew
  rw [hentries, ha.scored] at hkv
  rw [Request.asking, hall'] at hkv
  obtain ⟨x,hx,rfl⟩ := List.mem_map.mp hkv
  obtain ⟨i,hi,rfl⟩ := List.getElem_of_mem hx
  have him : i < ms'.length := hall.length_eq ▸ hi
  obtain ⟨-,hname⟩ := hall.get him hi
  refine ⟨ms'[i],hsame.subset (List.getElem_mem him),?_⟩
  simp only [List.get_eq_getElem] at hname
  rw [hname, List.drop_left]

theorem Asks.serves (ha : Asks h node store key ms query r) (hs : Survives h.proto node.numbers key ms query)
    {d : Delivery} (hopen : d.final = none)
    (hd : QueryUnderWay h conf node store ha.started ha.ampersand ha.foundCount_lt d) {i : Nat} {request : Request}
    (hi : d.flights[i]? = some (.sent request)) (shared : Shared) (stack : Nat → Bytes) :
    deliveryStep h limits conf node d (.serve i shared stack) ≠ none := by
  have hserved : ∃ p', serveSub h node shared stack d.store d.parent.request request = some (d.store,p') := by
    rcases hd with rfl | hd | ⟨p,hp,hd⟩
    · cases hi
    · obtain ⟨k,hk,hsent⟩ := hd.sent hi
      obtain ⟨hstore,hmembers⟩ := hd.inv
      obtain ⟨z,ms',hz,hsame,hall⟩ := ha.found hs
      have hk : k ∈ r.mapQuery.map (·.1) := hk
      rw [ha.queries] at hk
      have hk : k = key := List.mem_singleton.mp hk
      subst hk
      rw [hstore]
      exact range_serves h shared stack d.parent.request hsent ha.lookup hz (ha.selected_few hz)
    · obtain ⟨sub,-,hsent⟩ := hd.sent hi
      obtain ⟨hstore,hvalues⟩ := hd.inv
      rw [hstore]
      refine mget_serves h shared stack (h.memory request.slotId)
        (hp.slotsFit ha.started.sorted ((congrArg List.length hp.namespaces).trans ha.started.namespaces)
          ha.foundCount_lt) hvalues hsent ?_
      intro keys hkeys k hk
      obtain ⟨hslot,m,hm,rfl⟩ := ha.planned hs hp hkeys k hk
      obtain ⟨v,-,hword,helem⟩ := ha.added.stored ha.plain hm
      refine ⟨v,hword,?_⟩
      rw [hp.namespaces] at hslot ⊢
      rw [← hslot]
      exact helem
  obtain ⟨p',hserve⟩ := hserved
  simp only [deliveryStep, hopen, hi, hserve, ne_eq, not_true_eq_false, if_false, Option.map_some]
  exact Option.some_ne_none _

end Query

section Runs

variable {h : Handler} {limits limits' : Limits} {conf conf' : UpstreamConf} {node : Redis.Node}
  {tree tree' : Tree} {a : Acl} {acl' : Option Acl} {refusal refusal' : Option Bytes} {r r' : Request}
  {key : Bytes} {ms : List Member} {query : ZsetQuery} {es es' : List DeliveryEvent} {d d' : Delivery}

theorem added_of_run (hadd : createParent .zadd (some tree) (some a) refusal = (.ok,r))
    (hbody : tree.size ≤ clientMaxBodySize) (hmembers : requestedMembers tree = some (key,ms))
    (hnodup : (ms.map Member.name).Nodup)
    (hlimit : ∀ policy, a.policies.find? (·.covers key) = some policy →
      (ms.length : Int) ≤ policy.limit ∧ policy.limit < 2 ^ 31)
    (hproto : Registers node h.proto) (hcaches : ∀ e ∈ es, e.SentWith (Registered node))
    (hrun : Machine.run (deliveryStep h limits conf node) (Delivery.start r fun _ => none) es = some d)
    (hfinal : d.final = some .ok) :
    Added h node.numbers r.namespaces key ms d.store ∧ ms ≠ [] ∧ 2 * ms.length < 2 ^ 31 ∧
      ∀ m ∈ ms, m.value ≠ [] ∧ 0 ∉ m.value ∧ m.value.length < clientMaxBodySize := by
  obtain ⟨hstarted,hcode⟩ := started_of_createParent hadd
  have hsets := sets_of_delivered hstarted.commandType hcode hstarted.phase hrun hfinal
  obtain ⟨key',ms',policy,hmembers',hpolicy,hr⟩ := createParent_zadd hadd hsets hbody
  cases hmembers.symm.trans hmembers'
  obtain ⟨store,hdone,-,hset⟩ := added_delivered hr hproto (hlimit policy hpolicy) hnodup hcaches hrun hfinal
  exact ⟨hdone.added hr.some hnodup hset,hr.some,hr.few,hr.values⟩

/-- Members are added to an empty key space without an error. A later query for their scores, all of whose sub-requests
are delivered, is answered with exactly these members if and only if they survive. -/
theorem members_read_back (hadd : createParent .zadd (some tree) (some a) refusal = (.ok,r))
    (hbody : tree.size ≤ clientMaxBodySize) (hmembers : requestedMembers tree = some (key,ms))
    (hnodup : (ms.map Member.name).Nodup) (hword : ∀ m ∈ ms, m.value ≠ snappyWord)
    (hlimit : ∀ policy, a.policies.find? (·.covers key) = some policy →
      (ms.length : Int) ≤ policy.limit ∧ policy.limit < 2 ^ 31)
    (hproto : Registers node h.proto) (hcaches : ∀ e ∈ es, e.SentWith (Registered node))
    (hrun : Machine.run (deliveryStep h limits conf node) (Delivery.start r fun _ => none) es = some d)
    (hfinal : d.final = some .ok)
    (hquery : createParent .zrangebyscore (some tree') acl' refusal' = (.ok,r'))
    (hbody' : tree'.size ≤ clientMaxBodySize) (hasked : requestedQuery tree' = some (key,query))
    (hscored : query.ws = true) (hns : r'.namespaces = r.namespaces)
    (hwriter : ∀ writer request, h.writer writer request ≠ none)
    (hrun' : Machine.run (deliveryStep h limits' conf' node) (Delivery.start r' d.store) es' = some d')
    (hover : d'.Over h limits' conf' node) :
    (d'.final = some .ok ∧ ReadBack key ms d'.parent.request) ↔ Survives h.proto node.numbers key ms query := by
  obtain ⟨hadded,hne,hfew,hform⟩ := added_of_run hadd hbody hmembers hnodup hlimit hproto hcaches hrun hfinal
  obtain ⟨hstarted,hqueries⟩ := createParent_query hquery hbody' hasked
  have ha : Asks h node d.store key ms query r' :=
    ⟨hns ▸ hadded,⟨hform,hword⟩,hnodup,hne,hfew,hstarted,hqueries,hscored⟩
  obtain ⟨hway,hend⟩ := queries_under_way ha.started ha.ampersand ha.foundCount_lt hrun'
  constructor
  · rintro ⟨hok,hback⟩
    exact ha.survives ((hend .ok hok).1 rfl) hback
  · intro hs
    cases hcode : d'.final with
    | none =>
      rcases hover with hsome | ⟨i,request,shared,stack,hi,hnone⟩
      · exact absurd hcode hsome
      · exact absurd hnone (ha.serves hs hcode (hway hcode) hi shared stack)
    | some code =>
      obtain ⟨hanswered,hok⟩ := hend code hcode
      obtain rfl := hok hwriter
      exact ⟨rfl,ha.readBack hs (hanswered rfl)⟩

end Runs

section Sample

/-- A body that adds members to the set `s`. -/
def addBody (ms : List Member) : Tree :=
  .object [(text "uri",.string (text "qkd://BJ/ab")),(text "ak",.string (text "x")),(text "k",.string (text "s")),
    (text "mbs",.array (ms.map fun m => .object
      [(text "mb",.string m.name),(text "sc",.number m.score),(text "v",.string m.value)]))]

def askBody : Tree :=
  .object [(text "uri",.string (text "qkd://BJ/ab")),(text "ak",.string (text "x")),(text "k",.string (text "s")),
    (text "min",.number (.finite 0)),(text "max",.number (.finite 1)),(text "asc",.boolean true),
    (text "ws",.boolean true)]

def zeroToOne : ZsetQuery := { min := .finite 0, max := .finite 1, asc := true, ws := true }

def roomForFive : Acl := ⟨60,1024,[⟨1,10,5⟩]⟩

def addOf (ms : List Member) : Request := (createParent .zadd (some (addBody ms)) (some roomForFive) none).2

def ask : Request := (createParent .zrangebyscore (some askBody) (some roomForFive) none).2

def addThenAsk (ms : List Member) (adding asking : List DeliveryEvent) : Option (Delivery × Delivery) := do
  let d ← Machine.run (deliveryStep (scriptHandler scoreProto) ⟨2,2⟩ (tableConf 3 3) (scriptNode twoScores.numbers))
    (Delivery.start (addOf ms) fun _ => none) adding
  let d' ← Machine.run (deliveryStep (scriptHandler scoreProto) ⟨2,2⟩ (tableConf 3 3)
    (scriptNode twoScores.numbers)) (Delivery.start ask d.store) asking
  return (d,d')

theorem addThenAsk_runs {ms : List Member} {adding asking : List DeliveryEvent} {d d' : Delivery}
    (h : addThenAsk ms adding asking = some (d,d')) :
    Machine.run (deliveryStep (scriptHandler scoreProto) ⟨2,2⟩ (tableConf 3 3) (scriptNode twoScores.numbers))
        (Delivery.start (addOf ms) fun _ => none) adding = some d ∧
      Machine.run (deliveryStep (scriptHandler scoreProto) ⟨2,2⟩ (tableConf 3 3) (scriptNode twoScores.numbers))
        (Delivery.start ask d.store) asking = some d' := by
  obtain ⟨d₁,hd,h⟩ := Option.bind_eq_some_iff.mp h
  obtain ⟨d₂,hd',h⟩ := Option.bind_eq_some_iff.mp h
  cases h
  exact ⟨hd,hd'⟩

/-- Two members in different slots, the second with the lower score. -/
def twoScored : List Member := [⟨text "a",text "6",.finite 1⟩,⟨text "b",text "5",.finite 0⟩]

theorem survives_twoScored : Survives (scriptHandler scoreProto).proto (scriptNode twoScores.numbers).numbers (text "s")
    twoScored zeroToOne := by
  have hzero : twoScores.numbers.read (Arg.score (.finite 0)).sent = some (.finite 0) := by decide +kernel
  have hone : twoScores.numbers.read (Arg.score (.finite 1)).sent = some (.finite 1) := by decide +kernel
  refine ⟨by decide,by decide,by decide,.finite 0,.finite 1,hzero,hone,?_⟩
  simp only [twoScored, List.forall_mem_cons]
  exact ⟨⟨.finite 1,hone,by decide +kernel,by decide +kernel⟩,⟨.finite 0,hzero,by decide +kernel,by decide +kernel⟩,
    List.forall_mem_nil _⟩

/-- Members that are not the set are read back. Their slots are written and read two at a time, and the second one is
answered first. -/
theorem members_read_back_two :
    ∃ d d', addThenAsk twoScored (oneSub ++ twoSubs ++ [.post]) (oneSub ++ twoSubs ++ [.post]) = some (d,d') ∧
      d'.final = some .ok ∧ ReadBack (text "s") twoScored d'.parent.request := by
  have hruns : (addThenAsk twoScored (oneSub ++ twoSubs ++ [.post]) (oneSub ++ twoSubs ++ [.post])).map
      (fun p => (p.1.final,p.2.final)) = some (some .ok,some .ok) := by decide +kernel
  obtain ⟨⟨d,d'⟩,hd,hfinals⟩ := Option.map_eq_some_iff.mp hruns
  obtain ⟨hfinal,hfinal'⟩ := Prod.mk.inj hfinals
  obtain ⟨hrun,hrun'⟩ := addThenAsk_runs hd
  have hcaches : ∀ e ∈ oneSub ++ twoSubs ++ [.post], e.SentWith (Registered (scriptNode twoScores.numbers)) := by
    have hnone : Registered (scriptNode twoScores.numbers) noScripts.scripts := fun ip script hne => absurd rfl hne
    simp only [oneSub, twoSubs, List.cons_append, List.nil_append, List.forall_mem_cons]
    exact ⟨trivial,hnone,trivial,trivial,hnone,hnone,trivial,trivial,trivial,List.forall_mem_nil _⟩
  have hadd : createParent .zadd (some (addBody twoScored)) (some roomForFive) none = (.ok,addOf twoScored) :=
    Prod.ext (by decide +kernel) rfl
  have hask : createParent .zrangebyscore (some askBody) (some roomForFive) none = (.ok,ask) :=
    Prod.ext (by decide +kernel) rfl
  have hasked : requestedQuery askBody = some (text "s",zeroToOne) := by decide +kernel
  have hlimit : ∀ policy, roomForFive.policies.find? (·.covers (text "s")) = some policy →
      (twoScored.length : Int) ≤ policy.limit ∧ policy.limit < 2 ^ 31 := by
    intro policy hpolicy
    have hfive : roomForFive.policies.find? (·.covers (text "s")) = some ⟨1,10,5⟩ := rfl
    cases hfive.symm.trans hpolicy
    decide
  have hback := members_read_back hadd (by decide +kernel) (by decide +kernel) (by decide) (by decide) hlimit
    (registers_scriptNode _ _) hcaches hrun hfinal hask (by decide +kernel) hasked rfl (by decide +kernel)
    (fun _ _ => Option.some_ne_none _) hrun' (.inl (by rw [hfinal']; exact Option.some_ne_none _))
  exact ⟨d,d',hd,hfinal',(hback.mpr survives_twoScored).2⟩

def Flight.isSent : Flight → Bool
  | .sent _ => true
  | _ => false

theorem exists_of_isSent {flight : Flight} (h : flight.isSent = true) : ∃ request, flight = .sent request := by
  cases flight with
  | sent request => exact ⟨request,rfl⟩
  | waiting sub => cases h
  | answered => cases h

/-- A member that is the set itself: its value takes the place of the set, and the server refuses the query. -/
theorem member_replaces_set :
    let ms : List Member := [⟨text "s",text "5",.finite 0⟩]
    createParent .zadd (some (addBody ms)) (some roomForFive) none = (.ok,addOf ms) ∧
    requestedMembers (addBody ms) = some (text "s",ms) ∧
    createParent .zrangebyscore (some askBody) (some roomForFive) none = (.ok,ask) ∧
    requestedQuery askBody = some (text "s",zeroToOne) ∧
    ∃ d d', addThenAsk ms (oneSub ++ oneSub ++ [.post]) (oneSub.take 2) = some (d,d') ∧ d.final = some .ok ∧
      d'.Over (scriptHandler scoreProto) ⟨2,2⟩ (tableConf 3 3) (scriptNode twoScores.numbers) ∧
      ¬ (d'.final = some .ok ∧ ReadBack (text "s") ms d'.parent.request) := by
  intro ms
  refine ⟨Prod.ext (by decide +kernel) rfl,by decide +kernel,Prod.ext (by decide +kernel) rfl,by decide +kernel,?_⟩
  have hruns : (addThenAsk ms (oneSub ++ oneSub ++ [.post]) (oneSub.take 2)).map (fun p => (p.1.final,p.2.final.isNone,
      p.2.flights[0]?.map Flight.isSent,(deliveryStep (scriptHandler scoreProto) ⟨2,2⟩ (tableConf 3 3)
        (scriptNode twoScores.numbers) p.2 (.serve 0 noScripts fun _ => [])).isNone)) =
        some (some .ok,true,some true,true) := by decide +kernel
  obtain ⟨⟨d,d'⟩,hd,hends⟩ := Option.map_eq_some_iff.mp hruns
  simp only [Prod.mk.injEq, Option.isNone_iff_eq_none, Option.map_eq_some_iff] at hends
  obtain ⟨hfinal,hopen,⟨flight,hflight,hsent⟩,hserve⟩ := hends
  obtain ⟨request,rfl⟩ := exists_of_isSent hsent
  refine ⟨d,d',hd,hfinal,.inr ⟨0,request,noScripts,fun _ => [],hflight,hserve⟩,?_⟩
  rintro ⟨hok,-⟩
  cases hopen.symm.trans hok

end Sample

end QkPack
