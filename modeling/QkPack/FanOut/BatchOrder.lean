import QkPack.Config.Namespaces
import QkPack.FanOut.EmptyRound
import QkPack.FanOut.MgetOrder
import QkPack.FanOut.RangeValues
import QkPack.Parser.WriteJson

/-!
# The answers to a batch of queries

A batch is a list of queries, which are kept in a map from keys to queries, and the members found for them in a map
from keys to members. The answer goes through the list again.
-/

namespace QkPack
open Wire CString Resp Json

def requestedQuery (node : Tree) : Option (Bytes × ZsetQuery) := do
  let key ← node.getString "k"
  let min ← node.getNumber "min"
  let max ← node.getNumber "max"
  return (key,{ min := min, max := max, asc := node.getTrue "asc", ws := node.getTrue "ws" })

def requestedQueries (tree : Tree) : Option (List (Bytes × ZsetQuery)) :=
  (tree.getArray "ks").bind fun values => values.mapM requestedQuery

/-- The members of a set that a query is for, in its order. -/
def ZsetQuery.select (query : ZsetQuery) (z : List (Bulk × Double)) : List (Bulk × Double) :=
  if query.asc then Redis.rangeByScore query.min query.max z
  else (Redis.rangeByScore query.min query.max z).reverse

/-- The result of a query: the members of its range in its order, with their scores if the query is for scores, and
with their values; members without a value are left out. -/
def IsResult (lib : SnappyLib) (store : Redis.Store) (namespaces : Bytes) (q : Bytes × ZsetQuery)
    (shown : List KvPair) : Prop :=
  ∃ z, Redis.members store (namespaces ++ q.1) = some z ∧ ∃ seen,
    List.Forall₂ (fun m kv => kv.key = m.1.bytes.drop namespaces.length ∧ (q.2.ws = true → kv.score = m.2) ∧
      Reads lib (Redis.mgetElem store (namespaces ++ kv.key)) kv.value) (q.2.select z) seen ∧
    shown = seen.filter (·.value ≠ null)

/-- The elements of the array `ks` that `WriterJsonZfixedsetBatchGetByScore` writes. -/
def batchKs (request : Request) : List (Bytes × List KvPair) :=
  request.vectorKv.map fun kv => (kv.key,(request.mapKv.lookup kv.key).getD [])

section Maps

variable {queries mapQuery : List (Bytes × ZsetQuery)}

theorem sorted_queryMap (h : SortedMap.Sorted mapQuery) : SortedMap.Sorted (queryMap queries mapQuery) := by
  induction queries generalizing mapQuery with
  | nil => exact h
  | cons q queries ih => exact ih (SortedMap.sorted_alter h)

theorem mem_queryMap {q : Bytes × ZsetQuery} (hq : q ∈ queryMap queries mapQuery) : q ∈ queries ∨ q ∈ mapQuery := by
  induction queries generalizing mapQuery with
  | nil => exact .inr hq
  | cons first queries ih =>
    rcases ih hq with hlater | hthere
    · exact .inl (List.mem_cons_of_mem _ hlater)
    · have hall : ∀ entry ∈ SortedMap.alter first.1 (fun _ => first.2) mapQuery, entry = first ∨ entry ∈ mapQuery :=
        SortedMap.forall_mem_alter (fun _ => .inl rfl) fun _ => .inr
      rcases hall q hthere with rfl | hold
      · exact .inl List.mem_cons_self
      · exact .inr hold

theorem lookup_queryMap (h : SortedMap.Sorted mapQuery) (key : Bytes) :
    (queryMap queries mapQuery).lookup key =
      ((queries.reverse.find? (·.1 = key)).map (·.2)).or (mapQuery.lookup key) := by
  induction queries generalizing mapQuery with
  | nil => rfl
  | cons q queries ih =>
    rw [queryMap, List.foldl_cons]
    apply (ih (SortedMap.sorted_alter h)).trans
    rw [SortedMap.lookup_alter h, List.reverse_cons, List.find?_append]
    cases queries.reverse.find? (·.1 = key) with
    | some last => rfl
    | none =>
      by_cases hkey : key = q.1
      · simp [hkey]
      · simp [hkey, Ne.symm hkey]

end Maps

section Body

theorem readQuery_ok {node : Tree} {q : Bytes × ZsetQuery} (h : readQuery node = .ok q) :
    requestedQuery node = some q := by
  obtain ⟨⟨key,min,max⟩,hvalid,h⟩ := bind_eq_ok.mp h
  obtain ⟨k,hk,hvalid⟩ := bind_eq_ok.mp hvalid
  obtain ⟨lo,hlo,hvalid⟩ := bind_eq_ok.mp hvalid
  obtain ⟨hi,hhi,hvalid⟩ := bind_eq_ok.mp hvalid
  cases hvalid
  cases h
  rw [requestedQuery, validateString_ok hk, validateNumber_ok hlo, validateNumber_ok hhi]
  rfl

theorem requestedQuery_key {node : Tree} {q : Bytes × ZsetQuery} (h : requestedQuery node = some q) :
    node.getString "k" = some q.1 := by
  simp only [requestedQuery, Option.bind_eq_bind, Option.bind_eq_some_iff] at h
  obtain ⟨key,hkey,_,-,_,-,h⟩ := h
  cases h
  exact hkey

theorem readJsonZfixedsetBatchGetByScore_ok {node : Option Tree} {request r : Request}
    (h : readJsonZfixedsetBatchGetByScore node request = (.ok,r)) :
    ∃ tree uri queries, node = some tree ∧ requestedQueries tree = some queries ∧ 0 ∉ uri ∧
      (∀ q ∈ queries, q.1.length ≤ tree.size) ∧ r = { request with
        uri := uri
        vectorKv := request.vectorKv ++ queries.map fun q => .plain q.1 []
        mapQuery := queryMap queries request.mapQuery } := by
  obtain ⟨tree,uri,values,hnode,huri,hvalues,h⟩ := withAcl_ok h
  obtain ⟨queries,hqueries,rfl⟩ := readEach_ok h
  obtain ⟨hks,-⟩ := validateArray_eq_ok hvalues
  refine ⟨tree,uri,queries,hnode,?_,nul_notMem_getString (validateACLInfo_ok huri),?_,foldl_setQuery queries _⟩
  · rw [requestedQueries, hks, Option.bind_some]
    exact mapM_of_forall₂ ((forall₂_of_mapM hqueries).imp fun _ _ => readQuery_ok)
  · intro q hq
    obtain ⟨value,hmem,hvalue⟩ := exists_of_mapM hqueries hq
    have hkey := Tree.size_getString (requestedQuery_key (readQuery_ok hvalue))
    have hle := Tree.size_le_sizeAll hmem
    have hall := Tree.size_getArray hks
    omega

theorem createParent_batch {tree : Tree} {acl : Option Acl} {refusal : Option Bytes} {r : Request}
    (hcreate : createParent .batchzrangebyscore (some tree) acl refusal = (.ok,r))
    (hbody : tree.size ≤ clientMaxBodySize) :
    ∃ queries, requestedQueries tree = some queries ∧ QueryStarted r ∧
      r.vectorKv.map KvPair.key = queries.map (·.1) ∧ r.mapQuery = queryMap queries [] := by
  have hreads (r₁ : Request) (h : readJsonZfixedsetBatchGetByScore (some tree) (Request.opened .batchzrangebyscore) =
      (.ok,r₁)) := readJsonZfixedsetBatchGetByScore_ok h
  obtain ⟨r₁,hread,hlen,hrest,hsets⟩ := createParent_read (by
    intro r₁ h
    obtain ⟨_,uri,_,-,-,huri,-,rfl⟩ := hreads r₁ h
    exact huri) hcreate
  obtain ⟨_,uri,queries,⟨⟩,hqueries,-,hshort,rfl⟩ := hreads r₁ hread
  obtain ⟨hstarted,hcode⟩ := started_of_createParent hcreate
  have hmap : r.mapQuery = queryMap queries [] := congrArg Request.mapQuery hrest
  have hslots : r.mapSlotsKv = [] := congrArg Request.mapSlotsKv hrest
  have hvector : r.vectorKv = queries.map fun q => .plain q.1 [] := congrArg Request.vectorKv hrest
  refine ⟨queries,hqueries,⟨.inr hstarted.commandType,hstarted.phase,hcode,List.map_eq_nil_iff.mp hsets,hslots,?_,
    hlen,?_⟩,?_,hmap⟩
  · rw [hmap]
    exact sorted_queryMap SortedMap.sorted_nil
  · rw [hmap]
    intro key hkey
    obtain ⟨q,hq,rfl⟩ := List.mem_map.mp hkey
    have hmem : q ∈ queries := (mem_queryMap hq).resolve_right List.not_mem_nil
    have hkey := hshort q hmem
    rw [clientMaxBodySize] at hbody
    rw [List.length_append, hlen]
    omega
  · rw [hvector, List.map_map]
    rfl

end Body

/-- A query that reaches the server as it is meant, and whose answer can be read: its key is an argument of an URI, the
texts of its bounds stand for them, and the scores, which the decoder expects, are asked for and read back and are
finite, as JSON has no word for the others. -/
structure Answerable (proto : RedisProto) (numbers : Redis.Numbers) (store : Redis.Store) (namespaces : Bytes)
    (q : Bytes × ZsetQuery) : Prop where
  key : 38 ∉ q.1
  min : numbers.read (Arg.score q.2.min).sent = some q.2.min
  max : numbers.read (Arg.score q.2.max).sent = some q.2.max
  scored : ∀ z, Redis.members store (namespaces ++ q.1) = some z → q.2.ws = true ∨ q.2.select z = []
  scores : ∀ z, Redis.members store (namespaces ++ q.1) = some z → ∀ m ∈ q.2.select z,
    proto.strToDouble (numbers.shown m.2).bytes = m.2
  finite : ∀ z, Redis.members store (namespaces ++ q.1) = some z → ∀ m ∈ q.2.select z, m.2.isFinite = true

section Selection

variable {h : Handler} {node : Redis.Node} {store : Redis.Store} {namespaces : Bytes} {q : Bytes × ZsetQuery}

/-- The server selects what the query is for, between the bounds that it reads. -/
theorem selection_rangeArgv {lo hi : Double} (hmin : node.numbers.read (Arg.score q.2.min).sent = some lo)
    (hmax : node.numbers.read (Arg.score q.2.max).sent = some hi) :
    node.selection store (rangeArgv namespaces q.1 q.2) =
      (Redis.members store (namespaces ++ q.1)).map { q.2 with min := lo, max := hi }.select := by
  have hrev : ¬ text "ZREVRANGEBYSCORE" = text "ZRANGEBYSCORE" := by decide
  rw [rangeArgv, rangeCommand]
  cases hasc : q.2.asc with
  | true =>
    have hselect : Redis.select node.numbers (text "ZRANGEBYSCORE") (Arg.score q.2.min).sent
        (Arg.score q.2.max).sent = some ∘ { q.2 with min := lo, max := hi }.select := by
      funext z
      rw [Redis.select, if_pos rfl, hmin, hmax, Function.comp_apply, ZsetQuery.select, if_pos hasc]
      rfl
    rw [if_pos rfl, List.cons_append, List.cons_append, List.cons_append, List.cons_append, Redis.Node.selection,
      hselect, Option.map_eq_bind]
  | false =>
    have hselect : Redis.select node.numbers (text "ZREVRANGEBYSCORE") (Arg.score q.2.max).sent
        (Arg.score q.2.min).sent = some ∘ { q.2 with min := lo, max := hi }.select := by
      funext z
      rw [Redis.select, if_neg hrev, if_pos rfl, hmin, hmax, Function.comp_apply, ZsetQuery.select, hasc]
      rfl
    rw [if_neg Bool.false_ne_true, List.cons_append, List.cons_append, List.cons_append, List.cons_append,
      Redis.Node.selection, hselect, Option.map_eq_bind]

theorem ShowsFound.isResult {shown : List KvPair} (hshows : ShowsFound h node store namespaces q.1 q.2 shown)
    (hq : Answerable h.proto node.numbers store namespaces q)
    (hfew : 2 * ((node.selection store (rangeArgv namespaces q.1 q.2)).getD []).length < 2 ^ 31) :
    IsResult h.proto.compress store namespaces q shown := by
  obtain ⟨found,hfound,seen,hmarks,hreads,hshown⟩ := hshows
  rw [hfound, Option.getD_some] at hfew
  rw [selection_rangeArgv hq.min hq.max, Option.map_eq_some_iff] at hfound
  obtain ⟨z,hz,rfl⟩ := hfound
  have hentries : (foundEntries h.proto node.numbers namespaces q.2.ws (q.2.select z)).map KvPair.mark =
      (q.2.select z).map fun m => (m.1.bytes.drop namespaces.length,m.2) := by
    rcases hq.scored z hz with hws | hnil
    · rw [hws, foundEntries_scored namespaces hfew (hq.scores z hz), List.map_map]
      rfl
    · have hnone := foundEntries_length_le h.proto node.numbers namespaces q.2.ws []
      rw [hnil, List.length_eq_zero_iff.mp (Nat.le_zero.mp hnone)]
      rfl
  refine ⟨z,hz,seen,?_,hshown⟩
  rw [hentries, ← List.forall₂_eq_eq_eq, List.forall₂_map_left_iff, List.forall₂_map_right_iff] at hmarks
  have hall := (List.forall₂_and_left _ _).mpr ⟨hreads,hmarks⟩
  refine hall.flip.imp ?_
  rintro m kv ⟨hvalue,hmark⟩
  obtain ⟨hkey,hscore⟩ := Prod.mk.inj hmark
  exact ⟨hkey,fun _ => hscore,hvalue⟩

theorem IsResult.finite {lib : SnappyLib} {shown : List KvPair} (hresult : IsResult lib store namespaces q shown)
    (hq : Answerable h.proto node.numbers store namespaces q) : ∀ kv ∈ shown, kv.score.isFinite = true := by
  obtain ⟨z,hz,seen,hall,rfl⟩ := hresult
  intro kv hkv
  obtain ⟨i,hi,rfl⟩ := List.getElem_of_mem (List.mem_of_mem_filter hkv)
  have hiz : i < (q.2.select z).length := hall.length_eq ▸ hi
  obtain ⟨-,hscore,-⟩ := hall.get hiz hi
  rcases hq.scored z hz with hws | hnil
  · have hsame := hscore hws
    simp only [List.get_eq_getElem] at hsame
    rw [hsame]
    exact hq.finite z hz _ (List.getElem_mem hiz)
  · rw [hnil] at hiz
    exact absurd hiz (Nat.not_lt_zero i)

end Selection

/-- The answer to a batch: as many elements as there are queries, the element of a query with its result, and no score
that is missing in the text. -/
def BatchAnswers (lib : SnappyLib) (store : Redis.Store) (namespaces : Bytes) (queries : List (Bytes × ZsetQuery))
    (cost : Int) (request : Request) (printDouble : Double → Bytes) : Prop :=
  ∃ ks : List (Bytes × List KvPair), writerJsonZfixedsetBatchGetByScore cost request printDouble =
      .map (writerJsonCommon cost request ++ [(text "kc",.word (decimal queries.length)),
        (text "ks",.array (ks.map fun shown => .map
          ((text "k",.string shown.1) :: writtenSet printDouble shown.2)))]) ∧
    (writerJsonZfixedsetBatchGetByScore cost request printDouble).Whole ∧
    List.Forall₂ (fun q shown => shown.1 = q.1 ∧ IsResult lib store namespaces q shown.2) queries ks

section Runs

variable {h : Handler} {limits : Limits} {conf : UpstreamConf} {node : Redis.Node} {store : Redis.Store}
  {tree : Tree} {acl : Option Acl} {refusal : Option Bytes} {r : Request} {queries : List (Bytes × ZsetQuery)}

theorem writerJson_batchKs (cost : Int) (request : Request) (printDouble : Double → Bytes) :
    writerJsonZfixedsetBatchGetByScore cost request printDouble =
      .map (writerJsonCommon cost request ++ [(text "kc",.word (decimal (batchKs request).length)),
        (text "ks",.array ((batchKs request).map fun shown => .map
          ((text "k",.string shown.1) :: writtenSet printDouble shown.2)))]) := by
  rw [writerJsonZfixedsetBatchGetByScore, batchKs, List.length_map, List.map_map]
  rfl

theorem foundCount_le {l l' : List (Bytes × ZsetQuery)} {namespaces : Bytes} (hnodup : l.Nodup) (hsub : l ⊆ l') :
    foundCount node store namespaces l ≤ foundCount node store namespaces l' :=
  sum_map_le_of_subset _ hnodup hsub

/-- Every element shows what is found for the last query with its key. -/
theorem batch_shows_last (hcreate : createParent .batchzrangebyscore (some tree) acl refusal = (.ok,r))
    (hbody : tree.size ≤ clientMaxBodySize) (hqueries : requestedQueries tree = some queries)
    (hamp : ∀ q ∈ queries, 38 ∉ q.1) (hfew : foundCount node store r.namespaces queries < 2 ^ 31)
    {es : List DeliveryEvent} {d : Delivery}
    (hrun : Machine.run (deliveryStep h limits conf node) (Delivery.start r store) es = some d)
    (hfinal : d.final = some .ok) :
    List.Forall₂ (fun q shown => shown.1 = q.1 ∧ ∃ last, queries.reverse.find? (·.1 = q.1) = some last ∧
        ShowsFound h node store r.namespaces q.1 last.2 shown.2) queries (batchKs d.parent.request) := by
  obtain ⟨queries',hqueries',hstarted,hkeys,hmap⟩ := createParent_batch hcreate hbody
  cases hqueries.symm.trans hqueries'
  have hmem : r.mapQuery ⊆ queries := by
    intro q hq
    rw [hmap] at hq
    exact (mem_queryMap hq).resolve_right List.not_mem_nil
  have hnodup : r.mapQuery.Nodup := hstarted.sorted.nodup.of_map
  have hanswered := queries_delivered hstarted (by
    intro key hkey
    obtain ⟨q,hq,rfl⟩ := List.mem_map.mp hkey
    exact hamp q (hmem hq)) ((foundCount_le hnodup hmem).trans_lt hfew) hrun hfinal
  rw [batchKs, hanswered.vectorKv, List.forall₂_map_right_iff]
  rw [← List.forall₂_eq_eq_eq, List.forall₂_map_left_iff, List.forall₂_map_right_iff] at hkeys
  have hall := (List.forall₂_and_left _ _).mpr ⟨fun q (hq : q ∈ queries) => hq,hkeys.flip⟩
  refine hall.imp ?_
  rintro q kv ⟨hq,hkey⟩
  refine ⟨hkey,?_⟩
  have hsome : (queries.reverse.find? (·.1 = q.1)).isSome := by
    rw [List.find?_isSome]
    exact ⟨q,List.mem_reverse.mpr hq,decide_eq_true rfl⟩
  obtain ⟨last,hlast⟩ := Option.isSome_iff_exists.mp hsome
  refine ⟨last,hlast,?_⟩
  have hlookup : r.mapQuery.lookup q.1 = some last.2 := by
    rw [hmap, lookup_queryMap SortedMap.sorted_nil, hlast]
    rfl
  have hkey' : kv.key = q.1 := hkey
  rw [hkey']
  exact hanswered.shows q.1 last.2 hlookup

/-- Where a key has only one query, the answer lists the results of the queries in their order. -/
theorem batch_answers_queries (hcreate : createParent .batchzrangebyscore (some tree) acl refusal = (.ok,r))
    (hbody : tree.size ≤ clientMaxBodySize) (hqueries : requestedQueries tree = some queries)
    (hsame : ∀ q ∈ queries, ∀ q' ∈ queries, q.1 = q'.1 → q = q')
    (hanswerable : ∀ q ∈ queries, Answerable h.proto node.numbers store r.namespaces q)
    (hfew : foundCount node store r.namespaces queries < 2 ^ 30)
    {es : List DeliveryEvent} {d : Delivery}
    (hrun : Machine.run (deliveryStep h limits conf node) (Delivery.start r store) es = some d)
    (hfinal : d.final = some .ok) (cost : Int) (printDouble : Double → Bytes) :
    BatchAnswers h.proto.compress store r.namespaces queries cost d.parent.request printDouble := by
  have hlast := batch_shows_last hcreate hbody hqueries (fun q hq => (hanswerable q hq).key) (by omega) hrun hfinal
  have hresults : List.Forall₂ (fun q shown => q ∈ queries ∧ shown.1 = q.1 ∧
      IsResult h.proto.compress store r.namespaces q shown.2) queries (batchKs d.parent.request) := by
    have hall := (List.forall₂_and_left _ _).mpr ⟨fun q (hq : q ∈ queries) => hq,hlast⟩
    refine hall.imp ?_
    rintro q shown ⟨hq,hkey,last,hfind,hshows⟩
    have hmem : last ∈ queries := List.mem_reverse.mp (List.mem_of_find?_eq_some hfind)
    have hsamekey := List.find?_some hfind
    rw [decide_eq_true_eq] at hsamekey
    cases hsame last hmem q hq hsamekey
    have hone : foundCount node store r.namespaces [q] ≤ foundCount node store r.namespaces queries :=
      foundCount_le (List.nodup_singleton q) fun _ hx => (List.mem_singleton.mp hx) ▸ hq
    rw [foundCount, List.map_singleton, List.sum_singleton] at hone
    exact ⟨hq,hkey,hshows.isResult (hanswerable q hq) (by omega)⟩
  refine ⟨batchKs d.parent.request,?_,?_,hresults.imp fun _ _ h => h.2⟩
  · rw [writerJson_batchKs, hlast.length_eq]
  · rw [whole_batchGetByScore]
    intro kv hkv
    have hshown : (kv.key,(d.parent.request.mapKv.lookup kv.key).getD []) ∈ batchKs d.parent.request :=
      List.mem_map_of_mem hkv
    obtain ⟨i,hi,hentry⟩ := List.getElem_of_mem hshown
    have hiq : i < queries.length := hresults.length_eq ▸ hi
    obtain ⟨hq,-,hresult⟩ := hresults.get hiq hi
    simp only [List.get_eq_getElem, hentry] at hresult
    exact hresult.finite (hanswerable _ hq)

end Runs

section Sample

def atScore (key : Bytes) (score : Double) : Bytes × ZsetQuery :=
  (key,{ min := score, max := score, asc := true, ws := true })

def atScoreNode (key : Bytes) (score : Double) : Tree :=
  .object [(text "k",.string key),(text "min",.number score),(text "max",.number score),
    (text "asc",.boolean true),(text "ws",.boolean true)]

def batchBody (scores : List (Bytes × Double)) : Tree :=
  .object [(text "uri",.string (text "qkd://BJ/ab")),(text "ak",.string (text "x")),
    (text "ks",.array (scores.map fun q => atScoreNode q.1 q.2))]

def scoreHandler : Handler := { plainHandler with proto := scoreProto }

def withMember (key : Bytes) (name : Bulk) (score : Double) (value : Bulk) (store : Redis.Store) : Redis.Store :=
  Function.update (Function.update store name.bytes (some ⟨.string value,none⟩)) key (some ⟨.zset [(name,score)],none⟩)

/-- The set `s` has the member `a` with the score zero and the value `5`, and the set `t` has the member `b` with the
score one and the value `6`. -/
def scoredStore : Redis.Store :=
  withMember (text "abs") memberA (.finite 0) five (withMember (text "abt") memberB (.finite 1) six fun _ => none)

def batchOf (scores : List (Bytes × Double)) : Request :=
  (createParent .batchzrangebyscore (some (batchBody scores)) (some ⟨60,1024,[]⟩) none).2

/-- Two sub-requests at a time, of which the second is answered first. -/
def twoSubs : List DeliveryEvent :=
  [.post,.send 0 ⟨fun _ _ => none,fun _ _ => []⟩ (text "10.0.0.1:7000"),
    .send 1 ⟨fun _ _ => none,fun _ _ => []⟩ (text "10.0.0.2:7000"),
    .serve 1 ⟨fun _ _ => none,fun _ _ => []⟩ fun _ => [],.serve 0 ⟨fun _ _ => none,fun _ _ => []⟩ fun _ => []]

theorem batchOf_created {scores : List (Bytes × Double)}
    (h : (createParent .batchzrangebyscore (some (batchBody scores)) (some ⟨60,1024,[]⟩) none).1 = .ok) :
    createParent .batchzrangebyscore (some (batchBody scores)) (some ⟨60,1024,[]⟩) none = (.ok,batchOf scores) :=
  Prod.ext h rfl

theorem scoredStore_members : Redis.members scoredStore (text "abs") = some [(memberA,.finite 0)] := by
  rw [Redis.members, scoredStore, withMember, Function.update_self]

theorem atScore_select : (atScore (text "s") (.finite 0)).2.select [(memberA,.finite 0)] =
    [(memberA,.finite 0)] := by
  simp [ZsetQuery.select, Redis.rangeByScore, atScore]

theorem empty_not_result :
    ¬ IsResult scoreHandler.proto.compress scoredStore (text "ab") (atScore (text "s") (.finite 0)) [] := by
  rintro ⟨z,hz,seen,hall,hshown⟩
  have hkey : text "ab" ++ (atScore (text "s") (.finite 0)).1 = text "abs" := by decide
  rw [hkey, scoredStore_members, Option.some.injEq] at hz
  subst hz
  rw [atScore_select] at hall
  obtain ⟨kv,rest,⟨hname,-,hreads⟩,-,rfl⟩ := List.forall₂_cons_left_iff.mp hall
  have hname : kv.key = text "a" := hname
  have hstring : Redis.mgetElem scoredStore (text "ab" ++ kv.key) = some five := by
    rw [hname]
    rfl
  rw [hstring] at hreads
  obtain ⟨stack,hvalue⟩ := hreads
  have hfive : kv.value = text "5" := (Except.ok.inj hvalue).symm
  rw [List.filter_cons_of_pos (by rw [hfive]; decide)] at hshown
  cases hshown

theorem answerable_atScore {key : Bytes} (name : Bulk) {score : Double} (hkey : 38 ∉ key)
    (hread : twoScores.numbers.read (Arg.score score).sent = some score)
    (hmembers : Redis.members scoredStore (text "ab" ++ key) = some [(name,score)])
    (hscore : scoreProto.strToDouble (twoScores.numbers.shown score).bytes = score) (hfinite : score.isFinite = true) :
    Answerable scoreHandler.proto twoScores.numbers scoredStore (text "ab") (atScore key score) := by
  have honly : ∀ z, Redis.members scoredStore (text "ab" ++ key) = some z → ∀ m ∈ (atScore key score).2.select z,
      m.2 = score := by
    intro z hz m hm
    rw [hmembers, Option.some.injEq] at hz
    subst hz
    have hsub : (atScore key score).2.select [(name,score)] ⊆ [(name,score)] := List.filter_sublist.subset
    rw [List.mem_singleton.mp (hsub hm)]
  refine ⟨hkey,hread,hread,fun _ _ => .inl rfl,?_,?_⟩
  · intro z hz m hm
    rw [honly z hz m hm]
    exact hscore
  · intro z hz m hm
    rw [honly z hz m hm]
    exact hfinite

/-- Queries for two sets, one of them twice. -/
def threeQueries : List (Bytes × Double) := [(text "t",.finite 1),(text "s",.finite 0),(text "t",.finite 1)]

/-- The sets, and then the slots of their members, are asked two at a time and answered in the other order. -/
theorem batch_answers_three :
    ∃ d, Machine.run (deliveryStep scoreHandler ⟨2,2⟩ (tableConf 3 3) twoScores)
        (Delivery.start (batchOf threeQueries) scoredStore) (twoSubs ++ twoSubs ++ [.post]) = some d ∧
      batchKs d.parent.request = [(text "t",[⟨text "b",text "6",.finite 1,0⟩]),
        (text "s",[⟨text "a",text "5",.finite 0,0⟩]),(text "t",[⟨text "b",text "6",.finite 1,0⟩])] ∧
      BatchAnswers scoreHandler.proto.compress scoredStore (batchOf threeQueries).namespaces
        (threeQueries.map fun q => atScore q.1 q.2) 3 d.parent.request Double.shown := by
  have hrun : (Machine.run (deliveryStep scoreHandler ⟨2,2⟩ (tableConf 3 3) twoScores)
      (Delivery.start (batchOf threeQueries) scoredStore) (twoSubs ++ twoSubs ++ [.post])).map
        (fun d => (d.final,batchKs d.parent.request)) = some (some .ok,[(text "t",[⟨text "b",text "6",.finite 1,0⟩]),
          (text "s",[⟨text "a",text "5",.finite 0,0⟩]),(text "t",[⟨text "b",text "6",.finite 1,0⟩])]) := by
    decide +kernel
  obtain ⟨d,hd,hends⟩ := Option.map_eq_some_iff.mp hrun
  obtain ⟨hfinal,hks⟩ := Prod.mk.inj hends
  have hns : (batchOf threeQueries).namespaces = text "ab" := by decide +kernel
  refine ⟨d,hd,hks,batch_answers_queries (batchOf_created (by decide +kernel)) (by decide +kernel)
    (by decide +kernel) ?_ ?_ (by decide +kernel) hd hfinal 3 Double.shown⟩
  · simp [threeQueries, atScore, text]
  · rw [hns]
    have ht : Answerable scoreHandler.proto twoScores.numbers scoredStore (text "ab")
        (atScore (text "t") (.finite 1)) :=
      answerable_atScore memberB (by decide) (by decide +kernel) rfl (by decide +kernel) rfl
    have hs : Answerable scoreHandler.proto twoScores.numbers scoredStore (text "ab")
        (atScore (text "s") (.finite 0)) :=
      answerable_atScore memberA (by decide) (by decide +kernel) rfl (by decide +kernel) rfl
    simp only [threeQueries, List.map_cons, List.map_nil, List.forall_mem_cons]
    exact ⟨ht,hs,ht,List.forall_mem_nil _⟩

/-- A key with two queries: both elements show what the second is for. -/
theorem batch_repeated_key :
    let scores := [(text "s",Double.finite 0),(text "s",Double.finite 1)]
    requestedQueries (batchBody scores) = some [atScore (text "s") (.finite 0),atScore (text "s") (.finite 1)] ∧
    createParent .batchzrangebyscore (some (batchBody scores)) (some ⟨60,1024,[]⟩) none = (.ok,batchOf scores) ∧
    ∃ d, Machine.run (deliveryStep scoreHandler ⟨1,1⟩ (tableConf 3 3) twoScores)
        (Delivery.start (batchOf scores) scoredStore) (oneSub ++ [.post]) = some d ∧ d.final = some .ok ∧
      ¬ BatchAnswers scoreHandler.proto.compress scoredStore (batchOf scores).namespaces
        [atScore (text "s") (.finite 0),atScore (text "s") (.finite 1)] 3 d.parent.request Double.shown := by
  intro scores
  refine ⟨by decide +kernel,batchOf_created (by decide +kernel),?_⟩
  have hrun : (Machine.run (deliveryStep scoreHandler ⟨1,1⟩ (tableConf 3 3) twoScores)
      (Delivery.start (batchOf scores) scoredStore) (oneSub ++ [.post])).map
        (fun d => (d.final,batchKs d.parent.request)) = some (some .ok,[(text "s",[]),(text "s",[])]) := by
    decide +kernel
  obtain ⟨d,hd,hfinal⟩ := Option.map_eq_some_iff.mp hrun
  obtain ⟨hfinal,hks⟩ := Prod.mk.inj hfinal
  refine ⟨d,hd,hfinal,?_⟩
  rintro ⟨ks,hdoc,-,hall⟩
  rw [writerJson_batchKs, hks] at hdoc
  obtain ⟨shown,ks,⟨-,hresult⟩,-,rfl⟩ := List.forall₂_cons_left_iff.mp hall
  -- nothing is written under the first key
  have hnone : shown.2 = [] := by
    have hmembers := List.append_cancel_left (Doc.map.inj hdoc)
    simp only [List.map_cons, List.cons.injEq, Prod.mk.injEq, Doc.array.injEq, Doc.map.injEq, writtenSet] at hmembers
    have hmbs := hmembers.2.1.2.1.2.2.1.2
    rw [List.map_nil] at hmbs
    exact List.map_eq_nil_iff.mp hmbs.symm
  have hns : (batchOf scores).namespaces = text "ab" := by decide +kernel
  rw [hnone, hns] at hresult
  exact empty_not_result hresult

end Sample

end QkPack
