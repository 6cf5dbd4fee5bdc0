import QkPack.FanOut.MgetOrder
import QkPack.FanOut.RangeValues

/-!
# Absent values and the text `null`

A value that is not there is noted as the text `null`, in place of the value. Nobody asks later which of both it was.
-/

namespace QkPack
open Wire CString Resp

/-- A server has this value under a key, as it is or compressed. -/
def Stores (lib : SnappyLib) (e : Elem) (v : Bytes) : Prop :=
  ∃ b, e = some b ∧ ∀ stack, uncompressed lib stack b.bytes = .ok v

/-- For a key that is absent or has a value, the answer looks as it does for an absent one only if it is. -/
def ToldApart (lib : SnappyLib) (e : Elem) (missing : Prop) : Prop :=
  (e = none ∨ ∃ v, Stores lib e v) → (missing ↔ e = none)

section Told

variable {lib : SnappyLib} {e : Elem} {v : Bytes}

theorem Stores.ne_none (h : Stores lib e v) : e ≠ none := by
  obtain ⟨b,rfl,-⟩ := h
  exact Option.some_ne_none b

theorem Stores.eq_of_reads {w : Bytes} (h : Stores lib e v) (hreads : Reads lib e w) : w = v := by
  obtain ⟨b,rfl,hb⟩ := h
  obtain ⟨stack,hstack⟩ := hreads
  exact Except.ok.inj (hstack.symm.trans (hb stack))

/-- Where some values are shown like an absent one, these are the ones that are not told apart from it. -/
theorem toldApart_iff {missing : Prop} (hidden : Bytes → Prop) (hnone : e = none → missing)
    (hstores : ∀ v, Stores lib e v → (missing ↔ hidden v)) :
    ToldApart lib e missing ↔ ∀ v, hidden v → ¬ Stores lib e v := by
  constructor
  · intro htold v hv hstored
    have hmissing := (hstores v hstored).mpr hv
    exact hstored.ne_none ((htold (.inr ⟨v,hstored⟩)).mp hmissing)
  · rintro h (rfl | ⟨v,hstored⟩)
    · exact iff_of_true (hnone rfl) rfl
    · refine iff_of_false ?_ hstored.ne_none
      intro hmissing
      exact h v ((hstores v hstored).mp hmissing) hstored

end Told

section Get

/-- The answer to a `GET` for this reply. -/
def getAnswer (proto : RedisProto) (stack : Nat → Bytes) (scripts : ScriptCache) (cost : Int) (request : Request)
    (e : Elem) : Except DecodeFault Json.Doc :=
  (redisProtoDecode proto stack scripts none { request with responseBuffer := encode (.bulk e) }).map fun d =>
    writerJsonGet cost d.request

variable {proto : RedisProto} {stack : Nat → Bytes} {scripts : ScriptCache} {cost : Int} {request : Request} {e : Elem}

theorem getAnswer_eq (hget : request.commandType = .get) (hcode : request.code = .ok) (e : Elem) :
    getAnswer proto stack scripts cost request e =
      (readElem proto.compress (stack 0) e).map fun v => writerJsonGet cost { request with value := v } := by
  have hcommand : request.commandType ≠ .ttl := by
    rw [hget]
    decide
  rw [getAnswer, redisProtoDecode_encElem none { request with responseBuffer := encode (.bulk e) } hcode hcommand rfl]
  cases readElem proto.compress (stack 0) e with
  | error fault => rfl
  | ok v => rfl

theorem writerJsonGet_inj {v w : Bytes} (h : writerJsonGet cost { request with value := v } =
    writerJsonGet cost { request with value := w }) : v = w := by
  simpa [writerJsonGet, writerJsonCommon] using h

/-- A `GET` that was answered. -/
structure GetAnswered (proto : RedisProto) where
  request : Request
  command : request.commandType = .get
  code : request.code = .ok
  stack : Nat → Bytes
  scripts : ScriptCache
  cost : Int
  elem : Elem
  answer : Json.Doc
  answered : getAnswer proto stack scripts cost request elem = .ok answer

namespace GetAnswered

variable (a : GetAnswered proto)

def TellsApart : Prop :=
  ToldApart proto.compress a.elem (getAnswer proto a.stack a.scripts a.cost a.request none = .ok a.answer)

theorem tellsApart_iff : a.TellsApart ↔ ¬ Stores proto.compress a.elem null := by
  have hanswer := a.answered
  rw [TellsApart, toldApart_iff (· = null) ?_ ?_]
  · exact forall_eq
  · intro hnone
    rw [hnone] at hanswer
    exact hanswer
  · rintro v ⟨b,hb,hstack⟩
    rw [hb, getAnswer_eq a.command a.code, readElem, hstack] at hanswer
    rw [getAnswer_eq a.command a.code, readElem, ← hanswer]
    constructor
    · intro heq
      exact (writerJsonGet_inj (Except.ok.inj heq)).symm
    · rintro rfl
      rfl

end GetAnswered

end Get

section Mget

theorem entries_of_forall₂ {R : Bytes → Bytes → Prop} {keys : List Bytes} {ks : List (Bytes × Bytes)}
    (h : List.Forall₂ (fun key shown => shown.1 = key ∧ R key shown.2) keys ks) :
    ks.map Prod.fst = keys ∧ ∀ entry ∈ ks, R entry.1 entry.2 := by
  induction h with
  | nil => exact ⟨rfl,List.forall_mem_nil _⟩
  | @cons key shown keys ks hfirst _ ih =>
    obtain ⟨rfl,hR⟩ := hfirst
    exact ⟨congrArg (shown.1 :: ·) ih.1,List.forall_mem_cons.mpr ⟨hR,ih.2⟩⟩

structure MgetAnswered (h : Handler) (limits : Limits) (conf : UpstreamConf) (node : Redis.Node) where
  tree : Json.Tree
  acl : Option Acl
  refusal : Option Bytes
  request : Request
  store : Redis.Store
  events : List DeliveryEvent
  delivery : Delivery
  created : createParent .mget (some tree) acl refusal = (.ok,request)
  slots : request.mapSlotsKv ≠ []
  bodyLimit : tree.size ≤ clientMaxBodySize
  delivered : Machine.run (deliveryStep h limits conf node) (Delivery.start request store) events = some delivery
  final : delivery.final = some .ok

namespace MgetAnswered

variable {h : Handler} {limits : Limits} {conf : UpstreamConf} {node : Redis.Node} (a : MgetAnswered h limits conf node)

def elem (key : Bytes) : Elem := Redis.mgetElem a.store (a.request.namespaces ++ key)

/-- An absent key is shown as `null`, and no other is. -/
def TellsApart : Prop :=
  ∀ entry ∈ writerJsonMgetKs a.delivery.parent.request,
    ToldApart h.proto.compress (a.elem entry.1) (entry.2 = null)

theorem tellsApart_iff : a.TellsApart ↔ ∀ key ∈ a.request.vectorKv.map KvPair.key,
    ¬ Stores h.proto.compress (a.elem key) null ∧ ¬ Stores h.proto.compress (a.elem key) [] := by
  obtain ⟨-,hpush,hfit⟩ := createParent_mget a.created a.slots a.bodyLimit
  obtain ⟨hstarted,hcode⟩ := started_of_createParent a.created
  obtain ⟨hkeys,hshown⟩ := entries_of_forall₂ (mget_delivered hstarted hcode hpush hfit a.delivered a.final)
  rw [← hkeys, List.forall_mem_map]
  apply forall₂_congr
  intro entry hentry
  obtain ⟨v,hreads,hv⟩ : Shown h.proto.compress (a.elem entry.1) entry.2 := hshown entry hentry
  rw [toldApart_iff (fun v => v = null ∨ v = []) ?_ ?_]
  · simp only [forall_eq_or_imp, forall_eq]
  · intro hnone
    rw [hnone] at hreads
    rw [hv, hreads]
    rfl
  · intro w hw
    rw [hv, hw.eq_of_reads hreads]
    split
    · rename_i hnil
      exact iff_of_true rfl (.inr hnil)
    · rename_i hnil
      exact (or_iff_left hnil).symm

end MgetAnswered

end Mget

section Query

/-- The members of the sets have been found, whatever they are; their values are to be looked up. -/
structure MembersFound (r : Request) : Prop where
  command : r.commandType.IsRange
  phase : r.phase = .mget
  code : r.code = .ok
  slots : r.mapSlotsKv = []
  sorted : SortedMap.Sorted r.mapKv
  fit : SlotsFit r.lookingUp

/-- What was found under a key, with what the server has for each member, and what is left of it. -/
def ShowsValues (lib : SnappyLib) (store : Redis.Store) (r p : Request) : Prop :=
  ∀ key, ∃ seen : List KvPair, seen.map KvPair.mark = ((r.mapKv.lookup key).getD []).map KvPair.mark ∧
    (∀ kv ∈ seen, Reads lib (Redis.mgetElem store (r.namespaces ++ kv.key)) kv.value) ∧
    (p.mapKv.lookup key).getD [] = seen.filter (·.value ≠ null)

variable {h : Handler} {limits : Limits} {conf : UpstreamConf} {node : Redis.Node}

theorem showsValues_of_finish {r : Request} (hr : MembersFound r) {store : Redis.Store} {q q' : Parent} {rc : QkpackRc}
    (hq : OnlyValues r.lookingUp q.request)
    (hdone : ∀ sub ∈ r.lookingUp.mapSlotsKv.map (fun slot => slotSub .mget slot.1),
      MgetDone h.proto.compress store r.lookingUp sub q.request)
    (hfinish : finishGetByScore h q = (rc,q')) (hrc : rc ≠ .error) :
    ShowsValues h.proto.compress store r q'.request := by
  obtain ⟨body,hbody⟩ := finishGetByScore_eq hfinish hrc
  have hslots := slotsHave_of_done ⟨r.lookingUp,[],[]⟩ rfl hq hdone
  have hns : q.request.namespaces = r.namespaces := hq.namespaces
  have hsets : q.request.mapKv = r.mapKv := by
    rw [hq.rest]
    rfl
  intro key
  obtain ⟨seen,hmarks,hreads,hshown⟩ := hslots.shown hr.sorted key
  refine ⟨seen,hmarks,hreads,?_⟩
  rw [hbody, hns, hsets]
  exact hshown

theorem MembersFound.queries {r : Request} (hr : MembersFound r) : r.commandType.Queries := by
  rcases hr.command with hct | hct
  · exact .inl hct
  · exact .inr (.inl hct)

theorem values_delivered {d₀ d : Delivery} {es : List DeliveryEvent} (hr : MembersFound d₀.parent.request)
    (hall : d₀.flights.all Flight.isAnswered = true) (hopen : d₀.final = none)
    (hrun : Machine.run (deliveryStep h limits conf node) d₀ es = some d) (hfinal : d.final = some .ok) :
    ShowsValues h.proto.compress d₀.store d₀.parent.request d.parent.request := by
  generalize hfound : d₀.parent.request = r at hr
  have hcommand : ∀ sub ∈ r.lookingUp.mapSlotsKv.map (fun slot => slotSub .mget slot.1),
      subCommand r.lookingUp sub = .mget := by
    intro sub hsub
    obtain ⟨slot,-,rfl⟩ := List.mem_map.mp hsub
    have hct : r.lookingUp.commandType = r.commandType := rfl
    rcases hr.command with hc | hc <;> simp only [subCommand, hct, hc] <;> rfl
  let rule := mgetRule h conf node d₀.store r.lookingUp _ hr.fit hcommand
  have hfirst : createSubRequestBody h limits d₀.parent =
      if r.lookingUp.mapSlotsKv ≠ [] then (.again,⟨r.lookingUp,d₀.parent.vectorSub,
        r.lookingUp.mapSlotsKv.map fun slot => slotSub .mget slot.1⟩)
      else finishGetByScore h ⟨r.lookingUp,d₀.parent.vectorSub,[]⟩ := by
    subst hfound
    apply create_queries_mget hr.queries hr.code hr.phase
    rw [hr.slots]
    rfl
  have hlast {d : Delivery} (hd : rule.Holds d) :
      createSubRequestBody h limits d.parent = finishGetByScore h d.parent := by
    have hvalues := hd.inv.2
    apply create_queries_done
    · rw [hvalues.commandType]
      exact hr.queries
    · rw [hvalues.rest]
      exact hr.code
    · rw [hvalues.rest]
      rfl
  refine delivered_ok (J := fun d => d = d₀ ∨ rule.Holds d)
    (Q := fun _ p => ShowsValues h.proto.compress d₀.store r p) ?_ ?_ ?_ (.inl rfl) hopen
    (fun e _ => e.sentWith_true) hrun hfinal
  · rintro d e d' (rfl | hd) he hcache hstep
    · exact absurd hstep (answered_no_flights hall he)
    · exact .inr (hd.step he hcache hstep).holds
  · rintro d p (rfl | hd) hall hagain
    · rw [hfirst] at hagain
      split at hagain
      · cases hagain
        exact .inr (RoundRule.holds_of_waiting ⟨rfl,.refl _⟩ rfl)
      · exact absurd hagain finishGetByScore_ne_again
    · rw [hlast hd] at hagain
      exact absurd hagain finishGetByScore_ne_again
  · rintro d rc p (rfl | hd) hall hend hrc herror
    · rw [hfirst] at hend
      split at hend
      · cases hend
        exact absurd rfl hrc
      · rename_i hnone
        refine showsValues_of_finish hr (.refl _) ?_ hend herror
        rw [not_not.mp hnone]
        exact List.forall_mem_nil _
    · rw [hlast hd] at hend
      exact showsValues_of_finish hr hd.inv.2 (hd.all_done hall) hend herror

/-- A query by score or rank whose members were found and that was answered then. -/
structure QueryAnswered (h : Handler) (limits : Limits) (conf : UpstreamConf) (node : Redis.Node) where
  found : Delivery
  events : List DeliveryEvent
  delivery : Delivery
  members : MembersFound found.parent.request
  answered : found.flights.all Flight.isAnswered = true
  unfinished : found.final = none
  delivered : Machine.run (deliveryStep h limits conf node) found events = some delivery
  final : delivery.final = some .ok

namespace QueryAnswered

variable (a : QueryAnswered h limits conf node)

/-- What `MGET` reports of a member. -/
def elem (member : Bytes) : Elem := Redis.mgetElem a.found.store (a.found.parent.request.namespaces ++ member)

def foundUnder (key : Bytes) : List Bytes :=
  ((a.found.parent.request.mapKv.lookup key).getD []).map KvPair.key

def shownUnder (key : Bytes) : List Bytes := ((a.delivery.parent.request.mapKv.lookup key).getD []).map KvPair.key

/-- A member is left out where `MGET` reports that it has no value, and no other is. -/
def TellsApart : Prop :=
  ∀ key, ∀ member ∈ a.foundUnder key, ToldApart h.proto.compress (a.elem member) (member ∉ a.shownUnder key)

theorem tellsApart_iff : a.TellsApart ↔
    ∀ key, ∀ member ∈ a.foundUnder key, ¬ Stores h.proto.compress (a.elem member) null := by
  have hshows := values_delivered a.members a.answered a.unfinished a.delivered a.final
  apply forall_congr'
  intro key
  obtain ⟨seen,hmarks,hreads,hshown⟩ := hshows key
  have hkeys : seen.map KvPair.key = a.foundUnder key := by
    have hfst := congrArg (List.map Prod.fst) hmarks
    rw [List.map_map, List.map_map] at hfst
    exact hfst
  have hmem (member : Bytes) : member ∈ a.shownUnder key ↔ ∃ kv ∈ seen, kv.value ≠ null ∧ kv.key = member := by
    rw [shownUnder, hshown]
    simp [and_assoc]
  apply forall₂_congr
  intro member hmember
  rw [← hkeys] at hmember
  obtain ⟨kv,hkv,rfl⟩ := List.mem_map.mp hmember
  rw [toldApart_iff (· = null) ?_ ?_]
  · exact forall_eq
  · intro hnone hin
    obtain ⟨other,hother,hvalue,hkey⟩ := (hmem _).mp hin
    have hread := hreads other hother
    rw [hkey] at hread
    change Reads _ (a.elem kv.key) _ at hread
    rw [hnone] at hread
    exact hvalue hread
  · intro v hv
    rw [hmem]
    constructor
    · intro hnot
      by_contra hne
      exact hnot ⟨kv,hkv,(hv.eq_of_reads (hreads kv hkv)).symm ▸ hne,rfl⟩
    · rintro rfl ⟨other,hother,hvalue,hkey⟩
      have hread := hreads other hother
      rw [hkey] at hread
      exact hvalue (hv.eq_of_reads hread)

end QueryAnswered

end Query

section Answers

variable {h : Handler} {limits : Limits} {conf : UpstreamConf} {node : Redis.Node}

/-- Absent values are told apart from stored ones exactly where none of the stored ones is `null`; for `MGET` an empty
one is shown as `null`, too. -/
theorem null_told_apart_iff (get : GetAnswered h.proto) (mget : MgetAnswered h limits conf node)
    (query : QueryAnswered h limits conf node) :
    (get.TellsApart ↔ ¬ Stores h.proto.compress get.elem null) ∧
    (mget.TellsApart ↔ ∀ key ∈ mget.request.vectorKv.map KvPair.key,
      ¬ Stores h.proto.compress (mget.elem key) null ∧ ¬ Stores h.proto.compress (mget.elem key) []) ∧
    (query.TellsApart ↔
      ∀ key, ∀ member ∈ query.foundUnder key, ¬ Stores h.proto.compress (query.elem member) null) :=
  ⟨get.tellsApart_iff,mget.tellsApart_iff,query.tellsApart_iff⟩

end Answers

section Samples

theorem stores_plain (lib : SnappyLib) {b : Bulk} {v : Bytes} (hplain : isValidCompressed b.bytes = false) :
    Stores lib (some b) v ↔ v = b.bytes := by
  have hread (stack : Bytes) : uncompressed lib stack b.bytes = .ok b.bytes := by
    simp [uncompressed, readValue, uncompressValue, hplain, Except.map]
  constructor
  · rintro ⟨_,⟨⟩,hv⟩
    exact Except.ok.inj ((hv []).symm.trans (hread []))
  · rintro rfl
    exact ⟨b,rfl,hread⟩

theorem exists_get {b : Bulk} (hplain : isValidCompressed b.bytes = false) :
    ∃ a : GetAnswered plainHandler.proto, a.elem = some b := by
  obtain ⟨_,⟨⟩,hread⟩ := (stores_plain plainHandler.proto.compress hplain).mpr rfl
  have hanswer : getAnswer plainHandler.proto (fun _ => []) (fun _ _ => []) 0 (bareGet 3) (some b) =
      .ok (writerJsonGet 0 { bareGet 3 with value := b.bytes }) := by
    rw [getAnswer_eq rfl rfl, readElem, hread]
    rfl
  exact ⟨⟨bareGet 3,rfl,rfl,fun _ => [],fun _ _ => [],0,some b,_,hanswer⟩,rfl⟩

theorem exists_mget {b : Bulk} (hrun : (Machine.run (deliveryStep plainHandler ⟨1,1⟩ (tableConf 3 3) plainNode)
    (Delivery.start oneKey (oneString b)) oneRound).map Delivery.final = some (some .ok)) :
    ∃ a : MgetAnswered plainHandler ⟨1,1⟩ (tableConf 3 3) plainNode,
      a.request = oneKey ∧ a.elem (text "a") = some b := by
  obtain ⟨d,hd,hfinal⟩ := Option.map_eq_some_iff.mp hrun
  have hns : oneKey.namespaces = text "ab" := by decide +kernel
  refine ⟨⟨_,_,_,oneKey,oneString b,oneRound,d,oneKey_created,by decide +kernel,by decide +kernel,hd,hfinal⟩,rfl,?_⟩
  rw [MgetAnswered.elem, hns]
  rfl

/-- A body that asks for the members of the set `s` by their ranks. -/
def rankBody : Json.Tree :=
  .object [(text "uri",.string (text "qkd://BJ/ab")),(text "ak",.string (text "x")),(text "k",.string (text "s")),
    (text "min",.number (.finite 0)),(text "max",.number (.finite (-1))),(text "asc",.boolean true),
    (text "ws",.boolean true)]

def rankQuery : Request := (createParent .zrange (some rankBody) (some ⟨60,1024,[]⟩) none).2

/-- The set has the member `a`, which has this value. -/
def rankStore (b : Bulk) : Redis.Store :=
  Function.update (oneString b) (text "abs") (some ⟨.zset [(memberA,.finite 0)],none⟩)

def rankRun (b : Bulk) (es : List DeliveryEvent) : Option Delivery :=
  Machine.run (deliveryStep plainHandler ⟨1,1⟩ (tableConf 3 3) plainNode) (Delivery.start rankQuery (rankStore b)) es

def rankFound : Delivery := (rankRun five oneSub).get (by decide +kernel)

theorem rankFound_eq : rankRun five oneSub = some rankFound := by
  rw [rankFound, Option.some_get]

theorem rankFound_mapKv : rankFound.parent.request.mapKv = [(text "s",[⟨text "a",[],.finite 0,0⟩])] := by
  decide +kernel

theorem membersFound_rankFound : MembersFound rankFound.parent.request where
  command := .inr (by decide +kernel)
  phase := by decide +kernel
  code := by decide +kernel
  slots := by decide +kernel
  sorted := by
    rw [rankFound_mapKv]
    exact List.pairwise_singleton _ _
  fit := ⟨by decide +kernel,by decide +kernel⟩

theorem exists_query : ∃ a : QueryAnswered plainHandler ⟨1,1⟩ (tableConf 3 3) plainNode,
    rankRun five oneSub = some a.found ∧ (∀ key, ∀ member ∈ a.foundUnder key, member = text "a") ∧
      a.elem (text "a") = some five := by
  have hrun : (Machine.run (deliveryStep plainHandler ⟨1,1⟩ (tableConf 3 3) plainNode) rankFound
      (oneSub ++ [.post])).map Delivery.final = some (some .ok) := by decide +kernel
  obtain ⟨d,hd,hfinal⟩ := Option.map_eq_some_iff.mp hrun
  have hbytes : (Redis.mgetElem rankFound.store (rankFound.parent.request.namespaces ++ text "a")).map Bulk.bytes =
      some five.bytes := by decide +kernel
  obtain ⟨b,helem,hb⟩ := Option.map_eq_some_iff.mp hbytes
  rw [Bulk.eq_of_bytes hb] at helem
  refine ⟨⟨rankFound,_,d,membersFound_rankFound,by decide +kernel,by decide +kernel,hd,hfinal⟩,
    rankFound_eq,?_,helem⟩
  intro key member hmember
  rw [QueryAnswered.foundUnder, rankFound_mapKv, SortedMap.lookup_cons_ite] at hmember
  split at hmember
  · exact List.mem_singleton.mp hmember
  · cases hmember

/-- With the value `5` everywhere all answers tell of it. -/
theorem told_apart_five :
    ∃ (get : GetAnswered plainHandler.proto) (mget : MgetAnswered plainHandler ⟨1,1⟩ (tableConf 3 3) plainNode)
      (query : QueryAnswered plainHandler ⟨1,1⟩ (tableConf 3 3) plainNode),
      rankRun five oneSub = some query.found ∧ get.TellsApart ∧ mget.TellsApart ∧ query.TellsApart := by
  obtain ⟨get,hget⟩ := exists_get (b := five) (by decide +kernel)
  obtain ⟨mget,hkey,hmget⟩ := exists_mget (b := five) (by decide +kernel)
  obtain ⟨query,hquery,hmembers,helem⟩ := exists_query
  have hother {v : Bytes} (hv : v ≠ text "5") : ¬ Stores plainHandler.proto.compress (some five) v :=
    (stores_plain _ (by decide +kernel)).not.mpr hv
  obtain ⟨hgetIff,hmgetIff,hqueryIff⟩ := null_told_apart_iff get mget query
  refine ⟨get,mget,query,hquery,hgetIff.mpr ?_,hmgetIff.mpr ?_,hqueryIff.mpr ?_⟩
  · rw [hget]
    exact hother (by decide)
  · have hkeys : oneKey.vectorKv.map KvPair.key = [text "a"] := by decide +kernel
    rw [hkey, hkeys, List.forall_mem_singleton, hmget]
    exact ⟨hother (by decide),hother (by decide)⟩
  · intro key member hmember
    rw [hmembers key member hmember, helem]
    exact hother (by decide)

/-- The text `null` as a value. -/
def nullValue : Bulk := ⟨null,by decide⟩

/-- The keys of an answer to `MGET`, with what is shown for them. -/
def shownKs (r : Request) (store : Redis.Store) : Option (Option ResponseCode × List (Bytes × Bytes)) :=
  (Machine.run (deliveryStep plainHandler ⟨1,1⟩ (tableConf 3 3) plainNode) (Delivery.start r store) oneRound).map
    fun d => (d.final,writerJsonMgetKs d.parent.request)

def shownMembers (b : Bulk) : Option (Option ResponseCode × List (Bytes × List Bytes)) :=
  (rankRun b (oneSub ++ oneRound)).map fun d =>
    (d.final,d.parent.request.mapKv.map fun set => (set.1,set.2.map KvPair.key))

/-- With `null` under the key all answers are those for an absent key, and the member is left out. -/
theorem null_not_told_apart :
    getAnswer literalProto (fun _ => []) (fun _ _ => []) 0 (bareGet 3) (some nullValue) =
      getAnswer literalProto (fun _ => []) (fun _ _ => []) 0 (bareGet 3) none ∧
    (shownKs oneKey (oneString nullValue) = some (some .ok,[(text "a",null)]) ∧
      shownKs oneKey (fun _ => none) = some (some .ok,[(text "a",null)])) ∧
    Redis.mgetElem (oneString nullValue) (text "ab" ++ text "a") = some nullValue ∧
    shownMembers nullValue = some (some .ok,[]) := by
  refine ⟨?_,⟨by decide +kernel,by decide +kernel⟩,rfl,by decide +kernel⟩
  rw [getAnswer_eq rfl rfl, getAnswer_eq rfl rfl]
  rfl

end Samples

end QkPack
