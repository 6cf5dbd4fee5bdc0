import QkPack.FanOut.CallCases
import QkPack.FanOut.EmptyRound
import QkPack.FanOut.MgetRound
import QkPack.Parser.WriteJson
import QkPack.Protocol.Ranges

/-!
# The order of an answer to `MGET`

Keys are scattered over slots and read slot by slot. The answer lists them in the order of the request, each
with what the store has under it.
-/

namespace QkPack
open Wire CString Resp Json

def requestedKeys (tree : Tree) : Option (List Bytes) :=
  (tree.getArray "ks").bind fun values => values.mapM fun value => value.getString "k"

/-- How an element is shown: `null` stands for an absent value and for an empty one. -/
def Shown (lib : SnappyLib) (e : Elem) (shown : Bytes) : Prop :=
  ∃ value, Reads lib e value ∧ shown = if value = [] then null else value

section Body

theorem createParent_mget {tree : Tree} {acl : Option Acl} {refusal : Option Bytes} {r : Request}
    (hcreate : createParent .mget (some tree) acl refusal = (.ok,r)) (hslots : r.mapSlotsKv ≠ [])
    (hbody : tree.size ≤ clientMaxBodySize) :
    requestedKeys tree = some (r.vectorKv.map KvPair.key) ∧
      r.mapSlotsKv = pushSlots r.namespaces r.vectorKv [] ∧ SlotsFit r := by
  obtain ⟨_,values,keys,⟨⟩,hks,hkeys,hvector,hlen,hpush⟩ := createParent_vector
    (fun value => validateKVPairByKey (value.getString "k")) (fun key => .plain key []) rfl hcreate
  have hvectorKeys : r.vectorKv.map KvPair.key = keys := by
    rw [hvector, List.map_map]
    exact List.map_id keys
  have hall := forall₂_of_mapM hkeys
  have hvalues := Tree.size_getArray hks
  rw [clientMaxBodySize] at hbody
  refine ⟨?_,hpush hslots,slotsFit_of_vector (hpush hslots) ?_ ?_⟩
  · rw [requestedKeys, hks, Option.bind_some, hvectorKeys]
    exact mapM_of_forall₂ (hall.imp fun _ _ => validateString_ok)
  · intro kv hkv
    obtain ⟨value,hmem,hvalue⟩ := exists_of_mapM hkeys (hvectorKeys ▸ List.mem_map_of_mem hkv)
    have hkey := Tree.size_getString (validateString_ok hvalue)
    have hle := Tree.size_le_sizeAll hmem
    rw [List.length_append, hlen]
    omega
  · have hcount := Tree.length_le_sizeAll values
    rw [hvector, List.length_map, ← hall.length_eq]
    omega

end Body

section Runs

variable {h : Handler} {limits : Limits} {conf : UpstreamConf} {node : Redis.Node} {store : Redis.Store}
  {r p : Request}

theorem create_mget_over {q q' : Parent} {rc : QkpackRc} (hcommand : q.request.commandType = .mget)
    (hphase : q.request.phase = .done) (hcreate : createSubRequestBody h limits q = (rc,q'))
    (hrc : rc ≠ .error) : ∃ body, q' = { q with request := { q.request with responseBuffer := body } } := by
  by_cases hcode : q.request.code = .ok
  · have hnot : ¬ q.request.phase = .start := by simp [hphase]
    have hcheck : checkSubRequestStatus q = .ok := by simp [checkSubRequestStatus, hcode]
    simp only [createSubRequestBody, hcode, ne_eq, not_true_eq_false, if_false, hcommand,
      createSubRequestMget, if_neg hnot] at hcreate
    simp only [hphase, hcheck, if_true] at hcreate
    exact write_eq hcreate hrc
  · rw [create_of_code h limits hcode] at hcreate
    cases hcreate
    exact absurd rfl hrc

theorem ks_of_done (p₀ : Parent) (hslots : p₀.request.mapSlotsKv = pushSlots p₀.request.namespaces
    p₀.request.vectorKv []) (hp : OnlyValues p₀.request p)
    (hdone : ∀ sub ∈ p₀.slotSubs .mget, MgetDone h.proto.compress store p₀.request sub p) :
    List.Forall₂ (fun key shown => shown.1 = key ∧
      Shown h.proto.compress (Redis.mgetElem store (p₀.request.namespaces ++ key)) shown.2)
      (p₀.request.vectorKv.map KvPair.key) (writerJsonMgetKs p) := by
  have hslotsHave := slotsHave_of_done p₀ hslots hp hdone
  rw [← List.append_nil p₀.request.vectorKv] at hslotsHave
  obtain ⟨hmarks,hall,-⟩ := hslotsHave.seenKvs
  have hsame := congrArg (List.map Prod.fst) hmarks
  rw [List.map_map, List.map_map] at hsame
  change List.map KvPair.key _ = List.map KvPair.key _ at hsame
  have hks : writerJsonMgetKs p =
      (seenKvs p₀.request.namespaces p₀.request.vectorKv p.mapSlotsKv).1.map fun kv =>
        (kv.key,if kv.value = [] then null else kv.value) := by
    rw [writerJsonMgetKs, hp.rest]
  rw [hks, ← hsame, List.forall₂_map_left_iff, List.forall₂_map_right_iff, List.forall₂_same]
  intro kv hkv
  exact ⟨rfl,kv.value,hall kv hkv,rfl⟩

theorem mget_delivered (hstarted : Started .mget r) (hcode : r.code = .ok)
    (hpush : r.mapSlotsKv = pushSlots r.namespaces r.vectorKv []) (hfit : SlotsFit r) {es : List DeliveryEvent}
    {d : Delivery} (hrun : Machine.run (deliveryStep h limits conf node) (Delivery.start r store) es = some d)
    (hfinal : d.final = some .ok) :
    List.Forall₂ (fun key shown => shown.1 = key ∧
      Shown h.proto.compress (Redis.mgetElem store (r.namespaces ++ key)) shown.2)
      (r.vectorKv.map KvPair.key) (writerJsonMgetKs d.parent.request) := by
  let p₀ : Parent := ⟨{ r with phase := .done },[],[]⟩
  have hfit₀ : SlotsFit p₀.request := ⟨hfit.short,hfit.few⟩
  have hcommand : ∀ sub ∈ p₀.slotSubs .mget, subCommand p₀.request sub = .mget := by
    intro sub _
    simp only [subCommand, p₀, hstarted.commandType]
  let rule := mgetRule h conf node store p₀.request (p₀.slotSubs .mget) hfit₀ hcommand
  have hover {d : Delivery} (hd : rule.Holds d) :
      d.parent.request.commandType = .mget ∧ d.parent.request.phase = .done := by
    have hvalues := hd.inv.2
    constructor
    · exact hvalues.commandType.trans hstarted.commandType
    · rw [hvalues.rest]
  have hfirst : createSubRequestBody h limits (Delivery.start r store).parent =
      (.again,⟨{ r with phase := .done },[],p₀.slotSubs .mget⟩) :=
    create_mget_first hstarted.commandType hcode hstarted.phase
  refine delivered_ok (J := fun d => d = Delivery.start r store ∨ rule.Holds d)
    (Q := fun _ p => List.Forall₂ (fun key shown => shown.1 = key ∧
        Shown h.proto.compress (Redis.mgetElem store (r.namespaces ++ key)) shown.2)
        (r.vectorKv.map KvPair.key) (writerJsonMgetKs p)) ?_ ?_ ?_ (.inl rfl) rfl
    (fun e _ => e.sentWith_true) hrun hfinal
  · rintro d e d' (rfl | hd) he hcache hstep
    · exact absurd hstep (start_no_flights he)
    · exact .inr (hd.step he hcache hstep).holds
  · rintro d p (rfl | hd) hall hagain
    · cases hfirst.symm.trans hagain
      exact .inr (RoundRule.holds_of_waiting ⟨rfl,.refl _⟩ rfl)
    · obtain ⟨hcommand,hphase⟩ := hover hd
      exact absurd hagain (create_mget_done hcommand hphase)
  · rintro d rc p (rfl | hd) hall hend hrc herror
    · cases hfirst.symm.trans hend
      exact absurd rfl hrc
    · obtain ⟨hcommand,hphase⟩ := hover hd
      obtain ⟨body,rfl⟩ := create_mget_over hcommand hphase hend herror
      -- the array is made from the entries, which the text of the answer does not change
      have hks := ks_of_done p₀ hpush hd.inv.2 (hd.all_done hall)
      exact hks

/-- The answer lists the requested keys in their order, each with what the store has under it; where nothing that is
stored is empty, that is the value or, for a key that is absent, `null`. -/
theorem mget_ks_in_order {tree : Tree} {acl : Option Acl} {refusal : Option Bytes}
    (hcreate : createParent .mget (some tree) acl refusal = (.ok,r)) (hslots : r.mapSlotsKv ≠ [])
    (hbody : tree.size ≤ clientMaxBodySize) {es : List DeliveryEvent} {d : Delivery}
    (hrun : Machine.run (deliveryStep h limits conf node) (Delivery.start r store) es = some d)
    (hfinal : d.final = some .ok) :
    ∃ keys, requestedKeys tree = some keys ∧
      List.Forall₂ (fun key shown => shown.1 = key ∧
        Shown h.proto.compress (Redis.mgetElem store (r.namespaces ++ key)) shown.2)
        keys (writerJsonMgetKs d.parent.request) ∧
      ((∀ key ∈ keys, ¬ Reads h.proto.compress (Redis.mgetElem store (r.namespaces ++ key)) []) →
        List.Forall₂ (fun key shown => shown.1 = key ∧
          Reads h.proto.compress (Redis.mgetElem store (r.namespaces ++ key)) shown.2)
          keys (writerJsonMgetKs d.parent.request)) := by
  obtain ⟨hkeys,hpush,hfit⟩ := createParent_mget hcreate hslots hbody
  obtain ⟨hstarted,hcode⟩ := started_of_createParent hcreate
  have hall := mget_delivered hstarted hcode hpush hfit hrun hfinal
  refine ⟨_,hkeys,hall,fun hfull => ?_⟩
  refine ((List.forall₂_and_left _ _).mpr ⟨hfull,hall⟩).imp ?_
  rintro key shown ⟨hfull,hkey,value,hreads,hshown⟩
  have hne : value ≠ [] := by
    rintro rfl
    exact hfull hreads
  rw [if_neg hne] at hshown
  exact ⟨hkey,hshown ▸ hreads⟩

end Runs

def oneString (value : Bulk) : Redis.Store :=
  Function.update (fun _ => none) (text "aba") (some ⟨.string value,none⟩)

def oneSub : List DeliveryEvent :=
  [.post,.send 0 ⟨fun _ _ => none,fun _ _ => []⟩ (text "10.0.0.1:7000"),
    .serve 0 ⟨fun _ _ => none,fun _ _ => []⟩ fun _ => []]

def oneRound : List DeliveryEvent := oneSub ++ [.post]

/-- An accepted request for the key `a`. -/
def oneKey : Request :=
  (createParent .mget (some (mgetBody "qkd://BJ/ab")) (some ⟨60,1024,[]⟩) none).2

theorem oneKey_created :
    createParent .mget (some (mgetBody "qkd://BJ/ab")) (some ⟨60,1024,[]⟩) none = (.ok,oneKey) :=
  Prod.ext (by decide +kernel) rfl

def keysBody (keys : List Bytes) : Tree :=
  .object [(text "uri",.string (text "qkd://BJ/ab")),(text "ak",.string (text "x")),
    (text "ks",.array (keys.map fun key => .object [(text "k",.string key)]))]

/-- Keys in three slots, the third one without a value, and the second one again. -/
def fourKeys : List Bytes := [text "b",text "a",text "z",text "a"]

def fourKeysRequest : Request := (createParent .mget (some (keysBody fourKeys)) (some ⟨60,1024,[]⟩) none).2

def five : Bulk := ⟨text "5",by decide⟩

def six : Bulk := ⟨text "6",by decide⟩

def twoStrings : Redis.Store := Function.update (oneString five) (text "abb") (some ⟨.string six,none⟩)

def threeSlots : List DeliveryEvent :=
  [.post,.send 0 ⟨fun _ _ => none,fun _ _ => []⟩ (text "10.0.0.1:7000"),
    .send 1 ⟨fun _ _ => none,fun _ _ => []⟩ (text "10.0.0.2:7000"),
    .send 2 ⟨fun _ _ => none,fun _ _ => []⟩ (text "10.0.0.3:7000"),
    .serve 2 ⟨fun _ _ => none,fun _ _ => []⟩ fun _ => [],.serve 0 ⟨fun _ _ => none,fun _ _ => []⟩ fun _ => [],
    .serve 1 ⟨fun _ _ => none,fun _ _ => []⟩ fun _ => [],.post]

theorem mget_ks_in_order_four :
    ∃ d, Machine.run (deliveryStep plainHandler ⟨1,1⟩ (tableConf 3 3) plainNode)
        (Delivery.start fourKeysRequest twoStrings) threeSlots = some d ∧
      writerJsonMgetKs d.parent.request =
        [(text "b",text "6"),(text "a",text "5"),(text "z",text "null"),(text "a",text "5")] ∧
      List.Forall₂ (fun key shown => shown.1 = key ∧ Reads plainHandler.proto.compress
        (Redis.mgetElem twoStrings (fourKeysRequest.namespaces ++ key)) shown.2)
        fourKeys (writerJsonMgetKs d.parent.request) := by
  have hrun : (Machine.run (deliveryStep plainHandler ⟨1,1⟩ (tableConf 3 3) plainNode)
      (Delivery.start fourKeysRequest twoStrings) threeSlots).map (fun d =>
        (d.final,writerJsonMgetKs d.parent.request)) = some (some .ok,
          [(text "b",text "6"),(text "a",text "5"),(text "z",text "null"),(text "a",text "5")]) := by
    decide +kernel
  obtain ⟨d,hd,hends⟩ := Option.map_eq_some_iff.mp hrun
  obtain ⟨hfinal,hks⟩ := Prod.mk.inj hends
  have hcreate : createParent .mget (some (keysBody fourKeys)) (some ⟨60,1024,[]⟩) none = (.ok,fourKeysRequest) :=
    Prod.ext (by decide +kernel) rfl
  obtain ⟨keys,hkeys,-,hexact⟩ := mget_ks_in_order hcreate (by decide +kernel) (by decide +kernel) hd hfinal
  cases hkeys.symm.trans (by decide +kernel : requestedKeys (keysBody fourKeys) = some fourKeys)
  refine ⟨d,hd,hks,hexact ?_⟩
  have hns : fourKeysRequest.namespaces = text "ab" := by decide +kernel
  rw [hns]
  simp only [fourKeys, List.forall_mem_cons]
  refine ⟨?_,?_,?_,?_,List.forall_mem_nil _⟩
  case refine_3 => exact fun hnull => by cases hnull
  all_goals
    rintro ⟨stack,hempty⟩
    cases hempty

/-- An empty string is stored, and `null` is shown. -/
theorem mget_empty_is_null :
    Redis.mgetElem (oneString ⟨[],by decide⟩) (text "aba") = some ⟨[],by decide⟩ ∧
    (Machine.run (deliveryStep plainHandler ⟨1,1⟩ (tableConf 3 3) plainNode)
      (Delivery.start oneKey (oneString ⟨[],by decide⟩)) oneRound).map (fun d =>
        (d.final,writerJsonMgetKs d.parent.request)) = some (some .ok,[(text "a",text "null")]) :=
  ⟨rfl,by decide +kernel⟩

end QkPack
