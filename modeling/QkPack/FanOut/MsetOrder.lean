import QkPack.FanOut.MsetRound
import QkPack.Protocol.Ranges

/-!
# The order of an `MSET`

Pairs are scattered over slots and written slot by slot, in rounds of limited size. The store is afterwards
as if they had been set one by one in the order of the request.
-/

namespace QkPack
open Wire CString Resp Json

def requestedPairs (tree : Tree) : Option (List (Bytes × Bytes)) :=
  (tree.getArray "ks").bind fun values => values.mapM fun value => do
    return (← value.getString "k",← value.getString "v")

section Body

variable {tree value : Tree} {kv : Bytes × Bytes}

theorem validateKVPair_ok {key value : Option Bytes} (h : validateKVPair key value = .ok kv) :
    key = some kv.1 ∧ value = some kv.2 ∧ kv.2 ≠ [] := by
  obtain ⟨k,hk,h⟩ := bind_eq_ok.mp h
  obtain ⟨v,hv,h⟩ := bind_eq_ok.mp h
  cases h
  exact ⟨validateString_ok hk,validateString_ok hv,validateString_ne_nil hv⟩

/-- A value from a body has room in the `int`s of the encoder, also when it is compressed. -/
theorem stored_short {lib : SnappyLib} {threshold : Int} {name : String} {v : Bytes}
    (hvalue : value.getString name = some v) (hne : v ≠ []) (hsize : value.size ≤ clientMaxBodySize) :
    (stored lib v threshold).length < 2 ^ 31 := by
  have hlen := Tree.size_getString hvalue
  exact stored_length_lt hne (nul_notMem_getString hvalue) (hlen.le.trans hsize)

theorem createParent_mset (lib : SnappyLib) {acl : Option Acl} {refusal : Option Bytes} {r : Request}
    (hcreate : createParent .mset (some tree) acl refusal = (.ok,r)) (hslots : r.mapSlotsKv ≠ [])
    (hbody : tree.size ≤ clientMaxBodySize) :
    requestedPairs tree = some (r.vectorKv.map fun kv => (kv.key,kv.value)) ∧
      r.mapSlotsKv = pushSlots r.namespaces r.vectorKv [] ∧ PairsFit lib r := by
  obtain ⟨_,values,pairs,⟨⟩,hks,hpairs,hvector,hlen,hpush⟩ := createParent_vector
    (fun value => validateKVPair (value.getString "k") (value.getString "v"))
    (fun kv => .plain kv.1 kv.2) rfl hcreate
  have hall := forall₂_of_mapM hpairs
  have hvalues := Tree.size_getArray hks
  refine ⟨?_,hpush hslots,?_⟩
  · rw [requestedPairs, hks, Option.bind_some, hvector, List.map_map]
    have hmap : (values.mapM fun value => do
        return (← value.getString "k",← value.getString "v")) = some pairs := by
      apply mapM_of_forall₂ (hall.imp ?_)
      intro value kv hkv
      obtain ⟨hk,hv,-⟩ := validateKVPair_ok hkv
      rw [hk, hv]
      rfl
    exact hmap.trans (congrArg some (List.map_id pairs).symm)
  · have hmem : ∀ kv ∈ r.vectorKv, ∃ value : Tree, value.size ≤ clientMaxBodySize ∧
        value.getString "k" = some kv.key ∧ value.getString "v" = some kv.value ∧ kv.value ≠ [] := by
      intro kv hkv
      rw [hvector] at hkv
      obtain ⟨pair,hpair,rfl⟩ := List.mem_map.mp hkv
      obtain ⟨value,hvalue,hcheck⟩ := exists_of_mapM hpairs hpair
      exact ⟨value,(Tree.size_le_sizeAll hvalue).trans (hvalues.le.trans hbody),validateKVPair_ok hcheck⟩
    apply pairsFit_of_vector (hpush hslots)
    · intro kv hkv
      obtain ⟨value,hsize,hk,-⟩ := hmem kv hkv
      have hkey := Tree.size_getString hk
      rw [clientMaxBodySize] at hsize
      rw [List.length_append, hlen]
      omega
    · intro kv hkv threshold
      obtain ⟨value,hsize,-,hv,hne⟩ := hmem kv hkv
      exact stored_short hv hne hsize
    · have hcount := Tree.length_le_sizeAll values
      rw [clientMaxBodySize] at hbody
      rw [hvector, List.length_map, ← hall.length_eq]
      omega

end Body

section Runs

variable {h : Handler} {limits : Limits} {conf : UpstreamConf} {node : Redis.Node} {store : Redis.Store}
  {r : Request}

/-- The store after the last round is the one after setting the pairs one by one, in their order. -/
theorem mset_in_order {tree : Tree} {acl : Option Acl} {refusal : Option Bytes}
    (hcreate : createParent .mset (some tree) acl refusal = (.ok,r)) (hslots : r.mapSlotsKv ≠ [])
    (hbody : tree.size ≤ clientMaxBodySize) (hproto : Registers node h.proto) {es : List DeliveryEvent}
    (hcaches : ∀ e ∈ es, e.SentWith (Registered node)) {d : Delivery}
    (hrun : Machine.run (deliveryStep h limits conf node) (Delivery.start r store) es = some d)
    (hfinal : d.final = some .ok) :
    ∃ pairs, requestedPairs tree = some pairs ∧
      Redis.setAll (toString32 r.exptime)
        (pairs.map fun kv => (r.namespaces ++ kv.1,
          stored h.proto.compress kv.2 (h.memory (keyHashSlot (r.namespaces ++ kv.1))))) store = some d.store := by
  obtain ⟨hpairs,hpush,hfit⟩ := createParent_mset h.proto.compress hcreate hslots hbody
  obtain ⟨hstarted,hcode⟩ := started_of_createParent hcreate
  refine ⟨_,hpairs,?_⟩
  rw [List.map_map]
  let p₀ : Parent := ⟨{ r with phase := .done },[],[]⟩
  have hfit₀ : PairsFit h.proto.compress p₀.request := ⟨hfit.slot,hfit.key,hfit.value,hfit.few⟩
  have hcommand : ∀ sub ∈ p₀.slotSubs .mset, subCommand p₀.request sub = .mset := by
    intro sub _
    simp only [subCommand, p₀, hstarted.commandType]
  have hwrites : p₀.request.commandType.Writes := .inl hstarted.commandType
  have hfirst : createSubRequestBody h limits (Delivery.start r store).parent =
      (.again,(Delivery.start r store).parent.sent limits.msetMaxCount .done (p₀.slotSubs .mset)) :=
    create_mset_first hstarted.commandType hcode hstarted.phase rfl (slotSubs_ne_nil hslots .mset)
  refine delivered_ok (J := fun d => d = Delivery.start r store ∨
      MsetUnderWay h conf node store p₀.request (p₀.slotSubs .mset) d)
    (Q := fun store' _ => Redis.setAll (toString32 r.exptime)
      (storedPairs h r.namespaces r.vectorKv) store = some store')
    ?_ ?_ ?_ (.inl rfl) rfl hcaches hrun hfinal
  · rintro d e d' (rfl | hd) he hcache hstep
    · exact absurd hstep (start_no_flights he)
    · exact .inr (hd.step he hcache hstep)
  · rintro d p (rfl | hd) hall hagain
    · cases hfirst.symm.trans hagain
      exact .inr (msetUnderWay_of_waiting hproto hfit₀ hcommand [] _
        (List.take_append_drop limits.msetMaxCount _).symm (List.forall_mem_nil _) rfl (fun _ _ => rfl) rfl)
    · exact .inr (hd.again hwrites rfl hall hagain)
  · rintro d rc p (rfl | hd) hall hend hrc herror
    · cases hfirst.symm.trans hend
      exact absurd rfl hrc
    · obtain ⟨hdone,houtside⟩ := hd.over hwrites rfl hall hend hrc herror
      exact setAll_of_done (p := p₀) hpush hdone houtside

end Runs

def scriptHash (script : Script) : Bytes :=
  List.replicate 40 (match script with | .addMultikv => 97 | .addZset => 98 | .incrby => 99 | .addRset => 100)

def scriptNode (numbers : Redis.Numbers) : Redis.Node where
  numbers := numbers
  scripts sha :=
    if sha = scriptHash .addMultikv then some addMultiKVScript
    else if sha = scriptHash .addZset then some (addZSetScript numbers)
    else none

def scriptHandler (proto : RedisProto) : Handler :=
  { plainHandler with proto := { proto with initClusterScript := fun _ script => some (scriptHash script) } }

theorem registers_scriptNode (numbers : Redis.Numbers) (proto : RedisProto) :
    Registers (scriptNode numbers) (scriptHandler proto).proto := by
  rintro ip script sha hsha
  obtain rfl := Option.some.inj hsha
  have hother : scriptHash .addZset ≠ scriptHash .addMultikv := by decide
  refine ⟨List.length_replicate,?_⟩
  cases script with
  | addMultikv => simp [scriptNode]
  | addZset => simp [scriptNode, hother]
  | incrby => trivial
  | addRset => trivial

def noScripts : Shared := ⟨fun _ _ => none,fun _ _ => []⟩

def msetBody : Tree :=
  .object [(text "uri",.string (text "qkd://BJ/ab")),(text "ak",.string (text "x")),
    (text "ks",.array [.object [(text "k",.string (text "a")),(text "v",.string (text "1"))],
      .object [(text "k",.string (text "b")),(text "v",.string (text "2"))]])]

def twoPairs : Request := (createParent .mset (some msetBody) (some ⟨60,1024,[]⟩) none).2

theorem twoPairs_created : createParent .mset (some msetBody) (some ⟨60,1024,[]⟩) none = (.ok,twoPairs) :=
  Prod.ext (by decide +kernel) rfl

def twoRounds : List DeliveryEvent :=
  [.post,.send 0 noScripts (text "10.0.0.1:7000"),.serve 0 noScripts fun _ => [],
    .post,.send 0 noScripts (text "10.0.0.1:7000"),.serve 0 noScripts fun _ => [],.post]

theorem mset_in_order_two :
    ∃ d, Machine.run (deliveryStep (scriptHandler literalProto) ⟨1,1⟩ (tableConf 3 3)
        (scriptNode plainNode.numbers)) (Delivery.start twoPairs fun _ => none) twoRounds = some d ∧
      ∃ pairs, requestedPairs msetBody = some pairs ∧
        Redis.setAll (toString32 twoPairs.exptime) (pairs.map fun kv => (twoPairs.namespaces ++ kv.1,
          stored (scriptHandler literalProto).proto.compress kv.2
            ((scriptHandler literalProto).memory (keyHashSlot (twoPairs.namespaces ++ kv.1))))) (fun _ => none) =
          some d.store := by
  have hrun : (Machine.run (deliveryStep (scriptHandler literalProto) ⟨1,1⟩ (tableConf 3 3)
      (scriptNode plainNode.numbers)) (Delivery.start twoPairs fun _ => none) twoRounds).map
        Delivery.final = some (some .ok) := by decide +kernel
  obtain ⟨d,hd,hfinal⟩ := Option.map_eq_some_iff.mp hrun
  refine ⟨d,hd,mset_in_order twoPairs_created (by decide +kernel) (by decide +kernel)
    (registers_scriptNode _ _) ?_ hd hfinal⟩
  have hnone : Registered (scriptNode plainNode.numbers) noScripts.scripts := by
    intro ip script hne
    exact absurd rfl hne
  simp only [twoRounds, List.forall_mem_cons]
  exact ⟨trivial,hnone,trivial,trivial,hnone,trivial,trivial,List.forall_mem_nil _⟩

end QkPack
