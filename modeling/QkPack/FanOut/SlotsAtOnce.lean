import QkPack.FanOut.AmongOthers
import QkPack.FanOut.MgetOrder
import QkPack.FanOut.MsetOrder

/-!
# Slots are read and written at once

While other clients use the same keys, an `MGET` reads and an `MSET` writes all keys of a slot in one moment, and every
slot only once. Two slots may be read or written at different moments.
-/

namespace QkPack
open Wire CString Resp Json

def readSlot (slot : Int) (store : Redis.Store) (found : Bytes → Elem) : Option (Redis.Store × (Bytes → Elem)) :=
  some (store,fun key => if (keyHashSlot key : Int) = slot then Redis.mgetElem store key else found key)

def writeSlot (h : Handler) (seconds namespaces : Bytes) (pairs : List (Bytes × Bytes)) (slot : Int)
    (store : Redis.Store) (_ : Unit) : Option (Redis.Store × Unit) :=
  (Redis.setAll seconds ((pairs.filter fun kv => (keyHashSlot (namespaces ++ kv.1) : Int) = slot).map fun kv =>
    (namespaces ++ kv.1,stored h.proto.compress kv.2 (h.memory (keyHashSlot (namespaces ++ kv.1))))) store).map
      fun store => (store,())

structure SlotsOf (namespaces : Bytes) (keys : List Bytes) (slots : List Int) : Prop where
  nodup : slots.Nodup
  mem_iff : ∀ slot, slot ∈ slots ↔ ∃ key ∈ keys, (keyHashSlot (namespaces ++ key) : Int) = slot

theorem slotsOf_pushSlots (namespaces : Bytes) (kvs : List KvPair) :
    SlotsOf namespaces (kvs.map KvPair.key) ((pushSlots namespaces kvs []).map (·.1)) := by
  refine ⟨(sorted_pushSlots SortedMap.sorted_nil).nodup,fun slot => ?_⟩
  rw [mem_keys_pushSlots]
  constructor
  · rintro (hnil | ⟨kv,hkv,hslot⟩)
    · cases hnil
    · exact ⟨kv.key,List.mem_map_of_mem hkv,hslot⟩
  · rintro ⟨key,hkey,hslot⟩
    obtain ⟨kv,hkv,rfl⟩ := List.mem_map.mp hkey
    exact .inr ⟨kv,hkv,hslot⟩

theorem slotId_of_init {p built : Request} {kvs : List KvPair} {uri : CommandType} {slot : Int}
    (hpush : p.mapSlotsKv = pushSlots p.namespaces kvs []) (hslot : slot ∈ p.mapSlotsKv.map (·.1))
    (hinit : ∃ request, qkupstreamInit (slotSub uri slot) = some request ∧ built.slotId = request.slotId) :
    built.slotId = slot := by
  let parent : Parent := ⟨p,[],[]⟩
  have hpush' : parent.request.mapSlotsKv = pushSlots parent.request.namespaces kvs [] := hpush
  obtain ⟨-,request,hopened,hid⟩ := slot_of_sub uri hpush' hslot
  obtain ⟨request',hinit,hbuilt⟩ := hinit
  cases hopened.symm.trans hinit
  exact hbuilt.trans hid

section Mget

def foundStore (found : Bytes → Elem) : Redis.Store := fun key => (found key).map fun s => ⟨.string s,none⟩

theorem mgetElem_foundStore (found : Bytes → Elem) (key : Bytes) :
    Redis.mgetElem (foundStore found) key = found key := by
  rw [Redis.mgetElem, foundStore]
  cases found key <;> rfl

theorem OnlyValues.slot {p₀ p : Request} (hp : OnlyValues p₀ p) {kvs entries : List KvPair}
    (hpush : p₀.mapSlotsKv = pushSlots p₀.namespaces kvs []) {slot : Int}
    (hentries : p.mapSlotsKv.lookup slot = some entries) : ∀ kv ∈ entries, kv.slot p₀.namespaces = slot := by
  intro kv hkv
  have hplan := congrArg (List.lookup slot) hp.plan
  rw [lookup_slotPlan, lookup_slotPlan, hentries, Option.map_some, eq_comm, Option.map_eq_some_iff] at hplan
  obtain ⟨before,hbefore,hkeys⟩ := hplan
  have hmem : kv.key ∈ before.map KvPair.key := hkeys ▸ List.mem_map_of_mem hkv
  obtain ⟨kv₀,hkv₀,hkey⟩ := List.mem_map.mp hmem
  rw [hpush] at hbefore
  rw [mem_pushSlots (mem_of_lookup hbefore)] at hkv₀
  have hslot : kv₀.slot p₀.namespaces = slot := of_decide_eq_true (List.mem_filter.mp hkv₀).2
  rwa [KvPair.slot, hkey] at hslot

variable {h : Handler} {limits : Limits} {conf : UpstreamConf} {node : Redis.Node} {r : Request}

/-- The parent of an `MGET`, when all slots but those that are left have been read. -/
structure MgetRead (lib : SnappyLib) (p₀ p : Request) (left : List Int) (found : Bytes → Elem) : Prop where
  values : OnlyValues p₀ p
  reads : ∀ slot ∉ left, ∀ kvs, p.mapSlotsKv.lookup slot = some kvs →
    ∀ kv ∈ kvs, Reads lib (found (p₀.namespaces ++ kv.key)) kv.value

variable {p₀ p p' built : Request} {left : List Int} {found : Bytes → Elem} {store store' : Redis.Store}

theorem MgetRead.serve {shared : Shared} {stack : Nat → Bytes} {slot : Int}
    (hread : MgetRead h.proto.compress p₀ p left found)
    (hpush : p₀.mapSlotsKv = pushSlots p₀.namespaces p₀.vectorKv []) (hfit : SlotsFit p₀)
    (hslot : slot ∈ p₀.mapSlotsKv.map (·.1)) (hsent : MgetSent p₀ (slotSub .mget slot) built)
    (hserve : serveSub h node shared stack store p built = some (store',p')) :
    ∃ found', readSlot slot store found = some (store',found') ∧
      MgetRead h.proto.compress p₀ p' (left.erase slot) found' := by
  obtain ⟨rfl,entries,hwritten,hreads⟩ := mget_served hfit hread.values hsent hserve
  rw [slotId_of_init hpush hslot hsent.init] at hwritten
  have hvalues := hread.values.written hwritten
  refine ⟨_,rfl,hvalues,?_⟩
  intro other hother kvs hkvs kv hkv
  have hkvSlot : (keyHashSlot (p₀.namespaces ++ kv.key) : Int) = other := hvalues.slot hpush hkvs kv hkv
  by_cases hsame : other = slot
  · rw [if_pos (hkvSlot.trans hsame)]
    rw [hsame, hwritten.here] at hkvs
    cases hkvs
    exact hreads kv hkv
  · rw [if_neg fun hslot => hsame (hkvSlot.symm.trans hslot)]
    rw [hwritten.others other hsame] at hkvs
    exact hread.reads other (fun hmem => hother ((List.mem_erase_of_ne hsame).mpr hmem)) kvs hkvs kv hkv

theorem MgetRead.ks (hread : MgetRead h.proto.compress p₀ p [] found)
    (hpush : p₀.mapSlotsKv = pushSlots p₀.namespaces p₀.vectorKv []) :
    List.Forall₂ (fun key shown => shown.1 = key ∧ Shown h.proto.compress (found (p₀.namespaces ++ key)) shown.2)
      (p₀.vectorKv.map KvPair.key) (writerJsonMgetKs p) := by
  let parent : Parent := ⟨p₀,[],[]⟩
  have hpush' : parent.request.mapSlotsKv = pushSlots parent.request.namespaces parent.request.vectorKv [] := hpush
  have hdone : ∀ sub ∈ parent.slotSubs .mget, MgetDone h.proto.compress (foundStore found) p₀ sub p := by
    intro sub hsub
    obtain ⟨slot,hslot,rfl⟩ := List.mem_map.mp hsub
    obtain ⟨-,request,hinit,-⟩ := slot_of_sub .mget hpush' (List.mem_map_of_mem hslot)
    refine ⟨request,hinit,fun kvs hkvs kv hkv => ?_⟩
    rw [mgetElem_foundStore]
    exact hread.reads request.slotId List.not_mem_nil kvs hkvs kv hkv
  simpa only [mgetElem_foundStore] using ks_of_done parent hpush hread.values hdone

/-- An `MGET` reads its slots one by one. -/
def mgetParts (h : Handler) (limits : Limits) (conf : UpstreamConf) (node : Redis.Node) (r : Request)
    (hstarted : Started .mget r) (hcode : r.code = .ok) (hpush : r.mapSlotsKv = pushSlots r.namespaces r.vectorKv [])
    (hfit : SlotsFit r) : PartRule h limits conf node Int (Bytes → Elem) where
  request := r
  parts := r.mapSlotsKv.map (·.1)
  sub := slotSub .mget
  act := readSlot
  found := fun _ => none
  Cache _ := True
  Inv p left later found := later = [] ∧ MgetRead h.proto.compress { r with phase := .done } p left found
  Sent slot := MgetSent { r with phase := .done } (slotSub .mget slot)
  Shows p found := List.Forall₂ (fun key shown => shown.1 = key ∧
    Shown h.proto.compress (found (r.namespaces ++ key)) shown.2) (r.vectorKv.map KvPair.key) (writerJsonMgetKs p)
  first := by
    refine ⟨_,r.mapSlotsKv.map (·.1),[],create_mget_first hstarted.commandType hcode hstarted.phase,?_,rfl,
      List.append_nil _,rfl,.refl _,?_⟩
    · rw [List.map_map]
      rfl
    · intro slot hslot kvs hkvs
      exact absurd (List.mem_map_of_mem (mem_of_lookup hkvs)) hslot
  send := by
    intro slot left later found p shared nodeIp built _ _ ⟨_,hread⟩ hsend
    have hcommand : subCommand { r with phase := .done } (slotSub .mget slot) = .mget := by
      simp only [subCommand, hstarted.commandType]
    exact mget_sent ⟨hfit.short,hfit.few⟩ hcommand hread.values hsend
  serve := by
    rintro slot left later found store p shared stack built store' p' hslot ⟨rfl,hread⟩ hsent hserve
    obtain ⟨found',hact,hread'⟩ := hread.serve hpush ⟨hfit.short,hfit.few⟩ hslot hsent hserve
    exact ⟨found',hact,rfl,hread'⟩
  again := by
    rintro left later found q p ⟨rfl,hread⟩ hvector hcreate
    have hphase : q.request.phase = .done := by rw [hread.values.rest]
    exact absurd hcreate (create_mget_done (hread.values.commandType.trans hstarted.commandType) hphase)
  ends := by
    rintro left later found rc q p ⟨rfl,hread⟩ hvector hcreate hagain herror
    have hphase : q.request.phase = .done := by rw [hread.values.rest]
    obtain ⟨body,rfl⟩ := create_mget_over (hread.values.commandType.trans hstarted.commandType) hphase hcreate herror
    refine ⟨rfl,?_⟩
    rintro rfl
    -- the array is made from the entries, which the text of the answer does not change
    exact hread.ks hpush

/-- Whatever other clients do in the meantime, an answered `MGET` has read every slot of its keys once and at once, and
shows what it has found there. -/
theorem mget_slots_at_once {tree : Tree} {acl : Option Acl} {refusal : Option Bytes}
    (hcreate : createParent .mget (some tree) acl refusal = (.ok,r)) (hslots : r.mapSlotsKv ≠ [])
    (hbody : tree.size ≤ clientMaxBodySize) {es : List AmongEvent} {d : Delivery}
    (hrun : Machine.run (amongStep h limits conf node) (Delivery.start r store) es = some d)
    (hfinal : d.final = some .ok) :
    ∃ keys slots turns found, requestedKeys tree = some keys ∧ SlotsOf r.namespaces keys slots ∧
      turns.flatMap Parts.Turn.foreign = es.flatMap AmongEvent.foreign ∧
      (turns.flatMap Parts.Turn.done).Perm slots ∧
      Machine.run (Parts.step readSlot) ⟨store,slots,fun _ => none⟩ turns = some ⟨d.store,[],found⟩ ∧
      List.Forall₂ (fun key shown => shown.1 = key ∧
        Shown h.proto.compress (found (r.namespaces ++ key)) shown.2) keys (writerJsonMgetKs d.parent.request) := by
  obtain ⟨hkeys,hpush,hfit⟩ := createParent_mget hcreate hslots hbody
  obtain ⟨hstarted,hcode⟩ := started_of_createParent hcreate
  have hcaches : ∀ e ∈ es, e.SentWith fun _ => True := fun e _ => by
    cases e with
    | own e => exact e.sentWith_true
    | others store => trivial
  obtain ⟨turns,found,hforeign,hturns,hdone,hshows⟩ :=
    (mgetParts h limits conf node r hstarted hcode hpush hfit).among_others hcaches hrun hfinal
  refine ⟨_,r.mapSlotsKv.map Prod.fst,turns,found,hkeys,?_,hforeign,hdone,hturns,hshows⟩
  rw [hpush]
  exact slotsOf_pushSlots r.namespaces r.vectorKv

def keysAB : Request := (createParent .mget (some (keysBody [text "a",text "b"])) (some ⟨60,1024,[]⟩) none).2

theorem keysAB_created :
    createParent .mget (some (keysBody [text "a",text "b"])) (some ⟨60,1024,[]⟩) none = (.ok,keysAB) :=
  Prod.ext (by decide +kernel) rfl

def onlyKey (key : Bytes) (value : Bulk) : Redis.Store :=
  Function.update (fun _ => none) key (some ⟨.string value,none⟩)

def changedBetween (store : Redis.Store) : List AmongEvent :=
  [.own .post,.own (.send 0 noScripts (text "10.0.0.1:7000")),.own (.send 1 noScripts (text "10.0.0.2:7000")),
    .own (.serve 0 noScripts fun _ => []),.others store,
    .own (.serve 1 noScripts fun _ => []),.own .post]

theorem mget_slots_at_once_changed :
    ∃ before after d, Machine.run (amongStep plainHandler ⟨1,1⟩ (tableConf 3 3) plainNode)
        (Delivery.start keysAB before) (changedBetween after) = some d ∧
      writerJsonMgetKs d.parent.request = [(text "a",text "7"),(text "b",text "5")] ∧
      ∃ keys slots turns found, requestedKeys (keysBody [text "a",text "b"]) = some keys ∧
        SlotsOf keysAB.namespaces keys slots ∧
        turns.flatMap Parts.Turn.foreign = (changedBetween after).flatMap AmongEvent.foreign ∧
        (turns.flatMap Parts.Turn.done).Perm slots ∧
        Machine.run (Parts.step readSlot) ⟨before,slots,fun _ => none⟩ turns = some ⟨d.store,[],found⟩ ∧
        List.Forall₂ (fun key shown => shown.1 = key ∧ Shown plainHandler.proto.compress
          (found (keysAB.namespaces ++ key)) shown.2) keys (writerJsonMgetKs d.parent.request) := by
  -- others take one key away and set the other one
  have hrun : (Machine.run (amongStep plainHandler ⟨1,1⟩ (tableConf 3 3) plainNode)
      (Delivery.start keysAB (onlyKey (text "abb") ⟨text "5",by decide⟩))
        (changedBetween (onlyKey (text "aba") ⟨text "7",by decide⟩))).map (fun d =>
          (d.final,writerJsonMgetKs d.parent.request)) =
            some (some .ok,[(text "a",text "7"),(text "b",text "5")]) := by
    decide +kernel
  obtain ⟨d,hd,hend⟩ := Option.map_eq_some_iff.mp hrun
  obtain ⟨hfinal,hks⟩ := Prod.mk.inj hend
  exact ⟨_,_,d,hd,hks,mget_slots_at_once keysAB_created (by decide +kernel) (by decide +kernel) hd hfinal⟩

end Mget

section Mset

variable {h : Handler} {limits : Limits} {conf : UpstreamConf} {node : Redis.Node} {r : Request}

theorem writeSlot_of_pushSlots (h : Handler) {p : Request} {kvs entries : List KvPair} {slot : Int}
    (hpush : p.mapSlotsKv = pushSlots p.namespaces kvs []) (hentries : p.mapSlotsKv.lookup slot = some entries)
    (seconds : Bytes) (store : Redis.Store) :
    writeSlot h seconds p.namespaces (kvs.map fun kv => (kv.key,kv.value)) slot store () =
      (Redis.setAll seconds (storedPairs h p.namespaces entries) store).map fun store => (store,()) := by
  rw [hpush] at hentries
  rw [writeSlot, mem_pushSlots (mem_of_lookup hentries), List.filter_map, List.map_map]
  rfl

/-- An `MSET` writes its slots one by one, in rounds. -/
def msetParts (h : Handler) (limits : Limits) (conf : UpstreamConf) (node : Redis.Node) (r : Request)
    (hstarted : Started .mset r) (hcode : r.code = .ok) (hpush : r.mapSlotsKv = pushSlots r.namespaces r.vectorKv [])
    (hslots : r.mapSlotsKv ≠ []) (hproto : Registers node h.proto) (hfit : PairsFit h.proto.compress r) :
    PartRule h limits conf node Int Unit where
  request := r
  parts := r.mapSlotsKv.map (·.1)
  sub := slotSub .mset
  act := writeSlot h (toString32 r.exptime) r.namespaces (r.vectorKv.map fun kv => (kv.key,kv.value))
  found := ()
  Cache := Registered node
  Inv p _ _ _ := p = { r with phase := .done }
  Sent slot := MsetSent node h { r with phase := .done } (slotSub .mset slot)
  Shows _ _ := True
  first := by
    refine ⟨_,(r.mapSlotsKv.map (·.1)).take limits.msetMaxCount,(r.mapSlotsKv.map (·.1)).drop limits.msetMaxCount,
      create_mset_first hstarted.commandType hcode hstarted.phase rfl (slotSubs_ne_nil hslots .mset),?_,?_,
        List.take_append_drop _ _,rfl⟩
    · rw [List.map_take, List.map_map]
      rfl
    · rw [List.map_drop, List.map_map]
      rfl
  send := by
    rintro slot left later found p shared nodeIp built _ hcache rfl hsend
    have hcommand : subCommand { r with phase := .done } (slotSub .mset slot) = .mset := by
      simp only [subCommand, hstarted.commandType]
    exact mset_sent hproto ⟨hfit.slot,hfit.key,hfit.value,hfit.few⟩ hcommand hcache hsend
  serve := by
    rintro slot left later found store p shared stack built store' p' hslot rfl hsent hserve
    obtain ⟨rfl,entries,hentries,hset⟩ := mset_served hsent hserve
    rw [slotId_of_init hpush hslot hsent.init] at hentries
    refine ⟨(),?_,rfl⟩
    rw [writeSlot_of_pushSlots h hpush hentries, hset]
    rfl
  again := by
    intro left later found q p hq hvector hcreate
    have hwrites : q.request.commandType.Writes := .inl (hq ▸ hstarted.commandType)
    have hphase : q.request.phase = .done := by rw [hq]
    have hok := code_of_again hcreate
    by_cases hrest : q.vectorSub = []
    · rw [create_done hwrites hok hphase hrest] at hcreate
      exact absurd hcreate write_ne_again
    · rw [create_done_rest hwrites hok hphase hrest] at hcreate
      cases hcreate
      refine ⟨later.take limits.msetMaxCount,later.drop limits.msetMaxCount,?_,?_,List.take_append_drop _ _,?_⟩
      · rw [List.map_take, ← hvector]
        rfl
      · rw [List.map_drop, ← hvector]
        rfl
      · simp only [Parent.sent, hq]
  ends := by
    intro left later found rc q p hq hvector hcreate hagain herror
    have hwrites : q.request.commandType.Writes := .inl (hq ▸ hstarted.commandType)
    have hphase : q.request.phase = .done := by rw [hq]
    have hok : q.request.code = .ok := by
      rw [hq]
      exact hcode
    by_cases hrest : q.vectorSub = []
    · rw [hvector, List.map_eq_nil_iff] at hrest
      exact ⟨hrest,fun _ => trivial⟩
    · rw [create_done_rest hwrites hok hphase hrest] at hcreate
      cases hcreate
      exact absurd rfl hagain

/-- Whatever other clients do in the meantime, an answered `MSET` has written every slot of its keys once and at once,
with the pairs of the slot in the order of the request, and nothing else. -/
theorem mset_slots_at_once {tree : Tree} {acl : Option Acl} {refusal : Option Bytes}
    (hcreate : createParent .mset (some tree) acl refusal = (.ok,r)) (hslots : r.mapSlotsKv ≠ [])
    (hbody : tree.size ≤ clientMaxBodySize) (hproto : Registers node h.proto) {store : Redis.Store}
    {es : List AmongEvent} (hcaches : ∀ e ∈ es, e.SentWith (Registered node)) {d : Delivery}
    (hrun : Machine.run (amongStep h limits conf node) (Delivery.start r store) es = some d)
    (hfinal : d.final = some .ok) :
    ∃ pairs slots turns, requestedPairs tree = some pairs ∧ SlotsOf r.namespaces (pairs.map Prod.fst) slots ∧
      turns.flatMap Parts.Turn.foreign = es.flatMap AmongEvent.foreign ∧
      (turns.flatMap Parts.Turn.done).Perm slots ∧
      Machine.run (Parts.step (writeSlot h (toString32 r.exptime) r.namespaces pairs)) ⟨store,slots,()⟩ turns =
        some ⟨d.store,[],()⟩ := by
  obtain ⟨hpairs,hpush,hfit⟩ := createParent_mset h.proto.compress hcreate hslots hbody
  obtain ⟨hstarted,hcode⟩ := started_of_createParent hcreate
  obtain ⟨turns,found,hforeign,hturns,hdone,-⟩ :=
    (msetParts h limits conf node r hstarted hcode hpush hslots hproto hfit).among_others hcaches hrun hfinal
  refine ⟨_,r.mapSlotsKv.map Prod.fst,turns,hpairs,?_,hforeign,hdone,hturns⟩
  rw [hpush, List.map_map]
  exact slotsOf_pushSlots r.namespaces r.vectorKv

/-- The rounds of two pairs, with others that empty the store in between. -/
def emptiedBetween : List AmongEvent :=
  [.own .post,.own (.send 0 noScripts (text "10.0.0.1:7000")),.own (.serve 0 noScripts fun _ => []),
    .others fun _ => none,.own .post,.own (.send 0 noScripts (text "10.0.0.1:7000")),
    .own (.serve 0 noScripts fun _ => []),.own .post]

theorem mset_slots_at_once_emptied :
    ∃ d, Machine.run (amongStep (scriptHandler literalProto) ⟨1,1⟩ (tableConf 3 3) (scriptNode plainNode.numbers))
        (Delivery.start twoPairs fun _ => none) emptiedBetween = some d ∧
      ∃ pairs slots turns, requestedPairs msetBody = some pairs ∧
        SlotsOf twoPairs.namespaces (pairs.map Prod.fst) slots ∧
        turns.flatMap Parts.Turn.foreign = emptiedBetween.flatMap AmongEvent.foreign ∧
        (turns.flatMap Parts.Turn.done).Perm slots ∧
        Machine.run (Parts.step (writeSlot (scriptHandler literalProto) (toString32 twoPairs.exptime)
          twoPairs.namespaces pairs)) ⟨fun _ => none,slots,()⟩ turns = some ⟨d.store,[],()⟩ := by
  have hrun : (Machine.run (amongStep (scriptHandler literalProto) ⟨1,1⟩ (tableConf 3 3)
      (scriptNode plainNode.numbers)) (Delivery.start twoPairs fun _ => none) emptiedBetween).map
        Delivery.final = some (some .ok) := by decide +kernel
  obtain ⟨d,hd,hfinal⟩ := Option.map_eq_some_iff.mp hrun
  have hnone : Registered (scriptNode plainNode.numbers) noScripts.scripts := by
    intro ip script hne
    exact absurd rfl hne
  refine ⟨d,hd,mset_slots_at_once twoPairs_created (by decide +kernel) (by decide +kernel) (registers_scriptNode _ _)
    ?_ hd hfinal⟩
  simp only [emptiedBetween, List.forall_mem_cons]
  exact ⟨trivial,hnone,trivial,trivial,trivial,hnone,trivial,trivial,List.forall_mem_nil _⟩

end Mset

end QkPack
