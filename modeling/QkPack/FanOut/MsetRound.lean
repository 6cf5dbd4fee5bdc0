import QkPack.FanOut.DeliveredRounds
import QkPack.FanOut.EmptyRound
import QkPack.Protocol.Canonical
import QkPack.Protocol.Scripts

/-!
# Rounds of `MSET`

Every slot is written by one script, and several rounds may be needed. Slots have no keys in common, so that
nothing depends on the order in which the scripts run.
-/

namespace QkPack
open Wire CString Resp

def storedPairs (h : Handler) (namespaces : Bytes) (kvs : List KvPair) : List (Bytes × Bytes) :=
  kvs.map fun kv => (namespaces ++ kv.key,stored h.proto.compress kv.value (h.memory (kv.slot namespaces)))

theorem stored_length_lt {lib : SnappyLib} {threshold : Int} {v : Bytes} (hne : v ≠ []) (hnul : 0 ∉ v)
    (hlen : v.length ≤ clientMaxBodySize) : (stored lib v threshold).length < 2 ^ 31 := by
  rw [clientMaxBodySize] at hlen
  have hstored := stored_length_le lib ⟨v,hne,hnul,by omega⟩ threshold
  exact hstored.trans_lt (by decide)

/-- Entries stand in the slots of their keys; they have room in the `int`s of the encoder. -/
structure PairsFit (lib : SnappyLib) (p : Request) : Prop where
  slot : ∀ {slot kvs}, p.mapSlotsKv.lookup slot = some kvs → ∀ kv ∈ kvs, kv.slot p.namespaces = slot
  key : ∀ {slot kvs}, p.mapSlotsKv.lookup slot = some kvs → ∀ kv ∈ kvs,
    (p.namespaces ++ kv.key).length < 2 ^ 31
  value : ∀ {slot kvs}, p.mapSlotsKv.lookup slot = some kvs → ∀ kv ∈ kvs,
    ∀ threshold, (stored lib kv.value threshold).length < 2 ^ 31
  few : ∀ {slot kvs}, p.mapSlotsKv.lookup slot = some kvs → kvs.length < 2 ^ 31

theorem pairsFit_of_vector {lib : SnappyLib} {p : Request} {kvs : List KvPair}
    (hslots : p.mapSlotsKv = pushSlots p.namespaces kvs [])
    (hkey : ∀ kv ∈ kvs, (p.namespaces ++ kv.key).length < 2 ^ 31)
    (hvalue : ∀ kv ∈ kvs, ∀ threshold, (stored lib kv.value threshold).length < 2 ^ 31)
    (hfew : kvs.length < 2 ^ 31) : PairsFit lib p := by
  have hentries {slot : Int} {entries : List KvPair} (h : p.mapSlotsKv.lookup slot = some entries) :
      entries = kvs.filter (·.slot p.namespaces = slot) := by
    rw [hslots] at h
    exact mem_pushSlots (mem_of_lookup h)
  constructor
  · intro slot entries h kv hkv
    rw [hentries h] at hkv
    exact of_decide_eq_true (List.mem_filter.mp hkv).2
  · intro slot entries h kv hkv
    rw [hentries h] at hkv
    exact hkey kv (List.mem_of_mem_filter hkv)
  · intro slot entries h kv hkv
    rw [hentries h] at hkv
    exact hvalue kv (List.mem_of_mem_filter hkv)
  · intro slot entries h
    rw [hentries h]
    exact (List.length_filter_le _ _).trans_lt hfew

structure MsetSent (node : Redis.Node) (h : Handler) (p : Request) (sub : SubRequest) (built : Request) : Prop where
  init : ∃ request, qkupstreamInit sub = some request ∧ built.slotId = request.slotId
  command : built.commandType = .mset
  code : built.code = .ok
  parsed : ∃ kvs sha, p.mapSlotsKv.lookup built.slotId = some kvs ∧ Knows node .addMultikv sha ∧
    kvs.length < 2 ^ 31 ∧
    parseCommand built.protoStr = some (evalsha :: sha :: decimal kvs.length ::
      ((storedPairs h p.namespaces kvs).map (·.1) ++ ((storedPairs h p.namespaces kvs).map (·.2) ++
        (storedPairs h p.namespaces kvs).map fun _ => toString32 p.exptime)),[])

theorem toString32_natCast {n : Nat} (h : n < 2 ^ 31) : toString32 n = decimal n := by
  rw [(toString32_eq_iff n).mpr ⟨by omega,by omega⟩, intText_natCast]

section Send

variable {h : Handler} {conf : UpstreamConf} {node : Redis.Node} {shared : Shared} {nodeIp : Bytes}
  {p built request : Request} {sub : SubRequest}

theorem mset_sent (hproto : Registers node h.proto) (hfit : PairsFit h.proto.compress p)
    (hcommand : subCommand p sub = .mset) (hcache : Registered node shared.scripts)
    (hsend : sendSub h conf shared nodeIp p sub = some built) : MsetSent node h p sub built := by
  obtain ⟨request,ip,hinit,hs⟩ := sendSub_sentAs hsend
  rw [hcommand] at hs
  have hbuilt := hs.encoded
  have hknows := encode_mset_knows hproto hcache hs.fresh hs.opens hbuilt
  have hsends := hs.sends (by decide)
  generalize (redisProtoEncode h.proto shared.scripts (some p) (sub.opened conf p ip h.memory request)).2 = cache
    at hknows hsends
  simp only [commandArgs, if_neg hs.not_code, hs.opens] at hsends
  obtain ⟨_,hargs,-⟩ := hsends.parsed_cut hbuilt
  cases hkvs : p.mapSlotsKv.lookup (sub.opened conf p ip h.memory request).slotId with
  | none => simp [slotArgs, hkvs] at hargs
  | some kvs =>
    simp only [slotArgs, Option.bind_eq_bind, Option.bind_some, hkvs, msetArgs, evalshaArgs] at hsends
    refine ⟨⟨request,hinit,hs.slotId⟩,hs.command,hs.code,kvs,_,?_,hknows,hfit.few hkvs,?_⟩
    · rw [hs.slotId]
      exact hkvs
    · obtain ⟨argv,hargv,hparse⟩ := hsends.parsed hbuilt (by
        rintro _ ⟨⟩ arg harg
        simp only [List.mem_cons, List.mem_append, List.mem_map] at harg
        rcases harg with rfl | rfl | ((rfl | ⟨kv,hkv,rfl⟩) | ⟨kv,hkv,rfl⟩) | ⟨kv,hkv,rfl⟩
        · decide
        · exact hknows.1.trans_lt (by decide)
        · rw [Arg.intended, ← toString32_natCast (hfit.few hkvs)]
          exact (toString32_length_le _).trans_lt (by decide)
        · exact hfit.key hkvs kv hkv
        · exact hfit.value hkvs kv hkv _
        · exact (toString32_length_le _).trans_lt (by decide))
      cases hargv
      have hvalues : kvs.map (fun kv => h.proto.storedFor (sub.opened conf p ip h.memory request) kv.value) =
          (storedPairs h p.namespaces kvs).map (·.2) := by
        rw [storedPairs, List.map_map]
        refine List.map_congr_left fun kv hkv => ?_
        rw [Function.comp_apply, hfit.slot hkvs kv hkv]
        rfl
      rw [hparse, ← hvalues]
      simp [Arg.sent, storedPairs, Function.comp_def, toString32_natCast (hfit.few hkvs)]

end Send

section Serve

variable {h : Handler} {node : Redis.Node} {shared : Shared} {stack : Nat → Bytes}
  {store store' : Redis.Store} {p p' built : Request} {sub : SubRequest}

theorem redisProtoDecode_bulk {proto : RedisProto} {scripts : ScriptCache} {parent : Option Request}
    {request : Request} {d : Decoded}
    (hdecode : redisProtoDecode proto stack scripts parent request = .ok d)
    (hbulk : request.responseBuffer.head? = some 36) (hcode : request.code = .ok) :
    d.parent = parent := by
  have hnot : ¬ request.code ≠ .ok := not_not.mpr hcode
  simp only [redisProtoDecode, if_neg hnot, hbulk] at hdecode
  obtain ⟨r,-,hd⟩ := bind_eq_ok.mp hdecode
  rw [← Except.ok.inj hd, ttlCheck_parent]

theorem exec_evalsha {sha : Bytes} {script : Redis.LuaScript} {n : Nat} {keys args : List Bytes}
    (hscript : node.scripts sha = some script) (hn : n = keys.length) :
    node.exec store (evalsha :: sha :: decimal n :: (keys ++ args)) = script keys args store := by
  have hname : evalsha ≠ text "MGET" := by decide
  have hself : evalsha = text "EVALSHA" := rfl
  rw [Redis.Node.exec, if_neg hname, if_pos hself, Redis.Node.evalsha, hscript, Redis.readNat_decimal]
  simp only [Option.bind_eq_bind, Option.bind_some, hn, List.length_append, Nat.le_add_right, if_true,
    List.take_left, List.drop_left]

theorem mset_served (hsent : MsetSent node h p sub built)
    (hserve : serveSub h node shared stack store p built = some (store',p')) :
    p' = p ∧ ∃ kvs, p.mapSlotsKv.lookup built.slotId = some kvs ∧
      Redis.setAll (toString32 p.exptime) (storedPairs h p.namespaces kvs) store = some store' := by
  obtain ⟨argv,reply,hparse,hexec,d,hdecode,-,hparent⟩ := serveSub_eq_some hserve
  obtain ⟨kvs,sha,hkvs,hknows,-,hargv⟩ := hsent.parsed
  rw [hargv, Option.some.injEq, Prod.mk.injEq] at hparse
  obtain ⟨rfl,-⟩ := hparse
  rw [exec_evalsha hknows.2 (by rw [List.length_map, storedPairs, List.length_map]), addMultiKVScript_eq,
    Option.map_eq_some_iff] at hexec
  obtain ⟨store₁,hset,hreply⟩ := hexec
  cases hreply
  refine ⟨?_,kvs,hkvs,hset⟩
  rw [← hparent, redisProtoDecode_bulk hdecode rfl hsent.code]
  rfl

end Serve

def Request.slotKeys (p : Request) (slot : Int) : List Bytes :=
  ((p.mapSlotsKv.lookup slot).getD []).map fun kv => p.namespaces ++ kv.key

def MsetDone (h : Handler) (p : Request) (sub : SubRequest) (store : Redis.Store) : Prop :=
  ∃ request kvs t t', qkupstreamInit sub = some request ∧ p.mapSlotsKv.lookup request.slotId = some kvs ∧
    Redis.setAll (toString32 p.exptime) (storedPairs h p.namespaces kvs) t = some t' ∧
    ∀ key ∈ p.slotKeys request.slotId, store key = t' key

theorem storedPairs_keys {h : Handler} {p : Request} {slot : Int} {kvs : List KvPair}
    (hkvs : p.mapSlotsKv.lookup slot = some kvs) :
    (storedPairs h p.namespaces kvs).map (·.1) = p.slotKeys slot := by
  rw [Request.slotKeys, hkvs, storedPairs, List.map_map]
  rfl

theorem slot_of_slotKeys {lib : SnappyLib} {p : Request} (hfit : PairsFit lib p) {slot : Int}
    {key : Bytes} (hkey : key ∈ p.slotKeys slot) : (keyHashSlot key : Int) = slot := by
  unfold Request.slotKeys at hkey
  cases hkvs : p.mapSlotsKv.lookup slot with
  | none =>
    rw [hkvs] at hkey
    cases hkey
  | some kvs =>
    rw [hkvs] at hkey
    obtain ⟨kv,hkv,rfl⟩ := List.mem_map.mp hkey
    exact hfit.slot hkvs kv hkv

/-- The rule for a round of `MSET` over slots of `p`. -/
def msetRule (h : Handler) (conf : UpstreamConf) (node : Redis.Node) (store₀ : Redis.Store) (p : Request)
    (subs : List SubRequest) (hproto : Registers node h.proto) (hfit : PairsFit h.proto.compress p)
    (hcommand : ∀ sub ∈ subs, subCommand p sub = .mset) : RoundRule h conf node where
  subs := subs
  Cache := Registered node
  Inv store q := q = p ∧ ∀ key, (∀ slot, key ∉ p.slotKeys slot) → store key = store₀ key
  Sent := MsetSent node h p
  Done sub store _ := MsetDone h p sub store
  send := by
    rintro sub store q shared nodeIp built hmem hcache ⟨rfl,-⟩ hsend
    exact mset_sent hproto hfit (hcommand sub hmem) hcache hsend
  serve := by
    rintro sub store q shared stack built store' q' hmem ⟨rfl,houtside⟩ hsent hserve
    obtain ⟨rfl,kvs,hkvs,hset⟩ := mset_served hsent hserve
    obtain ⟨request,hinit,hslot⟩ := hsent.init
    have hother {key : Bytes} (hkey : key ∉ q'.slotKeys built.slotId) : store' key = store key :=
      Redis.setAll_other hset (by rwa [storedPairs_keys hkvs])
    refine ⟨⟨rfl,?_⟩,⟨request,kvs,store,store',hinit,hslot ▸ hkvs,hset,fun _ _ => rfl⟩,?_⟩
    · intro key hkey
      rw [hother (hkey _), houtside key hkey]
    · rintro other ⟨request',kvs',t,t',hinit',hkvs',ht,hdone⟩
      by_cases hsame : request'.slotId = built.slotId
      · rw [hsame, hkvs] at hkvs'
        cases hkvs'
        exact ⟨request',kvs,store,store',hinit',hsame ▸ hkvs,hset,fun _ _ => rfl⟩
      · refine ⟨request',kvs',t,t',hinit',hkvs',ht,?_⟩
        intro key hkey
        rw [hother, hdone key hkey]
        intro hkey'
        exact hsame ((slot_of_slotKeys hfit hkey).symm.trans (slot_of_slotKeys hfit hkey'))

section Rounds

variable {h : Handler} {limits : Limits} {conf : UpstreamConf} {node : Redis.Node} {store₀ : Redis.Store}
  {p : Request}

/-- Some slots have been written, some are being written, and the rest is still to come. -/
structure MsetUnderWay (h : Handler) (conf : UpstreamConf) (node : Redis.Node) (store₀ : Redis.Store)
    (p : Request) (subs : List SubRequest) (d : Delivery) : Prop where
  proto : Registers node h.proto
  fit : PairsFit h.proto.compress p
  command : ∀ sub ∈ subs, subCommand p sub = .mset
  round : ∃ earlier now, ∃ hnow : ∀ sub ∈ now, subCommand p sub = .mset,
    subs = earlier ++ now ++ d.parent.vectorSub ∧
    (∀ sub ∈ earlier, MsetDone h p sub d.store) ∧
    (msetRule h conf node store₀ p now proto fit hnow).Holds d

variable {subs : List SubRequest} {d d' : Delivery}

theorem MsetUnderWay.step (hd : MsetUnderWay h conf node store₀ p subs d) {e : DeliveryEvent}
    (he : e ≠ .post) (hcache : e.SentWith (Registered node))
    (hstep : deliveryStep h limits conf node d e = some d') :
    MsetUnderWay h conf node store₀ p subs d' := by
  obtain ⟨hproto,hfit,hcommand,earlier,now,hnow,hsubs,hearlier,hholds⟩ := hd
  have hadvance := hholds.step he hcache hstep
  refine ⟨hproto,hfit,hcommand,earlier,now,hnow,?_,?_,hadvance.holds⟩
  · rw [hadvance.vectorSub]
    exact hsubs
  · intro sub hsub
    exact hadvance.done sub (hearlier sub hsub)

theorem msetUnderWay_of_waiting (hproto : Registers node h.proto) (hfit : PairsFit h.proto.compress p)
    (hcommand : ∀ sub ∈ subs, subCommand p sub = .mset) (earlier now : List SubRequest)
    (hsubs : subs = earlier ++ now ++ d.parent.vectorSub)
    (hearlier : ∀ sub ∈ earlier, MsetDone h p sub d.store) (hrequest : d.parent.request = p)
    (houtside : ∀ key, (∀ slot, key ∉ p.slotKeys slot) → d.store key = store₀ key)
    (hflights : d.flights = now.map .waiting) : MsetUnderWay h conf node store₀ p subs d := by
  have hnow : ∀ sub ∈ now, subCommand p sub = .mset := by
    intro sub hsub
    apply hcommand
    rw [hsubs]
    exact List.mem_append_left _ (List.mem_append_right _ hsub)
  exact ⟨hproto,hfit,hcommand,earlier,now,hnow,hsubs,hearlier,
    RoundRule.holds_of_waiting ⟨hrequest,houtside⟩ hflights⟩

variable (hwrites : p.commandType.Writes) (hphase : p.phase = .done)

include hwrites hphase

theorem MsetUnderWay.again (hd : MsetUnderWay h conf node store₀ p subs d)
    (hall : d.flights.all Flight.isAnswered = true) {q : Parent}
    (hcreate : createSubRequestBody h limits d.parent = (.again,q)) :
    MsetUnderWay h conf node store₀ p subs { d with parent := q, flights := q.subrequest.map .waiting } := by
  obtain ⟨hproto,hfit,hcommand,earlier,now,hnow,hsubs,hearlier,hholds⟩ := hd
  have hdone := hholds.all_done hall
  obtain ⟨hrequest,houtside⟩ := hholds.inv
  have hcode := code_of_again hcreate
  have hwrites' : d.parent.request.commandType.Writes := hrequest ▸ hwrites
  have hphase' : d.parent.request.phase = .done := hrequest ▸ hphase
  by_cases hrest : d.parent.vectorSub = []
  · rw [create_done hwrites' hcode hphase' hrest] at hcreate
    exact absurd hcreate write_ne_again
  · rw [create_done_rest hwrites' hcode hphase' hrest] at hcreate
    cases hcreate
    apply msetUnderWay_of_waiting hproto hfit hcommand (earlier ++ now)
      (d.parent.vectorSub.take limits.msetMaxCount)
    · rw [hsubs]
      simp [Parent.sent]
    · intro sub hsub
      exact (List.mem_append.mp hsub).elim (hearlier sub) (hdone sub)
    · simp only [Parent.sent, ← hphase', hrequest]
    · exact houtside
    · rfl

theorem MsetUnderWay.over (hd : MsetUnderWay h conf node store₀ p subs d)
    (hall : d.flights.all Flight.isAnswered = true) {rc : QkpackRc} {q : Parent}
    (hcreate : createSubRequestBody h limits d.parent = (rc,q)) (hagain : rc ≠ .again)
    (herror : rc ≠ .error) : (∀ sub ∈ subs, MsetDone h p sub d.store) ∧
      ∀ key, (∀ slot, key ∉ p.slotKeys slot) → d.store key = store₀ key := by
  obtain ⟨hproto,hfit,hcommand,earlier,now,hnow,hsubs,hearlier,hholds⟩ := hd
  have hdone := hholds.all_done hall
  obtain ⟨hrequest,houtside⟩ := hholds.inv
  have hwrites' : d.parent.request.commandType.Writes := hrequest ▸ hwrites
  have hphase' : d.parent.request.phase = .done := hrequest ▸ hphase
  refine ⟨?_,houtside⟩
  by_cases hcode : d.parent.request.code = .ok
  · by_cases hrest : d.parent.vectorSub = []
    · intro sub hsub
      rw [hsubs, hrest, List.append_nil] at hsub
      exact (List.mem_append.mp hsub).elim (hearlier sub) (hdone sub)
    · rw [create_done_rest hwrites' hcode hphase' hrest] at hcreate
      cases hcreate
      exact absurd rfl hagain
  · rw [create_of_code h limits hcode] at hcreate
    cases hcreate
    exact absurd rfl herror

end Rounds

section Vector

variable {h : Handler} {p : Parent} {kvs : List KvPair}

theorem mem_slotKeys (hslots : p.request.mapSlotsKv = pushSlots p.request.namespaces kvs []) {key : Bytes}
    {slot : Int} : key ∈ p.request.slotKeys slot ↔
      key ∈ (storedPairs h p.request.namespaces kvs).map (·.1) ∧ (keyHashSlot key : Int) = slot := by
  rw [Request.slotKeys, hslots, lookup_pushSlots_nil, storedPairs, List.map_map]
  simp only [List.mem_map, List.mem_filter, decide_eq_true_eq, Function.comp_apply]
  constructor
  · rintro ⟨kv,⟨hkv,hslot⟩,rfl⟩
    exact ⟨⟨kv,hkv,rfl⟩,hslot⟩
  · rintro ⟨⟨kv,hkv,rfl⟩,hslot⟩
    exact ⟨kv,⟨hkv,hslot⟩,rfl⟩

/-- Slots that have all been written, one by one, are written as if the pairs had been set one by one. -/
theorem setAll_of_done {store₀ store : Redis.Store}
    (hslots : p.request.mapSlotsKv = pushSlots p.request.namespaces kvs [])
    (hdone : ∀ sub ∈ p.slotSubs .mset, MsetDone h p.request sub store)
    (houtside : ∀ key, (∀ slot, key ∉ p.request.slotKeys slot) → store key = store₀ key) :
    Redis.setAll (toString32 p.request.exptime) (storedPairs h p.request.namespaces kvs) store₀ =
      some store := by
  apply Redis.setAll_of_classes fun key => (keyHashSlot key : Int)
  · intro pair hpair
    obtain ⟨kv,hkv,rfl⟩ := List.mem_map.mp hpair
    have hslot : kv.slot p.request.namespaces ∈ p.request.mapSlotsKv.map (·.1) := by
      rw [hslots, mem_keys_pushSlots]
      exact .inr ⟨kv,hkv,rfl⟩
    obtain ⟨hsub,request,hinit,hid⟩ := slot_of_sub .mset hslots hslot
    obtain ⟨request',entries,t,t',hinit',hentries,ht,hstore⟩ := hdone _ hsub
    cases hinit.symm.trans hinit'
    rw [hid] at hentries hstore
    have hfilter : entries = kvs.filter (·.slot p.request.namespaces = kv.slot p.request.namespaces) := by
      have hlookup := lookup_pushSlots_nil p.request.namespaces kvs (kv.slot p.request.namespaces)
      rw [← hslots, hentries] at hlookup
      exact hlookup
    refine ⟨t,t',?_,?_⟩
    · rw [storedPairs, List.filter_map]
      rw [hfilter] at ht
      exact ht
    · intro key hclass hkey
      exact hstore key ((mem_slotKeys hslots).mpr ⟨hkey,hclass⟩)
  · intro key hkey
    apply houtside
    intro slot hslot
    exact hkey ((mem_slotKeys hslots).mp hslot).1

end Vector

end QkPack
