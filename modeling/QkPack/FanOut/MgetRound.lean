import QkPack.FanOut.DeliveredRounds
import QkPack.Parser.ReadSpecs
import QkPack.Protocol.CommandArgs
import QkPack.Protocol.SlotValues

/-!
# A round of `MGET`

One sub-request for every slot. Whatever the order in which they are served, every entry ends up with what
the store has under its key.
-/

namespace QkPack
open Wire CString Resp

theorem lookup_map_snd {α β γ : Type} [BEq α] (f : β → γ) (l : List (α × β)) (k : α) :
    (l.map fun x => (x.1,f x.2)).lookup k = (l.lookup k).map f := by
  induction l with
  | nil => rfl
  | cons x l ih =>
    obtain ⟨a,b⟩ := x
    rw [List.map_cons, List.lookup_cons, List.lookup_cons, ih]
    cases k == a <;> rfl

theorem lookup_slotPlan (p : Request) (slot : Int) :
    p.slotPlan.lookup slot = (p.mapSlotsKv.lookup slot).map (List.map KvPair.key) :=
  lookup_map_snd (List.map KvPair.key) p.mapSlotsKv slot

/-- Keys and numbers of keys that have room in the `int`s of the encoder and the decoder. -/
structure SlotsFit (p : Request) : Prop where
  short : ∀ slot ∈ p.slotPlan, ∀ key ∈ slot.2, (p.namespaces ++ key).length < 2 ^ 31
  few : ∀ slot ∈ p.slotPlan, slot.2.length < 2 ^ 31

theorem slotsFit_of_vector {p : Request} {kvs : List KvPair}
    (hslots : p.mapSlotsKv = pushSlots p.namespaces kvs [])
    (hshort : ∀ kv ∈ kvs, (p.namespaces ++ kv.key).length < 2 ^ 31)
    (hfew : kvs.length < 2 ^ 31) : SlotsFit p := by
  have hentries : ∀ slot ∈ p.slotPlan, slot.2 = (kvs.filter (·.slot p.namespaces = slot.1)).map
      KvPair.key := by
    intro slot hslot
    obtain ⟨⟨number,entries⟩,hmem,rfl⟩ := List.mem_map.mp hslot
    rw [hslots] at hmem
    rw [mem_pushSlots hmem]
  constructor
  · intro slot hslot key hkey
    rw [hentries slot hslot] at hkey
    obtain ⟨kv,hkv,rfl⟩ := List.mem_map.mp hkey
    exact hshort kv (List.mem_of_mem_filter hkv)
  · intro slot hslot
    rw [hentries slot hslot, List.length_map]
    exact (List.length_filter_le _ _).trans_lt hfew

/-- Only values of entries have changed. -/
structure OnlyValues (p₀ p : Request) : Prop where
  rest : p = { p₀ with mapSlotsKv := p.mapSlotsKv }
  marks : p.slotMarks = p₀.slotMarks

theorem OnlyValues.plan {p₀ p : Request} (h : OnlyValues p₀ p) : p.slotPlan = p₀.slotPlan :=
  slotPlan_of_slotMarks h.marks

theorem OnlyValues.namespaces {p₀ p : Request} (h : OnlyValues p₀ p) : p.namespaces = p₀.namespaces := by
  rw [h.rest]

theorem OnlyValues.commandType {p₀ p : Request} (h : OnlyValues p₀ p) :
    p.commandType = p₀.commandType := by
  rw [h.rest]

theorem OnlyValues.refl (p : Request) : OnlyValues p p := ⟨rfl,rfl⟩

theorem OnlyValues.written {p₀ p p' : Request} (h : OnlyValues p₀ p) {slotId : Int} {kvs : List KvPair}
    (hw : SlotWritten slotId kvs p p') : OnlyValues p₀ p' where
  rest := by
    rw [hw.rest, h.rest]
  marks := hw.marks.trans h.marks

structure MgetSent (p₀ : Request) (sub : SubRequest) (built : Request) : Prop where
  init : ∃ request, qkupstreamInit sub = some request ∧ built.slotId = request.slotId
  command : built.commandType = .mget
  code : built.code = .ok
  parsed : ∃ keys, p₀.slotPlan.lookup built.slotId = some keys ∧
    parseCommand built.protoStr = some (text "MGET" :: keys.map (p₀.namespaces ++ ·),[])

/-- The entries of the slot of a sub-request have what the store has. -/
def MgetDone (lib : SnappyLib) (store : Redis.Store) (p₀ : Request) (sub : SubRequest) (p : Request) :
    Prop :=
  ∃ request, qkupstreamInit sub = some request ∧ ∀ kvs, p.mapSlotsKv.lookup request.slotId = some kvs →
    ∀ kv ∈ kvs, Reads lib (Redis.mgetElem store (p₀.namespaces ++ kv.key)) kv.value

section Send

variable {h : Handler} {conf : UpstreamConf} {shared : Shared} {nodeIp : Bytes} {p₀ p built : Request}
  {sub : SubRequest}

theorem subCommand_of_onlyValues (hp : OnlyValues p₀ p) : subCommand p sub = subCommand p₀ sub := by
  rw [subCommand, subCommand, hp.commandType]

theorem mget_sent (hfit : SlotsFit p₀) (hcommand : subCommand p₀ sub = .mget) (hp : OnlyValues p₀ p)
    (hsend : sendSub h conf shared nodeIp p sub = some built) : MgetSent p₀ sub built := by
  obtain ⟨request,ip,hinit,hs⟩ := sendSub_sentAs hsend
  rw [subCommand_of_onlyValues hp, hcommand] at hs
  have hsends := hs.sends (by decide)
  simp only [commandArgs, if_neg hs.not_code, hs.opens] at hsends
  have hkvs : ∃ kvs, p.mapSlotsKv.lookup (sub.opened conf p ip h.memory request).slotId = some kvs := by
    obtain ⟨argv,hargs,-⟩ := hsends.parsed_cut hs.encoded
    cases hlookup : p.mapSlotsKv.lookup (sub.opened conf p ip h.memory request).slotId with
    | none => simp [slotArgs, hlookup] at hargs
    | some kvs => exact ⟨kvs,rfl⟩
  obtain ⟨kvs,hkvs⟩ := hkvs
  have hplan : p₀.slotPlan.lookup (sub.opened conf p ip h.memory request).slotId = some (kvs.map KvPair.key) := by
    rw [← hp.plan, lookup_slotPlan, hkvs]
    rfl
  simp only [slotArgs, Option.bind_eq_bind, Option.bind_some, hkvs, hp.namespaces] at hsends
  refine ⟨⟨request,hinit,hs.slotId⟩,hs.command,hs.code,kvs.map KvPair.key,?_,?_⟩
  · rw [hs.slotId]
    exact hplan
  · have hshort := hfit.short _ (mem_of_lookup hplan)
    obtain ⟨argv,hargs,hparse⟩ := hsends.parsed hs.encoded (by
      rintro _ ⟨⟩ arg harg
      rw [List.mem_cons] at harg
      rcases harg with rfl | hkey
      · decide
      · obtain ⟨kv,hkv,rfl⟩ := List.mem_map.mp hkey
        exact hshort _ (List.mem_map_of_mem hkv))
    cases hargs
    rw [hparse]
    simp [Arg.sent, Function.comp_def]

end Send

section Serve

variable {h : Handler} {node : Redis.Node} {shared : Shared} {stack : Nat → Bytes}
  {store store' : Redis.Store} {p₀ p p' built : Request} {sub : SubRequest}

theorem exec_mget (keys : List Bytes) : node.exec store (text "MGET" :: keys) =
    some (store,.array (keys.map (Redis.mgetElem store))) := by
  rw [Redis.Node.exec, if_pos rfl]

theorem mget_served (hfit : SlotsFit p₀) (hp : OnlyValues p₀ p) (hsent : MgetSent p₀ sub built)
    (hserve : serveSub h node shared stack store p built = some (store',p')) :
    store' = store ∧ ∃ kvs, SlotWritten built.slotId kvs p p' ∧
      ∀ kv ∈ kvs, Reads h.proto.compress (Redis.mgetElem store (p₀.namespaces ++ kv.key)) kv.value := by
  obtain ⟨argv,reply,hparse,hexec,d,hdecode,hrc,hparent⟩ := serveSub_eq_some hserve
  obtain ⟨keys,hkeys,hargv⟩ := hsent.parsed
  rw [hargv, Option.some.injEq, Prod.mk.injEq] at hparse
  obtain ⟨rfl,-⟩ := hparse
  rw [exec_mget, Option.some.injEq, Prod.mk.injEq] at hexec
  obtain ⟨rfl,rfl⟩ := hexec
  refine ⟨rfl,?_⟩
  have hfew : ((keys.map (p₀.namespaces ++ ·)).map (Redis.mgetElem store)).length < 2 ^ 31 := by
    rw [List.length_map, List.length_map]
    exact hfit.few _ (mem_of_lookup hkeys)
  have hcommand : built.commandType ≠ .ttl := by
    rw [hsent.command]
    decide
  have hreply := redisProtoDecode_encArray h.proto stack
    ((keys.map (p₀.namespaces ++ ·)).map (Redis.mgetElem store)) shared.scripts (some p)
    { built with
      responseBuffer := encode (.array ((keys.map (p₀.namespaces ++ ·)).map (Redis.mgetElem store)))
      movedAsk := .ok } hsent.code hcommand rfl
  rw [arraySize_of_lt hfew, if_neg (by omega), Int.toNat_natCast, List.take_length] at hreply
  have hplan : p.slotPlan.lookup built.slotId = some keys := by
    rw [hp.plan]
    exact hkeys
  rw [lookup_slotPlan, Option.map_eq_some_iff] at hplan
  obtain ⟨kvs,hkvs,rfl⟩ := hplan
  generalize htake : takeElems h.proto stack 0 _ _ = taken at hreply
  cases taken with
  | error fault =>
    rw [hdecode] at hreply
    cases hreply
  | ok s =>
    obtain ⟨parent',kvs',hs,hwritten,hsame,-,hvalues⟩ := takeElems_slot hsent.command rfl hkvs
      (by simp) htake
    have hd : d.parent = some parent' := by
      rw [Except.ok.inj (hdecode.symm.trans hreply), ttlCheck_parent]
      exact hs
    rw [hd, Option.getD_some] at hparent
    subst hparent
    refine ⟨kvs',hwritten,?_⟩
    rw [List.drop_zero, ← hsame, List.map_map, List.map_map, List.forall₂_map_left_iff,
      List.forall₂_map_right_iff, List.forall₂_same] at hvalues
    exact hvalues

theorem mget_serves (h : Handler) (shared : Shared) (stack : Nat → Bytes) (t : Int) (hfit : SlotsFit p₀)
    (hp : OnlyValues p₀ p) (hsent : MgetSent p₀ sub built)
    (hvalues : ∀ keys, p₀.slotPlan.lookup built.slotId = some keys → ∀ key ∈ keys, ∃ v : Value,
      v.bytes ≠ snappyWord ∧ Redis.mgetElem store (p₀.namespaces ++ key) = some (storedBulk h.proto t v)) :
    ∃ p', serveSub h node shared stack store p built = some (store,p') := by
  obtain ⟨keys,hkeys,hparse⟩ := hsent.parsed
  obtain ⟨vs,hvs,harray⟩ := exists_storedArray h.proto t (hvalues keys hkeys)
  have hexec : node.exec store (text "MGET" :: keys.map (p₀.namespaces ++ ·)) =
      some (store,.array ((vs.map (storedBulk h.proto t)).map some)) := by
    rw [exec_mget, List.map_map, List.map_map]
    exact congrArg (fun es => some (store,Reply.array es)) harray
  have hlength : vs.length = keys.length := by
    have hsame := congrArg List.length harray
    rw [storedArray, List.length_map, List.length_map] at hsame
    exact hsame.symm
  have hfew : ((vs.map (storedBulk h.proto t)).map some).length < 2 ^ 31 := by
    rw [List.length_map, List.length_map, hlength]
    exact hfit.few _ (mem_of_lookup hkeys)
  have hplan : p.slotPlan.lookup built.slotId = some keys := by
    rw [hp.plan]
    exact hkeys
  rw [lookup_slotPlan, Option.map_eq_some_iff] at hplan
  obtain ⟨kvs,hkvs,rfl⟩ := hplan
  generalize hreplied : ({ built with
    responseBuffer := encode (.array ((vs.map (storedBulk h.proto t)).map some))
    movedAsk := .ok } : Request) = replied
  have hmget : replied.commandType = .mget := by
    rw [← hreplied]
    exact hsent.command
  have hcode : replied.code = .ok := by
    rw [← hreplied]
    exact hsent.code
  have hslot : replied.slotId = built.slotId := by rw [← hreplied]
  have hbuffer : replied.responseBuffer = encArray ((vs.map (storedBulk h.proto t)).map some) := by
    rw [← hreplied]
    rfl
  have hstored : (vs.map (storedBulk h.proto t)).map some = storedArray h.proto t vs := by
    rw [List.map_map]
    rfl
  obtain ⟨p',_,htake,-⟩ := takeElems_mget h.proto t stack hvs (i := 0) (s := ⟨replied,some p,[]⟩) hmget rfl
    (hslot ▸ hkvs) (by rw [hlength, List.length_map, Nat.zero_add])
  have httl : replied.commandType ≠ .ttl := by
    rw [hmget]
    decide
  have hdecode := redisProtoDecode_encArray h.proto stack _ shared.scripts (some p) replied hcode httl hbuffer
  rw [arraySize_of_lt hfew, if_neg (by omega), Int.toNat_natCast, List.take_length, hstored, htake] at hdecode
  have hdone : redisProtoDecode h.proto stack shared.scripts (some p) replied =
      .ok ⟨.ok,replied,some p',shared.scripts⟩ := by
    rw [hdecode]
    change Except.ok (ttlCheck ⟨.ok,replied,some p',shared.scripts⟩) = _
    rw [ttlCheck, if_neg fun hc => httl hc.1, if_neg fun hc => httl hc.1]
  subst hreplied
  exact ⟨p',serveSub_array hsent.code (.inl hsent.command) hparse hexec hdone⟩

end Serve

/-- The rule for a round of `MGET` over the slots of `p₀`. -/
def mgetRule (h : Handler) (conf : UpstreamConf) (node : Redis.Node) (store : Redis.Store) (p₀ : Request)
    (subs : List SubRequest) (hfit : SlotsFit p₀) (hcommand : ∀ sub ∈ subs, subCommand p₀ sub = .mget) :
    RoundRule h conf node where
  subs := subs
  Cache _ := True
  Inv store' p := store' = store ∧ OnlyValues p₀ p
  Sent := MgetSent p₀
  Done sub _ p := MgetDone h.proto.compress store p₀ sub p
  send hmem _ hinv hsend := mget_sent hfit (hcommand _ hmem) hinv.2 hsend
  serve := by
    rintro sub store₁ p shared stack built store₂ p' hmem ⟨rfl,hp⟩ hsent hserve
    obtain ⟨rfl,kvs,hwritten,hreads⟩ := mget_served hfit hp hsent hserve
    obtain ⟨request,hinit,hslot⟩ := hsent.init
    refine ⟨⟨rfl,hp.written hwritten⟩,⟨request,hinit,?_⟩,?_⟩
    · intro kvs' hkvs'
      rw [← hslot, hwritten.here] at hkvs'
      cases hkvs'
      exact hreads
    · rintro other ⟨request',hinit',hdone⟩
      refine ⟨request',hinit',?_⟩
      intro kvs' hkvs'
      by_cases hsame : request'.slotId = built.slotId
      · rw [hsame, hwritten.here] at hkvs'
        cases hkvs'
        exact hreads
      · rw [hwritten.others _ hsame] at hkvs'
        exact hdone kvs' hkvs'

section Seen

variable {namespaces : Bytes}

theorem seenKvs_cons (kv : KvPair) (kvs : List KvPair) (slots : List (Int × List KvPair)) :
    seenKvs namespaces (kv :: kvs) slots =
      (((slots.lookup (kv.slot namespaces)).bind List.head?).getD kv ::
        (seenKvs namespaces kvs (slots.map fun s =>
          if s.1 = kv.slot namespaces then (s.1,s.2.tail) else s)).1,
      (seenKvs namespaces kvs (slots.map fun s =>
          if s.1 = kv.slot namespaces then (s.1,s.2.tail) else s)).2) := rfl

theorem lookup_tail (slots : List (Int × List KvPair)) (slot other : Int) :
    ((slots.map fun s => if s.1 = slot then (s.1,s.2.tail) else s).lookup other).getD [] =
      if other = slot then ((slots.lookup other).getD []).tail else (slots.lookup other).getD [] := by
  by_cases hother : other = slot
  · subst hother
    rw [if_pos rfl, lookup_map_update slots other List.tail]
    cases slots.lookup other <;> rfl
  · rw [if_neg hother, lookup_map_other slots List.tail hother]

/-- The slots have the entries in their order, up to what `f` does not see. -/
structure SlotsHave {α : Type} (namespaces : Bytes) (f : KvPair → α) (P : KvPair → Prop) (kvs : List KvPair)
    (slots : List (Int × List KvPair)) : Prop where
  same : ∀ slot, ((slots.lookup slot).getD []).map f = (kvs.filter (·.slot namespaces = slot)).map f
  all : ∀ slot, ∀ kv ∈ (slots.lookup slot).getD [], P kv

variable {α : Type} {f : KvPair → α} {P : KvPair → Prop} {kvs more : List KvPair} {slots : List (Int × List KvPair)}

theorem SlotsHave.head {kv : KvPair} (h : SlotsHave namespaces f P (kv :: kvs) slots) :
    ∃ seen, ((slots.lookup (kv.slot namespaces)).bind List.head?).getD kv = seen ∧ f seen = f kv ∧ P seen ∧
      SlotsHave namespaces f P kvs (slots.map fun s => if s.1 = kv.slot namespaces then (s.1,s.2.tail) else s) := by
  have hfirst := h.same (kv.slot namespaces)
  rw [List.filter_cons_of_pos (by simp), List.map_cons] at hfirst
  obtain ⟨seen,rest,hslot,hkey,hrest⟩ := List.map_eq_cons_iff.mp hfirst
  refine ⟨seen,?_,hkey,h.all (kv.slot namespaces) seen (by rw [hslot]; exact List.mem_cons_self),?_,?_⟩
  · cases hlookup : slots.lookup (kv.slot namespaces) with
    | none =>
      rw [hlookup] at hslot
      cases hslot
    | some entries =>
      rw [hlookup, Option.getD_some] at hslot
      rw [hslot]
      rfl
  · intro slot
    rw [lookup_tail]
    by_cases hs : slot = kv.slot namespaces
    · subst hs
      rw [if_pos rfl, hslot, List.tail_cons, hrest]
    · rw [if_neg hs, h.same slot, List.filter_cons_of_neg]
      simpa using Ne.symm hs
  · intro slot kv' hkv'
    rw [lookup_tail] at hkv'
    split at hkv'
    · exact h.all slot kv' (List.mem_of_mem_tail hkv')
    · exact h.all slot kv' hkv'

/-- Every entry is seen once, and the slots keep the later ones. -/
theorem SlotsHave.seenKvs (h : SlotsHave namespaces f P (kvs ++ more) slots) :
    (seenKvs namespaces kvs slots).1.map f = kvs.map f ∧ (∀ kv ∈ (seenKvs namespaces kvs slots).1, P kv) ∧
      SlotsHave namespaces f P more (seenKvs namespaces kvs slots).2 := by
  induction kvs generalizing slots with
  | nil => exact ⟨rfl,List.forall_mem_nil _,h⟩
  | cons kv kvs ih =>
    obtain ⟨seen,hseen,hkey,hP,hrest⟩ := h.head
    obtain ⟨hkeys,hall,hmore⟩ := ih hrest
    rw [seenKvs_cons, hseen, List.map_cons, List.map_cons, hkeys, hkey, List.forall_mem_cons]
    exact ⟨rfl,⟨hP,hall⟩,hmore⟩

end Seen

theorem slotsHave_of_done {lib : SnappyLib} {store : Redis.Store} {kvs : List KvPair} {p : Request} (p₀ : Parent)
    (hslots : p₀.request.mapSlotsKv = pushSlots p₀.request.namespaces kvs []) (hp : OnlyValues p₀.request p)
    (hdone : ∀ sub ∈ p₀.slotSubs .mget, MgetDone lib store p₀.request sub p) :
    SlotsHave p₀.request.namespaces KvPair.mark
      (fun kv => Reads lib (Redis.mgetElem store (p₀.request.namespaces ++ kv.key)) kv.value) kvs p.mapSlotsKv := by
  have hmarks (slot : Int) : (p.mapSlotsKv.lookup slot).map (List.map KvPair.mark) =
      (p₀.request.mapSlotsKv.lookup slot).map (List.map KvPair.mark) := by
    rw [← lookup_map_snd, ← lookup_map_snd]
    exact congrArg (List.lookup slot) hp.marks
  constructor
  · intro slot
    have hpush := lookup_pushSlots_nil p₀.request.namespaces kvs slot
    rw [← hslots] at hpush
    rw [← hpush]
    calc ((p.mapSlotsKv.lookup slot).getD []).map KvPair.mark
        = ((p.mapSlotsKv.lookup slot).map (List.map KvPair.mark)).getD [] := (Option.getD_map _ [] _).symm
      _ = ((p₀.request.mapSlotsKv.lookup slot).map (List.map KvPair.mark)).getD [] := by rw [hmarks]
      _ = ((p₀.request.mapSlotsKv.lookup slot).getD []).map KvPair.mark := Option.getD_map _ [] _
  · intro slot
    cases hlookup : p.mapSlotsKv.lookup slot with
    | none => exact List.forall_mem_nil _
    | some entries =>
      have hfound := hmarks slot
      rw [hlookup, Option.map_some, eq_comm, Option.map_eq_some_iff] at hfound
      obtain ⟨before,hbefore,-⟩ := hfound
      obtain ⟨hsub,request,hinit,hslot⟩ := slot_of_sub .mget hslots
        (List.mem_map_of_mem (f := (·.1)) (mem_of_lookup hbefore))
      obtain ⟨request',hinit',hreads⟩ := hdone _ hsub
      cases hinit.symm.trans hinit'
      rw [hslot] at hreads
      exact hreads entries hlookup

end QkPack
