import QkPack.Protocol.Canonical
import QkPack.Snappys.Literal

/-!
# Stored values and their way back

What the encoders of `SET`, `MSET` and `SADD` put on the wire for a value, and what the decoders make
of it when Redis returns it in a bulk string or in an array.
-/

namespace QkPack
open Wire CString Resp

section Wire

theorem build_split {request built : Request} {argc : Nat} {xs ys zs : List Bytes}
    (hys : ∀ arg ∈ ys, arg.length < 2 ^ 31) (h : request.build argc (xs ++ ys ++ zs) = .ok built)
    (hargc : argc = (xs ++ ys ++ zs).length) :
    ∃ front back : Bytes, built.protoStr = front ++ ys.flatMap encBulk ++ back ∧
      (zs = [] → back = []) := by
  rw [Request.build, redisProtoCmd, hargc, if_neg (by omega), List.take_length, List.mapM_append,
    List.mapM_append, mapM_cmdArg_short hys] at h
  cases hx : xs.mapM cmdArg with
  | error fault =>
    rw [hx] at h
    cases h
  | ok front =>
    cases hz : zs.mapM cmdArg with
    | error fault =>
      rw [hx, hz] at h
      cases h
    | ok back =>
      rw [hx, hz] at h
      cases h
      refine ⟨arrayHeader (xs ++ ys ++ zs).length ++ front.flatten,back.flatten,?_,?_⟩
      · simp [List.flatMap_def]
      · rintro rfl
        cases hz
        rfl

theorem withScript_ok {proto : RedisProto} {nodeIp : Bytes} {script : Script} {scripts : ScriptCache}
    {build : Bytes → Except EncodeFault Request} {built : Request}
    (h : (withScript proto nodeIp script scripts build).1 = .ok built) :
    ∃ sha, build sha = .ok built := by
  unfold withScript at h
  split at h
  · simp only at h
    split at h
    · cases h
    · exact ⟨_,h⟩
  · cases h

end Wire

@[simp] theorem ok_bind {ε α β : Type} (a : α) (f : α → Except ε β) :
    (Except.ok a >>= f : Except ε β) = f a := rfl

section Back

variable (proto : RedisProto) (t : Int)

def storedBulk (v : Value) : Bulk := ⟨stored proto.compress v.bytes t,stored_length_le _ v t⟩

theorem storedBulk_length (v : Value) : (storedBulk proto t v).bytes.length < 2 ^ 31 := by
  have := (storedBulk proto t v).size_le
  omega

theorem uncompressed_stored (stack : Bytes) {v : Value} (h : v.bytes ≠ snappyWord) :
    uncompressed proto.compress stack (storedBulk proto t v).bytes = .ok v.bytes := by
  rw [uncompressed, storedBulk, readValue_stored _ _ _ _ h]

def storedArray (vs : List Value) : List Elem := vs.map fun v => some (storedBulk proto t v)

theorem exists_storedArray {α : Type} {e : α → Elem} {as : List α}
    (h : ∀ a ∈ as, ∃ v : Value, v.bytes ≠ snappyWord ∧ e a = some (storedBulk proto t v)) :
    ∃ vs : List Value, (∀ v ∈ vs, v.bytes ≠ snappyWord) ∧ as.map e = storedArray proto t vs := by
  induction as with
  | nil => exact ⟨[],List.forall_mem_nil _,rfl⟩
  | cons a as ih =>
    obtain ⟨⟨v,hword,hv⟩,hrest⟩ := List.forall_mem_cons.mp h
    obtain ⟨vs,hvs,harray⟩ := ih hrest
    refine ⟨v :: vs,List.forall_mem_cons.mpr ⟨hword,hvs⟩,?_⟩
    rw [List.map_cons, hv, harray]
    rfl

theorem lookup_map_update {α β : Type} [DecidableEq α] (l : List (α × β)) (k : α) (f : β → β) :
    (l.map fun x => if x.1 = k then (x.1,f x.2) else x).lookup k = (l.lookup k).map f := by
  induction l with
  | nil => rfl
  | cons x l ih =>
    obtain ⟨a,b⟩ := x
    by_cases ha : a = k
    · simp [ha]
    · have hne : (k == a) = false := beq_eq_false_iff_ne.mpr (Ne.symm ha)
      simp only [List.map_cons, if_neg ha, List.lookup_cons, hne, ih]

variable {stack : Nat → Bytes}

theorem takeElems_smembers {vs : List Value} (hvs : ∀ v ∈ vs, v.bytes ≠ snappyWord) (i : Nat)
    {s : ArrayState} (hs : s.request.commandType = .smembers) :
    takeElems proto stack i (storedArray proto t vs) s =
      .ok ((vs.map (·.bytes)).foldl ArrayState.pushMember s) := by
  induction vs generalizing i s with
  | nil => rfl
  | cons v vs ih =>
    have hstep : getArrayValue proto stack i (.ok (storedBulk proto t v).bytes) s =
        .ok (s.pushMember v.bytes) := by
      simp only [getArrayValue, hs, ok_bind, uncompressed_stored proto t _ (hvs v List.mem_cons_self)]
      rfl
    have hrest := ih (fun u hu => hvs u (List.mem_cons_of_mem _ hu)) (i + 1)
      (show (s.pushMember v.bytes).request.commandType = .smembers from hs)
    simp only [storedArray, List.map_cons, takeElems, hstep, ok_bind] at hrest ⊢
    rw [hrest]
    rfl

theorem foldl_pushMember (members : List Bytes) (s : ArrayState) :
    members.foldl ArrayState.pushMember s =
      { s with request := { s.request with vectorMbs := s.request.vectorMbs ++ members } } := by
  induction members generalizing s with
  | nil => simp
  | cons member members ih => simp [ih, ArrayState.pushMember]

def KvPair.mark (kv : KvPair) : Bytes × Double := (kv.key,kv.score)

section Slots

variable (kvs : List KvPair) (i : Nat) (value : Bytes)

theorem map_mark_modify :
    (kvs.modify i fun kv => { kv with value := value }).map KvPair.mark = kvs.map KvPair.mark := by
  induction kvs generalizing i with
  | nil => cases i <;> rfl
  | cons kv kvs ih =>
    cases i with
    | zero => rfl
    | succ i => simp [ih i]

theorem map_key_modify :
    (kvs.modify i fun kv => { kv with value := value }).map (·.key) = kvs.map (·.key) := by
  have hmarks := congrArg (List.map Prod.fst) (map_mark_modify kvs i value)
  rw [List.map_map, List.map_map] at hmarks
  exact hmarks

theorem map_value_modify :
    (kvs.modify i fun kv => { kv with value := value }).map (·.value) =
      (kvs.map (·.value)).set i value := by
  induction kvs generalizing i with
  | nil => cases i <;> rfl
  | cons kv kvs ih =>
    cases i with
    | zero => rfl
    | succ i => simp [ih i]

theorem setSlotValue_ok {parent : Request} {slotId : Int}
    (hkvs : parent.mapSlotsKv.lookup slotId = some kvs) (hi : i < kvs.length) :
    ∃ parent', parent.setSlotValue slotId i value = .ok parent' ∧
      parent'.mapSlotsKv.lookup slotId = some (kvs.modify i fun kv => { kv with value := value }) := by
  rw [Request.setSlotValue, hkvs]
  simp only [if_pos hi]
  refine ⟨_,rfl,(lookup_map_update parent.mapSlotsKv slotId _).trans ?_⟩
  rw [hkvs]
  rfl

end Slots

variable (stack) in
theorem takeElems_mget {vs : List Value} (hvs : ∀ v ∈ vs, v.bytes ≠ snappyWord) {i : Nat}
    {s : ArrayState} {parent : Request} {kvs : List KvPair} (hs : s.request.commandType = .mget)
    (hparent : s.parent = some parent)
    (hkvs : parent.mapSlotsKv.lookup s.request.slotId = some kvs) (hlen : kvs.length = i + vs.length) :
    ∃ parent' kvs', takeElems proto stack i (storedArray proto t vs) s =
        .ok { s with parent := some parent' } ∧
      parent'.mapSlotsKv.lookup s.request.slotId = some kvs' ∧
      kvs'.map (·.key) = kvs.map (·.key) ∧
      kvs'.map (·.value) = (kvs.map (·.value)).take i ++ vs.map (·.bytes) := by
  induction vs generalizing i s parent kvs with
  | nil =>
    refine ⟨parent,kvs,?_,hkvs,rfl,?_⟩
    · rw [← hparent]
      rfl
    · rw [List.map_nil, List.append_nil, List.take_of_length_le]
      rw [List.length_map, hlen]
      simp
  | cons v vs ih =>
    rw [List.length_cons] at hlen
    have hi : i < kvs.length := by omega
    obtain ⟨parent₁,hset,hkvs₁⟩ := setSlotValue_ok kvs i v.bytes hkvs hi
    have hstep : getArrayValue proto stack i (.ok (storedBulk proto t v).bytes) s =
        .ok { s with parent := some parent₁ } := by
      simp only [getArrayValue, hs, ok_bind,
        uncompressed_stored proto t _ (hvs v List.mem_cons_self), ArrayState.putSlot, hparent, hset]
      rfl
    obtain ⟨parent₂,kvs₂,hrest,hkvs₂,hkeys,hvalues⟩ :=
      ih (fun u hu => hvs u (List.mem_cons_of_mem _ hu)) (s := { s with parent := some parent₁ }) hs rfl
        hkvs₁ (show _ = i + 1 + _ by rw [List.length_modify]; omega)
    refine ⟨parent₂,kvs₂,?_,hkvs₂,?_,?_⟩
    · simp only [storedArray, List.map_cons, takeElems, hstep, ok_bind] at hrest ⊢
      exact hrest
    · rw [hkeys, map_key_modify]
    · rw [hvalues, map_value_modify, List.take_add_one, List.take_set_of_le (le_refl i),
        List.getElem?_set_self (by rw [List.length_map]; exact hi)]
      simp

end Back

/-- The values `vs` survive storing with the threshold `t`: `UncompressValue` undoes what
`CompressValue` did, and what `SET`, `MSET` and `SADD` put on the wire for them is decoded back to
them, from a bulk string and from the arrays that `MGET` and `SMEMBERS` answer with. -/
structure ReadsBack (proto : RedisProto) (t : Int) (vs : List Value) : Prop where
  uncompress : ∀ v ∈ vs, ∀ stack,
    uncompressValue proto.compress stack (stored proto.compress v.bytes t) = .ok (some v.bytes) ∨
      uncompressValue proto.compress stack (stored proto.compress v.bytes t) = .ok none ∧
        stored proto.compress v.bytes t = v.bytes
  set : ∀ v ∈ vs, ∀ request built : Request, request.value = v.bytes →
    request.compressThreshold = t → redisProtoEncodeParamThree proto request = .ok built →
    ∃ front, built.protoStr = front ++ encBulk (storedBulk proto t v).bytes
  mset : ∀ (scripts : ScriptCache) (parent request built : Request) (kvs : List KvPair),
    parent.mapSlotsKv.lookup request.slotId = some kvs → kvs.map (·.value) = vs.map (·.bytes) →
    request.compressThreshold = t → (redisProtoEncodeMset proto scripts parent request).1 = .ok built →
    ∃ front back, built.protoStr =
      front ++ vs.flatMap (fun v => encBulk (storedBulk proto t v).bytes) ++ back
  sadd : ∀ (scripts : ScriptCache) (request built : Request),
    request.vectorMbs = vs.map (·.bytes) → request.compressThreshold = t →
    (redisProtoEncodeSadd proto scripts request).1 = .ok built →
    ∃ front, built.protoStr = front ++ vs.flatMap fun v => encBulk (storedBulk proto t v).bytes
  getString : ∀ v ∈ vs, ∀ stack request,
    redisProtoDecodeGetString proto stack (encBulk (storedBulk proto t v).bytes) 1 request =
      .ok { request with value := v.bytes }
  mget : ∀ us : List Value, (∀ u ∈ us, u ∈ vs) → us.length < 2 ^ 31 →
    ∀ (stack : Nat → Bytes) (request parent : Request) (kvs : List KvPair),
    request.commandType = .mget → parent.mapSlotsKv.lookup request.slotId = some kvs →
    kvs.length = us.length →
    ∃ parent' kvs', redisProtoDecodeGetArray proto stack (encArray (storedArray proto t us)) 1
        (some parent) request = .ok (.ok,⟨request,some parent',[]⟩) ∧
      parent'.mapSlotsKv.lookup request.slotId = some kvs' ∧
      kvs'.map (·.key) = kvs.map (·.key) ∧ kvs'.map (·.value) = us.map (·.bytes)
  smembers : ∀ us : List Value, (∀ u ∈ us, u ∈ vs) → us.length < 2 ^ 31 →
    ∀ (stack : Nat → Bytes) (parent : Option Request) (request : Request),
    request.commandType = .smembers →
    redisProtoDecodeGetArray proto stack (encArray (storedArray proto t us)) 1 parent request =
      .ok (.ok,⟨{ request with vectorMbs := request.vectorMbs ++ us.map (·.bytes) },parent,[]⟩)

section Kinds

variable (proto : RedisProto) (t : Int) (vs : List Value)

theorem storedFor_values {request : Request} (ht : request.compressThreshold = t) :
    (vs.map (·.bytes)).map (proto.storedFor request) =
      vs.map fun v => (storedBulk proto t v).bytes := by
  rw [List.map_map]
  refine List.map_congr_left fun v _ => ?_
  simp only [Function.comp, RedisProto.storedFor, ht, storedBulk]

theorem stored_args_short {arg : Bytes} (h : arg ∈ vs.map fun v => (storedBulk proto t v).bytes) :
    arg.length < 2 ^ 31 := by
  obtain ⟨v,-,rfl⟩ := List.mem_map.mp h
  exact storedBulk_length proto t v

theorem set_wire {v : Value} {request built : Request} (hvalue : request.value = v.bytes)
    (ht : request.compressThreshold = t) (h : redisProtoEncodeParamThree proto request = .ok built) :
    ∃ front, built.protoStr = front ++ encBulk (storedBulk proto t v).bytes := by
  have hargs : redisProtoEncodeParamThree proto request =
      request.build 4 ([request.command,request.nsKey,toString32 request.exptime] ++
        ([v].map fun v => (storedBulk proto t v).bytes) ++ []) := by
    rw [← storedFor_values proto t [v] ht, redisProtoEncodeParamThree, hvalue]
    rfl
  rw [hargs] at h
  obtain ⟨front,back,hwire,hback⟩ := build_split (fun _ => stored_args_short proto t [v]) h rfl
  rw [hback rfl] at hwire
  exact ⟨front,by simpa using hwire⟩

theorem mset_wire {scripts : ScriptCache} {parent request built : Request} {kvs : List KvPair}
    (hkvs : parent.mapSlotsKv.lookup request.slotId = some kvs)
    (hvalues : kvs.map (·.value) = vs.map (·.bytes)) (ht : request.compressThreshold = t)
    (h : (redisProtoEncodeMset proto scripts parent request).1 = .ok built) :
    ∃ front back, built.protoStr =
      front ++ vs.flatMap (fun v => encBulk (storedBulk proto t v).bytes) ++ back := by
  have hvals : kvs.map (fun kv => proto.storedFor request kv.value) =
      vs.map fun v => (storedBulk proto t v).bytes := by
    rw [← storedFor_values proto t vs ht, ← hvalues, List.map_map]
    rfl
  rw [redisProtoEncodeMset, hkvs] at h
  obtain ⟨sha,hbuilt⟩ := withScript_ok h
  rw [hvals] at hbuilt
  have hlen : kvs.length = vs.length := by simpa using congrArg List.length hvalues
  obtain ⟨front,back,hwire,-⟩ := build_split (fun _ => stored_args_short proto t vs) hbuilt
    (by simp [hlen]; omega)
  exact ⟨front,back,by simpa [List.flatMap_map] using hwire⟩

theorem sadd_wire {scripts : ScriptCache} {request built : Request}
    (hmbs : request.vectorMbs = vs.map (·.bytes)) (ht : request.compressThreshold = t)
    (h : (redisProtoEncodeSadd proto scripts request).1 = .ok built) :
    ∃ front, built.protoStr = front ++ vs.flatMap fun v => encBulk (storedBulk proto t v).bytes := by
  obtain ⟨sha,hbuilt⟩ := withScript_ok h
  rw [hmbs, storedFor_values proto t vs ht, ← List.append_nil (_ ++ List.map _ vs)] at hbuilt
  obtain ⟨front,back,hwire,hback⟩ := build_split (fun _ => stored_args_short proto t vs) hbuilt
    (by simp)
  rw [hback rfl] at hwire
  exact ⟨front,by simpa [List.flatMap_map] using hwire⟩

variable {us : List Value} (hword : ∀ u ∈ us, u.bytes ≠ snappyWord) (hsize : us.length < 2 ^ 31)
  (stack : Nat → Bytes)
include hword hsize

theorem mget_back {request parent : Request} {kvs : List KvPair} (hcommand : request.commandType = .mget)
    (hkvs : parent.mapSlotsKv.lookup request.slotId = some kvs) (hlen : kvs.length = us.length) :
    ∃ parent' kvs', redisProtoDecodeGetArray proto stack (encArray (storedArray proto t us)) 1
        (some parent) request = .ok (.ok,⟨request,some parent',[]⟩) ∧
      parent'.mapSlotsKv.lookup request.slotId = some kvs' ∧
      kvs'.map (·.key) = kvs.map (·.key) ∧ kvs'.map (·.value) = us.map (·.bytes) := by
  obtain ⟨parent',kvs',htake,hkvs',hkeys,hvalues⟩ :=
    takeElems_mget proto t stack hword (s := ⟨request,some parent,[]⟩) hcommand rfl hkvs
      (show _ = 0 + us.length by rw [hlen, Nat.zero_add])
  refine ⟨parent',kvs',?_,hkvs',hkeys,hvalues⟩
  rw [redisProtoDecodeGetArray_encArray _ _ _ (by simpa [storedArray] using hsize), htake]
  rfl

theorem smembers_back (parent : Option Request) {request : Request}
    (hcommand : request.commandType = .smembers) :
    redisProtoDecodeGetArray proto stack (encArray (storedArray proto t us)) 1 parent request =
      .ok (.ok,⟨{ request with vectorMbs := request.vectorMbs ++ us.map (·.bytes) },parent,[]⟩) := by
  rw [redisProtoDecodeGetArray_encArray _ _ _ (by simpa [storedArray] using hsize),
    takeElems_smembers proto t hword 0 hcommand, foldl_pushMember]
  rfl

omit hword hsize in
/-- Values come back from Redis unless one of them is the word `snappy`, which is stored raw, is
taken for a stream, and makes the reader throw. -/
theorem values_read_back_iff : ReadsBack proto t vs ↔ ∀ v ∈ vs, v.bytes ≠ snappyWord := by
  constructor
  · intro h v hv hword
    have hstored := stored_snappyWord proto.compress v t hword
    rcases h.uncompress v hv [] with hread | ⟨hread,-⟩
    · rw [hstored] at hread
      cases hread
    · rw [hstored] at hread
      cases hread
  · intro h
    constructor
    case uncompress =>
      intro v hv stack
      rcases stored_cases proto.compress v t with hs | ⟨hs,-⟩
      · rw [hs]
        exact .inr ⟨uncompressValue_raw _ v stack (h v hv),rfl⟩
      · rw [hs]
        exact .inl (uncompressValue_stream _ v stack)
    case set => exact fun _ _ _ _ hvalue ht hbuilt => set_wire proto t hvalue ht hbuilt
    case mset =>
      exact fun _ _ _ _ _ hkvs hvalues ht hbuilt => mset_wire proto t vs hkvs hvalues ht hbuilt
    case sadd => exact fun _ _ _ hmbs ht hbuilt => sadd_wire proto t vs hmbs ht hbuilt
    case getString =>
      intro v hv stack request
      rw [redisProtoDecodeGetString_encBulk, uncompressed_stored proto t _ (h v hv)]
      rfl
    case mget =>
      intro us hus hsize stack request parent kvs hcommand hkvs hlen
      exact mget_back proto t (fun u hu => h u (hus u hu)) hsize stack hcommand hkvs hlen
    case smembers =>
      intro us hus hsize stack parent request hcommand
      exact smembers_back proto t (fun u hu => h u (hus u hu)) hsize stack parent hcommand

end Kinds

/-- The protocol with a compressor that finds nothing to compress. -/
def literalProto : RedisProto := ⟨literalSnappy,fun _ => .finite 0,fun _ _ => none⟩

/-- The value `snappy` is stored as it is; the reply of `GET` then makes the decoder throw, because
the seventh byte of the reader's buffer is not the NUL of the magic number. -/
theorem snappy_value_throws :
    stored literalSnappy (text "snappy") 0 = text "snappy" ∧
      redisProtoDecodeGetString literalProto (fun _ => text "xxxxxxx") (encBulk (text "snappy")) 1
        Request.fresh = .error .badMagic := by
  refine ⟨by decide,rfl⟩

end QkPack
