import QkPack.Protocol.Decode

/-!
# The decoders on well-formed replies

On the encoding of a reply the pointer arithmetic of the decoders does what it should: every string
is read from its own bytes, and an array is taken element by element.
-/

namespace QkPack
open Wire CString Resp

section Strings

variable (pre tail : Bytes)

theorem readString_append (s : Bytes) {p n : Int} (hp : p = pre.length) (hn : n = s.length) :
    readString (pre ++ (s ++ tail)) p n = .ok s := by
  subst hp hn
  have hread : peek (pre ++ (s ++ tail) ++ [0]) (pre.length : Nat) = s ++ (tail ++ [0]) := by
    rw [List.append_assoc, peek_append rfl, List.append_assoc]
  rw [readString, if_neg (by omega), if_neg, hread, Int.toNat_natCast, List.take_left]
  rw [not_or]
  refine ⟨by omega,?_⟩
  simp only [List.length_append]
  push_cast
  omega

theorem getArrayElem_bulk (b : Bulk) {rest : Int} (hr : rest = pre.length) :
    getArrayElem (pre ++ (encElem (some b) ++ tail)) rest =
      ((b.bytes.length : Int), rest + (decimal b.bytes.length).length + 3,
        rest + (encElem (some b)).length) := by
  have hb := b.size_le
  have hvalue : int32 b.bytes.length = b.bytes.length := int32_of_range (by omega) (by omega)
  have hnext : (getArrayElem (pre ++ (encElem (some b) ++ tail)) rest).2.2 =
      rest + (encElem (some b)).length := getArrayElem_some b hr
  simp only [getArrayElem, strtol_elem_some tail b hr, hvalue] at hnext ⊢
  rw [hnext]
  refine Prod.ext rfl (Prod.ext ?_ rfl)
  simp only
  omega

theorem readString_bulk (b : Bulk) {rest : Int} (hr : rest = pre.length) :
    readString (pre ++ (encElem (some b) ++ tail)) (rest + (decimal b.bytes.length).length + 3)
      b.bytes.length = .ok b.bytes := by
  have hsplit : pre ++ (encElem (some b) ++ tail) =
      (pre ++ (36 :: (decimal b.bytes.length ++ crlf))) ++ (b.bytes ++ (crlf ++ tail)) := by
    simp [encBulk]
  rw [hsplit, readString_append _ _ b.bytes _ rfl]
  simp only [List.length_append, List.length_cons, crlf_length]
  push_cast
  omega

end Strings

section Array

variable (proto : RedisProto) (stack : Nat → Bytes)

def takeElems : Nat → List Elem → ArrayState → Except DecodeFault ArrayState
  | _, [], s => .ok s
  | i, none :: es, s => do
    let s ← getArrayNull i s
    takeElems (i + 1) es s
  | i, some b :: es, s => do
    let s ← getArrayValue proto stack i (.ok b.bytes) s
    takeElems (i + 1) es s

theorem getArrayLoop_elems (es : List Elem) (pre tail : Bytes) (i : Nat) {rest : Int}
    (hr : rest = pre.length) (s : ArrayState) :
    getArrayLoop proto stack (pre ++ (encElems es ++ tail)) es.length i rest s =
      takeElems proto stack i es s := by
  induction es generalizing pre i rest s with
  | nil => rfl
  | cons e es ih =>
    have hsplit : pre ++ (encElems (e :: es) ++ tail) = pre ++ (encElem e ++ (encElems es ++ tail)) := by
      simp
    have hnext : pre ++ (encElem e ++ (encElems es ++ tail)) =
        (pre ++ encElem e) ++ (encElems es ++ tail) := (List.append_assoc ..).symm
    cases e with
    | none =>
      have helem : getArrayElem (pre ++ (encElem none ++ (encElems es ++ tail))) rest =
          (-1, rest + 5, rest + 5) := by
        have hnull : int32 (-1) = -1 := int32_of_range (by norm_num) (by norm_num)
        simp only [getArrayElem, strtol_elem_none _ hr, hnull, if_true]
        refine Prod.ext rfl (Prod.ext ?_ ?_) <;> · push_cast; omega
      rw [hsplit, List.length_cons, getArrayLoop, helem, takeElems]
      simp only [if_true]
      rw [hnext]
      exact bind_congr fun s => ih (pre ++ encElem none) (i + 1) (by simp [hr]) s
    | some b =>
      have hne : ¬ (b.bytes.length : Int) = -1 := by omega
      rw [hsplit, List.length_cons, getArrayLoop, getArrayElem_bulk pre _ b hr, takeElems]
      simp only [if_neg hne, readString_bulk pre _ b hr]
      rw [hnext]
      exact bind_congr fun s => ih (pre ++ encElem (some b)) (i + 1) (by simp [hr]) s

theorem redisProtoDecodeGetArray_counted (es : List Elem) (parent : Option Request) (request : Request) :
    redisProtoDecodeGetArray proto stack (encArray es) 1 parent request =
      if arraySize es.length = -1 then .ok (.error,⟨request,parent,[]⟩)
      else (takeElems proto stack 0 (es.take (arraySize es.length).toNat) ⟨request,parent,[]⟩).map
        fun s => (.ok,s) := by
  have hscan := strtol_array_count [] es
  simp only [List.nil_append, List.length_nil, Nat.cast_zero, zero_add] at hscan
  have hsplit : encArray es = arrayHeader es.length ++
      (encElems (es.take (arraySize es.length).toNat) ++ encElems (es.drop (arraySize es.length).toNat)) := by
    rw [← encElems_append, List.take_append_drop]
    rfl
  have hstart : (1 + (decimal es.length).length + 2 : Int) = (arrayHeader es.length).length := by
    rw [arrayHeader_length]
    push_cast
    omega
  have hloop := getArrayLoop_elems proto stack (es.take (arraySize es.length).toNat) (arrayHeader es.length)
    (encElems (es.drop (arraySize es.length).toNat)) 0 hstart ⟨request,parent,[]⟩
  rw [← hsplit, List.length_take, Nat.min_eq_left (arraySize_le es.length)] at hloop
  simp only [redisProtoDecodeGetArray, hscan]
  rw [← arraySize, hloop]
  rfl

theorem redisProtoDecodeGetArray_encArray (es : List Elem) (hsize : es.length < 2 ^ 31)
    (parent : Option Request) (request : Request) :
    redisProtoDecodeGetArray proto stack (encArray es) 1 parent request =
      (takeElems proto stack 0 es ⟨request,parent,[]⟩).map fun s => (.ok,s) := by
  rw [redisProtoDecodeGetArray_counted, arraySize_of_lt hsize, if_neg (by omega), Int.toNat_natCast,
    List.take_length]

theorem redisProtoDecode_encArray (es : List Elem) (scripts : ScriptCache) (parent : Option Request)
    (request : Request) (hcode : request.code = .ok) (hcommand : request.commandType ≠ .ttl)
    (hreply : request.responseBuffer = encArray es) :
    redisProtoDecode proto stack scripts parent request =
      if arraySize es.length = -1 then .ok ⟨.error,request,parent,scripts⟩
      else (takeElems proto stack 0 (es.take (arraySize es.length).toNat) ⟨request,parent,[]⟩).map
        fun s => ttlCheck ⟨.ok,s.request,s.parent,scripts⟩ := by
  have hnot : ¬ request.code ≠ .ok := not_not.mpr hcode
  have hhead : (encArray es).head? = some 42 := rfl
  rw [redisProtoDecode]
  simp only [if_neg hnot, hreply, hhead, redisProtoDecodeGetArray_counted]
  split
  · show Except.ok (ttlCheck _) = Except.ok _
    rw [ttlCheck, if_neg (fun h => hcommand h.1), if_neg (fun h => hcommand h.1)]
  · cases takeElems proto stack 0 (es.take (arraySize es.length).toNat) ⟨request,parent,[]⟩ <;> rfl

end Array

theorem redisProtoDecodeGetString_encBulk (proto : RedisProto) (stack : Nat → Bytes) (b : Bulk)
    (request : Request) :
    redisProtoDecodeGetString proto stack (encBulk b.bytes) 1 request =
      (uncompressed proto.compress (stack 0) b.bytes).map fun v => { request with value := v } := by
  have hb := b.size_le
  have hvalue : int32 b.bytes.length = b.bytes.length := int32_of_range (by omega) (by omega)
  have hne : ¬ (b.bytes.length : Int) = -1 := by omega
  have hzero : (0 : Int) = ([] : Bytes).length := rfl
  have hscan := strtol_elem_some [] b hzero
  have hread := readString_bulk [] [] b hzero
  simp only [List.nil_append, List.append_nil, encElem_some, zero_add] at hscan hread
  have hdata : (1 : Int) + (decimal b.bytes.length).length + 2 = (decimal b.bytes.length).length + 3 := by
    omega
  simp only [redisProtoDecodeGetString, hscan, hvalue, if_neg hne, hdata, hread]
  rfl

section Bulk

variable {proto : RedisProto} {stack : Nat → Bytes} {scripts : ScriptCache} {e : Elem}

theorem redisProtoDecodeGetString_null (replied : Request) :
    redisProtoDecodeGetString proto stack nullBulk 1 replied = .ok { replied with value := null } := by
  have hlen : int32 (strtol (peek nullBulk 1)).value = -1 := by decide +kernel
  rw [redisProtoDecodeGetString, hlen, if_pos rfl]

/-- What is kept of a bulk string: `null`, or the value without compression. -/
def readElem (lib : SnappyLib) (stack : Bytes) : Elem → Except DecodeFault Bytes
  | none => .ok null
  | some b => uncompressed lib stack b.bytes

theorem redisProtoDecodeGetString_encElem (proto : RedisProto) (stack : Nat → Bytes) {reply : Bytes}
    (hreply : reply = encElem e) (replied : Request) : redisProtoDecodeGetString proto stack reply 1 replied =
      (readElem proto.compress (stack 0) e).map fun v => { replied with value := v } := by
  subst hreply
  cases e with
  | none => exact redisProtoDecodeGetString_null replied
  | some b => exact redisProtoDecodeGetString_encBulk proto stack b replied

theorem redisProtoDecode_encElem (parent : Option Request) (replied : Request) (hcode : replied.code = .ok)
    (hcommand : replied.commandType ≠ .ttl) (hreply : replied.responseBuffer = encElem e) :
    redisProtoDecode proto stack scripts parent replied =
      (readElem proto.compress (stack 0) e).map fun v => ⟨.ok,{ replied with value := v },parent,scripts⟩ := by
  have hhead : replied.responseBuffer.head? = some 36 := by
    rw [hreply]
    cases e with
    | none => rfl
    | some b => rfl
  have hgot := redisProtoDecodeGetString_encElem proto stack hreply replied
  have httl (v : Bytes) : ttlCheck ⟨.ok,{ replied with value := v },parent,scripts⟩ =
      ⟨.ok,{ replied with value := v },parent,scripts⟩ := by
    rw [ttlCheck, if_neg fun h => hcommand h.1, if_neg fun h => hcommand h.1]
  unfold redisProtoDecode
  simp only [if_neg (not_not.mpr hcode), hhead, hgot]
  cases readElem proto.compress (stack 0) e with
  | error fault => rfl
  | ok v => exact congrArg Except.ok (httl v)

end Bulk

end QkPack
