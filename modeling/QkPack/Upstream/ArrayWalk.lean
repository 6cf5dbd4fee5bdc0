import QkPack.Upstream.RedisProtocol

/-!
# Two walks over an array reply

`ngx_parse_multibulk` decides whether an array is complete and `RedisProtoDecodeGetArray` then takes
it apart. Both step from element to element; they part at a null element that is not the last.
-/

namespace QkPack
open Wire CString Resp

/-- One round of the loop of `RedisProtoDecodeGetArray`: the length of the element, where its data
starts, and where the next element is expected. -/
def getArrayElem (mem : Bytes) (rest : Int) : Int × Int × Int :=
  let num := strtol (peek mem (rest + 1))
  let bulklen := int32 num.value
  let data := rest + 1 + num.used + 2
  (bulklen, data, if bulklen = -1 then data else data + int32 (bulklen + 2))

def getArrayStarts (mem : Bytes) : Nat → Int → List Int
  | 0, _ => []
  | i + 1, rest => rest :: getArrayStarts mem i (getArrayElem mem rest).2.2

/-- The element boundaries that `RedisProtoDecodeGetArray` walks; a count of `-1` is an error. -/
def getArrayBoundaries (mem : Bytes) (rdata : Int) : List Int :=
  let num := strtol (peek mem rdata)
  if int32 num.value = -1 then []
  else getArrayStarts mem (int32 num.value).toNat (rdata + num.used + 2)

/-- The count of an array of `n` elements as both loops have it, in an `int`. -/
def arraySize (n : Nat) : Int := int32 (clampLong n)

theorem arraySize_le (n : Nat) : (arraySize n).toNat ≤ n := by
  have hclamp : clampLong n ≤ n ∧ -2 ^ 31 ≤ clampLong n := by
    rw [clampLong]
    omega
  have hint := int32_le_self hclamp.2
  rw [arraySize]
  omega

theorem arraySize_of_lt {n : Nat} (h : n < 2 ^ 31) : arraySize n = n := by
  rw [arraySize, clampLong_natCast (by omega), int32_of_range (by omega) (by omega)]

section Rounds

variable {mem : Bytes} {c : Cursor} {u v : Nat} {x : Int}

theorem multibulkElem_nat (hvalue : (strtol (peek mem (c.rest + 1))).value = v)
    (hused : (strtol (peek mem (c.rest + 1))).used = u) (hv : v ≤ 512 * 1024 * 1024) :
    (multibulkElem mem c).rest = c.rest + u + v + 5 ∧
      (multibulkElem mem c).len = addBulkLen (int32 (c.len + 1)) v := by
  have hlen : int32 v = v := int32_of_range (by omega) (by omega)
  have hskip : int32 ((v : Int) + 2) = v + 2 := int32_of_range (by omega) (by omega)
  have hne : (v : Int) ≠ -1 := by omega
  simp only [multibulkElem, hvalue, hused, hlen, hskip, if_neg hne, and_true]
  omega

theorem multibulkElem_reach :
    (multibulkElem mem c).reach =
      max c.reach (c.rest + 1 + (strtol (peek mem (c.rest + 1))).seen) := by
  simp only [multibulkElem]
  split <;> rfl

theorem counts_multibulkElem_nat (hvalue : (strtol (peek mem (c.rest + 1))).value = v)
    (hused : (strtol (peek mem (c.rest + 1))).used = u) (hv : v ≤ 512 * 1024 * 1024)
    (hx : Counts c.len x) :
    Counts (multibulkElem mem c).len (x + (decimal v).length + v + 5) := by
  rw [(multibulkElem_nat hvalue hused hv).2]
  convert (hx.add (n := 1) (by norm_num)).addBulkLen (n := v) (by omega) using 1
  omega

theorem multibulkElem_null (hvalue : (strtol (peek mem (c.rest + 1))).value = -1)
    (hused : (strtol (peek mem (c.rest + 1))).used = u) :
    (multibulkElem mem c).rest = c.rest + u + 1 ∧
      (multibulkElem mem c).len = int32 (c.len + 1) := by
  have hnull : int32 (-1) = -1 := int32_of_range (by norm_num) (by norm_num)
  simp only [multibulkElem, hvalue, hused, hnull, if_true, and_true]
  omega

end Rounds

section Elements

variable {pre tail : Bytes}

theorem peek_elem_some (b : Bulk) {p : Int} (hp : p = pre.length) :
    peek (pre ++ (encElem (some b) ++ tail)) (p + 1) =
      decimal b.bytes.length ++ 13 :: 10 :: (b.bytes ++ crlf ++ tail) := by
  have hsplit : pre ++ (encElem (some b) ++ tail) =
      (pre ++ [36]) ++ (decimal b.bytes.length ++ 13 :: 10 :: (b.bytes ++ crlf ++ tail)) := by
    simp [encBulk, crlf]
  rw [hsplit, peek_append (by simp [hp])]

theorem peek_elem_none {p : Int} (hp : p = pre.length) :
    peek (pre ++ (encElem none ++ tail)) (p + 1) = 45 :: 49 :: 13 :: 10 :: tail := by
  have hsplit : pre ++ (encElem none ++ tail) = (pre ++ [36]) ++ (45 :: 49 :: 13 :: 10 :: tail) := by
    simp [nullBulk, text, crlf]
  rw [hsplit, peek_append (by simp [hp])]

theorem strtol_elem_some (tail : Bytes) (b : Bulk) {p : Int} (hp : p = pre.length) :
    strtol (peek (pre ++ (encElem (some b) ++ tail)) (p + 1)) =
      ⟨b.bytes.length, (decimal b.bytes.length).length, (decimal b.bytes.length).length + 1⟩ := by
  have := b.size_le
  rw [peek_elem_some b hp, strtol_decimal (by omega) (stops_crlf _)]

theorem strtol_elem_none (tail : Bytes) {p : Int} (hp : p = pre.length) :
    strtol (peek (pre ++ (encElem none ++ tail)) (p + 1)) = ⟨-1,2,3⟩ := by
  rw [peek_elem_none hp, strtol_minus_one (stops_crlf _)]

theorem multibulkElem_some_rest (b : Bulk) {c : Cursor} (hc : c.rest = pre.length) :
    (multibulkElem (pre ++ (encElem (some b) ++ tail)) c).rest =
      c.rest + (encElem (some b)).length := by
  have hscan := strtol_elem_some tail b hc
  rw [(multibulkElem_nat (congrArg Scan.value hscan) (congrArg Scan.used hscan) b.size_le).1,
    encElem_some, encBulk_length]
  push_cast
  omega

theorem multibulkElem_none_rest {c : Cursor} (hc : c.rest = pre.length) :
    (multibulkElem (pre ++ (encElem none ++ tail)) c).rest = c.rest + 3 := by
  have hscan := strtol_elem_none tail hc
  rw [(multibulkElem_null (congrArg Scan.value hscan) (congrArg Scan.used hscan)).1]
  push_cast
  omega

theorem getArrayElem_some (b : Bulk) {rest : Int} (hr : rest = pre.length) :
    (getArrayElem (pre ++ (encElem (some b) ++ tail)) rest).2.2 =
      rest + (encElem (some b)).length := by
  have hb := b.size_le
  have hvalue : int32 b.bytes.length = b.bytes.length := int32_of_range (by omega) (by omega)
  have hskip : int32 ((b.bytes.length : Int) + 2) = b.bytes.length + 2 :=
    int32_of_range (by omega) (by omega)
  have hne : (b.bytes.length : Int) ≠ -1 := by omega
  simp only [getArrayElem, strtol_elem_some tail b hr, hvalue, hskip, if_neg hne]
  rw [encElem_some, encBulk_length]
  push_cast
  omega

theorem getArrayElem_none {rest : Int} (hr : rest = pre.length) :
    (getArrayElem (pre ++ (encElem none ++ tail)) rest).2.2 = rest + 5 := by
  have hnull : int32 (-1) = -1 := int32_of_range (by norm_num) (by norm_num)
  simp only [getArrayElem, strtol_elem_none tail hr, hnull, if_true]
  push_cast
  omega

end Elements

/-- The loop variables at an element boundary: the pointer stands behind `pre`, the counter is `lag`
bytes short of it, and nothing further on has been looked at. -/
structure Aligned (pre : Bytes) (lag : Nat) (c : Cursor) : Prop where
  rest_eq : c.rest = pre.length
  counts : Counts c.len (pre.length - lag)
  reach_le : c.reach ≤ c.rest

theorem Aligned.reach_le_length {pre tail mem : Bytes} {lag : Nat} {c : Cursor} (h : Aligned pre lag c)
    (hmem : mem = pre ++ tail) : c.reach ≤ mem.length := by
  have hreach := h.reach_le
  rw [h.rest_eq] at hreach
  rw [hmem, List.length_append]
  omega

theorem Aligned.elem_some {pre : Bytes} {lag : Nat} {c : Cursor} (h : Aligned pre lag c)
    (tail : Bytes) (b : Bulk) :
    Aligned (pre ++ encElem (some b)) lag
      (multibulkElem (pre ++ (encElem (some b) ++ tail)) c) := by
  have hscan := strtol_elem_some tail b h.rest_eq
  have hcount := counts_multibulkElem_nat (congrArg Scan.value hscan) (congrArg Scan.used hscan)
    b.size_le h.counts
  have hreach := h.reach_le
  refine ⟨?_,?_,?_⟩
  · rw [multibulkElem_some_rest b h.rest_eq, List.length_append, h.rest_eq]
    push_cast
    rfl
  · convert hcount using 1
    simp only [List.length_append, encElem_some, encBulk_length]
    push_cast
    omega
  · rw [multibulkElem_some_rest b h.rest_eq, multibulkElem_reach, hscan, encElem_some,
      encBulk_length]
    push_cast
    omega

theorem Aligned.not_again {pre mem tail : Bytes} {lag : Nat} {c : Cursor} {rdataLen : Int}
    (h : Aligned pre lag c) (hmem : mem = pre ++ tail) (hlen : mem.length ≤ rdataLen + lag) :
    ¬ c.len > rdataLen := by
  have hle := h.counts.le
  rw [hmem, List.length_append] at hlen
  push_cast at hlen
  omega

theorem walks_agree {es : List Elem} {i lag : Nat} {pre mem : Bytes} {c : Cursor}
    {rdataLen : Int} (hc : Aligned pre lag c) (hmem : mem = pre ++ encElems es)
    (hlen : mem.length ≤ rdataLen + lag) (hi : i ≤ es.length)
    (hnull : ∀ e ∈ (es.take i).dropLast, e ≠ none) :
    (multibulkLoop mem rdataLen i c).rc = .ok ∧
      (multibulkLoop mem rdataLen i c).reach ≤ mem.length ∧
      multibulkStarts mem rdataLen i c = getArrayStarts mem i c.rest := by
  induction es generalizing i pre c with
  | nil =>
    obtain rfl : i = 0 := by simpa using hi
    exact ⟨rfl,hc.reach_le_length hmem,rfl⟩
  | cons e es ih =>
    have hhere := hc.reach_le_length hmem
    cases i with
    | zero => exact ⟨rfl,hhere,rfl⟩
    | succ i =>
      have hin := hc.not_again hmem hlen
      simp only [multibulkLoop, multibulkStarts, getArrayStarts, if_neg hin]
      cases e with
      | some b =>
        rw [encElems_cons] at hmem
        have hstep : (multibulkElem mem c).rest = (getArrayElem mem c.rest).2.2 := by
          rw [hmem, multibulkElem_some_rest b hc.rest_eq, getArrayElem_some b hc.rest_eq]
        have halign := hc.elem_some (encElems es) b
        rw [← hmem] at halign
        have hnull' : ∀ e ∈ (es.take i).dropLast, e ≠ none := by
          intro e he
          refine hnull e ?_
          rw [List.take_succ_cons]
          cases h : es.take i with
          | nil => simp [h] at he
          | cons a l => exact List.mem_cons_of_mem _ (by rwa [h] at he)
        have hrest := ih halign (by rw [hmem, List.append_assoc]) (by simpa using hi) hnull'
        rw [← hstep, hrest.2.2]
        exact ⟨hrest.1,hrest.2.1,rfl⟩
      | none =>
        cases i with
        | zero =>
          refine ⟨rfl,?_,rfl⟩
          rw [multibulkLoop, multibulkElem_reach, hmem, encElems_cons,
            strtol_elem_none (encElems es) hc.rest_eq, hc.rest_eq]
          rw [hmem] at hhere
          simp only [encElems_cons, encElem_none, List.length_append, nullBulk_length] at hhere ⊢
          push_cast at hhere ⊢
          omega
        | succ i =>
          cases es with
          | nil => simp at hi
          | cons e es => exact absurd rfl (hnull none (by simp))

/-- Walks that agree have met no null element before the last one: behind a null element the
pointers are two bytes apart. -/
theorem no_inner_null_of_walks_agree {es : List Elem} {i lag : Nat} {pre mem : Bytes} {c : Cursor}
    {rdataLen : Int} (hc : Aligned pre lag c) (hmem : mem = pre ++ encElems es)
    (hagree : multibulkStarts mem rdataLen i c = getArrayStarts mem i c.rest) :
    ∀ e ∈ (es.take i).dropLast, e ≠ none := by
  induction es generalizing i pre c with
  | nil => simp
  | cons e es ih =>
    cases i with
    | zero => simp
    | succ i =>
      simp only [multibulkStarts, getArrayStarts] at hagree
      split at hagree
      · simp at hagree
      rw [List.cons.injEq] at hagree
      rw [encElems_cons] at hmem
      cases e with
      | some b =>
        have hstep : (multibulkElem mem c).rest = (getArrayElem mem c.rest).2.2 := by
          rw [hmem, multibulkElem_some_rest b hc.rest_eq, getArrayElem_some b hc.rest_eq]
        have halign := hc.elem_some (encElems es) b
        rw [← hmem] at halign
        have hrest := ih halign (by rw [hmem, List.append_assoc]) (hstep ▸ hagree.2)
        intro e he
        rw [List.take_succ_cons] at he
        cases h : es.take i with
        | nil => simp [h] at he
        | cons a l =>
          rw [h, List.dropLast_cons_cons, List.mem_cons] at he
          rcases he with rfl | he
          · simp
          · exact hrest e (by rwa [h])
      | none =>
        cases i with
        | zero => simp
        | succ i =>
          have h3 : (multibulkElem mem c).rest = c.rest + 3 := by
            rw [hmem, multibulkElem_none_rest hc.rest_eq]
          have h5 : (getArrayElem mem c.rest).2.2 = c.rest + 5 := by
            rw [hmem, getArrayElem_none hc.rest_eq]
          have htail := hagree.2
          simp only [multibulkStarts, getArrayStarts] at htail
          split at htail
          · simp at htail
          · rw [List.cons.injEq, h3, h5] at htail
            omega

section Start

variable (skip : Bytes) (es : List Elem)

theorem strtol_array_count :
    strtol (peek (skip ++ encArray es) (skip.length + 1)) =
      ⟨clampLong es.length, (decimal es.length).length, (decimal es.length).length + 1⟩ := by
  have hsplit : encArray es = 42 :: (decimal es.length ++ 13 :: 10 :: encElems es) := by
    simp [encArray, arrayHeader, crlf]
  rw [hsplit, peek_succ_append rfl, strtol_numeral (isNumeral_decimal _) (stops_crlf _),
    digitsValue_decimal]

/-- The loop variables behind the header of an array whose count has been read from `digits`
digits. -/
def arrayCursor (digits : Nat) : Cursor :=
  ⟨skip.length + (digits + 3), 3, skip.length + (digits + 2)⟩

theorem multibulkInit_array :
    multibulkInit (skip ++ encArray es) (skip.length + 1) =
      ((arraySize es.length).toNat, arrayCursor skip (decimal es.length).length) := by
  simp only [multibulkInit, strtol_array_count, arraySize, arrayCursor, Prod.mk.injEq,
    Cursor.mk.injEq, true_and]
  push_cast
  omega

theorem aligned_arrayCursor (n : Nat) :
    Aligned (skip ++ arrayHeader n) (skip.length + (decimal n).length)
      (arrayCursor skip (decimal n).length) where
  rest_eq := by
    rw [arrayCursor, List.length_append, arrayHeader_length]
    push_cast
    omega
  counts := by
    have hsum : ((skip ++ arrayHeader n).length : Int) - (skip.length + (decimal n).length : Nat) = 3 := by
      rw [List.length_append, arrayHeader_length]
      push_cast
      omega
    rw [hsum]
    exact Counts.of_range (show -2 ^ 31 ≤ (3 : Int) by norm_num)
  reach_le := by
    simp only [arrayCursor]
    omega

theorem frameBehind_encArray :
    frameBehind skip (encArray es) =
      ⟨(multibulkLoop (skip ++ encArray es) (encArray es).length (arraySize es.length).toNat
          (arrayCursor skip (decimal es.length).length)).rc,
        max (skip.length + 1) (multibulkLoop (skip ++ encArray es) (encArray es).length
          (arraySize es.length).toNat (arrayCursor skip (decimal es.length).length)).reach⟩ := by
  have h : frameBehind skip (encArray es) =
      ⟨(ngxParseMultibulk (skip ++ encArray es) (skip.length + 1) (encArray es).length).rc,
        max (skip.length + 1)
          (ngxParseMultibulk (skip ++ encArray es) (skip.length + 1) (encArray es).length).reach⟩ :=
    frameBehind_array skip _
  rwa [ngxParseMultibulk, multibulkInit_array] at h

end Start

theorem getArrayBoundaries_array (es : List Elem) :
    getArrayBoundaries (encArray es) 1 =
      getArrayStarts (encArray es) (arraySize es.length).toNat (arrayCursor [] (decimal es.length).length).rest := by
  have hscan := strtol_array_count [] es
  simp only [List.nil_append, List.length_nil, Nat.cast_zero, zero_add] at hscan
  simp only [getArrayBoundaries, hscan, arraySize]
  split
  · rename_i h
    simp [h, getArrayStarts]
  · congr 1
    simp only [arrayCursor, List.length_nil]
    push_cast
    omega

/-- A complete array without a null element before the last one is accepted, without a look behind
its end. -/
theorem frameBehind_complete_array (skip : Bytes) {es : List Elem}
    (hnull : ∀ e ∈ (es.take (arraySize es.length).toNat).dropLast, e ≠ none) :
    (frameBehind skip (encArray es)).rc = .ok ∧
      (frameBehind skip (encArray es)).reach ≤ (skip ++ encArray es).length := by
  have hlen : ((skip ++ encArray es).length : Int) ≤
      (encArray es).length + (skip.length + (decimal es.length).length : Nat) := by
    rw [List.length_append]
    push_cast
    omega
  have hwalk := walks_agree (aligned_arrayCursor skip es.length)
    (by rw [encArray, List.append_assoc]) hlen (arraySize_le _) hnull
  have hpos : 0 < (encArray es).length := List.length_pos_iff.mpr (encode_ne_nil (.array es))
  rw [frameBehind_encArray]
  refine ⟨hwalk.1,max_le ?_ hwalk.2.1⟩
  rw [List.length_append]
  push_cast
  omega

/-- A complete array reply is declared complete, along the boundaries the decoder will walk, exactly
when no element before the last one is null. -/
theorem complete_array_framed_iff (es : List Elem) :
    ((decodeFrame (encArray es)).rc = .ok ∧
      ngxMultibulkBoundaries (encArray es) 1 (encArray es).length =
        getArrayBoundaries (encArray es) 1) ↔
      ∀ e ∈ (es.take (arraySize es.length).toNat).dropLast, e ≠ none := by
  have hinit := multibulkInit_array [] es
  have hstart := aligned_arrayCursor [] es.length
  simp only [List.nil_append, List.length_nil, Nat.cast_zero, zero_add] at hinit hstart
  rw [ngxMultibulkBoundaries, hinit, getArrayBoundaries_array]
  constructor
  · rintro ⟨-,hagree⟩
    exact no_inner_null_of_walks_agree hstart rfl hagree
  · intro hnull
    refine ⟨(frameBehind_complete_array [] hnull).1,?_⟩
    have hmem : encArray es = arrayHeader es.length ++ encElems es := rfl
    exact (walks_agree hstart hmem (by omega) (arraySize_le _) hnull).2.2

/-- Four elements, the first null, on which the drifted pointer takes the payload `999` for a
length and the complete reply is reported as unfinished. -/
theorem complete_array_stalls :
    (decodeFrame (encArray [none, some ⟨text "999",by decide⟩, some ⟨text "a",by decide⟩,
      some ⟨text "b",by decide⟩])).rc = .again := by
  decide

end QkPack
