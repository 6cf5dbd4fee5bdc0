import QkPack.Upstream.BrokenArray

/-!
# Array replies that have arrived in part

What the framing check answers on a proper prefix of an array reply, behind the bytes `skip`.
-/

namespace QkPack
open Wire CString Resp

/-- When the check of the first `p` bytes of an array asks for more: the count has begun and is not
finished, or the guessed sizes of the elements before the last one exceed what is there. -/
def arrayWaits (es : List Elem) (p : Nat) : Prop :=
  let d := (decimal es.length).length
  if p ≤ 1 then False
  else if p ≤ d + 1 then True
  else if p ≤ d + 2 then 2 ≤ es.length
  else ∃ c, cutElems es (p - (d + 3)) = some c ∧ c.waits d

section Header

variable (skip : Bytes) (es : List Elem) {p : Nat}

theorem take_encArray (hp : 0 < p) :
    (encArray es).take p = 42 :: ((decimal es.length).take (p - 1) ++
      (13 :: 10 :: encElems es).take (p - 1 - (decimal es.length).length)) := by
  obtain ⟨q,rfl⟩ := Nat.exists_eq_succ_of_ne_zero hp.ne'
  have hsplit : encArray es = 42 :: (decimal es.length ++ 13 :: 10 :: encElems es) := by
    simp [encArray, arrayHeader, crlf]
  rw [hsplit, Nat.succ_eq_add_one, List.take_succ_cons, List.take_append]
  rfl

/-- The count that the loop works with is the number formed by the visible digits. -/
def visibleCount (n p : Nat) : Nat := n / 10 ^ ((decimal n).length - (p - 1))

theorem visibleCount_le (n p : Nat) : visibleCount n p ≤ n := Nat.div_le_self _ _

theorem visibleCount_of_le {n p : Nat} (hp : (decimal n).length + 1 ≤ p) : visibleCount n p = n := by
  rw [visibleCount, Nat.sub_eq_zero_of_le (by omega), pow_zero, Nat.div_one]

theorem visibleCount_digits {n p : Nat} (hp : 1 < p) :
    (decimal (visibleCount n p)).length = min (p - 1) (decimal n).length := by
  have := decimal_length_pos n
  rw [visibleCount, decimal_length_div_pow (by omega)]
  omega

theorem visibleCount_pos {n p : Nat} (hn : 0 < n) (hp : 1 < p) : 0 < visibleCount n p := by
  refine Nat.div_pos ?_ (by positivity)
  rcases Nat.eq_zero_or_pos ((decimal n).length - (p - 1)) with h | h
  · rw [h]
    exact hn
  · exact pow_le_of_decimal_length h (by omega)

theorem multibulkInit_take (hp : 1 < p) :
    multibulkInit (skip ++ (encArray es).take p) (skip.length + 1) =
      ((arraySize (visibleCount es.length p)).toNat,
        arrayCursor skip (min (p - 1) (decimal es.length).length)) := by
  have hscan := strtol_numeral (isNumeral_decimal_take es.length (c := p - 1) (by omega))
    (stops_take_crlf (10 :: encElems es) (p - 1 - (decimal es.length).length))
  rw [digitsValue_take_decimal _ (by omega), List.length_take] at hscan
  rw [take_encArray es (by omega)]
  simp only [multibulkInit, peek_succ_append rfl, hscan, arraySize, visibleCount, arrayCursor,
    Prod.mk.injEq, Cursor.mk.injEq, true_and]
  push_cast
  omega

theorem frameBehind_take (hp : 1 < p) :
    frameBehind skip ((encArray es).take p) =
      ⟨(multibulkLoop (skip ++ (encArray es).take p) ((encArray es).take p).length
          (arraySize (visibleCount es.length p)).toNat
          (arrayCursor skip (min (p - 1) (decimal es.length).length))).rc,
        max (skip.length + 1)
          (multibulkLoop (skip ++ (encArray es).take p) ((encArray es).take p).length
            (arraySize (visibleCount es.length p)).toNat
            (arrayCursor skip (min (p - 1) (decimal es.length).length))).reach⟩ := by
  have h : frameBehind skip ((encArray es).take p) =
      ⟨(ngxParseMultibulk (skip ++ (encArray es).take p) (skip.length + 1)
          ((encArray es).take p).length).rc,
        max (skip.length + 1) (ngxParseMultibulk (skip ++ (encArray es).take p) (skip.length + 1)
          ((encArray es).take p).length).reach⟩ := by
    rw [take_encArray es (by omega)]
    exact frameBehind_array skip _
  rwa [ngxParseMultibulk, multibulkInit_take skip es hp] at h

theorem take_one_encArray : (encArray es).take 1 = [42] := rfl

theorem frameBehind_star : frameBehind skip [42] = ⟨.ok,skip.length + 2⟩ := by
  have hpeek : peek (skip ++ [42]) (skip.length + 1) = [] := peek_succ_append rfl
  have hzero : int32 0 = 0 := int32_of_range (by norm_num) (by norm_num)
  rw [frameBehind_array]
  simp only [ngxParseMultibulk, multibulkInit, hpeek, strtol_nil, hzero, Int.toNat_zero,
    multibulkLoop, Frame.mk.injEq, true_and]
  push_cast
  omega

section Inside

variable (hcount : es.length < 2 ^ 31) (hone : 1 < p)
  (hheader : p ≤ (decimal es.length).length + 2)

include hheader in
theorem length_take_header : ((encArray es).take p).length = p := by
  rw [List.length_take, min_eq_left]
  rw [encArray, List.length_append, arrayHeader_length]
  omega

include hheader in
theorem header_past : ((skip ++ (encArray es).take p).length : Int) ≤
    (arrayCursor skip (min (p - 1) (decimal es.length).length)).rest + 1 := by
  rw [List.length_append, length_take_header es hheader]
  simp only [arrayCursor]
  push_cast
  omega

include hcount hone hheader in
/-- Cut inside its header, an array of which nothing is visible: six bytes an element. -/
theorem header_loop_again_iff :
    (frameBehind skip ((encArray es).take p)).rc = .again ↔
      0 < visibleCount es.length p ∧ (p : Int) < 3 + 6 * (visibleCount es.length p - 1) := by
  have hlen := length_take_header es hheader
  have hsmall := visibleCount_le es.length p
  have hdigits := decimal_length_le (n := es.length) (k := 10) (by norm_num) (by omega)
  have hstart : Counts 3 3 := Counts.of_range (by norm_num)
  have hpast := header_past skip es hheader
  rw [frameBehind_take skip es hone, arraySize_of_lt (by omega), Int.toNat_natCast, hlen]
  refine ⟨past_of_again hpast hstart,?_⟩
  rintro ⟨hpos,hwait⟩
  exact again_of_past hpast hstart (by norm_num) (by omega) hpos hwait

end Inside

/-- Cut inside its header, an array is waited for when its count has begun, and behind the count
when it has two elements or more. -/
theorem header_again_iff (hes : es ≠ []) (hcount : es.length < 2 ^ 31) (hp : 0 < p)
    (hheader : p ≤ (decimal es.length).length + 2) :
    (frameBehind skip ((encArray es).take p)).rc = .again ↔ arrayWaits es p := by
  have hpos : 0 < es.length := List.length_pos_iff.mpr hes
  have hdigits := decimal_length_le_self hpos
  have hdpos := decimal_length_pos es.length
  obtain rfl | hone : p = 1 ∨ 1 < p := by omega
  · simp [take_one_encArray, frameBehind_star, arrayWaits]
  have hvpos := visibleCount_pos hpos hone
  have hvlen := visibleCount_digits (n := es.length) hone
  simp only [arrayWaits, if_neg (show ¬ p ≤ 1 by omega)]
  rw [header_loop_again_iff skip es hcount hone hheader]
  by_cases hinside : p ≤ (decimal es.length).length + 1
  · -- the count has `p - 1` digits, so six bytes for each of its elements are more than `p`
    rw [if_pos hinside, iff_true]
    obtain rfl | hthree : p = 2 ∨ 3 ≤ p := by omega
    · omega
    · have hbig := pow_le_of_decimal_length (n := visibleCount es.length p) (k := p - 2) (by omega)
        (by omega)
      have := Nat.lt_pow_self (n := p - 2) (a := 10) (by norm_num)
      omega
  · rw [if_neg hinside, if_pos (by omega), visibleCount_of_le (by omega)]
    omega

end Header

section Behind

variable (skip : Bytes) {es : List Elem} {p : Nat} {cut : Cut}

/-- No null element is wholly contained in the first `p` bytes. -/
def NoWholeNull (es : List Elem) (p : Nat) : Prop :=
  ∀ c, cutElems es (p - ((decimal es.length).length + 3)) = some c → ∀ e ∈ c.whole, e ≠ none

theorem arrayWaits_behind_iff (hp : (decimal es.length).length + 3 ≤ p)
    (hcut : cutElems es (p - ((decimal es.length).length + 3)) = some cut) :
    arrayWaits es p ↔ cut.waits (decimal es.length).length := by
  simp only [arrayWaits, if_neg (show ¬ p ≤ 1 by omega),
    if_neg (show ¬ p ≤ (decimal es.length).length + 1 by omega),
    if_neg (show ¬ p ≤ (decimal es.length).length + 2 by omega), hcut, Option.some.injEq,
    exists_eq_left']

theorem cutBuffer_of_take (hp : (decimal es.length).length + 3 ≤ p)
    (hp' : p < (encArray es).length) (hnull : NoWholeNull es p) :
    ∃ cut, cutElems es (p - ((decimal es.length).length + 3)) = some cut ∧
      es.length = cut.whole.length + (cut.later.length + 1) ∧
      CutBuffer (skip ++ arrayHeader es.length) (skip ++ (encArray es).take p) skip.length
        (decimal es.length).length ((encArray es).take p).length
        (arrayCursor skip (decimal es.length).length) cut := by
  have hinside : p - ((decimal es.length).length + 3) < (encElems es).length := by
    rw [encArray, List.length_append, arrayHeader_length] at hp'
    omega
  obtain ⟨cut,hcut,hes,hseen,htake⟩ := cutElems_spec hinside
  refine ⟨cut,hcut,?_,aligned_arrayCursor skip _,?_,?_,hseen,hnull cut hcut⟩
  · conv_lhs => rw [hes]
    simp
  · rw [List.append_assoc, ← htake, encArray, List.take_append, arrayHeader_length,
      List.take_of_length_le (by rwa [arrayHeader_length])]
  · rw [List.length_append]
    push_cast
    omega

theorem frameBehind_take_behind (hp : (decimal es.length).length + 3 ≤ p) :
    frameBehind skip ((encArray es).take p) =
      ⟨(multibulkLoop (skip ++ (encArray es).take p) ((encArray es).take p).length
          (arraySize es.length).toNat (arrayCursor skip (decimal es.length).length)).rc,
        max (skip.length + 1)
          (multibulkLoop (skip ++ (encArray es).take p) ((encArray es).take p).length
            (arraySize es.length).toNat (arrayCursor skip (decimal es.length).length)).reach⟩ := by
  rw [frameBehind_take skip es (by omega), visibleCount_of_le (by omega), min_eq_right (by omega)]

theorem elems_again_iff (hp : (decimal es.length).length + 3 ≤ p) (hp' : p < (encArray es).length)
    (hnull : NoWholeNull es p) (hcount : es.length < 2 ^ 31) (hsize : skip.length + p ≤ 2 ^ 30) :
    (frameBehind skip ((encArray es).take p)).rc = .again ↔ arrayWaits es p := by
  obtain ⟨cut,hcut,hrounds,hbuffer⟩ := cutBuffer_of_take skip hp hp' hnull
  have hloop : (arraySize es.length).toNat = cut.whole.length + (cut.later.length + 1) := by
    rw [arraySize_of_lt hcount, Int.toNat_natCast, hrounds]
  rw [arrayWaits_behind_iff hp hcut, frameBehind_take_behind skip hp, hloop]
  refine ⟨hbuffer.waits_of_again,hbuffer.again_of_waits ?_⟩
  rw [List.length_append, List.length_take]
  omega

end Behind

/-- Which proper prefixes of an array are waited for, as long as no null element has wholly
arrived. -/
theorem array_prefix_again_iff {es : List Elem} (hes : es ≠ []) {p : Nat} (hp : 0 < p)
    (hp' : p < (encArray es).length) (hnull : NoWholeNull es p) (hcount : es.length < 2 ^ 31)
    (hsize : p ≤ 2 ^ 30) :
    (decodeFrame ((encArray es).take p)).rc = .again ↔ arrayWaits es p := by
  rw [decodeFrame_eq]
  by_cases hheader : p ≤ (decimal es.length).length + 2
  · exact header_again_iff [] es hes hcount hp hheader
  · exact elems_again_iff [] (by omega) hp' hnull hcount (by simpa using hsize)

def abc : Elem := some ⟨text "abc",by decide⟩

theorem array_prefix_again_iff_pair :
    (decodeFrame ((encArray [abc, abc]).take 9)).rc = .again ↔ arrayWaits [abc, abc] 9 := by
  refine array_prefix_again_iff (by simp) (by norm_num) (by decide) ?_ (by decide) (by norm_num)
  intro c hc e he
  have hwhole : c.whole = [] := by
    have hcut : cutElems [abc, abc] (9 - ((decimal [abc, abc].length).length + 3)) =
      some ⟨[],abc,5,[abc]⟩ := rfl
    rw [hcut, Option.some.injEq] at hc
    rw [← hc]
  simp [hwhole] at he

/-- `*1 $3 a`: two bytes of the value and its line end are missing. -/
theorem truncated_value_complete :
    9 < (encArray [abc]).length ∧ (decodeFrame ((encArray [abc]).take 9)).rc = .ok := by
  decide

end QkPack
