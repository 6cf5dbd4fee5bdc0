import QkPack.Upstream.ArrayPrefix
import QkPack.Upstream.SimpleReplies

/-!
# Waiting without looking behind the buffer

The framing check reads with `strtol`, which looks at one byte behind the digits. Here are the
prefixes of a reply for which it asks for more and has looked at arrived bytes only.
-/

namespace QkPack
open Wire CString Resp

/-- The check asks for more, and all bytes it looked at are in the buffer. -/
def WaitsWithin (skip s : Bytes) : Prop :=
  (frameBehind skip s).rc = .again ∧ (frameBehind skip s).reach ≤ (skip ++ s).length

theorem le_multibulkLoop_reach (mem : Bytes) (rdataLen : Int) (i : Nat) (c : Cursor) :
    c.reach ≤ (multibulkLoop mem rdataLen i c).reach := by
  induction i generalizing c with
  | zero => exact le_rfl
  | succ i ih =>
    simp only [multibulkLoop]
    split
    · exact le_rfl
    · refine le_trans ?_ (ih _)
      rw [multibulkElem_reach]
      exact le_max_left _ _

theorem again_within_past {mem : Bytes} {rdataLen : Int} {i : Nat} {c : Cursor}
    (hpast : mem.length ≤ c.rest + 1) (hagain : (multibulkLoop mem rdataLen i c).rc = .again)
    (hreach : (multibulkLoop mem rdataLen i c).reach ≤ mem.length) : 0 < i ∧ c.len > rdataLen := by
  cases i with
  | zero => simp [multibulkLoop] at hagain
  | succ i =>
    refine ⟨Nat.succ_pos i,?_⟩
    by_contra hin
    rw [multibulkLoop, if_neg hin] at hreach
    have hmono := le_multibulkLoop_reach mem rdataLen i (multibulkElem mem c)
    rw [multibulkElem_reach, strtol_past hpast] at hmono
    have := le_max_right c.reach (c.rest + 1 + (1 : Nat))
    push_cast at this hmono
    omega

/-- The broken element shows its whole length, and that length alone exceeds what is there. -/
def Cut.waitsWithin (c : Cut) (countDigits : Nat) : Prop :=
  c.later ≠ [] ∧ ∃ b, c.broken = some b ∧ (decimal b.bytes.length).length + 2 ≤ c.seen ∧
    c.seen + countDigits < (encElem c.broken).length

section Elements

variable {pre mem : Bytes} {skip digits : Nat} {rdataLen : Int} {c : Cursor} {cut : Cut}

theorem seen_none_lt {k : Nat} (hk : k ≤ 2) :
    k < (strtol ((encElem none).tail.take (k - 1))).seen + 1 := by
  interval_cases k <;> decide

theorem CutBuffer.waitsWithin_of_again (h : CutBuffer pre mem skip digits rdataLen c cut)
    (hagain : (multibulkLoop mem rdataLen (cut.whole.length + (cut.later.length + 1)) c).rc =
      .again)
    (hreach : (multibulkLoop mem rdataLen (cut.whole.length + (cut.later.length + 1)) c).reach ≤
      mem.length) : cut.waitsWithin digits := by
  obtain ⟨c',hc',hsize,hmem,hloop⟩ := h.broken
  obtain ⟨hcount,hpast⟩ := broken_step cut.broken hc' h.seen_lt
  rw [← hmem] at hcount hpast
  rw [hloop] at hagain hreach
  obtain ⟨hpos,hstop⟩ := again_within_past hpast hagain hreach
  have hlen := h.len_eq
  have hrest := hc'.rest_eq
  have hle := hcount.le
  -- the round on the broken element has itself stayed within the buffer
  have hseen := (le_multibulkLoop_reach _ _ _ _).trans hreach
  rw [multibulkElem_reach] at hseen
  have hscan := (le_max_right _ _).trans hseen
  have hshort : cut.seen + digits < claimedSize cut.broken cut.seen := by
    push_cast at hle
    omega
  refine ⟨List.length_pos_iff.mp hpos,?_⟩
  cases hbroken : cut.broken with
  | none =>
    exfalso
    rw [hmem, hbroken, peek_broken none hc'.rest_eq] at hscan
    rw [hbroken] at hshort hmem
    rw [← hmem] at hscan
    rcases Nat.lt_or_ge 2 cut.seen with hbig | hsmall
    · simp only [claimedSize, if_neg (show ¬ cut.seen ≤ 2 by omega)] at hshort
      omega
    · have := seen_none_lt hsmall
      omega
  | some b =>
    have hk : 1 < cut.seen := by
      by_contra hle1
      rw [strtol_past (by omega)] at hscan
      push_cast at hscan
      omega
    have hstr := strtol_broken_some (k := cut.seen) b hk hc'.rest_eq
    rw [hbroken] at hmem hshort
    rw [← hmem] at hstr
    rw [hstr] at hscan
    push_cast at hscan
    have hwide : (decimal b.bytes.length).length + 2 ≤ cut.seen := by omega
    refine ⟨b,rfl,hwide,?_⟩
    rwa [claimedSize, if_neg (by omega), if_neg (by omega)] at hshort

theorem CutBuffer.again_of_waitsWithin (h : CutBuffer pre mem skip digits rdataLen c cut)
    (hbound : mem.length ≤ 2 ^ 30) (hwaits : cut.waitsWithin digits) :
    (multibulkLoop mem rdataLen (cut.whole.length + (cut.later.length + 1)) c).rc = .again ∧
      (multibulkLoop mem rdataLen (cut.whole.length + (cut.later.length + 1)) c).reach ≤
        mem.length := by
  obtain ⟨hlater,b,hbroken,hwide,hshort⟩ := hwaits
  obtain ⟨c',hc',hsize,hmem,hloop⟩ := h.broken
  obtain ⟨hcount,-⟩ := broken_step cut.broken hc' h.seen_lt
  rw [← hmem] at hcount
  have hb := b.size_le
  have hlen := h.len_eq
  have hrest := hc'.rest_eq
  have hd := decimal_length_le (n := b.bytes.length) (k := 9) (by norm_num) (by omega)
  have hclaim : claimedSize cut.broken cut.seen = (encElem cut.broken).length := by
    rw [hbroken, claimedSize, if_neg (by omega), if_neg (by omega)]
  have hesize : (encElem cut.broken).length = 5 + (decimal b.bytes.length).length + b.bytes.length := by
    rw [hbroken, encElem_some, encBulk_length]
  rw [hclaim] at hcount
  have hexact := hcount.exact (by push_cast; omega)
  have hstop : (multibulkElem mem c').len > rdataLen := by
    push_cast at hexact
    omega
  obtain ⟨j,hj⟩ := Nat.exists_eq_succ_of_ne_zero (List.length_pos_iff.mpr hlater).ne'
  rw [hloop, hj, multibulkLoop, if_pos hstop]
  refine ⟨rfl,?_⟩
  have hstr := strtol_broken_some (k := cut.seen) b (by omega) hc'.rest_eq
  rw [hbroken] at hmem
  rw [← hmem] at hstr
  rw [multibulkElem_reach, hstr]
  have hreach := hc'.reach_le
  push_cast
  omega

end Elements

section Array

variable (skip : Bytes) {es : List Elem} {p : Nat}

theorem not_waitsWithin_header (hp : 0 < p) (hheader : p ≤ (decimal es.length).length + 2) :
    ¬ WaitsWithin skip ((encArray es).take p) := by
  rintro ⟨hagain,hreach⟩
  obtain rfl | hone : p = 1 ∨ 1 < p := by omega
  · rw [take_one_encArray, frameBehind_star] at hagain
    simp at hagain
  have hlen := length_take_header es hheader
  have hd := decimal_length_pos es.length
  rw [frameBehind_take skip es hone] at hagain hreach
  rw [List.length_append, hlen] at hreach
  have hloop := (le_max_right _ _).trans hreach
  have hstart := (le_multibulkLoop_reach _ _ _ _).trans hloop
  have hpast := header_past skip es hheader
  have hstop := (again_within_past hpast hagain (by rw [List.length_append, hlen]; exact hloop)).2
  simp only [arrayCursor, hlen] at hstart hstop
  push_cast at hstart
  omega

def arrayWaitsWithin (es : List Elem) (p : Nat) : Prop :=
  (decimal es.length).length + 3 ≤ p ∧
    ∃ c, cutElems es (p - ((decimal es.length).length + 3)) = some c ∧
      c.waitsWithin (decimal es.length).length

theorem waitsWithin_array_iff (hp : 0 < p) (hp' : p < (encArray es).length)
    (hnull : NoWholeNull es p) (hcount : es.length < 2 ^ 31) (hsize : skip.length + p ≤ 2 ^ 30) :
    WaitsWithin skip ((encArray es).take p) ↔ arrayWaitsWithin es p := by
  by_cases hheader : p ≤ (decimal es.length).length + 2
  · refine iff_of_false (not_waitsWithin_header skip hp hheader) fun h => ?_
    have := h.1
    omega
  have hbehind : (decimal es.length).length + 3 ≤ p := by omega
  obtain ⟨cut,hcut,hrounds,hbuffer⟩ := cutBuffer_of_take skip hbehind hp' hnull
  have hloop : (arraySize es.length).toNat = cut.whole.length + (cut.later.length + 1) := by
    rw [arraySize_of_lt hcount, Int.toNat_natCast, hrounds]
  have hbound : (skip ++ (encArray es).take p).length ≤ 2 ^ 30 := by
    rw [List.length_append, List.length_take]
    omega
  have hiff : arrayWaitsWithin es p ↔ cut.waitsWithin (decimal es.length).length := by
    simp only [arrayWaitsWithin, hcut, Option.some.injEq, exists_eq_left', hbehind, true_and]
  rw [hiff, WaitsWithin, frameBehind_take_behind skip hbehind, hloop]
  constructor
  · rintro ⟨hagain,hreach⟩
    exact hbuffer.waitsWithin_of_again hagain ((le_max_right _ _).trans hreach)
  · intro hwaits
    obtain ⟨hagain,hreach⟩ := hbuffer.again_of_waitsWithin hbound hwaits
    refine ⟨hagain,max_le ?_ hreach⟩
    rw [List.length_append, List.length_take]
    push_cast
    omega

end Array

section Bulk

variable (skip : Bytes) (b : Bulk) {p : Nat}

theorem waitsWithin_bulk_iff (hp : 0 < p) (hp' : p < (encBulk b.bytes).length) :
    WaitsWithin skip ((encBulk b.bytes).take p) ↔ (decimal b.bytes.length).length + 2 ≤ p := by
  have hlen : (skip ++ (encBulk b.bytes).take p).length = skip.length + p := by
    rw [List.length_append, List.length_take, min_eq_left hp'.le]
  have hd := decimal_length_pos b.bytes.length
  obtain rfl | hone : p = 1 ∨ 1 < p := by omega
  · have hdollar : (encBulk b.bytes).take 1 = [36] := rfl
    refine iff_of_false ?_ (by omega)
    rintro ⟨-,hreach⟩
    rw [hlen, hdollar, frameBehind_dollar] at hreach
    push_cast at hreach
    omega
  · rw [WaitsWithin, hlen, frameBehind_bulk_take skip b hone, if_pos hp']
    push_cast
    exact ⟨fun h => by have := h.2; omega,fun h => ⟨rfl,by omega⟩⟩

theorem frameBehind_complete_bulk :
    (frameBehind skip (encBulk b.bytes)).rc = .ok ∧
      (frameBehind skip (encBulk b.bytes)).reach ≤ (skip ++ encBulk b.bytes).length := by
  have hlen := encBulk_length b.bytes
  have h := frameBehind_bulk_take skip b (p := (encBulk b.bytes).length) (by omega)
  rw [List.take_length, if_neg (lt_irrefl _)] at h
  rw [h, List.length_append]
  refine ⟨rfl,?_⟩
  push_cast
  omega

end Bulk

section Null

variable (skip : Bytes) {p : Nat}

theorem not_waitsWithin_nullBulk (hp : 0 < p) (hp' : p < nullBulk.length) :
    ¬ WaitsWithin skip (nullBulk.take p) := by
  have hzero : int32 0 = 0 := int32_of_range (by norm_num) (by norm_num)
  have hminus : int32 (-1) = -1 := int32_of_range (by norm_num) (by norm_num)
  have hshape : nullBulk.take p = 36 :: (text "-1" ++ crlf).take (p - 1) := by
    obtain ⟨q,rfl⟩ := Nat.exists_eq_succ_of_ne_zero hp.ne'
    rfl
  rw [nullBulk_length] at hp'
  rintro ⟨hagain,hreach⟩
  rw [hshape, frameBehind_bulk] at hagain hreach
  simp only [ngxParseBulk, peek_succ_append rfl] at hagain hreach
  rcases Nat.lt_or_ge 2 p with hdigit | hsign
  · have hscan : strtol ((text "-1" ++ crlf).take (p - 1)) = ⟨-1,2,3⟩ := by
      obtain rfl | rfl : p = 3 ∨ p = 4 := by omega
      · decide
      · decide
    simp [hscan, hminus] at hagain
  · have hseen : p ≤ (strtol ((text "-1" ++ crlf).take (p - 1))).seen := by
      interval_cases p <;> decide
    have hpast : ∀ f : Frame, f.reach = skip.length + 1 +
        (strtol ((text "-1" ++ crlf).take (p - 1))).seen →
        ¬ max ((skip.length : Int) + 1) f.reach ≤
          (skip ++ 36 :: (text "-1" ++ crlf).take (p - 1)).length := by
      intro f hf hle
      have := (le_max_right _ _).trans hle
      rw [hf] at this
      have hlen : ((text "-1" ++ crlf).take (p - 1)).length ≤ p - 1 := List.length_take_le _ _
      simp only [List.length_append, List.length_cons] at this
      push_cast at this
      omega
    refine hpast _ ?_ hreach
    split
    · rfl
    · split <;> rfl

theorem frameBehind_nullArray_take (hp : 0 < p) :
    (frameBehind skip ((text "*-1" ++ crlf).take p)).rc = .ok := by
  have hshape : (text "*-1" ++ crlf).take p = 42 :: (text "-1" ++ crlf).take (p - 1) := by
    obtain ⟨q,rfl⟩ := Nat.exists_eq_succ_of_ne_zero hp.ne'
    rfl
  have hcount : (int32 (strtol ((text "-1" ++ crlf).take (p - 1))).value).toNat = 0 := by
    rcases Nat.lt_or_ge p 5 with hcut | hall
    · interval_cases p <;> decide
    · rw [List.take_of_length_le (by simpa [text] using (show 4 ≤ p - 1 by omega))]
      decide
  rw [hshape, frameBehind_array]
  simp only [ngxParseMultibulk, multibulkInit, peek_succ_append rfl, hcount, multibulkLoop]

end Null

end QkPack
