import Mathlib.Data.List.TakeWhile
import QkPack.Lib.Decimal

/-!
# Integer conversions of the C library

`strtol` in base `0` on a NUL-terminated region, `int` and `long` ranges, and what `strtol` returns
on a canonical decimal numeral. A list stands for the readable bytes; what lies behind it reads
as NUL.
-/

namespace CString
open Wire

def cStr (s : Bytes) : Bytes := s.takeWhile (· != 0)

/-- Conversion to a 32-bit two's complement `int`. -/
def int32 (v : Int) : Int := Int.bmod v (2 ^ 32)

/-- The range to which `strtol` saturates. -/
def clampLong (v : Int) : Int := max (-2 ^ 63) (min v (2 ^ 63 - 1))

def toUInt64 (v : Int) : Nat := (v % 2 ^ 64).toNat

def isspace (c : UInt8) : Bool := c == 32 || (9 ≤ c && c ≤ 13)

def digitOf (c : UInt8) : Option Nat :=
  if 48 ≤ c.toNat ∧ c.toNat ≤ 57 then some (c.toNat - 48)
  else if 97 ≤ c.toNat ∧ c.toNat ≤ 122 then some (c.toNat - 87)
  else if 65 ≤ c.toNat ∧ c.toNat ≤ 90 then some (c.toNat - 55)
  else none

def inBase (base : Nat) (c : UInt8) : Bool := (digitOf c).any fun d => decide (d < base)

def isX (c : UInt8) : Bool := c == 120 || c == 88

/-- Length of the base prefix and the base that `strtol (p,&end,0)` chooses: a leading zero is
octal, and `0x` counts as a prefix only in front of a hexadecimal digit. -/
def baseOf (s : Bytes) : Nat × Nat :=
  if s.head? = some 48 then
    if (s[1]?).any isX ∧ (s[2]?).any (inBase 16) then (2,16) else (0,8)
  else (0,10)

/-- How many bytes the choice of the base looks at. -/
def basePeek (s : Bytes) : Nat :=
  if s.head? = some 48 then if (s[1]?).any isX then 3 else 2 else 1

def valueIn (base : Nat) (s : Bytes) : Nat :=
  s.foldl (fun v c => v * base + (digitOf c).getD 0) 0

/-- Result of `strtol`: the value, how far `end` has moved, and how many bytes were looked at. -/
structure Scan where
  value : Int
  used : Nat
  seen : Nat
deriving DecidableEq, Repr

/-- The digits of `strtol` after blanks and sign; `skipped` bytes precede them. -/
def strtolDigits (neg : Bool) (skipped : Nat) (s : Bytes) : Scan :=
  let (pre,base) := baseOf s
  let ds := (s.drop pre).takeWhile (inBase base)
  if ds = [] then ⟨0,0,skipped + 1⟩
  else
    let v : Int := valueIn base ds
    ⟨clampLong (if neg then -v else v), skipped + pre + ds.length,
      skipped + max (basePeek s) (pre + ds.length + 1)⟩

/-- `strtol (s,&end,0)`. -/
def strtol (s : Bytes) : Scan :=
  let w := (s.takeWhile isspace).length
  let t := s.drop w
  if t.head? = some 45 then strtolDigits true (w + 1) t.tail
  else if t.head? = some 43 then strtolDigits false (w + 1) t.tail
  else strtolDigits false w t

theorem cStr_eq {v : Bytes} (hnul : 0 ∉ v) : cStr v = v := by
  refine List.takeWhile_eq_self_iff.mpr fun c hc => ?_
  rw [bne_iff_ne]
  rintro rfl
  exact hnul hc

theorem nul_notMem_cStr (s : Bytes) : 0 ∉ cStr s := by
  intro hmem
  have hne := List.mem_takeWhile_imp hmem
  simp at hne

theorem int32_eq (v : Int) :
    int32 v = if v % 2 ^ 32 < 2 ^ 31 then v % 2 ^ 32 else v % 2 ^ 32 - 2 ^ 32 := by
  simp [int32, Int.bmod]

theorem int32_of_range {v : Int} (hl : -2 ^ 31 ≤ v) (hu : v < 2 ^ 31) : int32 v = v := by
  rw [int32_eq]
  split <;> omega

theorem int32_lt (v : Int) : int32 v < 2 ^ 31 := by
  rw [int32_eq]
  split <;> omega

theorem int32_ge (v : Int) : -2 ^ 31 ≤ int32 v := by
  rw [int32_eq]
  split <;> omega

theorem int32_le_self {v : Int} (hl : -2 ^ 31 ≤ v) : int32 v ≤ v := by
  rw [int32_eq]
  split <;> omega

theorem clampLong_of_range {v : Int} (hl : -2 ^ 63 ≤ v) (hu : v < 2 ^ 63) : clampLong v = v := by
  unfold clampLong
  omega

theorem clampLong_natCast {n : Nat} (h : n < 2 ^ 63) : clampLong n = n :=
  clampLong_of_range (by omega) (by omega)

theorem toUInt64_natCast {n : Nat} (h : n < 2 ^ 64) : toUInt64 n = n := by
  unfold toUInt64
  omega

theorem digitOf_of_isDigit {c : UInt8} (h : IsDigit c) : digitOf c = some (c.toNat - 48) :=
  if_pos h

theorem inBase_ten_of_isDigit {c : UInt8} (h : IsDigit c) : inBase 10 c = true := by
  have : c.toNat - 48 < 10 := by
    have := h.2
    omega
  simp [inBase, digitOf_of_isDigit h, this]

theorem isspace_of_isDigit {c : UInt8} (h : IsDigit c) : isspace c = false := by
  obtain ⟨h1,h2⟩ := h
  simp only [isspace, Bool.or_eq_false_iff, beq_eq_false_iff_ne, Bool.and_eq_false_iff,
    decide_eq_false_iff_not, UInt8.le_iff_toNat_le]
  refine ⟨?_,Or.inr ?_⟩
  · rintro rfl
    simp at h1
  · simp only [UInt8.reduceToNat]
    omega

theorem valueIn_ten {s : Bytes} (h : ∀ c ∈ s, IsDigit c) : valueIn 10 s = digitsValue s := by
  induction s using List.reverseRecOn with
  | nil => rfl
  | append_singleton s c ih =>
    have hc := digitOf_of_isDigit (h c (by simp))
    have hs := ih fun d hd => h d (by simp [hd])
    unfold valueIn at hs ⊢
    rw [digitsValue_append_singleton, List.foldl_append, hs]
    simp [hc]

/-- A non-empty digit string that `strtol` reads in base ten. -/
structure IsNumeral (ds : Bytes) : Prop where
  ne_nil : ds ≠ []
  digits : ∀ c ∈ ds, IsDigit c
  no_leading_zero : ds.head? = some 48 → ds = [48]

/-- The bytes behind a numeral do not continue it. -/
def Stops (tail : Bytes) : Prop := ∀ c, tail.head? = some c → digitOf c = none

theorem stops_nil : Stops [] := by simp [Stops]

theorem stops_crlf (tail : Bytes) : Stops (13 :: tail) := by
  intro c hc
  obtain rfl : 13 = c := by simpa using hc
  decide

theorem stops_take_crlf (tail : Bytes) (k : Nat) : Stops ((13 :: tail).take k) := by
  cases k with
  | zero => simpa using stops_nil
  | succ k => simpa using stops_crlf (tail.take k)

theorem isNumeral_decimal_take (n : Nat) {c : Nat} (hc : 0 < c) :
    IsNumeral ((decimal n).take c) where
  ne_nil := by simp [List.take_eq_nil_iff, hc.ne', decimal_ne_nil]
  digits := fun d hd => decimal_isDigit (List.mem_of_mem_take hd)
  no_leading_zero := by
    intro h
    have hn : n = 0 := decimal_head_zero (by rwa [List.head?_take, if_neg hc.ne'] at h)
    obtain ⟨k,rfl⟩ := Nat.exists_eq_succ_of_ne_zero hc.ne'
    simp [hn, decimal_zero]

theorem isNumeral_decimal (n : Nat) : IsNumeral (decimal n) := by
  simpa using isNumeral_decimal_take n (decimal_length_pos n)

theorem takeWhile_append_of_stops {p : UInt8 → Bool} {ds tail : Bytes} (hds : ∀ c ∈ ds, p c = true)
    (htail : ∀ c, tail.head? = some c → p c = false) : (ds ++ tail).takeWhile p = ds := by
  rw [List.takeWhile_append_of_pos hds]
  cases tail with
  | nil => simp
  | cons c tail => simp [htail c rfl]

/-- A canonical numeral is read in base ten, or, when it is the digit zero, in base eight; the
base prefix is empty either way and nothing behind the numeral is consumed. -/
theorem strtolDigits_numeral {ds tail : Bytes} (hds : IsNumeral ds) (htail : Stops tail)
    (neg : Bool) (skipped : Nat) :
    strtolDigits neg skipped (ds ++ tail) =
      ⟨clampLong (if neg then -(digitsValue ds : Int) else digitsValue ds), skipped + ds.length,
        skipped + (ds.length + 1)⟩ := by
  have hstop (base : Nat) : ∀ c, tail.head? = some c → inBase base c = false := fun c hc => by
    simp [inBase, htail c hc]
  by_cases hzero : ds.head? = some 48
  · obtain rfl := hds.no_leading_zero hzero
    have hx : (tail.head?).any isX = false := by
      cases h : tail.head? with
      | none => rfl
      | some c =>
        by_contra hc
        simp only [Option.any_some, Bool.not_eq_false, isX, Bool.or_eq_true, beq_iff_eq] at hc
        rcases hc with rfl | rfl
        · exact absurd (htail _ h) (by decide)
        · exact absurd (htail _ h) (by decide)
    have hbase : baseOf ([48] ++ tail) = (0,8) := by simp [baseOf, ← List.head?_eq_getElem?, hx]
    have hpeek : basePeek ([48] ++ tail) = 2 := by simp [basePeek, ← List.head?_eq_getElem?, hx]
    have hrun : ([48] ++ tail).takeWhile (inBase 8) = [48] :=
      takeWhile_append_of_stops (List.forall_mem_singleton.mpr (by decide)) (hstop 8)
    simp only [strtolDigits, hbase, hpeek, List.drop_zero, hrun]
    simp [valueIn, digitsValue, digitOf]
  · obtain ⟨d,ds',rfl⟩ := List.exists_cons_of_ne_nil hds.ne_nil
    have hhead : ((d :: ds') ++ tail).head? ≠ some 48 := by simpa using hzero
    have hrun := takeWhile_append_of_stops (p := inBase 10)
      (fun c hc => inBase_ten_of_isDigit (hds.digits c hc)) (hstop 10)
    simp only [strtolDigits, baseOf, basePeek, if_neg hhead, List.drop_zero, hrun,
      valueIn_ten hds.digits, if_neg hds.ne_nil]
    simp

theorem strtol_numeral {ds tail : Bytes} (hds : IsNumeral ds) (htail : Stops tail) :
    strtol (ds ++ tail) = ⟨clampLong (digitsValue ds), ds.length, ds.length + 1⟩ := by
  obtain ⟨d,ds',rfl⟩ := List.exists_cons_of_ne_nil hds.ne_nil
  have hd := hds.digits d List.mem_cons_self
  have hblank : ((d :: ds') ++ tail).takeWhile isspace = [] := by simp [isspace_of_isDigit hd]
  have hminus : d ≠ 45 := by
    rintro rfl
    exact absurd hd (by decide)
  have hplus : d ≠ 43 := by
    rintro rfl
    exact absurd hd (by decide)
  have h := strtolDigits_numeral hds htail false 0
  simp only [Nat.zero_add] at h
  simp only [strtol, hblank, List.length_nil, List.drop_zero, h]
  simp [hminus, hplus]

theorem strtol_minus {ds tail : Bytes} (hds : IsNumeral ds) (htail : Stops tail) :
    strtol (45 :: (ds ++ tail)) =
      ⟨clampLong (-(digitsValue ds : Int)), ds.length + 1, ds.length + 2⟩ := by
  have h := strtolDigits_numeral hds htail true 1
  have hblank : (45 :: (ds ++ tail)).takeWhile isspace = [] := by simp [isspace]
  simp only [strtol, hblank, List.length_nil, List.drop_zero, List.head?_cons, if_pos,
    List.tail_cons, Nat.zero_add, h]
  simp only [Scan.mk.injEq, true_and]
  omega

/-- The value of a cut numeral is the number with its missing digits dropped. -/
theorem strtol_decimal_take {n c : Nat} {tail : Bytes} (hc : 0 < c) (hn : n < 2 ^ 63)
    (htail : Stops tail) :
    strtol ((decimal n).take c ++ tail) =
      ⟨(n / 10 ^ ((decimal n).length - c) : Nat), min c (decimal n).length,
        min c (decimal n).length + 1⟩ := by
  rw [strtol_numeral (isNumeral_decimal_take n hc) htail, digitsValue_take_decimal n hc,
    List.length_take, clampLong_natCast ((Nat.div_le_self _ _).trans_lt hn)]

theorem strtol_decimal {n : Nat} {tail : Bytes} (hn : n < 2 ^ 63) (htail : Stops tail) :
    strtol (decimal n ++ tail) = ⟨n, (decimal n).length, (decimal n).length + 1⟩ := by
  simpa using strtol_decimal_take (decimal_length_pos n) hn htail

theorem strtol_nil : strtol [] = ⟨0,0,1⟩ := rfl

theorem strtol_minus_one {tail : Bytes} (htail : Stops tail) :
    strtol (45 :: 49 :: tail) = ⟨-1,2,3⟩ :=
  strtol_minus (isNumeral_decimal 1) htail

example : strtol (text " -0x1fZ") = ⟨-31,6,7⟩ := by decide

example : strtol (text "0xz") = ⟨0,1,3⟩ := by decide

end CString
