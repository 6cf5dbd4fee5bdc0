import Mathlib.Data.Nat.Digits.Lemmas

/-!
# Decimal numerals on the wire

Byte strings, the canonical decimal numeral of a natural number, and the value of a numeral that
has been cut after some of its digits.
-/

namespace Wire

abbrev Bytes := List UInt8

def text (s : String) : Bytes := s.toList.map fun c => UInt8.ofNat c.toNat

def crlf : Bytes := [13,10]

@[simp] theorem crlf_length : crlf.length = 2 := rfl

def digitByte (d : Nat) : UInt8 := UInt8.ofNat (48 + d)

/-- The canonical decimal numeral: no leading zero, and `0` is the single digit. -/
def decimal (n : Nat) : Bytes :=
  if n = 0 then [48] else (Nat.digits 10 n).reverse.map digitByte

def digitsValue (s : Bytes) : Nat := s.foldl (fun v c => v * 10 + (c.toNat - 48)) 0

def IsDigit (c : UInt8) : Prop := 48 ≤ c.toNat ∧ c.toNat ≤ 57

instance : DecidablePred IsDigit := fun _ => inferInstanceAs (Decidable (_ ∧ _))

theorem digitByte_toNat {d : Nat} (h : d < 10) : (digitByte d).toNat = 48 + d := by
  simp only [digitByte, UInt8.toNat_ofNat']
  omega

theorem isDigit_digitByte {d : Nat} (h : d < 10) : IsDigit (digitByte d) := by
  simp only [IsDigit, digitByte_toNat h]
  omega

theorem decimal_zero : decimal 0 = [48] := rfl

theorem decimal_of_ne_zero {n : Nat} (h : n ≠ 0) :
    decimal n = (Nat.digits 10 n).reverse.map digitByte := if_neg h

theorem decimal_isDigit {n : Nat} {c : UInt8} (hc : c ∈ decimal n) : IsDigit c := by
  rcases eq_or_ne n 0 with rfl | hn
  · simp only [decimal_zero, List.mem_singleton] at hc
    subst hc
    decide
  · rw [decimal_of_ne_zero hn, List.mem_map] at hc
    obtain ⟨d,hd,rfl⟩ := hc
    exact isDigit_digitByte (Nat.digits_lt_base (by norm_num) (List.mem_reverse.mp hd))

theorem decimal_length_pos (n : Nat) : 0 < (decimal n).length := by
  rcases eq_or_ne n 0 with rfl | hn
  · simp [decimal_zero]
  · simp [decimal_of_ne_zero hn, List.length_pos_iff, Nat.digits_ne_nil_iff_ne_zero, hn]

theorem decimal_ne_nil (n : Nat) : decimal n ≠ [] :=
  List.length_pos_iff.mp (decimal_length_pos n)

theorem decimal_length_of_ne_zero {n : Nat} (h : n ≠ 0) :
    (decimal n).length = Nat.log 10 n + 1 := by
  rw [decimal_of_ne_zero h, List.length_map, List.length_reverse, Nat.length_digits _ _ (by norm_num) h]

theorem decimal_length_of_lt {n : Nat} (h : n < 10) : (decimal n).length = 1 := by
  rcases eq_or_ne n 0 with rfl | hn
  · rfl
  · rw [decimal_length_of_ne_zero hn, Nat.log_eq_zero_iff.mpr (Or.inl h)]

theorem decimal_length_div_ten {n : Nat} (h : 10 ≤ n) :
    (decimal n).length = (decimal (n / 10)).length + 1 := by
  rw [decimal_length_of_ne_zero (by omega), decimal_length_of_ne_zero (by omega),
    Nat.log_of_one_lt_of_le (by norm_num) h]

theorem decimal_length_le {n k : Nat} (hk : 0 < k) (h : n < 10 ^ k) : (decimal n).length ≤ k := by
  rcases eq_or_ne n 0 with rfl | hn
  · exact hk
  · rw [decimal_length_of_ne_zero hn]
    exact Nat.log_lt_of_lt_pow hn h

theorem decimal_length_div_pow {n i : Nat} (hi : i < (decimal n).length) :
    (decimal (n / 10 ^ i)).length = (decimal n).length - i := by
  induction i with
  | zero => simp
  | succ i ih =>
    have hprev := ih (by omega)
    have hten : 10 ≤ n / 10 ^ i := by
      by_contra hsmall
      have := decimal_length_of_lt (show n / 10 ^ i < 10 by omega)
      omega
    have hstep := decimal_length_div_ten hten
    rw [pow_succ, ← Nat.div_div_eq_div_mul]
    omega

theorem pow_le_of_decimal_length {n k : Nat} (hk : 0 < k) (h : k < (decimal n).length) :
    10 ^ k ≤ n := by
  by_contra hlt
  have := decimal_length_le hk (show n < 10 ^ k by omega)
  omega

theorem decimal_length_le_self {n : Nat} (hn : 0 < n) : (decimal n).length ≤ n :=
  decimal_length_le hn (Nat.lt_pow_self (by norm_num))

theorem decimal_head_zero {n : Nat} (h : (decimal n).head? = some 48) : n = 0 := by
  by_contra hn
  rw [decimal_of_ne_zero hn, List.head?_map, List.head?_reverse, Option.map_eq_some_iff] at h
  obtain ⟨d,hd,hb⟩ := h
  have hne : Nat.digits 10 n ≠ [] := Nat.digits_ne_nil_iff_ne_zero.mpr hn
  have hlast := Nat.getLast_digit_ne_zero 10 hn
  rw [List.getLast?_eq_getLast_of_ne_nil hne, Option.some.injEq] at hd
  have hlt := Nat.digits_lt_base (b := 10) (by norm_num) (List.getLast_mem hne)
  rw [hd] at hlast hlt
  have h48 := congrArg UInt8.toNat hb
  rw [digitByte_toNat hlt] at h48
  exact hlast (by simpa using h48)

theorem digitsValue_append_singleton (s : Bytes) (c : UInt8) :
    digitsValue (s ++ [c]) = digitsValue s * 10 + (c.toNat - 48) := by
  simp [digitsValue]

theorem digitsValue_map_reverse {ds : List Nat} (h : ∀ d ∈ ds, d < 10) :
    digitsValue (ds.reverse.map digitByte) = Nat.ofDigits 10 ds := by
  induction ds with
  | nil => rfl
  | cons d ds ih =>
    have hd := h d List.mem_cons_self
    rw [List.reverse_cons, List.map_append, List.map_singleton, digitsValue_append_singleton,
      ih fun e he => h e (List.mem_cons_of_mem _ he), digitByte_toNat hd, Nat.ofDigits_cons]
    omega

theorem digitsValue_take_decimal (n : Nat) {c : Nat} (hc : 0 < c) :
    digitsValue ((decimal n).take c) = n / 10 ^ ((decimal n).length - c) := by
  rcases eq_or_ne n 0 with rfl | hn
  · obtain ⟨k,rfl⟩ := Nat.exists_eq_succ_of_ne_zero hc.ne'
    simp [decimal_zero, digitsValue]
  · have hlen : (decimal n).length = (Nat.digits 10 n).length := by simp [decimal_of_ne_zero hn]
    rw [Nat.self_div_pow_eq_ofDigits_drop _ n (by norm_num), hlen, decimal_of_ne_zero hn,
      ← List.map_take, List.take_reverse, digitsValue_map_reverse]
    intro d hd
    exact Nat.digits_lt_base (by norm_num) (List.mem_of_mem_drop hd)

theorem digitsValue_decimal (n : Nat) : digitsValue (decimal n) = n := by
  have h := digitsValue_take_decimal n (decimal_length_pos n)
  rwa [List.take_length, Nat.sub_self, pow_zero, Nat.div_one] at h

example : decimal 2048 = text "2048" := by decide

end Wire
