import Mathlib.Algebra.Order.Ring.Unbundled.Rat
import Mathlib.Data.Prod.Lex
import QkPack.Lib.CString

/-!
# Doubles as text

The values of a C `double` but NaN, what `printf` shows of them under `%lf`, and what is left of them in a signed
64-bit integer. `strtod` gives an infinity for a number that is too great. A negative zero is the same value as zero
here.
-/

namespace CString
open Wire

inductive Double where
  | finite (value : ℚ)
  | infinite (negative : Bool)
deriving DecidableEq

def Double.isFinite : Double → Bool
  | .finite _ => true
  | .infinite _ => false

/-- The infinities stand on both sides of the finite values. -/
def Double.place : Double → Int ×ₗ ℚ
  | .finite q => toLex (0,q)
  | .infinite negative => toLex (if negative then -1 else 1,0)

theorem Double.place_injective : Function.Injective Double.place := by
  rintro (q | negative) (r | negative') h <;> obtain ⟨hsign,hvalue⟩ := Prod.ext_iff.mp (toLex.injective h)
  · exact congrArg finite hvalue
  · cases negative' <;> simp at hsign
  · cases negative <;> simp at hsign
  · cases negative <;> cases negative' <;> simp at hsign ⊢

instance : LinearOrder Double := LinearOrder.lift' Double.place Double.place_injective

theorem Double.finite_lt_finite {q r : ℚ} : Double.finite q < .finite r ↔ q < r := by
  change toLex ((0 : Int),q) < toLex (0,r) ↔ q < r
  simp [Prod.Lex.toLex_lt_toLex]

/-- The absolute value in millionths, rounded to the nearest and in the middle to the even one. -/
def millionths (q : ℚ) : Nat :=
  let n := q.num.natAbs * 10 ^ 6
  let k := n / q.den
  let twice := 2 * (n % q.den)
  if twice < q.den ∨ twice = q.den ∧ k % 2 = 0 then k else k + 1

def sixDigits (n : Nat) : Bytes :=
  [100000,10000,1000,100,10,1].map fun unit => digitByte (n / unit % 10)

/-- The text under `%lf`. -/
def Double.shown : Double → Bytes
  | .finite q =>
    (if q < 0 then [45] else []) ++ decimal (millionths q / 10 ^ 6) ++ 46 :: sixDigits (millionths q % 10 ^ 6)
  | .infinite negative => (if negative then [45] else []) ++ text "inf"

/-- The value without its fraction; an infinity has none. -/
def Double.truncated : Double → Option Int
  | .finite q => some (q.num.tdiv q.den)
  | .infinite _ => none

/-- The cast to `int64_t`; outside of the range the processor gives the smallest number. -/
def Double.whole (d : Double) : Int :=
  match d.truncated with
  | some n => if -2 ^ 63 ≤ n ∧ n < 2 ^ 63 then n else -2 ^ 63
  | none => -2 ^ 63

theorem Double.whole_of_range {d : Double} {n : Int} (h : d.truncated = some n) (hl : -2 ^ 63 ≤ n) (hu : n < 2 ^ 63) :
    d.whole = n := by
  simp only [whole, h, if_pos (And.intro hl hu)]

theorem Double.shown_getLast_ne_zero (d : Double) : d.shown.getLast? ≠ some 0 := by
  cases d with
  | finite q =>
    intro h
    have hlast : (Double.finite q).shown.getLast? = some (digitByte (millionths q % 10 ^ 6 / 1 % 10)) := by
      rw [Double.shown, List.getLast?_append_of_ne_nil _ (List.cons_ne_nil _ _)]
      rfl
    have hdigit := isDigit_digitByte (Nat.mod_lt (millionths q % 10 ^ 6 / 1) (by norm_num : 0 < 10))
    rw [hlast, Option.some.injEq] at h
    rw [h] at hdigit
    revert hdigit
    decide
  | infinite negative => cases negative <;> decide

example : (Double.finite (-5 / 4)).shown = text "-1.250000" ∧ (Double.finite (-5 / 4)).whole = -1 ∧
    (Double.infinite true).shown = text "-inf" := by
  decide +kernel

example : Double.infinite true < .finite (-3) ∧ Double.finite 2 < .infinite false := by decide +kernel

end CString
