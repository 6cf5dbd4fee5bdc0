import Mathlib.Data.List.Basic
import Mathlib.Logic.Function.Iterate

/-!
# Cyclic redundancy checks

The check of a message bit by bit, in a register that moves either way, for any width and polynomial. A step is linear
in the register and the bit, so that a register and a message can be fed apart. With the most significant bit first,
the same check a byte at a time from a table.
-/

namespace Crc

/-- A shift register: the bit that leaves it, and the others moved by one place. -/
structure Register (w : Nat) where
  leaving : BitVec w → Bool
  moved : BitVec w → BitVec w
  leaving_xor : ∀ c d, leaving (c ^^^ d) = (leaving c ^^ leaving d)
  moved_xor : ∀ c d, moved (c ^^^ d) = moved c ^^^ moved d

namespace Register

variable {w : Nat} (g : Register w) (poly : BitVec w)

/-- One bit of the message: the register moves, and the polynomial is subtracted when the bit that leaves it differs
from the one of the message. -/
def bitStep (c : BitVec w) (bit : Bool) : BitVec w :=
  if g.leaving c ^^ bit then g.moved c ^^^ poly else g.moved c

def feed (c : BitVec w) (bits : List Bool) : BitVec w := bits.foldl (g.bitStep poly) c

theorem feed_cons (c : BitVec w) (bit : Bool) (bits : List Bool) :
    g.feed poly c (bit :: bits) = g.feed poly (g.bitStep poly c bit) bits := rfl

theorem feed_append (c : BitVec w) (xs ys : List Bool) :
    g.feed poly c (xs ++ ys) = g.feed poly (g.feed poly c xs) ys := List.foldl_append

theorem bitStep_xor (c d : BitVec w) (x y : Bool) :
    g.bitStep poly (c ^^^ d) (x ^^ y) = g.bitStep poly c x ^^^ g.bitStep poly d y := by
  have hbit : (g.leaving (c ^^^ d) ^^ (x ^^ y)) = ((g.leaving c ^^ x) ^^ (g.leaving d ^^ y)) := by
    rw [g.leaving_xor]
    cases g.leaving c <;> cases g.leaving d <;> cases x <;> cases y <;> rfl
  unfold bitStep
  rw [hbit, g.moved_xor]
  cases (g.leaving c ^^ x) <;> cases (g.leaving d ^^ y)
  · rfl
  · simp only [Bool.false_xor, Bool.false_eq_true, if_true, if_false, BitVec.xor_assoc]
  · simp only [Bool.xor_false, Bool.false_eq_true, if_true, if_false]
    rw [BitVec.xor_assoc, BitVec.xor_comm (g.moved d), ← BitVec.xor_assoc]
  · simp only [Bool.xor_self, Bool.false_eq_true, if_true, if_false]
    rw [BitVec.xor_assoc, ← BitVec.xor_assoc poly, BitVec.xor_comm poly, BitVec.xor_assoc (g.moved d),
      BitVec.xor_self, BitVec.xor_zero]

theorem feed_xor {α : Type} (c d : BitVec w) (f g' : α → Bool) (is : List α) :
    g.feed poly (c ^^^ d) (is.map fun i => f i ^^ g' i) =
      g.feed poly c (is.map f) ^^^ g.feed poly d (is.map g') := by
  induction is generalizing c d with
  | nil => rfl
  | cons i is ih => rw [List.map_cons, List.map_cons, List.map_cons, feed_cons, feed_cons, feed_cons, bitStep_xor, ih]

theorem feed_xor_zeros (c d : BitVec w) (bits : List Bool) :
    g.feed poly (c ^^^ d) bits = g.feed poly c bits ^^^ g.feed poly d (List.replicate bits.length false) := by
  have hsum := feed_xor g poly c d id (fun _ => false) bits
  simpa using hsum

theorem feed_leaving (c : BitVec w) (n : Nat) :
    g.feed poly c ((List.range n).map fun i => g.leaving (g.moved^[i] c)) = g.moved^[n] c := by
  induction n with
  | zero => rfl
  | succ n ih =>
    have hself : (g.leaving (g.moved^[n] c) ^^ g.leaving (g.moved^[n] c)) = false := Bool.xor_self _
    rw [List.range_succ, List.map_append, feed_append, ih, Function.iterate_succ_apply', List.map_singleton,
      feed_cons, bitStep, hself, if_neg Bool.false_ne_true]
    rfl

/-- A message is fed as the bits that leave the register, and what differs from them as a message of its own. -/
theorem feed_split (c : BitVec w) (n : Nat) (f : Nat → Bool) :
    g.feed poly c ((List.range n).map f) =
      g.moved^[n] c ^^^ g.feed poly 0#w ((List.range n).map fun i => g.leaving (g.moved^[i] c) ^^ f i) := by
  rw [← feed_leaving g poly c n, ← feed_xor, BitVec.xor_zero]
  refine congrArg (g.feed poly c) (List.map_congr_left fun i _ => ?_)
  rw [← Bool.xor_assoc, Bool.xor_self, Bool.false_xor]

end Register

variable {w : Nat} (poly : BitVec w)

def msbFirst (w : Nat) : Register w where
  leaving := BitVec.msb
  moved c := c <<< 1
  leaving_xor _ _ := BitVec.msb_xor
  moved_xor c d := BitVec.shiftLeft_xor_distrib c d 1

/-- The first `n` bits of a word, from its most significant one. -/
def topBits {v : Nat} (n : Nat) (x : BitVec v) : List Bool := (List.range n).map x.getMsbD

def check (init : BitVec w) (message : List UInt8) : BitVec w :=
  (msbFirst w).feed poly init (message.flatMap fun b => topBits 8 b.toBitVec)

def table (b : BitVec 8) : BitVec w := (msbFirst w).feed poly 0#w (topBits 8 b)

/-- A byte from the table: its entry is the one of the byte that leaves the register, changed by the byte of the
message. -/
def byteStep (c : BitVec w) (b : UInt8) : BitVec w :=
  (c <<< 8) ^^^ table poly ((c >>> (w - 8)).setWidth 8 ^^^ b.toBitVec)

theorem moved_msbFirst (c : BitVec w) (n : Nat) : (msbFirst w).moved^[n] c = c <<< n := by
  induction n with
  | zero => exact (BitVec.shiftLeft_zero c).symm
  | succ n ih =>
    rw [Function.iterate_succ_apply', ih]
    exact (BitVec.shiftLeft_add c n 1).symm

theorem leaving_msbFirst (hw : 8 ≤ w) (c : BitVec w) {i : Nat} (hi : i < 8) :
    (msbFirst w).leaving ((msbFirst w).moved^[i] c) = ((c >>> (w - 8)).setWidth 8).getMsbD i := by
  have hplace : w - 8 + (8 - 1 - i) = w - 1 - i := by omega
  have hleaving : (msbFirst w).leaving (c <<< i) = c.getMsbD i := by
    refine (BitVec.getMsbD_shiftLeft c i).trans ?_
    rw [Nat.zero_add]
  rw [moved_msbFirst, hleaving]
  simp only [BitVec.getMsbD_eq_getLsbD, BitVec.getLsbD_setWidth, BitVec.getLsbD_ushiftRight, hplace, hi,
    show 8 - 1 - i < 8 by omega, show i < w by omega, decide_true, Bool.true_and]

theorem feed_byte (hw : 8 ≤ w) (c : BitVec w) (b : UInt8) :
    (msbFirst w).feed poly c (topBits 8 b.toBitVec) = byteStep poly c b := by
  rw [topBits, Register.feed_split, moved_msbFirst, byteStep, table, topBits]
  refine congrArg (fun bits => c <<< 8 ^^^ (msbFirst w).feed poly 0#w bits) (List.map_congr_left fun i hi => ?_)
  rw [leaving_msbFirst hw c (List.mem_range.mp hi), BitVec.getMsbD_xor]

theorem check_eq_foldl (hw : 8 ≤ w) (init : BitVec w) (message : List UInt8) :
    check poly init message = message.foldl (byteStep poly) init := by
  induction message generalizing init with
  | nil => rfl
  | cons b message ih =>
    rw [check, List.flatMap_cons, Register.feed_append, feed_byte poly hw, List.foldl_cons, ← ih]
    rfl

end Crc
