import QkPack.Lib.Crc

/-!
# Reflected checks

Cyclic redundancy checks that take the least significant bit first, for any width and polynomial: bit by bit, a byte
at a time, and several bytes at once. The check is linear in its register and its message, so that every byte of a
message can be looked up on its own, in a table for its distance from the end.
-/

namespace CrcLow

open Crc

variable {w : Nat} (poly : BitVec w)

def lsbFirst (w : Nat) : Register w where
  leaving c := c.getLsbD 0
  moved c := c >>> 1
  leaving_xor _ _ := BitVec.getLsbD_xor
  moved_xor c d := BitVec.ushiftRight_xor_distrib c d 1

theorem bitStep_lsbFirst (c : BitVec w) (bit : Bool) :
    (lsbFirst w).bitStep poly c bit = if c.getLsbD 0 ^^ bit then (c >>> 1) ^^^ poly else c >>> 1 := rfl

/-- The first `n` bits of a word, from its least significant one. -/
def lowBits {v : Nat} (n : Nat) (x : BitVec v) : List Bool := (List.range n).map x.getLsbD

def check (init : BitVec w) (message : List UInt8) : BitVec w :=
  (lsbFirst w).feed poly init (message.flatMap fun b => lowBits 8 b.toBitVec)

/-- The entry of a byte in the table for bytes that are followed by `k` others. -/
def slice : Nat → BitVec 8 → BitVec w
  | 0, b => (lsbFirst w).feed poly 0#w (lowBits 8 b)
  | k + 1, b => (lsbFirst w).feed poly (slice k b) (List.replicate 8 false)

theorem check_append (c : BitVec w) (s t : List UInt8) : check poly c (s ++ t) = check poly (check poly c s) t := by
  rw [check, List.flatMap_append, Register.feed_append]
  rfl

theorem moved_lsbFirst (c : BitVec w) (n : Nat) : (lsbFirst w).moved^[n] c = c >>> n := by
  induction n with
  | zero => exact (BitVec.ushiftRight_zero c).symm
  | succ n ih =>
    rw [Function.iterate_succ_apply', ih]
    exact (BitVec.shiftRight_add c n 1).symm

theorem leaving_lsbFirst (c : BitVec w) (i : Nat) : (lsbFirst w).leaving ((lsbFirst w).moved^[i] c) = c.getLsbD i := by
  rw [moved_lsbFirst]
  exact BitVec.getLsbD_ushiftRight c i 0

theorem feed_byte (c : BitVec w) (b : BitVec 8) :
    (lsbFirst w).feed poly c (lowBits 8 b) = (c >>> 8) ^^^ slice poly 0 (c.setWidth 8 ^^^ b) := by
  rw [lowBits, Register.feed_split, moved_lsbFirst, slice, lowBits]
  refine congrArg (fun bits => c >>> 8 ^^^ (lsbFirst w).feed poly 0#w bits) (List.map_congr_left fun i hi => ?_)
  have hi : i < 8 := List.mem_range.mp hi
  rw [leaving_lsbFirst, BitVec.getLsbD_xor, BitVec.getLsbD_setWidth, decide_eq_true hi, Bool.true_and]

theorem slice_succ (k : Nat) (b : BitVec 8) :
    slice poly (k + 1) b = (slice poly k b >>> 8) ^^^ slice poly 0 ((slice poly k b).setWidth 8) := by
  have hzeros : List.replicate 8 false = lowBits 8 0#8 := by decide
  exact (congrArg ((lsbFirst w).feed poly (slice poly k b)) hzeros).trans (by rw [feed_byte, BitVec.xor_zero])

theorem feed_slice (k : Nat) (b : BitVec 8) :
    (lsbFirst w).feed poly (slice poly 0 b) (List.replicate (8 * k) false) = slice poly k b := by
  induction k with
  | zero => rfl
  | succ k ih => rw [Nat.mul_succ, List.replicate_add, Register.feed_append, ih, slice]

theorem length_flatMap_lowBits (message : List UInt8) :
    (message.flatMap fun b => lowBits 8 b.toBitVec).length = 8 * message.length := by
  simp [List.length_flatMap, lowBits, Nat.mul_comm]

/-- The first byte of a message is looked up in the table for its distance from the end, and the rest of the message
goes on without it. -/
theorem check_cons (c : BitVec w) (b : UInt8) (rest : List UInt8) :
    check poly c (b :: rest) =
      check poly (c >>> 8) rest ^^^ slice poly rest.length (c.setWidth 8 ^^^ b.toBitVec) := by
  rw [check, List.flatMap_cons, Register.feed_append, feed_byte, Register.feed_xor_zeros, length_flatMap_lowBits,
    feed_slice]
  rfl

section Bursts
variable {poly} (hpoly : poly.getLsbD (w - 1) = true) (hw : 0 < w)
include hpoly hw

theorem getLsbD_bitStep_top (c : BitVec w) (bit : Bool) :
    ((lsbFirst w).bitStep poly c bit).getLsbD (w - 1) = (c.getLsbD 0 ^^ bit) := by
  have htop : (c >>> 1).getLsbD (w - 1) = false := by
    rw [BitVec.getLsbD_ushiftRight]
    exact BitVec.getLsbD_of_ge c _ (by omega)
  rw [bitStep_lsbFirst]
  split
  case isTrue hbit => rw [BitVec.getLsbD_xor, htop, hpoly, hbit, Bool.false_xor]
  case isFalse hbit => rw [htop, eq_false_of_ne_true hbit]

/-- Steps with one bit above: the registers before them agree a place higher. -/
theorem getLsbD_of_bitStep {c d : BitVec w} {x y : Bool} {n : Nat} (hn : n < w)
    (h : ∀ i, n ≤ i → ((lsbFirst w).bitStep poly c x).getLsbD i = ((lsbFirst w).bitStep poly d y).getLsbD i) :
    (c.getLsbD 0 ^^ x) = (d.getLsbD 0 ^^ y) ∧ ∀ i, n + 1 ≤ i → c.getLsbD i = d.getLsbD i := by
  have hbit : (c.getLsbD 0 ^^ x) = (d.getLsbD 0 ^^ y) := by
    have htop := h (w - 1) (by omega)
    rwa [getLsbD_bitStep_top hpoly hw, getLsbD_bitStep_top hpoly hw] at htop
  refine ⟨hbit,fun i hi => ?_⟩
  have hi' := h (i - 1) (by omega)
  have hback : 1 + (i - 1) = i := by omega
  rw [bitStep_lsbFirst, bitStep_lsbFirst, hbit] at hi'
  split at hi'
  · rw [BitVec.getLsbD_xor, BitVec.getLsbD_xor, Bool.xor_left_inj] at hi'
    rwa [BitVec.getLsbD_ushiftRight, BitVec.getLsbD_ushiftRight, hback] at hi'
  · rwa [BitVec.getLsbD_ushiftRight, BitVec.getLsbD_ushiftRight, hback] at hi'

theorem getLsbD_of_feed {c d : BitVec w} {xs ys : List Bool} (hlen : xs.length = ys.length) (hle : xs.length ≤ w)
    (h : (lsbFirst w).feed poly c xs = (lsbFirst w).feed poly d ys) :
    ∀ i, xs.length ≤ i → c.getLsbD i = d.getLsbD i := by
  induction xs generalizing c d ys with
  | nil =>
    rw [List.eq_nil_of_length_eq_zero hlen.symm] at h
    intro i _
    exact congrArg (BitVec.getLsbD · i) h
  | cons x xs ih =>
    obtain ⟨y,ys,rfl⟩ := List.exists_cons_of_length_pos (Nat.lt_of_lt_of_eq (Nat.succ_pos _) hlen)
    rw [List.length_cons, List.length_cons, Nat.add_right_cancel_iff] at hlen
    rw [List.length_cons] at hle
    exact (getLsbD_of_bitStep hpoly hw hle (ih hlen (Nat.le_of_succ_le hle) h)).2

theorem feed_burst {c : BitVec w} {xs ys : List Bool} (hlen : xs.length = ys.length) (hle : xs.length ≤ w)
    (h : (lsbFirst w).feed poly c xs = (lsbFirst w).feed poly c ys) : xs = ys := by
  induction xs generalizing c ys with
  | nil => exact (List.eq_nil_of_length_eq_zero hlen.symm).symm
  | cons x xs ih =>
    obtain ⟨y,ys,rfl⟩ := List.exists_cons_of_length_pos (Nat.lt_of_lt_of_eq (Nat.succ_pos _) hlen)
    rw [List.length_cons, List.length_cons, Nat.add_right_cancel_iff] at hlen
    rw [List.length_cons] at hle
    have hagree := getLsbD_of_feed hpoly hw hlen (Nat.le_of_succ_le hle) h
    have hxy : x = y := Bool.xor_right_inj.mp (getLsbD_of_bitStep hpoly hw hle hagree).1
    subst hxy
    rw [ih hlen (Nat.le_of_succ_le hle) h]

theorem feed_register {c d : BitVec w} {bits : List Bool}
    (h : (lsbFirst w).feed poly c bits = (lsbFirst w).feed poly d bits) : c = d := by
  induction bits generalizing c d with
  | nil => exact h
  | cons bit bits ih =>
    have hstep : (lsbFirst w).bitStep poly c bit = (lsbFirst w).bitStep poly d bit := ih h
    have hback := getLsbD_of_bitStep hpoly hw hw fun i _ => congrArg (BitVec.getLsbD · i) hstep
    apply BitVec.eq_of_getLsbD_eq
    intro i hi
    cases i with
    | zero => exact Bool.xor_left_inj.mp hback.1
    | succ i => exact hback.2 (i + 1) (Nat.le_add_left 1 i)

end Bursts

end CrcLow
