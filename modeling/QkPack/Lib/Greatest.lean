import Mathlib.Data.List.DropRight
import Mathlib.Data.List.Sort
import Mathlib.Order.Defs.Unbundled

/-!
# The greatest elements of a list

A list in strictly ascending order of which the last `n` elements are kept. Elements that are inserted one by one, with
the rest cut off each time, leave the greatest ones of all.
-/

namespace Greatest

variable {α : Type} {r : α → α → Prop}

theorem rtake_of_length_le {l : List α} {n : Nat} (h : l.length ≤ n) : l.rtake n = l := by
  rw [List.rtake, Nat.sub_eq_zero_of_le h, List.drop_zero]

theorem rtake_cons {a : α} {l : List α} {n : Nat} (h : n ≤ l.length) : (a :: l).rtake n = l.rtake n := by
  rw [List.rtake, List.rtake, List.length_cons, Nat.succ_sub h, List.drop_succ_cons]

theorem length_rtake_le (l : List α) (n : Nat) : (l.rtake n).length ≤ n := by
  rw [List.rtake, List.length_drop]
  omega

theorem rtake_sublist (l : List α) (n : Nat) : (l.rtake n).Sublist l := List.drop_sublist _ _

variable [DecidableRel r]

theorem orderedInsert_of_forall {m : α} {l : List α} (h : ∀ x ∈ l, r m x) : l.orderedInsert r m = m :: l := by
  cases l with
  | nil => rfl
  | cons a l => rw [List.orderedInsert_cons, if_pos (h a List.mem_cons_self)]

theorem pairwise_orderedInsert [IsTrans α r] {m : α} {l : List α} (hl : l.Pairwise r)
    (hm : ∀ x ∈ l, ¬ r m x → r x m) : (l.orderedInsert r m).Pairwise r := by
  induction l with
  | nil => exact List.pairwise_singleton r m
  | cons a l ih =>
    obtain ⟨ha,hl⟩ := List.pairwise_cons.mp hl
    obtain ⟨hma,hrest⟩ := List.forall_mem_cons.mp hm
    rw [List.orderedInsert_cons]
    split
    · rename_i hbelow
      refine List.pairwise_cons.mpr ⟨?_,List.pairwise_cons.mpr ⟨ha,hl⟩⟩
      exact List.forall_mem_cons.mpr ⟨hbelow,fun x hx => IsTrans.trans _ _ _ hbelow (ha x hx)⟩
    · rename_i habove
      refine List.pairwise_cons.mpr ⟨?_,ih hl hrest⟩
      intro x hx
      rcases List.mem_orderedInsert r |>.mp hx with rfl | hx
      · exact hma habove
      · exact ha x hx

/-- What was cut off before an insertion would be cut off behind it. -/
theorem rtake_orderedInsert_rtake [IsTrans α r] {m : α} {l : List α} (hl : l.Pairwise r) (n : Nat) :
    ((l.rtake n).orderedInsert r m).rtake n = (l.orderedInsert r m).rtake n := by
  induction l with
  | nil =>
    have hnil : ([] : List α).rtake n = [] := rtake_of_length_le (Nat.zero_le n)
    rw [hnil]
  | cons a l ih =>
    obtain ⟨ha,hl⟩ := List.pairwise_cons.mp hl
    by_cases hn : n ≤ l.length
    · rw [rtake_cons hn, ih hl, List.orderedInsert_cons]
      split
      · rename_i hbelow
        have hall : ∀ x ∈ l, r m x := fun x hx => IsTrans.trans _ _ _ hbelow (ha x hx)
        rw [orderedInsert_of_forall hall, rtake_cons hn, rtake_cons (Nat.le_succ_of_le hn), rtake_cons hn]
      · rw [rtake_cons]
        rw [List.orderedInsert_length]
        exact Nat.le_succ_of_le hn
    · have hall : (a :: l).rtake n = a :: l := rtake_of_length_le (by rw [List.length_cons]; omega)
      rw [hall]

/-- The last `n` elements are those with fewer than `n` above them. -/
theorem mem_rtake_iff [IsTrans α r] [Std.Irrefl r] {l : List α} (hl : l.Pairwise r) {n : Nat} {p : α} :
    p ∈ l.rtake n ↔ p ∈ l ∧ (l.filter fun x => r p x).length < n := by
  induction l with
  | nil => simp [List.rtake]
  | cons a l ih =>
    obtain ⟨ha,hl⟩ := List.pairwise_cons.mp hl
    by_cases hn : n ≤ l.length
    · rw [rtake_cons hn, ih hl, List.mem_cons]
      constructor
      · rintro ⟨hp,hfew⟩
        have hnot : ¬ r p a := fun h => Std.Irrefl.irrefl p (IsTrans.trans _ _ _ h (ha p hp))
        rw [List.filter_cons_of_neg (by simpa using hnot)]
        exact ⟨.inr hp,hfew⟩
      · rintro ⟨rfl | hp,hfew⟩
        · -- the lowest element has all others above it
          have hself : ¬ r p p := Std.Irrefl.irrefl p
          have habove : (l.filter fun x => r p x) = l := List.filter_eq_self.mpr (by simpa using ha)
          rw [List.filter_cons_of_neg (by simpa using hself), habove] at hfew
          omega
        · have hnot : ¬ r p a := fun h => Std.Irrefl.irrefl p (IsTrans.trans _ _ _ h (ha p hp))
          rw [List.filter_cons_of_neg (by simpa using hnot)] at hfew
          exact ⟨hp,hfew⟩
    · rw [rtake_of_length_le (by rw [List.length_cons]; omega)]
      refine ⟨fun hp => ⟨hp,?_⟩,And.left⟩
      have hself : ¬ r p p := Std.Irrefl.irrefl p
      have hless : ((a :: l).filter fun x => r p x).length < (a :: l).length := by
        rw [List.length_filter_lt_length_iff_exists]
        exact ⟨p,hp,by simpa using hself⟩
      rw [List.length_cons] at hless
      omega

end Greatest
