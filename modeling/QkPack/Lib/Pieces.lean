import Mathlib.Data.List.Infix

/-!
# Cutting a list at a separator

The pieces of a list between the successive leftmost occurrences of another list. The occurrences do not overlap:
behind one of them the next is looked for.
-/

namespace Pieces

variable {α : Type*}

/-- The leftmost occurrence of `sep` in `s` stands between `p` and `rest`. -/
structure Leftmost (sep s p rest : List α) : Prop where
  eq : s = p ++ sep ++ rest
  first : ∀ q r, s = q ++ sep ++ r → p.length ≤ q.length

/-- These are the pieces of a list. -/
inductive CutInto (sep : List α) : List α → List (List α) → Prop
  | last {s : List α} (hnone : ¬ sep <:+: s) : CutInto sep s [s]
  | next {s p rest : List α} {pieces : List (List α)} (hleft : Leftmost sep s p rest)
      (hrest : CutInto sep rest pieces) : CutInto sep s (p :: pieces)

section Relation

variable {sep s p p' rest rest' : List α} {pieces pieces' : List (List α)}

theorem Leftmost.isInfix (h : Leftmost sep s p rest) : sep <:+: s := ⟨p,rest,h.eq.symm⟩

theorem Leftmost.unique (h : Leftmost sep s p rest) (h' : Leftmost sep s p' rest') : p = p' ∧ rest = rest' := by
  have hlen : p.length = p'.length := le_antisymm (h.first _ _ h'.eq) (h'.first _ _ h.eq)
  have heq : p ++ (sep ++ rest) = p' ++ (sep ++ rest') := by
    rw [← List.append_assoc, ← List.append_assoc, ← h.eq, h'.eq]
  obtain ⟨hp,hbehind⟩ := List.append_inj heq hlen
  exact ⟨hp,List.append_cancel_left hbehind⟩

theorem leftmost_nil (hstarts : sep <+: s) : ∃ rest, Leftmost sep s [] rest := by
  obtain ⟨rest,rfl⟩ := hstarts
  exact ⟨rest,rfl,fun _ _ _ => Nat.zero_le _⟩

theorem Leftmost.cons {c : α} {p rest : List α} (hhead : ¬ sep <+: c :: s) (h : Leftmost sep s p rest) :
    Leftmost sep (c :: s) (c :: p) rest := by
  refine ⟨by rw [h.eq]; rfl,?_⟩
  intro q r hq
  cases q with
  | nil => exact absurd ⟨r,hq.symm⟩ hhead
  | cons d q =>
    obtain ⟨-,hs⟩ := List.cons.inj hq
    exact Nat.succ_le_succ (h.first q r hs)

theorem CutInto.ne_nil (h : CutInto sep s pieces) : pieces ≠ [] := by
  cases h with
  | last _ => exact List.cons_ne_nil _ _
  | next _ _ => exact List.cons_ne_nil _ _

theorem CutInto.unique (h : CutInto sep s pieces) (h' : CutInto sep s pieces') : pieces = pieces' := by
  induction h generalizing pieces' with
  | last hnone =>
    cases h' with
    | last _ => rfl
    | next hleft _ => exact absurd hleft.isInfix hnone
  | next hleft _ ih =>
    cases h' with
    | last hnone => exact absurd hleft.isInfix hnone
    | next hleft' hrest' =>
      obtain ⟨rfl,rfl⟩ := hleft.unique hleft'
      rw [ih hrest']

theorem CutInto.join (h : CutInto sep s pieces) : List.intercalate sep pieces = s := by
  induction h with
  | last _ => exact List.intercalate_singleton
  | next hleft hrest ih =>
    obtain ⟨piece,pieces,rfl⟩ := List.exists_cons_of_ne_nil hrest.ne_nil
    rw [List.intercalate_cons_cons, ih, hleft.eq]

end Relation

section Find

variable [DecidableEq α] {sep s : List α}

def find (sep : List α) : List α → Option Nat
  | [] => if sep = [] then some 0 else none
  | c :: s => if sep.isPrefixOf (c :: s) then some 0 else (find sep s).map (· + 1)

theorem find_eq_none_iff : find sep s = none ↔ ¬ sep <:+: s := by
  induction s with
  | nil =>
    rw [find, List.infix_nil]
    split <;> simp_all
  | cons c s ih =>
    rw [find, List.infix_cons_iff, ← List.isPrefixOf_iff_prefix]
    split
    · rename_i hstarts
      simp [hstarts]
    · rename_i hstarts
      rw [Option.map_eq_none_iff, ih]
      simp [hstarts]

theorem find_eq_some {k : Nat} (h : find sep s = some k) : ∃ p rest, Leftmost sep s p rest ∧ p.length = k := by
  induction s generalizing k with
  | nil =>
    rw [find] at h
    split at h
    · rename_i hsep
      cases h
      obtain ⟨rest,hleft⟩ := leftmost_nil (hsep ▸ List.nil_prefix : sep <+: [])
      exact ⟨[],rest,hleft,rfl⟩
    · cases h
  | cons c s ih =>
    rw [find] at h
    split at h
    · rename_i hstarts
      cases h
      obtain ⟨rest,hleft⟩ := leftmost_nil (List.isPrefixOf_iff_prefix.mp hstarts)
      exact ⟨[],rest,hleft,rfl⟩
    · rename_i hstarts
      obtain ⟨k,hk,rfl⟩ := Option.map_eq_some_iff.mp h
      obtain ⟨p,rest,hleft,hlen⟩ := ih hk
      have hhead : ¬ sep <+: c :: s := fun hp => hstarts (List.isPrefixOf_iff_prefix.mpr hp)
      exact ⟨c :: p,rest,hleft.cons hhead,by rw [List.length_cons, hlen]⟩

theorem find_of_leftmost {p rest : List α} (h : Leftmost sep s p rest) : find sep s = some p.length := by
  cases hfind : find sep s with
  | none => exact absurd h.isInfix (find_eq_none_iff.mp hfind)
  | some k =>
    obtain ⟨p',rest',hleft,rfl⟩ := find_eq_some hfind
    rw [(h.unique hleft).1]

/-- Every list has its pieces at a separator that is not empty. -/
theorem exists_cut (hsep : sep ≠ []) (s : List α) : ∃ pieces, CutInto sep s pieces := by
  -- Behind an occurrence the list is shorter.
  induction hlen : s.length using Nat.strong_induction_on generalizing s with
  | _ len ih =>
    subst hlen
    cases hfind : find sep s with
    | none => exact ⟨[s],.last (find_eq_none_iff.mp hfind)⟩
    | some k =>
      obtain ⟨p,rest,hleft,-⟩ := find_eq_some hfind
      have hshort : rest.length < s.length := by
        have hpos : 0 < sep.length := List.length_pos_iff.mpr hsep
        rw [hleft.eq, List.length_append, List.length_append]
        omega
      obtain ⟨pieces,hrest⟩ := ih _ hshort rest rfl
      exact ⟨p :: pieces,.next hleft hrest⟩

end Find

end Pieces
