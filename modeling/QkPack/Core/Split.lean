import QkPack.Core.Cluster
import QkPack.Lib.Pieces

/-!
# Cutting a text

`StringUtil::Split` walks over a text with two positions. Its result is compared with the pieces of the text, and
with the scan that the redirections and the slot tables are read with.
-/

namespace QkPack
open Wire CString Resp Pieces

/-- `str.find (sep,n)`, and `none` for `npos`. -/
def strFind (str sep : Bytes) (n : Nat) : Option Nat :=
  if n ≤ str.length then (Pieces.find sep (str.drop n)).map (n + ·) else none

/-- `str.substr (pos,len)`. -/
def substr (str : Bytes) (pos len : Nat) : Bytes := (str.drop pos).take len

/-- The loop of `Split`, up to the place behind the last occurrence; `none` when the fuel runs out. -/
def splitLoop (str sep : Bytes) (ignoreEmpty : Bool) : Nat → Nat → Nat → List Bytes → Option (Nat × List Bytes)
  | 0, _, _, _ => none
  | fuel + 1, n, old, vec =>
    match strFind str sep n with
    | none => some (old,vec)
    | some n =>
      let vec := if !ignoreEmpty || n != old then vec ++ [substr str old (n - old)] else vec
      splitLoop str sep ignoreEmpty fuel (n + sep.length) (n + sep.length) vec

/-- What `Split` does behind the loop. -/
def splitTail (str : Bytes) (ignoreEmpty : Bool) (old : Nat) (vec : List Bytes) : List Bytes :=
  if !ignoreEmpty || old < str.length then vec ++ [substr str old (str.length - old)] else vec

/-- `StringUtil::Split`. -/
def stringSplit (fuel : Nat) (text sep : Bytes) (ignoreEmpty : Bool) : Option (List Bytes) :=
  (splitLoop text sep ignoreEmpty fuel 0 0 []).map fun (old,vec) => splitTail text ignoreEmpty old vec

def kept (ignoreEmpty : Bool) (pieces : List Bytes) : List Bytes :=
  if ignoreEmpty then pieces.filter (· ≠ []) else pieces

section Loop

variable {str sep p rest : Bytes} {pieces : List Bytes} {ignoreEmpty : Bool} {n fuel : Nat}

theorem kept_cons : kept ignoreEmpty (p :: pieces) =
    (if !ignoreEmpty || p ≠ [] then [p] else []) ++ kept ignoreEmpty pieces := by
  cases ignoreEmpty <;> by_cases hp : p = [] <;> simp [kept, hp]

theorem strFind_of_not_infix (h : ¬ sep <:+: str.drop n) : strFind str sep n = none := by
  rw [strFind, find_eq_none_iff.mpr h, Option.map_none, ite_self]

theorem strFind_of_leftmost (hn : n ≤ str.length) (h : Leftmost sep (str.drop n) p rest) :
    strFind str sep n = some (n + p.length) := by
  rw [strFind, if_pos hn, find_of_leftmost h, Option.map_some]

theorem substr_of_leftmost (h : Leftmost sep (str.drop n) p rest) : substr str n p.length = p := by
  rw [substr, h.eq, List.append_assoc, List.take_left]

theorem drop_of_leftmost (h : Leftmost sep (str.drop n) p rest) : str.drop (n + p.length + sep.length) = rest := by
  rw [Nat.add_assoc, ← List.drop_drop, h.eq, ← List.length_append, List.drop_left]

theorem splitTail_eq (hn : n ≤ str.length) (vec : List Bytes) :
    splitTail str ignoreEmpty n vec = vec ++ kept ignoreEmpty [str.drop n] := by
  have hsub : substr str n (str.length - n) = str.drop n := by
    rw [substr, ← List.length_drop, List.take_length]
  have hne : str.drop n ≠ [] ↔ n < str.length := by
    rw [← List.length_pos_iff, List.length_drop]
    omega
  rw [splitTail, hsub, kept_cons]
  cases ignoreEmpty <;> by_cases hlt : n < str.length <;> simp [kept, hlt, hne]

theorem splitLoop_cut (hsep : sep ≠ []) (hn : n ≤ str.length) (h : CutInto sep (str.drop n) pieces)
    (hfuel : str.length - n < fuel) (vec : List Bytes) :
    (splitLoop str sep ignoreEmpty fuel n n vec).map (fun (old,vec) => splitTail str ignoreEmpty old vec) =
      some (vec ++ kept ignoreEmpty pieces) := by
  -- The induction is over the pieces; each round passes an occurrence, which is not empty.
  generalize hs : str.drop n = s at h
  induction h generalizing n fuel vec with
  | last hnone =>
    subst hs
    obtain ⟨fuel,rfl⟩ := Nat.exists_eq_add_of_lt (Nat.zero_lt_of_lt hfuel)
    rw [Nat.zero_add, splitLoop, strFind_of_not_infix hnone, Option.map_some]
    exact congrArg some (splitTail_eq hn vec)
  | @next s p rest pieces hleft hrest ih =>
    subst hs
    obtain ⟨fuel,rfl⟩ := Nat.exists_eq_add_of_lt (Nat.zero_lt_of_lt hfuel)
    have hpos : 0 < sep.length := List.length_pos_iff.mpr hsep
    have hbehind : n + p.length + sep.length ≤ str.length := by
      have hlen := congrArg List.length hleft.eq
      rw [List.length_drop, List.length_append, List.length_append] at hlen
      omega
    rw [Nat.zero_add, splitLoop, strFind_of_leftmost hn hleft]
    simp only [Nat.add_sub_cancel_left, substr_of_leftmost hleft]
    rw [ih hbehind (by omega) _ (drop_of_leftmost hleft), kept_cons]
    cases ignoreEmpty <;> cases p <;> simp

theorem stringSplit_cut (hsep : sep ≠ []) (h : CutInto sep str pieces) (hfuel : str.length < fuel) :
    stringSplit fuel str sep ignoreEmpty = some (kept ignoreEmpty pieces) :=
  splitLoop_cut hsep (Nat.zero_le _) h hfuel []

end Loop

section Scan

variable {sep s p rest piece : Bytes} {pieces : List Bytes}

theorem splitFrom_skip (q : Bytes) : splitFrom sep piece q.length (q ++ s) = splitFrom sep piece 0 s := by
  induction q with
  | nil => rfl
  | cons c q ih => rw [List.length_cons, List.cons_append, splitFrom, ih]

theorem splitFrom_of_not_occurs (h : ¬ sep <:+: s) : splitFrom sep piece 0 s = [piece ++ s] := by
  induction s generalizing piece with
  | nil => rw [splitFrom, List.append_nil]
  | cons c s ih =>
    rw [List.infix_cons_iff, not_or] at h
    rw [splitFrom, if_neg fun hstarts => h.1 (List.isPrefixOf_iff_prefix.mp hstarts), ih h.2, List.append_assoc,
      List.singleton_append]

theorem splitFrom_of_leftmost (hsep : sep ≠ []) (h : Leftmost sep s p rest) :
    splitFrom sep piece 0 s = (piece ++ p) :: splitFrom sep [] 0 rest := by
  induction p generalizing s piece with
  | nil =>
    obtain ⟨c,sep,rfl⟩ := List.exists_cons_of_ne_nil hsep
    have hhead : (c :: sep).isPrefixOf (c :: (sep ++ rest)) = true := List.isPrefixOf_iff_prefix.mpr ⟨rest,rfl⟩
    rw [h.eq, List.nil_append, List.cons_append, splitFrom, if_pos hhead, List.length_cons, Nat.add_sub_cancel,
      splitFrom_skip, List.append_nil]
  | cons c p ih =>
    have hs : s = c :: (p ++ sep ++ rest) := h.eq
    have hhead : ¬ sep.isPrefixOf (c :: (p ++ sep ++ rest)) = true := by
      intro hstarts
      obtain ⟨r,hr⟩ := List.isPrefixOf_iff_prefix.mp hstarts
      exact absurd (h.first [] r (hs.trans hr.symm)) (by simp)
    have htail : Leftmost sep (p ++ sep ++ rest) p rest := by
      refine ⟨rfl,fun q r hq => ?_⟩
      have hlen := h.first (c :: q) r (by rw [hs, hq]; rfl)
      exact Nat.le_of_succ_le_succ hlen
    rw [hs, splitFrom, if_neg hhead, ih htail, List.append_assoc, List.singleton_append]

theorem splitFrom_cutInto (hsep : sep ≠ []) (h : CutInto sep s pieces) : splitFrom sep [] 0 s = pieces := by
  induction h with
  | last hnone => rw [splitFrom_of_not_occurs hnone, List.nil_append]
  | next hleft _ ih => rw [splitFrom_of_leftmost hsep hleft, ih, List.nil_append]

theorem stringSplit_eq_split {fuel : Nat} (hsep : sep ≠ []) (hfuel : s.length < fuel) :
    stringSplit fuel s sep true = some (split s sep) := by
  obtain ⟨pieces,hcut⟩ := exists_cut hsep s
  rw [stringSplit_cut hsep hcut hfuel, split, splitFrom_cutInto hsep hcut, kept, if_pos rfl]

end Scan

/-- For a separator that is not empty `Split` ends. It gives the pieces between the successive leftmost occurrences,
of which there is one list and which give the text when they are joined, or those of them that are not empty. -/
theorem stringSplit_spec (text sep : Bytes) (hsep : sep ≠ []) :
    ∃ pieces, CutInto sep text pieces ∧ (∀ others, CutInto sep text others → others = pieces) ∧
      List.intercalate sep pieces = text ∧
      ∀ fuel, text.length < fuel → stringSplit fuel text sep false = some pieces ∧
        stringSplit fuel text sep true = some (pieces.filter (· ≠ [])) := by
  obtain ⟨pieces,hcut⟩ := exists_cut hsep text
  refine ⟨pieces,hcut,fun others hothers => hothers.unique hcut,hcut.join,fun fuel hfuel => ⟨?_,?_⟩⟩
  · exact stringSplit_cut hsep hcut hfuel
  · exact stringSplit_cut hsep hcut hfuel

/-- A separator of two bytes that overlaps itself, at both ends and twice in a row. -/
theorem stringSplit_spec_overlap :
    text "::" ≠ [] ∧ stringSplit 12 (text ":::a::::b::") (text "::") false =
        some [[],text ":a",[],text "b",[]] ∧
      ∃ pieces, CutInto (text "::") (text ":::a::::b::") pieces ∧
        stringSplit 12 (text ":::a::::b::") (text "::") true = some (pieces.filter (· ≠ [])) := by
  have hsep : text "::" ≠ [] := by decide
  obtain ⟨pieces,hcut,-,-,hsplit⟩ := stringSplit_spec (text ":::a::::b::") (text "::") hsep
  exact ⟨hsep,by decide +kernel,pieces,hcut,(hsplit 12 (by decide)).2⟩

end QkPack
