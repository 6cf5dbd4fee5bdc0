import Mathlib.Data.List.Basic
import Mathlib.Order.Defs.Unbundled

/-!
# Maps as lists in the order of their keys

A map from ordered keys is the list of its entries, as an iteration over it meets them.
-/

namespace SortedMap

variable {κ β : Type}

def Sorted [LT κ] (m : List (κ × β)) : Prop := (m.map (·.1)).Pairwise (· < ·)

theorem sorted_nil [LT κ] : Sorted ([] : List (κ × β)) := List.Pairwise.nil

theorem sorted_cons [LT κ] {k : κ} {b : β} {m : List (κ × β)} :
    Sorted ((k,b) :: m) ↔ (∀ k' ∈ m.map (·.1), k < k') ∧ Sorted m := by
  unfold Sorted
  rw [List.map_cons, List.pairwise_cons]

theorem Sorted.nodup [LT κ] [Std.Irrefl (α := κ) (· < ·)] {m : List (κ × β)} (h : Sorted m) :
    (m.map (·.1)).Nodup := by
  apply h.imp
  intro a b hab heq
  subst heq
  exact Std.Irrefl.irrefl a hab

theorem lookup_eq_none [BEq κ] [LawfulBEq κ] {k : κ} {m : List (κ × β)} (h : k ∉ m.map (·.1)) : m.lookup k = none := by
  rw [List.lookup_eq_none_iff]
  intro entry hentry
  rw [bne_iff_ne]
  intro heq
  exact h (heq ▸ List.mem_map_of_mem hentry)

variable [DecidableEq κ]

theorem lookup_cons_ite [BEq κ] [LawfulBEq κ] {k k' : κ} {b : β} {m : List (κ × β)} :
    ((k',b) :: m).lookup k = if k = k' then some b else m.lookup k := by
  rw [List.lookup_cons]
  by_cases h : k = k'
  · subst h
    simp
  · rw [beq_eq_false_iff_ne.mpr h, if_neg h]

theorem lookup_eq_some_iff [BEq κ] [LawfulBEq κ] [LT κ] [Std.Irrefl (α := κ) (· < ·)] {k : κ}
    {b : β} {m : List (κ × β)} (h : Sorted m) : m.lookup k = some b ↔ (k,b) ∈ m := by
  induction m with
  | nil => simp
  | cons entry m ih =>
    obtain ⟨k',b'⟩ := entry
    obtain ⟨hlt,hm⟩ := sorted_cons.mp h
    rw [lookup_cons_ite, List.mem_cons, Prod.mk.injEq]
    by_cases hk : k = k'
    · subst hk
      have hfresh : (k,b) ∉ m := by
        intro hmem
        exact Std.Irrefl.irrefl k (hlt k (List.mem_map_of_mem hmem))
      simp [hfresh, eq_comm]
    · simp [hk, ih hm]

variable [LT κ] [DecidableLT κ]

/-- The entry of `key` is computed anew from the one that is there. -/
def alter (key : κ) (f : Option β → β) : List (κ × β) → List (κ × β)
  | [] => [(key,f none)]
  | (k,b) :: m =>
    if key = k then (k,f (some b)) :: m
    else if key < k then (key,f none) :: (k,b) :: m
    else (k,b) :: alter key f m

theorem mem_keys_alter {key k : κ} {f : Option β → β} {m : List (κ × β)} :
    k ∈ (alter key f m).map (·.1) ↔ k = key ∨ k ∈ m.map (·.1) := by
  induction m with
  | nil => simp [alter]
  | cons entry m ih =>
    obtain ⟨k',b⟩ := entry
    rw [alter]
    split
    · rename_i heq
      subst heq
      simp
    · split
      · simp
      · rw [List.map_cons, List.mem_cons, ih, List.map_cons, List.mem_cons]
        exact or_left_comm

theorem alter_ne_nil (key : κ) (f : Option β → β) (m : List (κ × β)) : alter key f m ≠ [] := by
  intro hnil
  have hmem : key ∈ (alter key f m).map (·.1) := mem_keys_alter.mpr (.inl rfl)
  rw [hnil] at hmem
  cases hmem

theorem forall_mem_alter {P : κ × β → Prop} {key : κ} {f : Option β → β} {m : List (κ × β)}
    (hf : ∀ old, P (key,f old)) (hm : ∀ entry ∈ m, P entry) : ∀ entry ∈ alter key f m, P entry := by
  induction m with
  | nil => exact List.forall_mem_singleton.mpr (hf none)
  | cons entry m ih =>
    obtain ⟨k,b⟩ := entry
    obtain ⟨hentry,hrest⟩ := List.forall_mem_cons.mp hm
    rw [alter]
    split
    · rename_i heq
      subst heq
      exact List.forall_mem_cons.mpr ⟨hf (some b),hrest⟩
    · split
      · exact List.forall_mem_cons.mpr ⟨hf none,hm⟩
      · exact List.forall_mem_cons.mpr ⟨hentry,ih hrest⟩

section Ordered

variable [IsTrans κ (· < ·)]

theorem sorted_alter [Std.Trichotomous (α := κ) (· < ·)] {key : κ} {f : Option β → β}
    {m : List (κ × β)} (h : Sorted m) : Sorted (alter key f m) := by
  induction m with
  | nil => exact List.pairwise_singleton _ _
  | cons entry m ih =>
    obtain ⟨k,b⟩ := entry
    obtain ⟨hlt,hm⟩ := sorted_cons.mp h
    rw [alter]
    split
    · exact sorted_cons.mpr ⟨hlt,hm⟩
    · rename_i hne
      split
      · rename_i hkey
        refine sorted_cons.mpr ⟨?_,h⟩
        intro k' hk'
        rcases List.mem_cons.mp hk' with rfl | hlater
        · exact hkey
        · exact IsTrans.trans _ _ _ hkey (hlt k' hlater)
      · rename_i hnot
        refine sorted_cons.mpr ⟨?_,ih hm⟩
        intro k' hk'
        rcases mem_keys_alter.mp hk' with rfl | hlater
        · by_contra hge
          exact hne (Std.Trichotomous.trichotomous _ _ hnot hge)
        · exact hlt k' hlater

variable [Std.Irrefl (α := κ) (· < ·)]

theorem lookup_alter [BEq κ] [LawfulBEq κ] {key k : κ} {f : Option β → β} {m : List (κ × β)} (h : Sorted m) :
    (alter key f m).lookup k = if k = key then some (f (m.lookup key)) else m.lookup k := by
  induction m with
  | nil => rw [alter, lookup_cons_ite, List.lookup_nil, List.lookup_nil]
  | cons entry m ih =>
    obtain ⟨k',b⟩ := entry
    obtain ⟨hlt,hm⟩ := sorted_cons.mp h
    rw [alter]
    split
    · rename_i heq
      subst heq
      rw [lookup_cons_ite, lookup_cons_ite, lookup_cons_ite, if_pos rfl]
      split <;> rfl
    · rename_i hne
      split
      · rename_i hkey
        -- the new key is below all that are there
        have hnew : ((k',b) :: m).lookup key = none := by
          apply lookup_eq_none
          intro hmem
          rcases List.mem_cons.mp hmem with heq | hlater
          · exact hne heq
          · exact Std.Irrefl.irrefl _ (IsTrans.trans _ _ _ hkey (hlt key hlater))
        rw [hnew, lookup_cons_ite]
      · rw [lookup_cons_ite, ih hm, lookup_cons_ite, lookup_cons_ite, if_neg hne]
        by_cases hk : k = k'
        · subst hk
          rw [if_pos rfl, if_neg (Ne.symm hne), if_pos rfl]
        · rw [if_neg hk, if_neg hk]

end Ordered

end SortedMap
