import QkPack.Lib.SortedMap

/-!
# Maps from keys to lists

Values are pushed behind those that their key already has. An iteration over the map meets the values in the order of
their keys, and those of one key in the order in which they were pushed.
-/

namespace SortedMap

variable {κ β : Type} [DecidableEq κ] [LT κ] [DecidableLT κ]

/-- Values pushed one by one behind those of their key. -/
def group (pairs : List (κ × β)) (m : List (κ × List β)) : List (κ × List β) :=
  pairs.foldl (fun m p => alter p.1 (fun old => old.getD [] ++ [p.2]) m) m

/-- The pairs of a map from keys to lists, in the order in which an iteration meets them. -/
def pairsOf (m : List (κ × List β)) : List (κ × β) := m.flatMap fun entry => entry.2.map fun b => (entry.1,b)

/-- Pairs in the order of their keys; those of one key keep their order. -/
def byKey (pairs : List (κ × β)) : List (κ × β) := pairs.mergeSort fun p q => !decide (q.1 < p.1)

theorem group_cons (p : κ × β) (pairs : List (κ × β)) (m : List (κ × List β)) :
    group (p :: pairs) m = group pairs (alter p.1 (fun old => old.getD [] ++ [p.2]) m) := rfl

theorem group_append (pairs pairs' : List (κ × β)) (m : List (κ × List β)) :
    group (pairs ++ pairs') m = group pairs' (group pairs m) := List.foldl_append

theorem forall_mem_group {P : κ × List β → Prop} {pairs : List (κ × β)} {m : List (κ × List β)}
    (hnew : ∀ p ∈ pairs, ∀ old, P (p.1,old ++ [p.2])) (h : ∀ entry ∈ m, P entry) :
    ∀ entry ∈ group pairs m, P entry := by
  induction pairs generalizing m with
  | nil => exact h
  | cons p pairs ih =>
    obtain ⟨hp,hpairs⟩ := List.forall_mem_cons.mp hnew
    exact ih hpairs (forall_mem_alter (fun old => hp (old.getD [])) h)

theorem mem_keys_group {pairs : List (κ × β)} {m : List (κ × List β)} {k : κ} :
    k ∈ (group pairs m).map (·.1) ↔ k ∈ m.map (·.1) ∨ k ∈ pairs.map (·.1) := by
  induction pairs generalizing m with
  | nil => simp [group]
  | cons p pairs ih =>
    rw [group_cons, ih, mem_keys_alter, List.map_cons, List.mem_cons, or_comm (a := k = p.1), or_assoc]

omit [DecidableEq κ] [LT κ] [DecidableLT κ] in
theorem map_snd_pairsOf (m : List (κ × List β)) : (pairsOf m).map (·.2) = m.flatMap (·.2) := by
  rw [pairsOf, List.map_flatMap]
  congr 1
  funext entry
  rw [List.map_map]
  exact List.map_id _

variable [IsTrans κ (· < ·)] [Std.Trichotomous (α := κ) (· < ·)]

theorem sorted_group {pairs : List (κ × β)} {m : List (κ × List β)} (h : Sorted m) : Sorted (group pairs m) := by
  induction pairs generalizing m with
  | nil => exact h
  | cons p pairs ih => exact ih (sorted_alter h)

variable [Std.Irrefl (α := κ) (· < ·)]

theorem lookup_group [BEq κ] [LawfulBEq κ] {pairs : List (κ × β)} {m : List (κ × List β)} (h : Sorted m) (k : κ) :
    ((group pairs m).lookup k).getD [] = (m.lookup k).getD [] ++ (pairs.filter (·.1 = k)).map (·.2) := by
  induction pairs generalizing m with
  | nil => simp [group]
  | cons p pairs ih =>
    rw [group_cons, ih (sorted_alter h), lookup_alter h]
    by_cases hk : k = p.1
    · subst hk
      simp
    · rw [if_neg hk, List.filter_cons_of_neg]
      simpa using Ne.symm hk

omit [LT κ] [DecidableLT κ] [IsTrans κ (· < ·)] [Std.Trichotomous (α := κ) (· < ·)]
  [Std.Irrefl (α := κ) (· < ·)] in
theorem mem_of_filter_key {l l' : List (κ × β)} (h : ∀ k, l.filter (·.1 = k) = l'.filter (·.1 = k)) {p : κ × β}
    (hp : p ∈ l) : p ∈ l' := by
  have hmem : p ∈ l.filter (·.1 = p.1) := List.mem_filter.mpr ⟨hp,decide_eq_true rfl⟩
  rw [h] at hmem
  exact (List.mem_filter.mp hmem).1

omit [DecidableLT κ] [IsTrans κ (· < ·)] in
theorem eq_of_filter_key {l l' : List (κ × β)} (hl : l.Pairwise fun p q => ¬ q.1 < p.1)
    (hl' : l'.Pairwise fun p q => ¬ q.1 < p.1) (h : ∀ k, l.filter (·.1 = k) = l'.filter (·.1 = k)) : l = l' := by
  induction l generalizing l' with
  | nil =>
    cases l' with
    | nil => rfl
    | cons q l' => exact absurd (mem_of_filter_key (fun k => (h k).symm) List.mem_cons_self) List.not_mem_nil
  | cons p l ih =>
    cases l' with
    | nil => exact absurd (mem_of_filter_key h List.mem_cons_self) List.not_mem_nil
    | cons q l' =>
      obtain ⟨hp,hrest⟩ := List.pairwise_cons.mp hl
      obtain ⟨hq,hrest'⟩ := List.pairwise_cons.mp hl'
      -- neither head has a key below the other one
      have hkey : p.1 = q.1 := by
        apply Std.Trichotomous.trichotomous (r := (· < ·))
        · rcases List.mem_cons.mp (mem_of_filter_key h List.mem_cons_self) with rfl | hlater
          · exact Std.Irrefl.irrefl _
          · exact hq p hlater
        · rcases List.mem_cons.mp (mem_of_filter_key (fun k => (h k).symm) List.mem_cons_self) with rfl | hlater
          · exact Std.Irrefl.irrefl _
          · exact hp q hlater
      have hhead := h p.1
      rw [List.filter_cons_of_pos (by simp), List.filter_cons_of_pos (by simp [hkey])] at hhead
      obtain ⟨rfl,-⟩ := List.cons.inj hhead
      congr 1
      apply ih hrest hrest'
      intro k
      have hk := h k
      rw [List.filter_cons, List.filter_cons] at hk
      split at hk
      · exact (List.cons.inj hk).2
      · exact hk

omit [DecidableEq κ] [DecidableLT κ] [Std.Irrefl (α := κ) (· < ·)] in
theorem not_lt_trans {a b c : κ} (hab : ¬ b < a) (hbc : ¬ c < b) : ¬ c < a := by
  intro hca
  by_cases h : a < b
  · exact hbc (IsTrans.trans _ _ _ hca h)
  · rw [Std.Trichotomous.trichotomous (r := (· < ·)) a b h hab] at hca
    exact hbc hca

omit [DecidableEq κ] [DecidableLT κ] [Std.Trichotomous (α := κ) (· < ·)] in
theorem not_lt_of_lt {a b : κ} (h : a < b) : ¬ b < a :=
  fun h' => Std.Irrefl.irrefl a (IsTrans.trans _ _ _ h h')

omit [DecidableEq κ] [Std.Irrefl (α := κ) (· < ·)] in
theorem byKey_trans (p q r : κ × β) (hpq : (!decide (q.1 < p.1)) = true) (hqr : (!decide (r.1 < q.1)) = true) :
    (!decide (r.1 < p.1)) = true := by
  simp only [Bool.not_eq_true', decide_eq_false_iff_not] at hpq hqr ⊢
  exact not_lt_trans hpq hqr

omit [DecidableEq κ] [Std.Trichotomous (α := κ) (· < ·)] in
theorem byKey_total (p q : κ × β) : ((!decide (q.1 < p.1)) || !decide (p.1 < q.1)) = true := by
  simp only [Bool.or_eq_true, Bool.not_eq_true', decide_eq_false_iff_not]
  by_cases h : q.1 < p.1
  · exact .inr (not_lt_of_lt h)
  · exact .inl h

omit [DecidableEq κ] in
theorem byKey_pairwise (pairs : List (κ × β)) : (byKey pairs).Pairwise fun p q => ¬ q.1 < p.1 := by
  have h := List.pairwise_mergeSort byKey_trans byKey_total pairs
  simp only [Bool.not_eq_true', decide_eq_false_iff_not] at h
  exact h

omit [DecidableEq κ] [IsTrans κ (· < ·)] [Std.Trichotomous (α := κ) (· < ·)] in
theorem byKey_of_one_key (k : κ) (bs : List β) : byKey (bs.map fun b => (k,b)) = bs.map fun b => (k,b) := by
  apply List.mergeSort_of_pairwise
  rw [List.pairwise_map]
  apply List.pairwise_of_forall
  intro _ _
  rw [Bool.not_eq_true', decide_eq_false_iff_not]
  exact Std.Irrefl.irrefl k

omit [DecidableEq κ] [IsTrans κ (· < ·)] [Std.Trichotomous (α := κ) (· < ·)] in
theorem values_of_one_key (k : κ) (bs : List β) : (byKey (bs.map fun b => (k,b))).map (·.2) = bs := by
  rw [byKey_of_one_key, List.map_map]
  exact List.map_id bs

theorem filter_byKey (pairs : List (κ × β)) (k : κ) : (byKey pairs).filter (·.1 = k) = pairs.filter (·.1 = k) := by
  have hsame : (pairs.filter (·.1 = k)).Pairwise fun p q => (!decide (q.1 < p.1)) = true := by
    apply List.pairwise_of_forall_mem_list
    intro p hp q hq
    have hp := of_decide_eq_true (List.mem_filter.mp hp).2
    have hq := of_decide_eq_true (List.mem_filter.mp hq).2
    rw [hp, hq, Bool.not_eq_true', decide_eq_false_iff_not]
    exact Std.Irrefl.irrefl k
  have hsub := (List.sublist_mergeSort byKey_trans byKey_total hsame List.filter_sublist).filter (·.1 = k)
  rw [List.filter_filter] at hsub
  simp only [Bool.and_self] at hsub
  have hlen := ((List.mergeSort_perm pairs fun p q => !decide (q.1 < p.1)).filter (·.1 = k)).length_eq
  exact (hsub.eq_of_length hlen.symm).symm

omit [DecidableEq κ] [DecidableLT κ] [Std.Trichotomous (α := κ) (· < ·)] in
theorem pairsOf_pairwise {m : List (κ × List β)} (h : Sorted m) : (pairsOf m).Pairwise fun p q => ¬ q.1 < p.1 := by
  induction m with
  | nil => exact List.Pairwise.nil
  | cons entry m ih =>
    obtain ⟨k,bs⟩ := entry
    obtain ⟨hlt,hm⟩ := sorted_cons.mp h
    rw [pairsOf, List.flatMap_cons, List.pairwise_append]
    refine ⟨?_,ih hm,?_⟩
    · rw [List.pairwise_map]
      apply List.pairwise_of_forall
      intro _ _
      exact Std.Irrefl.irrefl k
    · intro p hp q hq
      obtain ⟨b,-,rfl⟩ := List.mem_map.mp hp
      obtain ⟨entry,hentry,hq⟩ := List.mem_flatMap.mp hq
      obtain ⟨b',-,rfl⟩ := List.mem_map.mp hq
      exact not_lt_of_lt (hlt entry.1 (List.mem_map_of_mem hentry))

omit [DecidableLT κ] [IsTrans κ (· < ·)] [Std.Trichotomous (α := κ) (· < ·)] in
theorem filter_pairsOf [BEq κ] [LawfulBEq κ] {m : List (κ × List β)} (h : Sorted m) (k : κ) :
    (pairsOf m).filter (·.1 = k) = ((m.lookup k).getD []).map fun b => (k,b) := by
  induction m with
  | nil => rfl
  | cons entry m ih =>
    obtain ⟨k',bs⟩ := entry
    obtain ⟨hlt,hm⟩ := sorted_cons.mp h
    rw [pairsOf, List.flatMap_cons, List.filter_append, List.filter_map, lookup_cons_ite]
    change _ ++ (pairsOf m).filter (·.1 = k) = _
    rw [ih hm]
    by_cases hk : k = k'
    · subst hk
      have hnone : m.lookup k = none := lookup_eq_none fun hmem => Std.Irrefl.irrefl k (hlt k hmem)
      simp [hnone, Function.comp_def]
    · simp [hk, Ne.symm hk, Function.comp_def]

theorem pairsOf_group [BEq κ] [LawfulBEq κ] (pairs : List (κ × β)) : pairsOf (group pairs []) = byKey pairs := by
  have hsorted : Sorted (group pairs []) := sorted_group sorted_nil
  apply eq_of_filter_key (pairsOf_pairwise hsorted) (byKey_pairwise pairs)
  intro k
  have hpairs : (pairs.filter (·.1 = k)).map (fun p => (k,p.2)) = pairs.filter (·.1 = k) := by
    conv_rhs => rw [← List.map_id (pairs.filter (·.1 = k))]
    apply List.map_congr_left
    intro p hp
    rw [← of_decide_eq_true (List.mem_filter.mp hp).2]
    rfl
  rw [filter_pairsOf hsorted, lookup_group sorted_nil, filter_byKey, List.lookup_nil, Option.getD_none,
    List.nil_append, List.map_map]
  exact hpairs

end SortedMap
