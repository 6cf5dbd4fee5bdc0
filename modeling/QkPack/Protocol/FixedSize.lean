import QkPack.Lib.Greatest
import QkPack.Protocol.Scripts

/-!
# Sets of a fixed size

`addZSetScript` adds members one by one and removes the lowest ones behind each. What is left are the greatest members
of all that the set has had.
-/

namespace QkPack
open Wire CString Resp

/-- A sorted set: no member twice, and the members in the order of their scores. -/
structure IsZset (z : List (Bulk × Double)) : Prop where
  sorted : z.Pairwise Redis.Below
  nodup : (z.map (·.1.bytes)).Nodup

/-- Members added one by one to a set that keeps its `n` greatest. -/
def addAll (n : Nat) (ms z : List (Bulk × Double)) : List (Bulk × Double) :=
  ms.foldl (fun z m => (Redis.place m z).rtake n) z

instance : IsTrans (Bulk × Double) Redis.Below where
  trans := by
    rintro a b c (hab | ⟨hab,hab'⟩) (hbc | ⟨hbc,hbc'⟩)
    · exact .inl (hab.trans hbc)
    · exact .inl (hab.trans_eq hbc)
    · exact .inl (hab.trans_lt hbc)
    · exact .inr ⟨hab.trans hbc,IsTrans.trans _ _ _ hab' hbc'⟩

instance : Std.Irrefl Redis.Below where
  irrefl := by
    rintro a (h | ⟨-,h⟩)
    · exact lt_irrefl _ h
    · exact Std.Irrefl.irrefl _ h

section Members

variable {m : Bulk × Double} {ms z : List (Bulk × Double)} {n : Nat}

theorem below_of_ne {a b : Bulk × Double} (hne : a.1.bytes ≠ b.1.bytes) (h : ¬ Redis.Below a b) : Redis.Below b a := by
  rcases lt_trichotomy b.2 a.2 with hlt | heq | hgt
  · exact .inl hlt
  · refine .inr ⟨heq,?_⟩
    by_contra hnot
    exact hne (Std.Trichotomous.trichotomous (r := (· < ·)) _ _ (fun hlt => h (.inr ⟨heq.symm,hlt⟩)) hnot)
  · exact absurd (.inl hgt) h

theorem IsZset.rtake (h : IsZset z) (n : Nat) : IsZset (z.rtake n) where
  sorted := h.sorted.sublist (Greatest.rtake_sublist z n)
  nodup := h.nodup.sublist ((Greatest.rtake_sublist z n).map _)

theorem IsZset.insert (h : IsZset z) (hnew : m.1.bytes ∉ z.map (·.1.bytes)) :
    IsZset (z.orderedInsert Redis.Below m) where
  sorted := by
    apply Greatest.pairwise_orderedInsert h.sorted
    intro x hx
    apply below_of_ne
    intro hsame
    exact hnew (hsame ▸ List.mem_map_of_mem hx)
  nodup := by
    rw [((List.perm_orderedInsert Redis.Below m z).map _).nodup_iff, List.map_cons, List.nodup_cons]
    exact ⟨hnew,h.nodup⟩

theorem addAll_cons : addAll n (m :: ms) z = addAll n ms ((Redis.place m z).rtake n) := rfl

theorem addAll_length_le (h : z.length ≤ n) : (addAll n ms z).length ≤ n := by
  induction ms generalizing z with
  | nil => exact h
  | cons m ms ih =>
    rw [addAll_cons]
    exact ih (Greatest.length_rtake_le _ n)

theorem addAll_length_of_ne_nil (h : ms ≠ []) : (addAll n ms z).length ≤ n := by
  obtain ⟨m,ms,rfl⟩ := List.exists_cons_of_ne_nil h
  rw [addAll_cons]
  exact addAll_length_le (Greatest.length_rtake_le _ n)

theorem exists_addAll (h : IsZset z) (hnew : (ms.map (·.1.bytes) ++ z.map (·.1.bytes)).Nodup) :
    ∃ u, IsZset u ∧ u.Perm (z ++ ms) ∧ addAll n ms (z.rtake n) = u.rtake n := by
  induction ms generalizing z with
  | nil => exact ⟨z,h,by rw [List.append_nil],rfl⟩
  | cons m ms ih =>
    rw [List.map_cons, List.cons_append, List.nodup_cons, List.mem_append, not_or] at hnew
    obtain ⟨⟨hlater,hfresh⟩,hrest⟩ := hnew
    have hcut : m.1.bytes ∉ (z.rtake n).map (·.1.bytes) :=
      fun hmem => hfresh (((Greatest.rtake_sublist z n).map _).subset hmem)
    have hperm := List.perm_orderedInsert Redis.Below m z
    have hdistinct : (ms.map (·.1.bytes) ++ (z.orderedInsert Redis.Below m).map (·.1.bytes)).Nodup := by
      rw [((hperm.map _).append_left _).nodup_iff, List.map_cons, List.perm_middle.nodup_iff, List.nodup_cons,
        List.mem_append, not_or]
      exact ⟨⟨hlater,hfresh⟩,hrest⟩
    obtain ⟨u,hu,hall,heq⟩ := ih (h.insert hfresh) hdistinct
    refine ⟨u,hu,hall.trans ?_,?_⟩
    · exact (hperm.append_right ms).trans List.perm_middle.symm
    · rw [addAll_cons, Redis.place_eq hcut, Greatest.rtake_orderedInsert_rtake h.sorted, heq]

end Members

section Script

variable {numbers : Redis.Numbers} {key limit seconds count : Bytes} {n : Nat} {kept : Int}
  {ms : List (Bytes × Bytes)} {placed z : List (Bulk × Double)} {store : Redis.Store}

theorem trimMembers_eq (n : Nat) (z : List (Bulk × Double)) : trimMembers n z = some (z.rtake n) := by
  induction z with
  | nil =>
    rw [trimMembers, if_neg (by omega), Greatest.rtake_of_length_le (Nat.zero_le n)]
  | cons m z ih =>
    rw [trimMembers, List.length_cons]
    split
    · rw [ih, Greatest.rtake_cons (by omega)]
    · rw [Greatest.rtake_of_length_le (by rw [List.length_cons]; omega)]

theorem Placed.bulk {m : Bytes × Bytes} {p : Bulk × Double} (h : Placed numbers m p) : Redis.bulk? m.2 = some p.1 := by
  rw [← h.2, Redis.bulk?, dif_pos p.1.size_le]

theorem exists_addMembers (hlimit : Redis.readInt limit = some (n : Int))
    (hms : List.Forall₂ (Placed numbers) ms placed) (hz : Redis.members store key = some z) :
    ∃ store', addMembers numbers key limit ms.length (ms.flatMap fun m => [m.1,m.2]) store = some store' ∧
      Redis.members store' key = some (addAll n placed z) ∧ ∀ other, other ≠ key → store' other = store other := by
  induction hms generalizing store z with
  | nil => exact ⟨store,rfl,hz,fun _ _ => rfl⟩
  | @cons m p ms placed hm _ ih =>
    have htrimmed : Redis.members (Redis.putMembers (Redis.putMembers store key (Redis.place p z)) key
        ((Redis.place p z).rtake n)) key = some ((Redis.place p z).rtake n) := Redis.members_putMembers
    obtain ⟨store',hrun,hmembers,hother⟩ := ih htrimmed
    refine ⟨store',?_,hmembers,?_⟩
    · rw [List.length_cons, List.flatMap_cons, List.cons_append, List.cons_append, List.nil_append, addMembers,
        Redis.zadd, hm.1, hm.bulk, hz]
      simp only [Option.bind_eq_bind, Option.bind_some, pure, Redis.members_putMembers, hlimit, trimMembers_eq]
      exact hrun
    · intro other hne
      rw [hother other hne, Redis.putMembers_other hne, Redis.putMembers_other hne]

theorem exists_addZSetScript (hlimit : Redis.readInt limit = some (n : Int))
    (hseconds : Redis.readInt seconds = some kept) (hcount : Redis.readNat count = some ms.length)
    (hms : List.Forall₂ (Placed numbers) ms placed) (hz : Redis.members store key = some z) :
    ∃ store', addZSetScript numbers [key] (limit :: seconds :: count :: ms.flatMap fun m => [m.1,m.2]) store =
        some (store',scriptOk) ∧
      Redis.members store' key = some (if 0 < kept then addAll n placed z else []) ∧
      ∀ other, other ≠ key → store' other = store other := by
  obtain ⟨store₁,hrun,hmembers,hother⟩ := exists_addMembers hlimit hms hz
  obtain ⟨store₂,hexpire,hkept,hother'⟩ := Redis.exists_expire hseconds hmembers
  refine ⟨store₂,?_,hkept,?_⟩
  · rw [addZSetScript, hcount]
    simp only [Option.bind_eq_bind, Option.bind_some, hrun, hexpire, pure]
  · intro other hne
    rw [hother' other hne, hother other hne]

/-- The script ends. If it was given a member, or the set was not too large before, the set is not too large
afterwards. New members that are kept leave the greatest of the set and the list: those with fewer than `n` above
them. -/
theorem fixed_size_set (hlimit : Redis.readInt limit = some (n : Int)) (hseconds : Redis.readInt seconds = some kept)
    (hcount : Redis.readNat count = some ms.length) (hms : List.Forall₂ (Placed numbers) ms placed)
    (hz : Redis.members store key = some z) (hset : IsZset z) :
    ∃ store' z', addZSetScript numbers [key] (limit :: seconds :: count :: ms.flatMap fun m => [m.1,m.2]) store =
        some (store',scriptOk) ∧ Redis.members store' key = some z' ∧
      (ms ≠ [] ∨ z.length ≤ n → z'.length ≤ n) ∧
      (0 < kept → z.length ≤ n → (placed.map (·.1.bytes) ++ z.map (·.1.bytes)).Nodup →
        z'.Pairwise Redis.Below ∧
          ∀ p, p ∈ z' ↔ p ∈ z ++ placed ∧ ((z ++ placed).filter fun x => Redis.Below p x).length < n) := by
  obtain ⟨store',hrun,hmembers,-⟩ := exists_addZSetScript hlimit hseconds hcount hms hz
  refine ⟨store',_,hrun,hmembers,?_,?_⟩
  · intro hfew
    split
    · rcases hfew with hne | hle
      · apply addAll_length_of_ne_nil
        rintro rfl
        exact hne (List.forall₂_nil_right_iff.mp hms)
      · exact addAll_length_le hle
    · exact Nat.zero_le n
  · intro hpos hle hnew
    obtain ⟨u,hu,hperm,heq⟩ := exists_addAll (n := n) hset hnew
    rw [Greatest.rtake_of_length_le hle] at heq
    rw [if_pos hpos, heq]
    refine ⟨(hu.rtake n).sorted,?_⟩
    intro p
    rw [Greatest.mem_rtake_iff hu.sorted, hperm.mem_iff, (hperm.filter _).length_eq]

end Script

def wholeScores : Redis.Numbers := ⟨fun s => (Redis.readNat s).map fun n => .finite n,fun _ => ⟨[],Nat.zero_le _⟩⟩

/-- The set `s` has the members `a` and `b`. -/
def twoMembers : Redis.Store :=
  Function.update (fun _ => none) (text "s")
    (some ⟨.zset [(⟨text "a",by decide⟩,.finite 1),(⟨text "b",by decide⟩,.finite 2)],none⟩)

theorem fixed_size_set_two :
    ∃ store' z', addZSetScript wholeScores [text "s"] [text "2",text "60",text "1",text "3",text "c"] twoMembers =
        some (store',scriptOk) ∧ Redis.members store' (text "s") = some z' ∧ z'.length ≤ 2 ∧
      (⟨text "c",by decide⟩,.finite 3) ∈ z' := by
  have hms : List.Forall₂ (Placed wholeScores) [(text "3",text "c")] [(⟨text "c",by decide⟩,.finite 3)] :=
    .cons ⟨by decide,rfl⟩ .nil
  have hset : IsZset [(⟨text "a",by decide⟩,.finite 1),(⟨text "b",by decide⟩,.finite 2)] := by
    refine ⟨?_,by decide⟩
    rw [List.pairwise_pair]
    exact .inl (Double.finite_lt_finite.mpr (by norm_num))
  have hlimit : Redis.readInt (text "2") = some ((2 : Nat) : Int) := by decide
  have hseconds : Redis.readInt (text "60") = some 60 := by decide
  have hcount : Redis.readNat (text "1") = some 1 := by decide
  have hmembers : Redis.members twoMembers (text "s") =
      some [(⟨text "a",by decide⟩,.finite 1),(⟨text "b",by decide⟩,.finite 2)] := rfl
  obtain ⟨store',z',hrun,hresult,hfew,hgreatest⟩ := fixed_size_set hlimit hseconds hcount hms hmembers hset
  refine ⟨store',z',hrun,hresult,hfew (.inl (by simp)),?_⟩
  rw [(hgreatest (by norm_num) le_rfl (by decide)).2]
  exact ⟨by simp,by decide +kernel⟩

/-- Without a member to add the set stays as large as it is, above its limit. And a set that is not kept has no
members. -/
theorem untrimmed_set :
    ((addZSetScript wholeScores [text "s"] [text "1",text "60",text "0"] twoMembers).bind fun result =>
        Redis.members result.1 (text "s")).map List.length = some 2 ∧
      ((addZSetScript wholeScores [text "s"] [text "2",text "0",text "1",text "3",text "c"] fun _ => none).bind
        fun result => Redis.members result.1 (text "s")).map List.length = some 0 := by
  decide +kernel

end QkPack
