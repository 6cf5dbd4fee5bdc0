import QkPack.Parser.ReadSingle

/-!
# Fields that count as empty

`ValidateStrEmpty` goes over the blanks of a field with an index that is already one further when the loop ends. What
it refuses is compared with the fields that have blanks only.
-/

namespace QkPack
open Wire CString Resp Json

def Blank (s : Bytes) : Prop := ∀ c ∈ s, c = 32

instance (s : Bytes) : Decidable (Blank s) := List.decidableBAll (· = 32) s

/-- Blanks, and behind them one last byte that is none. -/
def OneBehindBlanks (s : Bytes) : Prop := ∃ k c, 0 < k ∧ c ≠ 32 ∧ s = List.replicate k 32 ++ [c]

/-- The part of a field that the length in an `int` reaches. -/
def reached (s : Bytes) : Bytes := s.take (int32 s.length).toNat

section Scan

variable {s : Bytes} {c : UInt8}

theorem blank_cons : Blank (c :: s) ↔ c = 32 ∧ Blank s := List.forall_mem_cons

theorem blankLoop_add (valLen : Int) (i : Nat) (s : Bytes) :
    blankLoop valLen i s = i + blankLoop (valLen - i) 0 s := by
  induction s generalizing i valLen with
  | nil => rfl
  | cons c s ih =>
    have hlt : (i : Int) < valLen ↔ ((0 : Nat) : Int) < valLen - i := by omega
    rw [blankLoop, blankLoop, ih valLen (i + 1), ih (valLen - i) (0 + 1)]
    simp only [hlt]
    split
    · split
      · rw [show valLen - ((i + 1 : Nat) : Int) = valLen - i - ((0 + 1 : Nat) : Int) by omega]
        omega
      · omega
    · rfl

theorem blankLoop_cons {n : Nat} : blankLoop ((n + 1 : Nat) : Int) 0 (c :: s) =
    if c = 32 then blankLoop (n : Int) 0 s + 1 else 1 := by
  rw [blankLoop, if_pos (by omega), blankLoop_add, show ((n + 1 : Nat) : Int) - ((0 + 1 : Nat) : Int) = n by omega]
  split <;> omega

theorem blankLoop_eq_length_iff :
    blankLoop (s.length : Int) 0 s = s.length ↔ Blank s ∨ ∃ k c, c ≠ 32 ∧ s = List.replicate k 32 ++ [c] := by
  induction s with
  | nil => exact ⟨fun _ => .inl (by simp [Blank]),fun _ => rfl⟩
  | cons c s ih =>
    rw [List.length_cons, blankLoop_cons, blank_cons]
    split
    · rename_i hc
      subst hc
      rw [Nat.succ_inj, ih]
      refine or_congr (by simp) ⟨?_,?_⟩
      · rintro ⟨k,d,hd,rfl⟩
        exact ⟨k + 1,d,hd,rfl⟩
      · rintro ⟨k,d,hd,hs⟩
        cases k with
        | zero =>
          rw [List.replicate_zero, List.nil_append, List.cons.injEq] at hs
          exact absurd hs.1.symm hd
        | succ k => exact ⟨k,d,hd,(List.cons.inj hs).2⟩
    · rename_i hc
      refine ⟨fun hlen => .inr ⟨0,c,hc,?_⟩,?_⟩
      · rw [List.eq_nil_of_length_eq_zero (by omega : s.length = 0)]
        rfl
      · rintro (hblank | ⟨k,d,hd,hs⟩)
        · exact absurd hblank.1 hc
        · cases k with
          | zero => rw [(List.cons.inj hs).2, List.length_nil]
          | succ k => exact absurd (List.cons.inj hs).1 hc

theorem blankLoop_take {n : Nat} : blankLoop (n : Int) 0 s = blankLoop ((s.take n).length : Int) 0 (s.take n) := by
  induction s generalizing n with
  | nil => rw [List.take_nil]; rfl
  | cons c s ih =>
    cases n with
    | zero => rfl
    | succ n => rw [List.take_succ_cons, List.length_cons, blankLoop_cons, blankLoop_cons, ih]

theorem reached_length {n : Nat} (h : int32 s.length = n) : (reached s).length = n := by
  have hle : int32 s.length ≤ s.length := int32_le_self (by omega)
  rw [reached, List.length_take, h]
  omega

theorem reached_of_short (h : s.length < 2 ^ 31) : reached s = s := by
  rw [reached, int32_of_range (by omega) (by omega)]
  exact List.take_length

theorem Blank.reached (h : Blank s) : Blank (reached s) := fun c hc => h c (List.mem_of_mem_take hc)

theorem blank_or_oneBehindBlanks_singleton : Blank [c] ∨ OneBehindBlanks [c] ↔ c = 32 := by
  refine ⟨?_,fun hc => .inl (by simpa [Blank] using hc)⟩
  rintro (hblank | ⟨k,d,hk,-,hs⟩)
  · exact hblank c List.mem_cons_self
  · have hlen := congrArg List.length hs
    rw [List.length_append, List.length_replicate] at hlen
    exact absurd hlen (by simp; omega)

theorem oneBehindBlanks_iff (h : 1 < s.length) :
    OneBehindBlanks s ↔ ∃ k c, c ≠ 32 ∧ s = List.replicate k 32 ++ [c] := by
  constructor
  · rintro ⟨k,c,-,hc,hs⟩
    exact ⟨k,c,hc,hs⟩
  · rintro ⟨k,c,hc,rfl⟩
    rw [List.length_append, List.length_replicate, List.length_singleton] at h
    exact ⟨k,c,by omega,hc,rfl⟩

theorem validateStrEmpty_eq_false_iff : validateStrEmpty s = false ↔
    0 ≤ int32 s.length ∧ (Blank (reached s) ∨ OneBehindBlanks (reached s)) := by
  cases s with
  | nil => exact ⟨fun _ => ⟨by decide,.inl (by decide)⟩,fun _ => rfl⟩
  | cons c s =>
    unfold validateStrEmpty
    simp only [decide_eq_false_iff_not]
    by_cases hneg : int32 (c :: s).length < 0
    · -- A negative length ends the loop before it begins.
      refine iff_of_false (fun hrefused => hrefused ⟨?_,?_,?_⟩) fun h => absurd h.1 (by omega)
      all_goals omega
    · obtain ⟨n,hn⟩ := Int.eq_ofNat_of_zero_le (not_lt.mp hneg)
      have hlen := reached_length hn
      have hloop := blankLoop_eq_length_iff (s := reached (c :: s))
      rw [hlen] at hloop
      have htake : reached (c :: s) = (c :: s).take n := by rw [reached, hn, Int.toNat_natCast]
      rw [hn, blankLoop_take, ← htake, hlen]
      rcases n with - | - | n
      · have hnil := List.eq_nil_of_length_eq_zero hlen
        exact iff_of_true (fun h => h.1 rfl) ⟨le_rfl,.inl (by rw [hnil]; decide)⟩
      · rw [htake, List.take_succ_cons, List.take_zero, blank_or_oneBehindBlanks_singleton]
        constructor
        · intro hrefused
          exact ⟨by omega,by_contra fun hc => hrefused ⟨by omega,fun h => hc h.2,fun h => h.1 h.2⟩⟩
        · rintro ⟨-,hc⟩ haccepted
          exact haccepted.2.1 ⟨rfl,hc⟩
      · rw [oneBehindBlanks_iff (by omega), ← hloop]
        constructor
        · intro hrefused
          refine ⟨by omega,by_contra fun hend => hrefused ⟨by omega,by omega,?_⟩⟩
          omega
        · rintro ⟨-,hend⟩ haccepted
          exact haccepted.2.2 ⟨by omega,by omega⟩

end Scan

/-- A field passes every check that calls `ValidateStrEmpty`, when what stands beside it does. -/
structure PassesChecks (s : Bytes) : Prop where
  aclUri : ∀ ak, validateStrEmpty ak = true → validateACLInfo (some s) (some ak) = .ok s
  aclAk : ∀ uri, validateStrEmpty uri = true → validateACLInfo (some uri) (some s) = .ok uri
  kvPairByKey : validateKVPairByKey (some s) = .ok s
  kvPairKey : ∀ value, validateStrEmpty value = true → validateKVPair (some s) (some value) = .ok (s,value)
  kvPairValue : ∀ key, validateStrEmpty key = true → validateKVPair (some key) (some s) = .ok (key,s)
  setByKey : validateSetByKey (some s) = .ok s
  setKey : ∀ value, validateStrEmpty value = true → validateSetByKV (some s) (some value) = .ok (s,value)
  setValue : ∀ key, validateStrEmpty key = true → validateSetByKV (some key) (some s) = .ok (key,s)
  set : ∀ mbs, mbs ≠ [] → validateSet (some s) (some mbs) = .ok (s,mbs)
  zset : ∀ mbs, mbs ≠ [] → validateZSet (some s) (some mbs) = .ok (s,mbs)
  zsetMember : ∀ value score, validateStrEmpty value = true →
    validateZSetMembers (some s) (some value) (some score) = .ok (s,value,score)
  zsetValue : ∀ member score, validateStrEmpty member = true →
    validateZSetMembers (some member) (some s) (some score) = .ok (member,s,score)
  zsetQuery : ∀ min max, validateZSetQuery (some s) (some min) (some max) = .ok (s,min,max)

/-- The blank test is right for a field. -/
structure BlankTest (s : Bytes) : Prop where
  exact : validateStrEmpty s = false ↔ Blank s
  passes : ¬ Blank s → PassesChecks s

/-- What the scan reaches of a field tells whether it has blanks only. -/
def Discerned (s : Bytes) : Prop :=
  (Blank s → 0 ≤ int32 s.length) ∧
    (¬ Blank s → 0 ≤ int32 s.length → ¬ Blank (reached s) ∧ ¬ OneBehindBlanks (reached s))

section Fields

variable {s : Bytes}

theorem validateString_of_passes {notExist notEmpty : String} (h : validateStrEmpty s = true) :
    validateString notExist notEmpty (some s) = .ok s := if_pos h

theorem validateArray_of_ne_nil {notExist notEmpty : String} {mbs : List Tree} (h : mbs ≠ []) :
    validateArray notExist notEmpty (some mbs) = .ok mbs := if_neg h

theorem passesChecks_of_passes (h : validateStrEmpty s = true) : PassesChecks s where
  aclUri ak hak := by simp only [validateACLInfo, h, hak]
  aclAk uri huri := by simp only [validateACLInfo, h, huri]
  kvPairByKey := validateString_of_passes h
  kvPairKey value hvalue := by
    rw [validateKVPair, validateKVPairByKey, validateString_of_passes h, validateString_of_passes hvalue]
    rfl
  kvPairValue key hkey := by
    rw [validateKVPair, validateKVPairByKey, validateString_of_passes h, validateString_of_passes hkey]
    rfl
  setByKey := validateString_of_passes h
  setKey value hvalue := by
    rw [validateSetByKV, validateSetByKey, validateString_of_passes h, validateString_of_passes hvalue]
    rfl
  setValue key hkey := by
    rw [validateSetByKV, validateSetByKey, validateString_of_passes h, validateString_of_passes hkey]
    rfl
  set mbs hmbs := by
    rw [validateSet, validateSetByKey, validateString_of_passes h, validateArray_of_ne_nil hmbs]
    rfl
  zset mbs hmbs := by
    rw [validateZSet, validateString_of_passes h, validateArray_of_ne_nil hmbs]
    rfl
  zsetMember value score hvalue := by
    rw [validateZSetMembers, validateString_of_passes h, validateString_of_passes hvalue]
    rfl
  zsetValue member score hmember := by
    rw [validateZSetMembers, validateString_of_passes h, validateString_of_passes hmember]
    rfl
  zsetQuery min max := by
    rw [validateZSetQuery, validateString_of_passes h]
    rfl

/-- A field shorter than 2 GiB is only taken for another when one byte stands behind its blanks. -/
theorem discerned_of_short (h : s.length < 2 ^ 31) : Discerned s ↔ ¬ OneBehindBlanks s := by
  have hlen : 0 ≤ int32 s.length := by
    rw [int32_of_range (by omega) (by omega)]
    omega
  rw [Discerned, reached_of_short h]
  constructor
  · intro hd hone
    have hnot : ¬ Blank s := by
      obtain ⟨k,c,-,hc,rfl⟩ := hone
      exact fun hblank => hc (hblank c (by simp))
    exact (hd.2 hnot hlen).2 hone
  · intro hone
    exact ⟨fun _ => hlen,fun hnot _ => ⟨hnot,hone⟩⟩

end Fields

/-- The blank test is right for just these fields. -/
theorem blankTest_iff (s : Bytes) : BlankTest s ↔ Discerned s := by
  have hrefused := validateStrEmpty_eq_false_iff (s := s)
  constructor
  · intro h
    refine ⟨fun hblank => (hrefused.mp (h.exact.mpr hblank)).1,fun hnot hlen => ?_⟩
    have haccepted : ¬ (Blank (reached s) ∨ OneBehindBlanks (reached s)) := fun hreached =>
      hnot (h.exact.mp (hrefused.mpr ⟨hlen,hreached⟩))
    exact not_or.mp haccepted
  · intro h
    have hexact : validateStrEmpty s = false ↔ Blank s := by
      refine ⟨fun hs => by_contra fun hnot => ?_,fun hblank => hrefused.mpr ⟨h.1 hblank,.inl hblank.reached⟩⟩
      obtain ⟨hlen,hreached⟩ := hrefused.mp hs
      exact not_or.mpr (h.2 hnot hlen) hreached
    exact ⟨hexact,fun hnot => passesChecks_of_passes (Bool.not_eq_false _ ▸ fun hs => hnot (hexact.mp hs))⟩

/-- A blank and one letter: the key is refused as empty. -/
theorem blankTest_blank_letter : ¬ Blank (text " a") ∧ validateStrEmpty (text " a") = false ∧
    validateKVPairByKey (some (text " a")) = .error (text "kvpair key may not be empty") ∧
    ¬ BlankTest (text " a") := by
  refine ⟨by decide,by decide,by decide,fun h => ?_⟩
  exact absurd (h.exact.mp (by decide)) (by decide)

end QkPack
