import QkPack.FanOut.Rounds

/-!
# The arguments of a sub-request

A key and a slot are written into the arguments of an URI, where the key is not escaped, and are looked up
there again by name. Behind an ampersand in the key another argument begins.
-/

namespace QkPack
open Wire CString Resp

/-- An argument of that name begins the text. -/
def BeginsArg (name s : Bytes) : Prop :=
  (s.take name.length).map lowerByte = name ∧ s[name.length]? = some 61

section Scan

variable {name : Bytes}

theorem ngxHttpArgFrom_inside {s rest : Bytes} (hs : 38 ∉ s) :
    ngxHttpArgFrom name false (s ++ 38 :: rest) = ngxHttpArg name rest := by
  induction s with
  | nil => simp [ngxHttpArgFrom, ngxHttpArg]
  | cons c s ih =>
    rw [List.mem_cons, not_or] at hs
    obtain ⟨hc,hs⟩ := hs
    have hdiff : decide (c = 38) = false := decide_eq_false (Ne.symm hc)
    rw [List.cons_append, ngxHttpArgFrom, hdiff]
    simpa using ih hs

theorem ngxHttpArg_skip {s rest : Bytes} (hne : s ≠ []) (hs : 38 ∉ s)
    (hother : ¬ BeginsArg name (s ++ 38 :: rest)) :
    ngxHttpArg name (s ++ 38 :: rest) = ngxHttpArg name rest := by
  obtain ⟨c,s,rfl⟩ := List.exists_cons_of_ne_nil hne
  rw [List.mem_cons, not_or] at hs
  obtain ⟨hc,hs⟩ := hs
  have hdiff : decide (c = 38) = false := decide_eq_false (Ne.symm hc)
  rw [ngxHttpArg, List.cons_append, ngxHttpArgFrom, if_neg fun hfound => hother hfound.2, hdiff]
  exact ngxHttpArgFrom_inside hs

theorem ngxHttpArg_none {s : Bytes} (hs : 38 ∉ s) (hother : ¬ BeginsArg name s) :
    ngxHttpArg name s = none := by
  have hinside (s : Bytes) (hs : 38 ∉ s) : ngxHttpArgFrom name false s = none := by
    induction s with
    | nil => rfl
    | cons c s ih =>
      rw [List.mem_cons, not_or] at hs
      have hdiff : decide (c = 38) = false := decide_eq_false (Ne.symm hs.1)
      rw [ngxHttpArgFrom, hdiff]
      simpa using ih hs.2
  cases s with
  | nil => rfl
  | cons c s =>
    rw [List.mem_cons, not_or] at hs
    have hdiff : decide (c = 38) = false := decide_eq_false (Ne.symm hs.1)
    rw [ngxHttpArg, ngxHttpArgFrom, if_neg fun hfound => hother hfound.2, hdiff]
    exact hinside s hs.2

theorem ngxHttpArg_found {s : Bytes} (hs : BeginsArg name s) :
    ngxHttpArg name s = some ((s.drop (name.length + 1)).takeWhile (· ≠ 38)) := by
  cases s with
  | nil =>
    have hequals := hs.2
    simp at hequals
  | cons c s => rw [ngxHttpArg, ngxHttpArgFrom, if_pos ⟨rfl,hs⟩]

theorem takeWhile_append_ampersand (s rest : Bytes) :
    (s ++ 38 :: rest).takeWhile (· ≠ 38) = s.takeWhile (· ≠ 38) := by
  induction s with
  | nil => rfl
  | cons c s ih =>
    rw [List.cons_append, List.takeWhile_cons, List.takeWhile_cons, ih]

theorem takeWhile_eq_self_iff (s : Bytes) : s.takeWhile (· ≠ 38) = s ↔ 38 ∉ s := by
  rw [List.takeWhile_eq_self_iff]
  constructor
  · intro hall hmem
    simpa using hall 38 hmem
  · intro hnot c hc
    rw [decide_eq_true_eq]
    rintro rfl
    exact hnot hc

end Scan

section KeyArgs

variable (k : Bytes) (slotId : Int)

theorem ngxHttpArg_keyArgs {name : Bytes} (hname : name = text "key" ∨ name = text "slotid") :
    ngxHttpArg name (keyArgs k slotId) = ngxHttpArg name (text "key=" ++ k ++ argSlotid slotId) := by
  have hsplit : keyArgs k slotId =
      text "is_subrequest=1" ++ 38 :: (text "key=" ++ k ++ argSlotid slotId) := by
    simp [keyArgs, text]
  rw [hsplit]
  apply ngxHttpArg_skip
  · decide
  · decide
  · rintro ⟨hletters,-⟩
    rcases hname with rfl | rfl
    · revert hletters
      simp [text, lowerByte]
    · revert hletters
      simp [text, lowerByte]

theorem keyArgs_key :
    ngxHttpArg (text "key") (keyArgs k slotId) = some (k.takeWhile (· ≠ 38)) := by
  have hbegins : BeginsArg (text "key") (text "key=" ++ k ++ argSlotid slotId) := by
    simp [BeginsArg, text, lowerByte]
  have hdrop : (text "key=" ++ k ++ argSlotid slotId).drop ((text "key").length + 1) =
      k ++ 38 :: (text "slotid=" ++ toString32 slotId) := by simp [text, argSlotid]
  rw [ngxHttpArg_keyArgs k slotId (.inl rfl), ngxHttpArg_found hbegins, hdrop,
    takeWhile_append_ampersand]

theorem keyArgs_slotid (hk : 38 ∉ k) (hdigits : 38 ∉ toString32 slotId) :
    ngxHttpArg (text "slotid") (keyArgs k slotId) = some (toString32 slotId) := by
  have hsplit : text "key=" ++ k ++ argSlotid slotId =
      (text "key=" ++ k) ++ 38 :: (text "slotid=" ++ toString32 slotId) := by simp [argSlotid, text]
  have hbegins : BeginsArg (text "slotid") (text "slotid=" ++ toString32 slotId) := by
    simp [BeginsArg, text, lowerByte]
  have hdrop : (text "slotid=" ++ toString32 slotId).drop ((text "slotid").length + 1) =
      toString32 slotId := by simp [text]
  rw [ngxHttpArg_keyArgs k slotId (.inr rfl), hsplit, ngxHttpArg_skip, ngxHttpArg_found hbegins, hdrop,
    (takeWhile_eq_self_iff _).mpr hdigits]
  · simp [text]
  · rw [List.mem_append, not_or]
    exact ⟨by decide,hk⟩
  · rintro ⟨hletters,-⟩
    revert hletters
    simp [text, lowerByte]

end KeyArgs

section Slot

variable {s : Nat} (hs : s < 16384)
include hs

theorem toString32_slot : toString32 s = decimal s := by
  rw [toString32, int32_of_range (by omega) (by omega), intText, if_neg (by omega), Int.natAbs_natCast]

theorem ampersand_notMem_slot : 38 ∉ toString32 s := by
  rw [toString32_slot hs]
  intro hmem
  have hdigit := decimal_isDigit hmem
  revert hdigit
  decide

theorem ngxAtoi_slot : ngxAtoi (toString32 s) = s := by
  rw [toString32_slot hs, ngxAtoi, digitsValue_decimal]
  have hwide : Int.bmod s (2 ^ 64) = s := Int.bmod_eq_of_le (by omega) (by omega)
  have hall : ((decimal s).all fun c => 48 ≤ c && c ≤ 57) = true := by
    rw [List.all_eq_true]
    intro c hc
    obtain ⟨hlow,hhigh⟩ := decimal_isDigit hc
    simp only [Bool.and_eq_true, decide_eq_true_eq, UInt8.le_iff_toNat_le]
    exact ⟨hlow,hhigh⟩
  simp only [hwide]
  rw [if_pos ⟨decimal_ne_nil s,hall,by omega⟩, int32_of_range (by omega) (by omega)]

end Slot

theorem qkupstreamInit_keyArgs (uri : CommandType) {k : Bytes} (hk : 38 ∉ k) {s : Nat}
    (hs : s < 16384) : qkupstreamInit ⟨uri,keyArgs k s⟩ =
      some { Request.fresh with isSubrequest := true, slotId := s, key := k } := by
  have hslot := keyArgs_slotid k s hk (ampersand_notMem_slot hs)
  have hkey := (takeWhile_eq_self_iff k).mpr hk
  have hne : toString32 s ≠ [] := by
    rw [toString32_slot hs]
    exact decimal_ne_nil s
  have hread : ((ngxHttpArg (text "slotid") (keyArgs k s)).filter (· ≠ [])).elim (-1) ngxAtoi = s := by
    rw [hslot, Option.filter_some, if_pos (by simpa using hne), Option.elim_some, ngxAtoi_slot hs]
  simp only [qkupstreamInit, hread, keyArgs_key, hkey, Option.getD_some]
  exact if_neg (by omega)

section SlotSub

theorem ngxHttpArg_slotArgs {name digits : Bytes} (hname : name = text "key" ∨ name = text "slotid") :
    ngxHttpArg name (text "is_subrequest=1" ++ (text "&slotid=" ++ digits)) =
      ngxHttpArg name (text "slotid=" ++ digits) := by
  have hsplit : text "is_subrequest=1" ++ (text "&slotid=" ++ digits) =
      text "is_subrequest=1" ++ 38 :: (text "slotid=" ++ digits) := by simp [text]
  rw [hsplit]
  apply ngxHttpArg_skip
  · decide
  · decide
  · rintro ⟨hletters,-⟩
    rcases hname with rfl | rfl
    · revert hletters
      simp [text, lowerByte]
    · revert hletters
      simp [text, lowerByte]

theorem slotArgs_slotid {digits : Bytes} (hdigits : 38 ∉ digits) :
    ngxHttpArg (text "slotid") (text "is_subrequest=1" ++ (text "&slotid=" ++ digits)) = some digits := by
  have hbegins : BeginsArg (text "slotid") (text "slotid=" ++ digits) := by
    simp [BeginsArg, text, lowerByte]
  have hdrop : (text "slotid=" ++ digits).drop ((text "slotid").length + 1) = digits := by simp [text]
  rw [ngxHttpArg_slotArgs (.inr rfl), ngxHttpArg_found hbegins, hdrop,
    (takeWhile_eq_self_iff _).mpr hdigits]

theorem slotArgs_key {digits : Bytes} (hdigits : 38 ∉ digits) :
    ngxHttpArg (text "key") (text "is_subrequest=1" ++ (text "&slotid=" ++ digits)) = none := by
  rw [ngxHttpArg_slotArgs (.inl rfl)]
  apply ngxHttpArg_none
  · rw [List.mem_append, not_or]
    exact ⟨by decide,hdigits⟩
  · rintro ⟨hletters,-⟩
    revert hletters
    simp [text, lowerByte]

theorem qkupstreamInit_slotSub (uri : CommandType) {s : Nat} (hs : s < 16384) :
    qkupstreamInit (slotSub uri s) =
      some { Request.fresh with isSubrequest := true, slotId := s, key := [] } := by
  have hdigits := ampersand_notMem_slot hs
  have hslot := slotArgs_slotid hdigits
  have hkey := slotArgs_key hdigits
  have hne : toString32 s ≠ [] := by
    rw [toString32_slot hs]
    exact decimal_ne_nil s
  have hread : ((ngxHttpArg (text "slotid") (text "is_subrequest=1" ++ argSlotid s)).filter
      (· ≠ [])).elim (-1) ngxAtoi = s := by
    rw [argSlotid, hslot, Option.filter_some, if_pos (by simpa using hne), Option.elim_some,
      ngxAtoi_slot hs]
  rw [← argSlotid] at hkey
  simp only [qkupstreamInit, slotSub, hread, hkey, Option.getD_none]
  exact if_neg (by omega)

end SlotSub

theorem qkupstreamInit_key {uri : CommandType} {k : Bytes} {slotId : Int} {r : Request}
    (hinit : qkupstreamInit ⟨uri,keyArgs k slotId⟩ = some r) : r.key = k.takeWhile (· ≠ 38) := by
  unfold qkupstreamInit at hinit
  simp only [keyArgs_key] at hinit
  split at hinit
  · cases hinit
  · cases hinit
    rfl

/-- A key and its slot arrive as they were sent exactly when there is no ampersand in the key. -/
theorem qkupstreamInit_keyArgs_iff (uri : CommandType) (k : Bytes) {s : Nat} (hs : s < 16384) :
    (∃ r, qkupstreamInit ⟨uri,keyArgs k s⟩ = some r ∧ r.key = k ∧ r.slotId = s) ↔ 38 ∉ k := by
  constructor
  · rintro ⟨r,hinit,hkey,-⟩
    rw [← takeWhile_eq_self_iff, ← qkupstreamInit_key hinit]
    exact hkey
  · intro hk
    exact ⟨_,qkupstreamInit_keyArgs uri hk hs,rfl,rfl⟩

theorem qkupstreamInit_keyArgs_plain :
    (4095 < 16384) ∧ ∃ r, qkupstreamInit ⟨.zadd,keyArgs (text "k") 4095⟩ = some r ∧
      r.key = text "k" ∧ r.slotId = 4095 :=
  ⟨by decide,(qkupstreamInit_keyArgs_iff .zadd (text "k") (by decide)).mpr (by decide)⟩

/-- A key with the text of the other argument in it: another key of another slot arrives. -/
theorem qkupstreamInit_keyArgs_smuggled :
    (qkupstreamInit ⟨.zadd,keyArgs (text "a&slotid=5") 7⟩).map (fun r => (r.key,r.slotId)) =
      some (text "a",5) := by
  decide

end QkPack
