import QkPack.Lib.Resp

/-!
# Texts in UTF-8

Bytes that are the UTF-8 of some characters, as `String.utf8EncodeChar` gives it.
-/

namespace Wire

def IsUtf8 (s : Bytes) : Prop := ∃ cs : List Char, s = cs.flatMap String.utf8EncodeChar

theorem isUtf8_nil : IsUtf8 [] := ⟨[],rfl⟩

theorem IsUtf8.append {s t : Bytes} (hs : IsUtf8 s) (ht : IsUtf8 t) : IsUtf8 (s ++ t) := by
  obtain ⟨cs,rfl⟩ := hs
  obtain ⟨ds,rfl⟩ := ht
  exact ⟨cs ++ ds,List.flatMap_append.symm⟩

theorem isUtf8_byte {c : UInt8} (hc : c.toNat < 128) : IsUtf8 [c] := by
  have hvalid : c.toNat.isValidChar := .inl (by omega)
  have hval : (Char.ofNat c.toNat).val.toNat = c.toNat := by
    rw [Char.ofNat, dif_pos hvalid]
    rfl
  refine ⟨[Char.ofNat c.toNat],?_⟩
  rw [List.flatMap_singleton, String.utf8EncodeChar]
  simp only [hval, if_pos (Nat.le_of_lt_succ hc), UInt8.ofNat_toNat]

def ascii (s : Bytes) : Bool := s.all (·.toNat < 128)

theorem isUtf8_of_ascii {s : Bytes} (h : ascii s = true) : IsUtf8 s := by
  induction s with
  | nil => exact isUtf8_nil
  | cons c s ih =>
    obtain ⟨hc,hs⟩ := Bool.and_eq_true_iff.mp h
    exact (isUtf8_byte (of_decide_eq_true hc)).append (ih hs)

theorem isUtf8_decimal (n : Nat) : IsUtf8 (decimal n) :=
  isUtf8_of_ascii (List.all_eq_true.mpr fun _ hc => decide_eq_true ((decimal_isDigit hc).2.trans_lt (by decide)))

theorem isUtf8_intText (n : Int) : IsUtf8 (Resp.intText n) := by
  unfold Resp.intText
  split
  · exact (isUtf8_byte (by decide : (45 : UInt8).toNat < 128)).append (isUtf8_decimal _)
  · exact isUtf8_decimal _

/-- A character is one byte below 128, or all of its bytes are above. -/
theorem utf8EncodeChar_cases (c : Char) :
    (∃ b : UInt8, b.toNat < 128 ∧ String.utf8EncodeChar c = [b]) ∨ ∀ b ∈ String.utf8EncodeChar c, 128 ≤ b.toNat := by
  unfold String.utf8EncodeChar
  dsimp only
  split
  · exact .inl ⟨_,by rw [UInt8.toNat_ofNat']; omega,rfl⟩
  · right
    split_ifs
    all_goals
      simp only [List.mem_cons, List.not_mem_nil, or_false, forall_eq_or_imp, forall_eq, UInt8.toNat_ofNat']
      omega

/-- A map of bytes that leaves those above 127 alone, and gives such texts for the others. -/
theorem IsUtf8.flatMap {s : Bytes} (hs : IsUtf8 s) {f : UInt8 → Bytes}
    (hlow : ∀ b : UInt8, b.toNat < 128 → IsUtf8 (f b)) (hhigh : ∀ b : UInt8, 128 ≤ b.toNat → f b = [b]) :
    IsUtf8 (s.flatMap f) := by
  obtain ⟨cs,rfl⟩ := hs
  induction cs with
  | nil => exact isUtf8_nil
  | cons c cs ih =>
    rw [List.flatMap_cons, List.flatMap_append]
    refine .append ?_ ih
    rcases utf8EncodeChar_cases c with ⟨b,hb,hone⟩ | hall
    · rw [hone, List.flatMap_singleton]
      exact hlow b hb
    · have hsame : (String.utf8EncodeChar c).flatMap f = String.utf8EncodeChar c := by
        rw [List.flatMap_congr fun b hb => hhigh b (hall b hb), List.flatMap_singleton']
      rw [hsame]
      exact ⟨[c],(List.flatMap_singleton ..).symm⟩

end Wire
