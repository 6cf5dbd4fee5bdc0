import QkPack.Lib.Json

/-!
# JSON texts

A reader of JSON texts over bytes. Bytes from 128 on belong to characters of UTF-8 and are taken as they are.
Numbers are read exactly, without the rounding to a double.
-/

namespace Json
open Wire CString

def IsPlain (c : UInt8) : Prop := 32 ≤ c.toNat ∧ c ≠ 34 ∧ c ≠ 92

instance : DecidablePred IsPlain := fun _ => inferInstanceAs (Decidable (_ ∧ _))

def Plain (s : Bytes) : Prop := ∀ c ∈ s, IsPlain c

instance : DecidablePred Plain := fun s => List.decidableBAll _ s

def skipBlanks (s : Bytes) : Bytes := s.dropWhile fun c => c == 32 || c == 9 || c == 10 || c == 13

def hexValue (c : UInt8) : Option Nat :=
  if 48 ≤ c.toNat ∧ c.toNat ≤ 57 then some (c.toNat - 48)
  else if 97 ≤ c.toNat ∧ c.toNat ≤ 102 then some (c.toNat - 87)
  else if 65 ≤ c.toNat ∧ c.toNat ≤ 70 then some (c.toNat - 55)
  else none

def readHex : Bytes → Option (Nat × Bytes)
  | a :: b :: c :: d :: rest => do
    let a ← hexValue a
    let b ← hexValue b
    let c ← hexValue c
    let d ← hexValue d
    return (((a * 16 + b) * 16 + c) * 16 + d,rest)
  | _ => none

def utf8 (n : Nat) : Bytes :=
  if n < 0x80 then [UInt8.ofNat n]
  else if n < 0x800 then [UInt8.ofNat (0xC0 + n / 64),UInt8.ofNat (0x80 + n % 64)]
  else if n < 0x10000 then
    [UInt8.ofNat (0xE0 + n / 4096),UInt8.ofNat (0x80 + n / 64 % 64),UInt8.ofNat (0x80 + n % 64)]
  else
    [UInt8.ofNat (0xF0 + n / 262144),UInt8.ofNat (0x80 + n / 4096 % 64),UInt8.ofNat (0x80 + n / 64 % 64),
      UInt8.ofNat (0x80 + n % 64)]

/-- What follows `\u`: a unit, or two of them that make one character. A half without its other half
is shown as a question mark. -/
def readUnit (s : Bytes) : Option (Bytes × Bytes) :=
  match readHex s with
  | none => none
  | some (n,rest) =>
    if 0xD800 ≤ n ∧ n < 0xDC00 then
      match rest with
      | 92 :: 117 :: behind =>
        match readHex behind with
        | none => none
        | some (m,last) =>
          if 0xDC00 ≤ m ∧ m < 0xE000 then
            some (utf8 (0x10000 + (n - 0xD800) * 1024 + (m - 0xDC00)),last)
          else some ([63],rest)
      | _ => some ([63],rest)
    else some (utf8 n,rest)

def readEscape : Bytes → Option (Bytes × Bytes)
  | 34 :: rest => some ([34],rest)
  | 92 :: rest => some ([92],rest)
  | 47 :: rest => some ([47],rest)
  | 98 :: rest => some ([8],rest)
  | 102 :: rest => some ([12],rest)
  | 110 :: rest => some ([10],rest)
  | 114 :: rest => some ([13],rest)
  | 116 :: rest => some ([9],rest)
  | 117 :: rest => readUnit rest
  | _ => none

def readStringFrom : Nat → Bytes → Option (Bytes × Bytes)
  | 0, _ => none
  | _ + 1, [] => none
  | n + 1, c :: s =>
    if c = 34 then some ([],s)
    else if c = 92 then do
      let (d,s) ← readEscape s
      let (t,rest) ← readStringFrom n s
      return (d ++ t,rest)
    else if c.toNat < 32 then none
    else do
      let (t,rest) ← readStringFrom n s
      return (c :: t,rest)

/-- The string behind an opening quote, and what is behind the closing one. -/
def readString (s : Bytes) : Option (Bytes × Bytes) := readStringFrom (s.length + 1) s

def readDigits (s : Bytes) : Option (Bytes × Bytes) :=
  match s.span fun c => decide (IsDigit c) with
  | ([],_) => none
  | (digits,rest) => some (digits,rest)

def readFraction : Bytes → Option (ℚ × Bytes)
  | 46 :: s => (readDigits s).map fun (digits,rest) => ((digitsValue digits : ℚ) / 10 ^ digits.length,rest)
  | s => some (0,s)

def readExponent : Bytes → Option (ℚ × Bytes)
  | c :: s =>
    if c = 101 ∨ c = 69 then
      match s with
      | 45 :: s => (readDigits s).map fun (digits,rest) => (1 / 10 ^ digitsValue digits,rest)
      | 43 :: s => (readDigits s).map fun (digits,rest) => (10 ^ digitsValue digits,rest)
      | s => (readDigits s).map fun (digits,rest) => (10 ^ digitsValue digits,rest)
    else some (1,c :: s)
  | [] => some (1,[])

def readNumber (s : Bytes) : Option (Tree × Bytes) := do
  let (sign,s) := if s.head? = some 45 then ((-1 : ℚ),s.drop 1) else (1,s)
  let (digits,s) ← readDigits s
  -- no zero stands in front of other digits
  if digits.head? = some 48 ∧ 1 < digits.length then none
  else
    let (fraction,s) ← readFraction s
    let (power,s) ← readExponent s
    return (.number (.finite (sign * (digitsValue digits + fraction) * power)),s)

def readWord (word : String) (node : Tree) (s : Bytes) : Option (Tree × Bytes) :=
  if text word <+: s then some (node,s.drop (text word).length) else none

mutual

def readValue : Nat → Bytes → Option (Tree × Bytes)
  | 0, _ => none
  | n + 1, s =>
    match skipBlanks s with
    | 34 :: s => (readString s).map fun (t,rest) => (.string t,rest)
    | 123 :: s =>
      match skipBlanks s with
      | 125 :: rest => some (.object [],rest)
      | s => (readMembers n s).map fun (members,rest) => (.object members,rest)
    | 91 :: s =>
      match skipBlanks s with
      | 93 :: rest => some (.array [],rest)
      | s => (readElements n s).map fun (values,rest) => (.array values,rest)
    | s =>
      (readWord "true" (.boolean true) s).or <| (readWord "false" (.boolean false) s).or <|
        (readWord "null" .null s).or (readNumber s)

def readMembers : Nat → Bytes → Option (List (Bytes × Tree) × Bytes)
  | 0, _ => none
  | n + 1, s =>
    match skipBlanks s with
    | 34 :: s =>
      match readString s with
      | none => none
      | some (name,s) =>
        match skipBlanks s with
        | 58 :: s =>
          match readValue n s with
          | none => none
          | some (value,s) =>
            match skipBlanks s with
            | 44 :: s => (readMembers n s).map fun (members,rest) => ((name,value) :: members,rest)
            | 125 :: rest => some ([(name,value)],rest)
            | _ => none
        | _ => none
    | _ => none

def readElements : Nat → Bytes → Option (List Tree × Bytes)
  | 0, _ => none
  | n + 1, s =>
    match readValue n s with
    | none => none
    | some (value,s) =>
      match skipBlanks s with
      | 44 :: s => (readElements n s).map fun (values,rest) => (value :: values,rest)
      | 93 :: rest => some ([value],rest)
      | _ => none

end

/-- The tree of a text that holds one value and nothing else. -/
def parse (s : Bytes) : Option Tree :=
  match readValue (s.length + 1) s with
  | some (node,rest) => if skipBlanks rest = [] then some node else none
  | none => none

section Strings

variable {s t d rest tail : Bytes}

theorem plain_cons {c : UInt8} : Plain (c :: s) ↔ IsPlain c ∧ Plain s := List.forall_mem_cons

theorem readStringFrom_plain {n : Nat} (ht : Plain t) (hn : t.length < n) :
    readStringFrom n (t ++ 34 :: rest) = some (t,rest) := by
  induction t generalizing n with
  | nil =>
    obtain ⟨n,rfl⟩ := Nat.exists_eq_add_of_lt hn
    simp [readStringFrom]
  | cons c t ih =>
    obtain ⟨n,rfl⟩ := Nat.exists_eq_add_of_lt (Nat.zero_lt_of_lt hn)
    obtain ⟨⟨hge,hquote,hslash⟩,ht⟩ := plain_cons.mp ht
    rw [Nat.zero_add, List.length_cons, Nat.succ_lt_succ_iff] at hn
    rw [Nat.zero_add, List.cons_append, readStringFrom, if_neg hquote, if_neg hslash,
      if_neg (Nat.not_lt.mpr hge), ih ht hn]
    rfl

theorem readString_plain (ht : Plain t) : readString (t ++ 34 :: rest) = some (t,rest) := by
  apply readStringFrom_plain ht
  rw [List.length_append]
  omega

theorem utf8_length_le (n : Nat) : (utf8 n).length ≤ 4 := by
  unfold utf8
  split_ifs <;> simp

theorem readHex_before {n : Nat} (h : readHex (s ++ 34 :: tail) = some (n,rest)) :
    ∃ used left, s = used ++ left ∧ rest = left ++ 34 :: tail ∧ used.length = 4 := by
  match s with
  | a :: b :: c :: d :: left =>
    simp only [List.cons_append, readHex, Option.bind_eq_bind, Option.bind_eq_some_iff] at h
    obtain ⟨_,-,_,-,_,-,_,-,h⟩ := h
    cases h
    exact ⟨[a,b,c,d],left,rfl,rfl,rfl⟩
  | [] | [a] | [a,b] | [a,b,c] =>
    -- the quote is no digit
    exfalso
    revert h
    rcases tail with _ | ⟨x,_ | ⟨y,_ | ⟨z,tail⟩⟩⟩ <;> simp [readHex, hexValue]

theorem unit_behind (h : s ++ 34 :: tail = 92 :: 117 :: rest) :
    ∃ left, s = 92 :: 117 :: left ∧ rest = left ++ 34 :: tail := by
  match s with
  | [] | [a] => simp at h
  | a :: b :: left =>
    simp only [List.cons_append, List.cons.injEq] at h
    obtain ⟨rfl,rfl,h⟩ := h
    exact ⟨left,rfl,h.symm⟩

theorem readUnit_before (h : readUnit (s ++ 34 :: tail) = some (d,rest)) :
    ∃ used left, s = used ++ left ∧ rest = left ++ 34 :: tail ∧ d.length ≤ used.length := by
  unfold readUnit at h
  cases hhex : readHex (s ++ 34 :: tail) with
  | none => simp [hhex] at h
  | some first =>
    obtain ⟨n,mid⟩ := first
    obtain ⟨used,left,rfl,rfl,hused⟩ := readHex_before hhex
    have hone := utf8_length_le n
    simp only [hhex] at h
    split at h
    · split at h
      · rename_i behind hbehind
        obtain ⟨left',rfl,rfl⟩ := unit_behind hbehind
        split at h
        · cases h
        · rename_i m last hlow
          obtain ⟨low,behind',rfl,rfl,hlength⟩ := readHex_before hlow
          split at h
          · obtain ⟨rfl,rfl⟩ := Prod.mk.inj (Option.some.inj h)
            refine ⟨used ++ 92 :: 117 :: low,behind',?_,rfl,?_⟩
            · simp
            · exact (utf8_length_le _).trans (by simp [hused])
          · cases h
            exact ⟨used,_,rfl,hbehind,by simp [hused]⟩
      · cases h
        exact ⟨used,left,rfl,rfl,by simp [hused]⟩
    · cases h
      exact ⟨used,left,rfl,rfl,by omega⟩

theorem readEscape_before (h : readEscape (s ++ 34 :: tail) = some (d,rest)) :
    (s = [] ∧ d = [34] ∧ rest = tail) ∨
      ∃ used left, s = used ++ left ∧ rest = left ++ 34 :: tail ∧ d.length ≤ used.length := by
  cases s with
  | nil =>
    cases h
    exact Or.inl ⟨rfl,rfl,rfl⟩
  | cons c s =>
    right
    rw [List.cons_append] at h
    unfold readEscape at h
    split at h
    case h_9 heq =>
      obtain ⟨rfl,rfl⟩ := List.cons.inj heq
      obtain ⟨used,left,rfl,hrest,hle⟩ := readUnit_before h
      exact ⟨117 :: used,left,rfl,hrest,hle.trans (Nat.le_succ _)⟩
    case h_10 => cases h
    all_goals
      rename_i heq
      obtain ⟨rfl,rfl⟩ := List.cons.inj heq
      cases h
      exact ⟨[_],s,rfl,rfl,le_rfl⟩

/-- What is read of a string with a quote behind it: less than the string, or the string itself up to that
quote, or the quote too and what is read behind it, because the string ends with a backslash. -/
theorem readStringFrom_before {n : Nat} (h : readStringFrom n (s ++ 34 :: tail) = some (t,rest)) :
    t.length < s.length ∨ (Plain s ∧ t = s ∧ rest = tail) ∨
      ∃ m front back before, s = before ++ [92] ∧ t = front ++ 34 :: back ∧
        readStringFrom m tail = some (back,rest) := by
  induction n generalizing s t with
  | zero => cases h
  | succ n ih =>
    cases s with
    | nil =>
      cases h
      exact Or.inr (Or.inl ⟨List.forall_mem_nil _,rfl,rfl⟩)
    | cons c s =>
      rw [List.cons_append, readStringFrom] at h
      split_ifs at h with hquote hslash hcontrol
      · cases h
        exact Or.inl (Nat.succ_pos _)
      · simp only [Option.bind_eq_bind, Option.bind_eq_some_iff] at h
        obtain ⟨⟨d,mid⟩,hescape,⟨t',rest'⟩,hread,h⟩ := h
        cases h
        subst hslash
        rcases readEscape_before hescape with ⟨rfl,rfl,rfl⟩ | ⟨used,left,rfl,rfl,hle⟩
        · exact Or.inr (Or.inr ⟨n,[],t',[],rfl,rfl,hread⟩)
        · rcases ih hread with hlt | ⟨hplain,rfl,rfl⟩ | ⟨m,front,back,before,rfl,rfl,hback⟩
          · left
            simp only [List.length_append, List.length_cons]
            omega
          · left
            simp only [List.length_append, List.length_cons]
            omega
          · exact Or.inr (Or.inr ⟨m,d ++ front,back,92 :: (used ++ before),by simp,by simp,hback⟩)
      · simp only [Option.bind_eq_bind, Option.bind_eq_some_iff] at h
        obtain ⟨⟨t',rest'⟩,hread,h⟩ := h
        cases h
        rcases ih hread with hlt | ⟨hplain,rfl,rfl⟩ | ⟨m,front,back,before,rfl,rfl,hback⟩
        · exact Or.inl (Nat.succ_lt_succ hlt)
        · exact Or.inr (Or.inl ⟨plain_cons.mpr ⟨⟨Nat.not_lt.mp hcontrol,hquote,hslash⟩,hplain⟩,rfl,rfl⟩)
        · exact Or.inr (Or.inr ⟨m,c :: front,back,c :: before,rfl,rfl,hback⟩)

/-- A string that is read as itself is plain, if what is read behind the quote does not end with a backslash. -/
theorem plain_of_readString (h : readString (s ++ 34 :: tail) = some (s,rest))
    (htail : ∀ m back, readStringFrom m tail = some (back,rest) → ∃ c, back.getLast? = some c ∧ c ≠ 92) :
    Plain s ∧ rest = tail := by
  rcases readStringFrom_before h with hlt | ⟨hplain,-,hrest⟩ | ⟨m,front,back,before,hs,ht,hback⟩
  · exact absurd hlt (Nat.lt_irrefl _)
  · exact ⟨hplain,hrest⟩
  · obtain ⟨c,hlast,hc⟩ := htail m back hback
    have hne : back ≠ [] := by
      rintro rfl
      cases hlast
    have hend : s.getLast? = some c := by
      rw [ht, List.getLast?_append_of_ne_nil _ (List.cons_ne_nil _ _), List.getLast?_cons_of_ne_nil hne, hlast]
    rw [hs, List.getLast?_append_of_ne_nil _ (List.cons_ne_nil _ _), List.getLast?_singleton] at hend
    exact absurd (Option.some.inj hend).symm hc

end Strings

section Objects

variable {name s t rest rest' : Bytes} {n : Nat} {members : List (Bytes × Tree)}

@[simp] theorem skipBlanks_quote : skipBlanks (34 :: s) = 34 :: s := rfl

@[simp] theorem skipBlanks_comma : skipBlanks (44 :: s) = 44 :: s := rfl

@[simp] theorem skipBlanks_colon : skipBlanks (58 :: s) = 58 :: s := rfl

@[simp] theorem skipBlanks_brace : skipBlanks (123 :: s) = 123 :: s := rfl

@[simp] theorem skipBlanks_close : skipBlanks (125 :: s) = 125 :: s := rfl

theorem readValue_string : readValue (n + 1) (34 :: s) = (readString s).map fun p => (.string p.1,p.2) := by
  rw [readValue, skipBlanks_quote]
  rfl

theorem readValue_object :
    readValue (n + 1) (123 :: 34 :: s) = (readMembers n (34 :: s)).map fun p => (.object p.1,p.2) := by
  rw [readValue, skipBlanks_brace]
  simp only [skipBlanks_quote]
  rfl

theorem readMembers_comma (hname : Plain name) (hread : readString s = some (t,44 :: rest)) :
    readMembers (n + 2) (34 :: (name ++ 34 :: 58 :: 34 :: s)) =
      (readMembers (n + 1) rest).map fun p => ((name,.string t) :: p.1,p.2) := by
  rw [readMembers, skipBlanks_quote]
  simp only [readString_plain hname, skipBlanks_colon, skipBlanks_comma, readValue_string, hread, Option.map_some]

theorem readMembers_last (hname : Plain name) (hread : readString s = some (t,125 :: rest)) :
    readMembers (n + 2) (34 :: (name ++ 34 :: 58 :: 34 :: s)) = some ([(name,.string t)],rest) := by
  rw [readMembers, skipBlanks_quote]
  simp only [readString_plain hname, skipBlanks_colon, skipBlanks_close, readValue_string, hread, Option.map_some]

theorem readMembers_first (hname : Plain name)
    (h : readMembers (n + 2) (34 :: (name ++ 34 :: 58 :: 34 :: s)) = some (members,rest')) :
    ∃ t rest others, readString s = some (t,rest) ∧ members = (name,.string t) :: others := by
  rw [readMembers, skipBlanks_quote] at h
  simp only [readString_plain hname, skipBlanks_colon, readValue_string] at h
  cases hread : readString s with
  | none => simp [hread] at h
  | some p =>
    obtain ⟨t,rest⟩ := p
    refine ⟨t,rest,members.tail,rfl,?_⟩
    simp only [hread, Option.map_some] at h
    split at h
    · obtain ⟨p,-,hp⟩ := Option.map_eq_some_iff.mp h
      cases hp
      rfl
    · cases h
      rfl
    · cases h

theorem parse_eq_some {node : Tree} (h : parse s = some node) :
    ∃ rest, readValue (s.length + 1) s = some (node,rest) := by
  unfold parse at h
  split at h
  · rename_i node' rest hread
    split at h
    · cases h
      exact ⟨rest,hread⟩
    · cases h
  · cases h

end Objects

end Json
