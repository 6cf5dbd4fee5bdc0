import Mathlib.Data.List.DropRight
import QkPack.Lib.JsonGen
import QkPack.Lib.JsonText
import QkPack.Lib.Resp

/-!
# Reading back what was written

Whatever bytes the strings of a document hold, the reader finds the document again in the text that the generator
wrote. What the generator takes as it is has to be a word of the format.
-/

namespace Json
open Wire Resp

section Strings

variable {n : Nat} {s t rest : Bytes}

theorem hexValue_hexDigit {n : Nat} (hn : n < 16) : hexValue (hexDigit n) = some n := by
  interval_cases n <;> rfl

theorem readUnit_control {c : UInt8} (hc : c.toNat < 32) :
    readUnit (48 :: 48 :: hexDigit (c.toNat / 16) :: hexDigit (c.toNat % 16) :: rest) = some ([c],rest) := by
  have hzero : hexValue 48 = some 0 := rfl
  have hhigh : hexValue (hexDigit (c.toNat / 16)) = some (c.toNat / 16) := hexValue_hexDigit (by omega)
  have hlow : hexValue (hexDigit (c.toNat % 16)) = some (c.toNat % 16) := hexValue_hexDigit (by omega)
  have hvalue : ((0 * 16 + 0) * 16 + c.toNat / 16) * 16 + c.toNat % 16 = c.toNat := by omega
  have hread : readHex (48 :: 48 :: hexDigit (c.toNat / 16) :: hexDigit (c.toNat % 16) :: rest) =
      some (c.toNat,rest) := by
    simp only [readHex, hzero, hhigh, hlow, Option.bind_eq_bind, Option.bind_some, hvalue]
    rfl
  have hsurrogate : ¬(0xD800 ≤ c.toNat ∧ c.toNat < 0xDC00) := by omega
  simp only [readUnit, hread, if_neg hsurrogate]
  rw [utf8, if_pos (by omega), UInt8.ofNat_toNat]

theorem readStringFrom_backslash {c : UInt8} (h : readEscape s = some ([c],rest)) :
    readStringFrom (n + 1) (92 :: s) = (readStringFrom n rest).map fun p => (c :: p.1,p.2) := by
  rw [readStringFrom, if_neg (by decide), if_pos rfl, h]
  simp only [Option.bind_eq_bind, Option.bind_some]
  cases readStringFrom n rest <;> rfl

theorem readStringFrom_escapeByte (c : UInt8) :
    readStringFrom (n + 1) (escapeByte c ++ rest) = (readStringFrom n rest).map fun p => (c :: p.1,p.2) := by
  by_cases hspecial : c ∈ [13,10,92,34,12,8,9]
  · simp only [List.mem_cons, List.not_mem_nil, or_false] at hspecial
    rcases hspecial with rfl | rfl | rfl | rfl | rfl | rfl | rfl <;> exact readStringFrom_backslash rfl
  · simp only [List.mem_cons, List.not_mem_nil, or_false, not_or] at hspecial
    obtain ⟨h₁,h₂,h₃,h₄,h₅,h₆,h₇⟩ := hspecial
    rw [escapeByte, if_neg h₁, if_neg h₂, if_neg h₃, if_neg h₄, if_neg h₅, if_neg h₆, if_neg h₇]
    split
    case isTrue hcontrol =>
      exact readStringFrom_backslash (s := 117 :: 48 :: 48 :: hexDigit _ :: hexDigit _ :: rest)
        (readUnit_control hcontrol)
    case isFalse hcontrol =>
      rw [List.singleton_append, readStringFrom, if_neg h₄, if_neg h₃, if_neg hcontrol]
      cases readStringFrom n rest <;> rfl

theorem readStringFrom_escape (hn : s.length < n) : readStringFrom n (escape s ++ 34 :: rest) = some (s,rest) := by
  induction s generalizing n with
  | nil =>
    obtain ⟨n,rfl⟩ := Nat.exists_eq_succ_of_ne_zero (Nat.ne_zero_of_lt hn)
    rfl
  | cons c s ih =>
    obtain ⟨n,rfl⟩ := Nat.exists_eq_succ_of_ne_zero (Nat.ne_zero_of_lt hn)
    rw [escape, List.flatMap_cons, List.append_assoc, readStringFrom_escapeByte]
    exact congrArg (Option.map _) (ih (Nat.lt_of_succ_lt_succ hn))

theorem length_le_escape (s : Bytes) : s.length ≤ (escape s).length := by
  induction s with
  | nil => exact Nat.le_refl 0
  | cons c s ih =>
    have hbyte : 1 ≤ (escapeByte c).length := by
      rw [escapeByte_length, shownByte]
      split_ifs <;> decide
    rw [escape, List.flatMap_cons, List.length_append, List.length_cons, ← escape]
    omega

theorem readString_quoted : readString (escape s ++ 34 :: rest) = some (s,rest) := by
  apply readStringFrom_escape
  have hle := length_le_escape s
  rw [List.length_append]
  omega

end Strings

section Blanks

variable {n : Nat} {s s' rest : Bytes} {beautify : Bool}

theorem skipBlanks_skipBlanks (s : Bytes) : skipBlanks (skipBlanks s) = skipBlanks s := List.dropWhile_idempotent _ s

theorem skipBlanks_newline : skipBlanks (newline beautify ++ s) = skipBlanks s := by
  cases beautify <;> rfl

theorem skipBlanks_indent (depth : Nat) : skipBlanks (indent beautify depth ++ s) = skipBlanks s := by
  cases beautify with
  | false => rfl
  | true =>
    change skipBlanks (List.replicate (4 * depth) 32 ++ s) = skipBlanks s
    induction 4 * depth with
    | zero => rfl
    | succ k ih => exact ih

theorem readValue_congr (h : skipBlanks s = skipBlanks s') : readValue n s = readValue n s' := by
  cases n with
  | zero => rfl
  | succ n => rw [readValue, readValue, h]

theorem readMembers_congr (h : skipBlanks s = skipBlanks s') : readMembers n s = readMembers n s' := by
  cases n with
  | zero => rfl
  | succ n => rw [readMembers, readMembers, h]

theorem readElements_congr (h : skipBlanks s = skipBlanks s') : readElements n s = readElements n s' := by
  cases n with
  | zero => rfl
  | succ n => rw [readElements, readElements, readValue_congr h]

theorem readValue_of_members {members : List (Bytes × Tree)} (h : readMembers n s = some (members,rest)) :
    readValue (n + 1) (123 :: s) = some (.object members,rest) := by
  rw [readValue, skipBlanks_brace]
  simp only
  split
  case h_1 heq =>
    -- no member starts with a brace
    have hnone : readMembers n s = none := by
      cases n with
      | zero => rfl
      | succ n =>
        rw [readMembers, heq]
        rfl
    rw [hnone] at h
    cases h
  case h_2 => rw [readMembers_congr (skipBlanks_skipBlanks s), h, Option.map_some]

theorem readValue_of_elements {values : List Tree} (h : readElements n s = some (values,rest)) :
    readValue (n + 1) (91 :: s) = some (.array values,rest) := by
  have hbracket : skipBlanks (91 :: s) = 91 :: s := rfl
  rw [readValue, hbracket]
  simp only
  split
  case h_1 heq =>
    -- no value starts with a bracket that closes
    have hvalue : ∀ m rest, readValue m (93 :: rest) = none := by
      intro m rest
      cases m <;> rfl
    have hnone : readElements n s = none := by
      cases n with
      | zero => rfl
      | succ n =>
        have hclose : readValue n s = readValue n (skipBlanks s) := readValue_congr (skipBlanks_skipBlanks s).symm
        rw [readElements, hclose, heq, hvalue]
    rw [hnone] at h
    cases h
  case h_2 => rw [readElements_congr (skipBlanks_skipBlanks s), h, Option.map_some]

theorem readValue_empty_map (h : skipBlanks s = 125 :: rest) :
    readValue (n + 1) (123 :: s) = some (.object [],rest) := by
  rw [readValue, skipBlanks_brace]
  simp only [h]

theorem readValue_empty_array (h : skipBlanks s = 93 :: rest) :
    readValue (n + 1) (91 :: s) = some (.array [],rest) := by
  have hbracket : skipBlanks (91 :: s) = 91 :: s := rfl
  rw [readValue, hbracket]
  simp only [h]

end Blanks

section Words

def Delimits (rest : Bytes) : Prop := ∀ c ∈ rest.head?, c ∈ [10,44,93,125]

/-- The text of a word, whatever comes behind it, is read as the tree. -/
def IsWord (word : Bytes) (node : Tree) : Prop :=
  ∀ n rest, Delimits rest → readValue (n + 1) (word ++ rest) = some (node,rest)

variable {n : Nat} {rest : Bytes}

theorem readDigits_decimal (m : Nat) (hrest : Delimits rest) :
    readDigits (decimal m ++ rest) = some (decimal m,rest) := by
  have hdigits : ∀ c ∈ decimal m, decide (IsDigit c) = true := fun c hc => decide_eq_true (decimal_isDigit hc)
  have hbehind : rest.takeWhile (fun c => decide (IsDigit c)) = [] ∧
      rest.dropWhile (fun c => decide (IsDigit c)) = rest := by
    cases rest with
    | nil => exact ⟨rfl,rfl⟩
    | cons c rest =>
      have hc : decide (IsDigit c) = false := by
        have hmem := hrest c rfl
        simp only [List.mem_cons, List.not_mem_nil, or_false] at hmem
        rcases hmem with rfl | rfl | rfl | rfl <;> rfl
      exact ⟨by rw [List.takeWhile_cons, hc]; rfl,by rw [List.dropWhile_cons, hc]; rfl⟩
  have hspan : (decimal m ++ rest).span (fun c => decide (IsDigit c)) = (decimal m,rest) := by
    rw [List.span_eq_takeWhile_dropWhile, List.takeWhile_append_of_pos hdigits, hbehind.1, List.append_nil,
      List.dropWhile_append_of_pos hdigits, hbehind.2]
  unfold readDigits
  rw [hspan]
  cases hdecimal : decimal m with
  | nil => exact absurd hdecimal (decimal_ne_nil m)
  | cons c s => rfl

theorem decimal_first (m : Nat) : ∃ c s, decimal m = c :: s ∧ IsDigit c := by
  cases hdecimal : decimal m with
  | nil => exact absurd hdecimal (decimal_ne_nil m)
  | cons c s => exact ⟨c,s,rfl,decimal_isDigit (hdecimal ▸ List.mem_cons_self)⟩

theorem readFraction_delimited (hrest : Delimits rest) : readFraction rest = some (0,rest) := by
  cases rest with
  | nil => rfl
  | cons c rest =>
    have hmem := hrest c rfl
    simp only [List.mem_cons, List.not_mem_nil, or_false] at hmem
    rcases hmem with rfl | rfl | rfl | rfl <;> rfl

theorem readExponent_delimited (hrest : Delimits rest) : readExponent rest = some (1,rest) := by
  cases rest with
  | nil => rfl
  | cons c rest =>
    have hmem := hrest c rfl
    simp only [List.mem_cons, List.not_mem_nil, or_false] at hmem
    rcases hmem with rfl | rfl | rfl | rfl <;> rfl

theorem readNumber_intText (m : Int) (hrest : Delimits rest) :
    readNumber (intText m ++ rest) = some (.number (.finite m),rest) := by
  have hzero : ¬((decimal m.natAbs).head? = some 48 ∧ 1 < (decimal m.natAbs).length) := by
    rintro ⟨hhead,hlength⟩
    rw [decimal_head_zero hhead] at hlength
    exact Nat.lt_irrefl 1 hlength
  by_cases hneg : m < 0
  · have hsign : intText m ++ rest = 45 :: (decimal m.natAbs ++ rest) := by
      rw [intText, if_pos hneg, List.cons_append]
    have hvalue : (m.natAbs : ℚ) = -(m : ℚ) := by
      rw [← Int.cast_natCast, Int.ofNat_natAbs_of_nonpos (Int.le_of_lt hneg), Int.cast_neg]
    simp only [readNumber, hsign, List.head?_cons, if_true, List.drop_succ_cons, List.drop_zero,
      readDigits_decimal m.natAbs hrest, Option.bind_eq_bind, Option.bind_some, if_neg hzero,
      readFraction_delimited hrest, readExponent_delimited hrest, digitsValue_decimal, hvalue]
    simp
  · have hsign : intText m ++ rest = decimal m.natAbs ++ rest := by rw [intText, if_neg hneg]
    have hhead : (decimal m.natAbs ++ rest).head? ≠ some 45 := by
      obtain ⟨c,s,hdecimal,hc⟩ := decimal_first m.natAbs
      rw [hdecimal]
      rintro ⟨⟩
      exact absurd hc.1 (by decide)
    have hvalue : (m.natAbs : ℚ) = m := by
      rw [← Int.cast_natCast, Int.natAbs_of_nonneg (Int.not_lt.mp hneg)]
    simp only [readNumber, hsign, if_neg hhead,
      readDigits_decimal m.natAbs hrest, Option.bind_eq_bind, Option.bind_some, if_neg hzero,
      readFraction_delimited hrest, readExponent_delimited hrest, digitsValue_decimal, hvalue]
    simp

theorem readValue_number {c : UInt8} {s : Bytes} (hc : c = 45 ∨ IsDigit c) :
    readValue (n + 1) (c :: s) = readNumber (c :: s) := by
  have hmem : c ∈ [45,48,49,50,51,52,53,54,55,56,57] := by
    rcases hc with rfl | ⟨hge,hle⟩
    · decide
    · rw [← UInt8.ofNat_toNat (x := c)]
      interval_cases c.toNat <;> decide
  simp only [List.mem_cons, List.not_mem_nil, or_false] at hmem
  rcases hmem with rfl | rfl | rfl | rfl | rfl | rfl | rfl | rfl | rfl | rfl | rfl <;> rfl

theorem isWord_intText (m : Int) : IsWord (intText m) (.number (.finite m)) := by
  intro n rest hrest
  have hhead : ∃ c s, intText m ++ rest = c :: s ∧ (c = 45 ∨ IsDigit c) := by
    obtain ⟨c,s,hdecimal,hc⟩ := decimal_first m.natAbs
    rw [intText, hdecimal]
    split
    · exact ⟨45,_,rfl,.inl rfl⟩
    · exact ⟨c,_,rfl,.inr hc⟩
  obtain ⟨c,s,htext,hc⟩ := hhead
  have hnumber := readNumber_intText m hrest
  rw [htext] at hnumber ⊢
  rw [readValue_number hc, hnumber]

theorem isWord_decimal (m : Nat) : IsWord (decimal m) (.number (.finite m)) := isWord_intText m

theorem isWord_true : IsWord (text "true") (.boolean true) := fun _ _ _ => rfl

theorem isWord_false : IsWord (text "false") (.boolean false) := fun _ _ _ => rfl

end Words

section Documents

mutual

/-- The tree is the one that the document depicts. -/
inductive Depicts : Doc → Tree → Prop
  | string (s : Bytes) : Depicts (.string s) (.string s)
  | word {w : Bytes} {node : Tree} (h : IsWord w node) : Depicts (.word w) node
  | map {members : List (Bytes × Doc)} {nodes : List (Bytes × Tree)} (h : DepictsMembers members nodes) :
    Depicts (.map members) (.object nodes)
  | array {elements : List Doc} {nodes : List Tree} (h : DepictsElements elements nodes) :
    Depicts (.array elements) (.array nodes)

inductive DepictsMembers : List (Bytes × Doc) → List (Bytes × Tree) → Prop
  | nil : DepictsMembers [] []
  | cons {name : Bytes} {d : Doc} {node : Tree} {members : List (Bytes × Doc)} {nodes : List (Bytes × Tree)}
    (h : Depicts d node) (hs : DepictsMembers members nodes) :
    DepictsMembers ((name,d) :: members) ((name,node) :: nodes)

inductive DepictsElements : List Doc → List Tree → Prop
  | nil : DepictsElements [] []
  | cons {d : Doc} {node : Tree} {elements : List Doc} {nodes : List Tree}
    (h : Depicts d node) (hs : DepictsElements elements nodes) : DepictsElements (d :: elements) (node :: nodes)

end

theorem DepictsElements.map {α : Type} {f : α → Doc} {g : α → Tree} {l : List α}
    (h : ∀ a ∈ l, Depicts (f a) (g a)) : DepictsElements (l.map f) (l.map g) := by
  induction l with
  | nil => exact .nil
  | cons a l ih =>
    obtain ⟨ha,hl⟩ := List.forall_mem_cons.mp h
    exact .cons ha (ih hl)

theorem DepictsMembers.append {members members' : List (Bytes × Doc)} {nodes nodes' : List (Bytes × Tree)}
    (h : DepictsMembers members nodes) (h' : DepictsMembers members' nodes') :
    DepictsMembers (members ++ members') (nodes ++ nodes') := by
  induction members generalizing nodes with
  | nil =>
    cases h
    exact h'
  | cons member members ih =>
    cases h with
    | cons hd hs => exact .cons hd (ih hs)

mutual

theorem Depicts.whole {d : Doc} {node : Tree} (h : Depicts d node) : d.Whole := by
  cases h with
  | string s => exact Doc.whole_string s
  | word h => exact Doc.whole_word _
  | map h => exact Doc.whole_map.mpr h.whole
  | array h => exact Doc.whole_array.mpr h.whole

theorem DepictsMembers.whole {members : List (Bytes × Doc)} {nodes : List (Bytes × Tree)}
    (h : DepictsMembers members nodes) : ∀ m ∈ members, m.2.Whole := by
  cases h with
  | nil => exact nofun
  | cons h hs => exact List.forall_mem_cons.mpr ⟨h.whole,hs.whole⟩

theorem DepictsElements.whole {elements : List Doc} {nodes : List Tree} (h : DepictsElements elements nodes) :
    ∀ d ∈ elements, d.Whole := by
  cases h with
  | nil => exact nofun
  | cons h hs => exact List.forall_mem_cons.mpr ⟨h.whole,hs.whole⟩

end

variable {beautify : Bool} {n depth : Nat} {tail rest : Bytes}

theorem renderMembers_key {members : List (Bytes × Doc)} (hne : members ≠ []) :
    renderMembers beautify depth .mapKey members =
      44 :: (newline beautify ++ renderMembers beautify depth .mapStart members) := by
  cases members with
  | nil => exact absurd rfl hne
  | cons member members =>
    obtain ⟨name,d⟩ := member
    simp [renderMembers, lead]

theorem renderElements_in {elements : List Doc} (hne : elements ≠ []) :
    renderElements beautify depth .inArray elements =
      44 :: (newline beautify ++ renderElements beautify depth .arrayStart elements) := by
  cases elements with
  | nil => exact absurd rfl hne
  | cons d elements => simp [renderElements, lead]

theorem delimits_members {members : List (Bytes × Doc)} (htail : Delimits tail) :
    Delimits (renderMembers beautify depth .mapKey members ++ tail) := by
  cases members with
  | nil => exact htail
  | cons member members =>
    rw [renderMembers_key (List.cons_ne_nil _ _)]
    intro c hc
    cases hc
    decide

theorem delimits_elements {elements : List Doc} (htail : Delimits tail) :
    Delimits (renderElements beautify depth .inArray elements ++ tail) := by
  cases elements with
  | nil => exact htail
  | cons d elements =>
    rw [renderElements_in (List.cons_ne_nil _ _)]
    intro c hc
    cases hc
    decide

theorem skipBlanks_closing (bracket : UInt8) (hbracket : bracket ∈ [93,125]) :
    skipBlanks (newline beautify ++ (indent beautify depth ++ bracket :: rest)) = bracket :: rest := by
  rw [skipBlanks_newline, skipBlanks_indent]
  simp only [List.mem_cons, List.not_mem_nil, or_false] at hbracket
  rcases hbracket with rfl | rfl <;> rfl

theorem delimits_closing (bracket : UInt8) (hbracket : bracket ∈ [93,125]) :
    Delimits (newline beautify ++ (indent beautify depth ++ bracket :: rest)) := by
  intro c hc
  simp only [List.mem_cons, List.not_mem_nil, or_false] at hbracket
  cases beautify <;> cases hc <;> rcases hbracket with rfl | rfl <;> decide

mutual

/-- The reader finds a document in its text, with fuel for every byte of it. -/
theorem readValue_render (d : Doc) {node : Tree} (h : Depicts d node) (depth n : Nat) (rest : Bytes)
    (hrest : Delimits rest) (hn : (d.render beautify depth).length < n) :
    readValue n (d.render beautify depth ++ rest) = some (node,rest) := by
  obtain ⟨n,rfl⟩ := Nat.exists_eq_succ_of_ne_zero (Nat.ne_zero_of_lt hn)
  cases h with
  | string s =>
    rw [Doc.render, quoted, List.cons_append, List.cons_append, List.append_assoc, readValue_string]
    exact congrArg (Option.map _) readString_quoted
  | word h => exact h n rest hrest
  | @map members nodes h =>
    simp only [Doc.render, List.cons_append, List.append_assoc, List.nil_append]
    have hclose : skipBlanks (newline beautify ++ (indent beautify depth ++ 125 :: rest)) = 125 :: rest :=
      skipBlanks_closing 125 (by decide)
    cases hmembers : members with
    | nil =>
      subst hmembers
      cases h
      exact readValue_empty_map (skipBlanks_newline.trans hclose)
    | cons member more =>
      rw [← hmembers]
      apply readValue_of_members
      rw [readMembers_congr skipBlanks_newline]
      refine readMembers_render members h (by simp [hmembers]) (depth + 1) n _ rest hclose
        (delimits_closing 125 (by decide)) ?_
      simp only [Doc.render, List.length_append, List.length_cons, List.length_nil] at hn
      omega
  | @array elements nodes h =>
    simp only [Doc.render, List.cons_append, List.append_assoc, List.nil_append]
    have hclose : skipBlanks (newline beautify ++ (indent beautify depth ++ 93 :: rest)) = 93 :: rest :=
      skipBlanks_closing 93 (by decide)
    cases helements : elements with
    | nil =>
      subst helements
      cases h
      exact readValue_empty_array (skipBlanks_newline.trans hclose)
    | cons d more =>
      rw [← helements]
      apply readValue_of_elements
      rw [readElements_congr skipBlanks_newline]
      refine readElements_render elements h (by simp [helements]) (depth + 1) n _ rest hclose
        (delimits_closing 93 (by decide)) ?_
      simp only [Doc.render, List.length_append, List.length_cons, List.length_nil] at hn
      omega

theorem readMembers_render (members : List (Bytes × Doc)) {nodes : List (Bytes × Tree)}
    (h : DepictsMembers members nodes) (hne : members ≠ []) (depth n : Nat) (tail rest : Bytes)
    (hclose : skipBlanks tail = 125 :: rest) (htail : Delimits tail)
    (hn : (renderMembers beautify depth .mapStart members).length < n) :
    readMembers n (renderMembers beautify depth .mapStart members ++ tail) = some (nodes,rest) := by
  obtain ⟨n,rfl⟩ := Nat.exists_eq_succ_of_ne_zero (Nat.ne_zero_of_lt hn)
  cases h with
  | nil => exact absurd rfl hne
  | @cons name d node members nodes hd hs =>
    let more := renderMembers beautify depth .mapKey members ++ tail
    let space : Bytes := if beautify then [32] else []
    have hname : skipBlanks (renderMembers beautify depth .mapStart ((name,d) :: members) ++ tail) =
        34 :: (escape name ++ 34 :: 58 :: (space ++ (d.render beautify depth ++ more))) := by
      have htext : renderMembers beautify depth .mapStart ((name,d) :: members) ++ tail = indent beautify depth ++
          34 :: (escape name ++ 34 :: 58 :: (space ++ (d.render beautify depth ++ more))) := by
        simp [renderMembers, lead, quoted, space, more]
      rw [htext, skipBlanks_indent, skipBlanks_quote]
    have hspace : skipBlanks (space ++ (d.render beautify depth ++ more)) =
        skipBlanks (d.render beautify depth ++ more) := by
      cases beautify <;> rfl
    simp only [renderMembers, quoted, List.length_append, List.length_cons, List.length_nil] at hn
    have hvalue := readValue_render d hd depth n more (delimits_members htail) (by omega)
    rw [readMembers, hname]
    simp only [readString_quoted, skipBlanks_colon, readValue_congr hspace, hvalue]
    cases hmore : members with
    | nil =>
      subst hmore
      cases hs
      simp only [more, renderMembers, List.nil_append, hclose]
    | cons member' more' =>
      have hne' : members ≠ [] := by simp [hmore]
      have hcomma : more = 44 :: (newline beautify ++ (renderMembers beautify depth .mapStart members ++ tail)) := by
        simp [more, renderMembers_key hne']
      rw [renderMembers_key hne', List.length_cons, List.length_append] at hn
      rw [hcomma, skipBlanks_comma]
      simp only [readMembers_congr skipBlanks_newline,
        readMembers_render members hs hne' depth n tail rest hclose htail (by omega), Option.map_some]

theorem readElements_render (elements : List Doc) {nodes : List Tree} (h : DepictsElements elements nodes)
    (hne : elements ≠ []) (depth n : Nat) (tail rest : Bytes) (hclose : skipBlanks tail = 93 :: rest)
    (htail : Delimits tail) (hn : (renderElements beautify depth .arrayStart elements).length + 1 < n) :
    readElements n (renderElements beautify depth .arrayStart elements ++ tail) = some (nodes,rest) := by
  obtain ⟨n,rfl⟩ := Nat.exists_eq_succ_of_ne_zero (Nat.ne_zero_of_lt hn)
  cases h with
  | nil => exact absurd rfl hne
  | @cons d node elements nodes hd hs =>
    simp only [renderElements, List.length_append] at hn
    have hblank : skipBlanks (lead beautify depth .arrayStart ++ (d.render beautify depth ++
        (renderElements beautify depth .inArray elements ++ tail))) =
        skipBlanks (d.render beautify depth ++ (renderElements beautify depth .inArray elements ++ tail)) :=
      skipBlanks_indent depth
    have hvalue := readValue_render d hd depth n (renderElements beautify depth .inArray elements ++ tail)
      (delimits_elements htail) (by omega)
    rw [renderElements, List.append_assoc, List.append_assoc, readElements, readValue_congr hblank, hvalue]
    simp only
    cases hmore : elements with
    | nil =>
      subst hmore
      cases hs
      rw [renderElements, List.nil_append, hclose]
      rfl
    | cons d' more =>
      have hne' : elements ≠ [] := by simp [hmore]
      rw [← hmore, renderElements_in hne', List.cons_append, skipBlanks_comma]
      simp only [List.append_assoc]
      rw [renderElements_in hne', List.length_cons, List.length_append] at hn
      rw [readElements_congr skipBlanks_newline,
        readElements_render elements hs hne' depth n tail rest hclose htail (by omega), Option.map_some]

end

/-- What the generator wrote is read as the tree that the document depicts. -/
theorem parse_gen {d : Doc} {node : Tree} (h : Depicts d node) : parse (gen beautify d.calls) = some node := by
  have hend : Delimits (newline beautify) := by
    intro c hc
    cases beautify <;> cases hc
    decide
  have hblank : skipBlanks (newline beautify) = [] := by cases beautify <;> rfl
  have hlength : (d.render beautify 0).length < (gen beautify d.calls).length + 1 := by
    rw [gen_calls h.whole, List.length_append]
    omega
  have hread : readValue ((gen beautify d.calls).length + 1) (gen beautify d.calls) = some (node,newline beautify) := by
    have hvalue := readValue_render d h 0 _ (newline beautify) hend hlength
    rwa [← gen_calls h.whole] at hvalue
  simp only [parse, hread, hblank, if_true]

/-- A JSON text is in UTF-8, and holds one value. -/
def IsText (s : Bytes) (node : Tree) : Prop := IsUtf8 s ∧ parse s = some node

theorem isText_gen {d : Doc} {node : Tree} (h : Depicts d node) (hutf8 : d.InUtf8) :
    IsText (gen beautify d.calls) node :=
  ⟨isUtf8_gen hutf8,parse_gen h⟩

end Documents

end Json
