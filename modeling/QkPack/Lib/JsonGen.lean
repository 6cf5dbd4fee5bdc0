import QkPack.Lib.Json
import QkPack.Lib.Utf8

/-!
# Writing JSON

A generator that is told to open and close maps and arrays and to put strings and other atoms, as `yajl_gen`
does. It keeps, for each open container, what it expects next. Beside it the text of a document by recursion over
the document; `gen_calls` says that the generator writes it if it refuses none of its numbers.
-/

namespace Json
open Wire

inductive GenState where
  | start | mapStart | mapKey | mapVal | arrayStart | inArray | complete
deriving DecidableEq

inductive GenCall where
  | mapOpen | mapClose | arrayOpen | arrayClose
  | string (s : Bytes)
  /-- A number or a boolean, as it is shown. -/
  | word (s : Bytes)
  /-- A number that JSON has no word for. -/
  | refused
deriving DecidableEq

/-- The states of the open containers, the innermost first, and the text so far. -/
structure Gen where
  states : List GenState
  out : Bytes

def hexDigit (n : Nat) : UInt8 := if n < 10 then UInt8.ofNat (48 + n) else UInt8.ofNat (55 + n)

/-- A byte as `yajl_string_encode` puts it. -/
def escapeByte (c : UInt8) : Bytes :=
  if c = 13 then text "\\r" else if c = 10 then text "\\n" else if c = 92 then text "\\\\"
  else if c = 34 then text "\\\"" else if c = 12 then text "\\f" else if c = 8 then text "\\b"
  else if c = 9 then text "\\t"
  else if c.toNat < 32 then text "\\u00" ++ [hexDigit (c.toNat / 16),hexDigit (c.toNat % 16)]
  else [c]

def escape (s : Bytes) : Bytes := s.flatMap escapeByte

def quoted (s : Bytes) : Bytes := 34 :: escape s ++ [34]

/-- How many bytes a byte of a string takes: most stay as they are, some have an escape of their own, and the other
control characters are written with four digits. -/
def shownByte (c : UInt8) : Nat :=
  if c ∈ [13,10,92,34,12,8,9] then 2 else if c.toNat < 32 then 6 else 1

def shownLength (s : Bytes) : Nat := (s.map shownByte).sum

theorem escapeByte_length (c : UInt8) : (escapeByte c).length = shownByte c := by
  unfold shownByte
  split
  · rename_i hmem
    simp only [List.mem_cons, List.not_mem_nil, or_false] at hmem
    rcases hmem with rfl | rfl | rfl | rfl | rfl | rfl | rfl <;> rfl
  · rename_i hnot
    simp only [List.mem_cons, List.not_mem_nil, or_false, not_or] at hnot
    obtain ⟨h₁,h₂,h₃,h₄,h₅,h₆,h₇⟩ := hnot
    rw [escapeByte, if_neg h₁, if_neg h₂, if_neg h₃, if_neg h₄, if_neg h₅, if_neg h₆, if_neg h₇]
    split <;> rfl

theorem quoted_length (s : Bytes) : (quoted s).length = shownLength s + 2 := by
  have hescape : (escape s).length = shownLength s := by
    induction s with
    | nil => rfl
    | cons c s ih =>
      rw [escape, List.flatMap_cons, List.length_append, escapeByte_length, ← escape, ih]
      exact List.sum_cons.symm
  rw [quoted, List.cons_append, List.length_cons, List.length_append, hescape, List.length_singleton]

def GenState.appended : GenState → GenState
  | .start => .complete
  | .mapStart | .mapKey => .mapVal
  | .arrayStart => .inArray
  | .mapVal => .mapKey
  | s => s

section Machine

variable (beautify : Bool)

def newline : Bytes := if beautify then [10] else []

def indent (depth : Nat) : Bytes := if beautify then List.replicate (4 * depth) 32 else []

/-- What comes before an atom or a container: a separator and white space. -/
def lead (depth : Nat) : GenState → Bytes
  | .mapKey | .inArray => 44 :: newline beautify ++ indent beautify depth
  | .mapVal => 58 :: if beautify then [32] else []
  | _ => indent beautify depth

/-- The text is followed by a line feed as soon as it is complete. -/
def finalNewline (s : GenState) : Bytes := if s = .complete then newline beautify else []

/-- Keys have to be strings. A call that does not fit is ignored, and so is a number that is refused: the generator
still expects what it expected before. -/
def Gen.call (g : Gen) (c : GenCall) : Gen :=
  match g.states with
  | [] => g
  | s :: rest =>
    let depth := rest.length
    let key := s = .mapKey ∨ s = .mapStart
    if s = .complete then g
    else match c with
      | .string t =>
        ⟨s.appended :: rest,g.out ++ lead beautify depth s ++ quoted t ++ finalNewline beautify s.appended⟩
      | .word t =>
        if key then g
        else ⟨s.appended :: rest,g.out ++ lead beautify depth s ++ t ++ finalNewline beautify s.appended⟩
      | .mapOpen =>
        if key then g
        else ⟨.mapStart :: s :: rest,g.out ++ lead beautify depth s ++ 123 :: newline beautify⟩
      | .arrayOpen =>
        if key then g
        else ⟨.arrayStart :: s :: rest,g.out ++ lead beautify depth s ++ 91 :: newline beautify⟩
      | .mapClose => close 125
      | .arrayClose => close 93
      | .refused => g
where
  close (bracket : UInt8) : Gen :=
    match g.states with
    | _ :: s :: rest =>
      ⟨s.appended :: rest,
        g.out ++ newline beautify ++ (if s.appended = .mapVal then [] else indent beautify rest.length) ++
          bracket :: finalNewline beautify s.appended⟩
    | _ => g

def gen (calls : List GenCall) : Bytes := (calls.foldl (Gen.call beautify) ⟨[.start],[]⟩).out

end Machine

/-- A document; the names of a map are in the order in which they are put. -/
inductive Doc where
  | string (s : Bytes)
  | word (s : Bytes)
  | refused
  | map (members : List (Bytes × Doc))
  | array (elements : List Doc)

def Doc.member (name : Bytes) : Doc → Option Doc
  | .map members => members.lookup name
  | _ => none

mutual

def Doc.calls : Doc → List GenCall
  | .string s => [.string s]
  | .word s => [.word s]
  | .refused => [.refused]
  | .map members => .mapOpen :: memberCalls members ++ [.mapClose]
  | .array elements => .arrayOpen :: elementCalls elements ++ [.arrayClose]

def memberCalls : List (Bytes × Doc) → List GenCall
  | [] => []
  | (name,d) :: members => .string name :: d.calls ++ memberCalls members

def elementCalls : List Doc → List GenCall
  | [] => []
  | d :: elements => d.calls ++ elementCalls elements

end

/-- No number of the document is refused. -/
def Doc.Whole (d : Doc) : Prop := GenCall.refused ∉ d.calls

section Whole

theorem refused_notMem_memberCalls {members : List (Bytes × Doc)} :
    GenCall.refused ∉ memberCalls members ↔ ∀ m ∈ members, m.2.Whole := by
  induction members with
  | nil => simp [memberCalls]
  | cons m members ih => simp [memberCalls, Doc.Whole, ih]

theorem refused_notMem_elementCalls {elements : List Doc} :
    GenCall.refused ∉ elementCalls elements ↔ ∀ d ∈ elements, d.Whole := by
  induction elements with
  | nil => simp [elementCalls]
  | cons d elements ih => simp [elementCalls, Doc.Whole, ih]

@[simp] theorem Doc.whole_string (s : Bytes) : (Doc.string s).Whole := by simp [Whole, calls]

@[simp] theorem Doc.whole_word (s : Bytes) : (Doc.word s).Whole := by simp [Whole, calls]

@[simp] theorem Doc.not_whole_refused : ¬ Doc.refused.Whole := by simp [Whole, calls]

@[simp] theorem Doc.whole_map {members : List (Bytes × Doc)} : (Doc.map members).Whole ↔ ∀ m ∈ members, m.2.Whole := by
  rw [← refused_notMem_memberCalls]
  simp [Whole, calls]

@[simp] theorem Doc.whole_array {elements : List Doc} : (Doc.array elements).Whole ↔ ∀ d ∈ elements, d.Whole := by
  rw [← refused_notMem_elementCalls]
  simp [Whole, calls]

end Whole

section Render

variable (beautify : Bool)

mutual

def Doc.render (depth : Nat) : Doc → Bytes
  | .string s => quoted s
  | .word s => s
  | .refused => []
  | .map members =>
    123 :: newline beautify ++ renderMembers (depth + 1) .mapStart members ++ newline beautify ++
      indent beautify depth ++ [125]
  | .array elements =>
    91 :: newline beautify ++ renderElements (depth + 1) .arrayStart elements ++ newline beautify ++
      indent beautify depth ++ [93]

def renderMembers (depth : Nat) (s : GenState) : List (Bytes × Doc) → Bytes
  | [] => []
  | (name,d) :: members =>
    lead beautify depth s ++ quoted name ++ lead beautify depth .mapVal ++ d.render depth ++
      renderMembers depth .mapKey members

def renderElements (depth : Nat) (s : GenState) : List Doc → Bytes
  | [] => []
  | d :: elements => lead beautify depth s ++ d.render depth ++ renderElements depth .inArray elements

end

/-- Whether something other than a string can come next. -/
def GenState.TakesValue (s : GenState) : Prop := s ∉ [.mapKey,.mapStart,.complete]

instance (s : GenState) : Decidable s.TakesValue := inferInstanceAs (Decidable (_ ∉ _))

theorem GenState.TakesValue.appended_ne {s : GenState} (hs : s.TakesValue) : s.appended ≠ .mapVal := by
  revert hs
  unfold GenState.TakesValue
  cases s <;> decide

variable {beautify}

theorem finalNewline_of_ne {s : GenState} (hs : s ≠ .complete) : finalNewline beautify s = [] := if_neg hs

section Calls

variable {s : GenState} {rest : List GenState} {out : Bytes}

theorem call_string (hs : s ≠ .complete) (t : Bytes) :
    Gen.call beautify ⟨s :: rest,out⟩ (.string t) = ⟨s.appended :: rest,
      out ++ lead beautify rest.length s ++ quoted t ++ finalNewline beautify s.appended⟩ := by
  simp only [Gen.call, if_neg hs]

theorem call_word (hs : s.TakesValue) (t : Bytes) :
    Gen.call beautify ⟨s :: rest,out⟩ (.word t) = ⟨s.appended :: rest,
      out ++ lead beautify rest.length s ++ t ++ finalNewline beautify s.appended⟩ := by
  simp only [GenState.TakesValue, List.mem_cons, List.not_mem_nil, or_false, not_or] at hs
  simp only [Gen.call, if_neg hs.2.2, if_neg (not_or.mpr ⟨hs.1,hs.2.1⟩)]

theorem call_mapOpen (hs : s.TakesValue) :
    Gen.call beautify ⟨s :: rest,out⟩ .mapOpen =
      ⟨.mapStart :: s :: rest,out ++ lead beautify rest.length s ++ 123 :: newline beautify⟩ := by
  simp only [GenState.TakesValue, List.mem_cons, List.not_mem_nil, or_false, not_or] at hs
  simp only [Gen.call, if_neg hs.2.2, if_neg (not_or.mpr ⟨hs.1,hs.2.1⟩)]

theorem call_arrayOpen (hs : s.TakesValue) :
    Gen.call beautify ⟨s :: rest,out⟩ .arrayOpen =
      ⟨.arrayStart :: s :: rest,out ++ lead beautify rest.length s ++ 91 :: newline beautify⟩ := by
  simp only [GenState.TakesValue, List.mem_cons, List.not_mem_nil, or_false, not_or] at hs
  simp only [Gen.call, if_neg hs.2.2, if_neg (not_or.mpr ⟨hs.1,hs.2.1⟩)]

theorem call_mapClose {inner : GenState} (hinner : inner ≠ .complete) (hs : s.TakesValue) :
    Gen.call beautify ⟨inner :: s :: rest,out⟩ .mapClose =
      ⟨s.appended :: rest,out ++ newline beautify ++ indent beautify rest.length ++
        125 :: finalNewline beautify s.appended⟩ := by
  simp only [Gen.call, Gen.call.close, if_neg hinner, if_neg hs.appended_ne]

theorem call_arrayClose {inner : GenState} (hinner : inner ≠ .complete) (hs : s.TakesValue) :
    Gen.call beautify ⟨inner :: s :: rest,out⟩ .arrayClose =
      ⟨s.appended :: rest,out ++ newline beautify ++ indent beautify rest.length ++
        93 :: finalNewline beautify s.appended⟩ := by
  simp only [Gen.call, Gen.call.close, if_neg hinner, if_neg hs.appended_ne]

end Calls

mutual

theorem foldl_calls (d : Doc) (hd : d.Whole) {s : GenState} (hs : s.TakesValue) (rest : List GenState)
    (out : Bytes) : d.calls.foldl (Gen.call beautify) ⟨s :: rest,out⟩ = ⟨s.appended :: rest,
      out ++ lead beautify rest.length s ++ d.render beautify rest.length ++ finalNewline beautify s.appended⟩ := by
  cases d with
  | string t =>
    have hne : s ≠ .complete := by
      rintro rfl
      exact hs (by decide)
    exact call_string hne t
  | word t => exact call_word hs t
  | refused => exact absurd hd Doc.not_whole_refused
  | map members =>
    obtain ⟨inner,hinner,hmembers⟩ := foldl_memberCalls members (Doc.whole_map.mp hd) (.inl rfl) (s :: rest)
      (out ++ lead beautify rest.length s ++ 123 :: newline beautify)
    rw [Doc.calls, List.cons_append, List.foldl_cons, call_mapOpen hs, List.foldl_append, hmembers,
      List.foldl_cons, List.foldl_nil, call_mapClose hinner hs, Doc.render]
    simp
  | array elements =>
    obtain ⟨inner,hinner,helements⟩ := foldl_elementCalls elements (Doc.whole_array.mp hd) (.inl rfl) (s :: rest)
      (out ++ lead beautify rest.length s ++ 91 :: newline beautify)
    rw [Doc.calls, List.cons_append, List.foldl_cons, call_arrayOpen hs, List.foldl_append, helements,
      List.foldl_cons, List.foldl_nil, call_arrayClose hinner hs, Doc.render]
    simp

theorem foldl_memberCalls (members : List (Bytes × Doc)) (hwhole : ∀ m ∈ members, m.2.Whole) {s : GenState}
    (hs : s = .mapStart ∨ s = .mapKey) (rest : List GenState) (out : Bytes) :
    ∃ s', s' ≠ .complete ∧ (memberCalls members).foldl (Gen.call beautify) ⟨s :: rest,out⟩ =
      ⟨s' :: rest,out ++ renderMembers beautify rest.length s members⟩ := by
  cases members with
  | nil =>
    refine ⟨s,?_,?_⟩
    · rcases hs with rfl | rfl <;> decide
    · rw [memberCalls, renderMembers, List.foldl_nil, List.append_nil]
  | cons member members =>
    obtain ⟨name,d⟩ := member
    have hne : s ≠ .complete := by rcases hs with rfl | rfl <;> decide
    have hval : s.appended = .mapVal := by rcases hs with rfl | rfl <;> rfl
    obtain ⟨hfirst,hothers⟩ := List.forall_mem_cons.mp hwhole
    have hd := foldl_calls d hfirst (s := .mapVal) (by decide) rest
      (out ++ lead beautify rest.length s ++ quoted name)
    obtain ⟨s',hs',hmembers⟩ := foldl_memberCalls members hothers (.inr rfl) rest
      (out ++ lead beautify rest.length s ++ quoted name ++ lead beautify rest.length .mapVal ++
        d.render beautify rest.length)
    refine ⟨s',hs',?_⟩
    rw [memberCalls, List.cons_append, List.foldl_cons, call_string hne, hval, finalNewline_of_ne (by decide),
      List.append_nil, List.foldl_append, hd, finalNewline_of_ne (by decide), List.append_nil]
    refine hmembers.trans ?_
    simp [renderMembers]

theorem foldl_elementCalls (elements : List Doc) (hwhole : ∀ d ∈ elements, d.Whole) {s : GenState}
    (hs : s = .arrayStart ∨ s = .inArray) (rest : List GenState) (out : Bytes) :
    ∃ s', s' ≠ .complete ∧ (elementCalls elements).foldl (Gen.call beautify) ⟨s :: rest,out⟩ =
      ⟨s' :: rest,out ++ renderElements beautify rest.length s elements⟩ := by
  cases elements with
  | nil =>
    refine ⟨s,?_,?_⟩
    · rcases hs with rfl | rfl <;> decide
    · rw [elementCalls, renderElements, List.foldl_nil, List.append_nil]
  | cons d elements =>
    have htakes : s.TakesValue := by rcases hs with rfl | rfl <;> decide
    have hin : s.appended = .inArray := by rcases hs with rfl | rfl <;> rfl
    obtain ⟨hfirst,hothers⟩ := List.forall_mem_cons.mp hwhole
    have hd := foldl_calls d hfirst htakes rest out
    rw [hin, finalNewline_of_ne (by decide), List.append_nil] at hd
    obtain ⟨s',hs',helements⟩ := foldl_elementCalls elements hothers (.inr rfl) rest
      (out ++ lead beautify rest.length s ++ d.render beautify rest.length)
    refine ⟨s',hs',?_⟩
    rw [elementCalls, List.foldl_append, hd]
    refine helements.trans ?_
    simp [renderElements]

end

theorem gen_calls {d : Doc} (hd : d.Whole) : gen beautify d.calls = d.render beautify 0 ++ newline beautify := by
  have hlead : lead beautify 0 .start = [] := by
    change indent beautify 0 = []
    rw [indent, Nat.mul_zero, List.replicate_zero, ite_self]
  rw [gen, foldl_calls d hd (s := .start) (by decide) [] [], List.length_nil, hlead, List.nil_append, List.nil_append]
  exact congrArg _ (if_pos rfl)

theorem renderMembers_append {members more : List (Bytes × Doc)} (hne : members ≠ []) (depth : Nat) (s : GenState) :
    renderMembers beautify depth s (members ++ more) =
      renderMembers beautify depth s members ++ renderMembers beautify depth .mapKey more := by
  induction members generalizing s with
  | nil => exact absurd rfl hne
  | cons member members ih =>
    obtain ⟨name,d⟩ := member
    rw [List.cons_append, renderMembers, renderMembers]
    cases members with
    | nil => rw [List.nil_append, renderMembers, List.append_nil]
    | cons member members => rw [ih (List.cons_ne_nil _ _), List.append_assoc _ _ (renderMembers _ _ _ more)]

end Render

section Utf8

def GenCall.bytes : GenCall → Bytes
  | .string s | .word s => s
  | _ => []

def Doc.InUtf8 (d : Doc) : Prop := ∀ c ∈ d.calls, IsUtf8 c.bytes

theorem forall_memberCalls {members : List (Bytes × Doc)} :
    (∀ c ∈ memberCalls members, IsUtf8 c.bytes) ↔ ∀ m ∈ members, IsUtf8 m.1 ∧ m.2.InUtf8 := by
  induction members with
  | nil => simp [memberCalls]
  | cons m members ih =>
    rw [memberCalls, List.cons_append, List.forall_mem_cons, List.forall_mem_append, List.forall_mem_cons, ih,
      ← and_assoc]
    rfl

theorem forall_elementCalls {elements : List Doc} :
    (∀ c ∈ elementCalls elements, IsUtf8 c.bytes) ↔ ∀ d ∈ elements, d.InUtf8 := by
  induction elements with
  | nil => simp [elementCalls]
  | cons d elements ih =>
    rw [elementCalls, List.forall_mem_append, List.forall_mem_cons, ih]
    rfl

@[simp] theorem Doc.inUtf8_string {s : Bytes} : (Doc.string s).InUtf8 ↔ IsUtf8 s := by
  simp [InUtf8, calls, GenCall.bytes]

@[simp] theorem Doc.inUtf8_word {s : Bytes} : (Doc.word s).InUtf8 ↔ IsUtf8 s := by
  simp [InUtf8, calls, GenCall.bytes]

@[simp] theorem Doc.inUtf8_map {members : List (Bytes × Doc)} :
    (Doc.map members).InUtf8 ↔ ∀ m ∈ members, IsUtf8 m.1 ∧ m.2.InUtf8 := by
  rw [← forall_memberCalls, InUtf8, calls, List.cons_append, List.forall_mem_cons, List.forall_mem_append,
    List.forall_mem_singleton]
  exact ⟨fun h => h.2.1,fun h => ⟨isUtf8_nil,h,isUtf8_nil⟩⟩

@[simp] theorem Doc.inUtf8_array {elements : List Doc} : (Doc.array elements).InUtf8 ↔ ∀ d ∈ elements, d.InUtf8 := by
  rw [← forall_elementCalls, InUtf8, calls, List.cons_append, List.forall_mem_cons, List.forall_mem_append,
    List.forall_mem_singleton]
  exact ⟨fun h => h.2.1,fun h => ⟨isUtf8_nil,h,isUtf8_nil⟩⟩

theorem isUtf8_quoted {s : Bytes} (hs : IsUtf8 s) : IsUtf8 (quoted s) := by
  have hescape : IsUtf8 (escape s) := by
    refine hs.flatMap (fun b hb => isUtf8_of_ascii ?_) fun b hb => ?_
    · rw [← UInt8.ofNat_toNat (x := b)]
      interval_cases b.toNat <;> decide
    · have hne (c : UInt8) (hc : c.toNat < 128) : b ≠ c := by
        rintro rfl
        omega
      rw [escapeByte, if_neg (hne 13 (by decide)), if_neg (hne 10 (by decide)), if_neg (hne 92 (by decide)),
        if_neg (hne 34 (by decide)), if_neg (hne 12 (by decide)), if_neg (hne 8 (by decide)),
        if_neg (hne 9 (by decide)), if_neg (by omega)]
  exact ((isUtf8_byte (by decide)).append hescape).append (isUtf8_byte (by decide))

variable {beautify : Bool}

theorem newline_ascii : ascii (newline beautify) = true := by
  cases beautify <;> decide

theorem indent_ascii (depth : Nat) : ascii (indent beautify depth) = true := by
  refine List.all_eq_true.mpr fun c hc => ?_
  cases beautify with
  | false => cases hc
  | true =>
    rw [(List.mem_replicate.mp hc).2]
    decide

theorem isUtf8_lead (depth : Nat) (s : GenState) : IsUtf8 (lead beautify depth s) := by
  have hindent : IsUtf8 (indent beautify depth) := isUtf8_of_ascii (indent_ascii depth)
  have hcomma : IsUtf8 (44 :: newline beautify ++ indent beautify depth) :=
    ((isUtf8_byte (by decide)).append (isUtf8_of_ascii newline_ascii)).append hindent
  cases s with
  | mapKey | inArray => exact hcomma
  | mapVal =>
    have hcolon : ascii (58 :: if beautify then [32] else []) = true := by cases beautify <;> decide
    exact isUtf8_of_ascii hcolon
  | start | mapStart | arrayStart | complete => exact hindent

theorem isUtf8_finalNewline (s : GenState) : IsUtf8 (finalNewline beautify s) := by
  unfold finalNewline
  split
  · exact isUtf8_of_ascii newline_ascii
  · exact isUtf8_nil

theorem isUtf8_close {g : Gen} (hg : IsUtf8 g.out) {bracket : UInt8} (hbracket : bracket.toNat < 128) :
    IsUtf8 (Gen.call.close beautify g bracket).out := by
  unfold Gen.call.close
  split
  · refine ((hg.append (isUtf8_of_ascii newline_ascii)).append ?_).append
      ((isUtf8_byte hbracket).append (isUtf8_finalNewline _))
    split
    · exact isUtf8_nil
    · exact isUtf8_of_ascii (indent_ascii _)
  · exact hg

theorem isUtf8_call {g : Gen} (hg : IsUtf8 g.out) {c : GenCall} (hc : IsUtf8 c.bytes) :
    IsUtf8 (Gen.call beautify g c).out := by
  unfold Gen.call
  split
  · exact hg
  · case h_2 s rest hstates =>
    have hled : IsUtf8 (g.out ++ lead beautify rest.length s) := hg.append (isUtf8_lead _ s)
    have hopen (bracket : UInt8) (hbracket : bracket.toNat < 128) :
        IsUtf8 (g.out ++ lead beautify rest.length s ++ bracket :: newline beautify) :=
      hled.append ((isUtf8_byte hbracket).append (isUtf8_of_ascii newline_ascii))
    dsimp only
    split
    · exact hg
    · cases c with
      | string t => exact (hled.append (isUtf8_quoted hc)).append (isUtf8_finalNewline _)
      | word t =>
        dsimp only
        split
        · exact hg
        · exact (hled.append hc).append (isUtf8_finalNewline _)
      | mapOpen =>
        dsimp only
        split
        · exact hg
        · exact hopen 123 (by decide)
      | arrayOpen =>
        dsimp only
        split
        · exact hg
        · exact hopen 91 (by decide)
      | mapClose => exact isUtf8_close hg (by decide)
      | arrayClose => exact isUtf8_close hg (by decide)
      | refused => exact hg

theorem isUtf8_gen {d : Doc} (hd : d.InUtf8) : IsUtf8 (gen beautify d.calls) := by
  have hall : ∀ (calls : List GenCall) (g : Gen), (∀ c ∈ calls, IsUtf8 c.bytes) → IsUtf8 g.out →
      IsUtf8 (calls.foldl (Gen.call beautify) g).out := by
    intro calls
    induction calls with
    | nil => exact fun g _ hg => hg
    | cons c calls ih =>
      intro g hcalls hg
      obtain ⟨hc,hcalls⟩ := List.forall_mem_cons.mp hcalls
      exact ih _ hcalls (isUtf8_call hg hc)
  exact hall d.calls _ hd isUtf8_nil

end Utf8

end Json
