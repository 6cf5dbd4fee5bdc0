import QkPack.Lib.CString

/-!
# Redis replies and their wire form

The replies of the first version of the protocol: status, error and integer lines, bulk strings
and flat arrays of bulk strings, each with its canonical encoding.
-/

namespace Resp
open Wire CString

/-- The text of a status or error line. -/
structure Line where
  bytes : Bytes
  oneLine : ∀ c ∈ bytes, c ≠ 13 ∧ c ≠ 10

theorem oneLine_of_all {bytes : Bytes} (h : bytes.all (fun c => c != 13 && c != 10) = true) :
    ∀ c ∈ bytes, c ≠ 13 ∧ c ≠ 10 := by
  simpa using h

/-- A bulk string within the size limit of the protocol. -/
structure Bulk where
  bytes : Bytes
  size_le : bytes.length ≤ 512 * 1024 * 1024

theorem Bulk.eq_of_bytes {a b : Bulk} (h : a.bytes = b.bytes) : a = b := by
  obtain ⟨bytes,hsize⟩ := a
  cases h
  rfl

/-- An array element; `none` is the null bulk. -/
abbrev Elem := Option Bulk

inductive Reply where
  | error (line : Line)
  | status (line : Line)
  | integer (n : Int)
  | bulk (e : Elem)
  | array (es : List Elem)
  | nullArray

def intText (n : Int) : Bytes :=
  if n < 0 then 45 :: decimal n.natAbs else decimal n.natAbs

def nullBulk : Bytes := text "$-1" ++ crlf

def encBulk (s : Bytes) : Bytes := 36 :: (decimal s.length ++ crlf ++ s ++ crlf)

def encElem : Elem → Bytes
  | none => nullBulk
  | some b => encBulk b.bytes

def encElems (es : List Elem) : Bytes := es.flatMap encElem

def arrayHeader (n : Nat) : Bytes := 42 :: (decimal n ++ crlf)

def encArray (es : List Elem) : Bytes := arrayHeader es.length ++ encElems es

def encode : Reply → Bytes
  | .error l => 45 :: (l.bytes ++ crlf)
  | .status l => 43 :: (l.bytes ++ crlf)
  | .integer n => 58 :: (intText n ++ crlf)
  | .bulk e => encElem e
  | .array es => encArray es
  | .nullArray => text "*-1" ++ crlf

@[simp] theorem nullBulk_length : nullBulk.length = 5 := rfl

@[simp] theorem encElem_none : encElem none = nullBulk := rfl

@[simp] theorem encElem_some (b : Bulk) : encElem (some b) = encBulk b.bytes := rfl

@[simp] theorem encElems_nil : encElems [] = [] := rfl

@[simp] theorem encElems_cons (e : Elem) (es : List Elem) :
    encElems (e :: es) = encElem e ++ encElems es := rfl

@[simp] theorem encElems_append (es fs : List Elem) :
    encElems (es ++ fs) = encElems es ++ encElems fs := List.flatMap_append

theorem encBulk_length (s : Bytes) :
    (encBulk s).length = 5 + (decimal s.length).length + s.length := by
  simp only [encBulk, List.length_cons, List.length_append, crlf_length]
  omega

theorem arrayHeader_length (n : Nat) : (arrayHeader n).length = (decimal n).length + 3 := by
  simp only [arrayHeader, List.length_cons, List.length_append, crlf_length]

theorem encElem_length_ge (e : Elem) : 5 ≤ (encElem e).length := by
  cases e with
  | none => simp
  | some b =>
    rw [encElem_some, encBulk_length]
    omega

theorem encode_ne_nil (r : Reply) : encode r ≠ [] := by
  cases r with
  | bulk e => cases e <;> simp [encode, nullBulk, encBulk, text]
  | _ => simp [encode, encArray, arrayHeader, text]

theorem arrayHeader_inj {m n : Nat} {s t : Bytes} (h : arrayHeader m ++ s = arrayHeader n ++ t) :
    m = n := by
  have htail : decimal m ++ (13 :: 10 :: s) = decimal n ++ (13 :: 10 :: t) := by
    simpa [arrayHeader, crlf] using h
  have hdigits (k : Nat) (u : Bytes) :
      (decimal k ++ (13 :: u)).takeWhile (inBase 10) = decimal k := by
    apply takeWhile_append_of_stops
    · exact fun c hc => inBase_ten_of_isDigit (decimal_isDigit hc)
    · intro c hc
      cases hc
      decide
  have hdec : decimal m = decimal n := by
    rw [← hdigits m (10 :: s), htail, hdigits]
  rw [← digitsValue_decimal m, hdec, digitsValue_decimal]

example : encode (.array [none, some ⟨text "ab",by decide⟩]) =
    text "*2" ++ crlf ++ text "$-1" ++ crlf ++ text "$2" ++ crlf ++ text "ab" ++ crlf := by decide

end Resp
