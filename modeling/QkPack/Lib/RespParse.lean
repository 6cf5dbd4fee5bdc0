import QkPack.Lib.Resp

/-!
# Reading a command off the wire

The reader of a server: an array of bulk strings, each with its length in front. What the canonical
encoding writes is read back as it was, with the bytes behind it left over.
-/

namespace Resp
open Wire CString

def parseLength (s : Bytes) : Option (Nat × Bytes) :=
  let digits := s.takeWhile fun c => decide (IsDigit c)
  if digits = [] then none
  else match s.drop digits.length with
    | 13 :: 10 :: rest => some (digitsValue digits,rest)
    | _ => none

def parseBulk : Bytes → Option (Bytes × Bytes)
  | 36 :: s => do
    let (n,rest) ← parseLength s
    match rest.drop n with
    | 13 :: 10 :: later => some (rest.take n,later)
    | _ => none
  | _ => none

def parseBulks : Nat → Bytes → Option (List Bytes × Bytes)
  | 0, s => some ([],s)
  | n + 1, s => do
    let (arg,rest) ← parseBulk s
    let (args,later) ← parseBulks n rest
    return (arg :: args,later)

/-- An array of bulk strings, and what stands behind it. -/
def parseCommand : Bytes → Option (List Bytes × Bytes)
  | 42 :: s => do
    let (n,rest) ← parseLength s
    parseBulks n rest
  | _ => none

/-- The array of bulk strings that a client sends. -/
def encCommand (argv : List Bytes) : Bytes := arrayHeader argv.length ++ argv.flatMap encBulk

theorem parseLength_decimal (n : Nat) (rest : Bytes) :
    parseLength (decimal n ++ crlf ++ rest) = some (n,rest) := by
  have hdigits : (decimal n ++ (13 :: 10 :: rest)).takeWhile (fun c => decide (IsDigit c)) =
      decimal n := by
    apply takeWhile_append_of_stops
    · intro c hc
      exact decide_eq_true (decimal_isDigit hc)
    · intro c hc
      cases hc
      decide
  have hsplit : decimal n ++ crlf ++ rest = decimal n ++ (13 :: 10 :: rest) := by simp [crlf]
  rw [hsplit, parseLength]
  simp only [hdigits, if_neg (decimal_ne_nil n), List.drop_left, digitsValue_decimal]

theorem parseBulk_encBulk (arg rest : Bytes) : parseBulk (encBulk arg ++ rest) = some (arg,rest) := by
  have hshape : encBulk arg ++ rest =
      36 :: (decimal arg.length ++ crlf ++ (arg ++ (13 :: 10 :: rest))) := by simp [encBulk, crlf]
  rw [hshape, parseBulk, parseLength_decimal]
  simp

theorem parseBulks_flatMap (argv : List Bytes) (rest : Bytes) :
    parseBulks argv.length (argv.flatMap encBulk ++ rest) = some (argv,rest) := by
  induction argv with
  | nil => rfl
  | cons arg argv ih =>
    rw [List.flatMap_cons, List.append_assoc, List.length_cons, parseBulks, parseBulk_encBulk]
    simp [ih]

theorem parseCommand_encCommand (argv : List Bytes) (rest : Bytes) :
    parseCommand (encCommand argv ++ rest) = some (argv,rest) := by
  have hshape : encCommand argv ++ rest =
      42 :: (decimal argv.length ++ crlf ++ (argv.flatMap encBulk ++ rest)) := by
    simp [encCommand, arrayHeader]
  rw [hshape, parseCommand, parseLength_decimal]
  exact parseBulks_flatMap argv rest

theorem parseCommand_whole (argv : List Bytes) : parseCommand (encCommand argv) = some (argv,[]) := by
  simpa using parseCommand_encCommand argv []

end Resp
