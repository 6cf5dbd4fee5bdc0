import QkPack.Lib.Resp

/-!
# The framing check of the upstream module

`ngx_redis_protocol.c`: how `ngx_redis_proto_decode` decides from the bytes received so far whether
a reply is complete. Pointers are positions in the receive buffer; a byte outside it reads as NUL.
-/

namespace QkPack
open Wire CString Resp

/-- The return codes of the framing check. -/
inductive NgxRc where
  | ok
  | error
  | again
  | invalidHeader
deriving DecidableEq, Repr

/-- The memory from position `p` on. -/
def peek (mem : Bytes) (p : Int) : Bytes := if p < 0 then [] else mem.drop p.toNat

/-- The answer of the framing check, and the position just behind the last byte it looked at. -/
structure Frame where
  rc : NgxRc
  reach : Int
deriving DecidableEq, Repr

/-- The loop of `ngx_get_num_size`; `fuel` bounds the number of decimal digits. -/
def numSizeLoop : Nat → Nat → Nat
  | 0, _ => 0
  | fuel + 1, i => if i / 10 > 0 then numSizeLoop fuel (i / 10) + 1 else 1

def ngxGetNumSize (i : Nat) : Nat := numSizeLoop 20 i

/-- `len += ngx_get_num_size(bulklen); len += 2; len += (bulklen + 2);` on `int`s. -/
def addBulkLen (len bulklen : Int) : Int :=
  let len := int32 (len + ngxGetNumSize (toUInt64 bulklen))
  let len := int32 (len + 2)
  int32 (len + int32 (bulklen + 2))

def ngxParseBulk (mem : Bytes) (rdata rdataLen : Int) : Frame :=
  let num := strtol (peek mem rdata)
  let reach := rdata + num.seen
  let bulklen := int32 num.value
  if bulklen = -1 then ⟨.ok,reach⟩
  else if addBulkLen 1 bulklen > rdataLen then ⟨.again,reach⟩
  else ⟨.ok,reach⟩

/-- The variables of the loop of `ngx_parse_multibulk`. -/
structure Cursor where
  rest : Int
  len : Int
  reach : Int
deriving DecidableEq, Repr

/-- One round of the loop behind the test of `len`. The null element is left behind its digits:
neither they nor the line end are counted or stepped over. -/
def multibulkElem (mem : Bytes) (c : Cursor) : Cursor :=
  let rest := c.rest + 1
  let len := int32 (c.len + 1)
  let num := strtol (peek mem rest)
  let reach := max c.reach (rest + num.seen)
  let bulklen := int32 num.value
  let rest := rest + num.used
  if bulklen = -1 then ⟨rest,len,reach⟩
  else ⟨rest + 2 + int32 (bulklen + 2), addBulkLen len bulklen, reach⟩

def multibulkLoop (mem : Bytes) (rdataLen : Int) : Nat → Cursor → Frame
  | 0, c => ⟨.ok,c.reach⟩
  | i + 1, c =>
    if c.len > rdataLen then ⟨.again,c.reach⟩
    else multibulkLoop mem rdataLen i (multibulkElem mem c)

def multibulkStarts (mem : Bytes) (rdataLen : Int) : Nat → Cursor → List Int
  | 0, _ => []
  | i + 1, c =>
    if c.len > rdataLen then []
    else c.rest :: multibulkStarts mem rdataLen i (multibulkElem mem c)

/-- `len = 1; len += 2;`: the digits of the count are not counted. -/
def multibulkInit (mem : Bytes) (rdata : Int) : Nat × Cursor :=
  let num := strtol (peek mem rdata)
  ((int32 num.value).toNat, ⟨rdata + num.used + 2, 3, rdata + num.seen⟩)

def ngxParseMultibulk (mem : Bytes) (rdata rdataLen : Int) : Frame :=
  let (multibulkSize,c) := multibulkInit mem rdata
  multibulkLoop mem rdataLen multibulkSize c

/-- The element boundaries that `ngx_parse_multibulk` walks. -/
def ngxMultibulkBoundaries (mem : Bytes) (rdata rdataLen : Int) : List Int :=
  let (multibulkSize,c) := multibulkInit mem rdata
  multibulkStarts mem rdataLen multibulkSize c

def ngxRedisProtoDecode (mem : Bytes) (rdata len : Int) : Frame :=
  let c := ((peek mem rdata).head?).getD 0
  if c = 45 ∨ c = 43 ∨ c = 58 then ⟨.ok,rdata + 1⟩
  else if c = 36 then
    let f := ngxParseBulk mem (rdata + 1) len
    ⟨f.rc, max (rdata + 1) f.reach⟩
  else if c = 42 then
    let f := ngxParseMultibulk mem (rdata + 1) len
    ⟨f.rc, max (rdata + 1) f.reach⟩
  else ⟨.error,rdata + 1⟩

/-- The framing check of a buffer that holds exactly the bytes `s`. -/
def decodeFrame (s : Bytes) : Frame := ngxRedisProtoDecode s 0 s.length

/-- The framing check of the bytes `s` behind `skip` bytes that are passed over. -/
def frameBehind (skip s : Bytes) : Frame := ngxRedisProtoDecode (skip ++ s) skip.length s.length

theorem decodeFrame_eq (s : Bytes) : decodeFrame s = frameBehind [] s := rfl

theorem peek_of_nat (mem : Bytes) (p : Nat) : peek mem p = mem.drop p := by
  simp [peek]

theorem peek_append {pre mem : Bytes} {p : Int} (hp : p = pre.length) :
    peek (pre ++ mem) p = mem := by
  rw [hp, peek_of_nat, List.drop_left]

theorem peek_of_length_le {mem : Bytes} {p : Int} (hp : mem.length ≤ p) : peek mem p = [] := by
  unfold peek
  split
  · rfl
  · exact List.drop_eq_nil_of_le (by omega)

theorem peek_succ_append {pre mem : Bytes} {c : UInt8} {p : Int} (hp : p = pre.length) :
    peek (pre ++ c :: mem) (p + 1) = mem := by
  rw [List.append_cons, peek_append (by simp [hp])]

section Dispatch

variable (skip s : Bytes)

theorem frameBehind_line {c : UInt8} (hc : c = 45 ∨ c = 43 ∨ c = 58) :
    frameBehind skip (c :: s) = ⟨.ok,skip.length + 1⟩ := by
  simp [frameBehind, ngxRedisProtoDecode, peek_append, hc]

theorem frameBehind_bulk :
    frameBehind skip (36 :: s) =
      ⟨(ngxParseBulk (skip ++ 36 :: s) (skip.length + 1) (36 :: s).length).rc,
        max (skip.length + 1) (ngxParseBulk (skip ++ 36 :: s) (skip.length + 1) (36 :: s).length).reach⟩ := by
  simp [frameBehind, ngxRedisProtoDecode, peek_append]

theorem frameBehind_array :
    frameBehind skip (42 :: s) =
      ⟨(ngxParseMultibulk (skip ++ 42 :: s) (skip.length + 1) (42 :: s).length).rc,
        max (skip.length + 1)
          (ngxParseMultibulk (skip ++ 42 :: s) (skip.length + 1) (42 :: s).length).reach⟩ := by
  simp [frameBehind, ngxRedisProtoDecode, peek_append]

end Dispatch

theorem numSizeLoop_eq {fuel i : Nat} (hf : 0 < fuel) (hi : i < 10 ^ fuel) :
    numSizeLoop fuel i = (decimal i).length := by
  induction fuel generalizing i with
  | zero => omega
  | succ fuel ih =>
    simp only [numSizeLoop]
    split
    · rename_i hpos
      have hten : 10 ≤ i := by omega
      have hsmall : i / 10 < 10 ^ fuel := by
        rw [pow_succ] at hi
        omega
      have hfuel : 0 < fuel := by
        rcases Nat.eq_zero_or_pos fuel with rfl | h
        · simp at hi
          omega
        · exact h
      rw [ih hfuel hsmall, decimal_length_div_ten hten]
    · rw [decimal_length_of_lt (by omega)]

theorem ngxGetNumSize_eq {i : Nat} (hi : i < 2 ^ 64) : ngxGetNumSize i = (decimal i).length :=
  numSizeLoop_eq (by norm_num) (hi.trans (by norm_num))

/-- An `int` counter to which non-negative amounts with the sum `x` have been added. -/
structure Counts (len x : Int) : Prop where
  ge : -2 ^ 31 ≤ len
  le : len ≤ x
  exact : x < 2 ^ 31 → len = x

theorem Counts.of_range {v : Int} (hl : -2 ^ 31 ≤ v) : Counts v v := ⟨hl,le_rfl,fun _ => rfl⟩

theorem Counts.add {len x n : Int} (h : Counts len x) (hn : 0 ≤ n) :
    Counts (int32 (len + n)) (x + n) where
  ge := int32_ge _
  le := by
    have := h.ge
    have := h.le
    have := int32_le_self (v := len + n) (by omega)
    omega
  exact := by
    intro hx
    have hlen := h.exact (by omega)
    have := h.ge
    rw [int32_of_range (by omega) (by omega), hlen]

theorem Counts.addBulkLen {len x : Int} {n : Nat} (h : Counts len x) (hn : n < 2 ^ 31 - 2) :
    Counts (addBulkLen len n) (x + (decimal n).length + n + 4) := by
  have hsize : ngxGetNumSize (toUInt64 n) = (decimal n).length := by
    rw [toUInt64_natCast (by omega), ngxGetNumSize_eq (by omega)]
  have hpayload : int32 ((n : Int) + 2) = n + 2 := int32_of_range (by omega) (by omega)
  have hsum := ((h.add (n := (decimal n).length) (by omega)).add (n := 2) (by omega)).add
    (n := n + 2) (by omega)
  unfold QkPack.addBulkLen
  rw [hsize, hpayload]
  convert hsum using 1
  omega

end QkPack
