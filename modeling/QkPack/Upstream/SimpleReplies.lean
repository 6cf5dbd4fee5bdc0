import QkPack.Upstream.BrokenArray

/-!
# Line and bulk replies that have arrived in part

A bulk string is recognised by its announced length. A status, error or integer line is declared
complete with its first byte, and a null bulk with its digit.
-/

namespace QkPack
open Wire CString Resp

/-- The scan of `RedisProtoDecodeGetStatus` and `RedisProtoDecodeGetError` for the end of a line;
`none` when no line end stands in the buffer and the scan runs out of it. -/
def crlfScan : Bytes → Option Nat
  | [] => none
  | c :: s => if c = 13 ∧ s.head? = some 10 then some 0 else (crlfScan s).map (· + 1)

theorem crlfScan_take {s : Bytes} (h : ∀ c ∈ s, c ≠ 13 ∧ c ≠ 10) {q : Nat} (hq : q < s.length + 2) :
    crlfScan ((s ++ crlf).take q) = none := by
  induction s generalizing q with
  | nil =>
    obtain rfl | rfl : q = 0 ∨ q = 1 := by simp at hq; omega
    · rfl
    · rfl
  | cons c s ih =>
    cases q with
    | zero => rfl
    | succ q =>
      have hc := (h c List.mem_cons_self).1
      rw [List.length_cons] at hq
      simp [crlfScan, hc, ih (fun d hd => h d (List.mem_cons_of_mem _ hd)) (show q < s.length + 2 by omega)]

section Bulk

variable (skip : Bytes) (b : Bulk) {p : Nat}

theorem take_encBulk (hp : 0 < p) :
    (encBulk b.bytes).take p = 36 :: ((decimal b.bytes.length).take (p - 1) ++
      (13 :: 10 :: (b.bytes ++ crlf)).take (p - 1 - (decimal b.bytes.length).length)) := by
  obtain ⟨q,rfl⟩ := Nat.exists_eq_succ_of_ne_zero hp.ne'
  have hsplit : encBulk b.bytes = 36 :: (decimal b.bytes.length ++ 13 :: 10 :: (b.bytes ++ crlf)) := by
    simp [encBulk, crlf]
  rw [hsplit, Nat.succ_eq_add_one, List.take_succ_cons, List.take_append]
  rfl

theorem ngxParseBulk_nat {mem : Bytes} {rdata rdataLen : Int} {u v : Nat}
    (hscan : strtol (peek mem rdata) = ⟨v,u,u + 1⟩) (hv : v ≤ 512 * 1024 * 1024) :
    ngxParseBulk mem rdata rdataLen =
      ⟨if (decimal v).length + v + 5 > rdataLen then .again else .ok, rdata + (u + 1)⟩ := by
  have hvalue : int32 v = v := int32_of_range (by omega) (by omega)
  have hne : (v : Int) ≠ -1 := by omega
  have hd := decimal_length_le (n := v) (k := 9) (by norm_num) (by omega)
  have hcount := (Counts.of_range (v := 1) (by norm_num)).addBulkLen (n := v) (by omega)
  have hsum : addBulkLen 1 v = (decimal v).length + v + 5 := by
    rw [hcount.exact (by omega)]
    omega
  simp only [ngxParseBulk, hscan, hvalue, if_neg hne, hsum]
  split <;> simp

theorem frameBehind_bulk_take (hp : 1 < p) :
    frameBehind skip ((encBulk b.bytes).take p) =
      ⟨if p < (encBulk b.bytes).length then .again else .ok,
        skip.length + (min (p - 1) (decimal b.bytes.length).length + 2)⟩ := by
  have hb := b.size_le
  have hdpos := decimal_length_pos b.bytes.length
  obtain ⟨d,hd⟩ : ∃ d, d = (decimal b.bytes.length).length := ⟨_,rfl⟩
  obtain ⟨v,hv⟩ : ∃ v, v = b.bytes.length / 10 ^ (d - (p - 1)) := ⟨_,rfl⟩
  have hvle : v ≤ b.bytes.length := hv ▸ Nat.div_le_self _ _
  have hdigits : (decimal v).length = min (p - 1) d := by
    rw [hv, decimal_length_div_pow (by omega), ← hd]
    omega
  have hscan := strtol_decimal_take (n := b.bytes.length) (c := p - 1) (by omega) (by omega)
    (stops_take_crlf (10 :: (b.bytes ++ crlf)) (p - 1 - (decimal b.bytes.length).length))
  rw [← hd, ← hv] at hscan
  have hlen : ((encBulk b.bytes).take p).length = min p (encBulk b.bytes).length := List.length_take
  have hshape := take_encBulk b (p := p) (by omega)
  rw [hshape] at hlen
  rw [hshape, frameBehind_bulk, hlen, encBulk_length]
  rw [← hd] at hlen ⊢
  rw [ngxParseBulk_nat (by rw [peek_succ_append rfl]; exact hscan) (by omega), hdigits]
  simp only [Frame.mk.injEq]
  refine ⟨?_,by omega⟩
  by_cases hwide : d + 1 < p
  · have hfull : v = b.bytes.length := by
      rw [hv, Nat.sub_eq_zero_of_le (by omega), pow_zero, Nat.div_one]
    congr 1
    rw [hfull]
    simp only [eq_iff_iff]
    omega
  · rw [if_pos (by omega), if_pos (by omega)]

theorem frameBehind_dollar : frameBehind skip [36] = ⟨.again,skip.length + 2⟩ := by
  have hpeek : peek (skip ++ [36]) (skip.length + 1) = [] := peek_succ_append rfl
  have hscan : strtol (peek (skip ++ [36]) (skip.length + 1)) = ⟨(0 : Nat),0,0 + 1⟩ := by
    rw [hpeek]
    rfl
  rw [frameBehind_bulk, ngxParseBulk_nat hscan (by norm_num)]
  simp [decimal_zero]
  omega

/-- Behind any bytes, a bulk string that has begun to arrive is complete with its last byte and not before. -/
theorem frameBehind_encBulk_take (hp : 0 < p) :
    (frameBehind skip ((encBulk b.bytes).take p)).rc = if p < (encBulk b.bytes).length then .again else .ok := by
  obtain rfl | hone : p = 1 ∨ 1 < p := by omega
  · have hlen := encBulk_length b.bytes
    have hdollar : (encBulk b.bytes).take 1 = [36] := by simp [take_encBulk b hp]
    rw [hdollar, frameBehind_dollar, if_pos (by omega)]
  · rw [frameBehind_bulk_take skip b hone]

end Bulk

/-- The framing check of a bulk string: of all its non-empty prefixes only the whole is complete, and for every
other one more is waited for. -/
theorem bulk_framing_exact {v piece : Bytes} (hv : v.length ≤ 512 * 1024 * 1024)
    (hpiece : piece <+: encBulk v) (hne : piece ≠ []) :
    (piece = encBulk v → (decodeFrame piece).rc = .ok) ∧ (piece ≠ encBulk v → (decodeFrame piece).rc = .again) := by
  have htake : piece = (encBulk v).take piece.length := List.prefix_iff_eq_take.mp hpiece
  have hframe := frameBehind_encBulk_take [] ⟨v,hv⟩ (List.length_pos_iff.mpr hne)
  rw [← htake, ← decodeFrame_eq] at hframe
  constructor
  · rintro rfl
    rw [hframe, if_neg (lt_irrefl _)]
  · intro hproper
    have hlt : piece.length < (encBulk v).length :=
      lt_of_le_of_ne hpiece.length_le fun hlen => hproper (hpiece.eq_of_length hlen)
    rw [hframe, if_pos hlt]

/-- `$3⏎ab` of `$3⏎abc⏎`. -/
theorem bulk_framing_exact_abc :
    encBulk (text "abc") ≠ [] ∧ (decodeFrame (encBulk (text "abc"))).rc = .ok ∧
      (decodeFrame ((encBulk (text "abc")).take 6)).rc = .again :=
  ⟨by decide,
    (bulk_framing_exact (v := text "abc") (by decide) (List.prefix_refl _) (by decide)).1 rfl,
    (bulk_framing_exact (v := text "abc") (by decide) (List.take_prefix 6 _) (by decide)).2 (by decide)⟩

/-- The replies of one line: errors, statuses, integers and the null bulk. -/
inductive IsLineReply : Reply → Prop
  | error (l : Line) : IsLineReply (.error l)
  | status (l : Line) : IsLineReply (.status l)
  | integer (n : Int) : IsLineReply (.integer n)
  | nullBulk : IsLineReply (.bulk none)

theorem frameBehind_line_take (skip s : Bytes) {c : UInt8} {p : Nat}
    (hc : c = 45 ∨ c = 43 ∨ c = 58) (hp : 0 < p) :
    frameBehind skip ((c :: s).take p) = ⟨.ok,skip.length + 1⟩ := by
  obtain ⟨q,rfl⟩ := Nat.exists_eq_succ_of_ne_zero hp.ne'
  exact frameBehind_line skip _ hc

theorem nullBulk_take_again_iff {p : Nat} (hp : 0 < p) (hp' : p < nullBulk.length) :
    (decodeFrame (nullBulk.take p)).rc = .again ↔ p ≤ 2 := by
  rw [nullBulk_length] at hp'
  interval_cases p <;> decide

theorem crlfScan_cut_line (l : Line) (c : UInt8) {p : Nat} (hp : 0 < p)
    (hp' : p < (c :: (l.bytes ++ crlf)).length) :
    crlfScan ((c :: (l.bytes ++ crlf)).take p).tail = none := by
  obtain ⟨q,rfl⟩ := Nat.exists_eq_succ_of_ne_zero hp.ne'
  rw [Nat.succ_eq_add_one, List.take_succ_cons, List.tail_cons]
  refine crlfScan_take l.oneLine ?_
  simp only [List.length_cons, List.length_append, crlf_length] at hp'
  omega

/-- Of the line replies only the null bulk is ever waited for, and it only before its digit has
arrived. The decoder's search for the end of a status or an error that was cut leaves the
buffer. -/
theorem line_prefix_again_iff {r : Reply} (hr : IsLineReply r) {p : Nat} (hp : 0 < p)
    (hp' : p < (encode r).length) :
    ((decodeFrame ((encode r).take p)).rc = .again ↔ r = .bulk none ∧ p ≤ 2) ∧
      ∀ l, r = .error l ∨ r = .status l → crlfScan ((encode r).take p).tail = none := by
  cases hr with
  | error l =>
    rw [decodeFrame_eq, encode, frameBehind_line_take [] _ (by decide) hp]
    refine ⟨by simp,fun _ _ => crlfScan_cut_line l 45 hp hp'⟩
  | status l =>
    rw [decodeFrame_eq, encode, frameBehind_line_take [] _ (by decide) hp]
    refine ⟨by simp,fun _ _ => crlfScan_cut_line l 43 hp hp'⟩
  | integer n =>
    rw [decodeFrame_eq, encode, frameBehind_line_take [] _ (by decide) hp]
    refine ⟨by simp,?_⟩
    rintro l (h | h) <;> cases h
  | nullBulk =>
    rw [encode, encElem_none, nullBulk_take_again_iff hp hp']
    refine ⟨by simp,?_⟩
    rintro l (h | h) <;> cases h

def movedLine : Line := ⟨text "MOVED 1234 127.0.0.1:7000",oneLine_of_all (by decide)⟩

theorem line_prefix_again_iff_moved :
    ((decodeFrame ((encode (.error movedLine)).take 24)).rc = .again ↔
        Reply.error movedLine = .bulk none ∧ 24 ≤ 2) ∧
      ∀ l, Reply.error movedLine = .error l ∨ Reply.error movedLine = .status l →
        crlfScan ((encode (.error movedLine)).take 24).tail = none :=
  line_prefix_again_iff (.error movedLine) (by norm_num) (by decide)

/-- `-MOVED 1234 127.0.0.1:70`: the port has lost two digits. -/
theorem cut_moved_complete :
    24 < (encode (.error movedLine)).length ∧
      (decodeFrame ((encode (.error movedLine)).take 24)).rc = .ok := by
  decide

end QkPack
