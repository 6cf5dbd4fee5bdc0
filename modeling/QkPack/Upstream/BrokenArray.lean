import QkPack.Upstream.ArrayWalk

/-!
# The loop over an array that has arrived in part

The loop of `ngx_parse_multibulk` runs over the elements that are there, guesses the size of the
broken one from its visible digits, and counts six bytes for each element it cannot see.
-/

namespace QkPack
open Wire CString Resp

/-- A list of elements cut inside one of them, `seen` bytes behind its start. -/
structure Cut where
  whole : List Elem
  broken : Elem
  seen : Nat
  later : List Elem

def cutElems : List Elem → Nat → Option Cut
  | [], _ => none
  | e :: es, p =>
    if (encElem e).length ≤ p then
      (cutElems es (p - (encElem e).length)).map fun c => { c with whole := e :: c.whole }
    else some ⟨[],e,p,es⟩

/-- By how much the counter of `ngx_parse_multibulk` grows for an element of which only `k` bytes
are there: the digits that are visible are taken for the whole length. -/
def claimedSize (e : Elem) (k : Nat) : Nat :=
  match e with
  | none => if k ≤ 2 then 6 else 1
  | some b =>
    if k ≤ 1 then 6
    else if k ≤ (decimal b.bytes.length).length + 1 then
      4 + k + b.bytes.length / 10 ^ ((decimal b.bytes.length).length + 1 - k)
    else (encElem e).length

def Cut.waits (c : Cut) (countDigits : Nat) : Prop :=
  c.later ≠ [] ∧ c.seen + countDigits < claimedSize c.broken c.seen + 6 * (c.later.length - 1)

theorem cutElems_spec {es : List Elem} {p : Nat} (hp : p < (encElems es).length) :
    ∃ c, cutElems es p = some c ∧ es = c.whole ++ c.broken :: c.later ∧
      c.seen < (encElem c.broken).length ∧
      (encElems es).take p = encElems c.whole ++ (encElem c.broken).take c.seen := by
  induction es generalizing p with
  | nil => simp at hp
  | cons e es ih =>
    rw [encElems_cons, List.length_append] at hp
    by_cases hwhole : (encElem e).length ≤ p
    · obtain ⟨c,hc,hes,hseen,htake⟩ := ih (p := p - (encElem e).length) (by omega)
      refine ⟨{ c with whole := e :: c.whole },?_,?_,hseen,?_⟩
      · simp [cutElems, hwhole, hc]
      · rw [hes]
        rfl
      · rw [encElems_cons, encElems_cons, List.append_assoc, ← htake, List.take_append,
          List.take_of_length_le hwhole]
    · refine ⟨⟨[],e,p,es⟩,?_,rfl,not_le.mp hwhole,?_⟩
      · simp [cutElems, hwhole]
      · rw [encElems_cons, List.take_append_of_le_length (by omega), encElems_nil, List.nil_append]

section Past

variable {mem : Bytes} {rdataLen x : Int} {c : Cursor}

theorem strtol_past (hpast : mem.length ≤ c.rest + 1) :
    strtol (peek mem (c.rest + 1)) = ⟨0,0,1⟩ := by
  rw [peek_of_length_le hpast, strtol_nil]

theorem rest_past (hpast : mem.length ≤ c.rest + 1) : (multibulkElem mem c).rest = c.rest + 5 := by
  have hscan := strtol_past hpast
  simpa using (multibulkElem_nat (v := 0) (congrArg Scan.value hscan) (congrArg Scan.used hscan)
    (by norm_num)).1

theorem counts_past (hpast : mem.length ≤ c.rest + 1) (hx : Counts c.len x) :
    Counts (multibulkElem mem c).len (x + 6) := by
  have hscan := strtol_past hpast
  convert counts_multibulkElem_nat (v := 0) (congrArg Scan.value hscan) (congrArg Scan.used hscan)
    (by norm_num) hx using 1
  rw [decimal_zero, List.length_singleton]
  push_cast
  omega

theorem past_of_again {i : Nat} (hpast : mem.length ≤ c.rest + 1) (hx : Counts c.len x)
    (h : (multibulkLoop mem rdataLen i c).rc = .again) : 0 < i ∧ rdataLen < x + 6 * (i - 1) := by
  induction i generalizing c x with
  | zero => simp [multibulkLoop] at h
  | succ i ih =>
    refine ⟨Nat.succ_pos i,?_⟩
    simp only [multibulkLoop] at h
    split at h
    · have := hx.le
      push_cast
      omega
    · have hrest := rest_past hpast
      have hnext := ih (by omega) (counts_past hpast hx) h
      push_cast
      omega

theorem again_of_past {i : Nat} (hpast : mem.length ≤ c.rest + 1) (hx : Counts c.len x)
    (hrange : x < 2 ^ 31) (hlen : rdataLen < 2 ^ 31 - 6) (hi : 0 < i)
    (hwait : rdataLen < x + 6 * (i - 1)) : (multibulkLoop mem rdataLen i c).rc = .again := by
  induction i generalizing c x with
  | zero => omega
  | succ i ih =>
    have hexact := hx.exact hrange
    simp only [multibulkLoop]
    split
    · rfl
    · have hrest := rest_past hpast
      push_cast at hwait
      exact ih (by omega) (counts_past hpast hx) (by omega) (by omega) (by omega)

end Past

section Broken

variable {pre : Bytes} {lag k : Nat} {c : Cursor}

theorem peek_broken (e : Elem) (hc : c.rest = pre.length) :
    peek (pre ++ (encElem e).take k) (c.rest + 1) = (encElem e).tail.take (k - 1) := by
  rcases Nat.eq_zero_or_pos k with rfl | hk
  · rw [peek_of_length_le]
    · simp
    · simp [hc]
  · obtain ⟨a,t,ht⟩ : ∃ a t, encElem e = a :: t :=
      List.exists_cons_of_ne_nil (List.length_pos_iff.mp (by have := encElem_length_ge e; omega))
    obtain ⟨j,rfl⟩ := Nat.exists_eq_succ_of_ne_zero hk.ne'
    have hsplit : pre ++ (a :: t).take (j + 1) = (pre ++ [a]) ++ t.take j := by simp
    rw [ht, hsplit, peek_append (by simp [hc])]
    rfl

/-- The round of the loop on the broken element: the counter grows by the claimed size, and the
pointer is left where nothing has arrived yet. -/
def BrokenStep (pre : Bytes) (lag : Nat) (e : Elem) (k : Nat) (c : Cursor) : Prop :=
  Counts c.len (pre.length - lag + claimedSize e k) ∧
    ((pre ++ (encElem e).take k).length : Int) ≤ c.rest + 1

theorem broken_none (h : Aligned pre lag c) (hk : k < (encElem none).length) :
    BrokenStep pre lag none k (multibulkElem (pre ++ (encElem none).take k) c) := by
  have hpeek := peek_broken (k := k) none h.rest_eq
  have hrest := h.rest_eq
  rw [encElem_none, nullBulk_length] at hk
  have hlen : (pre ++ (encElem none).take k).length = pre.length + k := by simp; omega
  unfold BrokenStep
  by_cases hsmall : k ≤ 2
  · -- no digit has arrived: the length reads as zero
    have hvalue : (strtol (peek (pre ++ (encElem none).take k) (c.rest + 1))).value = (0 : Nat) := by
      rw [hpeek]
      interval_cases k <;> decide
    have hused : (strtol (peek (pre ++ (encElem none).take k) (c.rest + 1))).used = 0 := by
      rw [hpeek]
      interval_cases k <;> decide
    have hcount := counts_multibulkElem_nat hvalue hused (by norm_num) h.counts
    rw [(multibulkElem_nat hvalue hused (by norm_num)).1, hlen]
    refine ⟨?_,by push_cast; omega⟩
    convert hcount using 1
    rw [decimal_zero, List.length_singleton]
    simp only [claimedSize, if_pos hsmall]
    push_cast
    omega
  · have hscan : strtol (peek (pre ++ (encElem none).take k) (c.rest + 1)) = ⟨-1,2,3⟩ := by
      rw [hpeek]
      obtain rfl | rfl : k = 3 ∨ k = 4 := by omega
      · decide
      · decide
    have hnull := multibulkElem_null (congrArg Scan.value hscan) (congrArg Scan.used hscan)
    rw [hnull.1, hnull.2, hlen]
    refine ⟨?_,by push_cast; omega⟩
    convert h.counts.add (n := 1) (by norm_num) using 1
    simp [claimedSize, hsmall]

theorem strtol_broken_some (b : Bulk) (hk : 1 < k) (hc : c.rest = pre.length) :
    strtol (peek (pre ++ (encElem (some b)).take k) (c.rest + 1)) =
      ⟨(b.bytes.length / 10 ^ ((decimal b.bytes.length).length - (k - 1)) : Nat),
        min (k - 1) (decimal b.bytes.length).length,
        min (k - 1) (decimal b.bytes.length).length + 1⟩ := by
  have hb := b.size_le
  have htake : (encElem (some b)).tail.take (k - 1) =
      (decimal b.bytes.length).take (k - 1) ++
        (13 :: 10 :: (b.bytes ++ crlf)).take (k - 1 - (decimal b.bytes.length).length) := by
    rw [← List.take_append]
    simp [encBulk, crlf]
  rw [peek_broken _ hc, htake, strtol_decimal_take (by omega) (by omega) (stops_take_crlf _ _)]

theorem broken_some (b : Bulk) (h : Aligned pre lag c) (hk : k < (encElem (some b)).length) :
    BrokenStep pre lag (some b) k (multibulkElem (pre ++ (encElem (some b)).take k) c) := by
  have hb := b.size_le
  have hrest := h.rest_eq
  have hlen : (pre ++ (encElem (some b)).take k).length = pre.length + k := by
    rw [List.length_append, List.length_take, min_eq_left hk.le]
  by_cases hdollar : k ≤ 1
  · have hpast : ((pre ++ (encElem (some b)).take k).length : Int) ≤ c.rest + 1 := by omega
    refine ⟨?_,?_⟩
    · simpa [claimedSize, hdollar] using counts_past hpast h.counts
    · rw [rest_past hpast]
      omega
  · -- the visible digits are a numeral of their own, with as many digits as have arrived
    have hscan := strtol_broken_some b (not_le.mp hdollar) h.rest_eq
    obtain ⟨d,hd⟩ : ∃ d, d = (decimal b.bytes.length).length := ⟨_,rfl⟩
    obtain ⟨v,hv⟩ : ∃ v, v = b.bytes.length / 10 ^ (d - (k - 1)) := ⟨_,rfl⟩
    have hdpos : 0 < d := hd ▸ decimal_length_pos _
    have hvle : v ≤ b.bytes.length := hv ▸ Nat.div_le_self _ _
    have hdigits : (decimal v).length = min (k - 1) d := by
      rw [hv, decimal_length_div_pow (by omega), ← hd]
      omega
    have hfull : d + 1 < k → v = b.bytes.length := by
      intro hwide
      rw [hv, Nat.sub_eq_zero_of_le (by omega), pow_zero, Nat.div_one]
    have hsize : claimedSize (some b) k = (decimal v).length + v + 5 := by
      simp only [claimedSize, if_neg hdollar, ← hd, encElem_some, encBulk_length, hdigits]
      split
      · rw [show d + 1 - k = d - (k - 1) by omega, ← hv]
        omega
      · have := hfull (by omega)
        omega
    rw [← hd, ← hv] at hscan
    have hvalue := congrArg Scan.value hscan
    have hused := congrArg Scan.used hscan
    refine ⟨?_,?_⟩
    · convert counts_multibulkElem_nat hvalue hused (by omega) h.counts using 1
      rw [hsize]
      push_cast
      omega
    · rw [(multibulkElem_nat hvalue hused (by omega)).1, hlen]
      rw [encElem_some, encBulk_length, ← hd] at hk
      push_cast
      by_cases hwide : d + 1 < k
      · have := hfull hwide
        omega
      · omega

theorem broken_step (e : Elem) (h : Aligned pre lag c) (hk : k < (encElem e).length) :
    BrokenStep pre lag e k (multibulkElem (pre ++ (encElem e).take k) c) := by
  cases e with
  | none => exact broken_none h hk
  | some b => exact broken_some b h hk

end Broken

theorem claimedSize_le (e : Elem) (k : Nat) : claimedSize e k ≤ 512 * 1024 * 1024 + 16 := by
  cases e with
  | none =>
    simp only [claimedSize]
    split <;> omega
  | some b =>
    have hb := b.size_le
    have hd := decimal_length_le (n := b.bytes.length) (k := 9) (by norm_num) (by omega)
    have hv := Nat.div_le_self b.bytes.length
      (10 ^ ((decimal b.bytes.length).length + 1 - k))
    simp only [claimedSize, encElem_some, encBulk_length]
    split
    · omega
    · split <;> omega

theorem multibulkLoop_whole {whole : List Elem} {pre mem tail : Bytes} {lag : Nat} {c : Cursor}
    {rdataLen : Int} (hc : Aligned pre lag c) (hmem : mem = pre ++ (encElems whole ++ tail))
    (hlen : mem.length ≤ rdataLen + lag) (hwhole : ∀ e ∈ whole, e ≠ none) (i : Nat) :
    ∃ c', Aligned (pre ++ encElems whole) lag c' ∧
      multibulkLoop mem rdataLen (whole.length + i) c = multibulkLoop mem rdataLen i c' := by
  induction whole generalizing pre c with
  | nil => exact ⟨c,by simpa using hc,by simp⟩
  | cons e whole ih =>
    obtain ⟨b,rfl⟩ := Option.ne_none_iff_exists'.mp (hwhole e List.mem_cons_self)
    have hin := hc.not_again hmem hlen
    rw [encElems_cons, List.append_assoc] at hmem
    have halign := hc.elem_some (encElems whole ++ tail) b
    rw [← hmem] at halign
    obtain ⟨c',hc',hloop⟩ := ih halign (by rw [hmem, List.append_assoc])
      fun e he => hwhole e (List.mem_cons_of_mem _ he)
    refine ⟨c',by simpa using hc',?_⟩
    rw [List.length_cons, Nat.succ_add_eq_add_succ, Nat.add_succ, multibulkLoop, if_neg hin, hloop]

/-- A buffer that ends inside the elements of an array. `skip` bytes stand before the reply, and the
`digits` digits of its count have not been counted. -/
structure CutBuffer (pre mem : Bytes) (skip digits : Nat) (rdataLen : Int) (c : Cursor) (cut : Cut) :
    Prop where
  aligned : Aligned pre (skip + digits) c
  mem_eq : mem = pre ++ (encElems cut.whole ++ (encElem cut.broken).take cut.seen)
  len_eq : (mem.length : Int) = rdataLen + skip
  seen_lt : cut.seen < (encElem cut.broken).length
  whole_ne : ∀ e ∈ cut.whole, e ≠ none

section Elements

variable {pre mem : Bytes} {skip digits : Nat} {rdataLen : Int} {c : Cursor} {cut : Cut}

theorem CutBuffer.broken (h : CutBuffer pre mem skip digits rdataLen c cut) :
    ∃ c', Aligned (pre ++ encElems cut.whole) (skip + digits) c' ∧
      (mem.length : Int) = c'.rest + cut.seen ∧
      mem = (pre ++ encElems cut.whole) ++ (encElem cut.broken).take cut.seen ∧
      multibulkLoop mem rdataLen (cut.whole.length + (cut.later.length + 1)) c =
        multibulkLoop mem rdataLen cut.later.length (multibulkElem mem c') := by
  have hlen : (mem.length : Int) ≤ rdataLen + (skip + digits : Nat) := by
    have := h.len_eq
    push_cast
    omega
  have hmem : mem = (pre ++ encElems cut.whole) ++ (encElem cut.broken).take cut.seen := by
    rw [h.mem_eq, List.append_assoc]
  obtain ⟨c',hc',hloop⟩ := multibulkLoop_whole h.aligned h.mem_eq hlen h.whole_ne
    (cut.later.length + 1)
  refine ⟨c',hc',?_,hmem,?_⟩
  · rw [hc'.rest_eq, hmem, List.length_append, List.length_take, min_eq_left h.seen_lt.le]
    push_cast
    rfl
  · rw [hloop, multibulkLoop, if_neg (hc'.not_again hmem hlen)]

theorem CutBuffer.waits_of_again (h : CutBuffer pre mem skip digits rdataLen c cut)
    (hagain : (multibulkLoop mem rdataLen (cut.whole.length + (cut.later.length + 1)) c).rc =
      .again) : cut.waits digits := by
  obtain ⟨c',hc',hsize,hmem,hloop⟩ := h.broken
  obtain ⟨hcount,hpast⟩ := broken_step cut.broken hc' h.seen_lt
  rw [← hmem] at hcount hpast
  rw [hloop] at hagain
  obtain ⟨hpos,hlt⟩ := past_of_again hpast hcount hagain
  have hlen := h.len_eq
  have hrest := hc'.rest_eq
  push_cast at hlt
  exact ⟨List.length_pos_iff.mp hpos,by omega⟩

theorem CutBuffer.again_of_waits (h : CutBuffer pre mem skip digits rdataLen c cut)
    (hbound : mem.length ≤ 2 ^ 30) (hwaits : cut.waits digits) :
    (multibulkLoop mem rdataLen (cut.whole.length + (cut.later.length + 1)) c).rc = .again := by
  obtain ⟨c',hc',hsize,hmem,hloop⟩ := h.broken
  obtain ⟨hcount,hpast⟩ := broken_step cut.broken hc' h.seen_lt
  rw [← hmem] at hcount hpast
  have hclaim := claimedSize_le cut.broken cut.seen
  have hpos := List.length_pos_iff.mpr hwaits.1
  have hlt := hwaits.2
  have hlen := h.len_eq
  have hrest := hc'.rest_eq
  push_cast at hcount
  rw [hloop]
  exact again_of_past hpast hcount (by omega) (by omega) hpos (by omega)

end Elements

end QkPack
