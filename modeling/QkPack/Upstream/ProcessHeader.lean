import QkPack.Core.Request
import QkPack.Upstream.BoundedWait

/-!
# The header callback and a fragmented answer to `ASKING`

`ngx_http_qkupstream_process_header` is called after every read. While the flag of the request is
`ASKING_END` it passes over the five bytes of `+OK` before it looks at the reply.
-/

namespace QkPack
open Wire CString Resp

/-- What `ngx_http_qkupstream_process_header` finds out from the buffer: the length it works with,
the answer of the framing check, and the bytes it hands on when the reply is complete. -/
structure HeaderCheck where
  len : Int
  frame : Frame
  response : Option Bytes
deriving DecidableEq, Repr

/-- `ngx_http_qkupstream_process_header` up to `ctx->response_buffer`. -/
def headerCheck (movedAsk : MovedAsk) (buffer : Bytes) : HeaderCheck :=
  if movedAsk = .ask ∨ movedAsk = .asking then ⟨buffer.length,⟨.invalidHeader,0⟩,none⟩
  else
    let skip : Nat := if movedAsk = .askingEnd then 5 else 0
    let len : Int := buffer.length - skip
    let frame := ngxRedisProtoDecode buffer skip len
    ⟨len,frame,if frame.rc = .ok then some (buffer.drop skip) else none⟩

/-- The answer to `ASKING`. -/
def askingOk : Bytes := text "+OK" ++ crlf

/-- Every byte looked at is in the buffer, and the length is no negative number. -/
def HeaderCheck.inBounds (h : HeaderCheck) (buffer : Bytes) : Prop :=
  0 ≤ h.len ∧ h.frame.reach ≤ buffer.length

/-- The reads arrive one after the other behind `buffer`: the callback asks for more after each of
them but the last, then passes on exactly `r`, and stays in the buffer all the time. -/
def Tolerates (r : Bytes) : Bytes → List Bytes → Prop
  | _, [] => False
  | buffer, [s] =>
    (headerCheck .askingEnd (buffer ++ s)).inBounds (buffer ++ s) ∧
      (headerCheck .askingEnd (buffer ++ s)).response = some r
  | buffer, s :: reads =>
    (headerCheck .askingEnd (buffer ++ s)).inBounds (buffer ++ s) ∧
      (headerCheck .askingEnd (buffer ++ s)).frame.rc = .again ∧ Tolerates r (buffer ++ s) reads

def NoInnerNull : Reply → Prop
  | .array es => ∀ e ∈ es.dropLast, e ≠ none
  | _ => True

/-- After which of its first bytes a reply is waited for within the buffer. -/
def replyWaits : Reply → Nat → Prop
  | .bulk (some b), q => (decimal b.bytes.length).length + 2 ≤ q
  | .array es, q => arrayWaitsWithin es q
  | _, _ => False

theorem encElems_length_ge (es : List Elem) : es.length ≤ (encElems es).length := by
  induction es with
  | nil => simp
  | cons e es ih =>
    have := encElem_length_ge e
    rw [encElems_cons, List.length_append, List.length_cons]
    omega

theorem cutElems_append {es : List Elem} {p : Nat} {c : Cut} (h : cutElems es p = some c) :
    es = c.whole ++ c.broken :: c.later := by
  induction es generalizing p c with
  | nil => simp [cutElems] at h
  | cons e es ih =>
    simp only [cutElems] at h
    split at h
    · obtain ⟨c',hc',rfl⟩ := Option.map_eq_some_iff.mp h
      rw [ih hc']
      rfl
    · obtain rfl := Option.some.inj h
      rfl

theorem noWholeNull_of_noInnerNull {es : List Elem} (h : ∀ e ∈ es.dropLast, e ≠ none) (p : Nat) :
    NoWholeNull es p := by
  intro c hc e he
  refine h e ?_
  rw [cutElems_append hc, List.dropLast_append_cons]
  exact List.mem_append_left _ he

section Reply

variable (skip : Bytes) {r : Reply} (hr : NoInnerNull r)
  (hsize : skip.length + (encode r).length ≤ 2 ^ 30)

theorem length_lt_of_size {es : List Elem} (h : skip.length + (encArray es).length ≤ 2 ^ 30) :
    es.length < 2 ^ 31 := by
  have := encElems_length_ge es
  rw [encArray, List.length_append] at h
  omega

include hsize in
theorem waitsWithin_reply_iff {q : Nat} (hq : 0 < q) (hq' : q < (encode r).length)
    (hnull : ∀ es, r = .array es → NoWholeNull es q) :
    WaitsWithin skip ((encode r).take q) ↔ replyWaits r q := by
  cases r with
  | error l =>
    refine iff_of_false (fun h => ?_) id
    have hwait := h.1
    rw [encode, frameBehind_line_take skip _ (by decide) hq] at hwait
    simp at hwait
  | status l =>
    refine iff_of_false (fun h => ?_) id
    have hwait := h.1
    rw [encode, frameBehind_line_take skip _ (by decide) hq] at hwait
    simp at hwait
  | integer n =>
    refine iff_of_false (fun h => ?_) id
    have hwait := h.1
    rw [encode, frameBehind_line_take skip _ (by decide) hq] at hwait
    simp at hwait
  | bulk e =>
    cases e with
    | none => exact iff_of_false (not_waitsWithin_nullBulk skip hq hq') id
    | some b => exact waitsWithin_bulk_iff skip b hq hq'
  | array es =>
    have hq'' : q < (encArray es).length := hq'
    refine waitsWithin_array_iff skip hq hq' (hnull es rfl) ?_ ?_
    · exact length_lt_of_size skip hsize
    · have : skip.length + (encArray es).length ≤ 2 ^ 30 := hsize
      omega
  | nullArray =>
    refine iff_of_false (fun h => ?_) id
    have hwait := h.1
    rw [encode, frameBehind_nullArray_take skip hq] at hwait
    simp at hwait

theorem frameBehind_complete_nullBulk :
    frameBehind skip nullBulk = ⟨.ok,skip.length + 4⟩ := by
  have hminus : int32 (-1) = -1 := int32_of_range (by norm_num) (by norm_num)
  have hscan : strtol (text "-1" ++ crlf) = ⟨-1,2,3⟩ := strtol_minus_one (stops_crlf _)
  have h := frameBehind_bulk skip (text "-1" ++ crlf)
  simp only [ngxParseBulk, peek_succ_append rfl, hscan, hminus, if_true] at h
  rw [show nullBulk = 36 :: (text "-1" ++ crlf) from rfl, h]
  simp only [Frame.mk.injEq, true_and]
  push_cast
  omega

theorem frameBehind_complete_nullArray :
    frameBehind skip (text "*-1" ++ crlf) = ⟨.ok,skip.length + 4⟩ := by
  have hminus : (int32 (-1)).toNat = 0 := by decide
  have hscan : strtol (text "-1" ++ crlf) = ⟨-1,2,3⟩ := strtol_minus_one (stops_crlf _)
  have h := frameBehind_array skip (text "-1" ++ crlf)
  simp only [ngxParseMultibulk, multibulkInit, peek_succ_append rfl, hscan, hminus,
    multibulkLoop] at h
  rw [show text "*-1" ++ crlf = 42 :: (text "-1" ++ crlf) from rfl, h]
  simp only [Frame.mk.injEq, true_and]
  push_cast
  omega

theorem frameBehind_complete_line (s : Bytes) {c : UInt8} (hc : c = 45 ∨ c = 43 ∨ c = 58) :
    (frameBehind skip (c :: s)).rc = .ok ∧
      (frameBehind skip (c :: s)).reach ≤ (skip ++ c :: s).length := by
  rw [frameBehind_line skip s hc]
  refine ⟨rfl,?_⟩
  simp only [List.length_append, List.length_cons]
  push_cast
  omega

include hr hsize in
theorem frameBehind_complete :
    (frameBehind skip (encode r)).rc = .ok ∧
      (frameBehind skip (encode r)).reach ≤ (skip ++ encode r).length := by
  cases r with
  | error l => exact frameBehind_complete_line skip _ (by decide)
  | status l => exact frameBehind_complete_line skip _ (by decide)
  | integer n => exact frameBehind_complete_line skip _ (by decide)
  | bulk e =>
    cases e with
    | none =>
      rw [encode, encElem_none, frameBehind_complete_nullBulk, List.length_append, nullBulk_length]
      refine ⟨rfl,?_⟩
      push_cast
      omega
    | some b => exact frameBehind_complete_bulk skip b
  | array es =>
    refine frameBehind_complete_array skip ?_
    rw [arraySize_of_lt (length_lt_of_size skip hsize), Int.toNat_natCast, List.take_length]
    exact hr
  | nullArray =>
    rw [encode, frameBehind_complete_nullArray]
    refine ⟨rfl,?_⟩
    simp only [List.length_append, text, crlf_length]
    push_cast
    simp

end Reply

theorem headerCheck_asking (s : Bytes) :
    headerCheck .askingEnd (askingOk ++ s) = ⟨s.length,frameBehind askingOk s,
      if (frameBehind askingOk s).rc = .ok then some s else none⟩ := by
  have hlen : ((askingOk ++ s).length : Int) - (5 : Nat) = s.length := by
    rw [List.length_append, show askingOk.length = 5 from rfl]
    push_cast
    omega
  have hdrop : (askingOk ++ s).drop 5 = s := rfl
  simp only [headerCheck, reduceCtorEq, or_self, if_false, if_true, hlen, hdrop]
  rfl

section Reads

variable {r : Reply} (hr : NoInnerNull r) (hsize : (encode r).length ≤ 2 ^ 29)

include hr hsize in
/-- The callback waits within the buffer after the first `n` bytes exactly when the `+OK` line has
been exceeded and the framing check waits for the rest. -/
theorem headerCheck_waits_iff {n : Nat} (hn : n < (askingOk ++ encode r).length) :
    ((headerCheck .askingEnd ((askingOk ++ encode r).take n)).inBounds
        ((askingOk ++ encode r).take n) ∧
      (headerCheck .askingEnd ((askingOk ++ encode r).take n)).frame.rc = .again) ↔
      5 < n ∧ replyWaits r (n - 5) := by
  have hfive : askingOk.length = 5 := rfl
  rw [List.length_append, hfive] at hn
  rcases Nat.lt_trichotomy n 5 with hshort | rfl | hlong
  · refine iff_of_false ?_ (by omega)
    rintro ⟨⟨hlen,-⟩,-⟩
    simp only [headerCheck, reduceCtorEq, or_self, if_false, if_true, List.length_take] at hlen
    push_cast at hlen
    omega
  · refine iff_of_false ?_ (by omega)
    rintro ⟨-,hagain⟩
    rw [List.take_append_of_le_length (by rw [hfive])] at hagain
    exact absurd hagain (by decide)
  · have htake : (askingOk ++ encode r).take n = askingOk ++ (encode r).take (n - 5) := by
      rw [List.take_append, hfive, List.take_of_length_le (by omega)]
    have hnull : ∀ es, r = .array es → NoWholeNull es (n - 5) := by
      rintro es rfl
      exact noWholeNull_of_noInnerNull hr _
    have hiff := waitsWithin_reply_iff askingOk (by omega) (by omega) (by omega) hnull
    rw [htake, headerCheck_asking, ← hiff]
    simp only [HeaderCheck.inBounds, WaitsWithin, hlong, true_and]
    refine ⟨fun h => ⟨h.2,h.1.2⟩,fun h => ⟨⟨?_,h.2⟩,h.1⟩⟩
    omega

include hr hsize in
theorem headerCheck_complete :
    (headerCheck .askingEnd (askingOk ++ encode r)).inBounds (askingOk ++ encode r) ∧
      (headerCheck .askingEnd (askingOk ++ encode r)).response = some (encode r) := by
  have hfive : askingOk.length = 5 := rfl
  obtain ⟨hrc,hreach⟩ := frameBehind_complete askingOk hr (by omega)
  rw [headerCheck_asking, if_pos hrc]
  exact ⟨⟨by simp,hreach⟩,rfl⟩

/-- How much of the answer has arrived after the first `k` reads behind `buffer`. -/
def arrived (buffer : Bytes) (reads : List Bytes) (k : Nat) : Nat :=
  (buffer ++ (reads.take k).flatten).length

theorem arrived_succ (buffer s : Bytes) (reads : List Bytes) (k : Nat) :
    arrived buffer (s :: reads) (k + 1) = arrived (buffer ++ s) reads k := by
  simp [arrived]

include hr hsize in
theorem tolerates_behind_iff {reads : List Bytes} {buffer : Bytes} (hreads : reads ≠ [])
    (hne : ∀ s ∈ reads, s ≠ []) (hflat : buffer ++ reads.flatten = askingOk ++ encode r) :
    Tolerates (encode r) buffer reads ↔ ∀ k, 0 < k → k < reads.length →
      5 < arrived buffer reads k ∧ replyWaits r (arrived buffer reads k - 5) := by
  induction reads generalizing buffer with
  | nil => exact absurd rfl hreads
  | cons s reads ih =>
    cases reads with
    | nil =>
      have hall : buffer ++ s = askingOk ++ encode r := by simpa using hflat
      refine iff_of_true ?_ fun k hk hk' => ?_
      · rw [Tolerates, hall]
        exact headerCheck_complete hr hsize
      · simp at hk'
        omega
    | cons s' reads =>
      have hrest : (buffer ++ s) ++ (s' :: reads).flatten = askingOk ++ encode r := by
        simp [← hflat]
      have htake : buffer ++ s = (askingOk ++ encode r).take (buffer ++ s).length := by
        rw [← hrest, List.take_left]
      have hn : (buffer ++ s).length < (askingOk ++ encode r).length := by
        have hs' := List.length_pos_iff.mpr (hne s' (by simp))
        simp only [← hrest, List.flatten_cons, List.length_append]
        omega
      have hhead := headerCheck_waits_iff hr hsize hn
      rw [← htake] at hhead
      have htail := ih (by simp)
        (fun t ht => hne t (List.mem_cons_of_mem _ ht)) hrest
      rw [Tolerates, ← and_assoc, hhead, htail]
      · -- the first boundary is the end of `s`, the others are those of the reads behind it
        constructor
        · rintro ⟨hfirst,hlater⟩ k hk hk'
          obtain ⟨j,rfl⟩ := Nat.exists_eq_succ_of_ne_zero hk.ne'
          rw [Nat.succ_eq_add_one, arrived_succ]
          rcases Nat.eq_zero_or_pos j with rfl | hj
          · simpa [arrived] using hfirst
          · exact hlater j hj (by simpa using hk')
        · intro h
          refine ⟨?_,fun k hk hk' => ?_⟩
          · simpa [arrived] using h 1 (by norm_num) (by simp)
          · rw [← arrived_succ]
            exact h (k + 1) (by omega) (by simpa using hk')
      · simp

end Reads

/-- An answer to `ASKING` is handled in any cutting whose boundaries lie behind the `+OK` line and
where the framing check waits within the buffer; at any other boundary it is not. -/
theorem asking_reply_tolerated_iff {r : Reply} (hr : NoInnerNull r)
    (hsize : (encode r).length ≤ 2 ^ 29) {reads : List Bytes} (hne : ∀ s ∈ reads, s ≠ [])
    (hflat : reads.flatten = askingOk ++ encode r) :
    Tolerates (encode r) [] reads ↔ ∀ k, 0 < k → k < reads.length →
      5 < arrived [] reads k ∧ replyWaits r (arrived [] reads k - 5) := by
  refine tolerates_behind_iff hr hsize ?_ hne hflat
  rintro rfl
  simp [askingOk, text] at hflat

theorem asking_reply_tolerated_iff_abc :
    Tolerates (encode (.bulk abc)) [] [askingOk ++ text "$3" ++ crlf, text "abc" ++ crlf] ↔
      ∀ k, 0 < k → k < 2 →
        5 < arrived [] [askingOk ++ text "$3" ++ crlf, text "abc" ++ crlf] k ∧
          replyWaits (.bulk abc)
            (arrived [] [askingOk ++ text "$3" ++ crlf, text "abc" ++ crlf] k - 5) :=
  asking_reply_tolerated_iff (r := .bulk abc) trivial (by decide) (by decide) (by decide)

/-- The boundary right behind the `+OK` line: the callback looks at a byte that has not arrived and
fails the request. -/
theorem asking_reply_cut_behind_ok :
    (headerCheck .askingEnd askingOk).frame.rc = .error ∧
      ¬ Tolerates (encode (.integer 1)) [] [askingOk, encode (.integer 1)] := by
  refine ⟨by decide,?_⟩
  rintro ⟨-,hagain,-⟩
  exact absurd hagain (by decide)

end QkPack
