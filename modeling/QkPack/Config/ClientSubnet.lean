import QkPack.Config.AclProcess

/-!
# The network of a client

The loop of `GetNodeList` copies the header `X-Real-IP` byte by byte into ten bytes on the stack until it has seen
two dots.
-/

namespace QkPack
open Wire CString Resp

/-- The loop of `GetNodeList`; `rest` has the bytes before `j`, of which the key is made in the end. -/
def subnetLoop (len : Int) : Bytes → Nat → Bytes → Except AclFault Bytes
  | [], _, rest => .ok rest
  | p :: data, num, rest =>
    if (rest.length : Int) < len then
      if 10 ≤ rest.length then .error .overflow
      else
        let num := if p = 46 then num + 1 else num
        -- The second dot is written at `j`, but it is not part of the key.
        if num = 2 then .ok rest else subnetLoop len data num (rest ++ [p])
    else .ok rest

/-- The key under which `GetNodeList` looks. The length of the header is kept in an `int`. -/
def subnetKey (xRealIp : Bytes) : Except AclFault Bytes := subnetLoop (int32 xRealIp.length) xRealIp 0 []

def BeforeSecondDot (s key : Bytes) : Prop :=
  (∃ rest, s = key ++ 46 :: rest ∧ key.count 46 = 1) ∨ (key = s ∧ s.count 46 < 2)

section BeforeDot

variable {s key : Bytes} {n : Nat}

theorem beforeDot_spec (n : Nat) (s : Bytes) :
    (∃ rest, s = beforeDot n s ++ 46 :: rest ∧ (beforeDot n s).count 46 = n) ∨
      (beforeDot n s = s ∧ s.count 46 ≤ n) := by
  induction s generalizing n with
  | nil => exact .inr ⟨by cases n <;> rfl,Nat.zero_le n⟩
  | cons c s ih =>
    by_cases hc : c = 46
    · subst hc
      cases n with
      | zero => exact .inl ⟨s,rfl,rfl⟩
      | succ n =>
        rw [beforeDot, if_pos rfl]
        refine (ih n).imp ?_ ?_
        · rintro ⟨rest,hs,hcount⟩
          exact ⟨rest,congrArg (46 :: ·) hs,by rw [List.count_cons_self, hcount]⟩
        · rintro ⟨hs,hcount⟩
          exact ⟨congrArg (46 :: ·) hs,by rw [List.count_cons_self]; omega⟩
    · have hstep : beforeDot n (c :: s) = c :: beforeDot n s := by cases n <;> simp [beforeDot, hc]
      rw [hstep]
      refine (ih n).imp ?_ ?_
      · rintro ⟨rest,hs,hcount⟩
        exact ⟨rest,congrArg (c :: ·) hs,by rw [List.count_cons_of_ne hc, hcount]⟩
      · rintro ⟨hs,hcount⟩
        exact ⟨congrArg (c :: ·) hs,by rwa [List.count_cons_of_ne hc]⟩

theorem append_dot_unique {key' rest rest' : Bytes} (h : key ++ 46 :: rest = key' ++ 46 :: rest')
    (hcount : key.count 46 = key'.count 46) : key = key' := by
  rcases List.append_eq_append_iff.mp h with ⟨t,rfl,ht⟩ | ⟨t,rfl,ht⟩
  · cases t with
    | nil => simp
    | cons c t =>
      obtain ⟨rfl,-⟩ := List.cons.inj ht
      simp at hcount
  · cases t with
    | nil => simp
    | cons c t =>
      obtain ⟨rfl,-⟩ := List.cons.inj ht
      simp at hcount

theorem beforeSecondDot_iff : BeforeSecondDot s key ↔ key = beforeDot 1 s := by
  constructor
  · rintro (⟨rest,rfl,hcount⟩ | ⟨rfl,hcount⟩)
    · rcases beforeDot_spec 1 (key ++ 46 :: rest) with ⟨rest',hs,hone⟩ | ⟨-,hone⟩
      · exact append_dot_unique hs (hcount.trans hone.symm)
      · rw [List.count_append, List.count_cons_self] at hone
        omega
    · rcases beforeDot_spec 1 key with ⟨rest',hs,hone⟩ | ⟨hs,-⟩
      · have htwo := congrArg (List.count 46) hs
        rw [List.count_append, List.count_cons_self] at htwo
        omega
      · exact hs.symm
  · rintro rfl
    exact (beforeDot_spec 1 s).imp id fun h => ⟨h.1,by omega⟩

theorem beforeDot_length_le (n : Nat) (s : Bytes) : (beforeDot n s).length ≤ s.length := by
  rcases beforeDot_spec n s with ⟨rest,hs,-⟩ | ⟨hs,-⟩
  · have hlen := congrArg List.length hs
    rw [List.length_append] at hlen
    omega
  · rw [hs]

theorem length_eq_zero_of_beforeDot (h : (beforeDot 1 s).length = 0) : s.length = 0 := by
  rcases beforeDot_spec 1 s with ⟨-,-,hcount⟩ | ⟨hs,-⟩
  · rw [List.eq_nil_of_length_eq_zero h] at hcount
    cases hcount
  · rwa [hs] at h

end BeforeDot

section Loop

variable {data rest : Bytes} {len : Int} {num n : Nat}

/-- How many bytes the loop writes, when it can make `m` rounds and the dot that ends it stands behind `b`. -/
def written (m : Nat) (data b : Bytes) : Nat := min m (min data.length (b.length + 1))

theorem beforeDot_copied {p : UInt8} (hend : ¬ (p = 46 ∧ n = 0)) :
    beforeDot n (p :: data) = p :: beforeDot (if p = 46 then n - 1 else n) data := by
  cases n with
  | zero => simp_all [beforeDot]
  | succ n => rfl

theorem dots_copied {p : UInt8} (hnum : num + n = 1) (hend : ¬ (p = 46 ∧ n = 0)) :
    (if p = 46 then num + 1 else num) + (if p = 46 then n - 1 else n) = 1 := by
  split
  · rename_i hp
    have hn : n ≠ 0 := fun hn => hend ⟨hp,hn⟩
    omega
  · exact hnum

theorem subnetLoop_copied {p : UInt8} (hnum : num + n = 1) (hend : ¬ (p = 46 ∧ n = 0))
    (hlen : (rest.length : Int) < len) (hroom : ¬ 10 ≤ rest.length) :
    subnetLoop len (p :: data) num rest =
      subnetLoop len data (if p = 46 then num + 1 else num) (rest ++ [p]) := by
  have hcount := dots_copied hnum hend
  have hnot : ¬ (if p = 46 then num + 1 else num) = 2 := by omega
  rw [subnetLoop, if_pos hlen, if_neg hroom, if_neg hnot]

theorem subnetLoop_eq (hnum : num + n = 1) (hrest : rest.length ≤ 10) :
    subnetLoop len data num rest =
      if rest.length + written (len - rest.length).toNat data (beforeDot n data) ≤ 10 then
        .ok (rest ++ (beforeDot n data).take (len - rest.length).toNat)
      else .error .overflow := by
  induction data generalizing num n rest with
  | nil =>
    have hnil : beforeDot n [] = [] := by cases n <;> rfl
    rw [subnetLoop, hnil, if_pos (by simpa [written] using hrest), List.take_nil, List.append_nil]
  | cons p data ih =>
    by_cases hlen : (rest.length : Int) < len
    · obtain ⟨m,hm⟩ : ∃ m, (len - rest.length).toNat = m + 1 := ⟨(len - rest.length).toNat - 1,by omega⟩
      rw [hm]
      by_cases hfull : 10 ≤ rest.length
      · rw [subnetLoop, if_pos hlen, if_pos hfull, if_neg]
        simp only [written, List.length_cons]
        omega
      · by_cases hend : p = 46 ∧ n = 0
        · obtain ⟨rfl,rfl⟩ := hend
          have hstop : beforeDot 0 (46 :: data) = [] := rfl
          rw [subnetLoop, if_pos hlen, if_neg hfull, if_pos rfl, if_pos (by omega), hstop, List.take_nil,
            List.append_nil, if_pos]
          simp only [written, List.length_nil, List.length_cons]
          omega
        · have hnext : (rest ++ [p]).length = rest.length + 1 := List.length_append
          have hm' : (len - (rest ++ [p]).length).toNat = m := by omega
          rw [subnetLoop_copied hnum hend hlen hfull, ih (dots_copied hnum hend) (by omega), hm',
            beforeDot_copied hend, List.take_succ_cons, List.append_assoc, List.singleton_append]
          refine if_congr ?_ rfl rfl
          simp only [written, hnext, List.length_cons]
          omega
    · have hm : (len - rest.length).toNat = 0 := by omega
      rw [subnetLoop, if_neg hlen, hm, List.take_zero, List.append_nil, if_pos]
      simpa [written] using hrest

theorem subnetLoop_start (len : Int) (data : Bytes) :
    subnetLoop len data 0 [] =
      if written len.toNat data (beforeDot 1 data) ≤ 10 then .ok ((beforeDot 1 data).take len.toNat)
      else .error .overflow := by
  have h : subnetLoop len data 0 [] = _ := subnetLoop_eq (n := 1) rfl (Nat.zero_le _)
  simpa using h

end Loop

section Header

variable {xRealIp : Bytes}

theorem subnetKey_eq (xRealIp : Bytes) :
    subnetKey xRealIp =
      if written (int32 xRealIp.length).toNat xRealIp (beforeDot 1 xRealIp) ≤ 10 then
        .ok ((beforeDot 1 xRealIp).take (int32 xRealIp.length).toNat)
      else .error .overflow :=
  subnetLoop_start _ _

/-- The key that access control works with is the one of the loop. -/
theorem subnetKey_eq_clientSubnet (h : xRealIp.length < 2 ^ 31) : subnetKey xRealIp = clientSubnet xRealIp := by
  have hle := beforeDot_length_le 1 xRealIp
  have hlen : (int32 xRealIp.length).toNat = xRealIp.length := by
    rw [int32_of_range (by omega) (by omega), Int.toNat_natCast]
  rw [subnetKey_eq, clientSubnet, hlen, List.take_of_length_le hle, written]
  refine if_congr ?_ rfl rfl
  split <;> omega

/-- Where the second dot has to stand, for headers shorter than 2 GiB. -/
theorem written_short_iff (h : xRealIp.length < 2 ^ 31) :
    ((beforeDot 1 xRealIp).length ≤ int32 xRealIp.length ∧
        min (int32 xRealIp.length) ((beforeDot 1 xRealIp).length + 1) ≤ 10) ↔
      xRealIp.length ≤ 10 ∨ (beforeDot 1 xRealIp).length ≤ 9 := by
  have hle := beforeDot_length_le 1 xRealIp
  rw [int32_of_range (by omega) (by omega)]
  omega

end Header

/-- The loop stays in its ten bytes and finds the text before the second dot, just when the length in an `int` reaches
this text and the bytes that are copied, with the dot behind them, are at most ten. -/
theorem subnetKey_exact_iff (xRealIp : Bytes) :
    (∃ key, subnetKey xRealIp = .ok key ∧ BeforeSecondDot xRealIp key) ↔
      (beforeDot 1 xRealIp).length ≤ int32 xRealIp.length ∧
        min (int32 xRealIp.length) ((beforeDot 1 xRealIp).length + 1) ≤ 10 := by
  have hle := beforeDot_length_le 1 xRealIp
  have hlen : int32 xRealIp.length ≤ xRealIp.length := int32_le_self (by omega)
  have hwritten : written (int32 xRealIp.length).toNat xRealIp (beforeDot 1 xRealIp) =
      min (int32 xRealIp.length).toNat ((beforeDot 1 xRealIp).length + 1) := by
    rw [written]
    omega
  rw [subnetKey_eq, hwritten]
  constructor
  · rintro ⟨key,hkey,hbefore⟩
    rw [beforeSecondDot_iff] at hbefore
    subst hbefore
    split at hkey
    · rename_i hroom
      have htake := congrArg List.length (Except.ok.inj hkey)
      rw [List.length_take] at htake
      have hempty : (beforeDot 1 xRealIp).length = 0 → int32 xRealIp.length = 0 := by
        intro hzero
        rw [length_eq_zero_of_beforeDot hzero]
        rfl
      omega
    · cases hkey
  · rintro ⟨hreach,hroom⟩
    refine ⟨beforeDot 1 xRealIp,?_,beforeSecondDot_iff.mpr rfl⟩
    rw [if_pos (by omega), List.take_of_length_le (by omega)]

/-- An address of IPv6 has no dots, and its eleventh byte is written behind the end of the buffer. -/
theorem subnetKey_ipv6 : subnetKey (text "2001:db8::1") = .error .overflow ∧
    BeforeSecondDot (text "2001:db8::1") (text "2001:db8::1") :=
  ⟨by decide +kernel,.inr ⟨rfl,by decide⟩⟩

end QkPack
