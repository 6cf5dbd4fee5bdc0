import QkPack.Core.Request

/-!
# The node that is picked after a failure

When a node fails without a redirection, `ngx_http_upstream_update_nodes` draws another peer at random. It counts its
draws in a variable that it never sets, and when that leaves no draw, it uses an index that it never set either. The
name of the peer at this index is the `randomIp` of the retry machine.
-/

namespace QkPack
open Wire CString Resp

/-- A peer, with the memory behind its name, which need not end with a null byte. -/
structure NamedPeer where
  name : Bytes
  behind : Nat → UInt8

/-- The byte at `name.data + i`. -/
def NamedPeer.byte (peer : NamedPeer) (i : Nat) : UInt8 := peer.name.getD i (peer.behind (i - peer.name.length))

/-- `ngx_strncmp (s,t,n) == 0`, from the byte `i` on. -/
def strncmpEq (s t : Nat → UInt8) : Nat → Nat → Bool
  | _, 0 => true
  | i, n + 1 => s i == t i && (s i == 0 || strncmpEq s t (i + 1) n)

def NamedPeer.matches (peer : NamedPeer) (s : Bytes) : Bool := strncmpEq peer.byte (s.getD · 0) 0 s.length

def defaultServer : Bytes := text "0.0.0.0:80"

def backupServer : Bytes := text "127.0.0.1:8010"

def maxTry : Nat := 10

section Loop

variable (peers : List NamedPeer) (key : Bytes) (draw : Nat → Nat)

def NamedPeer.avoided (peer : NamedPeer) : Bool :=
  peer.matches key || peer.matches defaultServer || peer.matches backupServer

/-- The loop of `ngx_http_upstream_update_nodes` with the values of `count` and `rand_num` and the number of draws so
far; `draw` has what `rand ()` returns. -/
def randLoop : Nat → Nat → Nat → Nat → Option (Nat × Nat)
  | 0, _, _, _ => none
  | fuel + 1, count, randNum, drawn =>
    let count := (count + 1) % 2 ^ 64
    if maxTry ≤ count then some (randNum,drawn)
    else
      let randNum := draw drawn % peers.length
      if (peers[randNum]?).all (·.avoided key) then randLoop fuel count randNum (drawn + 1)
      else some (randNum,drawn + 1)

/-- How many draws a value of `count` leaves. -/
def drawsLeft (count : Nat) : Nat := if count = 2 ^ 64 - 1 then maxTry else maxTry - 1 - count

def drawLoop : Nat → Nat → Nat → Nat × Nat
  | 0, randNum, drawn => (randNum,drawn)
  | left + 1, _, drawn =>
    let randNum := draw drawn % peers.length
    if (peers[randNum]?).all (·.avoided key) then drawLoop left randNum (drawn + 1) else (randNum,drawn + 1)

end Loop

section Draws

variable {peers : List NamedPeer} {key : Bytes} {draw : Nat → Nat} {fuel count randNum drawn left : Nat}

theorem drawsLeft_le (count : Nat) : drawsLeft count ≤ maxTry := by
  unfold drawsLeft maxTry
  split <;> omega

theorem drawsLeft_step (hcount : count < 2 ^ 64) :
    if maxTry ≤ (count + 1) % 2 ^ 64 then drawsLeft count = 0
    else drawsLeft count = drawsLeft ((count + 1) % 2 ^ 64) + 1 := by
  unfold drawsLeft maxTry
  split <;> split <;> (try split) <;> omega

theorem randLoop_eq (hcount : count < 2 ^ 64) (hfuel : drawsLeft count < fuel) :
    randLoop peers key draw fuel count randNum drawn =
      some (drawLoop peers key draw (drawsLeft count) randNum drawn) := by
  induction fuel generalizing count randNum drawn with
  | zero => exact absurd hfuel (Nat.not_lt_zero _)
  | succ fuel ih =>
    have hstep := drawsLeft_step hcount
    rw [randLoop]
    by_cases hend : maxTry ≤ (count + 1) % 2 ^ 64
    · rw [if_pos hend] at hstep
      simp only [if_pos hend, hstep]
      rfl
    · rw [if_neg hend] at hstep
      simp only [if_neg hend, hstep, drawLoop]
      split
      · exact ih (Nat.mod_lt _ (by norm_num)) (by omega)
      · rfl

theorem drawLoop_lt (hne : peers ≠ []) (hleft : 0 < left) :
    (drawLoop peers key draw left randNum drawn).1 < peers.length := by
  have hpos : 0 < peers.length := List.length_pos_iff.mpr hne
  induction left generalizing randNum drawn with
  | zero => exact absurd hleft (Nat.not_lt_zero _)
  | succ left ih =>
    rw [drawLoop]
    split
    · cases left with
      | zero => exact Nat.mod_lt _ hpos
      | succ left => exact ih (Nat.succ_pos left)
    · exact Nat.mod_lt _ hpos

theorem drawLoop_avoided {peer : NamedPeer} (hpeer : peers[(drawLoop peers key draw left randNum drawn).1]? = some peer)
    (havoided : peer.avoided key = true) : (drawLoop peers key draw left randNum drawn).2 = drawn + left := by
  induction left generalizing randNum drawn with
  | zero => rfl
  | succ left ih =>
    rw [drawLoop] at hpeer ⊢
    split
    · rename_i hdraw
      rw [if_pos hdraw] at hpeer
      rw [ih hpeer]
      omega
    · rename_i hdraw
      rw [if_neg hdraw] at hpeer
      rw [hpeer] at hdraw
      exact absurd havoided hdraw

theorem drawLoop_const {i : Nat} {peer : NamedPeer} (hpeer : peers[i]? = some peer) (havoided : peer.avoided key = true)
    (hleft : 0 < left) : drawLoop peers key (fun _ => i) left randNum drawn = (i,drawn + left) := by
  have hi : i % peers.length = i := Nat.mod_eq_of_lt (List.getElem?_eq_some_iff.mp hpeer).1
  induction left generalizing randNum drawn with
  | zero => exact absurd hleft (Nat.not_lt_zero _)
  | succ left ih =>
    rw [drawLoop]
    simp only [hi, hpeer, Option.all_some, havoided, if_true]
    cases left with
    | zero => rfl
    | succ left =>
      rw [ih (Nat.succ_pos left)]
      congr 1
      omega

end Draws

section Names

variable {peer : NamedPeer} {key : Bytes}

/-- The peer is the current node, or one of the two servers that stand for no node. -/
def NamedPeer.Excluded (peer : NamedPeer) (key : Bytes) : Prop :=
  peer.name = key ∨ peer.name = defaultServer ∨ peer.name = backupServer

instance : Decidable (peer.Excluded key) := inferInstanceAs (Decidable (_ ∨ _ ∨ _))

theorem strncmpEq_of_forall {s t : Nat → UInt8} {i n : Nat} (h : ∀ j, i ≤ j → j < i + n → s j = t j) :
    strncmpEq s t i n = true := by
  induction n generalizing i with
  | zero => rfl
  | succ n ih =>
    have hhead : s i = t i := h i le_rfl (by omega)
    have htail : strncmpEq s t (i + 1) n = true := ih fun j hj hlt => h j (by omega) (by omega)
    rw [strncmpEq, hhead, htail, Bool.or_true, Bool.and_true, beq_self_eq_true]

theorem NamedPeer.matches_name (peer : NamedPeer) : peer.matches peer.name = true := by
  apply strncmpEq_of_forall
  intro j _ hj
  rw [Nat.zero_add] at hj
  rw [NamedPeer.byte, List.getD_eq_getElem?_getD, List.getD_eq_getElem?_getD, List.getElem?_eq_getElem hj]
  rfl

theorem NamedPeer.Excluded.avoided (h : peer.Excluded key) : peer.avoided key = true := by
  have hname := peer.matches_name
  rcases h with h | h | h
  · rw [h] at hname
    simp [NamedPeer.avoided, hname]
  · rw [h] at hname
    simp [NamedPeer.avoided, hname]
  · rw [h] at hname
    simp [NamedPeer.avoided, hname]

end Names

section Fallback

variable (peers : List NamedPeer) (key : Bytes)

def HasEligible : Prop := ∃ peer ∈ peers, ¬ peer.Excluded key

/-- The index is one of a peer, and it is not one of a peer to be left out unless the draws were used up. -/
def Chosen (index drawn : Nat) : Prop :=
  index < peers.length ∧
    (HasEligible peers key → ∀ peer, peers[index]? = some peer → peer.Excluded key → maxTry - 1 ≤ drawn)

/-- Whatever is drawn, the loop ends with such an index. -/
def FallbackSound (count randNum : UInt64) : Prop :=
  ∀ draw, ∃ index drawn, Chosen peers key index drawn ∧
    ∀ fuel, maxTry < fuel → randLoop peers key draw fuel count.toNat randNum.toNat 0 = some (index,drawn)

end Fallback

section Sound

variable {peers : List NamedPeer} {key : Bytes} {count randNum : UInt64}

theorem fallbackSound_iff_drawLoop : FallbackSound peers key count randNum ↔
    ∀ draw, Chosen peers key (drawLoop peers key draw (drawsLeft count.toNat) randNum.toNat 0).1
      (drawLoop peers key draw (drawsLeft count.toNat) randNum.toNat 0).2 := by
  have hloop (draw : Nat → Nat) (fuel : Nat) (hfuel : maxTry < fuel) :
      randLoop peers key draw fuel count.toNat randNum.toNat 0 =
        some (drawLoop peers key draw (drawsLeft count.toNat) randNum.toNat 0) :=
    randLoop_eq count.toNat_lt ((drawsLeft_le _).trans_lt hfuel)
  refine forall_congr' fun draw => ⟨?_,fun h => ⟨_,_,h,hloop draw⟩⟩
  rintro ⟨index,drawn,hchosen,hrun⟩
  have heq := Option.some.inj ((hloop draw 11 (by decide)).symm.trans (hrun 11 (by decide)))
  rw [heq]
  exact hchosen

theorem chosen_of_enough (hne : peers ≠ []) {left : Nat} (hleft : maxTry - 1 ≤ left) (draw : Nat → Nat) (start : Nat) :
    Chosen peers key (drawLoop peers key draw left start 0).1 (drawLoop peers key draw left start 0).2 := by
  have hpos : 0 < left := lt_of_lt_of_le (by decide) hleft
  refine ⟨drawLoop_lt hne hpos,fun _ peer hpeer hexcluded => ?_⟩
  rw [drawLoop_avoided hpeer hexcluded.avoided]
  omega

theorem forall_chosen_iff_of_few (hne : peers ≠ []) {left : Nat} (hpos : 0 < left) (hfew : left < maxTry - 1)
    (start : Nat) :
    (∀ draw, Chosen peers key (drawLoop peers key draw left start 0).1 (drawLoop peers key draw left start 0).2) ↔
      (HasEligible peers key → ∀ peer ∈ peers, ¬ peer.Excluded key) := by
  constructor
  · intro h heligible peer hmem hexcluded
    obtain ⟨i,hi⟩ := List.mem_iff_getElem?.mp hmem
    obtain ⟨-,hdrawn⟩ := h fun _ => i
    rw [drawLoop_const hi hexcluded.avoided hpos] at hdrawn
    have henough := hdrawn heligible peer hi hexcluded
    omega
  · intro h draw
    refine ⟨drawLoop_lt hne hpos,fun heligible peer hpeer hexcluded => ?_⟩
    exact absurd hexcluded (h heligible peer (List.mem_of_getElem? hpeer))

theorem forall_chosen_iff_of_none (start : Nat) :
    (∀ draw, Chosen peers key (drawLoop peers key draw 0 start 0).1 (drawLoop peers key draw 0 start 0).2) ↔
      start < peers.length ∧
        (HasEligible peers key → ∀ peer, peers[start]? = some peer → ¬ peer.Excluded key) := by
  constructor
  · intro h
    obtain ⟨hlt,hdrawn⟩ := h fun _ => 0
    refine ⟨hlt,fun heligible peer hpeer hexcluded => ?_⟩
    have henough : maxTry - 1 ≤ 0 := hdrawn heligible peer hpeer hexcluded
    exact absurd henough (by decide)
  · rintro ⟨hlt,hnot⟩ draw
    exact ⟨hlt,fun heligible peer hpeer hexcluded => absurd hexcluded (hnot heligible peer hpeer)⟩

end Sound

/-- The node that is picked is a real peer, and one to be left out only after nine draws, just in these cases: `count`
happened to be zero, or the largest number; it was less than nine and there is nothing to pick or nothing to leave
out; or it was larger and `rand_num` happened to be such an index. -/
theorem fallback_sound_iff (peers : List NamedPeer) (key : Bytes) (count randNum : UInt64) (hne : peers ≠ []) :
    FallbackSound peers key count randNum ↔
      count.toNat = 0 ∨ count.toNat = 2 ^ 64 - 1 ∨
      (count.toNat < 9 ∧ (HasEligible peers key → ∀ peer ∈ peers, ¬ peer.Excluded key)) ∨
      (9 ≤ count.toNat ∧ randNum.toNat < peers.length ∧
        (HasEligible peers key → ∀ peer, peers[randNum.toNat]? = some peer → ¬ peer.Excluded key)) := by
  have hcount := count.toNat_lt
  rw [fallbackSound_iff_drawLoop]
  by_cases henough : maxTry - 1 ≤ drawsLeft count.toNat
  · have hstart : count.toNat = 0 ∨ count.toNat = 2 ^ 64 - 1 := by
      unfold drawsLeft maxTry at henough
      split at henough <;> omega
    refine iff_of_true (fun draw => chosen_of_enough hne henough draw _) ?_
    exact hstart.imp id .inl
  · by_cases hpos : 0 < drawsLeft count.toNat
    · have hlt : count.toNat ≠ 0 ∧ count.toNat ≠ 2 ^ 64 - 1 ∧ count.toNat < 9 := by
        unfold drawsLeft maxTry at henough hpos
        split at henough <;> split at hpos <;> omega
      rw [forall_chosen_iff_of_few hne hpos (not_le.mp henough)]
      simp only [hlt, false_or, true_and, not_le.mpr hlt.2.2, false_and, or_false]
    · have hge : count.toNat ≠ 0 ∧ count.toNat ≠ 2 ^ 64 - 1 ∧ 9 ≤ count.toNat := by
        unfold drawsLeft maxTry at henough hpos
        split at henough <;> split at hpos <;> omega
      rw [Nat.eq_zero_of_not_pos hpos, forall_chosen_iff_of_none]
      simp only [hge, false_or, true_and, not_lt.mpr hge.2.2, false_and]

def twoPeers : List NamedPeer := [⟨text "10.0.0.1:7000",fun _ => 0⟩,⟨text "10.0.0.2:7000",fun _ => 0⟩]

theorem fallback_sound_zero : twoPeers ≠ [] ∧ FallbackSound twoPeers (text "10.0.0.1:7000") 0 12345 :=
  ⟨List.cons_ne_nil _ _,
    (fallback_sound_iff twoPeers (text "10.0.0.1:7000") 0 12345 (List.cons_ne_nil _ _)).mpr (.inl rfl)⟩

/-- `count` happened to be 100 and `rand_num` 12345, which is not the index of a peer; or `count` happened to be 8, and
the node that has failed is picked after one draw. -/
theorem fallback_uninitialised :
    randLoop twoPeers (text "10.0.0.1:7000") (fun _ => 0) 11 100 12345 0 = some (12345,0) ∧ twoPeers.length = 2 ∧
    randLoop twoPeers (text "10.0.0.1:7000") (fun _ => 0) 11 8 0 0 = some (0,1) ∧
    (twoPeers[0]?).map (·.name) = some (text "10.0.0.1:7000") ∧
    (twoPeers[1]?).map (·.name) = some (text "10.0.0.2:7000") := by
  decide +kernel

end QkPack
