import QkPack.FanOut.Rounds

/-!
# The slot table of a cluster

`RedisCluster::UpdateClusterNodes` builds the table of a cluster from the reply to `CLUSTER NODES`. Every
token behind the eighth of a master's line is read as a range of slots, also one that is none.
-/

namespace QkPack
open Wire CString Resp

/-- A table of a cluster, `std::map<int,std::string>`. -/
abbrev SlotMap := Int → Option Bytes

/-- `RedisNode`, as far as it is read again. Slots are `size_t`. -/
structure RedisNode where
  addr : Bytes
  connected : Bool
  slots : List (Nat × Nat)

/-- What stands before and behind the first such byte, if there is something behind it. -/
def cutAt (c : UInt8) (s : Bytes) : Option (Bytes × Bytes) :=
  let behind := (s.dropWhile (· != c)).drop 1
  if behind = [] then none else some (s.takeWhile (· != c),behind)

/-- `(size_t) atol (s)`. -/
def atol (s : Bytes) : Nat := toUInt64 (strtol10 s)

/-- `AddSlotRange`. -/
def slotRange (slots : Bytes) : Nat × Nat :=
  match cutAt 45 slots with
  | some (lo,hi) =>
    let slotMin := atol lo
    let slotMax := atol hi
    (slotMin,if slotMax < slotMin then slotMin else slotMax)
  | none => (atol slots,atol slots)

/-- `strcasecmp` with a word in lower case. -/
def sameWord (s : Bytes) (word : String) : Bool := s.map lowerByte == text word

/-- The role without what stands before its first comma. -/
def nodeRole (flags : Bytes) : Bytes := ((cutAt 44 flags).map (·.2)).getD flags

/-- `RedisCluster::GetNode` for a line of the reply. A node in handshake counts as a master. -/
def getNodeLine (line : Bytes) : Option RedisNode :=
  match split line (text " ") with
  | _ :: addr :: flags :: _ :: _ :: _ :: _ :: link :: slots =>
    let role := nodeRole flags
    some ⟨addr,sameWord link "connected",
      if sameWord role "master" ∨ sameWord role "handshake" then slots.map slotRange else []⟩
  | _ => none

/-- The loop over a range, whose numbers become `int`s. It does not end at the largest `size_t`. -/
def setSlots (addr : Bytes) (range : Nat × Nat) (slotMap : SlotMap) : Option SlotMap :=
  if range.2 = 2 ^ 64 - 1 then none
  else some fun s =>
    if -2 ^ 31 ≤ s ∧ s < 2 ^ 31 ∧ (range.1 : Int) + (s - range.1) % 2 ^ 32 ≤ range.2 then some addr
    else slotMap s

/-- `SetMemNode`. -/
def setMemNode (node : RedisNode) (slotMap : SlotMap) : Option SlotMap :=
  if node.connected then node.slots.foldlM (fun slotMap range => setSlots node.addr range slotMap) slotMap
  else some slotMap

/-- The table that `UpdateClusterNodes` builds. -/
def updateClusterNodes (reply : Bytes) : Option SlotMap :=
  (split (cStr reply) (text "\n")).foldlM (fun slotMap line =>
    match getNodeLine line with
    | none => some slotMap
    | some node => setMemNode node slotMap) fun _ => none

section Reply

def IsWord (s : Bytes) : Prop := s ≠ [] ∧ ∀ c ∈ s, c ≠ 32 ∧ c ≠ 10 ∧ c ≠ 0

instance : DecidablePred IsWord := fun s =>
  have : Decidable (∀ c ∈ s, c ≠ 32 ∧ c ≠ 10 ∧ c ≠ 0) := List.decidableBAll _ s
  inferInstanceAs (Decidable (_ ∧ _))

/-- What stands in the reply for the slots of a node: one of them, some of them, or the note that one is on
its way to another node or from it. -/
inductive SlotToken where
  | single (s : Nat)
  | range (a b : Nat)
  | migrating (s : Nat) (id : Bytes)
  | importing (s : Nat) (id : Bytes)

def SlotToken.shown : SlotToken → Bytes
  | .single s => decimal s
  | .range a b => decimal a ++ 45 :: decimal b
  | .migrating s id => 91 :: (decimal s ++ text "->-" ++ id ++ text "]")
  | .importing s id => 91 :: (decimal s ++ text "-<-" ++ id ++ text "]")

def SlotToken.WellFormed : SlotToken → Prop
  | .single s => s < 16384
  | .range a b => a ≤ b ∧ b < 16384
  | .migrating s id | .importing s id => s < 16384 ∧ IsWord id

def SlotToken.Lists (s : Int) : SlotToken → Prop
  | .single n => s = n
  | .range a b => a ≤ s ∧ s ≤ b
  | .migrating _ _ | .importing _ _ => False

instance (s : Int) : DecidablePred (SlotToken.Lists s)
  | .single n => inferInstanceAs (Decidable (s = n))
  | .range a b => inferInstanceAs (Decidable (a ≤ s ∧ s ≤ b))
  | .migrating _ _ | .importing _ _ => inferInstanceAs (Decidable False)

def SlotToken.isNote : SlotToken → Bool
  | .migrating _ _ | .importing _ _ => true
  | _ => false

structure NodeLine where
  id : Bytes
  addr : Bytes
  sid : Bytes
  pingSent : Bytes
  pongRecv : Bytes
  configEpoch : Bytes
  myself : Bool
  isMaster : Bool
  connected : Bool
  slots : List SlotToken
  isWord : ∀ s ∈ [id,addr,sid,pingSent,pongRecv,configEpoch], IsWord s
  wellFormed : ∀ token ∈ slots, token.WellFormed

def NodeLine.flags (line : NodeLine) : Bytes :=
  (if line.myself then text "myself," else []) ++ if line.isMaster then text "master" else text "slave"

def NodeLine.link (line : NodeLine) : Bytes := if line.connected then text "connected" else text "disconnected"

def NodeLine.words (line : NodeLine) : List Bytes :=
  line.id :: line.addr :: line.flags :: line.sid :: line.pingSent :: line.pongRecv :: line.configEpoch ::
    line.link :: line.slots.map SlotToken.shown

def NodeLine.shown (line : NodeLine) : Bytes := List.intercalate [32] line.words

def nodesReply (lines : List NodeLine) : Bytes := lines.flatMap fun line => line.shown ++ [10]

/-- The line is that of a connected master which serves the slot. -/
def NodeLine.Serves (line : NodeLine) (s : Int) : Prop :=
  line.connected ∧ line.isMaster ∧ ∃ token ∈ line.slots, token.Lists s

instance (line : NodeLine) (s : Int) : Decidable (line.Serves s) :=
  inferInstanceAs (Decidable (_ ∧ _ ∧ ∃ token ∈ line.slots, token.Lists s))

/-- The line is that of a connected master with a slot on its way. -/
def NodeLine.Noted (line : NodeLine) : Prop :=
  line.connected ∧ line.isMaster ∧ ∃ token ∈ line.slots, token.isNote = true

instance (line : NodeLine) : Decidable line.Noted :=
  inferInstanceAs (Decidable (_ ∧ _ ∧ ∃ token ∈ line.slots, token.isNote = true))

/-- No slot is served by two addresses. -/
def OneOwner (lines : List NodeLine) : Prop :=
  ∀ s, ∀ line ∈ lines, ∀ line' ∈ lines, line.Serves s → line'.Serves s → line.addr = line'.addr

/-- What `CLUSTER NODES` has to tell. -/
structure ClusterNodes where
  lines : List NodeLine
  oneOwner : OneOwner lines

/-- The table gives a slot the address of the line that serves it, and has no other slots. -/
def ExactFor (lines : List NodeLine) (slotMap : SlotMap) : Prop :=
  ∀ s addr, slotMap s = some addr ↔ ∃ line ∈ lines, line.Serves s ∧ line.addr = addr

/-- Of the lines that serve slot zero or have a note, the last has the address that serves slot zero. -/
def ZeroKept (lines : List NodeLine) : Prop :=
  ∀ line, (lines.filter fun line => decide (line.Serves 0 ∨ line.Noted)).getLast? = some line →
    ∃ line' ∈ lines, line'.Serves 0 ∧ line'.addr = line.addr

end Reply

section Split

variable {c : UInt8} {p s : Bytes}

theorem splitFrom_append (piece : Bytes) (hp : c ∉ p) :
    splitFrom [c] piece 0 (p ++ s) = splitFrom [c] (piece ++ p) 0 s := by
  induction p generalizing piece with
  | nil => rw [List.nil_append, List.append_nil]
  | cons x p ih =>
    obtain ⟨hx,hp⟩ : c ≠ x ∧ c ∉ p := not_or.mp (mt List.mem_cons.mpr hp)
    rw [List.cons_append, splitFrom, if_neg (by simpa using hx), ih _ hp, List.append_assoc, List.singleton_append]

theorem splitFrom_sep (piece : Bytes) : splitFrom [c] piece 0 (c :: s) = piece :: splitFrom [c] [] 0 s := by
  rw [splitFrom, if_pos (by simp), List.length_singleton]

theorem split_cons (hne : p ≠ []) (hp : c ∉ p) : split (p ++ c :: s) [c] = p :: split s [c] := by
  rw [split, splitFrom_append [] hp, splitFrom_sep, List.nil_append, List.filter_cons_of_pos (by simpa using hne),
    split]

theorem split_single (hne : p ≠ []) (hp : c ∉ p) : split p [c] = [p] := by
  have hfrom := splitFrom_append (s := []) [] hp
  rw [List.append_nil] at hfrom
  rw [split, hfrom, splitFrom, List.nil_append, List.filter_cons_of_pos (by simpa using hne), List.filter_nil]

theorem split_intercalate {words : List Bytes} (h : ∀ w ∈ words, w ≠ [] ∧ c ∉ w) :
    split (List.intercalate [c] words) [c] = words := by
  induction words with
  | nil => rfl
  | cons w words ih =>
    obtain ⟨⟨hne,hw⟩,hwords⟩ := List.forall_mem_cons.mp h
    cases words with
    | nil =>
      rw [List.intercalate_singleton]
      exact split_single hne hw
    | cons w' words =>
      rw [List.intercalate_cons_cons, List.append_assoc, List.singleton_append, split_cons hne hw, ih hwords]

theorem split_lines {lines : List Bytes} (h : ∀ l ∈ lines, l ≠ [] ∧ c ∉ l) :
    split (lines.flatMap fun l => l ++ [c]) [c] = lines := by
  induction lines with
  | nil => rfl
  | cons l lines ih =>
    obtain ⟨⟨hne,hl⟩,hlines⟩ := List.forall_mem_cons.mp h
    rw [List.flatMap_cons, List.append_assoc, List.singleton_append, split_cons hne hl, ih hlines]

end Split

section Numbers

variable {c : UInt8} {s : Bytes}

theorem strtol10_unsigned (hspace : isspace c = false) (hminus : c ≠ 45) (hplus : c ≠ 43) :
    strtol10 (c :: s) = clampLong (digitsValue ((c :: s).takeWhile fun c => 48 ≤ c && c ≤ 57)) := by
  have hdrop : (c :: s).dropWhile isspace = c :: s := List.dropWhile_cons_of_neg (by simp [hspace])
  rw [strtol10, hdrop]
  split
  · rename_i heq
    exact absurd (List.cons.inj heq).1 hminus
  · rename_i heq
    exact absurd (List.cons.inj heq).1 hplus
  · rfl

theorem isDigit_iff (c : UInt8) : (48 ≤ c && c ≤ 57) = true ↔ IsDigit c := by
  rw [Bool.and_eq_true, decide_eq_true_iff, decide_eq_true_iff, UInt8.le_iff_toNat_le, UInt8.le_iff_toNat_le]
  rfl

theorem strtol10_digits (hne : s ≠ []) (hs : ∀ c ∈ s, IsDigit c) : strtol10 s = clampLong (digitsValue s) := by
  obtain ⟨d,ds,rfl⟩ := List.exists_cons_of_ne_nil hne
  have hd : IsDigit d := hs d List.mem_cons_self
  have hminus : d ≠ 45 := by
    rintro rfl
    exact absurd hd (by decide)
  have hplus : d ≠ 43 := by
    rintro rfl
    exact absurd hd (by decide)
  have hall : (d :: ds).takeWhile (fun c => 48 ≤ c && c ≤ 57) = d :: ds := by
    apply List.takeWhile_eq_self_iff.mpr
    intro c hc
    exact (isDigit_iff c).mpr (hs c hc)
  rw [strtol10_unsigned (isspace_of_isDigit hd) hminus hplus, hall]

theorem atol_decimal {n : Nat} (h : n < 2 ^ 63) : atol (decimal n) = n := by
  have hvalue : strtol10 (decimal n) = n := by
    rw [strtol10_digits (decimal_ne_nil n) fun c hc => decimal_isDigit hc, digitsValue_decimal, clampLong_natCast h]
  rw [atol, hvalue, toUInt64_natCast (h.trans (by norm_num))]

theorem atol_other (hspace : isspace c = false) (hminus : c ≠ 45) (hplus : c ≠ 43) (hdigit : ¬ IsDigit c) :
    atol (c :: s) = 0 := by
  have hnone : (c :: s).takeWhile (fun c => 48 ≤ c && c ≤ 57) = [] := by
    apply List.takeWhile_cons_of_neg
    intro h
    exact hdigit ((isDigit_iff c).mp h)
  rw [atol, strtol10_unsigned hspace hminus hplus, hnone]
  rfl

end Numbers

section Tokens

theorem cutAt_none {c : UInt8} {s : Bytes} (h : c ∉ s) : cutAt c s = none := by
  have hdrop : s.dropWhile (· != c) = [] := by
    apply List.dropWhile_eq_nil_iff.mpr
    intro x hx
    rw [bne_iff_ne]
    rintro rfl
    exact h hx
  rw [cutAt, hdrop]
  rfl

theorem cutAt_append {c : UInt8} {p s : Bytes} (hp : c ∉ p) (hs : s ≠ []) : cutAt c (p ++ c :: s) = some (p,s) := by
  have hpos : ∀ x ∈ p, (x != c) = true := by
    intro x hx
    rw [bne_iff_ne]
    rintro rfl
    exact hp hx
  rw [cutAt, List.dropWhile_append_of_pos hpos, List.takeWhile_append_of_pos hpos,
    List.dropWhile_cons_of_neg (by simp), List.takeWhile_cons_of_neg (by simp), List.append_nil, List.drop_one,
    List.tail_cons]
  exact if_neg hs

theorem dash_notMem_decimal (n : Nat) : 45 ∉ decimal n := by
  intro h
  exact absurd (decimal_isDigit h) (by decide)

/-- The range that `AddSlotRange` makes of a token: a note about a slot counts as slot zero. -/
def SlotToken.asRange : SlotToken → Nat × Nat
  | .single s => (s,s)
  | .range a b => (a,b)
  | .migrating _ _ | .importing _ _ => (0,0)

theorem slotRange_note (n : Nat) {mark : UInt8} {rest : Bytes} (hmark : mark = 62 ∨ mark = 60) :
    slotRange (91 :: decimal n ++ 45 :: mark :: rest) = (0,0) := by
  have hdash : 45 ∉ 91 :: decimal n := by
    intro h
    rcases List.mem_cons.mp h with h | h
    · cases h
    · exact dash_notMem_decimal n h
  have hlo : atol (91 :: decimal n) = 0 := atol_other rfl (by decide) (by decide) (by decide)
  have hhi : atol (mark :: rest) = 0 := by
    rcases hmark with rfl | rfl
    · exact atol_other rfl (by decide) (by decide) (by decide)
    · exact atol_other rfl (by decide) (by decide) (by decide)
  simp only [slotRange, cutAt_append hdash (List.cons_ne_nil mark rest), hlo, hhi, lt_irrefl, if_false]

theorem slotRange_shown {token : SlotToken} (h : token.WellFormed) : slotRange token.shown = token.asRange := by
  cases token with
  | single s =>
    have hs : atol (decimal s) = s := atol_decimal (h.trans (by norm_num))
    simp only [SlotToken.shown, slotRange, cutAt_none (dash_notMem_decimal s), hs, SlotToken.asRange]
  | range a b =>
    obtain ⟨hab,hb⟩ := h
    have ha : atol (decimal a) = a := atol_decimal (by omega)
    have hb : atol (decimal b) = b := atol_decimal (by omega)
    simp only [SlotToken.shown, slotRange, cutAt_append (dash_notMem_decimal a) (decimal_ne_nil b), ha, hb,
      if_neg (Nat.not_lt.mpr hab), SlotToken.asRange]
  | migrating s id =>
    have heq : (SlotToken.migrating s id).shown = 91 :: decimal s ++ 45 :: 62 :: (45 :: (id ++ text "]")) := by
      simp [SlotToken.shown, text]
    rw [heq, slotRange_note s (.inl rfl)]
    rfl
  | importing s id =>
    have heq : (SlotToken.importing s id).shown = 91 :: decimal s ++ 45 :: 60 :: (45 :: (id ++ text "]")) := by
      simp [SlotToken.shown, text]
    rw [heq, slotRange_note s (.inr rfl)]
    rfl

theorem word_of_isDigit {c : UInt8} (h : IsDigit c) : c ≠ 32 ∧ c ≠ 10 ∧ c ≠ 0 := by
  refine ⟨?_,?_,?_⟩ <;> rintro rfl <;> exact absurd h (by decide)

theorem isWord_decimal (n : Nat) : IsWord (decimal n) :=
  ⟨decimal_ne_nil n,fun _ hc => word_of_isDigit (decimal_isDigit hc)⟩

theorem IsWord.append {s t : Bytes} (hs : IsWord s) (ht : ∀ c ∈ t, c ≠ 32 ∧ c ≠ 10 ∧ c ≠ 0) : IsWord (s ++ t) := by
  refine ⟨List.append_ne_nil_of_left_ne_nil hs.1 t,fun c hc => ?_⟩
  rcases List.mem_append.mp hc with hc | hc
  · exact hs.2 c hc
  · exact ht c hc

theorem isWord_note (n : Nat) (mark : Bytes) {id : Bytes} (hmark : IsWord mark) (hid : IsWord id) :
    IsWord (91 :: (decimal n ++ mark ++ id ++ text "]")) := by
  have hopen : IsWord [91] := ⟨List.cons_ne_nil _ _,List.forall_mem_singleton.mpr (by decide)⟩
  apply hopen.append
  exact ((((isWord_decimal n).append hmark.2).append hid.2).append (List.forall_mem_singleton.mpr (by decide))).2

theorem isWord_shown {token : SlotToken} (h : token.WellFormed) : IsWord token.shown := by
  cases token with
  | single s => exact isWord_decimal s
  | range a b =>
    refine (isWord_decimal a).append (List.forall_mem_cons.mpr ⟨by decide,?_⟩)
    exact (isWord_decimal b).2
  | migrating s id => exact isWord_note s (text "->-") (by decide) h.2
  | importing s id => exact isWord_note s (text "-<-") (by decide) h.2

end Tokens

section Lines

theorem NodeLine.isWord_words (line : NodeLine) : ∀ w ∈ line.words, IsWord w := by
  obtain ⟨hid,haddr,hsid,hping,hpong,hepoch⟩ := by simpa using line.isWord
  have hflags : IsWord line.flags := by
    unfold NodeLine.flags
    cases line.myself <;> cases line.isMaster <;> decide
  have hlink : IsWord line.link := by
    unfold NodeLine.link
    cases line.connected <;> decide
  intro w hw
  simp only [NodeLine.words, List.mem_cons, List.mem_map] at hw
  rcases hw with rfl | rfl | rfl | rfl | rfl | rfl | rfl | rfl | ⟨token,htoken,rfl⟩
  · exact hid
  · exact haddr
  · exact hflags
  · exact hsid
  · exact hping
  · exact hpong
  · exact hepoch
  · exact hlink
  · exact isWord_shown (line.wellFormed token htoken)

theorem NodeLine.split_shown (line : NodeLine) : split line.shown (text " ") = line.words :=
  split_intercalate fun w hw => ⟨(line.isWord_words w hw).1,fun hmem => ((line.isWord_words w hw).2 32 hmem).1 rfl⟩

theorem nodeRole_flags (line : NodeLine) :
    nodeRole line.flags = if line.isMaster then text "master" else text "slave" := by
  unfold NodeLine.flags
  cases line.myself <;> cases line.isMaster <;> decide

def NodeLine.ranges (line : NodeLine) : List (Nat × Nat) :=
  if line.isMaster then line.slots.map SlotToken.asRange else []

theorem getNodeLine_shown (line : NodeLine) :
    getNodeLine line.shown = some ⟨line.addr,line.connected,line.ranges⟩ := by
  have hlink : sameWord line.link "connected" = line.connected := by
    unfold NodeLine.link
    cases line.connected <;> decide
  have hslots : (line.slots.map SlotToken.shown).map slotRange = line.slots.map SlotToken.asRange := by
    rw [List.map_map]
    apply List.map_congr_left
    intro token htoken
    exact slotRange_shown (line.wellFormed token htoken)
  rw [getNodeLine, line.split_shown, NodeLine.words]
  simp only [hlink, nodeRole_flags, hslots, NodeLine.ranges]
  cases line.isMaster <;> rfl

theorem mem_intercalate {c x : UInt8} {words : List Bytes} (h : x ∈ List.intercalate [c] words) :
    x = c ∨ ∃ w ∈ words, x ∈ w := by
  induction words with
  | nil => cases h
  | cons w words ih =>
    cases words with
    | nil =>
      rw [List.intercalate_singleton] at h
      exact .inr ⟨w,List.mem_cons_self,h⟩
    | cons w' words =>
      rw [List.intercalate_cons_cons, List.mem_append, List.mem_append, List.mem_singleton] at h
      rcases h with (h | h) | h
      · exact .inr ⟨w,List.mem_cons_self,h⟩
      · exact .inl h
      · rcases ih h with h | ⟨w,hw,hx⟩
        · exact .inl h
        · exact .inr ⟨w,List.mem_cons_of_mem _ hw,hx⟩

theorem NodeLine.mem_shown {line : NodeLine} {c : UInt8} (h : c ∈ line.shown) : c ≠ 10 ∧ c ≠ 0 := by
  rcases mem_intercalate h with rfl | ⟨w,hw,hc⟩
  · decide
  · exact ((line.isWord_words w hw).2 c hc).2

theorem NodeLine.shown_ne_nil (line : NodeLine) : line.shown ≠ [] := by
  intro h
  have hsplit := line.split_shown
  rw [h] at hsplit
  cases hsplit

theorem split_nodesReply (lines : List NodeLine) :
    split (cStr (nodesReply lines)) (text "\n") = lines.map NodeLine.shown := by
  have hnul : 0 ∉ nodesReply lines := by
    intro h
    obtain ⟨line,-,hmem⟩ := List.mem_flatMap.mp h
    rcases List.mem_append.mp hmem with hmem | hmem
    · exact (NodeLine.mem_shown hmem).2 rfl
    · cases List.mem_singleton.mp hmem
  have hreply : nodesReply lines = (lines.map NodeLine.shown).flatMap fun l => l ++ [10] := by
    rw [List.flatMap_map]
    rfl
  rw [cStr_eq hnul, hreply]
  apply split_lines
  intro l hl
  obtain ⟨line,-,rfl⟩ := List.mem_map.mp hl
  exact ⟨line.shown_ne_nil,fun hmem => (NodeLine.mem_shown hmem).1 rfl⟩

end Lines

section Table

variable {line : NodeLine} {lines : List NodeLine} {token : SlotToken} {s : Int}

theorem asRange_lt (h : token.WellFormed) : token.asRange.2 < 16384 := by
  cases token with
  | single s => exact h
  | range a b => exact h.2
  | migrating s id => exact Nat.zero_lt_succ _
  | importing s id => exact Nat.zero_lt_succ _

def SlotToken.Covers (s : Int) (token : SlotToken) : Prop := token.asRange.1 ≤ s ∧ s ≤ token.asRange.2

instance (s : Int) : DecidablePred (SlotToken.Covers s) := fun token =>
  inferInstanceAs (Decidable (token.asRange.1 ≤ s ∧ s ≤ token.asRange.2))

theorem setSlots_token (addr : Bytes) (h : token.WellFormed) (slotMap : SlotMap) :
    setSlots addr token.asRange slotMap = some fun s => if token.Covers s then some addr else slotMap s := by
  have hlt := asRange_lt h
  rw [setSlots, if_neg (by omega)]
  congr 1
  funext s
  apply if_congr _ rfl rfl
  unfold SlotToken.Covers
  omega

theorem covers_iff : token.Covers s ↔ token.Lists s ∨ token.isNote = true ∧ s = 0 := by
  cases token with
  | single n =>
    simp only [SlotToken.Covers, SlotToken.asRange, SlotToken.Lists, SlotToken.isNote, Bool.false_eq_true, false_and,
      or_false]
    omega
  | range a b => simp [SlotToken.Covers, SlotToken.asRange, SlotToken.Lists, SlotToken.isNote]
  | migrating n id =>
    simp only [SlotToken.Covers, SlotToken.asRange, SlotToken.Lists, SlotToken.isNote, true_and, false_or]
    omega
  | importing n id =>
    simp only [SlotToken.Covers, SlotToken.asRange, SlotToken.Lists, SlotToken.isNote, true_and, false_or]
    omega

def NodeLine.Enters (line : NodeLine) (s : Int) : Prop := line.Serves s ∨ line.Noted ∧ s = 0

instance (line : NodeLine) (s : Int) : Decidable (line.Enters s) :=
  inferInstanceAs (Decidable (line.Serves s ∨ line.Noted ∧ s = 0))

theorem enters_iff :
    line.Enters s ↔ line.connected = true ∧ line.isMaster = true ∧ ∃ token ∈ line.slots, token.Covers s := by
  simp only [NodeLine.Enters, NodeLine.Serves, NodeLine.Noted, covers_iff]
  grind

theorem setTokens (addr : Bytes) {tokens : List SlotToken} (h : ∀ token ∈ tokens, token.WellFormed)
    (slotMap : SlotMap) :
    ((tokens.map SlotToken.asRange).foldlM (fun slotMap range => setSlots addr range slotMap) slotMap) =
      some fun s => if ∃ token ∈ tokens, token.Covers s then some addr else slotMap s := by
  induction tokens generalizing slotMap with
  | nil =>
    refine congrArg some ?_
    funext s
    exact (if_neg (by simp)).symm
  | cons token tokens ih =>
    obtain ⟨htoken,htokens⟩ := List.forall_mem_cons.mp h
    rw [List.map_cons, List.foldlM_cons, setSlots_token addr htoken]
    refine (ih htokens _).trans (congrArg some ?_)
    funext s
    simp only [List.exists_mem_cons_iff]
    by_cases hfirst : token.Covers s
    · rw [if_pos (Or.inl hfirst), if_pos hfirst, ite_self]
    · rw [if_neg hfirst]
      simp only [hfirst, false_or]

theorem setMemNode_line (line : NodeLine) (slotMap : SlotMap) :
    setMemNode ⟨line.addr,line.connected,line.ranges⟩ slotMap =
      some fun s => if line.Enters s then some line.addr else slotMap s := by
  have hnone (h : ¬ (line.connected = true ∧ line.isMaster = true)) :
      slotMap = fun s => if line.Enters s then some line.addr else slotMap s := by
    funext s
    have hnot : ¬ line.Enters s := fun henters => h ⟨(enters_iff.mp henters).1,(enters_iff.mp henters).2.1⟩
    rw [if_neg hnot]
  cases hconnected : line.connected with
  | false => exact congrArg some (hnone (by simp [hconnected]))
  | true =>
    cases hmaster : line.isMaster with
    | false =>
      have hranges : line.ranges = [] := by simp [NodeLine.ranges, hmaster]
      rw [hranges]
      exact congrArg some (hnone (by simp [hmaster]))
    | true =>
      have hranges : line.ranges = line.slots.map SlotToken.asRange := by simp [NodeLine.ranges, hmaster]
      rw [setMemNode, if_pos rfl, hranges, setTokens line.addr line.wellFormed]
      congr 1
      funext s
      apply if_congr _ rfl rfl
      rw [enters_iff, hconnected, hmaster]
      simp

theorem foldlM_lines (lines : List NodeLine) (slotMap : SlotMap) :
    ((lines.map NodeLine.shown).foldlM (fun slotMap line =>
      match getNodeLine line with
      | none => some slotMap
      | some node => setMemNode node slotMap) slotMap) =
      some fun s =>
        (((lines.filter fun line => decide (line.Enters s)).getLast?).map NodeLine.addr).or (slotMap s) := by
  induction lines generalizing slotMap with
  | nil => rfl
  | cons line lines ih =>
    rw [List.map_cons, List.foldlM_cons]
    simp only [getNodeLine_shown, setMemNode_line]
    refine (ih _).trans (congrArg some ?_)
    funext s
    by_cases henters : line.Enters s
    · rw [if_pos henters, List.filter_cons_of_pos (by simpa using henters)]
      cases hrest : (lines.filter fun line => decide (line.Enters s)).getLast? with
      | none =>
        rw [List.getLast?_eq_none_iff] at hrest
        rw [hrest]
        rfl
      | some last =>
        have hne : (lines.filter fun line => decide (line.Enters s)) ≠ [] := by
          intro hnil
          rw [hnil] at hrest
          cases hrest
        rw [List.getLast?_cons_of_ne_nil hne, hrest]
        rfl
    · rw [if_neg henters, List.filter_cons_of_neg (by simpa using henters)]

/-- A slot has the address of the last line that enters one for it. -/
theorem updateClusterNodes_nodesReply (lines : List NodeLine) :
    updateClusterNodes (nodesReply lines) =
      some fun s => ((lines.filter fun line => decide (line.Enters s)).getLast?).map NodeLine.addr := by
  rw [updateClusterNodes, split_nodesReply]
  refine (foldlM_lines lines _).trans (congrArg some ?_)
  funext s
  rw [Option.or_none]

variable (lines)

theorem mem_of_getLast?_filter {last : NodeLine}
    (h : (lines.filter fun line => decide (line.Enters s)).getLast? = some last) : last ∈ lines ∧ last.Enters s := by
  obtain ⟨hmem,henters⟩ := List.mem_filter.mp (List.mem_of_getLast? h)
  exact ⟨hmem,of_decide_eq_true henters⟩

/-- Slot zero apart, only the lines that serve a slot enter an address for it. -/
theorem enters_of_ne_zero (hs : s ≠ 0) : line.Enters s ↔ line.Serves s := by
  rw [NodeLine.Enters]
  exact or_iff_left fun h => hs h.2

theorem zeroKept_iff : ZeroKept lines ↔
    ∀ line, (lines.filter fun line => decide (line.Enters 0)).getLast? = some line →
      ∃ line' ∈ lines, line'.Serves 0 ∧ line'.addr = line.addr := by
  have hsame : (lines.filter fun line => decide (line.Enters 0)) =
      lines.filter fun line => decide (line.Serves 0 ∨ line.Noted) := by
    apply List.filter_congr
    intro line _
    simp [NodeLine.Enters]
  rw [hsame, ZeroKept]

/-- The table is the one the reply describes exactly if the notes about slots on their way do not take slot zero
away from the node that serves it, or give it to one when none does. -/
theorem cluster_nodes_exact_iff (nodes : ClusterNodes) :
    (∃ slotMap, updateClusterNodes (nodesReply nodes.lines) = some slotMap ∧ ExactFor nodes.lines slotMap) ↔
      ZeroKept nodes.lines := by
  obtain ⟨lines,hone⟩ := nodes
  rw [updateClusterNodes_nodesReply, zeroKept_iff]
  constructor
  · rintro ⟨_,⟨⟩,hexact⟩ line hline
    apply (hexact 0 line.addr).mp
    exact congrArg (Option.map NodeLine.addr) hline
  · intro hkept
    refine ⟨_,rfl,fun s addr => ?_⟩
    have hserved : ∀ line, (lines.filter fun line => decide (line.Enters s)).getLast? = some line →
        ∃ line' ∈ lines, line'.Serves s ∧ line'.addr = line.addr := by
      intro line hline
      rcases eq_or_ne s 0 with rfl | hs
      · exact hkept line hline
      · obtain ⟨hmem,henters⟩ := mem_of_getLast?_filter lines hline
        exact ⟨line,hmem,(enters_of_ne_zero hs).mp henters,rfl⟩
    constructor
    · intro hmap
      obtain ⟨line,hline,rfl⟩ := Option.map_eq_some_iff.mp hmap
      exact hserved line hline
    · rintro ⟨line,hmem,hserves,rfl⟩
      have hne : (lines.filter fun line => decide (line.Enters s)) ≠ [] :=
        List.ne_nil_of_mem (List.mem_filter.mpr ⟨hmem,decide_eq_true (.inl hserves)⟩)
      have hlast := List.getLast?_eq_some_getLast hne
      obtain ⟨line',hmem',hserves',haddr⟩ := hserved _ hlast
      rw [hlast, Option.map_some, ← haddr, hone s line' hmem' line hmem hserves' hserves]

def sampleLine (id addr : String) (myself : Bool) (slots : List SlotToken)
    (hid : IsWord (text id)) (haddr : IsWord (text addr)) (hslots : ∀ token ∈ slots, token.WellFormed) : NodeLine where
  id := text id
  addr := text addr
  sid := text "-"
  pingSent := text "0"
  pongRecv := text "0"
  configEpoch := text "1"
  myself := myself
  isMaster := true
  connected := true
  slots := slots
  isWord := by
    have hword (s : String) (hs : s = "-" ∨ s = "0" ∨ s = "1") : IsWord (text s) := by
      rcases hs with rfl | rfl | rfl <;> decide
    simp only [List.forall_mem_cons]
    exact ⟨hid,haddr,hword _ (.inl rfl),hword _ (.inr (.inl rfl)),hword _ (.inr (.inl rfl)),
      hword _ (.inr (.inr rfl)),List.forall_mem_nil _⟩
  wellFormed := hslots

/-- Two masters share the slots; slot 5 is on its way from the first to the second, which answers. -/
def migration : ClusterNodes where
  lines := [sampleLine "a1" "10.0.0.1:7000" false [.range 0 8191]
      (by decide) (by decide) (by simp [SlotToken.WellFormed]),
    sampleLine "b2" "10.0.0.2:7000" true [.range 8192 16383,.importing 5 (text "a1")]
      (by decide) (by decide) (by simp [SlotToken.WellFormed, IsWord, text])]
  oneOwner := by
    intro s line hline line' hline' hserves hserves'
    obtain ⟨-,-,hslots⟩ := hserves
    obtain ⟨-,-,hslots'⟩ := hserves'
    simp only [List.mem_cons, List.not_mem_nil, or_false] at hline hline'
    rcases hline with rfl | rfl <;> rcases hline' with rfl | rfl
    · rfl
    · simp [sampleLine, SlotToken.Lists] at hslots hslots'
      omega
    · simp [sampleLine, SlotToken.Lists] at hslots hslots'
      omega
    · rfl

/-- The note on its line gives slot zero to the second master. -/
theorem cluster_nodes_zero_moved :
    (updateClusterNodes (nodesReply migration.lines)).map (fun slotMap => slotMap 0) =
        some (some (text "10.0.0.2:7000")) ∧
      ¬ ∃ slotMap, updateClusterNodes (nodesReply migration.lines) = some slotMap ∧
        ExactFor migration.lines slotMap := by
  have hzero : (updateClusterNodes (nodesReply migration.lines)).map (fun slotMap => slotMap 0) =
      some (some (text "10.0.0.2:7000")) := by decide +kernel
  refine ⟨hzero,?_⟩
  rintro ⟨slotMap,hmap,hexact⟩
  rw [hmap, Option.map_some, Option.some.injEq] at hzero
  obtain ⟨line,hline,hserves,haddr⟩ := (hexact 0 _).mp hzero
  have hnone : ∀ line ∈ migration.lines, line.Serves 0 → line.addr ≠ text "10.0.0.2:7000" := by decide +kernel
  exact hnone line hline hserves haddr

end Table

end QkPack
