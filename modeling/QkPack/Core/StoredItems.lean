import Mathlib.Algebra.Order.BigOperators.Group.List
import QkPack.Core.TenantStore
import QkPack.Protocol.CommandArgs
import QkPack.Protocol.ReadBack
import QkPack.Snappys.Integrity

/-!
# How a tenant's values are kept

A value is kept as a string and a set as a set, both in the form `CompressValue` gives their bytes. The form depends on
the threshold of the request that wrote them. It does not matter for values, which are recognised when they are read;
sets are searched for the stored form, so that all members of a set must be written with one threshold.
-/

namespace QkPack
open Wire CString Resp KeyServer

structure MembersOf (vs : List Value) (s : Finset Bytes) : Prop where
  plain : ∀ v ∈ vs, v.bytes ≠ snappyWord
  nodup : (vs.map (·.bytes)).Nodup
  bytes : bytesOf vs = s

/-- What a tenant holds under a key, and what the server holds for it. -/
inductive HeldAs (proto : RedisProto) (t : Int) : Option Held → Option Item → Prop
  | nothing : HeldAs proto t none none
  | value (v : Value) (t' : Int) (hplain : v.bytes ≠ snappyWord) :
      HeldAs proto t (some (.value v.bytes)) (some (.string (storedBulk proto t' v)))
  | members {vs : List Value} {s : Finset Bytes} (hs : s ≠ ∅) (hvs : MembersOf vs s) :
      HeldAs proto t (some (.members s)) (some (.set (vs.map (storedBulk proto t))))

section Forms

variable {proto : RedisProto} {t t' : Int} {v w : Value}

theorem stored_injective (hv : v.bytes ≠ snappyWord) (hw : w.bytes ≠ snappyWord)
    (h : (storedBulk proto t v).bytes = (storedBulk proto t' w).bytes) : v.bytes = w.bytes := by
  have hreadv := readValue_stored proto.compress v t [] hv
  have hreadw := readValue_stored proto.compress w t' [] hw
  have hsame : stored proto.compress v.bytes t = stored proto.compress w.bytes t' := h
  rw [hsame, hreadw] at hreadv
  exact (Except.ok.inj hreadv).symm

theorem stored_congr (h : v.bytes = w.bytes) : storedBulk proto t v = storedBulk proto t w := by
  simp only [storedBulk, h]

theorem stored_eq_iff (hv : v.bytes ≠ snappyWord) (hw : w.bytes ≠ snappyWord) :
    (storedBulk proto t v).bytes = (storedBulk proto t w).bytes ↔ v.bytes = w.bytes :=
  ⟨stored_injective hv hw,fun h => by rw [stored_congr h]⟩

theorem stored_length_le_bytes (proto : RedisProto) (t : Int) (v : Value) :
    (storedBulk proto t v).bytes.length ≤ v.bytes.length := by
  rcases stored_cases proto.compress v t with hs | ⟨hs,hle⟩
  · exact (congrArg List.length hs).le
  · exact (congrArg List.length hs).le.trans hle

theorem stored_raw (proto : RedisProto) (v : Value) : (storedBulk proto (v.bytes.length + 1) v).bytes = v.bytes := by
  have hsize := v.size_le
  have hlen : int32 v.bytes.length = v.bytes.length := int32_of_range (by omega) (by omega)
  have hnone : compressValue proto.compress v.bytes (v.bytes.length + 1) = none := by
    simp only [compressValue, hlen]
    exact if_pos (by omega)
  simp only [storedBulk, stored, hnone, Option.getD_none]

theorem snappyCompress_length_gt (lib : SnappyLib) (v : Value) : 14 < (snappyCompress lib v.bytes).length := by
  rw [snappyCompress_eq lib v.nul_free, List.length_append, magic_length]
  cases hblocks : blocksOf lib v.bytes with
  | nil =>
    rw [blocksOf, List.map_eq_nil_iff] at hblocks
    exact absurd hblocks (chunksOf_ne_nil v.ne_nil)
  | cons b bs =>
    have hb : b ∈ blocksOf lib v.bytes := hblocks ▸ List.mem_cons_self
    have hdata := List.length_pos_iff.mpr (blocksOf_sized lib b hb).data_ne
    rw [List.flatMap_cons, List.length_append, b.bytes_length]
    omega

theorem stored_of_short (hlen : v.bytes.length ≤ 14) : (storedBulk proto t v).bytes = v.bytes := by
  rcases stored_cases proto.compress v t with hs | ⟨-,hle⟩
  · exact hs
  · have hgt := snappyCompress_length_gt proto.compress v
    omega

end Forms

section Numbers

theorem intText_chars {n : Int} {c : UInt8} (hc : c ∈ intText n) : c = 45 ∨ IsDigit c := by
  rw [intText] at hc
  split at hc
  · exact (List.mem_cons.mp hc).imp_right decimal_isDigit
  · exact .inr (decimal_isDigit hc)

theorem intText_length_le {n : Int} (hn : -2 ^ 31 ≤ n ∧ n < 2 ^ 31) : (intText n).length ≤ 11 := by
  rw [← (toString32_eq_iff n).mpr hn]
  exact toString32_length_le n

def numberValue (n : Int) (hn : -2 ^ 31 ≤ n ∧ n < 2 ^ 31) : Value where
  bytes := intText n
  ne_nil := by
    rw [intText]
    split
    · exact List.cons_ne_nil _ _
    · exact decimal_ne_nil _
  nul_free := by
    intro hc
    rcases intText_chars hc with hc | hc
    · exact absurd hc (by decide)
    · exact absurd hc (by decide)
  size_le := (intText_length_le hn).trans (by norm_num)

theorem intText_ne_snappyWord (n : Int) : intText n ≠ snappyWord := by
  intro h
  have hs : (115 : UInt8) ∈ intText n := h ▸ (by decide : (115 : UInt8) ∈ snappyWord)
  rcases intText_chars hs with hs | hs <;> exact absurd hs (by decide)

variable {proto : RedisProto} {t : Int} {v : Value}

/-- A stream begins with a letter, and a number of 32 bits is too short to be stored as one. -/
theorem readNumber_stored (hsmall : ∀ n, readNumber v.bytes = some n → -2 ^ 31 ≤ n ∧ n < 2 ^ 31) :
    readNumber (storedBulk proto t v).bytes = readNumber v.bytes := by
  cases hnumber : readNumber v.bytes with
  | some n =>
    have htext := (readNumber_eq_some hnumber).1
    rw [stored_of_short, hnumber]
    rw [htext]
    exact (intText_length_le (hsmall n hnumber)).trans (by norm_num)
  | none =>
    rcases stored_cases proto.compress v t with hs | ⟨hs,-⟩
    · exact (congrArg readNumber hs).trans hnumber
    · by_contra hne
      obtain ⟨n,hn⟩ := Option.ne_none_iff_exists'.mp hne
      have htext := (readNumber_eq_some hn).1
      have hletter : (115 : UInt8) ∈ intText n := by
        rw [← htext]
        have hmagic : (115 : UInt8) ∈ (snappyCompress proto.compress v.bytes).take 7 := by
          rw [take_snappyCompress proto.compress v.nul_free]
          decide
        exact (congrArg (115 ∈ ·) hs).mpr (List.mem_of_mem_take hmagic)
      rcases intText_chars hletter with hc | hc <;> exact absurd hc (by decide)

variable {held : Option Held} {key : Bytes} {store : Store}

theorem HeldAs.counter_of_some (h : HeldAs proto t held (store key)) {m : Int} (hm : heldNumber held = some m)
    (hsmall : -2 ^ 31 ≤ m ∧ m < 2 ^ 31) : counter key store = .ok m := by
  unfold counter
  generalize store key = item at h
  cases h with
  | nothing =>
    cases hm
    rfl
  | value v t' hplain =>
    have hv : readNumber v.bytes = some m := hm
    have hread : readNumber (storedBulk proto t' v).bytes = some m := by
      rw [readNumber_stored, hv]
      intro n hn
      cases hv.symm.trans hn
      exact hsmall
    simp only [hread, Option.elim_some]
  | members => cases hm

theorem HeldAs.counter_of_none (h : HeldAs proto t held (store key)) (hm : heldNumber held = none) :
    ∃ l, counter key store = .error l ∧ (l.bytes.head? = some 69 ∨ l.bytes.head? = some 87) := by
  unfold counter
  generalize store key = item at h
  cases h with
  | nothing => cases hm
  | value v t' hplain =>
    have hv : readNumber v.bytes = none := hm
    have hread : readNumber (storedBulk proto t' v).bytes = none := by
      rw [readNumber_stored, hv]
      intro n hn
      cases hv.symm.trans hn
    refine ⟨notInteger,?_,.inl rfl⟩
    simp only [hread, Option.elim_none]
  | members => exact ⟨wrongType,rfl,.inr rfl⟩

end Numbers

section Sets

variable {proto : RedisProto} {t : Int} {vs ws : List Value} {s : Finset Bytes}

theorem mem_bytesOf {b : Bytes} : b ∈ bytesOf vs ↔ ∃ v ∈ vs, v.bytes = b := by
  simp [bytesOf]

theorem MembersOf.nil : MembersOf [] ∅ where
  plain := nofun
  nodup := List.nodup_nil
  bytes := rfl

theorem MembersOf.card (hvs : MembersOf vs s) : s.card = vs.length := by
  rw [← hvs.bytes, bytesOf, List.toFinset_card_of_nodup hvs.nodup, List.length_map]

theorem MembersOf.has_iff (hvs : MembersOf vs s) {w : Value} (hw : w.bytes ≠ snappyWord) :
    has (vs.map (storedBulk proto t)) (storedBulk proto t w).bytes = true ↔ w.bytes ∈ s := by
  rw [has, List.any_map, List.any_eq_true, ← hvs.bytes, mem_bytesOf]
  refine exists_congr fun v => and_congr_right fun hv => ?_
  rw [Function.comp_apply, beq_iff_eq, stored_eq_iff (hvs.plain v hv) hw]

def addValue (vs : List Value) (w : Value) : List Value := if w.bytes ∈ bytesOf vs then vs else vs ++ [w]

theorem MembersOf.add (hvs : MembersOf vs s) (proto : RedisProto) (t : Int) {w : Value} (hw : w.bytes ≠ snappyWord) :
    MembersOf (addValue vs w) (insert w.bytes s) ∧
      addMember (vs.map (storedBulk proto t)) (storedBulk proto t w) = (addValue vs w).map (storedBulk proto t) := by
  have hhas : has (vs.map (storedBulk proto t)) (storedBulk proto t w).bytes = true ↔ w.bytes ∈ s := hvs.has_iff hw
  rw [addValue, addMember, hvs.bytes]
  by_cases hmem : w.bytes ∈ s
  · rw [if_pos hmem, if_pos (hhas.mpr hmem), Finset.insert_eq_of_mem hmem]
    exact ⟨hvs,rfl⟩
  · rw [if_neg hmem, if_neg (mt hhas.mp hmem)]
    refine ⟨⟨?_,?_,?_⟩,?_⟩
    · intro v hv
      rcases List.mem_append.mp hv with hv | hv
      · exact hvs.plain v hv
      · rwa [List.mem_singleton.mp hv]
    · rw [List.map_append, List.nodup_append_comm]
      refine List.nodup_cons.mpr ⟨?_,hvs.nodup⟩
      rw [← hvs.bytes, bytesOf, List.mem_toFinset] at hmem
      exact hmem
    · rw [bytesOf, List.map_append, List.toFinset_append, ← bytesOf, hvs.bytes, Finset.union_comm]
      rfl
    · rw [List.map_append]
      rfl

theorem MembersOf.addAll (hvs : MembersOf vs s) (hws : ∀ w ∈ ws, w.bytes ≠ snappyWord) :
    ∃ us, MembersOf us (s ∪ bytesOf ws) ∧
      (ws.map (storedBulk proto t)).foldl addMember (vs.map (storedBulk proto t)) = us.map (storedBulk proto t) := by
  induction ws generalizing vs s with
  | nil => exact ⟨vs,by simpa [bytesOf] using hvs,rfl⟩
  | cons w ws ih =>
    obtain ⟨hadd,hmember⟩ := hvs.add proto t (hws w List.mem_cons_self)
    obtain ⟨us,hus,hfold⟩ := ih hadd fun u hu => hws u (List.mem_cons_of_mem _ hu)
    refine ⟨us,?_,?_⟩
    · have hunion : s ∪ bytesOf (w :: ws) = insert w.bytes s ∪ bytesOf ws := by
        simp [bytesOf]
      rwa [hunion]
    · rw [List.map_cons, List.foldl_cons, hmember, hfold]

theorem MembersOf.remove (hvs : MembersOf vs s) (hws : ∀ w ∈ ws, w.bytes ≠ snappyWord) :
    ∃ us, MembersOf us (s \ bytesOf ws) ∧
      without (vs.map (storedBulk proto t)) ((ws.map (storedBulk proto t)).map (·.bytes)) =
        us.map (storedBulk proto t) := by
  refine ⟨vs.filter fun v => v.bytes ∉ bytesOf ws,⟨?_,?_,?_⟩,?_⟩
  · exact fun v hv => hvs.plain v (List.mem_of_mem_filter hv)
  · exact hvs.nodup.sublist (List.filter_sublist.map _)
  · ext b
    rw [Finset.mem_sdiff, ← hvs.bytes, mem_bytesOf, mem_bytesOf]
    simp only [List.mem_filter, decide_eq_true_eq]
    constructor
    · rintro ⟨v,⟨hv,hnot⟩,rfl⟩
      exact ⟨⟨v,hv,rfl⟩,hnot⟩
    · rintro ⟨⟨v,hv,rfl⟩,hnot⟩
      exact ⟨v,⟨hv,hnot⟩,rfl⟩
  · rw [without, List.filter_map]
    refine congrArg (List.map (storedBulk proto t)) (List.filter_congr fun v hv => ?_)
    rw [Bool.eq_iff_iff, decide_eq_true_eq, Function.comp_apply, Bool.not_eq_true', ← Bool.not_eq_true,
      List.contains_iff_mem, mem_bytesOf, List.map_map, List.mem_map, not_iff_not]
    refine exists_congr fun w => and_congr_right fun hw => ?_
    exact stored_eq_iff (hws w hw) (hvs.plain v hv)

theorem MembersOf.perm {us : List Value} (hvs : MembersOf vs s) (hperm : us.Perm vs) : MembersOf us s where
  plain := fun v hv => hvs.plain v (hperm.mem_iff.mp hv)
  nodup := (hperm.map _).nodup_iff.mpr hvs.nodup
  bytes := by
    rw [← hvs.bytes, bytesOf, bytesOf]
    exact List.toFinset_eq_of_perm _ _ (hperm.map _)

theorem MembersOf.encode_length_le (hvs : MembersOf vs s) (proto : RedisProto) (t : Int)
    (hsize : ∑ v ∈ s, (v.length + 32) ≤ 2 ^ 28) :
    vs.length < 2 ^ 31 ∧ (encode (.array (storedArray proto t vs))).length ≤ 2 ^ 30 := by
  have hsum : (vs.map fun v => v.bytes.length + 32).sum ≤ 2 ^ 28 := by
    rwa [← hvs.bytes, bytesOf, List.sum_toFinset _ hvs.nodup, List.map_map] at hsize
  have hlength : vs.length ≤ (vs.map fun v => v.bytes.length + 32).sum := by
    have hle := List.sum_le_sum (l := vs) (f := fun _ => 1) (g := fun v => v.bytes.length + 32) (by
      intro v _
      omega)
    simpa using hle
  have helems : (encElems (storedArray proto t vs)).length ≤ (vs.map fun v => v.bytes.length + 32).sum := by
    rw [encElems, List.length_flatMap, storedArray, List.map_map]
    refine List.sum_le_sum fun v _ => ?_
    have hstored := stored_length_le_bytes proto t v
    have hbytes := v.size_le
    have hdigits := decimal_length_le (n := (storedBulk proto t v).bytes.length) (k := 10) (by norm_num) (by omega)
    rw [Function.comp_apply, encElem_some, encBulk_length]
    omega
  have hdigits := decimal_length_le (n := vs.length) (k := 10) (by norm_num) (by omega)
  refine ⟨by omega,?_⟩
  have harray : (storedArray proto t vs).length = vs.length := List.length_map _
  rw [encode, encArray, List.length_append, arrayHeader_length, harray]
  omega

theorem heldAs_holdSet (hvs : MembersOf vs s) : HeldAs proto t (holdSet s) (setItem (vs.map (storedBulk proto t))) := by
  have hcard := hvs.card
  rw [holdSet, setItem]
  by_cases hs : s = ∅
  · have hnil : vs = [] := by
      rw [hs, Finset.card_empty] at hcard
      exact List.length_eq_zero_iff.mp hcard.symm
    rw [if_pos hs, hnil]
    exact .nothing
  · have hne : vs ≠ [] := by
      rintro rfl
      exact hs (Finset.card_eq_zero.mp hcard)
    rw [if_neg hs, if_neg (by simpa using hne)]
    exact .members hs hvs

theorem HeldAs.set {held : Option Held} {item : Option Item} (h : HeldAs proto t held item)
    (hs : heldSet held = some s) :
    ∃ vs, MembersOf vs s ∧ held = holdSet s ∧ item = setItem (vs.map (storedBulk proto t)) := by
  cases h with
  | nothing =>
    cases hs
    exact ⟨[],.nil,rfl,rfl⟩
  | value => cases hs
  | @members vs s' hne hvs =>
    cases hs
    have hpos : vs ≠ [] := by
      rintro rfl
      exact hne (Finset.card_eq_zero.mp hvs.card)
    exact ⟨vs,hvs,(if_neg hne).symm,(if_neg (by simpa using hpos)).symm⟩

end Sets

end QkPack
