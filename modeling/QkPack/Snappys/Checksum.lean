import QkPack.Lib.CrcLow
import QkPack.Snappys.CrcTables
import QkPack.Snappys.Stream

/-!
# The checksum of a block

`crc32c_masked` takes eight bytes at a time and looks each of them up in a table of its own. It computes CRC-32C of
every chunk, bit by bit from the least significant one.
-/

namespace QkPack
open Wire CrcLow

def castagnoli : BitVec 32 := 0x82F63B78#32

def crc32c (data : Bytes) : UInt32 := ~~~ ⟨check castagnoli (BitVec.allOnes 32) data⟩

def maskCrc (crc : UInt32) : UInt32 := ((crc >>> 15) ||| (crc <<< 17)) + 0xa282ead8

/-- A `char` of the chunk as an operand of `^` and `&`: it is signed, and keeps its sign. -/
def charOperand (d : UInt8) : UInt32 := ⟨d.toBitVec.signExtend 32⟩

def t8At (table : List UInt32) (x : UInt32) : UInt32 := table.getD (x &&& 0xff).toNat 0

/-- The loops of `crc32c_masked` over its written-out tables. -/
def t8Loop (crc : UInt32) : Bytes → UInt32
  | d0 :: d1 :: d2 :: d3 :: d4 :: d5 :: d6 :: d7 :: data =>
    let c0 := charOperand d0 ^^^ crc
    let crc := crc >>> 8
    let c1 := charOperand d1 ^^^ crc
    let crc := crc >>> 8
    let c2 := charOperand d2 ^^^ crc
    let crc := crc >>> 8
    let c3 := charOperand d3 ^^^ crc
    let crc := (t8At t8_7 c0 ^^^ t8At t8_6 c1) ^^^ (t8At t8_5 c2 ^^^ t8At t8_4 c3)
    let a1 := t8At t8_3 (charOperand d4)
    let a2 := t8At t8_2 (charOperand d5)
    let a3 := t8At t8_1 (charOperand d6)
    let a4 := t8At t8_0 (charOperand d7)
    t8Loop (crc ^^^ ((a1 ^^^ a2) ^^^ (a3 ^^^ a4))) data
  | d :: data => t8Loop ((crc >>> 8) ^^^ t8At t8_0 (crc ^^^ charOperand d)) data
  | [] => crc

/-- `table` holds the entries of the bytes with `k` others behind them. -/
def SliceTable (k : Nat) (table : List UInt32) : Prop :=
  table.map UInt32.toNat = (List.range 256).map fun i => (slice castagnoli k (BitVec.ofNat 8 i)).toNat

def zeroBit (c : Nat) : Nat := if c % 2 = 0 then c / 2 else (c / 2) ^^^ 0x82F63B78

def zeroByte (c : Nat) : Nat := zeroBit (zeroBit (zeroBit (zeroBit (zeroBit (zeroBit (zeroBit (zeroBit c)))))))

theorem toNat_bitStep (c : BitVec 32) : ((lsbFirst 32).bitStep castagnoli c false).toNat = zeroBit c.toNat := by
  have hbit : (c.getLsbD 0 ^^ false) = decide (c.toNat % 2 = 1) := by
    rw [Bool.xor_false, BitVec.getLsbD, Nat.testBit_zero]
  rw [bitStep_lsbFirst, hbit, zeroBit]
  by_cases hodd : c.toNat % 2 = 1
  · rw [decide_eq_true hodd, if_pos rfl, if_neg (by omega), BitVec.toNat_xor, BitVec.toNat_ushiftRight,
      Nat.shiftRight_one]
    rfl
  · rw [decide_eq_false hodd, if_neg Bool.false_ne_true, if_pos (by omega), BitVec.toNat_ushiftRight,
      Nat.shiftRight_one]

theorem toNat_feed_zeros (c : BitVec 32) :
    ((lsbFirst 32).feed castagnoli c (List.replicate 8 false)).toNat = zeroByte c.toNat := by
  simp only [List.replicate, Crc.Register.feed, List.foldl_cons, List.foldl_nil, toNat_bitStep, zeroByte]

theorem slice_zero (b : BitVec 8) :
    slice castagnoli 0 b = (lsbFirst 32).feed castagnoli (b.setWidth 32) (List.replicate 8 false) := by
  have hzeros : List.replicate 8 false = lowBits 8 0#8 := by decide
  have hout : (b.setWidth 32) >>> 8 = 0#32 := by
    apply BitVec.eq_of_toNat_eq
    rw [BitVec.toNat_ushiftRight, BitVec.toNat_setWidth, Nat.shiftRight_eq_div_pow]
    have hb := b.isLt
    rw [BitVec.toNat_zero]
    omega
  have hback : (b.setWidth 32).setWidth 8 = b := BitVec.setWidth_setWidth_of_le b (by decide : 8 ≤ 32)
  rw [hzeros, feed_byte, hout, hback, BitVec.xor_zero, BitVec.zero_xor]

/-- `zeroBit` without a branch, in the operations that the kernel computes with. -/
def fastBit (c : Nat) : Nat := Nat.xor (Nat.shiftRight c 1) (Nat.mul (Nat.mod c 2) 0x82F63B78)

def fastByte (c : Nat) : Nat := fastBit (fastBit (fastBit (fastBit (fastBit (fastBit (fastBit (fastBit c)))))))

theorem fastBit_eq (c : Nat) : fastBit c = zeroBit c := by
  have hshift : Nat.shiftRight c 1 = c / 2 := Nat.shiftRight_one c
  rw [fastBit, zeroBit, hshift]
  rcases Nat.mod_two_eq_zero_or_one c with heven | hodd
  · have hzero : Nat.mul (Nat.mod c 2) 0x82F63B78 = 0 := by
      rw [show Nat.mod c 2 = 0 from heven]
    rw [hzero, if_pos heven]
    exact Nat.xor_zero _
  · have hone : Nat.mul (Nat.mod c 2) 0x82F63B78 = 0x82F63B78 := by
      rw [show Nat.mod c 2 = 1 from hodd]
    rw [hone, if_neg (by omega)]
    rfl

theorem fastByte_eq (c : Nat) : fastByte c = zeroByte c := by
  simp only [fastByte, zeroByte, fastBit_eq]

/-- Every entry of the table is the one of `cs` with a byte of zeros behind it. -/
def entriesFollow : List Nat → List UInt32 → Bool
  | c :: cs, entry :: table => (Nat.beq entry.toNat (fastByte c)).and (entriesFollow cs table)
  | [], [] => true
  | _, _ => false

theorem map_of_entriesFollow {cs : List Nat} {table : List UInt32} (h : entriesFollow cs table = true) :
    table.map UInt32.toNat = cs.map zeroByte := by
  fun_induction entriesFollow cs table with
  | case1 c cs entry table ih =>
    obtain ⟨hentry,hrest⟩ := Bool.and_eq_true_iff.mp h
    rw [List.map_cons, List.map_cons, ih hrest, Nat.eq_of_beq_eq_true hentry, fastByte_eq]
  | case2 => rfl
  | case3 => cases h

theorem sliceTable_zero : SliceTable 0 t8_0 := by
  have htable : t8_0.map UInt32.toNat = (List.range 256).map zeroByte := by
    apply map_of_entriesFollow
    decide +kernel
  rw [SliceTable, htable]
  apply List.map_congr_left
  intro i hi
  have hi := List.mem_range.mp hi
  rw [slice_zero, toNat_feed_zeros, BitVec.toNat_setWidth, BitVec.toNat_ofNat]
  congr 1
  omega

theorem SliceTable.next {k : Nat} {table table' : List UInt32} (h : SliceTable k table)
    (hnext : entriesFollow (table.map UInt32.toNat) table' = true) : SliceTable (k + 1) table' := by
  rw [SliceTable, map_of_entriesFollow hnext, h, List.map_map]
  exact List.map_congr_left fun i _ => (toNat_feed_zeros (slice castagnoli k (BitVec.ofNat 8 i))).symm

theorem slice_tables : SliceTable 1 t8_1 ∧ SliceTable 2 t8_2 ∧ SliceTable 3 t8_3 ∧ SliceTable 4 t8_4 ∧
    SliceTable 5 t8_5 ∧ SliceTable 6 t8_6 ∧ SliceTable 7 t8_7 := by
  have hone := sliceTable_zero.next (show entriesFollow (t8_0.map UInt32.toNat) t8_1 = true by decide +kernel)
  have htwo := hone.next (show entriesFollow (t8_1.map UInt32.toNat) t8_2 = true by decide +kernel)
  have hthree := htwo.next (show entriesFollow (t8_2.map UInt32.toNat) t8_3 = true by decide +kernel)
  have hfour := hthree.next (show entriesFollow (t8_3.map UInt32.toNat) t8_4 = true by decide +kernel)
  have hfive := hfour.next (show entriesFollow (t8_4.map UInt32.toNat) t8_5 = true by decide +kernel)
  have hsix := hfive.next (show entriesFollow (t8_5.map UInt32.toNat) t8_6 = true by decide +kernel)
  have hseven := hsix.next (show entriesFollow (t8_6.map UInt32.toNat) t8_7 = true by decide +kernel)
  exact ⟨hone,htwo,hthree,hfour,hfive,hsix,hseven⟩

theorem toNat_and_255 (x : UInt32) : (x &&& 0xff).toNat = (x.toBitVec.setWidth 8).toNat := by
  rw [UInt32.toNat_and, BitVec.toNat_setWidth]
  exact Nat.and_two_pow_sub_one_eq_mod x.toNat 8

theorem SliceTable.at {k : Nat} {table : List UInt32} (h : SliceTable k table) (x : UInt32) :
    (t8At table x).toBitVec = slice castagnoli k (x.toBitVec.setWidth 8) := by
  have hlt : (x.toBitVec.setWidth 8).toNat < 256 := (x.toBitVec.setWidth 8).isLt
  have hget := congrArg (fun l => l[(x.toBitVec.setWidth 8).toNat]?) h
  simp only [List.getElem?_map, List.getElem?_range hlt, Option.map_some, BitVec.ofNat_toNat,
    BitVec.setWidth_eq] at hget
  obtain ⟨e,he,heq⟩ := Option.map_eq_some_iff.mp hget
  rw [t8At, toNat_and_255, List.getD_eq_getElem?_getD, he, Option.getD_some]
  exact BitVec.eq_of_toNat_eq heq

theorem check_eight (c : BitVec 32) (d0 d1 d2 d3 d4 d5 d6 d7 : UInt8) (data : Bytes) :
    check castagnoli c (d0 :: d1 :: d2 :: d3 :: d4 :: d5 :: d6 :: d7 :: data) =
      check castagnoli
        (((slice castagnoli 7 (c.setWidth 8 ^^^ d0.toBitVec) ^^^
            slice castagnoli 6 ((c >>> 8).setWidth 8 ^^^ d1.toBitVec)) ^^^
          (slice castagnoli 5 ((c >>> 16).setWidth 8 ^^^ d2.toBitVec) ^^^
            slice castagnoli 4 ((c >>> 24).setWidth 8 ^^^ d3.toBitVec))) ^^^
          ((slice castagnoli 3 d4.toBitVec ^^^ slice castagnoli 2 d5.toBitVec) ^^^
            (slice castagnoli 1 d6.toBitVec ^^^ slice castagnoli 0 d7.toBitVec))) data := by
  have hblock : d0 :: d1 :: d2 :: d3 :: d4 :: d5 :: d6 :: d7 :: data = [d0,d1,d2,d3,d4,d5,d6,d7] ++ data := rfl
  -- Four bytes empty the register: the other four are looked up as they are.
  have hempty : c >>> 32 = 0#32 := BitVec.ushiftRight_eq_zero (Nat.le_refl 32)
  rw [hblock, check_append]
  congr 1
  iterate 8 rw [check_cons]
  simp only [← BitVec.shiftRight_add, List.length_cons, List.length_nil, Nat.reduceAdd, hempty,
    BitVec.zero_ushiftRight, BitVec.setWidth_zero, BitVec.zero_xor]
  have hnil : check castagnoli 0#32 [] = 0#32 := rfl
  rw [hnil, BitVec.zero_xor]
  ac_rfl

theorem setWidth_charOperand (d : UInt8) : (charOperand d).toBitVec.setWidth 8 = d.toBitVec := by
  apply BitVec.eq_of_getLsbD_eq
  intro i hi
  have hi32 : i < 32 := Nat.lt_trans hi (by decide)
  have hextend : (charOperand d).toBitVec.getLsbD i = d.toBitVec.getLsbD i := by
    rw [charOperand, BitVec.getLsbD_signExtend, decide_eq_true hi32, Bool.true_and, if_pos hi]
  rw [BitVec.getLsbD_setWidth, decide_eq_true hi, Bool.true_and, hextend]

section
variable {k : Nat} {table : List UInt32}

theorem SliceTable.at_char (h : SliceTable k table) (d : UInt8) :
    (t8At table (charOperand d)).toBitVec = slice castagnoli k d.toBitVec := by
  rw [h.at, setWidth_charOperand]

theorem SliceTable.at_xor (h : SliceTable k table) (crc : UInt32) (d : UInt8) :
    (t8At table (charOperand d ^^^ crc)).toBitVec =
      slice castagnoli k (crc.toBitVec.setWidth 8 ^^^ d.toBitVec) := by
  rw [h.at, UInt32.toBitVec_xor, BitVec.setWidth_xor, setWidth_charOperand, BitVec.xor_comm]

end

theorem toBitVec_shiftRight_eight (x : UInt32) : (x >>> 8).toBitVec = x.toBitVec >>> 8 := rfl

theorem toBitVec_t8Loop (crc : UInt32) (data : Bytes) :
    (t8Loop crc data).toBitVec = check castagnoli crc.toBitVec data := by
  obtain ⟨hone,htwo,hthree,hfour,hfive,hsix,hseven⟩ := slice_tables
  fun_induction t8Loop crc data with
  | case1 crc d0 d1 d2 d3 d4 d5 d6 d7 data c0 crc1 c1 crc2 c2 crc3 c3 low a1 a2 a3 a4 ih =>
    rw [ih, check_eight]
    simp only [low, c0, c1, c2, c3, crc1, crc2, crc3, a1, a2, a3, a4, UInt32.toBitVec_xor, sliceTable_zero.at_char,
      hone.at_char, htwo.at_char, hthree.at_char, hfour.at_xor, hfive.at_xor, hsix.at_xor, hseven.at_xor,
      toBitVec_shiftRight_eight, ← BitVec.shiftRight_add]
  | case2 crc d data h ih =>
    rw [ih, UInt32.toBitVec_xor, UInt32.xor_comm, sliceTable_zero.at_xor, toBitVec_shiftRight_eight]
    exact congrArg (fun c => check castagnoli c data) (feed_byte castagnoli crc.toBitVec d.toBitVec).symm
  | case3 crc => rfl

theorem toBitVec_entryStep (c : UInt32) :
    ((c >>> 1) ^^^ (if c &&& 1 = 1 then 0x82F63B78 else 0)).toBitVec =
      (lsbFirst 32).bitStep castagnoli c.toBitVec false := by
  have hodd : c &&& 1 = 1 ↔ (c.toBitVec.getLsbD 0 ^^ false) = true := by
    rw [Bool.xor_false, BitVec.getLsbD, Nat.testBit_zero, decide_eq_true_iff, ← UInt32.toNat_inj, UInt32.toNat_and]
    exact iff_of_eq (congrArg (· = 1) (Nat.and_one_is_mod c.toNat))
  rw [bitStep_lsbFirst]
  by_cases h : c &&& 1 = 1
  · rw [if_pos h, if_pos (hodd.mp h)]
    rfl
  · rw [if_neg h, if_neg (mt hodd.mpr h), UInt32.xor_zero]
    rfl

theorem crcEntry_low (x : UInt32) :
    (crcEntry (x &&& 0xff)).toBitVec = slice castagnoli 0 (x.toBitVec.setWidth 8) := by
  have hrange : List.range 8 = [0,1,2,3,4,5,6,7] := rfl
  have hlow : (x &&& 0xff).toBitVec = (x.toBitVec.setWidth 8).setWidth 32 := by
    apply BitVec.eq_of_toNat_eq
    rw [BitVec.toNat_setWidth, ← toNat_and_255, Nat.mod_eq_of_lt (x &&& 0xff).toNat_lt]
    rfl
  rw [slice_zero, ← hlow, crcEntry, hrange]
  simp only [List.foldl_cons, List.foldl_nil, toBitVec_entryStep, List.replicate, Crc.Register.feed]

theorem toBitVec_crcTable (k : Nat) (x : UInt32) :
    (crcTable k (x &&& 0xff)).toBitVec = slice castagnoli k (x.toBitVec.setWidth 8) := by
  induction k with
  | zero => rw [crcTable, crcEntry_low]
  | succ k ih =>
    rw [crcTable, UInt32.toBitVec_xor, crcEntry_low, toBitVec_shiftRight_eight, ih, slice_succ]

theorem toBitVec_crcTable_xor (k : Nat) (crc : UInt32) (d : UInt8) :
    (crcTable k ((d.toUInt32 ^^^ crc) &&& 0xff)).toBitVec =
      slice castagnoli k (crc.toBitVec.setWidth 8 ^^^ d.toBitVec) := by
  have hbyte : d.toUInt32.toBitVec.setWidth 8 = d.toBitVec :=
    BitVec.setWidth_setWidth_of_le d.toBitVec (by decide : 8 ≤ 32)
  rw [toBitVec_crcTable, UInt32.toBitVec_xor, BitVec.setWidth_xor, hbyte, BitVec.xor_comm]

theorem toBitVec_crcTable_char (k : Nat) (d : UInt8) :
    (crcTable k d.toUInt32).toBitVec = slice castagnoli k d.toBitVec := by
  have hlow : (d.toUInt32 ^^^ 0) &&& 0xff = d.toUInt32 := by
    apply UInt32.toNat_inj.mp
    rw [UInt32.xor_zero, toNat_and_255]
    simp
  have hxor := toBitVec_crcTable_xor k 0 d
  rwa [hlow, UInt32.toBitVec_zero, BitVec.setWidth_zero, BitVec.zero_xor] at hxor

theorem toBitVec_crcLoop (crc : UInt32) (data : Bytes) :
    (crcLoop crc data).toBitVec = check castagnoli crc.toBitVec data := by
  fun_induction crcLoop crc data with
  | case1 crc d0 d1 d2 d3 d4 d5 d6 d7 data c0 c1 c2 c3 low high ih =>
    rw [ih, check_eight]
    simp only [low, high, c0, c1, c2, c3, UInt32.toBitVec_xor, toBitVec_crcTable_char, toBitVec_crcTable_xor]
    rfl
  | case2 crc d data h ih =>
    rw [ih, UInt32.toBitVec_xor, UInt32.xor_comm crc, toBitVec_crcTable_xor, toBitVec_shiftRight_eight]
    exact congrArg (fun c => check castagnoli c data) (feed_byte castagnoli crc.toBitVec d.toBitVec).symm
  | case3 crc => rfl

theorem crc32cMasked_eq (data : Bytes) : crc32cMasked data = maskCrc (crc32c data) := by
  have hloop : crcLoop 0xffffffff data = ⟨check castagnoli (BitVec.allOnes 32) data⟩ :=
    UInt32.toBitVec_inj.mp (toBitVec_crcLoop 0xffffffff data)
  rw [crc32cMasked, hloop, crc32c]
  rfl

/-- `crc32c_masked` over its written-out tables gives every chunk its CRC-32C, masked, and it is the checksum that
the blocks carry. -/
theorem t8Loop_masks_crc32c (data : Bytes) :
    maskCrc (~~~ t8Loop 0xffffffff data) = maskCrc (crc32c data) ∧ crc32cMasked data = maskCrc (crc32c data) := by
  have hloop : t8Loop 0xffffffff data = ⟨check castagnoli (BitVec.allOnes 32) data⟩ :=
    UInt32.toBitVec_inj.mp (toBitVec_t8Loop 0xffffffff data)
  refine ⟨?_,crc32cMasked_eq data⟩
  rw [hloop, crc32c]

/-- The mask turns the checksum round and adds a constant: it can be taken off again. -/
theorem maskCrc_injective : Function.Injective maskCrc := by
  intro a b h
  have hvalue : ∀ x : UInt32, ((x >>> 15) ||| (x <<< 17)).toNat = x.toNat % 32768 * 131072 + x.toNat / 32768 := by
    intro x
    have hx := x.toNat_lt
    have hhigh : x.toNat <<< 17 % 4294967296 = (x.toNat % 32768) <<< 17 := by
      rw [Nat.shiftLeft_eq, Nat.shiftLeft_eq]
      omega
    have hlow : x.toNat >>> 15 < 2 ^ 17 := by
      rw [Nat.shiftRight_eq_div_pow]
      omega
    have hor : ((x >>> 15) ||| (x <<< 17)).toNat = x.toNat >>> 15 ||| x.toNat <<< 17 % 4294967296 := by
      rw [UInt32.toNat_or, UInt32.toNat_shiftRight, UInt32.toNat_shiftLeft]
      rfl
    rw [hor, hhigh, Nat.or_comm, ← Nat.shiftLeft_add_eq_or_of_lt hlow, Nat.shiftLeft_eq, Nat.shiftRight_eq_div_pow]
  have hturned : (a >>> 15) ||| (a <<< 17) = (b >>> 15) ||| (b <<< 17) := (UInt32.add_left_inj _).mp h
  have hnat := congrArg UInt32.toNat hturned
  rw [hvalue, hvalue] at hnat
  have ha := a.toNat_lt
  have hb := b.toNat_lt
  apply UInt32.toNat_inj.mp
  omega

def chunkBits (data : Bytes) : List Bool := data.flatMap fun b => lowBits 8 b.toBitVec

/-- A chunk that is damaged within 32 bits in a row no longer has the checksum of its block. -/
theorem crc32cMasked_detects_burst {data data' : Bytes} {front back burst burst' : List Bool}
    (hdata : chunkBits data = front ++ (burst ++ back)) (hdata' : chunkBits data' = front ++ (burst' ++ back))
    (hlen : burst.length = burst'.length) (hshort : burst.length ≤ 32) (hne : burst ≠ burst') :
    crc32cMasked data ≠ crc32cMasked data' := by
  intro h
  have hpoly : castagnoli.getLsbD (32 - 1) = true := by decide
  have hcheck : check castagnoli (BitVec.allOnes 32) data = check castagnoli (BitVec.allOnes 32) data' := by
    rw [crc32cMasked_eq, crc32cMasked_eq] at h
    exact congrArg UInt32.toBitVec (UInt32.not_inj.mp (maskCrc_injective h))
  have hbits : (lsbFirst 32).feed castagnoli (BitVec.allOnes 32) (front ++ (burst ++ back)) =
      (lsbFirst 32).feed castagnoli (BitVec.allOnes 32) (front ++ (burst' ++ back)) := by
    rw [← hdata, ← hdata']
    exact hcheck
  simp only [Crc.Register.feed_append] at hbits
  exact hne (feed_burst hpoly (by decide) hlen hshort (feed_register hpoly (by decide) hbits))

/-- Two letters that change places are within the 32 bits. -/
theorem crc32cMasked_detects_burst_swap : crc32cMasked (text "swap it") ≠ crc32cMasked (text "swpa it") := by
  have hdata : chunkBits (text "swap it") =
      chunkBits (text "sw") ++ (chunkBits (text "ap") ++ chunkBits (text " it")) := by decide
  have hdata' : chunkBits (text "swpa it") =
      chunkBits (text "sw") ++ (chunkBits (text "pa") ++ chunkBits (text " it")) := by decide
  exact crc32cMasked_detects_burst hdata hdata' (by decide) (by decide) (by decide)

end QkPack
