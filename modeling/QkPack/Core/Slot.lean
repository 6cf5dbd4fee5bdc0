import Mathlib.Data.List.TakeWhile
import QkPack.Lib.Crc
import QkPack.Lib.Decimal

/-!
# Hash slots

The slot of a key is the remainder of its checksum, or of the checksum of the part in braces.
-/

namespace QkPack
open Wire

def crc16tab : List Nat :=
  [0x0000, 0x1021, 0x2042, 0x3063, 0x4084, 0x50a5, 0x60c6, 0x70e7,
    0x8108, 0x9129, 0xa14a, 0xb16b, 0xc18c, 0xd1ad, 0xe1ce, 0xf1ef,
    0x1231, 0x0210, 0x3273, 0x2252, 0x52b5, 0x4294, 0x72f7, 0x62d6,
    0x9339, 0x8318, 0xb37b, 0xa35a, 0xd3bd, 0xc39c, 0xf3ff, 0xe3de,
    0x2462, 0x3443, 0x0420, 0x1401, 0x64e6, 0x74c7, 0x44a4, 0x5485,
    0xa56a, 0xb54b, 0x8528, 0x9509, 0xe5ee, 0xf5cf, 0xc5ac, 0xd58d,
    0x3653, 0x2672, 0x1611, 0x0630, 0x76d7, 0x66f6, 0x5695, 0x46b4,
    0xb75b, 0xa77a, 0x9719, 0x8738, 0xf7df, 0xe7fe, 0xd79d, 0xc7bc,
    0x48c4, 0x58e5, 0x6886, 0x78a7, 0x0840, 0x1861, 0x2802, 0x3823,
    0xc9cc, 0xd9ed, 0xe98e, 0xf9af, 0x8948, 0x9969, 0xa90a, 0xb92b,
    0x5af5, 0x4ad4, 0x7ab7, 0x6a96, 0x1a71, 0x0a50, 0x3a33, 0x2a12,
    0xdbfd, 0xcbdc, 0xfbbf, 0xeb9e, 0x9b79, 0x8b58, 0xbb3b, 0xab1a,
    0x6ca6, 0x7c87, 0x4ce4, 0x5cc5, 0x2c22, 0x3c03, 0x0c60, 0x1c41,
    0xedae, 0xfd8f, 0xcdec, 0xddcd, 0xad2a, 0xbd0b, 0x8d68, 0x9d49,
    0x7e97, 0x6eb6, 0x5ed5, 0x4ef4, 0x3e13, 0x2e32, 0x1e51, 0x0e70,
    0xff9f, 0xefbe, 0xdfdd, 0xcffc, 0xbf1b, 0xaf3a, 0x9f59, 0x8f78,
    0x9188, 0x81a9, 0xb1ca, 0xa1eb, 0xd10c, 0xc12d, 0xf14e, 0xe16f,
    0x1080, 0x00a1, 0x30c2, 0x20e3, 0x5004, 0x4025, 0x7046, 0x6067,
    0x83b9, 0x9398, 0xa3fb, 0xb3da, 0xc33d, 0xd31c, 0xe37f, 0xf35e,
    0x02b1, 0x1290, 0x22f3, 0x32d2, 0x4235, 0x5214, 0x6277, 0x7256,
    0xb5ea, 0xa5cb, 0x95a8, 0x8589, 0xf56e, 0xe54f, 0xd52c, 0xc50d,
    0x34e2, 0x24c3, 0x14a0, 0x0481, 0x7466, 0x6447, 0x5424, 0x4405,
    0xa7db, 0xb7fa, 0x8799, 0x97b8, 0xe75f, 0xf77e, 0xc71d, 0xd73c,
    0x26d3, 0x36f2, 0x0691, 0x16b0, 0x6657, 0x7676, 0x4615, 0x5634,
    0xd94c, 0xc96d, 0xf90e, 0xe92f, 0x99c8, 0x89e9, 0xb98a, 0xa9ab,
    0x5844, 0x4865, 0x7806, 0x6827, 0x18c0, 0x08e1, 0x3882, 0x28a3,
    0xcb7d, 0xdb5c, 0xeb3f, 0xfb1e, 0x8bf9, 0x9bd8, 0xabbb, 0xbb9a,
    0x4a75, 0x5a54, 0x6a37, 0x7a16, 0x0af1, 0x1ad0, 0x2ab3, 0x3a92,
    0xfd2e, 0xed0f, 0xdd6c, 0xcd4d, 0xbdaa, 0xad8b, 0x9de8, 0x8dc9,
    0x7c26, 0x6c07, 0x5c64, 0x4c45, 0x3ca2, 0x2c83, 0x1ce0, 0x0cc1,
    0xef1f, 0xff3e, 0xcf5d, 0xdf7c, 0xaf9b, 0xbfba, 0x8fd9, 0x9ff8,
    0x6e17, 0x7e36, 0x4e55, 0x5e74, 0x2e93, 0x3eb2, 0x0ed1, 0x1ef0]

def crc16Step (crc : Nat) (c : UInt8) : Nat :=
  (crc * 2 ^ 8) % 2 ^ 16 ^^^ crc16tab.getD ((crc / 2 ^ 8 ^^^ c.toNat) % 2 ^ 8) 0

def crc16 (s : Bytes) : Nat := s.foldl crc16Step 0

/-- The part that is hashed: what stands between the first opening brace and the next closing one,
unless it is empty. -/
def hashTag (key : Bytes) : Option Bytes :=
  match key.dropWhile (· ≠ 123) with
  | [] => none
  | _ :: rest =>
    match rest.dropWhile (· ≠ 125) with
    | [] => none
    | _ :: _ => if rest.head? = some 125 then none else some (rest.takeWhile (· ≠ 125))

def keyHashSlot (key : Bytes) : Nat := crc16 ((hashTag key).getD key) % 2 ^ 14

theorem hashTag_tag {s t : Bytes} (hs : 123 ∉ s) (ht : 125 ∉ t) (hne : t ≠ []) (u : Bytes) :
    hashTag (s ++ 123 :: (t ++ 125 :: u)) = some t := by
  have hs : ∀ c ∈ s, c ≠ 123 := fun c hc => ne_of_mem_of_not_mem hc hs
  have ht : ∀ c ∈ t, c ≠ 125 := fun c hc => ne_of_mem_of_not_mem hc ht
  have hopen : (s ++ 123 :: (t ++ 125 :: u)).dropWhile (· ≠ 123) = 123 :: (t ++ 125 :: u) := by
    rw [List.dropWhile_append_of_pos (by simpa using hs)]
    rfl
  have hclose : (t ++ 125 :: u).dropWhile (· ≠ 125) = 125 :: u := by
    rw [List.dropWhile_append_of_pos (by simpa using ht)]
    rfl
  have hpart : (t ++ 125 :: u).takeWhile (· ≠ 125) = t := by
    rw [List.takeWhile_append_of_pos (by simpa using ht)]
    simp
  have hhead : (t ++ 125 :: u).head? ≠ some 125 := by
    obtain ⟨c,t,rfl⟩ := List.exists_cons_of_ne_nil hne
    simpa using ht c List.mem_cons_self
  simp only [hashTag, hopen, hclose, if_neg hhead, hpart]

theorem split_at_byte {c d : UInt8} {s rest : Bytes} (h : s.dropWhile (· ≠ c) = d :: rest) :
    d = c ∧ s = s.takeWhile (· ≠ c) ++ c :: rest ∧ c ∉ s.takeWhile (· ≠ c) := by
  have hd : d = c := by
    have hhead := List.head?_dropWhile_not (fun x => decide (x ≠ c)) s
    rw [h] at hhead
    simpa using hhead
  subst hd
  refine ⟨rfl,?_,?_⟩
  · conv_lhs => rw [← List.takeWhile_append_dropWhile (p := (· ≠ d)) (l := s), h]
  · intro hmem
    simpa using List.mem_takeWhile_imp hmem

theorem hashTag_some {key t : Bytes} (h : hashTag key = some t) :
    ∃ s u, key = s ++ 123 :: (t ++ 125 :: u) ∧ 123 ∉ s ∧ 125 ∉ t ∧ t ≠ [] := by
  unfold hashTag at h
  split at h
  · cases h
  · rename_i rest hopen
    obtain ⟨rfl,hkey,hfirst⟩ := split_at_byte hopen
    split at h
    · cases h
    · rename_i u hclose
      obtain ⟨rfl,hrest,hnext⟩ := split_at_byte hclose
      split at h
      · cases h
      · rename_i hhead
        cases h
        refine ⟨_,u,?_,hfirst,hnext,?_⟩
        · rw [← hrest]
          exact hkey
        · intro hnil
          rw [hnil, List.nil_append] at hrest
          rw [hrest] at hhead
          exact hhead rfl

/-- The polynomial of the checksum, `x ^ 16 + x ^ 12 + x ^ 5 + 1`. -/
def xmodem : BitVec 16 := 0x1021

theorem crc16tab_eq : crc16tab = (List.range 256).map fun i => (Crc.table xmodem (BitVec.ofNat 8 i)).toNat := by
  decide +kernel

theorem crc16tab_getD (i : BitVec 8) : crc16tab.getD i.toNat 0 = (Crc.table xmodem i).toNat := by
  rw [crc16tab_eq, List.getD_eq_getElem?_getD, List.getElem?_map, List.getElem?_range i.isLt, Option.map_some,
    Option.getD_some, BitVec.ofNat_toNat, BitVec.setWidth_eq]

theorem crc16Step_toNat (c : BitVec 16) (b : UInt8) : crc16Step c.toNat b = (Crc.byteStep xmodem c b).toNat := by
  obtain ⟨i,hi⟩ : ∃ i : BitVec 8, i = (c >>> (16 - 8)).setWidth 8 ^^^ b.toBitVec := ⟨_,rfl⟩
  have hindex : (c.toNat / 2 ^ 8 ^^^ b.toNat) % 2 ^ 8 = i.toNat := by
    have htop : c.toNat / 2 ^ 8 < 2 ^ 8 := by omega
    have hxor := Nat.xor_lt_two_pow htop b.toNat_lt
    rw [Nat.mod_eq_of_lt hxor, hi, BitVec.toNat_xor, BitVec.toNat_setWidth,
      BitVec.toNat_ushiftRight, Nat.shiftRight_eq_div_pow, Nat.mod_eq_of_lt htop]
    rfl
  have hmoved : (c <<< 8).toNat = c.toNat * 2 ^ 8 % 2 ^ 16 := by
    rw [BitVec.toNat_shiftLeft, Nat.shiftLeft_eq]
  rw [crc16Step, hindex, crc16tab_getD, Crc.byteStep, ← hi, BitVec.toNat_xor, hmoved]

theorem crc16_eq (s : Bytes) : crc16 s = (Crc.check xmodem 0 s).toNat := by
  have hfold : ∀ c : BitVec 16, s.foldl crc16Step c.toNat = (s.foldl (Crc.byteStep xmodem) c).toNat := by
    induction s with
    | nil => exact fun _ => rfl
    | cons b s ih =>
      intro c
      rw [List.foldl_cons, List.foldl_cons, crc16Step_toNat, ih]
  rw [Crc.check_eq_foldl xmodem (by norm_num), ← hfold 0]
  rfl

/-- The check value the source gives for the checksum. -/
example : crc16 (text "123456789") = 0x31c3 := by decide

/-- What a cluster hashes of a key: the part between the first opening brace and the first closing one behind it, when
both are there and something is between them, and otherwise the key. -/
inductive HashedPart (key : Bytes) : Bytes → Prop
  | tag {s t u : Bytes} (split : key = s ++ 123 :: (t ++ 125 :: u)) (first : 123 ∉ s) (next : 125 ∉ t) (ne : t ≠ []) :
      HashedPart key t
  | whole (none : ∀ s t u, key = s ++ 123 :: (t ++ 125 :: u) → 123 ∉ s → 125 ∉ t → t = []) : HashedPart key key

theorem hashedPart_hashTag (key : Bytes) : HashedPart key ((hashTag key).getD key) := by
  cases h : hashTag key with
  | none =>
    refine .whole fun s t u hkey hs ht => ?_
    by_contra hne
    rw [hkey, hashTag_tag hs ht hne] at h
    cases h
  | some t =>
    obtain ⟨s,u,hkey,hs,ht,hne⟩ := hashTag_some h
    exact .tag hkey hs ht hne

theorem HashedPart.eq_hashTag {key part : Bytes} (h : HashedPart key part) : part = (hashTag key).getD key := by
  cases h with
  | tag hkey hs ht hne => rw [hkey, hashTag_tag hs ht hne, Option.getD_some]
  | whole hnone =>
    cases htag : hashTag key with
    | none => rfl
    | some t =>
      obtain ⟨s,u,hkey,hs,ht,hne⟩ := hashTag_some htag
      exact absurd (hnone s t u hkey hs ht) hne

/-- The slot of any key is what a cluster computes: the low 14 bits of the check of the hashed part, bit by bit. -/
theorem key_hash_slot_redis (key : Bytes) :
    (∃ part, HashedPart key part) ∧
      (∀ part, HashedPart key part → keyHashSlot key = ((Crc.check xmodem 0 part).setWidth 14).toNat) ∧
      keyHashSlot key < 16384 := by
  refine ⟨⟨_,hashedPart_hashTag key⟩,?_,Nat.mod_lt _ (by norm_num)⟩
  intro part hpart
  rw [keyHashSlot, ← hpart.eq_hashTag, crc16_eq, BitVec.toNat_setWidth]

theorem key_hash_slot_redis_tag :
    keyHashSlot (text "a\x7bbc\x7dd") = ((Crc.check xmodem 0 (text "bc")).setWidth 14).toNat :=
  (key_hash_slot_redis (text "a\x7bbc\x7dd")).2.1 (text "bc")
    (.tag (s := text "a") (u := text "d") (by decide) (by decide) (by decide) (by decide))

end QkPack
