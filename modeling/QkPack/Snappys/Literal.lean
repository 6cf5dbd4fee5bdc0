import QkPack.Snappys.Stream

/-!
# Literals

The part of the snappy format without copies: the length as a varint, then one literal. It is what the
library produces for data in which it finds no repetition.
-/

namespace QkPack
open Wire

def varint : Bytes → Option (Nat × Bytes)
  | [] => none
  | b :: rest =>
    if b.toNat < 128 then some (b.toNat,rest)
    else (varint rest).map fun v => (b.toNat - 128 + 128 * v.1,v.2)

def readLong : Bytes → Option Bytes
  | lo :: hi :: data => if data.length = lo.toNat + 256 * hi.toNat + 1 then some data else none
  | _ => none

def readLiteral : Bytes → Option Bytes
  | [] => none
  | tag :: rest =>
    if tag.toNat < 240 then if rest.length = tag.toNat / 4 + 1 then some rest else none
    else readLong rest

def literalCompress (s : Bytes) : Bytes :=
  let n := s.length
  if n ≤ 60 then UInt8.ofNat n :: UInt8.ofNat (4 * (n - 1)) :: s
  else [UInt8.ofNat (n % 128 + 128),UInt8.ofNat (n / 128 % 128 + 128),UInt8.ofNat (n / 16384),244,
    UInt8.ofNat ((n - 1) % 256),UInt8.ofNat ((n - 1) / 256)] ++ s

theorem toNat_ofNat_of_lt {n : Nat} (h : n < 256) : (UInt8.ofNat n).toNat = n := by
  rw [UInt8.toNat_ofNat']
  exact Nat.mod_eq_of_lt h

theorem varint_one {n : Nat} (h : n < 128) (rest : Bytes) :
    varint (UInt8.ofNat n :: rest) = some (n,rest) := by
  rw [varint, toNat_ofNat_of_lt (by omega), if_pos h]

theorem varint_more {n : Nat} (h : n < 128) (rest : Bytes) :
    varint (UInt8.ofNat (n + 128) :: rest) = (varint rest).map fun v => (n + 128 * v.1,v.2) := by
  rw [varint, toNat_ofNat_of_lt (by omega), if_neg (by omega), Nat.add_sub_cancel]

section Laws

variable {s : Bytes} (hne : s ≠ []) (hsize : s.length ≤ 32768)
include hne hsize

theorem varint_literalCompress :
    ∃ rest, varint (literalCompress s) = some (s.length,rest) ∧ readLiteral rest = some s := by
  have hpos : 0 < s.length := List.length_pos_iff.mpr hne
  simp only [literalCompress]
  split
  · refine ⟨_,varint_one (by omega) _,?_⟩
    rw [readLiteral, toNat_ofNat_of_lt (by omega), if_pos (by omega), if_pos (by omega)]
  · refine ⟨244 :: UInt8.ofNat ((s.length - 1) % 256) :: UInt8.ofNat ((s.length - 1) / 256) :: s,?_,?_⟩
    · simp only [List.cons_append, List.nil_append]
      rw [varint_more (Nat.mod_lt _ (by norm_num)), varint_more (Nat.mod_lt _ (by norm_num)),
        varint_one (by omega)]
      simp only [Option.map_some, Option.some.injEq, Prod.mk.injEq, and_true]
      omega
    · rw [readLiteral, if_neg (by decide), readLong]
      rw [toNat_ofNat_of_lt (Nat.mod_lt _ (by norm_num)), toNat_ofNat_of_lt (by omega), if_pos (by omega)]

end Laws

/-- A lawful library that compresses nothing. -/
def literalSnappy : SnappyLib where
  compress := literalCompress
  getUncompressedLength src := (varint src).map (·.1)
  rawUncompress src := (varint src).bind fun v => readLiteral v.2
  rawUncompress_compress := by
    intro s hne hsize
    obtain ⟨rest,hlen,hdata⟩ := varint_literalCompress hne hsize
    rw [hlen, Option.bind_some, hdata]
  length_compress := by
    intro s hne hsize
    obtain ⟨rest,hlen,-⟩ := varint_literalCompress hne hsize
    rw [hlen, Option.map_some]
  compress_ne_nil := by
    intro s _
    simp only [literalCompress]
    split <;> simp

end QkPack
