import QkPack.Snappys.Literal

/-!
# Runs of one byte

What the snappy format makes of a short run of one byte: the length, the byte as a literal, and a copy that overlaps
with what it produces.
-/

namespace QkPack
open Wire

/-- A run of one byte that one copy can continue. -/
def IsRun (s : Bytes) : Prop := 5 ≤ s.length ∧ s.length ≤ 65 ∧ s = List.replicate s.length (s.headD 0)

instance : DecidablePred IsRun := fun _ => inferInstanceAs (Decidable (_ ∧ _ ∧ _))

def runElements (s : Bytes) : Bytes := [0,s.headD 0,UInt8.ofNat (4 * (s.length - 2) + 2),1,0]

def readRun : Bytes → Option Bytes
  | [tag,c,copy,lo,hi] =>
    if tag = 0 ∧ copy.toNat % 4 = 2 ∧ lo = 1 ∧ hi = 0 then some (List.replicate (copy.toNat / 4 + 2) c) else none
  | _ => none

def runCompress (s : Bytes) : Bytes :=
  if IsRun s then UInt8.ofNat s.length :: runElements s else literalCompress s

theorem readRun_runElements {s : Bytes} (h : IsRun s) : readRun (runElements s) = some s := by
  obtain ⟨hlow,hhigh,hrun⟩ := h
  have hcopy : (UInt8.ofNat (4 * (s.length - 2) + 2)).toNat = 4 * (s.length - 2) + 2 :=
    toNat_ofNat_of_lt (by omega)
  have hlen : (4 * (s.length - 2) + 2) / 4 + 2 = s.length := by omega
  rw [runElements, readRun, hcopy, if_pos ⟨rfl,by omega,rfl,rfl⟩, hlen, ← hrun]

theorem readLiteral_runElements (s : Bytes) : readLiteral (runElements s) = none := rfl

/-- A lawful library that compresses short runs and nothing else. -/
def runSnappy : SnappyLib where
  compress := runCompress
  getUncompressedLength src := (varint src).map (·.1)
  rawUncompress src := (varint src).bind fun v => (readLiteral v.2).or (readRun v.2)
  rawUncompress_compress := by
    intro s hne hsize
    rw [runCompress]
    split
    · rename_i hrun
      have hlen := hrun.2.1
      rw [varint_one (by omega), Option.bind_some, readLiteral_runElements, Option.none_or, readRun_runElements hrun]
    · obtain ⟨rest,hlen,hdata⟩ := varint_literalCompress hne hsize
      rw [hlen, Option.bind_some, hdata, Option.some_or]
  length_compress := by
    intro s hne hsize
    rw [runCompress]
    split
    · rename_i hrun
      have hlen := hrun.2.1
      rw [varint_one (by omega), Option.map_some]
    · obtain ⟨rest,hlen,-⟩ := varint_literalCompress hne hsize
      rw [hlen, Option.map_some]
  compress_ne_nil := by
    intro s hne
    rw [runCompress]
    split
    · exact List.cons_ne_nil _ _
    · exact literalSnappy.compress_ne_nil s hne

end QkPack
