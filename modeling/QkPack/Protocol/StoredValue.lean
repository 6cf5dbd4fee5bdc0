import QkPack.Core.Request
import QkPack.Snappys.RoundTrip

/-!
# Values as they are stored

`CompressValue` decides from the length whether a value is stored as a snappy stream;
`UncompressValue` has to tell a stream from a raw value by its first bytes.
-/

namespace QkPack
open Wire CString Resp

variable (lib : SnappyLib)

/-- `CompressValue`: the compressed value, if that is what is to be stored. -/
def compressValue (value : Bytes) (compressThreshold : Int) : Option Bytes :=
  let len := int32 value.length
  if len < compressThreshold then none
  else
    let compressed := snappyCompress lib value
    if int32 compressed.length > len then none else some compressed

def stored (value : Bytes) (compressThreshold : Int) : Bytes :=
  (compressValue lib value compressThreshold).getD value

/-- `UncompressValue`. -/
def uncompressValue (stack value : Bytes) : Except BadMagic (Option Bytes) :=
  if isValidCompressed value then snappyUncompress lib stack value else .ok none

def readValue (stack value : Bytes) : Except BadMagic Bytes :=
  (uncompressValue lib stack value).map fun src => src.getD value

/-- A value as a client can store it. -/
structure Value where
  bytes : Bytes
  ne_nil : bytes ≠ []
  nul_free : 0 ∉ bytes
  size_le : bytes.length ≤ 512 * 1024 * 1024

/-- The value of six bytes that looks like the beginning of a stream. -/
def snappyWord : Bytes := text "snappy"

theorem Value.isValidCompressed_iff (v : Value) :
    isValidCompressed v.bytes = true ↔ v.bytes = snappyWord := by
  rw [isValidCompressed, beq_iff_eq]
  constructor
  · intro h
    rcases Nat.lt_or_ge v.bytes.length 7 with hlen | hlen
    · -- behind a short value the comparison sees NULs, which `c_str` cuts off again
      have htake : (v.bytes ++ List.replicate 7 0).take 7 =
          v.bytes ++ List.replicate (7 - v.bytes.length) 0 := by
        rw [List.take_append, List.take_of_length_le hlen.le, List.take_replicate]
        congr 2
        omega
      have hcut : cStr (v.bytes ++ List.replicate (7 - v.bytes.length) 0) = v.bytes := by
        rw [cStr, List.takeWhile_append_of_pos, List.takeWhile_replicate]
        · simp
        · intro c hc
          rw [bne_iff_ne]
          rintro rfl
          exact v.nul_free hc
      rw [← hcut, ← htake, h]
      rfl
    · refine absurd (?_ : (0 : UInt8) ∈ v.bytes) v.nul_free
      rw [List.take_append_of_le_length hlen] at h
      exact List.mem_of_mem_take (i := 7) (h ▸ (by decide : (0 : UInt8) ∈ magic))
  · rintro h
    rw [h]
    rfl

section Stored

variable (v : Value) (t : Int)

theorem stored_cases : stored lib v.bytes t = v.bytes ∨
    stored lib v.bytes t = snappyCompress lib v.bytes ∧
      (snappyCompress lib v.bytes).length ≤ v.bytes.length := by
  have hsize := v.size_le
  have hlen : int32 v.bytes.length = v.bytes.length := int32_of_range (by omega) (by omega)
  have hlt := snappyCompress_length_lt lib v.nul_free v.size_le
  have hcomp : int32 (snappyCompress lib v.bytes).length = (snappyCompress lib v.bytes).length :=
    int32_of_range (by omega) (by omega)
  simp only [stored, compressValue, hlen, hcomp]
  split
  · exact .inl rfl
  · split
    · exact .inl rfl
    · exact .inr ⟨rfl,by omega⟩

theorem stored_length_le : (stored lib v.bytes t).length ≤ 512 * 1024 * 1024 := by
  have hsize := v.size_le
  rcases stored_cases lib v t with h | ⟨h,hle⟩
  · rw [h]
    exact hsize
  · rw [h]
    exact hle.trans hsize

theorem uncompressValue_stream (stack : Bytes) :
    uncompressValue lib stack (snappyCompress lib v.bytes) = .ok (some v.bytes) := by
  rw [uncompressValue, if_pos (isValidCompressed_snappyCompress lib v.nul_free)]
  exact snappyUncompress_snappyCompress lib stack v.ne_nil v.nul_free

theorem uncompressValue_raw (stack : Bytes) (h : v.bytes ≠ snappyWord) :
    uncompressValue lib stack v.bytes = .ok none := by
  rw [uncompressValue, if_neg (mt v.isValidCompressed_iff.mp h)]

/-- A stream has seven bytes at least, so the word of six is always stored raw. -/
theorem stored_snappyWord (h : v.bytes = snappyWord) : stored lib v.bytes t = snappyWord := by
  rcases stored_cases lib v t with hs | ⟨-,hle⟩
  · exact hs.trans h
  · have hge := snappyCompress_length_ge lib v.nul_free
    have hword : v.bytes.length = 6 := by
      rw [h]
      rfl
    omega

theorem readValue_stored (stack : Bytes) (h : v.bytes ≠ snappyWord) :
    readValue lib stack (stored lib v.bytes t) = .ok v.bytes := by
  rcases stored_cases lib v t with hs | ⟨hs,-⟩
  · rw [hs, readValue, uncompressValue_raw lib v stack h]
    rfl
  · rw [hs, readValue, uncompressValue_stream lib v stack]
    rfl

end Stored

end QkPack
