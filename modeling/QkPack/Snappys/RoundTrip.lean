import Mathlib.Data.List.TakeWhile
import QkPack.Snappys.Runs

/-!
# Reading back a snappy stream

What `oSnappyStreambuf` writes is a sequence of blocks, one for each chunk of the value, and
`iSnappyStreambuf` returns the chunks. A stream is longer than its value by seven bytes a block at
most, and the magic number.
-/

namespace QkPack
open Wire CString

theorem magic_length : magic.length = 7 := rfl

theorem be16_value {n : Nat} (h : n < 65536) :
    (UInt8.ofNat (n / 256)).toNat * 256 + (UInt8.ofNat n).toNat = n := by
  simp only [UInt8.toNat_ofNat']
  omega

structure Block where
  compressed : Bool
  cksum : UInt32
  data : Bytes

def Block.bytes (b : Block) : Bytes := writeBlock b.data b.compressed b.cksum

def Block.content (lib : SnappyLib) (b : Block) : Option Bytes :=
  if b.compressed then uncompressBlock lib b.data else some b.data

/-- The length of the payload is one that the header can announce and the reader takes. -/
structure Block.Sized (b : Block) : Prop where
  data_ne : b.data ≠ []
  data_le : b.data.length ≤ chunkSize

def chunkBlock (lib : SnappyLib) (s : Bytes) : Block :=
  if (lib.compress s).length ≥ s.length - s.length / 8 then ⟨false,crc32cMasked s,s⟩
  else ⟨true,crc32cMasked s,lib.compress s⟩

def readBlocks (lib : SnappyLib) : List Block → Bytes
  | [] => []
  | b :: bs =>
    match b.content lib with
    | none => []
    | some out => out ++ readBlocks lib bs

section Block

variable (lib : SnappyLib) {s : Bytes}

theorem Block.bytes_length (b : Block) : b.bytes.length = b.data.length + 7 := by
  simp [Block.bytes, writeBlock, be16, be32]

theorem Block.flag_ne_magic (b : Block) (rest : Bytes) : (b.bytes ++ rest).take 7 ≠ magic := by
  intro h
  have hflag := congrArg List.head? h
  cases hb : b.compressed <;> simp [Block.bytes, writeBlock, magic, text, hb] at hflag

theorem blockOf_eq (s : Bytes) : blockOf lib s = (chunkBlock lib s).bytes := by
  unfold blockOf chunkBlock
  simp only
  split
  · rfl
  · rfl

theorem chunkBlock_cksum (s : Bytes) : (chunkBlock lib s).cksum = crc32cMasked s := by
  unfold chunkBlock
  split
  · rfl
  · rfl

theorem chunkBlock_data_le (s : Bytes) : (chunkBlock lib s).data.length ≤ s.length := by
  unfold chunkBlock
  split
  · rfl
  · simp only
    omega

theorem chunkBlock_sized (hpos : s ≠ []) (hsize : s.length ≤ chunkSize) : (chunkBlock lib s).Sized where
  data_ne := by
    unfold chunkBlock
    split
    · exact hpos
    · exact lib.compress_ne_nil s hpos
  data_le := (chunkBlock_data_le lib s).trans hsize

theorem chunkBlock_content (hpos : s ≠ []) (hsize : s.length ≤ chunkSize) :
    (chunkBlock lib s).content lib = some s := by
  obtain ⟨k,hk⟩ := Nat.exists_eq_succ_of_ne_zero (List.length_pos_iff.mpr hpos).ne'
  unfold chunkBlock
  split
  · rfl
  · simp [Block.content, uncompressBlock, lib.length_compress s hpos hsize, hk,
      lib.rawUncompress_compress s hpos hsize]

theorem underflow_bytes {b : Block} (hb : b.Sized) (rest : Bytes) :
    underflow lib (b.bytes ++ rest) = (b.content lib).map fun out => (out,rest) := by
  have hmagic := b.flag_ne_magic rest
  obtain ⟨compressed,cksum,data⟩ := b
  obtain ⟨hpos,hsize⟩ := hb
  simp only at hpos hsize
  have hlen : ((writeBlock data compressed cksum ++ rest).take 7).length = 7 := by
    simp [writeBlock, be16, be32]
  have hvalue := be16_value (n := data.length) (by simp only [chunkSize] at hsize; omega)
  have hne : data.length ≠ 0 := by simpa using hpos
  have htake : (data ++ rest).take data.length = data := List.take_left
  have hdrop : (data ++ rest).drop data.length = rest := List.drop_left
  rw [Block.bytes] at hmagic ⊢
  rw [underflow, if_neg (by simpa using hlen), if_neg hmagic]
  simp only [writeBlock, be16, be32, List.cons_append, List.nil_append, hvalue, htake, hdrop]
  rw [if_neg (by simp only [chunkSize] at hsize ⊢; omega)]
  cases compressed <;> simp [Block.content]

theorem underflow_nil : underflow lib [] = none := rfl

theorem length_le_flatMap_bytes (bs : List Block) : bs.length ≤ (bs.flatMap Block.bytes).length := by
  induction bs with
  | nil => exact le_rfl
  | cons b bs ih =>
    have hlen := b.bytes_length
    simp only [List.flatMap_cons, List.length_append, List.length_cons]
    omega

theorem drain_bytes {bs : List Block} {tail : Bytes} {fuel : Nat} (hbs : ∀ b ∈ bs, b.Sized)
    (htail : underflow lib tail = none) (hfuel : bs.length ≤ fuel) :
    drain lib fuel (bs.flatMap Block.bytes ++ tail) = readBlocks lib bs := by
  induction bs generalizing fuel with
  | nil =>
    cases fuel with
    | zero => rfl
    | succ fuel => simp [drain, htail, readBlocks]
  | cons b bs ih =>
    obtain ⟨f,rfl⟩ := Nat.exists_eq_add_of_le' hfuel
    obtain ⟨hb,hbs⟩ := List.forall_mem_cons.mp hbs
    rw [List.length_cons, ← Nat.add_assoc, drain, List.flatMap_cons, List.append_assoc,
      underflow_bytes lib hb, readBlocks]
    cases b.content lib with
    | none => rfl
    | some out => simp only [Option.map_some, ih hbs (show bs.length ≤ f + bs.length by omega)]

theorem readBlocks_chunks {chunks : List Bytes} (h : ∀ s ∈ chunks, s ≠ [] ∧ s.length ≤ chunkSize) (bs : List Block) :
    readBlocks lib (chunks.map (chunkBlock lib) ++ bs) = chunks.flatten ++ readBlocks lib bs := by
  induction chunks with
  | nil => rfl
  | cons s chunks ih =>
    obtain ⟨⟨hpos,hsize⟩,hrest⟩ := List.forall_mem_cons.mp h
    simp only [List.map_cons, List.cons_append, readBlocks, chunkBlock_content lib hpos hsize, ih hrest,
      List.flatten_cons, List.append_assoc]

end Block

def chunksOf (v : Bytes) : List Bytes :=
  (List.range ((v.length + (chunkSize - 1)) / chunkSize)).map fun i => (v.drop (chunkSize * i)).take chunkSize

def blocksOf (lib : SnappyLib) (v : Bytes) : List Block := (chunksOf v).map (chunkBlock lib)

section Chunks

variable {v : Bytes}

theorem chunksOf_short (hne : v ≠ []) (hsize : v.length ≤ chunkSize) : chunksOf v = [v] := by
  have hpos : 0 < v.length := List.length_pos_iff.mpr hne
  have hone : (v.length + (chunkSize - 1)) / chunkSize = 1 := by
    simp only [chunkSize] at hsize ⊢
    omega
  rw [chunksOf, hone]
  simp only [List.range_one, List.map_singleton, Nat.mul_zero, List.drop_zero, List.take_of_length_le hsize]

theorem chunksOf_full {c : Bytes} (hc : c.length = chunkSize) (w : Bytes) : chunksOf (c ++ w) = c :: chunksOf w := by
  have hcount : ((c ++ w).length + (chunkSize - 1)) / chunkSize = (w.length + (chunkSize - 1)) / chunkSize + 1 := by
    rw [List.length_append, hc]
    simp only [chunkSize]
    omega
  rw [chunksOf, hcount, List.range_succ_eq_map, List.map_cons, List.map_map]
  congr 1
  · rw [Nat.mul_zero, List.drop_zero, ← hc, List.take_left]
  · apply List.map_congr_left
    intro i _
    have hdrop : chunkSize * i.succ = c.length + chunkSize * i := by rw [hc, Nat.mul_succ, Nat.add_comm]
    rw [Function.comp_apply, hdrop, ← List.drop_drop, List.drop_left]

theorem chunksOf_append {cs : List Bytes} (hcs : ∀ c ∈ cs, c.length = chunkSize) (w : Bytes) :
    chunksOf (cs.flatten ++ w) = cs ++ chunksOf w := by
  induction cs with
  | nil => rw [List.flatten_nil, List.nil_append, List.nil_append]
  | cons c cs ih =>
    obtain ⟨hc,hcs⟩ := List.forall_mem_cons.mp hcs
    rw [List.flatten_cons, List.append_assoc, chunksOf_full hc, ih hcs, List.cons_append]

theorem exists_of_mem_chunksOf {c : Bytes} (hc : c ∈ chunksOf v) :
    ∃ i, chunkSize * i < v.length ∧ (v.drop (chunkSize * i)).take chunkSize = c := by
  rw [chunksOf] at hc
  obtain ⟨i,hi,hpiece⟩ := List.mem_map.mp hc
  refine ⟨i,?_,hpiece⟩
  have hcount := List.mem_range.mp hi
  simp only [chunkSize] at hcount ⊢
  omega

theorem mem_chunksOf {c : Bytes} (hc : c ∈ chunksOf v) : c ≠ [] ∧ c.length ≤ chunkSize := by
  obtain ⟨i,hi,rfl⟩ := exists_of_mem_chunksOf hc
  refine ⟨?_,List.length_take_le _ _⟩
  rw [← List.length_pos_iff, List.length_take, List.length_drop, lt_min_iff]
  exact ⟨by decide,by omega⟩

theorem chunksOf_count (v : Bytes) : chunkSize * ((chunksOf v).length - 1) ≤ v.length := by
  rw [chunksOf, List.length_map, List.length_range]
  simp only [chunkSize]
  omega

theorem flatten_chunksOf (v : Bytes) : (chunksOf v).flatten = v := by
  induction hn : v.length using Nat.strong_induction_on generalizing v with
  | _ n ih =>
    by_cases hlong : chunkSize < v.length
    · have hfull : (v.take chunkSize).length = chunkSize := by
        rw [List.length_take]
        omega
      have hshorter : (v.drop chunkSize).length < n := by
        rw [List.length_drop, ← hn]
        exact Nat.sub_lt (by omega) (by decide)
      conv_lhs => rw [← List.take_append_drop chunkSize v]
      rw [chunksOf_full hfull, List.flatten_cons, ih _ hshorter _ rfl, List.take_append_drop]
    · by_cases hne : v = []
      · rw [hne]
        rfl
      · rw [chunksOf_short hne (by omega), List.flatten_singleton]

theorem blocksOf_sized (lib : SnappyLib) : ∀ b ∈ blocksOf lib v, b.Sized := by
  intro b hb
  obtain ⟨c,hc,rfl⟩ := List.mem_map.mp hb
  exact chunkBlock_sized lib (mem_chunksOf hc).1 (mem_chunksOf hc).2

theorem blocksOf_length_le (lib : SnappyLib) (chunks : List Bytes) :
    ((chunks.map (chunkBlock lib)).flatMap Block.bytes).length ≤ chunks.flatten.length + 7 * chunks.length := by
  induction chunks with
  | nil => exact le_rfl
  | cons s chunks ih =>
    have hlen := (chunkBlock lib s).bytes_length
    have hle := chunkBlock_data_le lib s
    simp only [List.map_cons, List.flatMap_cons, List.flatten_cons, List.length_append, List.length_cons] at ih ⊢
    omega

end Chunks

/-- What has been written after the characters `s`: full chunks, and the rest in the buffer. -/
structure Written (lib : SnappyLib) (s : Bytes) (o : OStream) (chunks : List Bytes) : Prop where
  full : ∀ c ∈ chunks, c.length = chunkSize
  dest_eq : o.dest = magic ++ (chunks.map (chunkBlock lib)).flatMap Block.bytes
  chars : chunks.flatten ++ o.pending = s
  room : o.pending.length < chunkSize

section Writer

variable {lib : SnappyLib}

theorem Written.put {s : Bytes} {o : OStream} {chunks : List Bytes} (h : Written lib s o chunks)
    (c : UInt8) : ∃ chunks', Written lib (s ++ [c]) (o.put lib c) chunks' := by
  have hroom := h.room
  by_cases hlast : o.pending.length < chunkSize - 1
  · refine ⟨chunks,h.full,?_,?_,?_⟩
    · simp only [OStream.put, if_pos hlast, h.dest_eq]
    · simp only [OStream.put, if_pos hlast, ← h.chars, List.append_assoc]
    · simp only [OStream.put, if_pos hlast, List.length_append, List.length_singleton]
      omega
  · have hne : o.pending ++ [c] ≠ [] := by simp
    refine ⟨chunks ++ [o.pending ++ [c]],?_,?_,?_,?_⟩
    · intro d hd
      rcases List.mem_append.mp hd with hd | hd
      · exact h.full d hd
      · rw [List.mem_singleton.mp hd, List.length_append, List.length_singleton]
        omega
    · simp [OStream.put, hlast, OStream.sync, h.dest_eq, blockOf_eq]
    · simp [OStream.put, hlast, OStream.sync, ← h.chars]
    · simp only [OStream.put, if_neg hlast, OStream.sync, if_neg hne]
      decide

theorem Written.foldl {s t : Bytes} {o : OStream} {chunks : List Bytes}
    (h : Written lib s o chunks) :
    ∃ chunks', Written lib (s ++ t) (t.foldl (OStream.put lib) o) chunks' := by
  induction t generalizing s o chunks with
  | nil => exact ⟨chunks,by simpa using h⟩
  | cons c t ih =>
    obtain ⟨chunks',h'⟩ := h.put c
    obtain ⟨chunks'',h''⟩ := ih h'
    exact ⟨chunks'',by simpa using h''⟩

variable (lib) in
theorem written_start : Written lib [] ⟨[],magic⟩ [] where
  full := by simp
  dest_eq := by simp
  chars := rfl
  room := by decide

theorem snappyCompress_eq (lib : SnappyLib) {v : Bytes} (hnul : 0 ∉ v) :
    snappyCompress lib v = magic ++ (blocksOf lib v).flatMap Block.bytes := by
  obtain ⟨chunks,h⟩ := (written_start lib).foldl (t := v)
  rw [List.nil_append] at h
  have hchunks : chunksOf v = chunks ++ chunksOf (v.foldl (OStream.put lib) ⟨[],magic⟩).pending := by
    conv_lhs => rw [← h.chars]
    rw [chunksOf_append h.full]
  rw [snappyCompress, cStr_eq hnul, OStream.sync, blocksOf, hchunks]
  split
  · rename_i hrest
    rw [h.dest_eq, hrest]
    simp [chunksOf]
  · rename_i hrest
    rw [h.dest_eq, chunksOf_short hrest h.room.le]
    simp [blockOf_eq]

end Writer

section RoundTrip

variable (lib : SnappyLib) {v : Bytes}

theorem take_snappyCompress (hnul : 0 ∉ v) : (snappyCompress lib v).take 7 = magic := by
  rw [snappyCompress_eq lib hnul, ← magic_length, List.take_left]

theorem snappyCompress_length_ge (hnul : 0 ∉ v) : 7 ≤ (snappyCompress lib v).length := by
  rw [snappyCompress_eq lib hnul, List.length_append, magic_length]
  omega

theorem isValidCompressed_snappyCompress (hnul : 0 ∉ v) :
    isValidCompressed (snappyCompress lib v) = true := by
  rw [isValidCompressed, List.take_append_of_le_length (snappyCompress_length_ge lib hnul),
    take_snappyCompress lib hnul]
  exact beq_self_eq_true _

/-- A stream of blocks, whole or cut behind them, is read as their contents, whatever the local buffer held before. -/
theorem snappyUncompress_blocks (stack : Bytes) {bs : List Block} {tail : Bytes} (hbs : ∀ b ∈ bs, b.Sized)
    (htail : underflow lib tail = none) :
    snappyUncompress lib stack (magic ++ (bs.flatMap Block.bytes ++ tail)) =
      .ok (if readBlocks lib bs = [] then none else some (readBlocks lib bs)) := by
  have htake : (magic ++ (bs.flatMap Block.bytes ++ tail)).take 7 = magic := by
    rw [← magic_length, List.take_left]
  have hdrop : (magic ++ (bs.flatMap Block.bytes ++ tail)).drop 7 = bs.flatMap Block.bytes ++ tail := by
    rw [← magic_length, List.drop_left]
  have hstack : (stack.take 7).drop magic.length = [] := by
    rw [magic_length]
    exact List.drop_eq_nil_of_le (List.length_take_le _ _)
  have hfuel : bs.length ≤ (magic ++ (bs.flatMap Block.bytes ++ tail)).length := by
    have hle := length_le_flatMap_bytes bs
    simp only [List.length_append]
    omega
  rw [snappyUncompress, htake, hstack, List.append_nil, if_neg (by simp), hdrop, drain_bytes lib hbs htail hfuel]

theorem snappyUncompress_snappyCompress (stack : Bytes) (hne : v ≠ []) (hnul : 0 ∉ v) :
    snappyUncompress lib stack (snappyCompress lib v) = .ok (some v) := by
  have hread := snappyUncompress_blocks lib stack (blocksOf_sized (v := v) lib) (underflow_nil lib)
  have hvalue : readBlocks lib (blocksOf lib v) = v := by
    have hchunks := readBlocks_chunks lib (fun s hs => mem_chunksOf (v := v) hs) []
    rw [List.append_nil] at hchunks
    rw [blocksOf, hchunks, flatten_chunksOf, readBlocks, List.append_nil]
  rw [List.append_nil, ← snappyCompress_eq lib hnul, hvalue, if_neg hne] at hread
  exact hread

/-- A value without NUL bytes, however long, comes back from its stream, and the stream is taken for one. The reader's
local buffer may have held anything. -/
theorem snappy_stream_round_trip (stack : Bytes) (hne : v ≠ []) (hnul : 0 ∉ v) :
    snappyUncompress lib stack (snappyCompress lib v) = .ok (some v) ∧
      isValidCompressed (snappyCompress lib v) = true :=
  ⟨snappyUncompress_snappyCompress lib stack hne hnul,isValidCompressed_snappyCompress lib hnul⟩

theorem snappyCompress_length_lt (hnul : 0 ∉ v) (hsize : v.length ≤ 512 * 1024 * 1024) :
    (snappyCompress lib v).length < 2 ^ 31 := by
  have hblocks := blocksOf_length_le lib (chunksOf v)
  have hcount := chunksOf_count v
  rw [flatten_chunksOf] at hblocks
  rw [snappyCompress_eq lib hnul, List.length_append, magic_length, blocksOf]
  simp only [chunkSize] at hcount
  omega

end RoundTrip

/-- Two chunks, the second of one byte. -/
theorem snappy_stream_round_trip_two_chunks :
    snappyUncompress runSnappy [] (snappyCompress runSnappy (List.replicate 32769 97)) =
        .ok (some (List.replicate 32769 97)) ∧
      isValidCompressed (snappyCompress runSnappy (List.replicate 32769 97)) = true :=
  snappy_stream_round_trip runSnappy [] (by rw [ne_eq, List.replicate_eq_nil_iff]; norm_num)
    fun h => absurd (List.eq_of_mem_replicate h) (by decide)

end QkPack
