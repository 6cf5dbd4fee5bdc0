import QkPack.Snappys.RoundTrip

/-!
# Damaged snappy streams

The writer puts the checksum of each chunk into the header of its block; the reader steps over it. A stream that is
cut, or a block that cannot be read, ends the value there.
-/

namespace QkPack
open Wire CString

theorem underflow_cut (lib : SnappyLib) {b : Block} (hb : b.Sized) {n : Nat} (hn : n < b.bytes.length) :
    underflow lib (b.bytes.take n) = none := by
  rw [b.bytes_length] at hn
  by_cases hheader : n < 7
  · rw [underflow, if_pos]
    rw [List.length_take, List.length_take, b.bytes_length]
    omega
  · obtain ⟨k,rfl⟩ := Nat.exists_eq_add_of_le' (not_lt.mp hheader)
    have hmagic : (b.bytes.take (k + 7)).take 7 ≠ magic := by
      have hflag := b.flag_ne_magic []
      rwa [List.append_nil, ← min_eq_left (show 7 ≤ k + 7 by omega), ← List.take_take] at hflag
    have hlen : ((b.bytes.take (k + 7)).take 7).length = 7 := by
      rw [List.length_take, List.length_take, b.bytes_length]
      omega
    have hvalue := be16_value (n := b.data.length) (hb.data_le.trans_lt (by decide))
    have hmissing : ((b.data.take k).take b.data.length).length ≠ b.data.length := by
      rw [List.length_take, List.length_take]
      omega
    rw [underflow, if_neg (by simpa using hlen), if_neg hmagic]
    simp only [Block.bytes, writeBlock, be16, be32, List.cons_append, List.nil_append, List.take_succ_cons, hvalue]
    rw [if_pos (.inr (.inr hmissing))]

theorem take_flatMap_bytes (lib : SnappyLib) {bs : List Block} (hbs : ∀ b ∈ bs, b.Sized) (n : Nat) :
    ∃ k tail, (bs.flatMap Block.bytes).take n = (bs.take k).flatMap Block.bytes ++ tail ∧
      underflow lib tail = none ∧ (n < (bs.flatMap Block.bytes).length → k < bs.length) ∧
      ∀ b bs', bs = b :: bs' → (k = 0 ↔ n < b.bytes.length) := by
  induction bs generalizing n with
  | nil => exact ⟨0,[],by simp,underflow_nil lib,by simp,by simp⟩
  | cons b bs ih =>
    obtain ⟨hb,hbs⟩ := List.forall_mem_cons.mp hbs
    by_cases hn : n < b.bytes.length
    · refine ⟨0,b.bytes.take n,?_,underflow_cut lib hb hn,by simp,?_⟩
      · rw [List.flatMap_cons, List.take_append_of_le_length hn.le, List.take_zero, List.flatMap_nil, List.nil_append]
      · rintro _ _ ⟨⟩
        exact iff_of_true rfl hn
    · obtain ⟨m,rfl⟩ := Nat.exists_eq_add_of_le (not_lt.mp hn)
      obtain ⟨k,tail,htake,htail,hlt,-⟩ := ih hbs m
      refine ⟨k + 1,tail,?_,htail,?_,?_⟩
      · rw [List.flatMap_cons, List.take_length_add_append, htake, List.take_succ_cons, List.flatMap_cons,
          List.append_assoc]
      · intro hcut
        rw [List.flatMap_cons, List.length_append] at hcut
        exact Nat.succ_lt_succ (hlt (by omega))
      · rintro _ _ ⟨⟩
        exact iff_of_false (Nat.succ_ne_zero _) hn

/-- `RawUncompress` fills the buffer that was sized by `GetUncompressedLength`. -/
def SnappyLib.Fills (lib : SnappyLib) : Prop := ∀ data, uncompressBlock lib data ≠ some []

/-- What may happen to the stream of a value: it is cut behind `n` bytes, or the payload of its `i`th block is
replaced. -/
inductive Tampering where
  | cut (n : Nat)
  | damage (i : Nat) (payload : Bytes)

namespace Tampering

def apply (lib : SnappyLib) (v : Bytes) : Tampering → Bytes
  | cut n => (snappyCompress lib v).take n
  | damage i payload =>
    magic ++ ((blocksOf lib v).modify i fun b => { b with data := payload }).flatMap Block.bytes

/-- Something is missing behind the magic number, or the checksum of a block is not the one of its new payload. -/
def Harms (lib : SnappyLib) (v : Bytes) : Tampering → Prop
  | cut n => magic.length ≤ n ∧ n < (snappyCompress lib v).length
  | damage i payload =>
    ∃ b, (blocksOf lib v)[i]? = some b ∧ payload.length = b.data.length ∧
      ∀ out, Block.content lib { b with data := payload } = some out → crc32cMasked out ≠ b.cksum

/-- Nothing at all is read: the stream is cut in its first block, or the first payload does not uncompress. -/
def NothingRead (lib : SnappyLib) (v : Bytes) : Tampering → Prop
  | cut n => ∀ b, (blocksOf lib v)[0]? = some b → n < magic.length + b.bytes.length
  | damage i payload =>
    i = 0 ∧ ∀ b, (blocksOf lib v)[0]? = some b → Block.content lib { b with data := payload } = none

end Tampering

section Read

variable (lib : SnappyLib) {v : Bytes}

theorem only_value_iff {stack s out : Bytes}
    (hread : snappyUncompress lib stack s = .ok (if out = [] then none else some out)) (hne : out ≠ v) :
    (∀ w, snappyUncompress lib stack s = .ok (some w) → w = v) ↔ out = [] := by
  rw [hread]
  constructor
  · intro h
    by_contra hout
    exact hne (h out (by rw [if_neg hout]))
  · rintro rfl w hw
    cases hw

theorem chunksOf_ne_nil (hne : v ≠ []) : chunksOf v ≠ [] := by
  intro h
  apply hne
  rw [← flatten_chunksOf v, h, List.flatten_nil]

theorem flatten_chunks_eq_nil {chunks : List Bytes} (h : ∀ c ∈ chunks, c ≠ [] ∧ c.length ≤ chunkSize) :
    chunks.flatten = [] ↔ chunks = [] := by
  constructor
  · intro hnil
    by_contra hne
    obtain ⟨c,hc⟩ := List.exists_mem_of_ne_nil _ hne
    exact (h c hc).1 (List.flatten_eq_nil_iff.mp hnil c hc)
  · rintro rfl
    rfl

theorem cut_read (stack : Bytes) (hnul : 0 ∉ v) {n : Nat} 
    (hn : n < ((blocksOf lib v).flatMap Block.bytes).length) :
    ∃ k, k < (chunksOf v).length ∧
      (∀ b, (blocksOf lib v)[0]? = some b → (k = 0 ↔ n < b.bytes.length)) ∧
      snappyUncompress lib stack ((snappyCompress lib v).take (magic.length + n)) =
        .ok (if ((chunksOf v).take k).flatten = [] then none else some ((chunksOf v).take k).flatten) := by
  obtain ⟨k,tail,htake,htail,hlt,hzero⟩ := take_flatMap_bytes lib (blocksOf_sized (v := v) lib) n
  have hchunks : ∀ c ∈ (chunksOf v).take k, c ≠ [] ∧ c.length ≤ chunkSize :=
    fun c hc => mem_chunksOf (List.mem_of_mem_take hc)
  have hwhole : readBlocks lib ((blocksOf lib v).take k) = ((chunksOf v).take k).flatten := by
    have hread := readBlocks_chunks lib hchunks []
    rw [List.append_nil, readBlocks, List.append_nil] at hread
    rw [blocksOf, ← List.map_take, hread]
  refine ⟨k,?_,?_,?_⟩
  · have hk := hlt hn
    rwa [blocksOf, List.length_map] at hk
  · intro b hb
    obtain ⟨bs,hbs⟩ : ∃ bs, blocksOf lib v = b :: bs := by
      cases hblocks : blocksOf lib v with
      | nil => simp [hblocks] at hb
      | cons b' bs =>
        simp only [hblocks, List.getElem?_cons_zero, Option.some.injEq] at hb
        exact ⟨bs,by rw [hb]⟩
    exact hzero b bs hbs
  · rw [snappyCompress_eq lib hnul, List.take_length_add_append, htake,
      snappyUncompress_blocks lib stack (fun b hb => blocksOf_sized lib b (List.mem_of_mem_take hb)) htail, hwhole]

/-- The chunks before a block with another payload, and what the reader makes of the payload. If that is nothing,
the chunks behind it are lost too. -/
def damagedValue (chunks : List Bytes) (i : Nat) (b : Block) : Bytes :=
  (chunks.take i).flatten ++ (b.content lib).elim [] (· ++ (chunks.drop (i + 1)).flatten)

theorem damage_read (stack : Bytes) {i : Nat} {b : Block} {payload : Bytes} (hb : (blocksOf lib v)[i]? = some b)
    (hlen : payload.length = b.data.length) :
    snappyUncompress lib stack (Tampering.apply lib v (.damage i payload)) =
      .ok (if damagedValue lib (chunksOf v) i { b with data := payload } = [] then none
        else some (damagedValue lib (chunksOf v) i { b with data := payload })) := by
  obtain ⟨hi,hget⟩ := List.getElem?_eq_some_iff.mp hb
  have hsized : Block.Sized { b with data := payload } := by
    have hb' := blocksOf_sized lib b (List.mem_of_getElem? hb)
    refine ⟨?_,hlen.le.trans hb'.data_le⟩
    rw [← List.length_pos_iff, hlen, List.length_pos_iff]
    exact hb'.data_ne
  have hblocks : (blocksOf lib v).modify i (fun b => { b with data := payload }) =
      ((chunksOf v).take i).map (chunkBlock lib) ++
        { b with data := payload } :: ((chunksOf v).drop (i + 1)).map (chunkBlock lib) := by
    rw [List.modify_eq_take_cons_drop hi, hget, blocksOf, List.map_take, List.map_drop]
  have hchunks : ∀ c ∈ (chunksOf v).take i, c ≠ [] ∧ c.length ≤ chunkSize :=
    fun c hc => mem_chunksOf (List.mem_of_mem_take hc)
  have hdropped : ∀ c ∈ (chunksOf v).drop (i + 1), c ≠ [] ∧ c.length ≤ chunkSize :=
    fun c hc => mem_chunksOf (List.mem_of_mem_drop hc)
  have hbehind := readBlocks_chunks lib hdropped []
  rw [List.append_nil, readBlocks, List.append_nil] at hbehind
  have hread : readBlocks lib ((blocksOf lib v).modify i fun b => { b with data := payload }) =
      damagedValue lib (chunksOf v) i { b with data := payload } := by
    rw [hblocks, readBlocks_chunks lib hchunks, readBlocks, hbehind, damagedValue]
    cases Block.content lib { b with data := payload } with
    | none => rfl
    | some out => rfl
  have hall : ∀ b' ∈ (blocksOf lib v).modify i (fun b => { b with data := payload }), b'.Sized := by
    rw [hblocks]
    intro b' hb'
    rcases List.mem_append.mp hb' with hfront | hrest
    · rw [List.map_take] at hfront
      exact blocksOf_sized lib b' (List.mem_of_mem_take hfront)
    · rcases List.mem_cons.mp hrest with rfl | hback
      · exact hsized
      · rw [List.map_drop] at hback
        exact blocksOf_sized lib b' (List.mem_of_mem_drop hback)
  have hout := snappyUncompress_blocks lib stack hall (underflow_nil lib)
  rwa [List.append_nil, hread] at hout

theorem chunk_of_block {i : Nat} {b : Block} (hb : (blocksOf lib v)[i]? = some b) :
    ∃ c, c ≠ [] ∧ b.cksum = crc32cMasked c ∧
      v = ((chunksOf v).take i).flatten ++ (c ++ ((chunksOf v).drop (i + 1)).flatten) := by
  rw [blocksOf, List.getElem?_map, Option.map_eq_some_iff] at hb
  obtain ⟨c,hc,rfl⟩ := hb
  obtain ⟨hi,hget⟩ := List.getElem?_eq_some_iff.mp hc
  refine ⟨c,(mem_chunksOf (List.mem_of_getElem? hc)).1,chunkBlock_cksum lib c,?_⟩
  rw [← List.flatten_cons, ← List.flatten_append, ← hget, List.cons_getElem_drop_succ, List.take_append_drop,
    flatten_chunksOf]

variable {lib}

theorem damagedValue_ne {i : Nat} {b : Block} {payload : Bytes} (hb : (blocksOf lib v)[i]? = some b)
    (hcrc : ∀ out, Block.content lib { b with data := payload } = some out → crc32cMasked out ≠ b.cksum) :
    damagedValue lib (chunksOf v) i { b with data := payload } ≠ v := by
  obtain ⟨c,hc,hcksum,hv⟩ := chunk_of_block lib hb
  intro h
  rw [damagedValue] at h
  conv_rhs at h => rw [hv]
  have hrest := List.append_cancel_left h
  cases hcontent : Block.content lib { b with data := payload } with
  | none =>
    rw [hcontent, Option.elim_none] at hrest
    exact hc (List.append_eq_nil_iff.mp hrest.symm).1
  | some out =>
    rw [hcontent, Option.elim_some] at hrest
    apply hcrc out hcontent
    rw [List.append_cancel_right hrest, hcksum]

theorem damagedValue_eq_nil_iff (hfills : lib.Fills) {i : Nat} {b : Block} {payload : Bytes}
    (hb : (blocksOf lib v)[i]? = some b) (hlen : payload.length = b.data.length) :
    damagedValue lib (chunksOf v) i { b with data := payload } = [] ↔
      i = 0 ∧ Block.content lib { b with data := payload } = none := by
  have hi : i < (chunksOf v).length := by
    obtain ⟨hi,-⟩ := List.getElem?_eq_some_iff.mp hb
    rwa [blocksOf, List.length_map] at hi
  rw [damagedValue, List.append_eq_nil_iff,
    flatten_chunks_eq_nil fun c hc => mem_chunksOf (List.mem_of_mem_take hc), List.take_eq_nil_iff]
  constructor
  · rintro ⟨hfront,hrest⟩
    refine ⟨hfront.resolve_right (List.ne_nil_of_length_pos (by omega)),?_⟩
    cases hcontent : Block.content lib { b with data := payload } with
    | none => rfl
    | some out =>
      rw [hcontent, Option.elim_some] at hrest
      obtain ⟨rfl,-⟩ := List.append_eq_nil_iff.mp hrest
      unfold Block.content at hcontent
      split at hcontent
      · exact absurd hcontent (hfills payload)
      · -- an uncompressed payload is as long as the one it replaces
        have hsized := blocksOf_sized lib b (List.mem_of_getElem? hb)
        obtain rfl : payload = [] := Option.some.inj hcontent
        exact absurd (List.length_eq_zero_iff.mp hlen.symm) hsized.data_ne
  · rintro ⟨rfl,hcontent⟩
    rw [hcontent]
    exact ⟨.inl rfl,rfl⟩

variable (lib) in
theorem exists_first_block (hne : v ≠ []) : ∃ b, (blocksOf lib v)[0]? = some b := by
  obtain ⟨c,chunks,hchunks⟩ := List.exists_cons_of_ne_nil (chunksOf_ne_nil hne)
  exact ⟨chunkBlock lib c,by simp [blocksOf, hchunks]⟩

end Read

/-- A stream that was cut behind its magic number, or one with a payload that does not fit its checksum, gives no
value but the right one exactly when the reader gets nothing out of its first block. -/
theorem stream_integrity_iff (lib : SnappyLib) (hfills : lib.Fills) (stack : Bytes) {v : Bytes} (hne : v ≠ [])
    (hnul : 0 ∉ v) {t : Tampering} (ht : t.Harms lib v) :
    (∀ w, snappyUncompress lib stack (t.apply lib v) = .ok (some w) → w = v) ↔ t.NothingRead lib v := by
  obtain ⟨first,hfirst⟩ := exists_first_block lib hne
  cases t with
  | cut n =>
    obtain ⟨hmagic,hn⟩ := ht
    obtain ⟨m,rfl⟩ := Nat.exists_eq_add_of_le hmagic
    rw [snappyCompress_eq lib hnul, List.length_append] at hn
    obtain ⟨k,hk,hzero,hread⟩ := cut_read lib stack hnul (n := m) (by omega)
    have hlost : ((chunksOf v).take k).flatten ≠ v := by
      intro h
      conv_rhs at h => rw [← flatten_chunksOf v, ← List.take_append_drop k (chunksOf v), List.flatten_append]
      have hrest : ((chunksOf v).drop k).flatten = [] := (List.append_right_eq_self.mp h.symm)
      rw [flatten_chunks_eq_nil fun c hc => mem_chunksOf (List.mem_of_mem_drop hc), List.drop_eq_nil_iff] at hrest
      omega
    rw [Tampering.apply, only_value_iff lib hread hlost,
      flatten_chunks_eq_nil fun c hc => mem_chunksOf (List.mem_of_mem_take hc), List.take_eq_nil_iff,
      or_iff_left (chunksOf_ne_nil hne), hzero first hfirst]
    simp only [Tampering.NothingRead, hfirst, Option.some.injEq, forall_eq', Nat.add_lt_add_iff_left]
  | damage i payload =>
    obtain ⟨b,hb,hlen,hcrc⟩ := ht
    rw [only_value_iff lib (damage_read lib stack hb hlen) (damagedValue_ne hb hcrc),
      damagedValue_eq_nil_iff hfills hb hlen, Tampering.NothingRead]
    refine and_congr_right ?_
    rintro rfl
    simp only [hb, Option.some.injEq, forall_eq']

theorem readLiteral_ne_nil (s : Bytes) : readLiteral s ≠ some [] := by
  intro h
  unfold readLiteral at h
  split at h
  · cases h
  · split at h
    · split at h
      · rename_i hlen
        cases h
        simp at hlen
      · cases h
    · unfold readLong at h
      split at h
      · split at h
        · rename_i hlen
          cases h
          simp at hlen
        · cases h
      · cases h

theorem literalSnappy_fills : literalSnappy.Fills := by
  intro data h
  unfold uncompressBlock at h
  split at h
  · simp only [literalSnappy, Option.bind_eq_some_iff] at h
    obtain ⟨v,-,hv⟩ := h
    exact readLiteral_ne_nil v.2 hv
  · cases h

/-- The stream of `abc` without its last four bytes: nothing is returned. -/
theorem stream_integrity_cut :
    Tampering.Harms literalSnappy (text "abc") (.cut 13) ∧
      ∀ w, snappyUncompress literalSnappy [] (Tampering.apply literalSnappy (text "abc") (.cut 13)) = .ok (some w) →
        w = text "abc" := by
  have hharms : Tampering.Harms literalSnappy (text "abc") (.cut 13) := ⟨by decide,by decide⟩
  refine ⟨hharms,(stream_integrity_iff literalSnappy literalSnappy_fills [] (by decide) (by decide) hharms).mpr ?_⟩
  intro b hb
  cases hb
  decide

/-- The stream of `abc` with another last byte, which the checksum does not fit. -/
theorem damaged_value_returned :
    Tampering.Harms literalSnappy (text "abc") (.damage 0 (text "abd")) ∧
      snappyUncompress literalSnappy [] (Tampering.apply literalSnappy (text "abc") (.damage 0 (text "abd"))) =
        .ok (some (text "abd")) := by
  refine ⟨⟨⟨false,crc32cMasked (text "abc"),text "abc"⟩,rfl,rfl,?_⟩,by decide +kernel⟩
  rintro out ⟨⟩
  decide

end QkPack
