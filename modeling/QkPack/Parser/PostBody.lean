import QkPack.Protocol.Encode

/-!
# The body of a request

`ngx_http_get_post_body` puts the buffers of a chain together. A buffer in a file is read through one temporary buffer,
which is kept for the buffers behind it and only grows.
-/

namespace QkPack
open Wire CString Resp

/-- A buffer by its size; for one in a file also what `ngx_read_file` returns, call by call. -/
inductive BufShape where
  | memory (size : Nat)
  | file (size : Nat) (reads : Nat → Nat)

def BufShape.size : BufShape → Nat
  | .memory size => size
  | .file size _ => size

/-- Each read gives at least one byte, no more than it was asked for, and no more than an `int` can hold. -/
def BufShape.Valid : BufShape → Prop
  | .memory _ => True
  | .file size reads => 0 < size → ∀ i, 0 < reads i ∧ reads i ≤ size ∧ reads i < 2 ^ 31

structure BodyBuf where
  shape : BufShape
  content : Bytes
  length_content : content.length = shape.size

/-- A write behind the end of the temporary buffer, or reads that do not come to an end. -/
inductive BodyFault where
  | overflow | endless
deriving DecidableEq

/-- The loop over the reads of a file. All of them begin at the same place in the file. -/
def readLoop (content : Bytes) (reads : Nat → Nat) : Nat → Nat → Int → Nat → Bytes → Except BodyFault Bytes
  | 0, _, nbytes, _, temp => if nbytes ≤ 0 then .ok temp else .error .endless
  | fuel + 1, i, nbytes, bufPos, temp =>
    if nbytes ≤ 0 then .ok temp
    else if temp.length < bufPos + reads i then .error .overflow
    else readLoop content reads fuel (i + 1) (nbytes - reads i) (bufPos + reads i)
      (temp.take bufPos ++ content.take (reads i) ++ temp.drop (bufPos + reads i))

section Assemble

-- what new memory holds
variable (junk : Nat → UInt8)

/-- A temporary buffer for `nbytes` bytes: the one there is, unless it is too small. -/
def growTemp (nbytes : Int) (temp : Bytes) : Bytes :=
  if (temp.length : Int) < nbytes then (List.range nbytes.toNat).map junk else temp

/-- The loop over the chain. The temporary buffer has `buf_size` bytes, and all of them are appended. -/
def assemble : List BodyBuf → Bytes → Bytes → Except BodyFault Bytes
  | [], _, postBody => .ok postBody
  | buf :: rest, temp, postBody =>
    match buf.shape with
    | .memory _ => assemble rest temp (postBody ++ buf.content)
    | .file size reads =>
      let nbytes := int32 size
      if nbytes ≤ 0 then assemble rest temp postBody
      else do
        let temp ← readLoop buf.content reads nbytes.toNat 0 nbytes 0 (growTemp junk nbytes temp)
        assemble rest temp (postBody ++ temp)

/-- `ngx_http_get_post_body` for a new request: the chain of the upstream goes before that of the client. `none` is
`NGX_ERROR`. -/
def getPostBody (isPost : Bool) (upstreamBufs bodyBufs : Option (List BodyBuf)) : Except BodyFault (Option Bytes) :=
  if !isPost then .ok none
  else match upstreamBufs.or bodyBufs with
    | none => .ok none
    | some chain => (assemble junk chain [] []).map some

end Assemble

section Reads

variable {content temp : Bytes} {reads : Nat → Nat} {fuel i : Nat} {nbytes : Int}

/-- The bytes of `k` reads. -/
def readBytes (content : Bytes) (reads : Nat → Nat) (i k : Nat) : Bytes :=
  (List.range' i k).flatMap fun j => content.take (reads j)

theorem readBytes_succ (k : Nat) : readBytes content reads i (k + 1) =
    content.take (reads i) ++ readBytes content reads (i + 1) k := by
  rw [readBytes, List.range'_succ, List.flatMap_cons]
  rfl

theorem readLoop_round (hread : reads i ≤ content.length) (hmore : ¬ nbytes ≤ 0) {w tail : Bytes}
    (h : readLoop content reads (fuel + 1) i nbytes w.length (w ++ tail) = .ok temp) :
    reads i ≤ tail.length ∧ readLoop content reads fuel (i + 1) (nbytes - reads i) (w ++ content.take (reads i)).length
      (w ++ content.take (reads i) ++ tail.drop (reads i)) = .ok temp := by
  rw [readLoop, if_neg hmore] at h
  split at h
  · cases h
  · rename_i hroom
    rw [List.length_append, not_lt] at hroom
    refine ⟨Nat.le_of_add_le_add_left hroom,?_⟩
    rwa [List.take_left, ← List.drop_drop, List.drop_left, ← List.length_take_of_le hread, ← List.length_append,
      List.length_take_of_le hread] at h

/-- A loop that comes to an end has written the bytes of some reads over the buffer, one behind the other. -/
theorem readLoop_ok (hreads : ∀ j, reads j ≤ content.length) {w tail : Bytes}
    (h : readLoop content reads fuel i nbytes w.length (w ++ tail) = .ok temp) :
    ∃ k, temp = w ++ readBytes content reads i k ++ tail.drop (readBytes content reads i k).length ∧
      (readBytes content reads i k).length ≤ tail.length ∧ nbytes ≤ (readBytes content reads i k).length ∧
      (0 < nbytes → 0 < k) ∧ (reads i < nbytes → 1 < k) := by
  induction fuel generalizing i nbytes w tail with
  | zero =>
    rw [readLoop] at h
    split at h
    · cases h
      exact ⟨0,by simp [readBytes],by simp [readBytes],by simp [readBytes]; omega,by omega,by omega⟩
    · cases h
  | succ fuel ih =>
    by_cases hdone : nbytes ≤ 0
    · rw [readLoop, if_pos hdone] at h
      cases h
      exact ⟨0,by simp [readBytes],by simp [readBytes],by simp [readBytes]; omega,by omega,by omega⟩
    · obtain ⟨hroom,hrest⟩ := readLoop_round (hreads i) hdone h
      obtain ⟨k,htemp,hfit,hread,-,-⟩ := ih hrest
      have hlen : (readBytes content reads i (k + 1)).length =
          reads i + (readBytes content reads (i + 1) k).length := by
        rw [readBytes_succ, List.length_append, List.length_take_of_le (hreads i)]
      rw [List.length_drop] at hfit
      refine ⟨k + 1,?_,by omega,by omega,by omega,fun hshort => ?_⟩
      · rw [htemp, hlen, readBytes_succ, List.drop_drop, List.append_assoc w]
      · -- What is still to be read takes another round.
        rcases Nat.eq_zero_or_pos k with rfl | hk
        · rw [readBytes, List.range'_zero, List.flatMap_nil, List.length_nil] at hread
          omega
        · omega

theorem readLoop_start (hreads : ∀ j, reads j ≤ content.length) {start : Bytes}
    (h : readLoop content reads fuel 0 nbytes 0 start = .ok temp) :
    ∃ k, temp = readBytes content reads 0 k ++ start.drop (readBytes content reads 0 k).length ∧
      (readBytes content reads 0 k).length ≤ start.length ∧ nbytes ≤ (readBytes content reads 0 k).length ∧
      (0 < nbytes → 0 < k) ∧ (reads 0 < nbytes → 1 < k) :=
  readLoop_ok hreads (w := []) h

end Reads

section Chains

variable {junk : Nat → UInt8} {buf : BodyBuf} {rest : List BodyBuf} {temp postBody body : Bytes} {size : Nat}
  {reads : Nat → Nat}

theorem length_growTemp {nbytes : Int} (hpos : 0 < nbytes) :
    ((growTemp junk nbytes temp).length : Int) = max (temp.length : Int) nbytes := by
  unfold growTemp
  split
  · rw [List.length_map, List.length_range]
    omega
  · omega

theorem BodyBuf.reads_le (hvalid : buf.shape.Valid) (hshape : buf.shape = .file size reads) (hsize : 0 < size)
    (i : Nat) : reads i ≤ buf.content.length := by
  have hlen := buf.length_content
  rw [hshape] at hvalid hlen
  rw [hlen]
  exact (hvalid hsize i).2.1

theorem assemble_memory (hshape : buf.shape = .memory size) :
    assemble junk (buf :: rest) temp postBody = assemble junk rest temp (postBody ++ buf.content) := by
  rw [assemble, hshape]

theorem assemble_skip (hshape : buf.shape = .file size reads) (hsize : int32 size ≤ 0) :
    assemble junk (buf :: rest) temp postBody = assemble junk rest temp postBody := by
  rw [assemble, hshape]
  simp only [if_pos hsize]

theorem assemble_file (hshape : buf.shape = .file size reads) (hsize : 0 < int32 size) :
    assemble junk (buf :: rest) temp postBody =
      (readLoop buf.content reads (int32 size).toNat 0 (int32 size) 0 (growTemp junk (int32 size) temp)).bind
        fun temp => assemble junk rest temp (postBody ++ temp) := by
  rw [assemble, hshape]
  simp only [if_neg (not_le.mpr hsize)]
  rfl

theorem assemble_file_ok (hvalid : buf.shape.Valid) (hshape : buf.shape = .file size reads) (hsize : 0 < int32 size)
    (h : assemble junk (buf :: rest) temp postBody = .ok body) :
    ∃ temp' k, temp' = readBytes buf.content reads 0 k ++
          (growTemp junk (int32 size) temp).drop (readBytes buf.content reads 0 k).length ∧
      (temp'.length : Int) = max (temp.length : Int) (int32 size) ∧
      (int32 size ≤ (readBytes buf.content reads 0 k).length ∧ 0 < k ∧ (reads 0 < int32 size → 1 < k)) ∧
      assemble junk rest temp' (postBody ++ temp') = .ok body := by
  have hpos : 0 < size := by
    rcases Nat.eq_zero_or_pos size with rfl | hpos
    · exact absurd hsize (by decide)
    · exact hpos
  rw [assemble_file hshape hsize] at h
  obtain ⟨temp',hread,hrest⟩ := bind_eq_ok.mp h
  obtain ⟨k,htemp,hfit,hdone,hfirst,hsecond⟩ :=
    readLoop_start (fun i => buf.reads_le hvalid hshape hpos i) hread
  have hgrow : ((growTemp junk (int32 size) temp).length : Int) = _ := length_growTemp hsize
  refine ⟨temp',k,htemp,?_,⟨hdone,hfirst hsize,hsecond⟩,hrest⟩
  rw [← hgrow, htemp, List.length_append, List.length_drop]
  omega

end Chains

/-- The sizes of the buffers in files, as far as there is something in them. -/
def fileSizes (chain : List BufShape) : List Nat :=
  chain.filterMap fun shape => match shape with
    | .memory _ => none
    | .file size _ => if size = 0 then none else some size

section Sizes

variable {chain : List BufShape} {size : Nat} {reads : Nat → Nat}

theorem fileSizes_memory : fileSizes (.memory size :: chain) = fileSizes chain := rfl

theorem fileSizes_empty : fileSizes (.file 0 reads :: chain) = fileSizes chain := rfl

theorem fileSizes_file (hpos : 0 < size) : fileSizes (.file size reads :: chain) = size :: fileSizes chain :=
  List.filterMap_cons_some (if_neg (Nat.pos_iff_ne_zero.mp hpos))

end Sizes

def contents (bufs : List BodyBuf) : Bytes := bufs.flatMap (·.content)

section Forward

variable {junk : Nat → UInt8} {bufs : List BodyBuf} {temp postBody : Bytes}

theorem int32_size {size : Nat} (h : size < 2 ^ 31) : int32 size = size := int32_of_range (by omega) (by omega)

theorem readLoop_single {content start : Bytes} {reads : Nat → Nat} {n : Nat} (hpos : 0 < n) (hread : reads 0 = n)
    (hcontent : content.length = n) (hstart : start.length = n) :
    readLoop content reads n 0 n 0 start = .ok content := by
  obtain ⟨fuel,rfl⟩ : ∃ fuel, n = fuel + 1 := ⟨n - 1,by omega⟩
  have hdone : readLoop content reads fuel 1 (((fuel + 1 : Nat) : Int) - ((fuel + 1 : Nat) : Int)) (0 + (fuel + 1))
      content = .ok content := by
    rw [Int.sub_self]
    cases fuel <;> rfl
  rw [readLoop, hread, if_neg (by omega), if_neg (by omega), List.take_zero, List.nil_append,
    List.take_of_length_le hcontent.le, List.drop_of_length_le (by omega), List.append_nil]
  exact hdone

/-- Buffers in files that never get smaller and are read at once come out as they are. -/
theorem assemble_wellRead
    (hread : ∀ buf ∈ bufs, ∀ size reads, buf.shape = .file size reads → 0 < size → size < 2 ^ 31 ∧ reads 0 = size)
    (hsorted : (fileSizes (bufs.map (·.shape))).Pairwise (· ≤ ·))
    (hfits : ∀ size ∈ fileSizes (bufs.map (·.shape)), temp.length ≤ size) :
    assemble junk bufs temp postBody = .ok (postBody ++ contents bufs) := by
  induction bufs generalizing temp postBody with
  | nil => rw [assemble, contents, List.flatMap_nil, List.append_nil]
  | cons buf rest ih =>
    obtain ⟨hbuf,hrest⟩ := List.forall_mem_cons.mp hread
    rw [contents, List.flatMap_cons, ← List.append_assoc]
    rw [List.map_cons] at hsorted hfits
    cases hshape : buf.shape with
    | memory size =>
      rw [hshape, fileSizes_memory] at hsorted hfits
      rw [assemble_memory hshape]
      exact ih hrest hsorted hfits
    | file size reads =>
      have hlen := buf.length_content
      rw [hshape] at hsorted hfits hlen
      rcases Nat.eq_zero_or_pos size with rfl | hpos
      · rw [assemble_skip hshape (by decide), List.eq_nil_of_length_eq_zero hlen, List.append_nil]
        rw [fileSizes_empty] at hsorted hfits
        exact ih hrest hsorted hfits
      · obtain ⟨hsmall,hwhole⟩ := hbuf size reads hshape hpos
        rw [fileSizes_file hpos] at hsorted hfits
        obtain ⟨hle,hsorted⟩ := List.pairwise_cons.mp hsorted
        have hint := int32_size hsmall
        have hgrow : ((growTemp junk size temp).length : Int) = _ := length_growTemp (by omega)
        have hroom : temp.length ≤ size := hfits size List.mem_cons_self
        have hsingle : readLoop buf.content reads size 0 size 0 (growTemp junk size temp) = .ok buf.content :=
          readLoop_single hpos hwhole hlen (by omega)
        rw [assemble_file hshape (by omega), hint, Int.toNat_natCast, hsingle]
        exact ih hrest hsorted fun n hn => hlen.le.trans (hle n hn)

end Forward

section Backward

variable {junk : Nat → UInt8} {bufs : List BodyBuf} {temp postBody body : Bytes}

/-- What is read of a buffer has the property `p`. -/
def BodyBuf.Seen (p : UInt8 → Prop) (buf : BodyBuf) : Prop :=
  match buf.shape with
  | .memory _ => ∀ c ∈ buf.content, p c
  | .file _ reads => ∀ i, ∀ c ∈ buf.content.take (reads i), p c

theorem BodyBuf.seen_true (buf : BodyBuf) : buf.Seen fun _ => True := by
  unfold BodyBuf.Seen
  split <;> simp

theorem assemble_cons_ok {buf : BodyBuf} {rest : List BodyBuf} {p : UInt8 → Prop} (hvalid : buf.shape.Valid)
    (hseen : buf.Seen p) (hjunk : ∀ i, p (junk i)) (htemp : ∀ c ∈ temp, p c)
    (h : assemble junk (buf :: rest) temp postBody = .ok body) :
    ∃ temp' part, assemble junk rest temp' (postBody ++ part) = .ok body ∧ (∀ c ∈ temp', p c) ∧ ∀ c ∈ part, p c := by
  unfold BodyBuf.Seen at hseen
  cases hshape : buf.shape with
  | memory size =>
    rw [hshape] at hseen
    rw [assemble_memory hshape] at h
    exact ⟨temp,buf.content,h,htemp,hseen⟩
  | file size reads =>
    rw [hshape] at hseen
    by_cases hsize : 0 < int32 size
    · obtain ⟨temp',k,htemp',-,-,hrest⟩ := assemble_file_ok hvalid hshape hsize h
      have hgrow : ∀ c ∈ growTemp junk (int32 size) temp, p c := by
        unfold growTemp
        split
        · simpa using fun i _ => hjunk i
        · exact htemp
      have hall : ∀ c ∈ temp', p c := by
        intro c hc
        rw [htemp', List.mem_append] at hc
        rcases hc with hc | hc
        · obtain ⟨i,-,hi⟩ := List.mem_flatMap.mp hc
          exact hseen i c hi
        · exact hgrow c (List.mem_of_mem_drop hc)
      exact ⟨temp',temp',hrest,hall,hall⟩
    · rw [assemble_skip hshape (not_lt.mp hsize)] at h
      exact ⟨temp,[],by rwa [List.append_nil],htemp,by simp⟩

theorem assemble_bytes {p : UInt8 → Prop} (hvalid : ∀ buf ∈ bufs, buf.shape.Valid) (hseen : ∀ buf ∈ bufs, buf.Seen p)
    (hjunk : ∀ i, p (junk i)) (htemp : ∀ c ∈ temp, p c) (hpost : ∀ c ∈ postBody, p c)
    (h : assemble junk bufs temp postBody = .ok body) : ∀ c ∈ body, p c := by
  induction bufs generalizing temp postBody with
  | nil =>
    cases h
    exact hpost
  | cons buf rest ih =>
    obtain ⟨hvalid₁,hvalid⟩ := List.forall_mem_cons.mp hvalid
    obtain ⟨hseen₁,hseen⟩ := List.forall_mem_cons.mp hseen
    obtain ⟨temp',part,hrest,htemp',hpart⟩ := assemble_cons_ok hvalid₁ hseen₁ hjunk htemp h
    refine ih hvalid hseen htemp' ?_ hrest
    intro c hc
    exact (List.mem_append.mp hc).elim (hpost c) (hpart c)

theorem assemble_prefix (hvalid : ∀ buf ∈ bufs, buf.shape.Valid) (h : assemble junk bufs temp postBody = .ok body) :
    postBody <+: body := by
  induction bufs generalizing temp postBody with
  | nil =>
    cases h
    exact List.prefix_rfl
  | cons buf rest ih =>
    obtain ⟨hvalid₁,hvalid⟩ := List.forall_mem_cons.mp hvalid
    obtain ⟨temp',part,hrest,-,-⟩ := assemble_cons_ok hvalid₁ buf.seen_true (fun _ => trivial) (fun _ _ => trivial) h
    exact (List.prefix_append _ _).trans (ih hvalid hrest)

theorem assemble_suffix {before : List BodyBuf} (hvalid : ∀ buf ∈ before, buf.shape.Valid)
    (h : assemble junk (before ++ bufs) temp postBody = .ok body) :
    ∃ temp' postBody', assemble junk bufs temp' postBody' = .ok body := by
  induction before generalizing temp postBody with
  | nil => exact ⟨temp,postBody,h⟩
  | cons buf before ih =>
    obtain ⟨hvalid₁,hvalid⟩ := List.forall_mem_cons.mp hvalid
    obtain ⟨temp',part,hrest,-,-⟩ := assemble_cons_ok hvalid₁ buf.seen_true (fun _ => trivial) (fun _ _ => trivial) h
    exact ih hvalid hrest

/-- A body is at least as long as its buffers, and no longer just when those in files never get smaller. -/
theorem assemble_length (hvalid : ∀ buf ∈ bufs, buf.shape.Valid)
    (hsmall : ∀ buf ∈ bufs, ∀ size reads, buf.shape = .file size reads → size < 2 ^ 31)
    (h : assemble junk bufs temp postBody = .ok body) :
    postBody.length + (contents bufs).length ≤ body.length ∧
      (body.length = postBody.length + (contents bufs).length →
        (fileSizes (bufs.map (·.shape))).Pairwise (· ≤ ·) ∧
          ∀ size ∈ fileSizes (bufs.map (·.shape)), temp.length ≤ size) := by
  induction bufs generalizing temp postBody with
  | nil =>
    cases h
    exact ⟨le_rfl,fun _ => ⟨.nil,by simp [fileSizes]⟩⟩
  | cons buf rest ih =>
    obtain ⟨hvalid₁,hvalid⟩ := List.forall_mem_cons.mp hvalid
    obtain ⟨hsmall₁,hsmall⟩ := List.forall_mem_cons.mp hsmall
    have hcontents : (contents (buf :: rest)).length = buf.content.length + (contents rest).length := by
      rw [contents, List.flatMap_cons, List.length_append]
      rfl
    have hlen := buf.length_content
    rw [List.map_cons, hcontents]
    cases hshape : buf.shape with
    | memory size =>
      rw [assemble_memory hshape] at h
      rw [fileSizes_memory]
      have hrest := ih hvalid hsmall h
      rw [List.length_append] at hrest
      exact ⟨by omega,fun heq => hrest.2 (by omega)⟩
    | file size reads =>
      rw [hshape] at hlen
      have hsize : buf.content.length = size := hlen
      have hint : int32 size = size := int32_size (hsmall₁ size reads hshape)
      rcases Nat.eq_zero_or_pos size with rfl | hpos
      · rw [assemble_skip hshape (by decide)] at h
        rw [fileSizes_empty]
        have hrest := ih hvalid hsmall h
        exact ⟨by omega,fun heq => hrest.2 (by omega)⟩
      · obtain ⟨temp',k,-,htemp',-,h⟩ := assemble_file_ok hvalid₁ hshape (by omega) h
        have hrest := ih hvalid hsmall h
        rw [List.length_append] at hrest
        refine ⟨by omega,fun heq => ?_⟩
        obtain ⟨hsorted,hfits⟩ := hrest.2 (by omega)
        have hsame : temp'.length = size := by omega
        rw [hsame] at hfits
        rw [fileSizes_file hpos]
        refine ⟨List.pairwise_cons.mpr ⟨hfits,hsorted⟩,?_⟩
        intro n hn
        rcases List.mem_cons.mp hn with rfl | hn
        · omega
        · exact le_trans (by omega) (hfits n hn)

end Backward

/-- The body of a request is put together as its chain says, whatever the buffers hold. -/
def BodyAssembled (chain : List BufShape) : Prop :=
  ∀ junk bufs upstreamBufs bodyBufs, bufs.map (·.shape) = chain → upstreamBufs.or bodyBufs = some bufs →
    getPostBody junk true upstreamBufs bodyBufs = .ok (some (contents bufs))

/-- Each buffer in a file is read at once, and none is smaller than one before it. -/
structure WellRead (chain : List BufShape) : Prop where
  whole : ∀ size reads, .file size reads ∈ chain → 0 < size → size < 2 ^ 31 ∧ reads 0 = size
  sorted : (fileSizes chain).Pairwise (· ≤ ·)

section Shapes

variable {chain before after : List BufShape} {size : Nat} {reads : Nat → Nat}

theorem bodyAssembled_iff : BodyAssembled chain ↔
    ∀ junk bufs, bufs.map (·.shape) = chain → assemble junk bufs [] [] = .ok (contents bufs) := by
  constructor
  · intro h junk bufs hshapes
    have hbody := h junk bufs none (some bufs) hshapes rfl
    change (assemble junk bufs [] []).map some = _ at hbody
    cases hresult : assemble junk bufs [] [] with
    | error fault =>
      rw [hresult] at hbody
      cases hbody
    | ok body =>
      rw [hresult] at hbody
      cases hbody
      rfl
  · intro h junk bufs upstreamBufs bodyBufs hshapes hchain
    rw [getPostBody, if_neg (by decide), hchain]
    change (assemble junk bufs [] []).map some = _
    rw [h junk bufs hshapes]
    rfl

def BufShape.filled (shape : BufShape) : BodyBuf := ⟨shape,List.replicate shape.size 0,List.length_replicate⟩

def amid (before after : List BufShape) (buf : BodyBuf) : List BodyBuf :=
  before.map BufShape.filled ++ buf :: after.map BufShape.filled

theorem map_filled (chain : List BufShape) : (chain.map BufShape.filled).map (·.shape) = chain := by
  rw [List.map_map]
  exact List.map_id chain

theorem shapes_amid (before after : List BufShape) (buf : BodyBuf) :
    (amid before after buf).map (·.shape) = before ++ buf.shape :: after := by
  rw [amid, List.map_append, List.map_cons, map_filled, map_filled]

theorem mem_contents_filled {c : UInt8} (h : c ∈ contents (chain.map BufShape.filled)) : c = 0 := by
  obtain ⟨buf,hbuf,hc⟩ := List.mem_flatMap.mp h
  obtain ⟨shape,-,rfl⟩ := List.mem_map.mp hbuf
  exact List.eq_of_mem_replicate hc

theorem count_contents_amid (buf : BodyBuf) : (contents (amid before after buf)).count 1 = buf.content.count 1 := by
  have hzero (chain : List BufShape) : (contents (chain.map BufShape.filled)).count 1 = 0 :=
    List.count_eq_zero.mpr fun hmem => absurd (mem_contents_filled hmem) (by decide)
  have hsplit : contents (amid before after buf) = contents (before.map BufShape.filled) ++
      (buf.content ++ contents (after.map BufShape.filled)) := by
    rw [contents, amid, List.flatMap_append, List.flatMap_cons]
    rfl
  rw [hsplit, List.count_append, List.count_append, hzero, hzero, Nat.zero_add, Nat.add_zero]

theorem filled_seen (shape : BufShape) : shape.filled.Seen (· = 0) := by
  have hcontent : ∀ c ∈ shape.filled.content, c = 0 := fun c hc => List.eq_of_mem_replicate hc
  unfold BodyBuf.Seen
  split
  · exact hcontent
  · exact fun i c hc => hcontent c (List.mem_of_mem_take hc)

theorem valid_of_shapes {bufs : List BodyBuf} (hvalid : ∀ shape ∈ chain, shape.Valid)
    (h : bufs.map (·.shape) = chain) : ∀ buf ∈ bufs, buf.shape.Valid :=
  fun _ hbuf => hvalid _ (h ▸ List.mem_map_of_mem hbuf)

/-- Of a file of 2 GiB or more the last byte is never read. -/
theorem BodyAssembled.small (h : BodyAssembled (before ++ .file size reads :: after))
    (hvalid : ∀ shape ∈ before ++ .file size reads :: after, shape.Valid) (hpos : 0 < size) : size < 2 ^ 31 := by
  by_contra hlarge
  have hlen : (List.replicate (size - 1) (0 : UInt8) ++ [1]).length = size := by
    rw [List.length_append, List.length_replicate, List.length_singleton]
    omega
  let buf : BodyBuf := ⟨.file size reads,List.replicate (size - 1) 0 ++ [1],hlen⟩
  have hshapes := shapes_amid before after buf
  have hbody := bodyAssembled_iff.mp h (fun _ => 0) (amid before after buf) hshapes
  have hbuf : buf.Seen (· = 0) := by
    intro i c hc
    have hread := (hvalid (.file size reads) (by simp) hpos i).2.2
    change c ∈ (List.replicate (size - 1) (0 : UInt8) ++ [1]).take (reads i) at hc
    rw [List.take_append_of_le_length (by rw [List.length_replicate]; omega)] at hc
    exact List.eq_of_mem_replicate (List.mem_of_mem_take hc)
  have hseen : ∀ b ∈ amid before after buf, b.Seen (· = 0) := by
    intro b hb
    rw [amid, List.mem_append, List.mem_cons, List.mem_map, List.mem_map] at hb
    rcases hb with ⟨shape,-,rfl⟩ | rfl | ⟨shape,-,rfl⟩
    · exact filled_seen shape
    · exact hbuf
    · exact filled_seen shape
  have hzero := assemble_bytes (valid_of_shapes hvalid hshapes) hseen (fun _ => rfl) (by simp) (by simp) hbody
  have hcount : (contents (amid before after buf)).count 1 = 0 :=
    List.count_eq_zero.mpr fun hmem => absurd (hzero 1 hmem) (by decide)
  rw [count_contents_amid] at hcount
  simp [buf] at hcount

/-- A second read puts the first byte of the file into the body once more. -/
theorem BodyAssembled.whole (h : BodyAssembled (before ++ .file size reads :: after))
    (hvalid : ∀ shape ∈ before ++ .file size reads :: after, shape.Valid) (hpos : 0 < size) : reads 0 = size := by
  have hsmall := h.small hvalid hpos
  have hreads := hvalid (.file size reads) (by simp) hpos
  by_contra hshort
  have hless : reads 0 < size := lt_of_le_of_ne (hreads 0).2.1 hshort
  have hlen : ((1 : UInt8) :: List.replicate (size - 1) 0).length = size := by
    rw [List.length_cons, List.length_replicate]
    omega
  let buf : BodyBuf := ⟨.file size reads,1 :: List.replicate (size - 1) 0,hlen⟩
  have hshapes := shapes_amid before after buf
  have hbufs := valid_of_shapes hvalid hshapes
  have hbody := bodyAssembled_iff.mp h (fun _ => 0) (amid before after buf) hshapes
  obtain ⟨temp,postBody,hfile⟩ := assemble_suffix
    (fun b hb => hbufs b (List.mem_append_left _ hb)) hbody
  have hint : int32 size = size := int32_size hsmall
  obtain ⟨temp',k,htemp,-,⟨-,-,hk⟩,hrest⟩ := assemble_file_ok (hbufs buf (by simp [amid])) rfl (by omega) hfile
  have hprefix := assemble_prefix (fun b hb => hbufs b (List.mem_append_right _ (List.mem_cons_of_mem _ hb))) hrest
  -- The first two reads both begin with the first byte.
  have htwice : 2 ≤ temp'.count 1 := by
    obtain ⟨k,rfl⟩ : ∃ m, k = m + 2 := ⟨k - 2,by have := hk (by omega); omega⟩
    have hone (i : Nat) : 1 ≤ (buf.content.take (reads i)).count 1 := by
      obtain ⟨n,hn⟩ := Nat.exists_eq_add_of_lt (hreads i).1
      rw [hn, Nat.zero_add]
      exact List.count_pos_iff.mpr List.mem_cons_self
    have hzero := hone 0
    have hfirst := hone (0 + 1)
    rw [htemp, readBytes_succ, readBytes_succ, List.count_append, List.count_append, List.count_append]
    omega
  have hcount : temp'.count 1 ≤ (contents (amid before after buf)).count 1 :=
    ((List.sublist_append_right _ _).trans hprefix.sublist).count_le 1
  have honce : buf.content.count 1 = 1 := by
    change ((1 : UInt8) :: List.replicate (size - 1) 0).count 1 = 1
    rw [List.count_cons_self, List.count_eq_zero.mpr (by simp)]
  rw [count_contents_amid, honce] at hcount
  omega

/-- The buffers in files have to grow, or the body gets too long. -/
theorem BodyAssembled.sorted (h : BodyAssembled chain) (hvalid : ∀ shape ∈ chain, shape.Valid)
    (hsmall : ∀ size reads, .file size reads ∈ chain → size < 2 ^ 31) : (fileSizes chain).Pairwise (· ≤ ·) := by
  have hshapes := map_filled chain
  have hbody := bodyAssembled_iff.mp h (fun _ => 0) (chain.map BufShape.filled) hshapes
  have hbufs : ∀ buf ∈ chain.map BufShape.filled, ∀ size reads, buf.shape = .file size reads → size < 2 ^ 31 := by
    intro buf hbuf size reads hshape
    exact hsmall size reads (hshape ▸ hshapes ▸ List.mem_map_of_mem hbuf)
  have hlength := assemble_length (valid_of_shapes hvalid hshapes) hbufs hbody
  have hsorted := (hlength.2 (by rw [List.length_nil, Nat.zero_add])).1
  rwa [hshapes] at hsorted

end Shapes

/-- The bodies of just these chains are put together right. -/
theorem post_body_iff (chain : List BufShape) (hvalid : ∀ shape ∈ chain, shape.Valid) :
    BodyAssembled chain ↔ WellRead chain := by
  constructor
  · intro h
    have hwhole : ∀ size reads, .file size reads ∈ chain → 0 < size → size < 2 ^ 31 ∧ reads 0 = size := by
      intro size reads hmem hpos
      obtain ⟨before,after,rfl⟩ := List.append_of_mem hmem
      exact ⟨h.small hvalid hpos,h.whole hvalid hpos⟩
    refine ⟨hwhole,h.sorted hvalid fun size reads hmem => ?_⟩
    rcases Nat.eq_zero_or_pos size with rfl | hpos
    · decide
    · exact (hwhole size reads hmem hpos).1
  · intro h
    rw [bodyAssembled_iff]
    rintro junk bufs rfl
    refine assemble_wellRead (fun buf hbuf size reads hshape => ?_) h.sorted fun _ _ => Nat.zero_le _
    exact h.whole size reads (hshape ▸ List.mem_map_of_mem hbuf)

/-- A head in memory and a file that is read at once. -/
theorem post_body_one_file : (∀ shape ∈ [BufShape.memory 3,.file 5 fun _ => 5], shape.Valid) ∧
    BodyAssembled [.memory 3,.file 5 fun _ => 5] := by
  have hvalid : ∀ shape ∈ [BufShape.memory 3,.file 5 fun _ => 5], shape.Valid := by
    intro shape hshape
    simp only [List.mem_cons, List.not_mem_nil, or_false] at hshape
    rcases hshape with rfl | rfl
    · trivial
    · exact fun _ _ => ⟨Nat.succ_pos 4,le_rfl,by norm_num⟩
  refine ⟨hvalid,(post_body_iff [.memory 3,.file 5 fun _ => 5] hvalid).mpr ⟨?_,by decide⟩⟩
  intro size reads hmem _
  simp only [List.mem_cons, List.not_mem_nil, or_false, BufShape.file.injEq, reduceCtorEq, false_or] at hmem
  obtain ⟨rfl,rfl⟩ := hmem
  exact ⟨by decide,rfl⟩

/-- Of two files the second is smaller, and the end of the first comes again; a file that is read in two parts begins
anew with each; and a second part that is too long is written behind the end of the buffer. -/
theorem post_body_wrong :
    let file (s : String) (reads : Nat → Nat) : BodyBuf := ⟨.file (text s).length reads,text s,rfl⟩
    getPostBody (fun _ => 0) true none (some [file "abcd" fun _ => 4,file "ef" fun _ => 2]) =
      .ok (some (text "abcdefcd")) ∧
    getPostBody (fun _ => 0) true none (some [file "abcd" fun _ => 2]) = .ok (some (text "abab")) ∧
    getPostBody (fun _ => 0) true none (some [file "abcd" fun i => if i = 0 then 3 else 4]) =
      .error .overflow := by
  decide +kernel

end QkPack
