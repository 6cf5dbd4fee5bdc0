import QkPack.Lib.CString

/-!
# The snappy stream format

`oSnappyStreambuf` cuts a value into chunks and writes each as a block, compressed or not;
`iSnappyStreambuf` reads the blocks back. The block compressor itself is the snappy library.
-/

namespace QkPack
open Wire CString

/-- The functions of the snappy library that the streams call, on the chunks they call them with. -/
structure SnappyLib where
  compress : Bytes → Bytes
  getUncompressedLength : Bytes → Option Nat
  rawUncompress : Bytes → Option Bytes
  rawUncompress_compress : ∀ s, s ≠ [] → s.length ≤ 32768 → rawUncompress (compress s) = some s
  length_compress : ∀ s, s ≠ [] → s.length ≤ 32768 →
    getUncompressedLength (compress s) = some s.length
  compress_ne_nil : ∀ s, s ≠ [] → compress s ≠ []

/-- An entry of the table `T8_0` of the reflected polynomial `82F63B78`. -/
def crcEntry (i : UInt32) : UInt32 :=
  (List.range 8).foldl (fun c _ => (c >>> 1) ^^^ (if c &&& 1 = 1 then 0x82F63B78 else 0)) i

/-- An entry of the table `T8_k`; each table is the one before it, moved on by a zero byte. -/
def crcTable : Nat → UInt32 → UInt32
  | 0, i => crcEntry i
  | k + 1, i => (crcTable k i >>> 8) ^^^ crcEntry (crcTable k i &&& 0xff)

/-- The loop of `crc32c_masked`: eight bytes at a time, then the rest one by one. -/
def crcLoop (crc : UInt32) : Bytes → UInt32
  | d0 :: d1 :: d2 :: d3 :: d4 :: d5 :: d6 :: d7 :: data =>
    let c0 := d0.toUInt32 ^^^ crc
    let c1 := d1.toUInt32 ^^^ (crc >>> 8)
    let c2 := d2.toUInt32 ^^^ (crc >>> 16)
    let c3 := d3.toUInt32 ^^^ (crc >>> 24)
    let low := (crcTable 7 (c0 &&& 0xff) ^^^ crcTable 6 (c1 &&& 0xff)) ^^^
      (crcTable 5 (c2 &&& 0xff) ^^^ crcTable 4 (c3 &&& 0xff))
    let high := (crcTable 3 d4.toUInt32 ^^^ crcTable 2 d5.toUInt32) ^^^
      (crcTable 1 d6.toUInt32 ^^^ crcTable 0 d7.toUInt32)
    crcLoop (low ^^^ high) data
  | d :: data => crcLoop ((crc >>> 8) ^^^ crcTable 0 ((crc ^^^ d.toUInt32) &&& 0xff)) data
  | [] => crc

def crc32cMasked (data : Bytes) : UInt32 :=
  let crc := ~~~ crcLoop 0xffffffff data
  ((crc >>> 15) ||| (crc <<< 17)) + 0xa282ead8

/-- `Config::magic`. -/
def magic : Bytes := text "snappy" ++ [0]

/-- `Config::defaultChunkSize`. -/
def chunkSize : Nat := 32768

def be16 (n : Nat) : Bytes := [UInt8.ofNat (n / 256),UInt8.ofNat n]

def be32 (x : UInt32) : Bytes :=
  [(x >>> 24).toUInt8,(x >>> 16).toUInt8,(x >>> 8).toUInt8,x.toUInt8]

def writeBlock (data : Bytes) (compressed : Bool) (cksum : UInt32) : Bytes :=
  (if compressed then 1 else 0) :: (be16 data.length ++ (be32 cksum ++ data))

/-- The block for a chunk: uncompressed when compression saves less than an eighth. -/
def blockOf (lib : SnappyLib) (s : Bytes) : Bytes :=
  let compressed := lib.compress s
  if compressed.length ≥ s.length - s.length / 8 then writeBlock s false (crc32cMasked s)
  else writeBlock compressed true (crc32cMasked s)

/-- `oSnappyStreambuf`: the characters in the buffer and what has been written. -/
structure OStream where
  pending : Bytes
  dest : Bytes

def OStream.sync (lib : SnappyLib) (o : OStream) : OStream :=
  if o.pending = [] then o else ⟨[],o.dest ++ blockOf lib o.pending⟩

/-- A character goes to the buffer; when only the last place is left, `overflow` puts it there and
writes the chunk. -/
def OStream.put (lib : SnappyLib) (o : OStream) (c : UInt8) : OStream :=
  if o.pending.length < chunkSize - 1 then ⟨o.pending ++ [c],o.dest⟩
  else OStream.sync lib ⟨o.pending ++ [c],o.dest⟩

/-- `SnappyCompress::Compress`; the value passes through `c_str`. -/
def snappyCompress (lib : SnappyLib) (src : Bytes) : Bytes :=
  (((cStr src).foldl (OStream.put lib) ⟨[],magic⟩).sync lib).dest

/-- `GetUncompressedLength` and `RawUncompress` of a block; a length of zero ends the stream. -/
def uncompressBlock (lib : SnappyLib) (block : Bytes) : Option Bytes :=
  match lib.getUncompressedLength block with
  | some (_ + 1) => lib.rawUncompress block
  | _ => none

/-- `iSnappyStreambuf::underflow`: the next chunk and what is left of the source, `none` at the end
or at a malformed block. A second magic number may stand before a block. -/
def underflow (lib : SnappyLib) (src : Bytes) : Option (Bytes × Bytes) :=
  if (src.take 7).length ≠ 7 then none
  else
    let src := if src.take 7 = magic then src.drop 7 else src
    match src with
    | flag :: hi :: lo :: _ :: _ :: _ :: _ :: src =>
      let len := hi.toNat * 256 + lo.toNat
      if len = 0 ∨ len > chunkSize ∨ (src.take len).length ≠ len then none
      else if flag ≠ 0 then
        (uncompressBlock lib (src.take len)).map fun out => (out,src.drop len)
      else some (src.take len,src.drop len)
    | _ => none

/-- `ss << isnstrm.rdbuf()`: chunk after chunk until the end. -/
def drain (lib : SnappyLib) : Nat → Bytes → Bytes
  | 0, _ => []
  | fuel + 1, src =>
    match underflow lib src with
    | none => []
    | some (out,src) => out ++ drain lib fuel src

/-- The exception of the constructor of `iSnappyStreambuf`. -/
inductive BadMagic where
  | badMagic
deriving DecidableEq

/-- `SnappyCompress::Uncompress`. The constructor compares a local buffer of seven bytes, of which
only as many have been read as the source has; `stack` is what the buffer held before. -/
def snappyUncompress (lib : SnappyLib) (stack src : Bytes) : Except BadMagic (Option Bytes) :=
  if src.take 7 ++ (stack.take 7).drop (src.take 7).length ≠ magic then .error .badMagic
  else
    let out := drain lib src.length (src.drop 7)
    .ok (if out = [] then none else some out)

/-- `SnappyCompress::IsValidCompressed`: `memcmp` on `c_str`, behind which stands a NUL. -/
def isValidCompressed (src : Bytes) : Bool := (src ++ List.replicate 7 0).take 7 == magic

example : crc32cMasked (text "123456789") = 0xC78AB0E5 := by decide

end QkPack
