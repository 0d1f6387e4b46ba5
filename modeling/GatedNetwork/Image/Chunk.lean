import GatedNetwork.Image.Lz4

/-! The frame of stored networks: a header, then chunks with a tag, a length and compressed
bytes. Numbers are written in four bytes, the lowest first. How payloads are compressed is
left open; stored networks use LZ4. -/

namespace GatedNetwork

abbrev Tag := Vector UInt8 4

/-- How payloads are compressed, and brought back up to an announced size. -/
structure Codec where
  compress : Bytes → Bytes
  decompress : Bytes → Nat → Except ImageFault Bytes

def Lz4.codec : Codec := ⟨Lz4.compress, Lz4.decompress⟩

abbrev ByteReader := StateT Bytes (Except ImageFault)

namespace Image

def magic : Vector UInt8 8 := #v[71, 65, 84, 69, 78, 69, 84, 49]

def version : Nat := 1

def snapshotTag : Tag := #v[83, 78, 65, 80]

def largest : Nat := 0xffffffff

def writeNat (n : Nat) : Bytes :=
  [UInt8.ofNat n, UInt8.ofNat (n / 0x100), UInt8.ofNat (n / 0x10000), UInt8.ofNat (n / 0x1000000)]

def readBytes (n : Nat) : ByteReader (Vector UInt8 n) := fun bs =>
  if h : n ≤ bs.length then
    .ok (⟨(bs.take n).toArray, by simp [h]⟩, bs.drop n)
  else
    .error .shortRead

def readNat : ByteReader Nat := do
  let b ← readBytes 4
  return b[0].toNat + 0x100 * b[1].toNat + 0x10000 * b[2].toNat + 0x1000000 * b[3].toNat

def header : Bytes := magic.toList ++ writeNat version

def readHeader : ByteReader Nat := do
  let m ← readBytes 8
  if m ≠ magic then
    throw .badMagic
  let v ← readNat
  if v ≠ version then
    throw .unsupportedVersion
  return v

/-- A chunk around bytes that are compressed already. The length of what follows the
length field is cut at the largest number that fits it. -/
def frame (tag : Tag) (size : Nat) (compressed : Bytes) : Except ImageFault Bytes :=
  if size ≤ largest ∧ compressed.length ≤ largest then
    .ok (tag.toList ++ writeNat (min (4 + compressed.length) largest) ++ writeNat size ++ compressed)
  else
    .error .chunkTooLarge

def readChunkHeader : ByteReader (Tag × Nat) :=
  return (← readBytes 4, ← readNat)

end Image

namespace Codec

def chunk (codec : Codec) (tag : Tag) (payload : Bytes) : Except ImageFault Bytes :=
  Image.frame tag payload.length (codec.compress payload)

def readChunkBody (codec : Codec) (len : Nat) : ByteReader Bytes := do
  if len < 4 then
    throw .shortRead
  let size ← Image.readNat
  let bs ← get
  let compressed := bs.take (len - 4)
  if compressed.length < len - 4 then
    throw .truncatedChunk
  set (bs.drop (len - 4))
  codec.decompress compressed size

/-- The next chunk; none where the bytes end within a chunk header. -/
def readChunk (codec : Codec) : ByteReader (Option (Tag × Bytes)) := fun bs =>
  match Image.readChunkHeader bs with
  | .ok ((tag, len), bs) =>
    (codec.readChunkBody len bs).map fun (payload, bs) => (some (tag, payload), bs)
  | .error .shortRead => .ok (none, [])
  | .error e => .error e

end Codec

namespace Image

def chunk (tag : Tag) (payload : Bytes) : Except ImageFault Bytes := Lz4.codec.chunk tag payload

def readChunk : ByteReader (Option (Tag × Bytes)) := Lz4.codec.readChunk

end Image

end GatedNetwork
