import GatedNetwork.Codec.Snapshot
import GatedNetwork.Image.Chunk

/-! Stored networks: a header and one chunk with the JSON form of a snapshot. A reader
passes over chunks with other tags. -/

namespace GatedNetwork

def Image.ofFault {α : Type} : Except ImageFault α → Except NetworkError α
  | .ok a => .ok a
  | .error e => .error (.image e)

namespace Codec

/-- The payload of the first chunk with a tag. Every chunk takes at least one byte, so
`fuel` is at most the number of bytes. -/
def findChunk (codec : Codec) (tag : Tag) : Nat → Bytes → Except ImageFault (Option Bytes)
  | 0, _ => .ok none
  | fuel + 1, bs =>
    match codec.readChunk bs with
    | .error e => .error e
    | .ok (none, _) => .ok none
    | .ok (some (t, payload), bs) =>
      if t = tag then .ok (some payload) else codec.findChunk tag fuel bs

def image (codec : Codec) (s : Snapshot) : Except NetworkError Bytes :=
  Image.ofFault do
    return Image.header ++ (← codec.chunk Image.snapshotTag s.toJson)

def ofImage (codec : Codec) (bs : Bytes) : Except NetworkError Snapshot := do
  let (_, bs) ← Image.ofFault (Image.readHeader bs)
  match ← Image.ofFault (codec.findChunk Image.snapshotTag (bs.length + 1) bs) with
  | some payload => Snapshot.ofJson payload
  | none => throw (.invalidSnapshot .noSnapshotChunk)

end Codec

namespace Snapshot

def toImage (s : Snapshot) : Except NetworkError Bytes := Lz4.codec.image s

def ofImage (bs : Bytes) : Except NetworkError Snapshot := Lz4.codec.ofImage bs

end Snapshot

end GatedNetwork
