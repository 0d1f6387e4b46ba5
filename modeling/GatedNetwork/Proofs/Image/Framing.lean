import GatedNetwork.Image.Basic

/-! Reading what was framed. Each reader takes from the front exactly what was written there,
whatever follows, and reports where the bytes end too early. -/

namespace GatedNetwork

namespace Image

section Readers

variable {α β : Type} {bs rest : Bytes}

theorem bind_of_read {r : ByteReader α} {f : α → ByteReader β} {x : α} (h : r bs = .ok (x, rest)) :
    (r >>= f) bs = f x rest := by
  have bind_eq : (r >>= f) bs = r bs >>= fun p => f p.1 p.2 := rfl
  rw [bind_eq, h]
  rfl

theorem bind_of_fault {r : ByteReader α} {f : α → ByteReader β} {e : ImageFault}
    (h : r bs = .error e) : (r >>= f) bs = .error e := by
  have bind_eq : (r >>= f) bs = r bs >>= fun p => f p.1 p.2 := rfl
  rw [bind_eq, h]
  rfl

theorem readBytes_append {n : Nat} (v : Vector UInt8 n) (rest : Bytes) :
    readBytes n (v.toList ++ rest) = .ok (v, rest) := by
  have long : n ≤ (v.toList ++ rest).length := by simp
  have taken : (v.toList ++ rest).take n = v.toList := by simp
  have left : (v.toList ++ rest).drop n = rest := by simp
  simp only [readBytes, dif_pos long, taken, left]
  rfl

theorem readBytes_short {n : Nat} (short : bs.length < n) : readBytes n bs = .error .shortRead :=
  dif_neg (Nat.not_le_of_lt short)

theorem length_writeNat (n : Nat) : (writeNat n).length = 4 := rfl

theorem readNat_writeNat {n : Nat} (small : n ≤ largest) (rest : Bytes) :
    readNat (writeNat n ++ rest) = .ok (n, rest) := by
  have written : writeNat n ++ rest = (#v[UInt8.ofNat n, UInt8.ofNat (n / 0x100),
      UInt8.ofNat (n / 0x10000), UInt8.ofNat (n / 0x1000000)] : Vector UInt8 4).toList ++ rest := rfl
  have small : n ≤ 0xffffffff := small
  rw [readNat, bind_of_read (written ▸ readBytes_append _ rest)]
  have value : (UInt8.ofNat n).toNat + 0x100 * (UInt8.ofNat (n / 0x100)).toNat +
      0x10000 * (UInt8.ofNat (n / 0x10000)).toNat +
      0x1000000 * (UInt8.ofNat (n / 0x1000000)).toNat = n := by
    simp only [UInt8.toNat_ofNat']
    omega
  exact congrArg (fun n => Except.ok (n, rest)) value

theorem readNat_short (short : bs.length < 4) : readNat bs = .error .shortRead :=
  bind_of_fault (readBytes_short short)

theorem readHeader_header (rest : Bytes) : readHeader (header ++ rest) = .ok (version, rest) := by
  rw [header, List.append_assoc, readHeader, bind_of_read (readBytes_append magic _),
    if_neg (not_not_intro rfl)]
  exact bind_of_read (readNat_writeNat (by decide) rest)

theorem readChunkHeader_append (tag : Tag) {len : Nat} (small : len ≤ largest) (rest : Bytes) :
    readChunkHeader (tag.toList ++ writeNat len ++ rest) = .ok ((tag, len), rest) := by
  rw [List.append_assoc, readChunkHeader, bind_of_read (readBytes_append tag _),
    bind_of_read (readNat_writeNat small rest)]
  rfl

theorem readChunkHeader_short (short : bs.length < 8) : readChunkHeader bs = .error .shortRead := by
  rw [readChunkHeader]
  by_cases few : bs.length < 4
  · exact bind_of_fault (readBytes_short few)
  · have taken : (⟨(bs.take 4).toArray, by simp; omega⟩ : Tag).toList ++ bs.drop 4 = bs := by simp
    rw [← taken, bind_of_read (readBytes_append _ _)]
    exact bind_of_fault (readNat_short (by simp; omega))

end Readers

end Image

namespace Codec

open Image

variable {codec : Codec} {tag : Tag} {payload rest : Bytes}

/-- Payloads come back as they were. -/
def Inverts (codec : Codec) : Prop :=
  ∀ payload, codec.decompress (codec.compress payload) payload.length = .ok payload

/-- The frame of the payload fits the four bytes of its length fields. -/
structure Fits (codec : Codec) (payload : Bytes) : Prop where
  size : payload.length ≤ largest
  length : 4 + (codec.compress payload).length ≤ largest

def framed (codec : Codec) (tag : Tag) (payload : Bytes) : Bytes :=
  tag.toList ++ writeNat (4 + (codec.compress payload).length) ++
    (writeNat payload.length ++ codec.compress payload)

theorem Fits.chunk_eq (fits : codec.Fits payload) :
    codec.chunk tag payload = .ok (codec.framed tag payload) := by
  have small : (codec.compress payload).length ≤ largest := Nat.le_of_add_left_le fits.length
  rw [chunk, frame, if_pos ⟨fits.size, small⟩, Nat.min_eq_left fits.length, framed]
  simp only [List.append_assoc]

theorem length_framed : (codec.framed tag payload).length = 12 + (codec.compress payload).length := by
  simp only [framed, List.length_append, Vector.length_toList, length_writeNat]
  omega

theorem readChunkBody_framed (inverts : codec.Inverts) (fits : codec.Fits payload) (rest : Bytes) :
    codec.readChunkBody (4 + (codec.compress payload).length)
        (writeNat payload.length ++ codec.compress payload ++ rest) = .ok (payload, rest) := by
  have long : ¬ 4 + (codec.compress payload).length < 4 := by omega
  have size_eq : 4 + (codec.compress payload).length - 4 = (codec.compress payload).length := by omega
  rw [readChunkBody, if_neg long, List.append_assoc, size_eq]
  refine (bind_of_read (readNat_writeNat fits.size _)).trans ?_
  refine (bind_of_read (r := get) rfl).trans ?_
  rw [List.take_left, List.drop_left, if_neg (Nat.lt_irrefl _)]
  exact congrArg (Except.map fun payload => (payload, rest)) (inverts payload)

theorem readChunk_framed (inverts : codec.Inverts) (fits : codec.Fits payload) (rest : Bytes) :
    codec.readChunk (codec.framed tag payload ++ rest) = .ok (some (tag, payload), rest) := by
  have header_eq := readChunkHeader_append tag fits.length
    (writeNat payload.length ++ codec.compress payload ++ rest)
  rw [readChunk, framed, List.append_assoc, header_eq]
  exact congrArg (Except.map fun p => (some (tag, p.1), p.2)) (readChunkBody_framed inverts fits rest)

theorem readChunk_short (short : rest.length < 8) : codec.readChunk rest = .ok (none, []) := by
  rw [readChunk, readChunkHeader_short short]

end Codec

end GatedNetwork
