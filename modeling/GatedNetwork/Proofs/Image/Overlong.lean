import Mathlib.Data.List.GetD
import GatedNetwork.Proofs.Image.Lz4
import GatedNetwork.Proofs.Image.Taking

/-! What is written for payloads of any size. The length field is cut at the largest number that four
bytes hold, so that the frame of a payload that hardly fits is longer than its length field says. The
reader then loses the end of the block, and a block that is cut short cannot be brought back up. -/

namespace GatedNetwork

namespace Lz4

variable {bs : Bytes} {n : Nat}

theorem copyNext_short (short : bs.length < n) (out : Array UInt8) : copyNext out n bs = none := by
  induction bs generalizing n out with
  | nil =>
    cases n with
    | zero => cases short
    | succ n => rfl
  | cons b bs ih =>
    cases n with
    | zero => cases short
    | succ n => exact ih (Nat.lt_of_succ_lt_succ short) _

theorem readMore_full (m n : Nat) : readMore n (List.replicate m 255) = none := by
  induction m generalizing n with
  | zero => rfl
  | succ m ih => exact ih (n + 255)

theorem readMore_torn {k m : Nat} (short : m < (moreBytes k).length) (n : Nat) :
    readMore n ((moreBytes k).take m) = none := by
  have count : m ≤ (List.replicate (k / 255) (255 : UInt8)).length := by
    rw [moreBytes, List.length_append, List.length_singleton] at short
    omega
  rw [moreBytes, List.take_append_of_le_length count, List.take_replicate]
  exact readMore_full _ n

theorem sequence_short {limit count : Nat} {token : UInt8} {block rest : Bytes}
    (length_eq : readLength (token.toNat / 16) block = some (count, rest)) (short : rest.length < count) :
    sequence limit #[] token block = none := by
  rw [sequence, length_eq]
  change (guard ((#[] : Array UInt8).size + count ≤ limit) : Option Unit).bind _ = _
  by_cases room : (#[] : Array UInt8).size + count ≤ limit
  · have passes : (guard ((#[] : Array UInt8).size + count ≤ limit) : Option Unit) = some () := if_pos room
    rw [passes]
    change (copyNext #[] count rest).bind _ = _
    rw [copyNext_short short]
    rfl
  · have stops : (guard ((#[] : Array UInt8).size + count ≤ limit) : Option Unit) = none := if_neg room
    rw [stops]
    rfl

theorem decompress_torn (short : n < (compress bs).length) (limit : Nat) :
    decompress ((compress bs).take n) limit = .error .undecodable := by
  cases n with
  | zero => rfl
  | succ n =>
    have fails (token : UInt8) (block : Bytes) (stuck : sequence limit #[] token block = none) :
        decompress (token :: block) limit = .error .undecodable := by
      rw [decompress, List.length_cons, sequences, stuck]
    rw [compress] at short ⊢
    split at short
    · rename_i few
      have bits : (UInt8.ofNat (16 * bs.length)).toNat / 16 = bs.length := by
        simp only [UInt8.toNat_ofNat']
        omega
      have length_eq : readLength ((UInt8.ofNat (16 * bs.length)).toNat / 16) (bs.take n) =
          some (bs.length, bs.take n) := by
        rw [bits, readLength, if_neg (Nat.ne_of_lt few)]
      rw [if_pos few, List.take_succ_cons]
      refine fails _ _ (sequence_short length_eq ?_)
      rw [List.length_cons] at short
      rw [List.length_take]
      omega
    · rename_i many
      have bits : (240 : UInt8).toNat / 16 = 15 := rfl
      rw [List.cons_append, List.length_cons, List.length_append] at short
      rw [if_neg many, List.cons_append, List.take_succ_cons, List.take_append]
      refine fails _ _ ?_
      by_cases early : n < (moreBytes (bs.length - 15)).length
      · have none_left : n - (moreBytes (bs.length - 15)).length = 0 := by omega
        rw [none_left, List.take_zero, List.append_nil, sequence, bits, readLength, if_pos rfl,
          readMore_torn early]
        rfl
      · have length_eq (rest : Bytes) : readLength ((240 : UInt8).toNat / 16)
            (moreBytes (bs.length - 15) ++ rest) = some (bs.length, rest) := by
          rw [bits, readLength, if_pos rfl, readMore_moreBytes]
          congr 2
          omega
        rw [List.take_of_length_le (Nat.not_lt.mp early)]
        refine sequence_short (length_eq _) ?_
        rw [List.length_take]
        omega

end Lz4

namespace Image

section Fields

variable {tag : Tag} {bytes : Bytes} {place : Nat}

theorem tagField_append (tag : Tag) (rest : Bytes) : tagField (tag.toList ++ rest) = tag := by
  have long : 4 ≤ (tag.toList ++ rest).length := by simp
  have read := (readBytes_four long).symm.trans (readBytes_append tag rest)
  simp only [Except.ok.injEq, Prod.mk.injEq] at read
  exact read.1

theorem numberAt_append {n : Nat} {front : Bytes} (front_length : front.length = place)
    (small : n ≤ largest) (rest : Bytes) : numberAt (front ++ (writeNat n ++ rest)) place = n := by
  have long : 4 ≤ (writeNat n ++ rest).length := by
    rw [List.length_append, length_writeNat]
    omega
  have read := (readNat_eq long).symm.trans (readNat_writeNat small rest)
  simp only [Except.ok.injEq, Prod.mk.injEq] at read
  have dropped := numberAt_drop (front ++ (writeNat n ++ rest)) place 0
  rw [← front_length, List.drop_left, read.1, front_length] at dropped
  exact dropped.symm

theorem tagField_append_left (long : 4 ≤ bytes.length) (rest : Bytes) :
    tagField (bytes ++ rest) = tagField bytes := by
  simp only [tagField]
  rw [List.getD_append _ _ _ _ (by omega), List.getD_append _ _ _ _ (by omega),
    List.getD_append _ _ _ _ (by omega), List.getD_append _ _ _ _ (by omega)]

theorem numberAt_append_left (long : place + 4 ≤ bytes.length) (rest : Bytes) :
    numberAt (bytes ++ rest) place = numberAt bytes place := by
  simp only [numberAt]
  rw [List.getD_append _ _ _ _ (by omega), List.getD_append _ _ _ _ (by omega),
    List.getD_append _ _ _ _ (by omega), List.getD_append _ _ _ _ (by omega)]

end Fields

/-- What the fields of a frame hold, and the block behind them. The length field does not hold the
length of what follows it if that does not fit. -/
structure Framed (tag : Tag) (size : Nat) (block bytes : Bytes) : Prop where
  tag_eq : tagField bytes = tag
  length_eq : lengthField bytes = min (4 + block.length) largest
  size_eq : sizeField bytes = size
  block_eq : bytes.drop 12 = block
  long : bytes.length = 8 + (4 + block.length)

theorem frame_cases (tag : Tag) (size : Nat) (block : Bytes) :
    frame tag size block = .error .chunkTooLarge ∧ (largest < size ∨ largest < block.length) ∨
    ∃ bytes, frame tag size block = .ok bytes ∧ (size ≤ largest ∧ block.length ≤ largest) ∧
      Framed tag size block bytes := by
  by_cases small : size ≤ largest ∧ block.length ≤ largest
  · refine .inr ⟨_, if_pos small, small, ?_⟩
    have cut := Nat.min_le_right (4 + block.length) largest
    have header_length : (tag.toList ++ writeNat (min (4 + block.length) largest)).length = 8 := by
      simp [length_writeNat]
    rw [List.append_assoc]
    refine ⟨?_, ?_, numberAt_append header_length small.1 block, ?_, ?_⟩
    · rw [List.append_assoc]
      exact tagField_append tag _
    · rw [List.append_assoc]
      exact numberAt_append tag.length_toList cut _
    · rw [← List.append_assoc]
      exact List.drop_left' (by rw [List.length_append, header_length, length_writeNat])
    · rw [List.length_append, header_length, List.length_append, length_writeNat]
  · refine .inl ⟨if_neg small, ?_⟩
    omega

end Image

namespace Codec

open Image

variable {codec : Codec} {tag : Tag} {size : Nat} {payload block bytes rest left : Bytes}
  {c : Tag × Bytes}

/-- The reader takes as much of the block as the length field says, and leaves the rest of it. -/
theorem readChunk_frame (codec : Codec) (framed : Framed tag size block bytes) (rest : Bytes) :
    codec.readChunk (bytes ++ rest) =
      (codec.decompress (block.take (lengthField bytes - 4)) size).map
        fun payload => (some (tag, payload), block.drop (lengthField bytes - 4) ++ rest) := by
  have long := framed.long
  have length_eq := framed.length_eq
  have same_length : lengthField (bytes ++ rest) = lengthField bytes :=
    numberAt_append_left (by omega) rest
  have same_size : sizeField (bytes ++ rest) = size :=
    (numberAt_append_left (by omega) rest).trans framed.size_eq
  have same_tag : tagField (bytes ++ rest) = tag :=
    (tagField_append_left (by omega) rest).trans framed.tag_eq
  have block_eq : (bytes ++ rest).drop 12 = block ++ rest := by
    rw [List.drop_append_of_le_length (by omega), framed.block_eq]
  have room : 4 ≤ lengthField bytes := by
    rw [length_eq, largest]
    omega
  have inside : lengthField bytes - 4 ≤ block.length := by omega
  have whole : Whole (bytes ++ rest) := by
    refine ⟨?_, same_length ▸ room, ?_⟩
    · rw [List.length_append]
      omega
    · rw [same_length, List.length_append]
      omega
  have taken : compressedField (bytes ++ rest) = block.take (lengthField bytes - 4) := by
    rw [compressedField, block_eq, same_length, List.take_append_of_le_length inside]
  have left : (bytes ++ rest).drop (8 + lengthField bytes) =
      block.drop (lengthField bytes - 4) ++ rest := by
    have place : 8 + lengthField bytes = 12 + (lengthField bytes - 4) := by omega
    rw [place, ← List.drop_drop, block_eq, List.drop_append_of_le_length inside]
  rw [readChunk_whole whole, taken, same_length, left, same_size, same_tag]

theorem readChunk_overlong (framed : Framed tag size block bytes) (overlong : largest < 4 + block.length)
    (read : codec.readChunk (bytes ++ rest) = .ok (some c, left)) :
    ∃ lost, lost ≠ [] ∧ left = lost ++ rest := by
  rw [codec.readChunk_frame framed] at read
  refine ⟨block.drop (lengthField bytes - 4), ?_, ?_⟩
  · have length_eq := framed.length_eq
    rw [ne_eq, List.drop_eq_nil_iff, length_eq, Nat.min_eq_right (Nat.le_of_lt overlong), largest]
    rw [largest] at overlong
    omega
  · obtain ⟨payload, -, found⟩ := exists_of_map_ok read
    exact (Prod.mk.inj found).2

/-- A payload is refused exactly if it or its block is too long for a number of four bytes. If not,
a frame is written whose size field holds the length of the payload. Its length field holds the length
of what follows, and the payload is read back, exactly if four bytes more than the block still fit; if
they do not, the reader leaves the end of the block. -/
theorem chunk_readable_iff (inverts : codec.Inverts) (tag : Tag) (payload : Bytes) :
    codec.chunk tag payload = .error .chunkTooLarge ∧
      (largest < payload.length ∨ largest < (codec.compress payload).length) ∨
    ∃ bytes, codec.chunk tag payload = .ok bytes ∧
      (payload.length ≤ largest ∧ (codec.compress payload).length ≤ largest) ∧
      sizeField bytes = payload.length ∧
      (lengthField bytes = (bytes.drop 8).length ↔ codec.Fits payload) ∧
      ((∀ rest, codec.readChunk (bytes ++ rest) = .ok (some (tag, payload), rest)) ↔
        codec.Fits payload) ∧
      (¬ codec.Fits payload → ∀ rest c left, codec.readChunk (bytes ++ rest) = .ok (some c, left) →
        ∃ lost, lost ≠ [] ∧ left = lost ++ rest) := by
  rcases frame_cases tag payload.length (codec.compress payload) with
    refused | ⟨bytes, written, small, framed⟩
  · exact .inl refused
  · have fits_iff : codec.Fits payload ↔ 4 + (codec.compress payload).length ≤ largest :=
      ⟨fun fits => fits.length, fun fits => ⟨small.1, fits⟩⟩
    have length_eq := framed.length_eq
    have leaves (overlong : ¬ codec.Fits payload) (rest : Bytes) (c : Tag × Bytes) (left : Bytes)
        (read : codec.readChunk (bytes ++ rest) = .ok (some c, left)) :
        ∃ lost, lost ≠ [] ∧ left = lost ++ rest :=
      readChunk_overlong framed (Nat.not_le.mp (mt fits_iff.mpr overlong)) read
    refine .inr ⟨bytes, written, small, framed.size_eq, ?_, ⟨fun reads => ?_, fun fits rest => ?_⟩,
      leaves⟩
    · rw [fits_iff, List.length_drop, framed.long, length_eq]
      omega
    · refine Classical.byContradiction fun overlong => ?_
      obtain ⟨lost, isLost, nothing⟩ := leaves overlong _ _ _ (reads [])
      rw [List.append_nil] at nothing
      exact isLost nothing.symm
    · have all_taken : lengthField bytes - 4 = (codec.compress payload).length := by
        have := fits.length
        omega
      rw [codec.readChunk_frame framed, all_taken, List.take_length, List.drop_length, inverts payload]
      rfl

theorem chunk_readable_hello : ∃ bytes, Lz4.codec.chunk snapshotTag (ascii "hello") = .ok bytes ∧
    lengthField bytes = (bytes.drop 8).length ∧
    ∀ rest, Lz4.codec.readChunk (bytes ++ rest) = .ok (some (snapshotTag, ascii "hello"), rest) := by
  have fits : Lz4.codec.Fits (ascii "hello") := ⟨by decide, by decide⟩
  rcases chunk_readable_iff Lz4.codec_inverts snapshotTag (ascii "hello") with
    ⟨-, large | large⟩ | ⟨bytes, written, -, -, length_iff, read_iff, -⟩
  · exact absurd fits.size (Nat.not_le.mpr large)
  · exact absurd fits.length (Nat.not_le.mpr (Nat.lt_of_lt_of_le large (Nat.le_add_left _ _)))
  · exact ⟨bytes, written, length_iff.mpr fits, read_iff.mpr fits⟩

end Codec

namespace Lz4

open Image

variable {tag : Tag} {payload bytes : Bytes}

theorem length_compress (many : 15 ≤ payload.length) :
    (compress payload).length = 2 + (payload.length - 15) / 255 + payload.length := by
  rw [compress, if_neg (Nat.not_lt.mpr many), moreBytes]
  simp only [List.cons_append, List.length_cons, List.length_append, List.length_replicate,
    List.length_nil]
  omega

theorem readChunk_undecodable (framed : Framed tag payload.length (compress payload) bytes)
    (overlong : largest < 4 + (compress payload).length) (rest : Bytes) :
    codec.readChunk (bytes ++ rest) = .error .undecodable := by
  have torn : lengthField bytes - 4 < (compress payload).length := by
    have length_eq := framed.length_eq
    rw [largest] at length_eq overlong
    omega
  rw [codec.readChunk_frame framed]
  exact congrArg (Except.map _) (decompress_torn torn payload.length)

/-- A payload of so many bytes is written, but what follows the length field has one byte more than
it says, and the frame cannot be read. -/
theorem chunk_unreadable : ∃ bytes, codec.chunk snapshotTag (List.replicate 4278190075 0) = .ok bytes ∧
    sizeField bytes = 4278190075 ∧ lengthField bytes = 0xffffffff ∧
    (bytes.drop 8).length = 0x100000000 ∧ ∀ rest, codec.readChunk (bytes ++ rest) = .error .undecodable := by
  have count : (List.replicate 4278190075 (0 : UInt8)).length = 4278190075 := List.length_replicate
  generalize List.replicate 4278190075 (0 : UInt8) = payload at count ⊢
  have length_eq : (compress payload).length = 0xfffffffc := by
    rw [length_compress (by omega), count]
  rcases frame_cases snapshotTag payload.length (compress payload) with
    ⟨-, large⟩ | ⟨bytes, written, -, framed⟩
  · rw [largest] at large
    omega
  · have announced := framed.length_eq
    rw [length_eq] at announced
    have behind : (bytes.drop 8).length = 0x100000000 := by
      rw [List.length_drop, framed.long, length_eq]
    exact ⟨bytes, written, framed.size_eq.trans count, announced, behind,
      readChunk_undecodable framed (by rw [length_eq]; decide)⟩

end Lz4

end GatedNetwork
