import GatedNetwork.Proofs.Image.Framing

/-! A block with a single sequence is read back as what it copies. -/

namespace GatedNetwork.Lz4

theorem readMore_moreBytes (n k : Nat) (rest : Bytes) :
    readMore n (moreBytes k ++ rest) = some (n + k, rest) := by
  have last : (UInt8.ofNat (k % 255)).toNat = k % 255 := by
    simp only [UInt8.toNat_ofNat']
    omega
  have notFull : UInt8.ofNat (k % 255) ≠ 255 := fun full => by
    have := congrArg UInt8.toNat full
    rw [last] at this
    have : k % 255 = 255 := this
    omega
  have full (m n : Nat) : readMore n (List.replicate m 255 ++ [UInt8.ofNat (k % 255)] ++ rest) =
      some (n + 255 * m + k % 255, rest) := by
    induction m generalizing n with
    | zero =>
      have step : readMore n (UInt8.ofNat (k % 255) :: rest) =
          some (n + (UInt8.ofNat (k % 255)).toNat, rest) := if_neg notFull
      rw [last] at step
      exact step
    | succ m ih =>
      rw [List.replicate_succ, List.cons_append, List.cons_append, readMore, if_pos rfl, ih]
      congr 2
      omega
  rw [moreBytes, full]
  congr 2
  omega

theorem copyNext_length (out : Array UInt8) (bs : Bytes) :
    copyNext out bs.length bs = some (out ++ bs.toArray, []) := by
  induction bs generalizing out with
  | nil => simp [copyNext]
  | cons b bs ih =>
    rw [List.length_cons, copyNext, ih]
    congr 2
    simp

theorem sequence_copy {token : UInt8} {more bs : Bytes}
    (length_eq : readLength (token.toNat / 16) (more ++ bs) = some (bs.length, bs)) :
    sequence bs.length #[] token (more ++ bs) = some (bs.toArray, none) := by
  have room : (#[] : Array UInt8).size + bs.length ≤ bs.length := by simp
  have passes : (guard ((#[] : Array UInt8).size + bs.length ≤ bs.length) : Option Unit) = some () :=
    if_pos room
  rw [sequence, length_eq]
  change (guard ((#[] : Array UInt8).size + bs.length ≤ bs.length) : Option Unit).bind _ = _
  rw [passes]
  change (copyNext #[] bs.length bs).bind _ = _
  rw [copyNext_length, Array.empty_append]
  rfl

theorem codec_inverts : codec.Inverts := by
  intro bs
  have read (token : UInt8) (more : Bytes)
      (length_eq : readLength (token.toNat / 16) (more ++ bs) = some (bs.length, bs)) :
      decompress (token :: (more ++ bs)) bs.length = .ok bs := by
    rw [decompress, List.length_cons, sequences, sequence_copy length_eq]
  change decompress (compress bs) bs.length = .ok bs
  rw [compress]
  split
  · rename_i short
    have bits : (UInt8.ofNat (16 * bs.length)).toNat / 16 = bs.length := by
      simp only [UInt8.toNat_ofNat']
      omega
    refine read _ [] ?_
    rw [bits, readLength, if_neg (Nat.ne_of_lt short), List.nil_append]
  · rename_i long
    refine read 240 (moreBytes (bs.length - 15)) ?_
    have bits : (240 : UInt8).toNat / 16 = 15 := rfl
    rw [bits, readLength, if_pos rfl, readMore_moreBytes]
    congr 2
    omega

end GatedNetwork.Lz4
