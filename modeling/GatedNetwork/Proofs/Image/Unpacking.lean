import Mathlib.Data.Option.Basic
import GatedNetwork.Proofs.Image.Taking

/-! What the two sizes in a frame are worth. The length field is kept to: a block has as many bytes as
it says, or nothing is read. The size field only bounds what the block may unpack to. A payload that
is longer is refused, but one that is shorter is returned as if its size had been announced. -/

namespace GatedNetwork

namespace Lz4

variable {limit room count fuel : Nat} {out out' : Array UInt8} {token : UInt8} {bs bs' : Bytes}
  {rest : Option Bytes} {payload : Bytes}

theorem size_copyNext (copied : copyNext out count bs = some (out', bs')) :
    out'.size = out.size + count := by
  induction count generalizing out bs with
  | zero =>
    cases copied
    rfl
  | succ count ih =>
    cases bs with
    | nil => cases copied
    | cons b bs =>
      have size_eq := ih copied
      rw [Array.size_push] at size_eq
      omega

theorem size_repeatBack (offset count : Nat) (out : Array UInt8) :
    (repeatBack offset count out).size = out.size + count := by
  induction count generalizing out with
  | zero => rfl
  | succ count ih =>
    rw [repeatBack, ih, Array.size_push]
    omega

/-- What a sequence makes of the output, and what follows it, if there is room for all of it. -/
inductive Extends (out : Array UInt8) (token : UInt8) (bs : Bytes) : Array UInt8 → Option Bytes → Prop
  | last {count : Nat} {literals : Bytes} {copied : Array UInt8} :
      readLength (token.toNat / 16) bs = some (count, literals) →
      copyNext out count literals = some (copied, []) → Extends out token bs copied none
  | more {count bits : Nat} {literals behind left : Bytes} {copied : Array UInt8} {low high : UInt8} :
      readLength (token.toNat / 16) bs = some (count, literals) →
      copyNext out count literals = some (copied, low :: high :: behind) →
      readLength (token.toNat % 16) behind = some (bits, left) →
      0 < low.toNat + 256 * high.toNat → low.toNat + 256 * high.toNat ≤ copied.size →
      Extends out token bs (repeatBack (low.toNat + 256 * high.toNat) (bits + 4) copied) (some left)

theorem Extends.size_le (ext : Extends out token bs out' rest) : out.size ≤ out'.size := by
  cases ext with
  | last _ copied =>
    rw [size_copyNext copied]
    exact Nat.le_add_right _ _
  | more _ copied =>
    rw [size_repeatBack, size_copyNext copied]
    omega

theorem sequence_eq_some_iff : sequence limit out token bs = some (out', rest) ↔
    Extends out token bs out' rest ∧ out'.size ≤ limit := by
  constructor
  · intro done
    rw [sequence] at done
    obtain ⟨⟨count, literals⟩, length_eq, done⟩ := Option.bind_eq_some_iff.mp done
    obtain ⟨_, fits, done⟩ := Option.bind_eq_some_iff.mp done
    obtain ⟨⟨out₁, behind⟩, copied, done⟩ := Option.bind_eq_some_iff.mp done
    have fits : out.size + count ≤ limit := (Option.guard_eq_some' _).mp fits
    match behind, done with
    | [], done =>
      cases done
      exact ⟨.last length_eq copied, le_of_eq_of_le (size_copyNext copied) fits⟩
    | low :: high :: behind, done =>
      obtain ⟨⟨bits, left⟩, bits_eq, done⟩ := Option.bind_eq_some_iff.mp done
      obtain ⟨_, room, done⟩ := Option.bind_eq_some_iff.mp done
      obtain ⟨pos, inside, room⟩ := (Option.guard_eq_some' _).mp room
      cases done
      exact ⟨.more length_eq copied bits_eq pos inside, le_of_eq_of_le (size_repeatBack _ _ _) room⟩
  · rintro ⟨ext, fits⟩
    have passes {p : Prop} [Decidable p] (holds : p) : (guard p : Option Unit) = some () :=
      (Option.guard_eq_some' _).mpr holds
    rw [sequence]
    cases ext with
    | last length_eq copied =>
      rw [size_copyNext copied] at fits
      exact Option.bind_eq_some_iff.mpr ⟨_, length_eq, Option.bind_eq_some_iff.mpr ⟨(), passes fits,
        Option.bind_eq_some_iff.mpr ⟨_, copied, rfl⟩⟩⟩
    | more length_eq copied bits_eq pos inside =>
      rw [size_repeatBack] at fits
      have first := Nat.le_trans (Nat.le_of_eq (size_copyNext copied).symm) (Nat.le_of_add_right_le fits)
      exact Option.bind_eq_some_iff.mpr ⟨_, length_eq, Option.bind_eq_some_iff.mpr ⟨(), passes first,
        Option.bind_eq_some_iff.mpr ⟨_, copied, Option.bind_eq_some_iff.mpr ⟨_, bits_eq,
          Option.bind_eq_some_iff.mpr ⟨(), passes ⟨pos, inside, fits⟩, rfl⟩⟩⟩⟩⟩

/-- The limit only bounds the output: where the output fits, it is the same under every limit. -/
theorem sequences_room (done : sequences limit fuel out bs = some out') :
    out.size ≤ out'.size ∧ out'.size ≤ limit ∧
      ∀ room, out'.size ≤ room → sequences room fuel out bs = some out' := by
  induction fuel generalizing out bs with
  | zero => cases done
  | succ fuel ih =>
    cases bs with
    | nil => cases done
    | cons token bs =>
      rw [sequences] at done
      cases step : sequence limit out token bs with
      | none =>
        rw [step] at done
        cases done
      | some result =>
        obtain ⟨out₁, rest⟩ := result
        rw [step] at done
        obtain ⟨ext, fits⟩ := sequence_eq_some_iff.mp step
        cases rest with
        | none =>
          cases done
          refine ⟨ext.size_le, fits, fun room enough => ?_⟩
          rw [sequences, sequence_eq_some_iff.mpr ⟨ext, enough⟩]
        | some left =>
          obtain ⟨grown, bounded, others⟩ := ih done
          refine ⟨Nat.le_trans ext.size_le grown, bounded, fun room enough => ?_⟩
          rw [sequences, sequence_eq_some_iff.mpr ⟨ext, Nat.le_trans grown enough⟩]
          exact others room enough

theorem decompress_room (done : decompress bs limit = .ok payload) :
    payload.length ≤ limit ∧ ∀ room, payload.length ≤ room → decompress bs room = .ok payload := by
  rw [decompress] at done
  cases ran : sequences limit bs.length #[] bs with
  | none =>
    rw [ran] at done
    cases done
  | some out =>
    rw [ran] at done
    cases done
    obtain ⟨-, fits, others⟩ := sequences_room ran
    rw [Array.length_toList]
    refine ⟨fits, fun room enough => ?_⟩
    rw [decompress, others room enough]

end Lz4

namespace Codec

open Image

/-- What a block unpacks to, if it is given room enough. -/
def Unpacks (codec : Codec) (block payload : Bytes) : Prop :=
  ∃ room, codec.decompress block room = .ok payload

/-- A block is unpacked exactly if the room that it is given holds all of what comes out. -/
structure Bounded (codec : Codec) : Prop where
  fits {block payload : Bytes} {room : Nat} :
    codec.decompress block room = .ok payload → payload.length ≤ room
  unpacks {block payload : Bytes} {room : Nat} :
    codec.Unpacks block payload → payload.length ≤ room → codec.decompress block room = .ok payload

/-- The size field announces more bytes than the block unpacks to. -/
def Overstated (codec : Codec) (bs : Bytes) : Prop :=
  ∃ payload, codec.Unpacks (compressedField bs) payload ∧ payload.length < sizeField bs

variable {codec : Codec} {bs block payload payload' left : Bytes} {c : Tag × Bytes} {room : Nat}

theorem Bounded.unpacks_unique (bounded : codec.Bounded) (unpacks : codec.Unpacks block payload)
    (unpacks' : codec.Unpacks block payload') : payload = payload' := by
  have done := bounded.unpacks unpacks (Nat.le_max_left payload.length payload'.length)
  have done' := bounded.unpacks unpacks' (Nat.le_max_right payload.length payload'.length)
  exact Except.ok.inj (done.symm.trans done')

theorem length_compressedField (whole : Whole bs) :
    (compressedField bs).length + 4 = lengthField bs := by
  have long := whole.long
  have body := whole.body
  rw [compressedField, List.length_take, List.length_drop]
  omega

theorem readChunk_some_iff (bounded : codec.Bounded) :
    codec.readChunk bs = .ok (some c, left) ↔
      Whole bs ∧ codec.Unpacks (compressedField bs) c.2 ∧ c.2.length ≤ sizeField bs ∧
        c.1 = tagField bs ∧ left = bs.drop (8 + lengthField bs) := by
  constructor
  · intro read
    have whole := (whole_of_readChunk read).1
    rw [readChunk_whole whole] at read
    cases done : codec.decompress (compressedField bs) (sizeField bs) with
    | error e =>
      rw [done] at read
      cases read
    | ok payload =>
      rw [done] at read
      cases read
      exact ⟨whole, ⟨_, done⟩, bounded.fits done, rfl, rfl⟩
  · obtain ⟨tag, payload⟩ := c
    rintro ⟨whole, unpacks, enough, rfl, rfl⟩
    rw [readChunk_whole whole, bounded.unpacks unpacks enough]
    rfl

/-- A chunk is read exactly if its frame is all there and its block unpacks to at most as many bytes
as the size field announces. The block then has as many bytes as the length field says, and the payload
has the announced size unless the block unpacks to fewer bytes, which is not noticed. A frame that is
not all there, one that announces less than its block unpacks to, and one whose block does not unpack
at all are faults. -/
theorem readChunk_sizes (bounded : codec.Bounded) (bs : Bytes) :
    (∀ c left, codec.readChunk bs = .ok (some c, left) ↔
      Whole bs ∧ codec.Unpacks (compressedField bs) c.2 ∧ c.2.length ≤ sizeField bs ∧
        c.1 = tagField bs ∧ left = bs.drop (8 + lengthField bs)) ∧
    (∀ c left, codec.readChunk bs = .ok (some c, left) →
      (compressedField bs).length + 4 = lengthField bs ∧
        (c.2.length = sizeField bs ↔ ¬ codec.Overstated bs)) ∧
    (8 ≤ bs.length →
      (¬ Whole bs ∨ ∀ payload, codec.Unpacks (compressedField bs) payload → sizeField bs < payload.length) →
      ∃ e, codec.readChunk bs = .error e) := by
  refine ⟨fun _ _ => readChunk_some_iff bounded, fun c left read => ?_, fun header wrong => ?_⟩
  · obtain ⟨whole, unpacks, enough, -⟩ := (readChunk_some_iff bounded).mp read
    refine ⟨length_compressedField whole, fun exact_size => ?_, fun not_overstated => ?_⟩
    · rintro ⟨payload, unpacks', fewer⟩
      rw [bounded.unpacks_unique unpacks' unpacks, exact_size] at fewer
      exact Nat.lt_irrefl _ fewer
    · refine Nat.le_antisymm enough (Nat.le_of_not_lt fun fewer => ?_)
      exact not_overstated ⟨c.2, unpacks, fewer⟩
  · refine readChunk_error_iff.mpr ⟨header, fun whole => ?_⟩
    cases done : codec.decompress (compressedField bs) (sizeField bs) with
    | error e => exact ⟨e, rfl⟩
    | ok payload =>
      rcases wrong with torn | understated
      · exact absurd whole torn
      · exact absurd (bounded.fits done) (Nat.not_le.mpr (understated payload ⟨_, done⟩))

end Codec

theorem Lz4.codec_bounded : codec.Bounded where
  fits done := (decompress_room done).1
  unpacks := fun ⟨_, done⟩ enough => (decompress_room done).2 _ enough

namespace Codec

open Image

def sized (size : UInt8) : Bytes := [83, 78, 65, 80, 10, 0, 0, 0, size, 0, 0, 0, 80] ++ ascii "hello"

theorem readChunk_sizes_hello :
    Lz4.codec.readChunk (sized 5) = .ok (some (snapshotTag, ascii "hello"), []) ∧
    (compressedField (sized 5)).length + 4 = lengthField (sized 5) ∧
    ¬ Lz4.codec.Overstated (sized 5) ∧ ∃ e, Lz4.codec.readChunk (sized 4) = .error e := by
  have read : Lz4.codec.readChunk (sized 5) = .ok (some (snapshotTag, ascii "hello"), []) := rfl
  have unpacked : Lz4.codec.Unpacks (compressedField (sized 4)) (ascii "hello") := ⟨5, rfl⟩
  obtain ⟨-, agree, -⟩ := readChunk_sizes Lz4.codec_bounded (sized 5)
  obtain ⟨-, -, fails⟩ := readChunk_sizes Lz4.codec_bounded (sized 4)
  obtain ⟨length_eq, exact_iff⟩ := agree _ _ read
  refine ⟨read, length_eq, exact_iff.mp rfl, fails (by decide) (.inr fun payload unpacks => ?_)⟩
  rw [Lz4.codec_bounded.unpacks_unique unpacks unpacked]
  decide

theorem readChunk_overstated :
    Lz4.codec.readChunk (sized 6) = .ok (some (snapshotTag, ascii "hello"), []) ∧
    sizeField (sized 6) = 6 ∧ (ascii "hello").length = 5 := ⟨rfl, rfl, rfl⟩

end Codec

end GatedNetwork
