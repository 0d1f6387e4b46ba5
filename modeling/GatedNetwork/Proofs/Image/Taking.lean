import GatedNetwork.Proofs.Image.Framing
import GatedNetwork.Proofs.Outcome

/-! What the next reading takes from the front of any bytes. A frame is found by the number in its
length field: if all of it is there it is taken whole, and if its body is not, that is a fault. But
bytes that are too few for the fields in front of a body are taken for the end. -/

namespace GatedNetwork

namespace Image

def numberAt (bs : Bytes) (place : Nat) : Nat :=
  (bs.getD place 0).toNat + 0x100 * (bs.getD (place + 1) 0).toNat +
    0x10000 * (bs.getD (place + 2) 0).toNat + 0x1000000 * (bs.getD (place + 3) 0).toNat

def tagField (bs : Bytes) : Tag := #v[bs.getD 0 0, bs.getD 1 0, bs.getD 2 0, bs.getD 3 0]

def lengthField (bs : Bytes) : Nat := numberAt bs 4

def sizeField (bs : Bytes) : Nat := numberAt bs 8

def compressedField (bs : Bytes) : Bytes := (bs.drop 12).take (lengthField bs - 4)

/-- A frame stands in front, with all the bytes that its length field says. -/
structure Whole (bs : Bytes) : Prop where
  header : 8 ≤ bs.length
  long : 4 ≤ lengthField bs
  body : 8 + lengthField bs ≤ bs.length

/-- What is left once so many frames are passed. -/
def afterFrames : Nat → Bytes → Bytes
  | 0, bs => bs
  | n + 1, bs => afterFrames n (bs.drop (8 + lengthField bs))

section Fields

variable {bs : Bytes}

theorem numberAt_drop (bs : Bytes) (k place : Nat) : numberAt (bs.drop k) place = numberAt bs (k + place) := by
  simp only [numberAt, List.getD_eq_getElem?_getD, List.getElem?_drop, Nat.add_assoc]

theorem readBytes_four (long : 4 ≤ bs.length) : readBytes 4 bs = .ok (tagField bs, bs.drop 4) := by
  obtain ⟨a, b, c, d, rest, rfl⟩ : ∃ a b c d rest, bs = a :: b :: c :: d :: rest := by
    match bs, long with
    | a :: b :: c :: d :: rest, _ => exact ⟨a, b, c, d, rest, rfl⟩
  exact readBytes_append #v[a, b, c, d] rest

theorem readNat_eq (long : 4 ≤ bs.length) : readNat bs = .ok (numberAt bs 0, bs.drop 4) :=
  bind_of_read (readBytes_four long)

theorem readChunkHeader_eq (header : 8 ≤ bs.length) :
    readChunkHeader bs = .ok ((tagField bs, lengthField bs), bs.drop 8) := by
  have tag_there : 4 ≤ bs.length := by omega
  have tag_read := readBytes_four tag_there
  have length_read : readNat (bs.drop 4) = .ok (lengthField bs, bs.drop 8) := by
    rw [readNat_eq (by rw [List.length_drop]; omega), numberAt_drop, List.drop_drop, lengthField]
  rw [readChunkHeader, bind_of_read tag_read, bind_of_read length_read]
  rfl

end Fields

end Image

namespace Codec

open Image

variable {codec : Codec} {bs rest left : Bytes} {c : Tag × Bytes} {chunks : List (Tag × Bytes)}

theorem readChunkBody_eq {len : Nat} (long : 4 ≤ len) (body : len ≤ bs.length) :
    codec.readChunkBody len bs = (codec.decompress ((bs.drop 4).take (len - 4)) (numberAt bs 0)).map
      fun payload => (payload, bs.drop len) := by
  have size_there : 4 ≤ bs.length := Nat.le_trans long body
  have size_read := readNat_eq size_there
  have enough : ¬ ((bs.drop 4).take (len - 4)).length < len - 4 := by
    simp only [List.length_take, List.length_drop]
    omega
  have left_eq : (bs.drop 4).drop (len - 4) = bs.drop len := by
    rw [List.drop_drop]
    congr 1
    omega
  rw [readChunkBody, if_neg (Nat.not_lt.mpr long)]
  refine (bind_of_read size_read).trans ((bind_of_read (r := get) rfl).trans ?_)
  rw [if_neg enough, left_eq]
  cases codec.decompress ((bs.drop 4).take (len - 4)) (numberAt bs 0) <;> rfl

theorem readChunkBody_early {len : Nat} (early : ¬ (4 ≤ len ∧ len ≤ bs.length)) :
    ∃ e, e.isEarlyEnd ∧ codec.readChunkBody len bs = .error e := by
  rw [readChunkBody]
  by_cases none : len < 4
  · rw [if_pos none]
    exact ⟨.shortRead, rfl, bind_of_fault rfl⟩
  · rw [if_neg none]
    by_cases few : bs.length < 4
    · exact ⟨.shortRead, rfl, bind_of_fault (readNat_short few)⟩
    · refine ⟨.truncatedChunk, rfl, ?_⟩
      refine (bind_of_read (readNat_eq (Nat.not_lt.mp few))).trans ((bind_of_read (r := get) rfl).trans ?_)
      rw [if_pos (by simp only [List.length_take, List.length_drop]; omega)]
      rfl

/-- A frame that is all there is taken whole, whether its bytes can be brought back up or not. -/
theorem readChunk_whole (whole : Whole bs) : codec.readChunk bs =
    (codec.decompress (compressedField bs) (sizeField bs)).map
      fun payload => (some (tagField bs, payload), bs.drop (8 + lengthField bs)) := by
  have body : lengthField bs ≤ (bs.drop 8).length := by
    have := whole.body
    rw [List.length_drop]
    omega
  rw [readChunk, readChunkHeader_eq whole.header]
  simp only
  rw [readChunkBody_eq whole.long body, List.drop_drop, List.drop_drop, numberAt_drop]
  change Except.map _ (Except.map _ (codec.decompress (compressedField bs) (sizeField bs))) = _
  cases codec.decompress (compressedField bs) (sizeField bs) <;> rfl

theorem readChunk_early (header : 8 ≤ bs.length) (torn : ¬ Whole bs) :
    ∃ e, e.isEarlyEnd ∧ codec.readChunk bs = .error e := by
  have early : ¬ (4 ≤ lengthField bs ∧ lengthField bs ≤ (bs.drop 8).length) := fun ⟨long, body⟩ => by
    rw [List.length_drop] at body
    exact torn ⟨header, long, by omega⟩
  obtain ⟨e, isEarly, read⟩ := readChunkBody_early early
  rw [readChunk, readChunkHeader_eq header]
  exact ⟨e, isEarly, congrArg (Except.map _) read⟩

theorem readChunk_cases (codec : Codec) (bs : Bytes) :
    bs.length < 8 ∧ codec.readChunk bs = .ok (none, []) ∨
    (8 ≤ bs.length ∧ ¬ Whole bs) ∧ (∃ e, e.isEarlyEnd ∧ codec.readChunk bs = .error e) ∨
    Whole bs ∧ codec.readChunk bs = (codec.decompress (compressedField bs) (sizeField bs)).map
      fun payload => (some (tagField bs, payload), bs.drop (8 + lengthField bs)) := by
  by_cases few : bs.length < 8
  · exact .inl ⟨few, readChunk_short few⟩
  · have header := Nat.not_lt.mp few
    by_cases whole : Whole bs
    · exact .inr (.inr ⟨whole, readChunk_whole whole⟩)
    · exact .inr (.inl ⟨⟨header, whole⟩, readChunk_early header whole⟩)

theorem whole_of_readChunk (read : codec.readChunk bs = .ok (some c, left)) :
    Whole bs ∧ left = bs.drop (8 + lengthField bs) := by
  rcases codec.readChunk_cases bs with ⟨-, ended⟩ | ⟨-, e, -, fault⟩ | ⟨whole, taken⟩
  · cases ended.symm.trans read
  · cases fault.symm.trans read
  · obtain ⟨payload, -, found⟩ := exists_of_map_ok (taken.symm.trans read)
    exact ⟨whole, (Prod.mk.inj found).2⟩

theorem readChunk_none_iff : codec.readChunk bs = .ok (none, left) ↔ bs.length < 8 ∧ left = [] := by
  constructor
  · intro read
    rcases codec.readChunk_cases bs with ⟨few, ended⟩ | ⟨-, e, -, fault⟩ | ⟨-, taken⟩
    · cases ended.symm.trans read
      exact ⟨few, rfl⟩
    · cases fault.symm.trans read
    · obtain ⟨payload, -, found⟩ := exists_of_map_ok (taken.symm.trans read)
      nomatch found
  · rintro ⟨few, rfl⟩
    exact readChunk_short few

/-- A reading fails for a frame that is not all there, and for one that cannot be brought back up. -/
theorem readChunk_error_iff : (∃ e, codec.readChunk bs = .error e) ↔
    8 ≤ bs.length ∧
      (Whole bs → ∃ e, codec.decompress (compressedField bs) (sizeField bs) = .error e) := by
  rcases codec.readChunk_cases bs with ⟨few, ended⟩ | ⟨⟨header, torn⟩, e, -, fault⟩ | ⟨whole, taken⟩
  · refine iff_of_false (fun ⟨e, fault⟩ => ?_) fun ⟨header, _⟩ => Nat.not_le.mpr few header
    cases ended.symm.trans fault
  · exact iff_of_true ⟨e, fault⟩ ⟨header, fun whole => absurd whole torn⟩
  · rw [taken]
    cases unpacked : codec.decompress (compressedField bs) (sizeField bs) with
    | error e => exact iff_of_true ⟨e, rfl⟩ ⟨whole.header, fun _ => ⟨e, rfl⟩⟩
    | ok payload =>
      refine iff_of_false (fun ⟨e, fault⟩ => ?_) fun ⟨_, fails⟩ => ?_
      · cases fault
      · obtain ⟨e, fault⟩ := fails whole
        cases fault

/-- Readings that each find a chunk, and what is left after them. -/
inductive Reads (codec : Codec) : Bytes → List (Tag × Bytes) → Bytes → Prop
  | start (bs : Bytes) : Reads codec bs [] bs
  | next {bs left rest : Bytes} {c : Tag × Bytes} {chunks : List (Tag × Bytes)} :
      codec.readChunk bs = .ok (some c, left) → Reads codec left chunks rest →
      Reads codec bs (c :: chunks) rest

theorem Reads.passes (reads : codec.Reads bs chunks rest) :
    rest = afterFrames chunks.length bs ∧ ∀ i < chunks.length, Whole (afterFrames i bs) := by
  induction reads with
  | start bs => exact ⟨rfl, nofun⟩
  | next read _ ih =>
    obtain ⟨whole, rfl⟩ := whole_of_readChunk read
    refine ⟨ih.1, fun i hi => ?_⟩
    cases i with
    | zero => exact whole
    | succ i => exact ih.2 i (Nat.lt_of_succ_lt_succ hi)

/-- Readings that find chunks take one whole frame each. After them the next one finds no chunk
exactly if fewer bytes are left than stand in front of a body, and those it takes; it fails exactly
if a frame begins there that is not all there or cannot be brought back up. -/
theorem Reads.takes_frames (reads : codec.Reads bs chunks rest) :
    (rest = afterFrames chunks.length bs ∧ ∀ i < chunks.length, Whole (afterFrames i bs)) ∧
    (∀ left, codec.readChunk rest = .ok (none, left) ↔ rest.length < 8 ∧ left = []) ∧
    (∀ c left, codec.readChunk rest = .ok (some c, left) →
      Whole rest ∧ left = rest.drop (8 + lengthField rest)) ∧
    (8 ≤ rest.length → ¬ Whole rest → ∃ e, e.isEarlyEnd ∧ codec.readChunk rest = .error e) ∧
    ((∃ e, codec.readChunk rest = .error e) ↔ 8 ≤ rest.length ∧
      (Whole rest → ∃ e, codec.decompress (compressedField rest) (sizeField rest) = .error e)) :=
  ⟨reads.passes, fun _ => readChunk_none_iff, fun _ _ => whole_of_readChunk, readChunk_early,
    readChunk_error_iff⟩

def stray : Bytes := [83, 78, 65, 80, 10, 0, 0, 0, 5, 0, 0, 0, 80] ++ ascii "hello" ++ ascii "tail"

theorem readChunk_stray :
    Lz4.codec.readChunk stray = .ok (some (snapshotTag, ascii "hello"), ascii "tail") := rfl

theorem takes_frames_stray :
    Lz4.codec.Reads stray [(snapshotTag, ascii "hello")] (ascii "tail") ∧
    ascii "tail" = afterFrames 1 stray ∧
    ∀ left, Lz4.codec.readChunk (ascii "tail") = .ok (none, left) ↔ left = [] := by
  have reads : Lz4.codec.Reads stray [(snapshotTag, ascii "hello")] (ascii "tail") :=
    .next readChunk_stray (.start _)
  obtain ⟨⟨left_eq, -⟩, ends, -⟩ := reads.takes_frames
  have few : (ascii "tail").length < 8 := by decide
  exact ⟨reads, left_eq, fun left => (ends left).trans (and_iff_right few)⟩

theorem readChunk_ends_early :
    Lz4.codec.Reads stray [(snapshotTag, ascii "hello")] (ascii "tail") ∧
    (ascii "tail").length = 4 ∧ Lz4.codec.readChunk (ascii "tail") = .ok (none, []) :=
  ⟨.next readChunk_stray (.start _), rfl, rfl⟩

end Codec

end GatedNetwork
