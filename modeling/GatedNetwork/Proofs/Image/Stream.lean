import GatedNetwork.Proofs.Image.Lz4
import GatedNetwork.Proofs.Image.Taking
import GatedNetwork.Proofs.Outcome

/-! Streams of chunks. What is written is read back chunk by chunk to the last byte; an image is
the first chunk of its kind, whatever stands before and behind it; a torn image is refused. -/

namespace GatedNetwork

open Image

namespace Image

variable {bs : Bytes}

theorem readHeader_short (short : bs.length < 12) : ∃ e, readHeader bs = .error e := by
  by_cases few : bs.length < 8
  · exact ⟨_, bind_of_fault (readBytes_short few)⟩
  · obtain ⟨m, split⟩ : ∃ m : Vector UInt8 8, m.toList ++ bs.drop 8 = bs :=
      ⟨⟨(bs.take 8).toArray, by simp; omega⟩, by simp⟩
    have read : readBytes 8 bs = .ok (m, bs.drop 8) := by
      rw [← split, readBytes_append, split]
    rw [readHeader, bind_of_read read]
    by_cases foreign : m ≠ magic
    · rw [if_pos foreign]
      exact ⟨_, bind_of_fault rfl⟩
    · rw [if_neg foreign]
      exact ⟨_, bind_of_fault (readNat_short (by simp; omega))⟩

end Image

namespace Codec

/-- The header, then one chunk after the other. -/
def stream (codec : Codec) (chunks : List (Tag × Bytes)) : Except ImageFault Bytes := do
  let frames ← chunks.mapM fun c => codec.chunk c.1 c.2
  return header ++ frames.flatten

def readAll (codec : Codec) (count : Nat) : ByteReader (Nat × List (Option (Tag × Bytes))) := do
  let v ← readHeader
  let found ← (List.replicate count ()).mapM fun _ => codec.readChunk
  return (v, found)

def frames (codec : Codec) (chunks : List (Tag × Bytes)) : Bytes :=
  chunks.flatMap fun c => codec.framed c.1 c.2

section Streams

variable {codec : Codec} {tag : Tag} {payload rest bs : Bytes} {chunks : List (Tag × Bytes)}

theorem stream_eq (fits : ∀ c ∈ chunks, codec.Fits c.2) :
    codec.stream chunks = .ok (header ++ codec.frames chunks) := by
  rw [stream, mapM_eq_ok fun c hc => (fits c hc).chunk_eq, frames, List.flatMap_def]
  rfl

theorem length_le_frames (codec : Codec) (chunks : List (Tag × Bytes)) :
    chunks.length ≤ (codec.frames chunks).length := by
  induction chunks with
  | nil => exact Nat.zero_le _
  | cons c chunks ih =>
    simp only [frames, List.flatMap_cons, List.length_append, length_framed, List.length_cons] at ih ⊢
    omega

theorem readChunk_nil (codec : Codec) : codec.readChunk [] = .ok (none, []) :=
  readChunk_short (by decide)

/-- One reading for each chunk, by induction on the chunks: each leaves the reader at the next. -/
theorem mapM_readChunk (inverts : codec.Inverts) (fits : ∀ c ∈ chunks, codec.Fits c.2) (n : Nat) :
    ((List.replicate (chunks.length + n) ()).mapM fun _ => codec.readChunk) (codec.frames chunks) =
      .ok (chunks.map some ++ List.replicate n none, []) := by
  induction chunks with
  | nil =>
    rw [List.length_nil, Nat.zero_add]
    change _ = Except.ok (List.replicate n none, [])
    induction n with
    | zero => rfl
    | succ n ih =>
      rw [List.replicate_succ, List.mapM_cons]
      exact (bind_of_read (readChunk_nil codec)).trans (bind_of_read ih)
  | cons c chunks ih =>
    have split : codec.frames (c :: chunks) = codec.framed c.1 c.2 ++ codec.frames chunks := rfl
    have later := ih fun d hd => fits d (List.mem_cons_of_mem c hd)
    rw [List.length_cons, Nat.add_right_comm, List.replicate_succ, List.mapM_cons, split,
      bind_of_read (readChunk_framed inverts (fits c List.mem_cons_self) _), bind_of_read later]
    rfl

theorem findChunk_framed (inverts : codec.Inverts) (fits : codec.Fits payload) (rest : Bytes)
    (fuel : Nat) : codec.findChunk tag (fuel + 1) (codec.framed tag payload ++ rest) =
      .ok (some payload) := by
  rw [findChunk, readChunk_framed inverts fits]
  exact if_pos rfl

theorem findChunk_nil (tag : Tag) (fuel : Nat) : codec.findChunk tag fuel [] = .ok none := by
  cases fuel with
  | zero => rfl
  | succ fuel => rw [findChunk, readChunk_nil codec]

theorem findChunk_frames (inverts : codec.Inverts) (fits : ∀ c ∈ chunks, codec.Fits c.2)
    (foreign : ∀ c ∈ chunks, c.1 ≠ tag) (rest : Bytes) (fuel : Nat) :
    codec.findChunk tag (chunks.length + fuel) (codec.frames chunks ++ rest) =
      codec.findChunk tag fuel rest := by
  induction chunks with
  | nil => rw [List.length_nil, Nat.zero_add]; rfl
  | cons c chunks ih =>
    have split : codec.frames (c :: chunks) ++ rest =
        codec.framed c.1 c.2 ++ (codec.frames chunks ++ rest) := List.append_assoc ..
    have later := ih (fun d hd => fits d (List.mem_cons_of_mem c hd))
      fun d hd => foreign d (List.mem_cons_of_mem c hd)
    rw [List.length_cons, Nat.add_right_comm, split, findChunk,
      readChunk_framed inverts (fits c List.mem_cons_self)]
    exact (if_neg (foreign c List.mem_cons_self)).trans later

theorem ofImage_header (rest : Bytes) : codec.ofImage (header ++ rest) =
    ofFault (codec.findChunk snapshotTag (rest.length + 1) rest) >>= fun
      | some payload => Snapshot.ofJson payload
      | none => .error (.invalidSnapshot .noSnapshotChunk) := by
  rw [ofImage, readHeader_header]
  rfl

/-- The first chunk of its kind makes the image. -/
theorem ofImage_frames (inverts : codec.Inverts) (fits : ∀ c ∈ chunks, codec.Fits c.2)
    (foreign : ∀ c ∈ chunks, c.1 ≠ snapshotTag) (fits' : codec.Fits payload) (rest : Bytes) :
    codec.ofImage (header ++ (codec.frames chunks ++ (codec.framed snapshotTag payload ++ rest))) =
      Snapshot.ofJson payload := by
  rw [ofImage_header]
  obtain ⟨fuel, fuel_eq⟩ : ∃ fuel, (codec.frames chunks ++
      (codec.framed snapshotTag payload ++ rest)).length + 1 = chunks.length + (fuel + 1) := by
    have := codec.length_le_frames chunks
    refine ⟨(codec.frames chunks ++ (codec.framed snapshotTag payload ++ rest)).length -
      chunks.length, ?_⟩
    rw [List.length_append]
    omega
  rw [fuel_eq, findChunk_frames inverts fits foreign, findChunk_framed inverts fits']
  rfl

theorem ofImage_frames_foreign (inverts : codec.Inverts) (fits : ∀ c ∈ chunks, codec.Fits c.2)
    (foreign : ∀ c ∈ chunks, c.1 ≠ snapshotTag) :
    codec.ofImage (header ++ codec.frames chunks) = .error (.invalidSnapshot .noSnapshotChunk) := by
  obtain ⟨fuel, fuel_eq⟩ : ∃ fuel, (codec.frames chunks).length + 1 = chunks.length + fuel :=
    Nat.exists_eq_add_of_le (Nat.le_succ_of_le (codec.length_le_frames chunks))
  have passed := findChunk_frames inverts fits foreign [] fuel
  rw [List.append_nil, findChunk_nil] at passed
  rw [ofImage_header, fuel_eq, passed]
  rfl

/-- Chunks that fit are written, and read back to the last byte in their order; every reading after
them finds none. The image in such a stream is the first snapshot chunk, whatever chunks stand before
it and whatever bytes follow; without one there is no image. -/
theorem stream_read_back (inverts : codec.Inverts) (fits : ∀ c ∈ chunks, codec.Fits c.2) :
    ∃ bytes, codec.stream chunks = .ok bytes ∧
      (∀ n, codec.readAll (chunks.length + n) bytes =
        .ok ((version, chunks.map some ++ List.replicate n none), [])) ∧
      (∀ before payload after, chunks = before ++ (snapshotTag, payload) :: after →
        (∀ c ∈ before, c.1 ≠ snapshotTag) →
        ∃ front, codec.stream (before ++ [(snapshotTag, payload)]) = .ok front ∧ front <+: bytes ∧
          ∀ rest, codec.ofImage (front ++ rest) = Snapshot.ofJson payload) ∧
      ((∀ c ∈ chunks, c.1 ≠ snapshotTag) →
        codec.ofImage bytes = .error (.invalidSnapshot .noSnapshotChunk)) := by
  refine ⟨_, stream_eq fits, fun n => ?_, fun before payload after chunks_eq foreign => ?_,
    ofImage_frames_foreign inverts fits⟩
  · rw [readAll, bind_of_read (readHeader_header _)]
    exact bind_of_read (mapM_readChunk inverts fits n)
  · subst chunks_eq
    have fits_before (c) (hc : c ∈ before) : codec.Fits c.2 := fits c (by simp [hc])
    have fits_payload : codec.Fits payload := fits (snapshotTag, payload) (by simp)
    refine ⟨_, stream_eq fun c hc => fits c ?_, ⟨codec.frames after, ?_⟩, fun rest => ?_⟩
    · rw [List.append_cons]
      exact List.mem_append_left _ hc
    · simp [frames]
    · rw [← ofImage_frames inverts fits_before foreign fits_payload rest]
      simp [frames]

theorem stream_read_back_twice : ∃ bytes,
    Lz4.codec.stream [(#v[88, 84, 82, 65], [7, 7]), (snapshotTag, ascii "[[],[]]"),
      (snapshotTag, ascii "null")] = .ok bytes ∧
    Lz4.codec.readAll 4 bytes = .ok ((version, [some (#v[88, 84, 82, 65], [7, 7]),
      some (snapshotTag, ascii "[[],[]]"), some (snapshotTag, ascii "null"), none]), []) ∧
    ∃ front, front <+: bytes ∧ Lz4.codec.ofImage (front ++ [0]) = Snapshot.ofJson (ascii "[[],[]]") := by
  have fits : ∀ c ∈ [(#v[88, 84, 82, 65], [7, 7]), (snapshotTag, ascii "[[],[]]"),
      (snapshotTag, ascii "null")], Lz4.codec.Fits c.2 := by
    simp only [List.forall_mem_cons]
    exact ⟨⟨by decide, by decide⟩, ⟨by decide, by decide⟩, ⟨by decide, by decide⟩, nofun⟩
  obtain ⟨bytes, stream_eq, read_eq, image_eq, -⟩ := stream_read_back Lz4.codec_inverts fits
  obtain ⟨front, -, is_front, image_eq⟩ := image_eq [(#v[88, 84, 82, 65], [7, 7])] (ascii "[[],[]]")
    [(snapshotTag, ascii "null")] rfl fun c hc => by
    obtain rfl := List.mem_singleton.mp hc
    decide
  exact ⟨bytes, stream_eq, read_eq 1, front, is_front, image_eq [0]⟩

end Streams

section Tearing

variable {codec : Codec} {tag : Tag} {payload bs : Bytes} {len : Nat} {s : Snapshot}

theorem readChunkBody_short (codec : Codec) (short : bs.length < len) :
    ∃ e, codec.readChunkBody len bs = .error e := by
  obtain ⟨e, -, fault⟩ := codec.readChunkBody_early fun ⟨_, body⟩ => Nat.not_le.mpr short body
  exact ⟨e, fault⟩

/-- A frame that is cut short is no chunk: its header is missing, or its body is. -/
theorem readChunk_torn (fits : codec.Fits payload) {n : Nat}
    (short : n < (codec.framed tag payload).length) :
    codec.readChunk ((codec.framed tag payload).take n) = .ok (none, []) ∨
      ∃ e, codec.readChunk ((codec.framed tag payload).take n) = .error e := by
  by_cases few : n < 8
  · refine .inl (readChunk_short ?_)
    rw [List.length_take]
    omega
  · have header_length : (tag.toList ++ writeNat (4 + (codec.compress payload).length)).length = 8 := by
      simp [length_writeNat]
    have split : (codec.framed tag payload).take n =
        tag.toList ++ writeNat (4 + (codec.compress payload).length) ++
          (writeNat payload.length ++ codec.compress payload).take (n - 8) := by
      rw [framed, List.take_append, header_length, List.take_of_length_le (by omega)]
    rw [split, readChunk, readChunkHeader_append tag fits.length]
    have short : ((writeNat payload.length ++ codec.compress payload).take (n - 8)).length <
        4 + (codec.compress payload).length := by
      rw [length_framed] at short
      simp only [List.length_take, List.length_append, length_writeNat]
      omega
    obtain ⟨e, error_eq⟩ := codec.readChunkBody_short short
    exact .inr ⟨e, congrArg (Except.map _) error_eq⟩

theorem image_eq (fits : codec.Fits s.toJson) :
    codec.image s = .ok (header ++ codec.framed snapshotTag s.toJson) := by
  rw [image, fits.chunk_eq]
  rfl

/-- The image of a snapshot is written, and however many of its last bytes are missing, what is left
of it is refused. -/
theorem ofImage_torn (fits : codec.Fits s.toJson) : ∃ bytes, codec.image s = .ok bytes ∧
    ∀ n, n < bytes.length → ∃ e, codec.ofImage (bytes.take n) = .error e := by
  refine ⟨_, image_eq fits, fun n short => ?_⟩
  have header_length : header.length = 12 := rfl
  by_cases few : n < 12
  · have short : ((header ++ codec.framed snapshotTag s.toJson).take n).length < 12 := by
      rw [List.length_take]
      omega
    obtain ⟨e, error_eq⟩ := readHeader_short short
    refine ⟨.image e, ?_⟩
    rw [ofImage, error_eq]
    rfl
  · have split : (header ++ codec.framed snapshotTag s.toJson).take n =
        header ++ (codec.framed snapshotTag s.toJson).take (n - 12) := by
      rw [List.take_append, header_length, List.take_of_length_le (by omega)]
    have short : n - 12 < (codec.framed snapshotTag s.toJson).length := by
      rw [List.length_append] at short
      omega
    rw [split, ofImage_header, findChunk]
    rcases readChunk_torn fits short with none_eq | ⟨e, error_eq⟩
    · exact ⟨_, by rw [none_eq]; rfl⟩
    · exact ⟨_, by rw [error_eq]; rfl⟩

theorem ofImage_torn_loop :
    ∃ bytes, Lz4.codec.image ⟨[⟨0.5, .step, .output⟩], [⟨0, 0, 1, none⟩]⟩ = .ok bytes ∧
      ∀ n, n < bytes.length → ∃ e, Lz4.codec.ofImage (bytes.take n) = .error e :=
  ofImage_torn ⟨by decide +kernel, by decide +kernel⟩

end Tearing

end Codec

end GatedNetwork
