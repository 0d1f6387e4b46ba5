import GatedNetwork.Proofs.Image.Stream
import GatedNetwork.Proofs.Json.Decoding

/-! What is read from the written form of a snapshot: the snapshot, as text without or with line breaks
and as an image, if all its numbers are finite. A number that is not finite has no written form, and
the text with null in its place is refused. -/

namespace GatedNetwork

open Json

/-- The number is read from its own text. -/
def Json.ReadsBack (x : Float) : Prop := toFloat? (.float x) = some x

instance (x : Float) : Decidable (ReadsBack x) :=
  inferInstanceAs (Decidable (toFloat? (.float x) = some x))

namespace NeuronRecord

def members (r : NeuronRecord) : List (String × Json) :=
  [("bias", .float r.bias), ("squash", r.squash.toJson), ("layer", r.layer.toJson)]

theorem isName_members (r : NeuronRecord) : ∀ m ∈ r.members, IsName m.1 := by
  refine List.forall_mem_map.mp (?_ : ∀ name ∈ ["bias", "squash", "layer"], IsName name)
  decide +kernel

theorem legible (r : NeuronRecord) : Legible r.toJson := by
  refine .record r.isName_members ?_
  simp only [List.forall_mem_cons]
  exact ⟨legible_float r.bias, r.squash.legible, r.layer.legible, nofun⟩

theorem ofJson?_toJson {r : NeuronRecord} (sized : r.layer.Sized) :
    ofJson? r.toJson = (toFloat? (.float r.bias)).map fun bias => { r with bias } := by
  have fields_eq := fields_record r.members r.isName_members (by simp only [members, List.map]; decide)
  have decode_eq : ofJson? r.toJson = do
      let bias ← toFloat? (.float r.bias)
      let squash ← Squash.ofJson? r.squash.toJson
      let layer ← LayerRef.ofJson? r.layer.toJson
      return { bias, squash, layer } := by
    rw [ofJson?, toJson, ← members]
    rw [show ["bias", "squash", "layer"] = r.members.map (·.1) from rfl, fields_eq]
    rfl
  rw [decode_eq, r.squash.ofJson?_toJson, LayerRef.ofJson?_toJson sized]
  cases toFloat? (.float r.bias) <;> rfl

end NeuronRecord

namespace ConnectionRecord

/-- All places are numbers of 64 bits. -/
structure Sized (c : ConnectionRecord) : Prop where
  source : c.source ≤ largest
  target : c.target ≤ largest
  gater : ∀ g, c.gater = some g → g ≤ largest

def gaterJson : Option Nat → Json
  | some g => .nat g
  | none => .null

def members (c : ConnectionRecord) : List (String × Json) :=
  [("from", .nat c.source), ("to", .nat c.target), ("weight", .float c.weight),
    ("gater", gaterJson c.gater)]

theorem toJson_eq (c : ConnectionRecord) : c.toJson = .record c.members := by
  rw [toJson, members]
  cases c.gater <;> rfl

theorem isName_members (c : ConnectionRecord) : ∀ m ∈ c.members, IsName m.1 := by
  refine List.forall_mem_map.mp (?_ : ∀ name ∈ ["from", "to", "weight", "gater"], IsName name)
  decide +kernel

theorem legible (c : ConnectionRecord) : Legible c.toJson := by
  have legible_gater : Legible (gaterJson c.gater) := by
    cases c.gater with
    | none => exact .null
    | some g => exact legible_nat g
  rw [toJson_eq]
  refine .record c.isName_members ?_
  simp only [members, List.forall_mem_cons]
  exact ⟨legible_nat _, legible_nat _, legible_float c.weight, legible_gater, nofun⟩

theorem ofJson?_toJson {c : ConnectionRecord} (sized : c.Sized) :
    ofJson? c.toJson = (toFloat? (.float c.weight)).map fun weight => { c with weight } := by
  have fields_eq := fields_record c.members c.isName_members (by simp only [members, List.map]; decide)
  have decode_eq : ofJson? c.toJson = do
      let source ← toNat? (.nat c.source)
      let target ← toNat? (.nat c.target)
      let weight ← toFloat? (.float c.weight)
      let gater ← optional toNat? (some (gaterJson c.gater))
      return { source, target, weight, gater } := by
    rw [ofJson?, toJson_eq]
    rw [show ["from", "to", "weight", "gater"] = c.members.map (·.1) from rfl, fields_eq]
    rfl
  have gater_eq : optional toNat? (some (gaterJson c.gater)) = some c.gater := by
    cases gater_eq : c.gater with
    | none => rfl
    | some g => exact congrArg (Option.map some) (toNat?_nat (sized.gater g gater_eq))
  rw [decode_eq, toNat?_nat sized.source, toNat?_nat sized.target, gater_eq]
  cases toFloat? (.float c.weight) <;> rfl

end ConnectionRecord

namespace Snapshot

variable {s : Snapshot} {codec : Codec}

def members (s : Snapshot) : List (String × Json) :=
  [("neurons", .array (s.neurons.map (·.toJson))),
    ("connections", .array (s.connections.map (·.toJson)))]

theorem isName_members (s : Snapshot) : ∀ m ∈ s.members, IsName m.1 := by
  refine List.forall_mem_map.mp (?_ : ∀ name ∈ ["neurons", "connections"], IsName name)
  decide +kernel

theorem legible (s : Snapshot) : Legible s.toTree := by
  refine .record s.isName_members ?_
  simp only [List.forall_mem_cons]
  exact ⟨.array (List.forall_mem_map.mpr fun r _ => r.legible),
    .array (List.forall_mem_map.mpr fun c _ => c.legible), nofun⟩

theorem ofTree?_toTree (s : Snapshot) : ofTree? s.toTree = do
    let neurons ← s.neurons.mapM fun r => NeuronRecord.ofJson? r.toJson
    let connections ← s.connections.mapM fun c => ConnectionRecord.ofJson? c.toJson
    return { neurons, connections } := by
  have fields_eq := fields_record s.members s.isName_members (by simp only [members, List.map]; decide)
  have decode_eq : ofTree? s.toTree = do
      let neurons ← (s.neurons.map (·.toJson)).mapM NeuronRecord.ofJson?
      let connections ← (s.connections.map (·.toJson)).mapM ConnectionRecord.ofJson?
      return { neurons, connections } := by
    rw [ofTree?, toTree, ← members]
    rw [show ["neurons", "connections"] = s.members.map (·.1) from rfl, fields_eq]
    rfl
  rw [decode_eq, List.mapM_map, List.mapM_map]
  rfl

def numbers (s : Snapshot) : List Float := s.neurons.map (·.bias) ++ s.connections.map (·.weight)

/-- All layers and places are numbers of 64 bits. -/
structure Sized (s : Snapshot) : Prop where
  layers : ∀ r ∈ s.neurons, r.layer.Sized
  places : ∀ c ∈ s.connections, c.Sized

theorem ofTree?_of_finite (sized : s.Sized) (exact : ∀ x ∈ s.numbers, ReadsBack x) :
    ofTree? s.toTree = some s := by
  obtain ⟨biases, weights⟩ := List.forall_mem_append.mp exact
  have neurons_eq := mapM_eq_some (f := fun r => NeuronRecord.ofJson? r.toJson) (g := id)
    fun r hr => by
    rw [NeuronRecord.ofJson?_toJson (sized.layers r hr), List.forall_mem_map.mp biases r hr]
    rfl
  have connections_eq := mapM_eq_some (f := fun c => ConnectionRecord.ofJson? c.toJson) (g := id)
    fun c hc => by
    rw [ConnectionRecord.ofJson?_toJson (sized.places c hc), List.forall_mem_map.mp weights c hc]
    rfl
  rw [ofTree?_toTree, neurons_eq, connections_eq, List.map_id, List.map_id]
  rfl

theorem ofTree?_of_not_finite (sized : s.Sized) {x : Float} (mem : x ∈ s.numbers)
    (endless : ¬ x.isFinite) : ofTree? s.toTree = none := by
  have unread := toFloat?_float_of_not_finite endless
  rw [ofTree?_toTree]
  rcases List.mem_append.mp mem with mem | mem
  · obtain ⟨r, hr, rfl⟩ := List.mem_map.mp mem
    rw [mapM_eq_none hr (by rw [NeuronRecord.ofJson?_toJson (sized.layers r hr), unread]; rfl)]
    rfl
  · obtain ⟨c, hc, rfl⟩ := List.mem_map.mp mem
    rw [mapM_eq_none hc (by rw [ConnectionRecord.ofJson?_toJson (sized.places c hc), unread]; rfl)]
    cases s.neurons.mapM fun r => NeuronRecord.ofJson? r.toJson <;> rfl

/-- What all written forms of a snapshot are read as. -/
def reread (s : Snapshot) : Except NetworkError Snapshot :=
  match ofTree? s.toTree with
  | some s => .ok s
  | none => .error .malformedJson

theorem ofJson_toJson (s : Snapshot) : ofJson s.toJson = s.reread := by
  rw [ofJson, toJson, s.legible.read_compact]
  rfl

theorem ofJson_toJsonPretty (s : Snapshot) : ofJson s.toJsonPretty = s.reread := by
  rw [ofJson, toJsonPretty, s.legible.read_indented]
  rfl

theorem ofImage_image (inverts : codec.Inverts) (fits : codec.Fits s.toJson) :
    ∃ bytes, codec.image s = .ok bytes ∧ codec.ofImage bytes = s.reread := by
  refine ⟨_, Codec.image_eq fits, ?_⟩
  have none_before : ∀ c ∈ ([] : List (Tag × Bytes)), codec.Fits c.2 ∧ c.1 ≠ Image.snapshotTag := nofun
  have read := Codec.ofImage_frames inverts (fun c hc => (none_before c hc).1)
    (fun c hc => (none_before c hc).2) fits []
  rw [← s.ofJson_toJson, ← read]
  simp [Codec.frames]

/-- If the text of each finite number of the snapshot is read as that number, then all its written
forms are read as the snapshot if all numbers are finite, and all are refused if one is not. -/
theorem written_read_back (inverts : codec.Inverts) (sized : s.Sized) (fits : codec.Fits s.toJson)
    (exact : ∀ x ∈ s.numbers, x.isFinite → ReadsBack x) :
    ∃ bytes, codec.image s = .ok bytes ∧
      ((∀ x ∈ s.numbers, x.isFinite) → ofJson s.toJson = .ok s ∧ ofJson s.toJsonPretty = .ok s ∧
        codec.ofImage bytes = .ok s) ∧
      ((∃ x ∈ s.numbers, ¬ x.isFinite) → ofJson s.toJson = .error .malformedJson ∧
        ofJson s.toJsonPretty = .error .malformedJson ∧
        codec.ofImage bytes = .error .malformedJson) := by
  obtain ⟨bytes, image_eq, ofImage_eq⟩ := ofImage_image inverts fits
  refine ⟨bytes, image_eq, fun finite => ?_, fun ⟨x, mem, endless⟩ => ?_⟩
  · have reread_eq : s.reread = .ok s := by
      rw [reread, ofTree?_of_finite sized fun x mem => exact x mem (finite x mem)]
    exact ⟨s.ofJson_toJson.trans reread_eq, s.ofJson_toJsonPretty.trans reread_eq,
      ofImage_eq.trans reread_eq⟩
  · have reread_eq : s.reread = .error .malformedJson := by
      rw [reread, ofTree?_of_not_finite sized mem endless]
    exact ⟨s.ofJson_toJson.trans reread_eq, s.ofJson_toJsonPretty.trans reread_eq,
      ofImage_eq.trans reread_eq⟩

def gatedChain (x : Float) : Snapshot where
  neurons := [⟨0.5, .identity, .input⟩, ⟨-0.1, .logistic, .hidden 7⟩, ⟨x, .relu, .output⟩]
  connections := [⟨0, 1, -3, some 2⟩, ⟨1, 1, 1e300, none⟩]

theorem written_read_back_gatedChain :
    (∃ bytes, Lz4.codec.image (gatedChain 0) = .ok bytes ∧
      ofJson (gatedChain 0).toJson = .ok (gatedChain 0) ∧
      Lz4.codec.ofImage bytes = .ok (gatedChain 0)) ∧
    ofJson (gatedChain (0 / 0)).toJsonPretty = .error .malformedJson := by
  have sized (x : Float) : (gatedChain x).Sized := by
    refine ⟨?_, ?_⟩
    · simp only [gatedChain, List.forall_mem_cons]
      exact ⟨nofun, fun i hi => LayerRef.hidden.inj hi ▸ by decide, nofun, nofun⟩
    · simp only [gatedChain, List.forall_mem_cons]
      exact ⟨⟨by decide, by decide, fun g hg => Option.some.inj hg ▸ by decide⟩,
        ⟨by decide, by decide, nofun⟩, nofun⟩
  obtain ⟨bytes, image_eq, finite, -⟩ := written_read_back (s := gatedChain 0) Lz4.codec_inverts
    (sized _) ⟨by decide +kernel, by decide +kernel⟩ (by decide +kernel)
  obtain ⟨text_eq, -, image_read_eq⟩ := finite (by decide +kernel)
  obtain ⟨_, -, -, endless⟩ := written_read_back (s := gatedChain (0 / 0)) Lz4.codec_inverts
    (sized _) ⟨by decide +kernel, by decide +kernel⟩ (by decide +kernel)
  obtain ⟨-, pretty_eq, -⟩ := endless ⟨0 / 0, by simp [numbers, gatedChain], by decide +kernel⟩
  exact ⟨⟨bytes, image_eq, text_eq, image_read_eq⟩, pretty_eq⟩

end Snapshot

end GatedNetwork
