import GatedNetwork.Proofs.Network.Copying
import GatedNetwork.Proofs.Session.Twins

/-! The layers of copies. A description says of each neuron in which layer it is, but not how many
hidden layers there are: a copy has the hidden layers up to the last one that holds a neuron, each
with the neurons that correspond to those of the network, and no others. -/

namespace GatedNetwork

namespace Network

/-- The last hidden layer, if there is one, holds a neuron. -/
def Capped (net : Network) : Prop := ∀ l, net.hidden.back? = some l → l.neurons ≠ []

/-- Every layer of the first network is one of the second, and has the same neurons there under
other names. -/
def KeepsLayers (f : NeuronId → NeuronId) (net copy : Network) : Prop :=
  ∀ ref l, net.layer ref = .ok l → ∃ l', copy.layer ref = .ok l' ∧ l'.neurons = l.neurons.map f

section Layers

variable {bound start : NeuronId} {net copy bare : Network} {config : Config} {ref : LayerRef}

theorem hidden_mem_refs {i : Nat} : LayerRef.hidden i ∈ net.refs ↔ i < net.hidden.size := by
  simp [refs]

theorem members_of_size_le {i : Nat} (le : net.hidden.size ≤ i) : net.members (.hidden i) = [] := by
  simp [members, Array.getElem?_eq_none le]

theorem Realizes.members_eq (h : copy.Realizes net.described config start) (sound : net.Sound bound [])
    (there : ref ∈ net.refs) : copy.members ref = (net.members ref).map (net.nameFrom start) := by
  rw [h.members, sound.planted_described start, List.filter_map, List.map_map]
  have own := congrArg (List.map (net.nameFrom start ∘ Prod.fst)) (filter_neurons there)
  rw [List.map_map] at own
  exact own

theorem Realizes.size_le_iff (h : copy.Realizes net.described config start) {m : Nat} :
    copy.hidden.size ≤ m ↔ ∀ i, m ≤ i → net.members (.hidden i) = [] := by
  rw [h.size, Snapshot.hiddenCount_le_iff]
  constructor
  · intro below i le
    refine List.eq_nil_iff_forall_not_mem.mpr fun id hid => Nat.not_le.mpr ?_ le
    have there : LayerRef.hidden i ∈ net.refs := hidden_mem_refs.mpr (by
      by_contra beyond
      simp [members_of_size_le (Nat.le_of_not_lt beyond)] at hid)
    exact below _ (List.mem_map_of_mem (mem_neurons_iff.mpr ⟨there, hid⟩)) i rfl
  · rintro nothing r hr i hi
    obtain ⟨⟨id, ref⟩, hp, rfl⟩ := List.mem_map.mp hr
    obtain rfl : ref = .hidden i := hi
    by_contra beyond
    have hid := (mem_neurons_iff.mp hp).2
    simp [nothing i (Nat.le_of_not_lt beyond)] at hid

theorem Realizes.size_le (h : copy.Realizes net.described config start) :
    copy.hidden.size ≤ net.hidden.size := h.size_le_iff.mpr fun _ => members_of_size_le

theorem Realizes.size_eq_iff (h : copy.Realizes net.described config start) :
    copy.hidden.size = net.hidden.size ↔ net.Capped := by
  rw [Capped, Array.back?_eq_getElem?]
  cases size_eq : net.hidden.size with
  | zero =>
    have none_left : copy.hidden.size = 0 := Nat.le_zero.mp (size_eq ▸ h.size_le)
    refine iff_of_true none_left fun l hl => ?_
    simp [Array.getElem?_eq_none (Nat.le_of_eq size_eq)] at hl
  | succ k =>
    have le : copy.hidden.size ≤ k + 1 := size_eq ▸ h.size_le
    have last : net.hidden[k]? = some net.hidden[k] := Array.getElem?_eq_getElem (by omega)
    have lost : copy.hidden.size ≤ k ↔ net.hidden[k].neurons = [] := by
      rw [h.size_le_iff]
      constructor
      · intro nothing
        simpa [members, last] using nothing k (Nat.le_refl k)
      · intro empty i hi
        rcases Nat.eq_or_lt_of_le hi with rfl | beyond
        · simp [members, last, empty]
        · exact members_of_size_le (by omega)
    rw [Nat.add_sub_cancel, last]
    simp only [Option.some.injEq, forall_eq', ne_eq, ← lost]
    omega

theorem Realizes.layer_eq (h : copy.Realizes net.described config start) (sound : net.Sound bound [])
    {l l' : Layer} (hl : net.layer ref = .ok l) (hl' : copy.layer ref = .ok l') :
    l'.neurons = l.neurons.map (net.nameFrom start) := by
  rw [← members_of_layer hl, ← members_of_layer hl', h.members_eq sound (mem_refs_iff.mpr ⟨l, hl⟩)]

theorem Realizes.layer_copied (h : copy.Realizes net.described config start) (sound : net.Sound bound [])
    {l' : Layer} (hl' : copy.layer ref = .ok l') :
    ∃ l, net.layer ref = .ok l ∧ l'.neurons = l.neurons.map (net.nameFrom start) := by
  obtain ⟨l, hl⟩ := mem_refs_iff.mp ((refs_sublist h.size_le).subset (mem_refs_iff.mpr ⟨l', hl'⟩))
  exact ⟨l, hl, h.layer_eq sound hl hl'⟩

theorem Realizes.keepsLayers (h : copy.Realizes net.described config start) (sound : net.Sound bound [])
    (size_eq : copy.hidden.size = net.hidden.size) : net.KeepsLayers (net.nameFrom start) copy := by
  intro ref l hl
  have refs_eq : copy.refs = net.refs := by rw [refs, refs, size_eq]
  obtain ⟨l', hl'⟩ := mem_refs_iff.mp (refs_eq ▸ mem_refs_iff.mpr ⟨l, hl⟩)
  exact ⟨l', hl', h.layer_eq sound hl hl'⟩

end Layers

section Copies

variable {net : Network}

/-- A copy has the input layer, the output layer and the hidden layers up to the last one that holds
a neuron, each with the neurons that correspond to those of the network. So it has all layers exactly
if the last hidden layer holds a neuron, or if there is none. -/
theorem Reachable.copy_layers (h : net.Reachable) (ids : IdSupply) :
    ∃ (copy : Network) (ids' : IdSupply) (f : NeuronId → NeuronId),
      net.copy.run ids = .ok copy ids' ∧
      copy.neurons = net.neurons.map (fun p => (f p.1, p.2)) ∧
      (∀ ref l', copy.layer ref = .ok l' → ∃ l, net.layer ref = .ok l ∧ l'.neurons = l.neurons.map f) ∧
      (∀ m, copy.hidden.size ≤ m ↔
        ∀ i l, m ≤ i → net.layer (.hidden i) = .ok l → l.neurons = []) ∧
      (copy.hidden.size = net.hidden.size ∧ net.KeepsLayers f copy ↔ net.Capped) := by
  obtain ⟨bound, bare, sound, stands⟩ := h.stands
  obtain ⟨copy, run_eq, realizes⟩ := stands.copy_ok sound ids
  have listed (i : Nat) : bare.members (.hidden i) = [] ↔
      ∀ l, bare.layer (.hidden i) = .ok l → l.neurons = [] := by
    by_cases hi : i < bare.hidden.size
    · obtain ⟨l, hl⟩ := mem_refs_iff.mp (hidden_mem_refs.mpr hi)
      simp [members_of_layer hl, hl]
    · refine iff_of_true (members_of_size_le (Nat.le_of_not_lt hi)) fun l hl => ?_
      exact absurd (hidden_mem_refs.mp (mem_refs_iff.mpr ⟨l, hl⟩)) hi
  have sizes (m : Nat) : copy.hidden.size ≤ m ↔
      ∀ i l, m ≤ i → bare.layer (.hidden i) = .ok l → l.neurons = [] := by
    rw [realizes.size_le_iff]
    simp only [listed]
    exact ⟨fun all i l le => all i le l, fun all i le l => all i l le⟩
  have kept : copy.hidden.size = bare.hidden.size ∧ bare.KeepsLayers (bare.nameFrom ids.next) copy ↔
      bare.Capped := by
    rw [← realizes.size_eq_iff]
    exact and_iff_left_of_imp (realizes.keepsLayers sound)
  refine ⟨copy, _, bare.nameFrom ids.next, run_eq, ?_⟩
  cases stands <;>
    exact ⟨realizes.neurons_map sound, fun _ _ => realizes.layer_copied sound, sizes, kept⟩

theorem copy_layers_inner : ∃ net : Network, net.Reachable ∧ net.hidden.size = 2 ∧
    net.layer (.hidden 0) = .ok {} ∧
    ∃ (copy : Network) (ids' : IdSupply) (f : NeuronId → NeuronId),
      net.copy.run ⟨4⟩ = .ok copy ids' ∧ copy.neurons = net.neurons.map (fun p => (f p.1, p.2)) ∧
      copy.hidden.size = 2 ∧ net.KeepsLayers f copy := by
  obtain ⟨net, reachable, size_eq, empty, capped⟩ : ∃ net : Network, net.Reachable ∧
      net.hidden.size = 2 ∧ net.layer (.hidden 0) = .ok {} ∧
      net.hidden.back?.map (·.neurons) = some [2] :=
    exists_reachable [.new 1 [0, 1] 1 { biasInit := ⟨0, 0⟩ }] ⟨_, rfl, rfl, rfl, rfl⟩
  obtain ⟨copy, ids', f, copied, neurons_eq, -, -, kept⟩ := Reachable.copy_layers reachable ⟨4⟩
  obtain ⟨same_size, keeps⟩ := kept.mpr fun l hl none_there => by simp [hl, none_there] at capped
  exact ⟨net, reachable, size_eq, empty, copy, ids', f, copied, neurons_eq, same_size.trans size_eq, keeps⟩

theorem copy_layers_lost :
    let w := ({} : World).run [.new 1 [0] 1 { biasInit := ⟨0, 0⟩ }, .copy 0]
    w.networks.map (fun net => (net.hidden.size, (net.layer (.hidden 0)).toOption)) =
      [(1, some {}), (0, none)] := by
  decide +kernel

end Copies

end Network

end GatedNetwork
