import GatedNetwork.Proofs.Network.Ordering
import GatedNetwork.Proofs.Session.Twins

/-! Copies of reachable networks. A copy is the network as clearing would leave it, under new names.
Its description has the same records, in the order of the places; the network itself may describe
its connections in another order, since it lists them by ids. -/

namespace GatedNetwork

namespace Network

section Copies

variable {net : Network}

/-- Clearing a network and copying it give the same network: the neurons of the copy, in the order in
which they are listed, are those of the cleared one under new names, and neither of the two has
anything in it that comes from a run. -/
theorem Reachable.clear_copy (h : net.Reachable) (ids : IdSupply) :
    ∃ (cleared copy : Network) (ids' : IdSupply) (f : NeuronId → NeuronId),
      clear.run net = .ok () cleared ∧ net.copy.run ids = .ok copy ids' ∧
      cleared.program = none ∧ copy.program = none ∧
      (∀ id, cleared.graph.neurons.contains id ↔ id ∈ cleared.neurons.map (·.1)) ∧
      copy.neurons = cleared.neurons.map (fun p => (f p.1, p.2)) ∧
      cleared.graph.Renames f copy.graph ∧ cleared.graph.Resting ∧ copy.graph.Resting := by
  obtain ⟨bound, bare, sound, stands⟩ := h.stands
  obtain ⟨copy, run_eq, realizes⟩ := stands.copy_ok sound ids
  refine ⟨_, copy, _, bare.nameFrom ids.next, stands.clear_run sound, run_eq, sound.bare,
    realizes.sound.bare, fun id => ?_, realizes.neurons_map sound, realizes.renames sound,
    sound.consistent.resting_clear, realizes.graph_resting⟩
  rw [neurons_ids]
  exact (sound.clear.mem_ids id).symm

theorem clear_copy_selfGating : ∃ net : Network, net.Reachable ∧
    net.settled.graph.gater? ⟨1, 2⟩ = some 2 ∧
    ∃ (cleared copy : Network) (ids' : IdSupply) (f : NeuronId → NeuronId),
      clear.run net = .ok () cleared ∧ net.copy.run ⟨3⟩ = .ok copy ids' ∧
      cleared.program = none ∧ copy.program = none ∧
      (∀ id, cleared.graph.neurons.contains id ↔ id ∈ cleared.neurons.map (·.1)) ∧
      copy.neurons = cleared.neurons.map (fun p => (f p.1, p.2)) ∧
      cleared.graph.Renames f copy.graph ∧ cleared.graph.Resting ∧ copy.graph.Resting := by
  obtain ⟨net, reachable, -, -, -, gater_eq⟩ := exists_selfGating
  exact ⟨net, reachable, gater_eq, Reachable.clear_copy reachable ⟨3⟩⟩

/-- A copy is described by the same records, with the connections in order. The two descriptions are
one exactly if those of the network are in order, as they are where its ids ascend. -/
theorem Reachable.copy_described (h : net.Reachable) (ids : IdSupply) :
    ∃ (copy : Network) (ids' : IdSupply) (s t : Snapshot),
      net.copy.run ids = .ok copy ids' ∧ net.toSnapshot = .ok s ∧ copy.toSnapshot = .ok t ∧
      t.neurons = s.neurons ∧ t.connections.Perm s.connections ∧ t.Ordered ∧
      (t = s ↔ s.Ordered) ∧ ((net.neurons.map (·.1)).Pairwise (· < ·) → t = s) := by
  obtain ⟨bound, bare, sound, stands⟩ := h.stands
  obtain ⟨copy, run_eq, realizes⟩ := stands.copy_ok sound ids
  obtain ⟨neurons_eq, perm⟩ := realizes.described_perm sound
  have ordered := realizes.sound.ordered_described (realizes.ascending sound)
  have neurons_stand : net.neurons = bare.neurons := by cases stands <;> rfl
  refine ⟨copy, _, bare.described, copy.described, run_eq,
    (stands.toSnapshot_eq sound).trans sound.toSnapshot_eq, realizes.sound.toSnapshot_eq, neurons_eq,
    perm, ordered, ⟨fun same => same ▸ ordered, fun ordered' => ordered.unique ordered' neurons_eq perm⟩,
    fun ascending => ?_⟩
  rw [neurons_stand, neurons_ids] at ascending
  exact ordered.unique (sound.ordered_described ascending) neurons_eq perm

theorem copy_described_selfGating : ∃ net : Network, net.Reachable ∧
    (net.neurons.map (·.1)).Pairwise (· < ·) ∧
    ∃ (copy : Network) (ids' : IdSupply) (s t : Snapshot),
      net.copy.run ⟨3⟩ = .ok copy ids' ∧ net.toSnapshot = .ok s ∧ copy.toSnapshot = .ok t ∧
      t.neurons = s.neurons ∧ t.connections.Perm s.connections ∧ t.Ordered ∧
      (t = s ↔ s.Ordered) ∧ t = s := by
  obtain ⟨net, reachable, -, -, ids_eq, -⟩ := exists_selfGating
  have ascending : (net.neurons.map (·.1)).Pairwise (· < ·) := by rw [ids_eq]; decide
  obtain ⟨copy, ids', s, t, run_eq, hs, ht, neurons_eq, perm, ordered, same_iff, same⟩ :=
    Reachable.copy_described reachable ⟨3⟩
  exact ⟨net, reachable, ascending, copy, ids', s, t, run_eq, hs, ht, neurons_eq, perm, ordered,
    same_iff, same ascending⟩

/-- An input neuron that is made after the output neuron has a place before it. -/
theorem copy_reordered :
    let w := ({} : World).run [.new 1 [] 1 { biasInit := ⟨0, 0⟩ }, .call 0 (.addNeuron .input),
      .call 0 (.projectNeuron 1 2 (some 1)), .call 0 (.projectNeuron 1 3 (some 2)), .copy 0]
    w.networks.map (fun net => (net.neurons.map (·.1),
        net.toSnapshot.toOption.map fun s => s.connections.map fun r => (r.source, r.target))) =
      [([1, 3, 2], some [(0, 2), (0, 1)]), ([4, 5, 6], some [(0, 1), (0, 2)])] := by
  decide +kernel

end Copies

end Network

end GatedNetwork
