import GatedNetwork.Proofs.Graph.Isolating
import GatedNetwork.Proofs.Network.Drawing
import GatedNetwork.Proofs.Session.Twins

/-! Breaking all connections of a network at once. It succeeds whatever gates whatever, and leaves the
layers as they are, with neurons that keep their own numbers and nothing else. -/

namespace GatedNetwork

namespace Network

variable {net : Network}

theorem connections_isolated (net : Network) :
    connections { net with graph := net.graph.isolated } = [] := by
  rw [connections, List.flatMap_eq_nil_iff]
  rintro ⟨id, ref⟩ -
  simp only [Graph.isolated, SortedMap.get?_mapValues]
  cases net.graph.neurons.get? id <;> rfl

/-- Every connection is broken, each once, in whatever order their gaters come; of the numbers taken
back from a program, those of the neurons themselves are left. -/
theorem Reachable.disconnectAll_isolates (h : net.Reachable) :
    restore.run net = .ok () net.settled ∧ ∃ net', disconnectAll.run net = .ok () net' ∧
      net' = { net.settled with graph := net.settled.graph.isolated } ∧ net'.connections = [] ∧
      net'.input = net.input ∧ net'.hidden = net.hidden ∧ net'.output = net.output := by
  obtain ⟨bound, bare, sound, stands⟩ := h.stands
  have stripped_eq : bare.graph.stripped bare.connections = bare.graph.isolated :=
    sound.consistent.stripped_eq fun c hc => (mem_connections_iff sound c).mpr hc
  have run_eq := stands.disconnectAll_run sound
  obtain ⟨input_eq, hidden_eq, output_eq⟩ := stands.layers_eq
  rw [stripped_eq] at run_eq
  rw [stands.settled_eq sound]
  exact ⟨stands.restore_run sound, _, run_eq, rfl, bare.connections_isolated, input_eq.symm,
    hidden_eq.symm, output_eq.symm⟩

theorem disconnectAll_isolates_selfGating : ∃ net net' : Network, net.Reachable ∧
    net.settled.graph.gater? ⟨1, 2⟩ = some 2 ∧ net.settled.graph.gater? ⟨2, 2⟩ = some 2 ∧
    disconnectAll.run net = .ok () net' ∧
    net' = { net.settled with graph := net.settled.graph.isolated } ∧ net'.connections = [] := by
  obtain ⟨net, reachable, gated, loop_gated⟩ : ∃ net : Network, net.Reachable ∧
      net.settled.graph.gater? ⟨1, 2⟩ = some 2 ∧ net.settled.graph.gater? ⟨2, 2⟩ = some 2 :=
    exists_reachable [.new 1 [] 1 { biasInit := ⟨0, 0⟩ }, .call 0 (.projectNeuron 1 2 (some 1)),
      .call 0 (.projectNeuron 2 2 (some 0.5)), .call 0 (.gateConnection 2 ⟨1, 2⟩),
      .call 0 (.gateConnection 2 ⟨2, 2⟩)] ⟨_, rfl, rfl, rfl⟩
  obtain ⟨-, net', isolates, net'_eq, none, -⟩ := Reachable.disconnectAll_isolates reachable
  exact ⟨net, net', reachable, gated, loop_gated, isolates, net'_eq, none⟩

end Network

end GatedNetwork
