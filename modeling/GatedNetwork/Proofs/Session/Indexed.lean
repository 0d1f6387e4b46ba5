import GatedNetwork.Proofs.Graph.Active
import GatedNetwork.Proofs.Session.Twins

/-! The layers and the indexes of reachable networks. Whatever has been done to a network, with
success or without, its layers list its neurons and its indexes say the same thing. -/

namespace GatedNetwork

/-- The layers list the neurons of the graph, each of them once, and the indexes of the graph
agree. A self-connection that is not enabled is as it was made. -/
structure Network.Indexed (net : Network) : Prop where
  listed_once : (net.neurons.map (·.1)).Nodup
  listed : ∀ id, id ∈ net.neurons.map (·.1) ↔ net.graph.neurons.contains id
  consistent : net.graph.Consistent
  disabled : ∀ id n, net.graph.neurons.get? id = some n → n.selfConnected = false →
    n.selfConnection = { weight := 0 }

namespace Network

theorem Sound.indexed {bound : NeuronId} {net : Network} (h : net.Sound bound []) : net.Indexed where
  listed_once := by simpa [neurons_ids] using h.nodup
  listed id := by simpa [neurons_ids] using h.mem_iff id
  consistent := h.consistent
  disabled _ _ := h.consistent.disabled_self

theorem StandsFor.indexed {bound : NeuronId} {net bare : Network} (h : bare.StandsFor net)
    (sound : bare.Sound bound []) : net.Indexed where
  listed_once := by
    have neurons_eq : net.neurons = bare.neurons := by cases h <;> rfl
    rw [neurons_eq]
    exact sound.indexed.listed_once
  listed id := by
    have neurons_eq : net.neurons = bare.neurons := by cases h <;> rfl
    rw [neurons_eq, Graph.contains_neuron_of_skeleton_eq h.skeleton]
    exact sound.indexed.listed id
  consistent := h.consistent sound
  disabled _ _ := (h.consistent sound).disabled_self

/-- After any run of public operations the indexes of every network agree, those of the graph it
holds and those of the graph with the numbers of its program taken back. -/
theorem Reachable.indexes_agree {net : Network} (h : net.Reachable) :
    net.Indexed ∧ restore.run net = .ok () net.settled ∧ net.settled.Indexed := by
  obtain ⟨bound, bare, sound, stands⟩ := h.stands
  have restored := stands.restore_run sound
  have settled_eq := stands.settled_eq sound
  rw [settled_eq]
  exact ⟨stands.indexed sound, restored, sound.indexed⟩

theorem indexes_agree_selfGating : ∃ net : Network, net.Reachable ∧
    net.settled.graph.gater? ⟨1, 2⟩ = some 2 ∧
    net.Indexed ∧ restore.run net = .ok () net.settled ∧ net.settled.Indexed := by
  obtain ⟨net, reachable, -, -, -, gater_eq⟩ := exists_selfGating
  exact ⟨net, reachable, gater_eq, Reachable.indexes_agree reachable⟩

end Network

end GatedNetwork
