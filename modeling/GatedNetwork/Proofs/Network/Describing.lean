import Mathlib.Data.List.Basic
import GatedNetwork.Proofs.Network.Enumeration
import GatedNetwork.Proofs.Network.Founding
import GatedNetwork.Proofs.Snapshot.Meaning

/-! The description of a network whose indexes agree: every name that is looked up is found, and a
neuron is named by its place in the list. -/

namespace GatedNetwork

namespace Network

/-- The place of a neuron in the list of all neurons. -/
def place (net : Network) (id : NeuronId) : Nat := net.ids.idxOf id

def describedNeuron (net : Network) (p : NeuronId × LayerRef) : NeuronRecord :=
  let n := (net.graph.neurons.get? p.1).getD default
  { bias := n.bias, squash := n.squash, layer := p.2 }

def describedConnection (net : Network) (c : ConnectionId) : ConnectionRecord :=
  let d := (net.graph.connection? c).getD default
  { source := net.place c.source
    target := net.place c.target
    weight := d.weight
    gater := d.gater.map net.place }

/-- The description of a network whose numbers are in its graph. -/
def described (net : Network) : Snapshot where
  neurons := net.neurons.map net.describedNeuron
  connections := net.connections.map net.describedConnection

section Places

variable {bound : NeuronId} {net bare : Network} {id : NeuronId} {c : ConnectionId}

theorem length_ids (net : Network) : net.ids.length = net.neurons.length := by
  rw [← neurons_ids, List.length_map]

theorem Sound.mem_ids (sound : net.Sound bound []) (id : NeuronId) :
    id ∈ net.ids ↔ net.graph.neurons.contains id := by simpa using sound.mem_iff id

theorem Sound.nodup_ids (sound : net.Sound bound []) : net.ids.Nodup := by simpa using sound.nodup

theorem Sound.place_lt (sound : net.Sound bound []) (hid : net.graph.neurons.contains id) :
    net.place id < net.neurons.length := by
  rw [← length_ids]
  exact List.idxOf_lt_length_of_mem ((sound.mem_ids id).mpr hid)

theorem Sound.place_injective (sound : net.Sound bound []) {x : NeuronId}
    (hid : net.graph.neurons.contains id) (same : net.place id = net.place x) : id = x :=
  (List.idxOf_inj ((sound.mem_ids id).mpr hid)).mp same

theorem Sound.place_getElem (sound : net.Sound bound []) {i : Nat} (hi : i < net.ids.length) :
    net.place net.ids[i] = i := sound.nodup_ids.idxOf_getElem i hi

theorem Sound.getElem?_place (sound : net.Sound bound []) (hid : net.graph.neurons.contains id) :
    ∃ ref, net.neurons[net.place id]? = some (id, ref) := by
  have listed : (net.neurons.map (·.1))[net.place id]? = some id := by
    rw [neurons_ids]
    exact List.getElem?_idxOf ((sound.mem_ids id).mpr hid)
  rw [List.getElem?_map, Option.map_eq_some_iff] at listed
  obtain ⟨⟨_, ref⟩, found, rfl⟩ := listed
  exact ⟨ref, found⟩

theorem Sound.placeOf_eq (sound : net.Sound bound []) (hid : net.graph.neurons.contains id) :
    placeOf net.ids id = .ok (net.place id) := by
  obtain ⟨i, hi⟩ := Option.isSome_iff_exists.mp (List.isSome_idxOf?.mpr ((sound.mem_ids id).mpr hid))
  have place_eq : net.place id = i := by
    rw [place, List.idxOf_eq_getD_idxOf?, hi, Option.getD_some]
  simp only [placeOf, hi, place_eq]

theorem Sound.neuronRecord_eq (sound : net.Sound bound []) (hid : net.graph.neurons.contains id)
    (ref : LayerRef) : net.neuronRecord id ref = .ok (net.describedNeuron (id, ref)) := by
  obtain ⟨n, hn⟩ := Graph.get?_of_contains hid
  simp only [neuronRecord, Graph.neuron_eq_ok hn, bind, Except.bind, describedNeuron, hn, live,
    sound.bare]
  rfl

theorem Sound.connectionRecord_eq (sound : net.Sound bound []) (hc : net.graph.contains c) :
    net.connectionRecord net.ids c = .ok (net.describedConnection c) := by
  have linked := sound.consistent.toLinked
  obtain ⟨d, hd⟩ := Option.isSome_iff_exists.mp (Graph.connection?_isSome_of_contains hc)
  obtain ⟨hs, ht⟩ := linked.ends hd
  have gater_eq : d.gater.mapM (placeOf net.ids) = .ok (d.gater.map net.place) := by
    cases hg : d.gater with
    | none => rfl
    | some x =>
      simp only [Option.mapM_some, sound.placeOf_eq (linked.gater_contains hd hg)]
      rfl
  simp only [connectionRecord, Graph.connection_eq_ok hd, sound.placeOf_eq hs, sound.placeOf_eq ht,
    gater_eq, bind, Except.bind, describedConnection, hd, live, sound.bare]
  rfl

/-- No lookup of a description fails. -/
theorem Sound.toSnapshot_eq (sound : net.Sound bound []) : net.toSnapshot = .ok net.described := by
  have neurons_eq : net.neurons.mapM (fun p => net.neuronRecord p.1 p.2) =
      .ok (net.neurons.map net.describedNeuron) :=
    mapM_eq_ok fun p hp => sound.neuronRecord_eq ((sound.mem_ids p.1).mp (by
      rw [← neurons_ids]
      exact List.mem_map_of_mem hp)) p.2
  have connections_eq : net.connections.mapM (net.connectionRecord net.ids) =
      .ok (net.connections.map net.describedConnection) :=
    mapM_eq_ok fun c hc => sound.connectionRecord_eq ((mem_connections_iff sound c).mp hc)
  simp only [toSnapshot, neurons_ids]
  rw [neurons_eq]
  simp only [bind, Except.bind, connections_eq]
  rfl

theorem Sound.validate_described (sound : net.Sound bound []) : net.described.validate = .ok () := by
  refine Snapshot.validate_eq_ok_iff.mpr fun r hr => ?_
  obtain ⟨c, hc, rfl⟩ := List.mem_map.mp hr
  have linked := sound.consistent.toLinked
  obtain ⟨d, hd⟩ := Option.isSome_iff_exists.mp
    (Graph.connection?_isSome_of_contains ((mem_connections_iff sound c).mp hc))
  obtain ⟨hs, ht⟩ := linked.ends hd
  simp only [ConnectionRecord.inRange, described, List.length_map, Bool.and_eq_true,
    decide_eq_true_eq, describedConnection, hd, Option.getD_some, Option.all_eq_true]
  refine ⟨⟨sound.place_lt hs, sound.place_lt ht⟩, fun i hi => ?_⟩
  obtain ⟨x, hx, rfl⟩ := Option.map_eq_some_iff.mp hi
  exact sound.place_lt (linked.gater_contains hd hx)

end Places

end Network

end GatedNetwork
