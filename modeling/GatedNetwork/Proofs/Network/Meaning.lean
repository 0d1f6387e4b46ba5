import GatedNetwork.Proofs.Network.Copying
import GatedNetwork.Proofs.Session.Indexed

/-! The one network that a description means. Exactly the descriptions that stay inside their own
list of neurons mean one, whatever the order of their records and however often a connection is
named; the others take no id. -/

namespace GatedNetwork

/-- The network is what the description says, with each neuron under the id of its place, and has
not run yet. Of the records for one connection the last weight counts, and the last gater that is
named. -/
structure Network.Means (net : Network) (s : Snapshot) (config : Config) (place : Nat → NeuronId) :
    Prop where
  indexed : net.Indexed
  bare : net.program = none
  config_eq : net.config = config
  neurons : ∀ id, net.graph.neurons.contains id ↔ ∃ i, i < s.neurons.length ∧ place i = id
  traits : ∀ (i : Nat) r, s.neurons[i]? = some r →
    ∃ n, net.graph.neurons.get? (place i) = some n ∧ n.squash = r.squash ∧ n.bias = r.bias
  members : ∀ ref, net.members ref =
    ((s.neurons.mapIdx fun i r => (place i, r.layer)).filter (·.2 = ref)).map (·.1)
  hidden : ∀ m, net.hidden.size ≤ m ↔ ∀ r ∈ s.neurons, ∀ i, r.layer = .hidden i → i < m
  contains : ∀ c, net.graph.contains c ↔ ∃ r ∈ s.connections, r.between place = c
  connection : ∀ c, net.graph.contains c →
    net.graph.connection? c = Snapshot.asked? place s.connections c
  resting : net.graph.Resting

namespace Network

section Meaning

variable {s : Snapshot} {config : Config} {start : NeuronId} {net : Network}
  {records : List NeuronRecord} {hidden : Nat}

theorem Planted.mem_iff (h : net.Planted records hidden config start) (id : NeuronId) :
    net.graph.neurons.contains id ↔ ∃ i, i < records.length ∧ start + i = id := by
  constructor
  · intro there
    rw [← h.sound.mem_ids, ← neurons_ids, List.mem_map] at there
    obtain ⟨⟨x, ref⟩, hp, same⟩ := there
    have listed : x ∈ net.members ref := (mem_neurons_iff.mp hp).2
    rw [h.members, List.mem_map] at listed
    obtain ⟨q, hq, rfl⟩ := listed
    obtain ⟨i, hi, rfl⟩ := List.mem_mapIdx.mp (List.mem_filter.mp hq).1
    exact ⟨i, hi, same⟩
  · rintro ⟨i, hi, rfl⟩
    exact h.contains hi

theorem Realizes.means (h : net.Realizes s config start) : net.Means s config (start + ·) where
  indexed := h.sound.indexed
  bare := h.sound.bare
  config_eq := h.config_eq
  neurons := h.mem_iff
  traits := h.traits
  members := h.members
  hidden m := by
    rw [h.size]
    exact Snapshot.hiddenCount_le_iff
  contains c := by
    rw [← Graph.isSome_active?, h.active]
    exact Snapshot.asked?_isSome_iff
  connection c hc := by
    rw [← h.active, Graph.active?_of_contains hc]
  resting := h.graph_resting

/-- A network is made exactly from settings that are valid and a description whose records name
neurons of its own list. It is then the one that the description means, under the next free ids;
otherwise no id is taken. -/
theorem ofSnapshot_means (s : Snapshot) (config : Config) (ids : IdSupply) :
    ((∃ net ids', (ofSnapshot s config).run ids = .ok net ids') ↔
      config.validate = .ok () ∧ ∀ r ∈ s.connections, r.inRange s.neurons.length) ∧
    Ending (fun net ids' => ids' = ⟨ids.next + s.neurons.length⟩ ∧ net.Means s config (ids.next + ·))
      (fun _ ids' => ids' = ids) ((ofSnapshot s config).run ids) := by
  cases hs : s.validate with
  | error e =>
    have run_eq : (ofSnapshot s config).run ids = .error e ids := by
      rw [ofSnapshot, bind_of_error (ask_fixed_of_error hs ids)]
    have refused : ¬ ∀ r ∈ s.connections, r.inRange s.neurons.length := by
      simp [← Snapshot.validate_eq_ok_iff, hs]
    rw [run_eq]
    exact ⟨iff_of_false (by simp) fun good => refused good.2, rfl⟩
  | ok =>
    cases hc : config.validate with
    | error e =>
      have run_eq : (ofSnapshot s config).run ids = .error e ids := by
        rw [ofSnapshot, bind_of_ok (ask_fixed_of_ok hs ids), grow_of_invalid hc]
      rw [run_eq]
      exact ⟨iff_of_false (by simp) (by simp), rfl⟩
    | ok =>
      obtain ⟨net, run_eq, realizes⟩ := ofSnapshot_ok hs hc ids
      have good := Snapshot.validate_eq_ok_iff.mp hs
      rw [run_eq]
      exact ⟨iff_of_true ⟨net, _, rfl⟩ ⟨rfl, good⟩, rfl, realizes.means⟩

end Meaning

end Network

end GatedNetwork
