import GatedNetwork.Proofs.Network.Learning
import GatedNetwork.Proofs.Network.Refusing
import GatedNetwork.Proofs.Session.Twins

/-! What the passes over a network leave alone, number by number. A forward pass changes nothing that
is learned, and a backward pass nothing that is computed. -/

namespace GatedNetwork

open GatedNetwork.Graph

namespace Network

/-- The keys of what the network learns: the errors and biases of the neurons that are not inputs, the
weights of the connections between two neurons that enter one of those, and the influences on hidden
neurons. -/
def Learns (net : Network) : Key → Prop
  | .responsibility id | .projected id | .gated id | .bias id => id ∈ net.workerIds
  | .weight c => c.isSelf = false ∧ c.target ∈ net.workerIds
  | .influence id _ => ∃ l ∈ net.hidden.toList, id ∈ l.neurons
  | _ => False

/-- With the numbers taken back, the second network is the first one but for numbers with these
keys. -/
structure Touches (net : Network) (touched : Key → Prop) (net' : Network) : Prop where
  restores : restore.run net' = .ok () net'.settled
  rest : net'.settled = { net.settled with graph := net'.settled.graph }
  skeleton : net'.settled.graph.skeleton = net.settled.graph.skeleton
  value : ∀ k, ¬ touched k → net'.settled.graph.value k = net.settled.graph.value k

section Frames

variable {bound : NeuronId} {net net' bare : Network} {live : Graph}

theorem StandsFor.touches (h : bare.StandsFor net) (sound : bare.Sound bound [])
    (h' : { bare with graph := live }.StandsFor net') (sound' : { bare with graph := live }.Sound bound [])
    (skeleton_eq : bare.graph.skeleton = live.skeleton) {touched : Key → Prop}
    (same : ∀ k, ¬ touched k → k.isField → live.reading k = bare.graph.reading k) :
    net.Touches touched net' := by
  have settled_eq := h.settled_eq sound
  have settled_eq' := h'.settled_eq sound'
  constructor
  · rw [settled_eq']
    exact h'.restore_run sound'
  · rw [settled_eq, settled_eq']
  · rw [settled_eq, settled_eq']
    exact skeleton_eq.symm
  · intro k hk
    rw [settled_eq, settled_eq']
    apply value_eq_of_reading skeleton_eq
    cases k with
    | rate | target | error | gradient => rfl
    | _ => exact same _ hk rfl

theorem described_of_akin (akin : bare.graph.Akin live) :
    { bare with graph := live }.described = bare.described := by
  have neuron_eq (p : NeuronId × LayerRef) :
      { bare with graph := live }.describedNeuron p = bare.describedNeuron p := by
    have bias_eq := akin.bias p.1
    cases hn : bare.graph.neurons.get? p.1 with
    | none =>
      simp only [describedNeuron, hn, get?_eq_none_of_skeleton_eq akin.skeleton hn]
    | some n =>
      obtain ⟨n', hn', skeleton_eq⟩ := get?_of_skeleton_eq akin.skeleton hn
      simp only [reading_bias, hn, hn', Option.map_some, Option.getD_some] at bias_eq
      simp only [describedNeuron, hn, hn', Option.getD_some, bias_eq,
        (Neuron.of_skeleton_eq skeleton_eq).1]
  have connection_eq (c : ConnectionId) :
      { bare with graph := live }.describedConnection c = bare.describedConnection c := by
    have weight_eq := akin.weight c
    cases hd : bare.graph.connection? c with
    | none =>
      simp only [describedConnection, hd, connection?_eq_none_of_skeleton_eq akin.skeleton hd]
      rfl
    | some d =>
      obtain ⟨d', hd', gater_eq⟩ := connection?_of_skeleton_eq akin.skeleton hd
      simp only [reading_weight, hd, hd', Option.map_some, Option.getD_some] at weight_eq
      simp only [describedConnection, hd, hd', Option.getD_some, weight_eq, gater_eq]
      rfl
  have connections_eq : connections { bare with graph := live } = bare.connections :=
    connections_eq_of_skeleton_eq rfl akin.skeleton.symm
  rw [described, described, funext neuron_eq, funext connection_eq, connections_eq]
  rfl

theorem StandsFor.touches_activate (h : bare.StandsFor net) (sound : bare.Sound bound [])
    {values answer : List Float} (run_eq : (activate values).run net = .ok answer net') :
    net.Touches (·.isFired) net' ∧ net'.toSnapshot = net.toSnapshot := by
  have length_eq : values.length = bare.input.size := by
    have accepted := (h.guarded_activate sound values).iff_passes.mp ⟨answer, net', run_eq⟩
    cases h <;> exact accepted
  obtain ⟨live, net'', run_eq', skeleton_eq, agrees, sound', stands⟩ := h.sweeps sound length_eq
  obtain ⟨rfl, rfl⟩ : answer = bare.answer values ∧ net' = net'' := by
    simpa using run_eq.symm.trans run_eq'
  constructor
  · apply h.touches sound stands sound' skeleton_eq
    intro k hk field
    rw [← agrees k field, sound.swept_of_not_isFired (by simpa using hk)]
  · have akin := sound.akin_of_agrees skeleton_eq agrees
    rw [stands.toSnapshot_eq sound', h.toSnapshot_eq sound, sound'.toSnapshot_eq, sound.toSnapshot_eq,
      described_of_akin akin]

theorem not_isLearnt_of_not_learns {k : Key} (hk : ¬ bare.Learns k) {r : NeuronId × Role}
    (hr : r ∈ workers bare.hidden.toList bare.output) (hof : k.IsOf r.1) : k.isLearnt r.2 = false := by
  have worker : r.1 ∈ bare.workerIds := by
    rw [workerIds, ← workers_ids]
    exact List.mem_map_of_mem hr
  cases k with
  | responsibility id | projected id | bias id | gated id =>
    obtain rfl : id = r.1 := hof
    exact absurd worker hk
  | influence id =>
    obtain rfl : id = r.1 := hof
    obtain ⟨id, role⟩ := r
    cases role with
    | hidden => exact absurd (mem_hidden_of_mem_workers hr) hk
    | input | output => rfl
  | _ => rfl

theorem StandsFor.touches_propagate (h : bare.StandsFor net) (sound : bare.Sound bound [])
    {rate : Float} {targets : List Float} (run_eq : (propagate rate targets).run net = .ok () net') :
    net.Touches bare.Learns net' := by
  obtain ⟨valid, length_eq⟩ :
      Program.validRate rate ∧ targets.length = bare.output.size := by
    have accepted := (h.guarded_propagate sound rate targets).iff_passes.mp ⟨(), net', run_eq⟩
    cases h <;> exact accepted
  obtain ⟨live, net'', run_eq', skeleton_eq, agrees, sound', stands⟩ := h.learns sound valid length_eq
  obtain rfl : net' = net'' := by simpa using run_eq.symm.trans run_eq'
  apply h.touches sound stands sound' skeleton_eq
  intro k hk field
  have visited : (workers bare.hidden.toList bare.output).reverse.map (·.1) = bare.workerIds.reverse := by
    rw [List.map_reverse, workers_ids]
    rfl
  rw [← agrees k field, learned, foldl_learn_of_untaught sound.consistent.toLinked, tasked_eq field]
  · exact fun r hr => sound.worker_present hr
  · intro r hr
    exact not_isLearnt_of_not_learns hk (List.mem_reverse.mp hr)
  · rintro c rfl hself entered
    rw [visited, List.mem_reverse] at entered
    exact hk ⟨hself, entered⟩
  · intro sum
    cases k with
    | error | gradient => cases field
    | _ => exact sum

end Frames

/-- A step of a reachable network, however it is run, computes without learning and learns without
computing. The description is of what is learned, and no input neuron learns. -/
theorem Reachable.passes_touch {net : Network} (h : net.Reachable) :
    restore.run net = .ok () net.settled ∧ (∀ id ∈ net.input.neurons, id ∉ net.workerIds) ∧
      (∀ values answer net', (activate values).run net = .ok answer net' →
        net.Touches (·.isFired) net' ∧ net'.toSnapshot = net.toSnapshot) ∧
      ∀ rate targets net', (propagate rate targets).run net = .ok () net' →
        net.Touches net.Learns net' := by
  obtain ⟨bound, bare, sound, stands⟩ := h.stands
  have learns_eq : bare.Learns = net.Learns := by cases stands <;> rfl
  refine ⟨?_, ?_, fun values answer net' run_eq => ?_, fun rate targets net' run_eq => ?_⟩
  · rw [stands.settled_eq sound]
    exact stands.restore_run sound
  · have apart : ∀ id ∈ bare.input.neurons, id ∉ bare.workerIds := by
      have nodup := sound.nodup_ids
      rw [ids_eq] at nodup
      intro id input worker
      exact (List.nodup_append.mp nodup).2.2 id input id worker rfl
    cases stands <;> exact apart
  · exact stands.touches_activate sound run_eq
  · rw [← learns_eq]
    exact stands.touches_propagate sound run_eq

theorem passes_touch_selfGating : ∃ net : Network, net.Reachable ∧
    (∃ answer net', (activate [1]).run net = .ok answer net' ∧ net.Touches (·.isFired) net') ∧
    ∃ net', (propagate 0.5 [0]).run net = .ok () net' ∧ net.Touches net.Learns net' := by
  obtain ⟨net, reachable, input_size, output_size, -⟩ := exists_selfGating
  obtain ⟨bound, bare, sound, stands⟩ := reachable.stands
  obtain ⟨-, -, activates, propagates⟩ := Reachable.passes_touch reachable
  have valid : Program.validRate 0.5 = true := by decide
  obtain ⟨answer, fed, feed_eq⟩ := (stands.guarded_activate sound [1]).iff_passes.mpr input_size.symm
  obtain ⟨⟨⟩, taught, teach_eq⟩ :=
    (stands.guarded_propagate sound 0.5 [0]).iff_passes.mpr ⟨valid, output_size.symm⟩
  exact ⟨net, reachable, ⟨answer, fed, feed_eq, (activates _ _ _ feed_eq).1⟩,
    taught, teach_eq, propagates _ _ _ teach_eq⟩

end Network

end GatedNetwork
