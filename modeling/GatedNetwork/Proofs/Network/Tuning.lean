import GatedNetwork.Proofs.Graph.Tuning
import GatedNetwork.Proofs.Network.Choosing
import GatedNetwork.Proofs.Random.Ranges

/-! Mutations that change values. Each of them tunes the graph in one place or exchanges two values,
and it touches nothing else but the random stream. -/

namespace GatedNetwork

namespace Network

section Setting

variable {bound : NeuronId} {net : Network} {id : NeuronId} {c : ConnectionId}

theorem restore_of_bare (bare : net.program = none) : restore.run net = .ok () net := by
  rw [restore, bind_of_ok (get_run net), bare]
  rfl

theorem setBias_run (net : Network) (bare : net.program = none)
    (there : net.graph.neurons.contains id) (bias : Float) :
    (setBias id bias).run net = .ok () { net with graph := net.graph.tuned (.setBias id bias) } := by
  obtain ⟨n, hn⟩ := Graph.get?_of_contains there
  rw [setBias, bind_of_ok (ask_graph_neuron hn), bind_of_ok (restore_of_bare bare),
    onGraph_of_ok (Graph.modifyNeuron_run there _), Graph.withNeuron_bias]

theorem setSquash_run (net : Network) (bare : net.program = none)
    (there : net.graph.neurons.contains id) (squash : Squash) : (setSquash id squash).run net =
      .ok () { net with graph := net.graph.tuned (.setSquash id squash) } := by
  obtain ⟨n, hn⟩ := Graph.get?_of_contains there
  rw [setSquash, bind_of_ok (ask_graph_neuron hn), bind_of_ok (restore_of_bare bare),
    onGraph_of_ok (Graph.modifyNeuron_run there _), Graph.withNeuron_squash]

theorem setWeight_run (net : Network) (bare : net.program = none) (linked : net.graph.Linked)
    (there : net.graph.contains c) (weight : Float) : (setWeight c weight).run net =
      .ok () { net with graph := net.graph.tuned (.setWeight c weight) } := by
  have edit := Graph.modifyConnection_run (Graph.connection?_isSome_of_contains there)
    fun d => { d with weight }
  rw [setWeight, bind_of_ok (get_run net), if_pos there]
  refine (bind_of_ok (restore_of_bare bare)).trans ?_
  rw [onGraph_of_ok edit, Graph.withConnection_weight linked]

theorem ask_neuron_redrawn {n : Neuron} (hn : net.graph.neurons.get? id = some n) {r : RandomStream} :
    (ask (·.graph.neuron id) : Edit Neuron).run { net with random := r } =
      .ok n { net with random := r } := ask_graph_neuron hn

theorem ask_connection_redrawn {d : Connection} (hd : net.graph.connection? c = some d)
    {r : RandomStream} : (ask (·.graph.connection c) : Edit Connection).run { net with random := r } =
      .ok d { net with random := r } := ask_of_ok (Graph.connection_eq_ok hd)

end Setting

/-- What an operator may do to the values of a network: exchange two of them, add noise from the
range to one of them, or give a neuron an allowed squash that it does not have. -/
inductive Tunes (net : Network) : Mutation → Tuning → Prop where
  | swapWeight {a b : ConnectionId} {d e : Connection} (differ : a ≠ b)
      (there : net.graph.contains a ∧ net.graph.contains b)
      (first : net.graph.connection? a = some d) (second : net.graph.connection? b = some e) :
      Tunes net .swapWeight ((Tuning.setWeight a e.weight).andThen (.setWeight b d.weight))
  | swapBias {a b : NeuronId} {n m : Neuron} (differ : a ≠ b)
      (there : a ∈ net.nonInputs ∧ b ∈ net.nonInputs)
      (first : net.graph.neurons.get? a = some n) (second : net.graph.neurons.get? b = some m) :
      Tunes net .swapBias ((Tuning.setBias a m.bias).andThen (.setBias b n.bias))
  | modifyRandomBias {noise : Range} {id : NeuronId} {n : Neuron} {delta : Float}
      (there : id ∈ net.nonInputs) (found : net.graph.neurons.get? id = some n)
      (inside : noise.lo ≤ delta ∧ delta ≤ noise.hi) :
      Tunes net (.modifyRandomBias noise) (.setBias id (n.bias + delta))
  | modifyRandomWeight {noise : Range} {c : ConnectionId} {d : Connection} {delta : Float}
      (there : net.graph.contains c) (found : net.graph.connection? c = some d)
      (inside : noise.lo ≤ delta ∧ delta ≤ noise.hi) :
      Tunes net (.modifyRandomWeight noise) (.setWeight c (d.weight + delta))
  | modifySquash {allowed : List Squash} {id : NeuronId} {n : Neuron} {squash : Squash}
      (there : id ∈ net.nonInputs) (found : net.graph.neurons.get? id = some n)
      (listed : squash ∈ allowed) (other : squash ≠ n.squash) :
      Tunes net (.modifySquash allowed) (.setSquash id squash)

section Operators

variable {bound : NeuronId} {net : Network}

theorem Sound.linked_setWeight (h : net.Sound bound []) {c : ConnectionId}
    (there : net.graph.contains c) (weight : Float) :
    (net.graph.tuned (.setWeight c weight)).Linked := by
  rw [← Graph.withConnection_weight h.consistent.toLinked]
  exact (h.consistent.withWeight there weight).toLinked

theorem Sound.connection?_of_mem_connections (h : net.Sound bound []) {c : ConnectionId}
    (listed : c ∈ net.connections) : net.graph.contains c ∧ ∃ d, net.graph.connection? c = some d := by
  have there := (mem_connections_iff h c).mp listed
  exact ⟨there, Option.isSome_iff_exists.mp (Graph.connection?_isSome_of_contains there)⟩

theorem Sound.neuron_of_mem_nonInputs (h : net.Sound bound []) {id : NeuronId}
    (listed : id ∈ net.nonInputs) :
    net.graph.neurons.contains id ∧ ∃ n, net.graph.neurons.get? id = some n := by
  have there := h.contains_of_mem_nonInputs listed
  exact ⟨there, Graph.get?_of_contains there⟩

theorem swapWeight_run (h : net.Sound bound []) (many : ¬ net.connections.length < 2) :
    ∃ t r, net.Tunes .swapWeight t ∧
      swapWeight.run net = .ok () { net with graph := net.graph.tuned t, random := r } := by
  obtain ⟨a, ha, b, hb, differ, r, chosen⟩ :=
    pickPair_run net (nodup_connections h) many .fewerThanTwoConnections
  obtain ⟨hasA, d, hd⟩ := h.connection?_of_mem_connections ha
  obtain ⟨hasB, e, he⟩ := h.connection?_of_mem_connections hb
  refine ⟨_, r, .swapWeight differ ⟨hasA, hasB⟩ hd he, ?_⟩
  have first := setWeight_run { net with random := r } h.bare h.consistent.toLinked hasA e.weight
  have second := setWeight_run
    { net with graph := net.graph.tuned (.setWeight a e.weight), random := r } h.bare
    (h.linked_setWeight hasA e.weight) (Graph.tuned_contains.trans hasB) d.weight
  rw [swapWeight, bind_of_ok (get_run net), bind_of_ok chosen, bind_of_ok (ask_connection_redrawn hd),
    bind_of_ok (ask_connection_redrawn he), bind_of_ok first, second, Graph.tuned_tuned]

theorem swapBias_run (h : net.Sound bound []) (many : ¬ net.nonInputs.length < 2) :
    ∃ t r, net.Tunes .swapBias t ∧
      swapBias.run net = .ok () { net with graph := net.graph.tuned t, random := r } := by
  obtain ⟨a, ha, b, hb, differ, r, chosen⟩ :=
    pickPair_run net h.nodup_nonInputs many .fewerThanTwoNeurons
  obtain ⟨hasA, n, hn⟩ := h.neuron_of_mem_nonInputs ha
  obtain ⟨hasB, m, hm⟩ := h.neuron_of_mem_nonInputs hb
  refine ⟨_, r, .swapBias differ ⟨ha, hb⟩ hn hm, ?_⟩
  have first := setBias_run { net with random := r } h.bare hasA m.bias
  have second := setBias_run
    { net with graph := net.graph.tuned (.setBias a m.bias), random := r } h.bare
    (Graph.tuned_contains_neuron.trans hasB) n.bias
  rw [swapBias, bind_of_ok (get_run net), bind_of_ok chosen, bind_of_ok (ask_neuron_redrawn hn),
    bind_of_ok (ask_neuron_redrawn hm), bind_of_ok first, second, Graph.tuned_tuned]

theorem validateNoise_run {noise : Range} (valid : noise.isValid) :
    (validateNoise noise).run net = .ok () net := by
  simp only [validateNoise, Mutation.noiseFault?, valid, ↓reduceIte]
  rfl

theorem onRandom_noise (net : Network) {noise : Range} (valid : noise.isValid) :
    (∃ delta r, (noise.lo ≤ delta ∧ delta ≤ noise.hi) ∧
      (onRandom noise.draw).run net = .ok delta { net with random := r }) ∨
    ∃ s, (onRandom noise.draw).run net = .error .unboundedRange s := by
  have drawn := draw_ends noise (Q := fun _ _ => True) (fun _ _ => trivial) net.random
  cases draw_eq : noise.draw.run net.random with
  | ok delta r => exact .inl ⟨delta, r, Range.draw_mem valid draw_eq, onRandom_of_ok draw_eq⟩
  | error e r =>
    obtain ⟨rfl, -⟩ := drawn.of_eq_error draw_eq
    exact .inr ⟨_, onRandom_of_error draw_eq⟩

theorem modifyRandomBias_run (h : net.Sound bound []) {noise : Range} (valid : noise.isValid)
    (some : net.nonInputs ≠ []) :
    (∃ t r, net.Tunes (.modifyRandomBias noise) t ∧ (modifyRandomBias noise).run net =
      .ok () { net with graph := net.graph.tuned t, random := r }) ∨
    ∃ s, (modifyRandomBias noise).run net = .error .unboundedRange s := by
  obtain ⟨id, hid, r, -, -, chosen⟩ := pick_run net some .noNeuron
  obtain ⟨there, n, hn⟩ := h.neuron_of_mem_nonInputs hid
  rw [modifyRandomBias, bind_of_ok (validateNoise_run valid), bind_of_ok (get_run net), bind_of_ok chosen]
  rcases onRandom_noise { net with random := r } valid with ⟨delta, r', inside, drawn⟩ | ⟨s, failed⟩
  · refine .inl ⟨_, r', .modifyRandomBias hid hn inside, ?_⟩
    rw [bind_of_ok drawn, bind_of_ok (ask_neuron_redrawn hn)]
    exact setBias_run { net with random := r' } h.bare there _
  · exact .inr ⟨s, bind_of_error failed⟩

theorem modifyRandomWeight_run (h : net.Sound bound []) {noise : Range} (valid : noise.isValid)
    (some : net.connections ≠ []) :
    (∃ t r, net.Tunes (.modifyRandomWeight noise) t ∧ (modifyRandomWeight noise).run net =
      .ok () { net with graph := net.graph.tuned t, random := r }) ∨
    ∃ s, (modifyRandomWeight noise).run net = .error .unboundedRange s := by
  obtain ⟨c, hc, r, -, -, chosen⟩ := pick_run net some .noConnection
  obtain ⟨there, d, hd⟩ := h.connection?_of_mem_connections hc
  rw [modifyRandomWeight, bind_of_ok (validateNoise_run valid), bind_of_ok (get_run net), bind_of_ok chosen]
  rcases onRandom_noise { net with random := r } valid with ⟨delta, r', inside, drawn⟩ | ⟨s, failed⟩
  · refine .inl ⟨_, r', .modifyRandomWeight there hd inside, ?_⟩
    rw [bind_of_ok drawn, bind_of_ok (ask_connection_redrawn hd)]
    exact setWeight_run { net with random := r' } h.bare h.consistent.toLinked there _
  · exact .inr ⟨s, bind_of_error failed⟩

/-- The squashes that are allowed leave nothing but what the neuron has. -/
def Sated (net : Network) (allowed : List Squash) (id : NeuronId) : Prop :=
  ∀ n, net.graph.neurons.get? id = some n → ∀ squash ∈ allowed, squash = n.squash

/-- A neuron is drawn first, and only then is it seen whether there is another squash for it. -/
theorem modifySquash_run (h : net.Sound bound []) (allowed : List Squash) (some : net.nonInputs ≠ []) :
    ∃ id r, (Draw.choose net.nonInputs).run net.random = .ok (.some id) r ∧
      net.random.position < r.position ∧
      (net.Sated allowed id ∧ (modifySquash allowed).run net =
          .error (.mutationUnavailable .noOtherSquash) { net with random := r } ∨
        ¬ net.Sated allowed id ∧ ∃ t r', net.Tunes (.modifySquash allowed) t ∧
          (modifySquash allowed).run net = .ok () { net with graph := net.graph.tuned t, random := r' }) := by
  obtain ⟨id, hid, r, choice, read, chosen⟩ := pick_run net some .noNeuron
  obtain ⟨there, n, hn⟩ := h.neuron_of_mem_nonInputs hid
  have sated_iff : net.Sated allowed id ↔ allowed.filter (· ≠ n.squash) = [] := by
    rw [List.filter_eq_nil_iff]
    constructor
    · intro sated squash listed
      simp [sated n hn squash listed]
    · intro none n' hn' squash listed
      obtain rfl := Option.some.inj (hn.symm.trans hn')
      simpa using none squash listed
  refine ⟨id, r, choice, read, ?_⟩
  rw [modifySquash, bind_of_ok (get_run net), bind_of_ok chosen, bind_of_ok (ask_neuron_redrawn hn),
    sated_iff]
  by_cases none : allowed.filter (· ≠ n.squash) = []
  · exact .inl ⟨none, bind_of_error (pick_of_nil none _)⟩
  · obtain ⟨squash, hsquash, r', -, -, chosen'⟩ :=
      pick_run { net with random := r } none .noOtherSquash
    obtain ⟨listed, other⟩ := List.mem_filter.mp hsquash
    refine .inr ⟨none, _, r', .modifySquash hid hn listed (by simpa using other), ?_⟩
    rw [bind_of_ok chosen']
    exact setSquash_run { net with random := r' } h.bare there squash

end Operators

theorem perm_map_swap {α β : Type} [DecidableEq α] {xs : List α} (nodup : xs.Nodup) {a b : α}
    (ha : a ∈ xs) (hb : b ∈ xs) {f f' : α → β} (first : f' a = f b) (second : f' b = f a)
    (others : ∀ x, x ≠ a → x ≠ b → f' x = f x) : (xs.map f').Perm (xs.map f) := by
  have swapped (x : α) : f' x = f (Equiv.swap a b x) := by
    by_cases hxa : x = a
    · rw [hxa, Equiv.swap_apply_left, first]
    · by_cases hxb : x = b
      · rw [hxb, Equiv.swap_apply_right, second]
      · rw [Equiv.swap_apply_of_ne_of_ne hxa hxb, others x hxa hxb]
  have stays {x : α} (hx : x ∈ xs) : Equiv.swap a b x ∈ xs := by
    rw [Equiv.swap_apply_def]
    split
    · exact hb
    · split
      · exact ha
      · exact hx
  have moved : (xs.map (Equiv.swap a b)).Perm xs := by
    refine (List.perm_ext_iff_of_nodup (nodup.map (Equiv.swap a b).injective) nodup).mpr fun x => ?_
    rw [List.mem_map]
    constructor
    · rintro ⟨y, hy, rfl⟩
      exact stays hy
    · exact fun hx => ⟨Equiv.swap a b x, stays hx, Equiv.swap_apply_self a b x⟩
  rw [List.map_congr_left fun x _ => swapped x]
  have mapped := moved.map f
  rwa [List.map_map] at mapped

def weights (net : Network) : List (Option Float) :=
  net.connections.map fun c => (net.graph.connection? c).map (·.weight)

def biases (net : Network) : List (Option Float) :=
  net.nonInputs.map fun id => (net.graph.neurons.get? id).map (·.bias)

section Exchanging

variable {bound : NeuronId} {net : Network} {t : Tuning}

theorem connections_tuned (t : Tuning) (random : RandomStream) :
    { net with graph := net.graph.tuned t, random }.connections = net.connections := by
  refine List.flatMap_congr fun p _ => ?_
  simp only [Graph.tuned, SortedMap.get?_mapValues]
  cases net.graph.neurons.get? p.1 <;> rfl

theorem Tunes.perm_weights (h : net.Tunes .swapWeight t) (sound : net.Sound bound [])
    (random : RandomStream) :
    { net with graph := net.graph.tuned t, random }.weights.Perm net.weights := by
  cases h with
  | @swapWeight a b d e differ there first second =>
    rw [weights, connections_tuned]
    refine perm_map_swap (nodup_connections sound) ((mem_connections_iff sound a).mpr there.1)
      ((mem_connections_iff sound b).mpr there.2) ?_ ?_ fun c ha hb => ?_
    · simp [Graph.tuned_connection?, first, second, Tuning.andThen, Tuning.setWeight, differ]
    · simp [Graph.tuned_connection?, first, second, Tuning.andThen, Tuning.setWeight]
    · simp [Graph.tuned_connection?, Tuning.andThen, Tuning.setWeight, ha, hb]

theorem Tunes.perm_biases (h : net.Tunes .swapBias t) (sound : net.Sound bound [])
    (random : RandomStream) :
    { net with graph := net.graph.tuned t, random }.biases.Perm net.biases := by
  cases h with
  | @swapBias a b n m differ there first second =>
    refine perm_map_swap sound.nodup_nonInputs there.1 there.2 ?_ ?_ fun id ha hb => ?_
    · simp [Graph.tuned, first, second, Tuning.andThen, Tuning.setBias, differ]
    · simp [Graph.tuned, first, second, Tuning.andThen, Tuning.setBias]
    · simp [Graph.tuned, Tuning.andThen, Tuning.setBias, ha, hb]

end Exchanging

end Network

end GatedNetwork
