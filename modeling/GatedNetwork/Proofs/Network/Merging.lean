import GatedNetwork.Proofs.Network.Composing
import GatedNetwork.Proofs.Network.Parts

/-! Merged networks. The network of a chain of descriptions is chained with the networks of its two
parts. -/

namespace GatedNetwork

namespace Network

section Layers

variable {s t : Snapshot} {net : Network} {records : List NeuronRecord} {hidden : Nat}
  {config config' : Config} {start start' : NeuronId}

theorem Planted.length_members (h : net.Planted records hidden config start) (ref : LayerRef) :
    (net.members ref).length = records.countP (·.layer = ref) := by
  rw [h.members, List.length_map, ← List.countP_eq_length_filter]
  calc
    _ = ((Snapshot.planted start records).map (·.2)).countP (· = ref) := by
      rw [List.countP_map]
      rfl
    _ = records.countP (·.layer = ref) := by
      rw [Snapshot.planted_layers, List.countP_map]
      rfl

theorem Realizes.sizes (h : net.Realizes s config start) :
    net.input.neurons.length = s.count .input ∧ net.output.neurons.length = s.count .output :=
  ⟨h.length_members .input, h.length_members .output⟩

theorem Realizes.ids_renumber (h : net.Realizes s config start) (arranged : s.Arranged)
    (start' : NeuronId) :
    net.ids.map (renumber start start') = List.range' start' s.neurons.length := by
  rw [h.ids_planted arranged, List.map_map, List.range'_eq_map_range]
  refine List.map_congr_left fun i _ => ?_
  rw [Function.comp_apply, renumber_add]

theorem range'_split {xs ys : List Nat} {a n : Nat} (h : xs ++ ys = List.range' a n) :
    xs = List.range' a xs.length ∧ ys = List.range' (a + xs.length) ys.length := by
  have length_eq : xs.length + ys.length = n := by simpa using congrArg List.length h
  rw [← length_eq, ← List.range'_append_1] at h
  exact List.append_inj h (by simp)

theorem Realizes.layers_renumber (h : net.Realizes s config start) (arranged : s.Arranged)
    (start' : NeuronId) :
    net.input.neurons.map (renumber start start') = List.range' start' (s.count .input) ∧
    net.workerIds.map (renumber start start') =
      List.range' (start' + s.count .input) (s.neurons.length - s.count .input) ∧
    net.output.neurons.map (renumber start start') =
      List.range' (start' + (s.neurons.length - s.count .output)) (s.count .output) := by
  obtain ⟨input, output⟩ := h.sizes
  have ids := h.ids_renumber arranged start'
  have lengths := congrArg List.length ids
  rw [Network.ids_eq, List.map_append] at ids lengths
  obtain ⟨inputs, later⟩ := range'_split ids
  rw [workerIds, List.map_append, ← List.append_assoc] at ids
  obtain ⟨-, outputs⟩ := range'_split ids
  simp only [workerIds, List.length_append, List.length_map, List.length_range', input, output] at *
  have later_length : s.neurons.length - s.count .input =
      (net.hidden.toList.flatMap (·.neurons)).length + s.count .output := by omega
  have front_length : s.neurons.length - s.count .output =
      s.count .input + (net.hidden.toList.flatMap (·.neurons)).length := by omega
  rw [later_length, front_length]
  exact ⟨inputs, later, outputs⟩

theorem Realizes.mem_workerIds_iff (h : net.Realizes s config start) (arranged : s.Arranged)
    {id : NeuronId} : id ∈ net.workerIds ↔
      ∃ i, (s.count .input ≤ i ∧ i < s.neurons.length) ∧ start + i = id := by
  obtain ⟨input, -⟩ := h.sizes
  have ids : net.input.neurons ++ net.workerIds = List.range' start s.neurons.length := by
    rw [← Network.ids_eq, h.ids_planted arranged, List.range'_eq_map_range]
  have lengths := congrArg List.length ids
  obtain ⟨-, workers⟩ := range'_split ids
  rw [List.length_append, List.length_range', input] at lengths
  rw [workers, List.mem_range'_1, input]
  constructor
  · rintro ⟨ge, lt⟩
    exact ⟨id - start, by omega, Nat.add_sub_of_le (Nat.le_trans (Nat.le_add_right _ _) ge)⟩
  · rintro ⟨i, ⟨ge, lt⟩, rfl⟩
    omega

end Layers

section Chains

variable {s₁ s₂ : Snapshot} {first second whole : Network} {hidden : Nat} {config₁ config₂ config : Config}
  {start₁ start₂ start : NeuronId}

/-- The ids of a network made from a chain are those of the first part, and behind them those of the
second part without its inputs. -/
theorem Realizes.ids_chained (h₁ : first.Realizes s₁ config₁ start₁)
    (h₂ : second.Realizes s₂ config₂ start₂) (h : whole.Realizes (s₁.chain s₂ hidden) config start)
    (meets : s₁.Meets s₂ hidden) :
    whole.ids = first.ids.map (renumber start₁ (start + 0)) ++
      second.workerIds.map (renumber start₂ (start + s₁.offset s₂)) := by
  have offset_eq := meets.offset_add
  have count_le : s₂.count .input ≤ s₂.neurons.length := List.countP_le_length
  have whole_ids : whole.ids = List.range' start (s₁.offset s₂ + s₂.neurons.length) := by
    rw [h.ids_planted meets.arranged_chain, meets.length_chain, List.range'_eq_map_range]
  obtain ⟨-, workers₂, -⟩ := h₂.layers_renumber meets.arranged_second (start + s₁.offset s₂)
  have length_eq : s₁.offset s₂ + s₂.neurons.length =
      s₁.neurons.length + (s₂.neurons.length - s₂.count .input) := by omega
  rw [whole_ids, h₁.ids_renumber meets.arranged_first, workers₂, length_eq, Nat.add_assoc start,
    offset_eq, Nat.add_zero, List.range'_append_1]

/-- A network made from a chain is chained with networks made from its parts. -/
theorem Realizes.chained (h₁ : first.Realizes s₁ config₁ start₁) (h₂ : second.Realizes s₂ config₂ start₂)
    (h : whole.Realizes (s₁.chain s₂ hidden) config start) (meets : s₁.Meets s₂ hidden) :
    Chained (renumber start₁ (start + 0)) (renumber start₂ (start + s₁.offset s₂)) first second whole := by
  have offset_eq := meets.offset_add
  obtain ⟨input₁, -⟩ := h₁.sizes
  obtain ⟨-, output₂⟩ := h₂.sizes
  obtain ⟨input, output⟩ := h.sizes
  rw [Snapshot.count_chain_input] at input
  rw [Snapshot.count_chain_output] at output
  have ids := h₁.ids_chained h₂ h meets
  rw [Network.ids_eq, Network.ids_eq, workerIds, List.map_append, List.append_assoc] at ids
  obtain ⟨inputs, later⟩ := List.append_inj ids (by simp [input, input₁])
  have workers_eq : second.workerIds =
      second.hidden.toList.flatMap (·.neurons) ++ second.output.neurons := rfl
  rw [workers_eq, List.map_append, ← List.append_assoc] at later
  obtain ⟨hiddens, outputs⟩ := List.append_inj' later (by simp [output, output₂])
  have everyone (id : NeuronId) :
      id ∈ first.ids ↔ ∃ i, (0 ≤ i ∧ i < s₁.neurons.length) ∧ start₁ + i = id := by
    rw [h₁.mem_ids_iff meets.arranged_first]
    simp
  have workers (id : NeuronId) : id ∈ second.workerIds ↔
      ∃ i, (s₂.count .input ≤ i ∧ i < s₂.neurons.length) ∧ start₂ + i = id :=
    h₂.mem_workerIds_iff meets.arranged_second
  exact {
    hosts_first := h₁.hosts h meets.arranged_first meets.holds_first everyone
    hosts_second := h₂.hosts h meets.arranged_second meets.holds_second workers
    echoes_first := h₁.echoes h meets.arranged_first meets.holds_first everyone
    echoes_second := h₂.echoes h meets.arranged_second meets.holds_second workers
    input := inputs
    hidden := hiddens
    output := outputs
    meet := by
      obtain ⟨-, -, outputs₁⟩ := h₁.layers_renumber meets.arranged_first (start + 0)
      obtain ⟨inputs₂, -⟩ := h₂.layers_renumber meets.arranged_second (start + s₁.offset s₂)
      have place_eq : s₁.neurons.length - s₂.count .input = s₁.offset s₂ := rfl
      rw [outputs₁, inputs₂, meets.sizes, place_eq, Nat.add_zero] }

end Chains

section Descriptions

variable {first second : Network} {bound₁ bound₂ : NeuronId}

theorem count_described {net : Network} {ref : LayerRef} (there : ref ∈ net.refs) :
    net.described.count ref = (net.members ref).length := by
  calc
    net.described.count ref = net.neurons.countP (·.2 = ref) := by
      rw [Snapshot.count, described, List.countP_map]
      rfl
    _ = (net.members ref).length := by
      rw [List.countP_eq_length_filter, filter_neurons there, List.length_map]

theorem input_le_place {net : Network} {id : NeuronId} (worker : id ∉ net.input.neurons) :
    net.input.neurons.length ≤ net.place id := by
  rw [place, Network.ids_eq, List.idxOf_append_of_notMem worker]
  exact Nat.le_add_right _ _

theorem Sound.adjoins_described (sound₁ : first.Sound bound₁ []) (sound₂ : second.Sound bound₂ [])
    (sizes : first.output.size = second.input.size) :
    first.described.Adjoins second.described first.hidden.size where
  arranged_first := first.arranged_described
  arranged_second := second.arranged_described
  valid_first := sound₁.validate_described
  valid_second := sound₂.validate_described
  sizes := by
    rw [count_described (by simp [refs]), count_described (by simp [refs])]
    exact sizes
  room r hr i hi := by
    obtain ⟨⟨id, ref⟩, hp, rfl⟩ := List.mem_map.mp hr
    obtain rfl : ref = .hidden i := hi
    simpa [refs] using (mem_neurons_iff.mp hp).1

theorem Sound.meets_described (sound₁ : first.Sound bound₁ []) (sound₂ : second.Sound bound₂ [])
    (sizes : first.output.size = second.input.size)
    (sealed : ∀ c, second.graph.contains c → c.target ∉ second.input.neurons) :
    first.described.Meets second.described first.hidden.size where
  toAdjoins := sound₁.adjoins_described sound₂ sizes
  sealed r hr := by
    obtain ⟨c, hc, rfl⟩ := List.mem_map.mp hr
    rw [count_described (by simp [refs])]
    exact input_le_place (sealed c ((mem_connections_iff sound₂ c).mp hc))

/-- Merging makes the network of the chain of the two descriptions. -/
theorem StandsFor.merge_chains {bare₁ bare₂ : Network} (stands₁ : bare₁.StandsFor first)
    (sound₁ : bare₁.Sound bound₁ []) (stands₂ : bare₂.StandsFor second) (sound₂ : bare₂.Sound bound₂ [])
    (sizes : first.output.size = second.input.size) (config : Config) (ids : IdSupply) :
    (first.merge second config).run ids =
      (ofSnapshot (bare₁.described.chain bare₂.described bare₁.hidden.size) config).run ids := by
  obtain ⟨-, hidden_eq, -⟩ := stands₁.layers_eq
  have described₁ := (stands₁.toSnapshot_eq sound₁).trans sound₁.toSnapshot_eq
  have described₂ := (stands₂.toSnapshot_eq sound₂).trans sound₂.toSnapshot_eq
  rw [merge_run sizes, bind_of_ok (ask_fixed_of_ok described₁ ids),
    bind_of_ok (ask_fixed_of_ok described₂ ids), hidden_eq]

end Descriptions

end Network

end GatedNetwork
