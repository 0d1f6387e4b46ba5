import GatedNetwork.Proofs.Network.Gluing
import GatedNetwork.Proofs.Session.Twins

/-! The connections of merged networks. Nothing is lost exactly if no connection between outputs of the
first network and no connection between inputs of the second are at the same places; where two are,
the merged network has one connection, with the weight of the second network. -/

namespace GatedNetwork

namespace Network

section Gluing

variable {first second : Network} {config : Config}

/-- Two networks that fit are merged. The merged network lists the neurons of the first and then those
of the second that are not inputs, since the inputs are the outputs of the first. It has the
connections of both and no others. All of them are there, each with its own weight and its own gater,
exactly if the two networks are apart. -/
theorem Reachable.merge_glues (h₁ : first.Reachable) (h₂ : second.Reachable)
    (sizes : first.output.size = second.input.size) (settings : config.validate = .ok ())
    (ids : IdSupply) :
    ∃ (merged : Network) (ids' : IdSupply) (f₁ f₂ : NeuronId → NeuronId),
      (first.merge second config).run ids = .ok merged ids' ∧ merged.program = none ∧
      merged.ids = first.ids.map f₁ ++ second.workerIds.map f₂ ∧
      second.input.neurons.map f₂ = first.output.neurons.map f₁ ∧
      (∀ c, c ∈ merged.connections ↔
        (∃ a ∈ first.connections, a.rename f₁ = c) ∨ ∃ b ∈ second.connections, b.rename f₂ = c) ∧
      (∀ a ∈ first.connections,
        (∀ b ∈ second.connections,
          ¬ ConnectionId.Parallel first.output.neurons second.input.neurons a b) →
        first.settled.graph.Carries f₁ merged.graph a) ∧
      (∀ b ∈ second.connections, second.settled.graph.Dominates f₂ merged.graph b) ∧
      (merged.connections.length = first.connections.length + second.connections.length ∧
          (∀ a ∈ first.connections, first.settled.graph.Carries f₁ merged.graph a) ∧
          (∀ b ∈ second.connections, second.settled.graph.Carries f₂ merged.graph b) ↔
        first.Apart second) := by
  obtain ⟨bound₁, bare₁, sound₁, stands₁⟩ := h₁.stands
  obtain ⟨bound₂, bare₂, sound₂, stands₂⟩ := h₂.stands
  obtain ⟨input_eq₁, hidden_eq₁, output_eq₁⟩ := stands₁.layers_eq
  obtain ⟨input_eq₂, hidden_eq₂, output_eq₂⟩ := stands₂.layers_eq
  have sizes' : bare₁.output.size = bare₂.input.size := output_eq₁ ▸ input_eq₂ ▸ sizes
  obtain ⟨merged, made, realizes⟩ :=
    ofSnapshot_ok (sound₁.adjoins_described sound₂ sizes').valid_chain settings ids
  have run_eq := stands₁.merge_chains sound₁ stands₂ sound₂ sizes config ids
  have h : Glued config bound₁ bound₂ ids.next bare₁ bare₂ merged := ⟨sound₁, sound₂, sizes', realizes⟩
  have ids_eq₁ : first.ids = bare₁.ids := by rw [Network.ids, input_eq₁, hidden_eq₁, output_eq₁]; rfl
  have workers_eq₂ : second.workerIds = bare₂.workerIds := by
    rw [workerIds, hidden_eq₂, output_eq₂]
    rfl
  refine ⟨merged, _, bare₁.nameFrom ids.next, bare₂.nameFrom (ids.next + bare₁.seam bare₂),
    run_eq.trans made, realizes.sound.bare, ?_⟩
  rw [Apart, ids_eq₁, workers_eq₂, input_eq₂, output_eq₁, stands₁.connections_eq, stands₂.connections_eq,
    stands₁.settled_eq sound₁, stands₂.settled_eq sound₂]
  exact ⟨h.ids_eq, h.named_alike, h.listed_iff, fun a ha => h.carries_first ha,
    fun b hb => h.dominates_second hb, h.loses_nothing_iff⟩

theorem merge_glues_recurrent : ∃ net : Network, net.Reachable ∧ net.connections = [⟨1, 2⟩, .loop 2] ∧
    ∃ (merged : Network) (ids' : IdSupply) (f₁ f₂ : NeuronId → NeuronId),
      (net.merge net { biasInit := ⟨0, 0⟩ }).run ⟨3⟩ = .ok merged ids' ∧
      merged.connections.length = 4 ∧
      (∀ a ∈ net.connections, net.settled.graph.Carries f₁ merged.graph a) ∧
      ∀ b ∈ net.connections, net.settled.graph.Carries f₂ merged.graph b := by
  obtain ⟨net, reachable, connections_eq, inputs, outputs⟩ : ∃ net : Network, net.Reachable ∧
      net.connections = [⟨1, 2⟩, .loop 2] ∧ net.input.neurons = [1] ∧ net.output.neurons = [2] :=
    exists_reachable [.new 1 [] 1 { biasInit := ⟨0, 0⟩ }, .call 0 (.projectNeuron 1 2 (some 1)),
      .call 0 (.projectNeuron 2 2 (some 0.5)), .call 0 (.gateConnection 1 ⟨2, 2⟩)]
      ⟨_, rfl, rfl, rfl, rfl⟩
  have sizes : net.output.size = net.input.size := by rw [Layer.size, Layer.size, inputs, outputs]; rfl
  have settings : ({ biasInit := ⟨0, 0⟩ } : Config).validate = .ok () := by rfl
  have apart : net.Apart net := by
    rintro a - b hb ⟨i, j, -, -, source, target⟩
    have ends_eq : b.source = 1 ∧ b.target = 1 := by
      simpa [inputs] using And.intro (List.mem_of_getElem? source) (List.mem_of_getElem? target)
    simp only [connections_eq, List.mem_cons, List.not_mem_nil, or_false] at hb
    rcases hb with rfl | rfl <;> simp [ConnectionId.loop] at ends_eq
  obtain ⟨merged, ids', f₁, f₂, merged_eq, -, -, -, -, -, -, kept⟩ :=
    Reachable.merge_glues reachable reachable sizes settings ⟨3⟩
  obtain ⟨length_eq, firsts, seconds⟩ := kept.mpr apart
  rw [connections_eq] at length_eq
  exact ⟨net, reachable, connections_eq, merged, ids', f₁, f₂, merged_eq, length_eq, firsts, seconds⟩

/-- Two outputs are connected as the two inputs are that take their places. -/
theorem merge_overlays :
    let w := ({} : World).run [.new 1 [] 2 { biasInit := ⟨0, 0⟩ }, .call 0 (.projectNeuron 2 3 (some 1)),
      .new 2 [] 1 { biasInit := ⟨0, 0⟩ }, .call 1 (.projectNeuron 4 5 (some 2)),
      .merge 0 1 { biasInit := ⟨0, 0⟩ }]
    w.networks.map (fun net => net.connections.map fun c =>
        (c.source, c.target, (net.graph.connection? c).map (·.weight.toBits))) =
      [[(2, 3, some (1 : Float).toBits)], [(4, 5, some (2 : Float).toBits)],
        [(8, 9, some (2 : Float).toBits)]] := by
  decide +kernel

end Gluing

end Network

end GatedNetwork
