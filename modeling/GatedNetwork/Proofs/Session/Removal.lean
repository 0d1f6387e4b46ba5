import GatedNetwork.Proofs.Network.Describing
import GatedNetwork.Proofs.Session.Twins

/-! Removing neurons of reachable networks. A removal that succeeds leaves nothing that names the
neuron; it succeeds unless the neuron gates one of its own regular connections. -/

namespace GatedNetwork

namespace Graph

/-- Nothing in the graph names the neuron. -/
structure Forgets (g : Graph) (id : NeuronId) : Prop where
  neuron : g.neurons.contains id = false
  connections : ∀ c d, g.connection? c = some d → c.source ≠ id ∧ c.target ≠ id ∧ d.gater ≠ some id
  lists : ∀ x n, g.neurons.get? x = some n → ∀ c, n.inputs.contains c ∨ n.projected.contains c ∨
    n.gated.contains c ∨ n.trace.eligibility.contains c → c.source ≠ id ∧ c.target ≠ id
  traces : ∀ x n, g.neurons.get? x = some n → ∀ k,
    n.trace.extended.contains k ∨ n.trace.influences.contains k → k ≠ id
  rows : ∀ x n, g.neurons.get? x = some n → ∀ k row, n.trace.extended.get? k = some row →
    ∀ c, row.contains c → c.source ≠ id ∧ c.target ≠ id

section Forgetting

variable {g : Graph} {id : NeuronId} {n : Neuron} {c : ConnectionId}

theorem Linked.forgets (h : g.Linked) (gone : g.neurons.contains id = false) : g.Forgets id := by
  have other {x : NeuronId} (hx : g.neurons.contains x) : x ≠ id := by
    rintro rfl
    simp [gone] at hx
  have apart {c : ConnectionId} (hc : ∃ d, g.connection? c = some d) :
      c.source ≠ id ∧ c.target ≠ id := by
    obtain ⟨d, hd⟩ := hc
    exact ⟨other (h.ends hd).1, other (h.ends hd).2⟩
  have input_apart {x : NeuronId} {n : Neuron} (hn : g.neurons.get? x = some n) {c : ConnectionId}
      (hc : n.inputs.contains c) : c.source ≠ id ∧ c.target ≠ id := apart (h.input hn hc).2.2.1
  refine ⟨gone, fun c d hd => ?_, fun x n hn c hc => ?_, fun x n hn k hk => ?_,
    fun x n hn k row hrow c hc => ?_⟩
  · obtain ⟨hsource, htarget⟩ := apart ⟨d, hd⟩
    refine ⟨hsource, htarget, fun gater_eq => ?_⟩
    exact other (h.gater_mem c id (by simp [gater?, hd, gater_eq])).2 rfl
  · rcases hc with hc | hc | hc | hc
    · exact input_apart hn hc
    · exact apart (h.projection hn hc).2.2.1
    · exact apart (h.gate hn hc).1
    · exact input_apart hn ((h.traced x n hn).eligibility c ▸ hc)
  · have hk : n.trace.extended.contains k := by
      rcases hk with hk | hk
      · exact hk
      · exact (h.traced x n hn).influences k ▸ hk
    obtain ⟨t, ht⟩ := h.extended hn hk
    exact other (contains_of_get? ht)
  · exact input_apart hn ((h.traced x n hn).rows k row hrow c ▸ hc)

end Forgetting

end Graph

namespace Network

/-- The second network is the first one without the neuron: nothing names it any more, connections
that it gated go on ungated, and all else stays. -/
structure Removes (id : NeuronId) (net net' : Network) : Prop where
  listed : ∀ x, x ∈ net'.neurons.map (·.1) ↔ x ∈ net.neurons.map (·.1) ∧ x ≠ id
  forgets : net'.graph.Forgets id
  connections : ∀ c, net'.graph.connection? c =
    if c.source = id ∨ c.target = id then none
    else (net.graph.connection? c).map fun d =>
      if d.gater = some id then { d with gater := none, gain := 1 } else d
  neurons : ∀ x n, x ≠ id → net.graph.neurons.get? x = some n →
    ∃ n', net'.graph.neurons.get? x = some n' ∧ n.Spares n'

theorem Sound.removes {bound : NeuronId} {net net' : Network} {id : NeuronId} (sound : net.Sound bound [])
    (sound' : net'.Sound bound []) (removed : Graph.Removed id net.graph net'.graph) :
    net.Removes id net' where
  listed x := by
    rw [neurons_ids, neurons_ids, sound'.mem_ids, removed.neurons, sound.mem_ids]
    simp
  forgets := removed.consistent.toLinked.forgets (by simp [removed.neurons])
  connections := removed.connections
  neurons x n hx hn := by
    obtain ⟨n', hn'⟩ := Graph.get?_of_contains (g := net'.graph)
      (by simp [removed.neurons, Graph.contains_of_get? hn, hx] : net'.graph.neurons.contains x)
    obtain ⟨m, hm, spares⟩ := removed.spares x n' hn'
    obtain rfl : n = m := Option.some.inj (hn.symm.trans hm)
    exact ⟨n', hn', spares⟩

/-- Removing a neuron succeeds if and only if the neuron gates none of its own regular connections,
and then it is complete. -/
theorem Reachable.removeNeuron_ok {net : Network} (h : net.Reachable) {id : NeuronId}
    (listed : id ∈ net.neurons.map (·.1)) :
    ((∃ net', (removeNeuron id).run net = .ok () net') ↔
      ∀ c, ¬ net.settled.graph.GatesOwn id c) ∧
    ∀ net', (removeNeuron id).run net = .ok () net' → net.settled.Removes id net' := by
  obtain ⟨bound, bare, sound, stands⟩ := h.stands
  have settled_eq := stands.settled_eq sound
  have neurons_eq : net.neurons = bare.neurons := by cases stands <;> rfl
  rw [neurons_eq, neurons_ids] at listed
  obtain ⟨ref, layerOf_eq⟩ := layerOf_isSome listed
  rw [settled_eq]
  rcases removeNeuron_cases stands sound layerOf_eq with
    ⟨free, net', run_eq, sound', removed, -⟩ | ⟨c, own, g, -, -, run_eq⟩
  · refine ⟨⟨fun _ => free, fun _ => ⟨net', run_eq⟩⟩, fun net'' run_eq' => ?_⟩
    obtain rfl : net' = net'' := by simpa [run_eq] using run_eq'
    exact sound.removes sound' removed
  · refine ⟨⟨fun ⟨net', run_eq'⟩ => ?_, fun free => absurd own (free c)⟩, fun net' run_eq' => ?_⟩
    · cases run_eq.symm.trans run_eq'
    · cases run_eq.symm.trans run_eq'

theorem removeNeuron_ok_selfGating : ∃ net net' : Network, net.Reachable ∧
    net.neurons.map (·.1) = [1, 2] ∧ net.settled.graph.contains ⟨1, 2⟩ ∧
    (removeNeuron 1).run net = .ok () net' ∧ net.settled.Removes 1 net' ∧
    ¬ ∃ net', (removeNeuron 2).run net = .ok () net' := by
  obtain ⟨net, reachable, ids_eq, there, free, own⟩ : ∃ net : Network, net.Reachable ∧
      net.neurons.map (·.1) = [1, 2] ∧ net.settled.graph.contains ⟨1, 2⟩ ∧
      (∀ c ∈ net.settled.graph.connections.keys, ¬ net.settled.graph.GatesOwn 1 c) ∧
      net.settled.graph.GatesOwn 2 ⟨1, 2⟩ :=
    exists_reachable [.new 1 [] 1 { biasInit := ⟨0, 0⟩ }, .call 0 (.projectNeuron 1 2 (some 1)),
      .call 0 (.gateConnection 2 ⟨1, 2⟩)] (by decide +kernel)
  have listed : ∀ id ∈ [1, 2], id ∈ net.neurons.map (·.1) := by simp [ids_eq]
  obtain ⟨removable, complete⟩ := Reachable.removeNeuron_ok reachable (listed 1 (by simp))
  obtain ⟨net', run_eq⟩ := removable.mpr fun c own => free c own.mem_keys own
  obtain ⟨stuck, -⟩ := Reachable.removeNeuron_ok reachable (listed 2 (by simp))
  exact ⟨net, net', reachable, ids_eq, there, run_eq, complete net' run_eq,
    fun removed => stuck.mp removed ⟨1, 2⟩ own⟩

theorem removeNeuron_stuck :
    let w := ({} : World).run [.new 1 [] 1 { biasInit := ⟨0, 0⟩ },
      .call 0 (.projectNeuron 1 2 (some 1)), .call 0 (.gateConnection 2 ⟨1, 2⟩)]
    let seen (net : Network) := (net.neurons.map (·.1), net.graph.contains ⟨1, 2⟩)
    w.networks.map seen = [([1, 2], true)] ∧
      (match w.step (.call 0 (.removeNeuron 2)) with
        | (.error (.unknownConnection c), w') => some (c, w'.networks.map seen)
        | _ => none) = some (⟨1, 2⟩, [([1, 2], false)]) := by
  decide +kernel

end Network

end GatedNetwork
