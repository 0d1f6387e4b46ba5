import GatedNetwork.Proofs.Graph.Reading

/-! The agreement of the indexes of a graph. Connections, the lists that neurons hold of them
and the keys of the traces say the same thing; numbers matter in two places only, the gain
of a connection without a gater and the weight of a disabled self-connection. -/

namespace GatedNetwork

/-- The keys of the traces follow the inputs and the gated connections. -/
structure Neuron.Traced (n : Neuron) : Prop where
  eligibility : ∀ c, n.trace.eligibility.contains c = n.inputs.contains c
  extended : ∀ k, n.trace.extended.contains k ↔ ∃ c, n.gated.contains c ∧ c.target = k
  influences : ∀ k, n.trace.influences.contains k = n.trace.extended.contains k
  rows : ∀ k row, n.trace.extended.get? k = some row → ∀ c, row.contains c = n.inputs.contains c

theorem Neuron.Traced.of_skeleton_eq {n n' : Neuron} (h : n.Traced) (hs : n.skeleton = n'.skeleton) :
    n'.Traced := by
  obtain ⟨-, inputs_eq, -, gated_eq, -, -, clear_eq⟩ := Neuron.of_skeleton_eq hs
  obtain ⟨eligibility_clear, extended_clear, influences_clear⟩ := Trace.mk.inj clear_eq
  have eligibility_eq := SortedMap.contains_eq_of_mapValues _ eligibility_clear
  have extended_eq := SortedMap.contains_eq_of_mapValues _ extended_clear
  have influences_eq := SortedMap.contains_eq_of_mapValues _ influences_clear
  refine ⟨fun c => ?_, fun k => ?_, fun k => ?_, fun k row' hr' c => ?_⟩
  · rw [← eligibility_eq, ← inputs_eq, h.eligibility]
  · rw [← extended_eq, ← gated_eq, h.extended]
  · rw [← influences_eq, ← extended_eq, h.influences]
  · have hk := congrArg (SortedMap.get? · k) extended_clear
    simp only [SortedMap.get?_mapValues, hr', Option.map_some, Option.map_eq_some_iff] at hk
    obtain ⟨row, hr, hrow⟩ := hk
    rw [← SortedMap.contains_eq_of_mapValues _ hrow, ← inputs_eq, h.rows k row hr]

namespace Graph

/-- The indexes agree. -/
structure Linked (g : Graph) : Prop where
  joined : ∀ c, g.connections.contains c →
    c.isSelf = false ∧ g.neurons.contains c.source ∧ g.neurons.contains c.target
  gater_mem : ∀ c id, g.gater? c = some id → g.contains c ∧ g.neurons.contains id
  projected_iff : ∀ id n, g.neurons.get? id = some n → ∀ c,
    n.projected.contains c ↔ c.source = id ∧ g.connections.contains c
  inputs_iff : ∀ id n, g.neurons.get? id = some n → ∀ c,
    n.inputs.contains c ↔ c.target = id ∧ g.connections.contains c
  gated_iff : ∀ id n, g.neurons.get? id = some n → ∀ c,
    n.gated.contains c ↔ g.gater? c = some id
  traced : ∀ id n, g.neurons.get? id = some n → n.Traced

/-- The indexes agree, and what takes no part in a run has its resting numbers. -/
structure Consistent (g : Graph) : Prop extends g.Linked where
  ungated_gain : ∀ c d, g.connection? c = some d → d.gater = none → d.gain = 1
  disabled_weight : ∀ id n, g.neurons.get? id = some n → n.selfConnected = false →
    n.selfConnection.weight = 0

section Ends

variable {g : Graph} {id : NeuronId} {n : Neuron} {c : ConnectionId}

theorem Linked.input (h : g.Linked) (hn : g.neurons.get? id = some n) (hc : n.inputs.contains c) :
    c.isSelf = false ∧ c.target = id ∧ (∃ d, g.connection? c = some d) ∧
      ∃ s, g.neurons.get? c.source = some s := by
  obtain ⟨htarget, hcon⟩ := (h.inputs_iff id n hn c).mp hc
  obtain ⟨hself, hsource, -⟩ := h.joined c hcon
  have hcontains : g.contains c := (contains_of_not_isSelf hself).trans hcon
  exact ⟨hself, htarget, Option.isSome_iff_exists.mp (connection?_isSome_of_contains hcontains),
    get?_of_contains hsource⟩

theorem Linked.projection (h : g.Linked) (hn : g.neurons.get? id = some n)
    (hc : n.projected.contains c) :
    c.isSelf = false ∧ c.source = id ∧ (∃ d, g.connection? c = some d) ∧
      ∃ t, g.neurons.get? c.target = some t := by
  obtain ⟨hsource, hcon⟩ := (h.projected_iff id n hn c).mp hc
  obtain ⟨hself, -, htarget⟩ := h.joined c hcon
  have hcontains : g.contains c := (contains_of_not_isSelf hself).trans hcon
  exact ⟨hself, hsource, Option.isSome_iff_exists.mp (connection?_isSome_of_contains hcontains),
    get?_of_contains htarget⟩

theorem Linked.gate (h : g.Linked) (hn : g.neurons.get? id = some n) (hc : n.gated.contains c) :
    (∃ d, g.connection? c = some d) ∧ (∃ s, g.neurons.get? c.source = some s) ∧
      ∃ t, g.neurons.get? c.target = some t := by
  have hcontains := (h.gater_mem c id ((h.gated_iff id n hn c).mp hc)).1
  refine ⟨Option.isSome_iff_exists.mp (connection?_isSome_of_contains hcontains), ?_⟩
  by_cases hself : c.isSelf
  · have hst : c.source = c.target := by simpa [ConnectionId.isSelf] using hself
    rw [contains, if_pos hself] at hcontains
    obtain ⟨m, hm, -⟩ := (Option.any_eq_true _ _).mp hcontains
    exact ⟨⟨m, hm⟩, ⟨m, hst ▸ hm⟩⟩
  · rw [contains_of_not_isSelf (Bool.eq_false_iff.mpr hself)] at hcontains
    obtain ⟨-, hsource, htarget⟩ := h.joined c hcontains
    exact ⟨get?_of_contains hsource, get?_of_contains htarget⟩

theorem Linked.extended (h : g.Linked) (hn : g.neurons.get? id = some n) {k : NeuronId}
    (hk : n.trace.extended.contains k) : ∃ t, g.neurons.get? k = some t := by
  obtain ⟨c, hc, rfl⟩ := ((h.traced id n hn).extended k).mp hk
  exact (h.gate hn hc).2.2

theorem Linked.ends (h : g.Linked) {d : Connection} (hd : g.connection? c = some d) :
    g.neurons.contains c.source ∧ g.neurons.contains c.target := by
  cases hself : c.isSelf with
  | true =>
    have ends_eq : c.source = c.target := by simpa [ConnectionId.isSelf] using hself
    rw [connection?, if_pos hself] at hd
    obtain ⟨m, hm, -⟩ := Option.map_eq_some_iff.mp hd
    exact ⟨contains_of_get? hm, ends_eq ▸ contains_of_get? hm⟩
  | false =>
    rw [connection?_of_not_isSelf hself] at hd
    exact (h.joined c (by simp [SortedMap.contains_eq_isSome, hd])).2

theorem Linked.gater_contains (h : g.Linked) {d : Connection} (hd : g.connection? c = some d)
    {x : NeuronId} (hx : d.gater = some x) : g.neurons.contains x :=
  (h.gater_mem c x (by simp [gater?, hd, hx])).2

end Ends

theorem gater?_of_skeleton_eq {g g' : Graph} (h : g.skeleton = g'.skeleton) (c : ConnectionId) :
    g.gater? c = g'.gater? c := by
  rw [← skeleton_gater?, h, skeleton_gater?]

theorem contains_of_skeleton_eq {g g' : Graph} (h : g.skeleton = g'.skeleton) (c : ConnectionId) :
    g.contains c = g'.contains c := by
  rw [← skeleton_contains, h, skeleton_contains]

theorem contains_neuron_of_skeleton_eq {g g' : Graph} (h : g.skeleton = g'.skeleton)
    (id : NeuronId) : g.neurons.contains id = g'.neurons.contains id := by
  rw [← skeleton_contains_neuron, h, skeleton_contains_neuron]

theorem contains_connection_of_skeleton_eq {g g' : Graph} (h : g.skeleton = g'.skeleton)
    (c : ConnectionId) : g.connections.contains c = g'.connections.contains c := by
  rw [← skeleton_contains_connection, h, skeleton_contains_connection]

theorem Linked.of_skeleton_eq {g g' : Graph} (h : g.Linked) (hs : g.skeleton = g'.skeleton) :
    g'.Linked where
  joined c hc := by
    rw [← contains_connection_of_skeleton_eq hs] at hc
    simpa only [contains_neuron_of_skeleton_eq hs] using h.joined c hc
  gater_mem c id hc := by
    rw [← gater?_of_skeleton_eq hs] at hc
    simpa only [contains_of_skeleton_eq hs, contains_neuron_of_skeleton_eq hs] using
      h.gater_mem c id hc
  projected_iff id n' hn' c := by
    obtain ⟨n, hn, heq⟩ := get?_of_skeleton_eq hs.symm hn'
    obtain ⟨-, -, projected_eq, -⟩ := Neuron.of_skeleton_eq heq
    rw [projected_eq, ← contains_connection_of_skeleton_eq hs]
    exact h.projected_iff id n hn c
  inputs_iff id n' hn' c := by
    obtain ⟨n, hn, heq⟩ := get?_of_skeleton_eq hs.symm hn'
    obtain ⟨-, inputs_eq, -⟩ := Neuron.of_skeleton_eq heq
    rw [inputs_eq, ← contains_connection_of_skeleton_eq hs]
    exact h.inputs_iff id n hn c
  gated_iff id n' hn' c := by
    obtain ⟨n, hn, heq⟩ := get?_of_skeleton_eq hs.symm hn'
    obtain ⟨-, -, -, gated_eq, -⟩ := Neuron.of_skeleton_eq heq
    rw [gated_eq, ← gater?_of_skeleton_eq hs]
    exact h.gated_iff id n hn c
  traced id n' hn' := by
    obtain ⟨n, hn, heq⟩ := get?_of_skeleton_eq hs.symm hn'
    exact (h.traced id n hn).of_skeleton_eq heq.symm

end Graph

end GatedNetwork
