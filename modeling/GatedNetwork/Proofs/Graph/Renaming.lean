import GatedNetwork.Proofs.Graph.Resting

/-! Graphs under other names. Of two resting graphs whose indexes agree, one is the other under new
names as soon as the neurons and the connections that take part in a run are. -/

namespace GatedNetwork

theorem ConnectionId.eq_of_ends {c c' : ConnectionId} (source_eq : c.source = c'.source)
    (target_eq : c.target = c'.target) : c = c' := by
  cases c
  cases c'
  exact ConnectionId.mk.injEq .. ▸ ⟨source_eq, target_eq⟩

def ConnectionId.rename (f : NeuronId → NeuronId) (c : ConnectionId) : ConnectionId :=
  ⟨f c.source, f c.target⟩

def Connection.rename (f : NeuronId → NeuronId) (d : Connection) : Connection :=
  { d with gater := d.gater.map f }

/-- The second set has the members of the first under new names. -/
def SortedSet.Carries {κ : Type} [Ord κ] (f : κ → κ) (s s' : SortedSet κ) : Prop :=
  ∀ k', s'.contains k' ↔ ∃ k, s.contains k ∧ f k = k'

/-- The second table has the entries of the first under new names. -/
structure SortedMap.Carries {κ ν : Type} [Ord κ] (f : κ → κ) (R : ν → ν → Prop)
    (m m' : SortedMap κ ν) : Prop where
  entry : ∀ k v, m.get? k = some v → ∃ v', m'.get? (f k) = some v' ∧ R v v'
  covered : ∀ k', m'.contains k' → ∃ k, m.contains k ∧ f k = k'

/-- The second neuron is the first one in a graph with new names. -/
structure Neuron.Renames (f : NeuronId → NeuronId) (n n' : Neuron) : Prop where
  squash : n'.squash = n.squash
  bias : n'.bias = n.bias
  activation : n'.activation = n.activation
  state : n'.state = n.state
  old : n'.old = n.old
  derivative : n'.derivative = n.derivative
  error : n'.error = n.error
  inputs : n.inputs.Carries (.rename f) n'.inputs
  projected : n.projected.Carries (.rename f) n'.projected
  gated : n.gated.Carries (.rename f) n'.gated
  selfConnection : n'.selfConnection = n.selfConnection.rename f
  selfConnected : n'.selfConnected = n.selfConnected
  eligibility : n.trace.eligibility.Carries (.rename f) Eq n'.trace.eligibility
  extended : n.trace.extended.Carries f (SortedMap.Carries (.rename f) Eq) n'.trace.extended
  influences : n.trace.influences.Carries f Eq n'.trace.influences

namespace Graph

/-- The second graph is the first one under new names, which are all different. -/
structure Renames (f : NeuronId → NeuronId) (g g' : Graph) : Prop where
  injective : ∀ a b, g.neurons.contains a → g.neurons.contains b → f a = f b → a = b
  neurons : g.neurons.Carries f (Neuron.Renames f) g'.neurons
  connections : g.connections.Carries (.rename f) (fun d d' => d' = d.rename f) g'.connections

/-- The graphs have the same neurons and the same connections under different names. -/
structure Matches (f : NeuronId → NeuronId) (g g' : Graph) : Prop where
  injective : ∀ a b, g.neurons.contains a → g.neurons.contains b → f a = f b → a = b
  neurons : g.neurons.Carries f (fun n n' => n'.squash = n.squash ∧ n'.bias = n.bias) g'.neurons
  active : ∀ c d, g.active? c = some d → g'.active? (c.rename f) = some (d.rename f)
  covered : ∀ c', g'.contains c' → ∃ c, g.contains c ∧ c.rename f = c'

end Graph

section Zeros

variable {κ : Type} [Ord κ] {f : κ → κ} {m m' : SortedMap κ Float}

theorem SortedMap.carries_of_zero (h : m.Zero) (h' : m'.Zero)
    (keys : ∀ k', m'.contains k' ↔ ∃ k, m.contains k ∧ f k = k') : m.Carries f Eq m' where
  entry k x hx := by
    have there : m'.contains (f k) := (keys (f k)).mpr ⟨k, by simp [contains_eq_isSome, hx], rfl⟩
    obtain ⟨x', hx'⟩ := Option.isSome_iff_exists.mp there
    exact ⟨x', hx', (h k x hx).trans (h' (f k) x' hx').symm⟩
  covered k' hk' := (keys k').mp hk'

end Zeros

namespace Graph

section Names

variable {f : NeuronId → NeuronId} {g g' : Graph} {c c' : ConnectionId} {id : NeuronId}

theorem Linked.ends_of_contains (h : g.Linked) (hc : g.contains c) :
    g.neurons.contains c.source ∧ g.neurons.contains c.target := by
  obtain ⟨d, hd⟩ := Option.isSome_iff_exists.mp (connection?_isSome_of_contains hc)
  exact h.ends hd

theorem Matches.isSelf_rename (m : Matches f g g') (h : g.Linked) (hc : g.contains c) :
    (c.rename f).isSelf = c.isSelf := by
  obtain ⟨hs, ht⟩ := h.ends_of_contains hc
  have same : f c.source = f c.target ↔ c.source = c.target :=
    ⟨m.injective _ _ hs ht, congrArg f⟩
  rw [Bool.eq_iff_iff]
  simp only [ConnectionId.isSelf, ConnectionId.rename, beq_iff_eq, same]

theorem Matches.contains_rename (m : Matches f g g') (hc : g.contains c) : g'.contains (c.rename f) := by
  obtain ⟨d, hd⟩ := Option.isSome_iff_exists.mp ((isSome_active? g c).trans hc)
  exact (active?_eq_some_iff.mp (m.active c d hd)).1

theorem Matches.connections_iff (m : Matches f g g') (h : g.Linked) (h' : g'.Linked) :
    g'.connections.contains c' ↔ ∃ c, g.connections.contains c ∧ c.rename f = c' := by
  constructor
  · intro hc'
    have regular' := (h'.joined c' hc').1
    obtain ⟨c, hc, rfl⟩ := m.covered c' ((contains_of_not_isSelf regular').trans hc')
    have regular : c.isSelf = false := (m.isSelf_rename h hc).symm.trans regular'
    exact ⟨c, (contains_of_not_isSelf regular).symm.trans hc, rfl⟩
  · rintro ⟨c, hc, rfl⟩
    have regular := (h.joined c hc).1
    have there : g.contains c := (contains_of_not_isSelf regular).trans hc
    have regular' : (c.rename f).isSelf = false := (m.isSelf_rename h there).trans regular
    exact (contains_of_not_isSelf regular').symm.trans (m.contains_rename there)

theorem Matches.contains_loop_iff (m : Matches f g g') (h : g.Linked) (hid : g.neurons.contains id) :
    g'.contains (.loop (f id)) ↔ g.contains (.loop id) := by
  refine ⟨fun hc' => ?_, fun hc => m.contains_rename hc⟩
  obtain ⟨c, hc, heq⟩ := m.covered _ hc'
  obtain ⟨hs, ht⟩ := h.ends_of_contains hc
  have source_eq := m.injective _ _ hs hid (congrArg ConnectionId.source heq)
  have target_eq := m.injective _ _ ht hid (congrArg ConnectionId.target heq)
  obtain rfl : c = .loop id := ConnectionId.eq_of_ends source_eq target_eq
  exact hc

theorem Matches.gater?_iff (m : Matches f g g') (h : g.Linked) (h' : g'.Linked)
    (hid : g.neurons.contains id) :
    g'.gater? c' = some (f id) ↔ ∃ c, g.gater? c = some id ∧ c.rename f = c' := by
  constructor
  · intro hg'
    obtain ⟨c, hc, rfl⟩ := m.covered c' (h'.gater_mem c' _ hg').1
    obtain ⟨d, hd⟩ := Option.isSome_iff_exists.mp ((isSome_active? g c).trans hc)
    rw [h'.gater?_eq, m.active c d hd] at hg'
    obtain ⟨x, hx, heq⟩ : ∃ x, d.gater = some x ∧ f x = f id := by
      simpa [Connection.rename] using hg'
    have gater_eq : g.gater? c = some x := by rw [h.gater?_eq, hd, Option.bind_some, hx]
    rw [m.injective x id (h.gater_mem c x gater_eq).2 hid heq] at gater_eq
    exact ⟨c, gater_eq, rfl⟩
  · rintro ⟨c, hg, rfl⟩
    rw [h.gater?_eq] at hg
    obtain ⟨d, hd, hx⟩ := Option.bind_eq_some_iff.mp hg
    rw [h'.gater?_eq, m.active c d hd]
    simp [Connection.rename, hx]

end Names

section Copies

variable {f : NeuronId → NeuronId} {g g' : Graph} {id : NeuronId} {n n' : Neuron}

theorem Matches.selfConnection (m : Matches f g g') (h : g.Consistent) (h' : g'.Consistent)
    (hn : g.neurons.get? id = some n) (hn' : g'.neurons.get? (f id) = some n') :
    n'.selfConnection = n.selfConnection.rename f := by
  have loop_iff := m.contains_loop_iff h.toLinked (contains_of_get? hn)
  rw [← h.active?_loop hn, ← h'.active?_loop hn']
  cases hd : g.active? (.loop id) with
  | some d =>
    have renamed : g'.active? (.loop (f id)) = some (d.rename f) := m.active _ d hd
    rw [renamed, Option.getD_some, Option.getD_some]
  | none =>
    have absent : g.contains (.loop id) = false := by rw [← isSome_active?, hd]; rfl
    have absent' : g'.contains (.loop (f id)) = false := by
      rw [Bool.eq_false_iff, ne_eq, loop_iff, absent]
      exact Bool.false_ne_true
    rw [active?_eq_none absent']
    rfl

theorem Matches.inputs (m : Matches f g g') (h : g.Linked) (h' : g'.Linked)
    (hn : g.neurons.get? id = some n) (hn' : g'.neurons.get? (f id) = some n') :
    n.inputs.Carries (.rename f) n'.inputs := by
  intro c'
  rw [h'.inputs_iff _ n' hn', m.connections_iff h h']
  constructor
  · rintro ⟨target_eq, c, hc, rfl⟩
    have target_eq := m.injective _ _ (h.joined c hc).2.2 (contains_of_get? hn) target_eq
    exact ⟨c, (h.inputs_iff id n hn c).mpr ⟨target_eq, hc⟩, rfl⟩
  · rintro ⟨c, hc, rfl⟩
    obtain ⟨rfl, hc⟩ := (h.inputs_iff id n hn c).mp hc
    exact ⟨rfl, c, hc, rfl⟩

theorem Matches.projected (m : Matches f g g') (h : g.Linked) (h' : g'.Linked)
    (hn : g.neurons.get? id = some n) (hn' : g'.neurons.get? (f id) = some n') :
    n.projected.Carries (.rename f) n'.projected := by
  intro c'
  rw [h'.projected_iff _ n' hn', m.connections_iff h h']
  constructor
  · rintro ⟨source_eq, c, hc, rfl⟩
    have source_eq := m.injective _ _ (h.joined c hc).2.1 (contains_of_get? hn) source_eq
    exact ⟨c, (h.projected_iff id n hn c).mpr ⟨source_eq, hc⟩, rfl⟩
  · rintro ⟨c, hc, rfl⟩
    obtain ⟨rfl, hc⟩ := (h.projected_iff id n hn c).mp hc
    exact ⟨rfl, c, hc, rfl⟩

theorem Matches.gated (m : Matches f g g') (h : g.Linked) (h' : g'.Linked)
    (hn : g.neurons.get? id = some n) (hn' : g'.neurons.get? (f id) = some n') :
    n.gated.Carries (.rename f) n'.gated := by
  intro c'
  rw [h'.gated_iff _ n' hn', m.gater?_iff h h' (contains_of_get? hn)]
  simp only [h.gated_iff id n hn]

theorem Matches.extended_iff (m : Matches f g g') (h : g.Linked) (h' : g'.Linked)
    (hn : g.neurons.get? id = some n) (hn' : g'.neurons.get? (f id) = some n') (k' : NeuronId) :
    n'.trace.extended.contains k' ↔ ∃ k, n.trace.extended.contains k ∧ f k = k' := by
  have carried := m.gated h h' hn hn'
  simp only [(h'.traced _ n' hn').extended, (h.traced _ n hn).extended, carried _]
  constructor
  · rintro ⟨_, ⟨c, hc, rfl⟩, rfl⟩
    exact ⟨c.target, ⟨c, hc, rfl⟩, rfl⟩
  · rintro ⟨_, ⟨c, hc, rfl⟩, rfl⟩
    exact ⟨c.rename f, ⟨c, hc, rfl⟩, rfl⟩

theorem Matches.renames_neuron (m : Matches f g g') (h : g.Consistent) (h' : g'.Consistent)
    (resting : n.Resting) (resting' : n'.Resting) (hn : g.neurons.get? id = some n)
    (hn' : g'.neurons.get? (f id) = some n') : n.Renames f n' := by
  have linked := h.toLinked
  have linked' := h'.toLinked
  obtain ⟨_, hm, squash_eq, bias_eq⟩ := m.neurons.entry id n hn
  obtain rfl := Option.some.inj (hn'.symm.trans hm)
  have inputs := m.inputs linked linked' hn hn'
  have extended := m.extended_iff linked linked' hn hn'
  have traced := linked.traced id n hn
  have traced' := linked'.traced _ n' hn'
  have loop_iff := m.contains_loop_iff linked (contains_of_get? hn)
  simp only [contains_loop, hn, hn', Option.any_some] at loop_iff
  exact {
    squash := squash_eq
    bias := bias_eq
    activation := resting'.activation.trans resting.activation.symm
    state := resting'.state.trans resting.state.symm
    old := resting'.old.trans resting.old.symm
    derivative := resting'.derivative.trans resting.derivative.symm
    error := resting'.error.trans resting.error.symm
    inputs := inputs
    projected := m.projected linked linked' hn hn'
    gated := m.gated linked linked' hn hn'
    selfConnection := m.selfConnection h h' hn hn'
    selfConnected := Bool.eq_iff_iff.mpr loop_iff
    eligibility := SortedMap.carries_of_zero resting.eligibility resting'.eligibility fun c' => by
      simp only [traced.eligibility, traced'.eligibility, inputs c']
    extended := {
      entry k row hrow := by
        have there : n'.trace.extended.contains (f k) :=
          (extended (f k)).mpr ⟨k, by simp [SortedMap.contains_eq_isSome, hrow], rfl⟩
        obtain ⟨row', hrow'⟩ := Option.isSome_iff_exists.mp there
        refine ⟨row', hrow', SortedMap.carries_of_zero (resting.rows k row hrow)
          (resting'.rows _ row' hrow') fun c' => ?_⟩
        simp only [traced.rows k row hrow, traced'.rows _ row' hrow', inputs c']
      covered k' hk' := (extended k').mp hk' }
    influences := SortedMap.carries_of_zero resting.influences resting'.influences fun k' => by
      simp only [traced.influences, traced'.influences, extended k'] }

/-- Where nothing comes from a run, names, traits and connections are all that there is. -/
theorem Matches.renames (m : Matches f g g') (h : g.Consistent) (h' : g'.Consistent)
    (resting : g.Resting) (resting' : g'.Resting) : g.Renames f g' where
  injective := m.injective
  neurons := {
    entry id n hn := by
      obtain ⟨n', hn', -⟩ := m.neurons.entry id n hn
      exact ⟨n', hn', m.renames_neuron h h' (resting.neurons id n hn) (resting'.neurons _ n' hn') hn hn'⟩
    covered := m.neurons.covered }
  connections := {
    entry c d hd := by
      have regular := (h.joined c (by simp [SortedMap.contains_eq_isSome, hd])).1
      have there : g.contains c := by simp [contains_of_not_isSelf regular, SortedMap.contains_eq_isSome, hd]
      have renamed := m.active c d ((active?_of_not_isSelf regular).trans hd)
      rw [active?_of_not_isSelf ((m.isSelf_rename h.toLinked there).trans regular)] at renamed
      exact ⟨_, renamed, rfl⟩
    covered c' hc' := (m.connections_iff h.toLinked h'.toLinked).mp hc' }

end Copies

end Graph

end GatedNetwork
