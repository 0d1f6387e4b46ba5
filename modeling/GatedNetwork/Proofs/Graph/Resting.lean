import GatedNetwork.Proofs.Graph.Active
import GatedNetwork.Proofs.Graph.Values

/-! Graphs that have not run. Connecting and gating such a graph opens traces that hold nothing yet;
clearing a graph leaves nothing of what it ran. -/

namespace GatedNetwork

/-- Every entry of the table is 0. -/
def SortedMap.Zero {κ : Type} [Ord κ] (m : SortedMap κ Float) : Prop :=
  ∀ k x, m.get? k = some x → x = 0

/-- The neuron has nothing in it that comes from a run. -/
structure Neuron.Resting (n : Neuron) : Prop where
  activation : n.activation = 0
  state : n.state = 0
  old : n.old = 0
  derivative : n.derivative = 0
  error : n.error = {}
  eligibility : n.trace.eligibility.Zero
  rows : ∀ k row, n.trace.extended.get? k = some row → row.Zero
  influences : n.trace.influences.Zero

/-- The second neuron is the first one with other connections; only new traces are opened. -/
def Neuron.Inherits (n n' : Neuron) : Prop :=
  n'.squash = n.squash ∧ n'.bias = n.bias ∧ (n.Resting → n'.Resting)

namespace SortedMap

variable {κ : Type} [Ord κ]

theorem zero_empty : (∅ : SortedMap κ Float).Zero := fun k x h => by simp at h

theorem Zero.of_within {m m' : SortedMap κ Float} (h : m.Zero) (within : m'.Within m) : m'.Zero :=
  fun k x hx => h k x (within k x hx)

theorem zero_mapValues [Std.LawfulEqOrd κ] {ν : Type} (m : SortedMap κ ν) :
    (m.mapValues fun _ _ => (0 : Float)).Zero := by
  intro k x hx
  rw [get?_mapValues] at hx
  obtain ⟨v, -, rfl⟩ := Option.map_eq_some_iff.mp hx
  rfl

theorem Zero.insert [Std.TransOrd κ] [Std.LawfulEqOrd κ] [DecidableEq κ] {m : SortedMap κ Float}
    (h : m.Zero) (k : κ) : (m.insert k 0).Zero := by
  intro k' x hx
  rw [get?_insert] at hx
  split at hx
  · exact (Option.some.inj hx).symm
  · exact h k' x hx

end SortedMap

namespace Neuron

section Resting

variable {n n' : Neuron} {c : ConnectionId}

theorem resting_new (squash : Squash) (bias : Float) : ({ squash, bias } : Neuron).Resting where
  activation := rfl
  state := rfl
  old := rfl
  derivative := rfl
  error := rfl
  eligibility := SortedMap.zero_empty
  rows k row h := by simp at h
  influences := SortedMap.zero_empty

theorem resting_clear (n : Neuron) : n.clear.Resting where
  activation := rfl
  state := rfl
  old := rfl
  derivative := rfl
  error := rfl
  eligibility := SortedMap.zero_mapValues _
  rows k row h := by
    rw [clear, Trace.clear, SortedMap.get?_mapValues] at h
    obtain ⟨old, -, rfl⟩ := Option.map_eq_some_iff.mp h
    exact SortedMap.zero_mapValues _
  influences := SortedMap.zero_mapValues _

theorem Resting.addInput (h : n.Resting) (c : ConnectionId) : (n.addInput c).Resting :=
  { h with
    eligibility := h.eligibility.insert c
    rows k row hrow := by
      simp only [Neuron.addInput, SortedMap.get?_mapValues] at hrow
      obtain ⟨old, hold, rfl⟩ := Option.map_eq_some_iff.mp hrow
      exact (h.rows k old hold).insert c }

theorem Resting.addGated (h : n.Resting) (c : ConnectionId) : (n.addGated c).Resting := by
  unfold Neuron.addGated
  split
  · exact { h with }
  · refine { h with rows := fun k row hrow => ?_, influences := h.influences.insert c.target }
    rw [SortedMap.get?_insert] at hrow
    split at hrow
    · obtain rfl := Option.some.inj hrow
      exact SortedMap.zero_mapValues _
    · exact h.rows k row hrow

theorem Spares.inherits (h : n.Spares n') : n.Inherits n' := by
  refine ⟨h.squash, h.bias, fun resting => ?_⟩
  refine ⟨h.activation.trans resting.activation, h.state.trans resting.state,
    h.old.trans resting.old, h.derivative.trans resting.derivative, h.error.trans resting.error,
    resting.eligibility.of_within h.eligibility, fun k row hrow => ?_,
    resting.influences.of_within h.influences⟩
  obtain ⟨old, hold, within⟩ := h.rows k row hrow
  exact (resting.rows k old hold).of_within within

theorem Inherits.refl (n : Neuron) : n.Inherits n := ⟨rfl, rfl, id⟩

theorem Inherits.trans {n'' : Neuron} (h : n.Inherits n') (h' : n'.Inherits n'') : n.Inherits n'' :=
  ⟨h'.1.trans h.1, h'.2.1.trans h.2.1, fun resting => h'.2.2 (h.2.2 resting)⟩

end Resting

end Neuron

namespace Graph

/-- Nothing in the graph comes from a run, and no gain has been driven. -/
structure Resting (g : Graph) : Prop where
  neurons : ∀ id n, g.neurons.get? id = some n → n.Resting
  gains : ∀ c d, g.connection? c = some d → d.gain = 1

/-- The second graph has neurons of the first with other connections. -/
def Inherits (g g' : Graph) : Prop :=
  ∀ id n', g'.neurons.get? id = some n' → ∃ n, g.neurons.get? id = some n ∧ n.Inherits n'

section Inheriting

variable {g g' g'' : Graph} {c : ConnectionId} {weight : Float} {x : NeuronId}

theorem Inherits.refl (g : Graph) : g.Inherits g := fun _ n h => ⟨n, h, .refl n⟩

theorem Inherits.trans (h : g.Inherits g') (h' : g'.Inherits g'') : g.Inherits g'' := by
  intro id n₃ h₃
  obtain ⟨n₂, h₂, inherits₂⟩ := h' id n₃ h₃
  obtain ⟨n₁, h₁, inherits₁⟩ := h id n₂ h₂
  exact ⟨n₁, h₁, inherits₁.trans inherits₂⟩

theorem Spares.inherits (h : g.Spares g') : g.Inherits g' := by
  intro id n' hn'
  obtain ⟨n, hn, spares⟩ := h id n' hn'
  exact ⟨n, hn, spares.inherits⟩

theorem inherits_modify (g : Graph) (connections : SortedMap ConnectionId Connection) (id : NeuronId)
    {f : Neuron → Neuron} (hf : ∀ n : Neuron, n.Inherits (f n)) :
    g.Inherits { neurons := g.neurons.modify id f, connections } := by
  intro x n' h
  simp only [SortedMap.get?_modify] at h
  split at h
  · obtain ⟨n, hn, rfl⟩ := Option.map_eq_some_iff.mp h
    exact ⟨n, hn, hf n⟩
  · exact ⟨n', h, .refl n'⟩

theorem inherits_attach (g : Graph) (c : ConnectionId) (weight : Float) :
    g.Inherits (g.attach c weight) := by
  have source_inherits : g.Inherits { g with neurons := g.neurons.modify c.source fun n =>
      { n with projected := n.projected.insert c } } :=
    inherits_modify g _ c.source fun n => ⟨rfl, rfl, fun resting => { resting with }⟩
  exact source_inherits.trans
    (inherits_modify _ _ c.target fun n => ⟨rfl, rfl, fun resting => resting.addInput c⟩)

theorem inherits_connected (g : Graph) (c : ConnectionId) (weight : Float) :
    g.Inherits (g.connected c weight) := by
  unfold connected
  split
  · exact inherits_modify g g.connections c.source fun n =>
      ⟨rfl, rfl, fun resting => { resting with }⟩
  · split
    · exact (spares_withConnection g c _).inherits
    · exact inherits_attach g c weight

theorem inherits_gatedBy (g : Graph) (x : NeuronId) (c : ConnectionId) :
    g.Inherits (g.gatedBy x c) := by
  unfold gatedBy
  split
  · exact .refl g
  · have gated := (spares_withConnection (g.ungated c) c fun d => { d with gater := some x }).inherits
    refine (spares_ungated g c).inherits.trans (gated.trans ?_)
    exact inherits_modify _ _ x fun n => ⟨rfl, rfl, fun resting => resting.addGated c⟩

end Inheriting

section Clearing

variable {g : Graph}

theorem Consistent.clear_gain (h : g.Consistent) {c : ConnectionId} {d : Connection}
    (hd : g.connection? c = some d) : d.clear.gain = 1 := by
  unfold Connection.clear
  split
  · rfl
  · rename_i ungated
    exact h.ungated_gain c d hd (by simpa using ungated)

/-- The indexes say where nothing is remembered, and clearing forgets the rest. -/
theorem Consistent.resting_clear (h : g.Consistent) : g.clear.Resting where
  neurons id n' hn' := by
    rw [clear_get?] at hn'
    obtain ⟨n, -, rfl⟩ := Option.map_eq_some_iff.mp hn'
    exact { n.resting_clear with }
  gains c d hd := by
    rw [connection?_clear] at hd
    obtain ⟨e, he, rfl⟩ := Option.map_eq_some_iff.mp hd
    exact h.clear_gain he

theorem active?_clear (g : Graph) (c : ConnectionId) :
    g.clear.active? c = (g.active? c).map (·.clear) := by
  unfold active?
  rw [contains_clear, connection?_clear]
  split <;> rfl

/-- A self-connection that is not enabled has no gain to be driven. -/
theorem Consistent.resting (h : g.Consistent)
    (neurons : ∀ id n, g.neurons.get? id = some n → n.Resting)
    (gains : ∀ c d, g.active? c = some d → d.gain = 1) : g.Resting where
  neurons := neurons
  gains c d hd := by
    cases hc : g.contains c with
    | true => exact gains c d (active?_eq_some_iff.mpr ⟨hc, hd⟩)
    | false =>
      have ungated : d.gater = none := by
        have gater_eq := h.gater?_eq c
        simpa [gater?, hd, active?_eq_none hc] using gater_eq
      exact h.ungated_gain c d hd ungated

end Clearing

end Graph

end GatedNetwork
