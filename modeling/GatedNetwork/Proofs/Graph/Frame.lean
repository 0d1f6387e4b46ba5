import GatedNetwork.Proofs.Graph.Wiring

/-! What taking connections, gates and neurons away leaves alone: the neurons that stay keep
their numbers, and the traces that stay open keep their entries. -/

namespace GatedNetwork

/-- Every entry of the first table is one of the second. -/
def SortedMap.Within {κ ν : Type} [Ord κ] (a b : SortedMap κ ν) : Prop :=
  ∀ k v, a.get? k = some v → b.get? k = some v

namespace SortedMap

section Within

variable {κ ν : Type} [Ord κ]

theorem Within.refl (m : SortedMap κ ν) : m.Within m := fun _ _ h => h

theorem Within.trans {a b c : SortedMap κ ν} (hab : a.Within b) (hbc : b.Within c) : a.Within c :=
  fun k v h => hbc k v (hab k v h)

theorem within_erase [Std.LawfulEqOrd κ] [DecidableEq κ] (m : SortedMap κ ν) (k : κ) :
    (m.erase k).Within m := by
  intro k' v h
  rw [get?_erase] at h
  split at h
  · simp at h
  · exact h

end Within

end SortedMap

/-- The second neuron is the first one with fewer connections. -/
structure Neuron.Spares (n n' : Neuron) : Prop where
  squash : n'.squash = n.squash
  bias : n'.bias = n.bias
  activation : n'.activation = n.activation
  state : n'.state = n.state
  old : n'.old = n.old
  derivative : n'.derivative = n.derivative
  error : n'.error = n.error
  selfConnected : n'.selfConnected = n.selfConnected
  eligibility : n'.trace.eligibility.Within n.trace.eligibility
  influences : n'.trace.influences.Within n.trace.influences
  rows : ∀ k row', n'.trace.extended.get? k = some row' →
    ∃ row, n.trace.extended.get? k = some row ∧ row'.Within row

namespace Neuron

theorem Spares.refl (n : Neuron) : n.Spares n where
  squash := rfl
  bias := rfl
  activation := rfl
  state := rfl
  old := rfl
  derivative := rfl
  error := rfl
  selfConnected := rfl
  eligibility := .refl _
  influences := .refl _
  rows _ row' h := ⟨row', h, .refl _⟩

theorem Spares.trans {n₁ n₂ n₃ : Neuron} (h : n₁.Spares n₂) (h' : n₂.Spares n₃) : n₁.Spares n₃ where
  squash := h'.squash.trans h.squash
  bias := h'.bias.trans h.bias
  activation := h'.activation.trans h.activation
  state := h'.state.trans h.state
  old := h'.old.trans h.old
  derivative := h'.derivative.trans h.derivative
  error := h'.error.trans h.error
  selfConnected := h'.selfConnected.trans h.selfConnected
  eligibility := h'.eligibility.trans h.eligibility
  influences := h'.influences.trans h.influences
  rows k row₃ h₃ := by
    obtain ⟨row₂, h₂, within₂⟩ := h'.rows k row₃ h₃
    obtain ⟨row₁, h₁, within₁⟩ := h.rows k row₂ h₂
    exact ⟨row₁, h₁, within₂.trans within₁⟩

theorem spares_removeInput (n : Neuron) (c : ConnectionId) : n.Spares (n.removeInput c) :=
  { Spares.refl n with
    eligibility := SortedMap.within_erase _ _
    rows k row' h := by
      simp only [removeInput, SortedMap.get?_mapValues] at h
      obtain ⟨row, hr, rfl⟩ := Option.map_eq_some_iff.mp h
      exact ⟨row, hr, SortedMap.within_erase _ _⟩ }

theorem spares_removeGated (n : Neuron) (c : ConnectionId) : n.Spares (n.removeGated c) := by
  by_cases hc : (n.gated.erase c).toList.any (·.target == c.target)
  · have trace_eq : (n.removeGated c).trace = n.trace := by simp [removeGated, hc]
    exact { Spares.refl n with
      eligibility := trace_eq ▸ .refl _
      influences := trace_eq ▸ .refl _
      rows k row' h := ⟨row', trace_eq ▸ h, .refl _⟩ }
  · have trace_eq : (n.removeGated c).trace =
        { n.trace with
          extended := n.trace.extended.erase c.target
          influences := n.trace.influences.erase c.target } := by simp [removeGated, hc]
    exact { Spares.refl n with
      eligibility := by
        rw [trace_eq]
        exact .refl _
      influences := by
        rw [trace_eq]
        exact SortedMap.within_erase _ _
      rows k row' h := by
        rw [trace_eq] at h
        exact ⟨row', SortedMap.within_erase _ _ k row' h, .refl _⟩ }

end Neuron

namespace Graph

/-- The neurons of the second graph are neurons of the first with fewer connections. -/
def Spares (g g' : Graph) : Prop :=
  ∀ id n', g'.neurons.get? id = some n' → ∃ n, g.neurons.get? id = some n ∧ n.Spares n'

theorem Spares.refl (g : Graph) : g.Spares g := fun _ n h => ⟨n, h, .refl n⟩

theorem Spares.trans {g₁ g₂ g₃ : Graph} (h : g₁.Spares g₂) (h' : g₂.Spares g₃) : g₁.Spares g₃ := by
  intro id n₃ h₃
  obtain ⟨n₂, h₂, spares₂⟩ := h' id n₃ h₃
  obtain ⟨n₁, h₁, spares₁⟩ := h id n₂ h₂
  exact ⟨n₁, h₁, spares₁.trans spares₂⟩

theorem spares_modify (g : Graph) (connections : SortedMap ConnectionId Connection) (id : NeuronId)
    {f : Neuron → Neuron} (hf : ∀ n : Neuron, n.Spares (f n)) :
    g.Spares { neurons := g.neurons.modify id f, connections } := by
  intro x n' h
  simp only [SortedMap.get?_modify] at h
  split at h
  · obtain ⟨n, hn, rfl⟩ := Option.map_eq_some_iff.mp h
    exact ⟨n, hn, hf n⟩
  · exact ⟨n', h, .refl n'⟩

theorem spares_withNeuron (g : Graph) (id : NeuronId) {f : Neuron → Neuron}
    (hf : ∀ n : Neuron, n.Spares (f n)) : g.Spares (g.withNeuron id f) :=
  spares_modify g g.connections id hf

theorem spares_withConnection (g : Graph) (c : ConnectionId) (f : Connection → Connection) :
    g.Spares (g.withConnection c f) := by
  unfold withConnection
  split
  · exact spares_withNeuron g c.source fun n => { Neuron.Spares.refl n with }
  · exact Spares.refl g

theorem spares_dropGater (g : Graph) (c : ConnectionId) (x : NeuronId) : g.Spares (g.dropGater c x) :=
  (spares_withConnection g c _).trans
    (spares_withNeuron _ x fun n => n.spares_removeGated c)

theorem spares_ungated (g : Graph) (c : ConnectionId) : g.Spares (g.ungated c) := by
  unfold ungated
  split
  · exact Spares.refl g
  · exact spares_dropGater g c _

theorem spares_detach (g : Graph) (c : ConnectionId) : g.Spares (g.detach c) := by
  have source_spares : g.Spares { g with neurons := g.neurons.modify c.source fun n =>
      { n with projected := n.projected.erase c } } :=
    spares_modify g _ c.source fun n => { Neuron.Spares.refl n with }
  exact source_spares.trans (spares_modify _ _ c.target fun n => n.spares_removeInput c)

theorem spares_erased (g : Graph) (id : NeuronId) : g.Spares (g.erased id) := by
  intro x n' h
  exact ⟨n', SortedMap.within_erase _ _ x n' h, .refl n'⟩

end Graph

end GatedNetwork
