import Mathlib.Logic.Function.Basic
import GatedNetwork.Proofs.Graph.Edits
import GatedNetwork.Proofs.Graph.Reading

/-! Actions on a graph that change numbers only, followed by a reading. -/

namespace GatedNetwork

/-- The key names a number that is kept in the neuron itself. -/
def Key.IsOf (id : NeuronId) : Key → Prop
  | .state n | .old n | .activation n | .derivative n | .bias n | .responsibility n | .projected n
  | .gated n | .eligibility n _ | .extended n _ _ | .influence n _ => n = id
  | .weight c | .gain c => c = .loop id
  | .rate | .target _ | .error _ | .gradient _ => False

def Neuron.reading (n : Neuron) : Reading
  | .state _ => n.state
  | .old _ => n.old
  | .activation _ => n.activation
  | .derivative _ => n.derivative
  | .bias _ => n.bias
  | .responsibility _ => n.error.responsibility
  | .projected _ => n.error.projected
  | .gated _ => n.error.gated
  | .eligibility _ c => n.trace.eligibilityOf c
  | .extended _ k c => n.trace.extendedOf k c
  | .influence _ k => n.trace.influenceOf k
  | .weight _ => n.selfConnection.weight
  | .gain _ => n.selfConnection.gain
  | .rate | .target _ | .error _ | .gradient _ => 0

namespace Graph

section Parts

variable {g : Graph} {id : NeuronId} {n : Neuron} {σ τ : Reading}

theorem reading_of_isOf (hn : g.neurons.get? id = some n) {k : Key} (hk : k.IsOf id) :
    g.reading k = n.reading k := by
  cases k with
  | rate | target | error | gradient => exact hk.elim
  | weight | gain =>
    obtain rfl := hk
    simp [connection?_loop, hn, Neuron.reading]
  | _ =>
    obtain rfl := hk
    simp [hn, Neuron.reading]

theorem withNeuron_reading_of_not_isOf (g : Graph) (id : NeuronId) (f : Neuron → Neuron) {k : Key}
    (hk : ¬ k.IsOf id) : (g.withNeuron id f).reading k = g.reading k := by
  cases k with
  | rate | target | error | gradient => rfl
  | weight | gain => simp [connection?_withNeuron, show _ ≠ _ from hk]
  | _ => simp [Ne.symm (show _ ≠ _ from hk)]

/-- A change of one neuron is followed by a change of the numbers kept in it. -/
theorem Agrees.withNeuron (h : g.Agrees σ) (hn : g.neurons.get? id = some n) {f : Neuron → Neuron}
    (others : ∀ k, k.isField → ¬ k.IsOf id → τ k = σ k)
    (own : ∀ k, k.IsOf id → τ k = (f n).reading k) : (g.withNeuron id f).Agrees τ := by
  intro k hk
  by_cases hof : k.IsOf id
  · rw [own k hof, reading_of_isOf (n := f n) (by simp [hn]) hof]
  · rw [others k hk hof, h k hk, withNeuron_reading_of_not_isOf g id f hof]

theorem withConnection_reading_of_ne (g : Graph) {c : ConnectionId} (f : Connection → Connection)
    {k : Key} (hw : k ≠ .weight c) (hg : k ≠ .gain c) :
    (g.withConnection c f).reading k = g.reading k := by
  cases k with
  | rate | target | error | gradient => rfl
  | weight d =>
    have hne : c ≠ d := fun e => hw (by rw [e])
    simp [hne]
  | gain d =>
    have hne : c ≠ d := fun e => hg (by rw [e])
    simp [hne]
  | _ =>
    simp only [reading_state, reading_old, reading_activation, reading_derivative, reading_bias,
      reading_responsibility, reading_projected, reading_gated, reading_eligibility,
      reading_extended, reading_influence, withConnection_get?]
    split <;> simp [Function.comp_def]

theorem Agrees.withConnection (h : g.Agrees σ) {c : ConnectionId} {d : Connection}
    (hd : g.connection? c = some d) {f : Connection → Connection}
    (others : ∀ k, k.isField → k ≠ .weight c → k ≠ .gain c → τ k = σ k)
    (weight : τ (.weight c) = (f d).weight) (gain : τ (.gain c) = (f d).gain) :
    (g.withConnection c f).Agrees τ := by
  intro k hk
  by_cases hw : k = .weight c
  · simp [hw, weight, hd]
  · by_cases hg : k = .gain c
    · simp [hg, gain, hd]
    · rw [others k hk hw hg, h k hk, withConnection_reading_of_ne g f hw hg]

end Parts

/-- The action succeeds with the answer `x`, keeps the skeleton, and ends in a graph with the
numbers of the reading. -/
def Follows {α : Type} (g : Graph) (act : Edit α) (x : α) (σ : Reading) : Prop :=
  ∃ g', act.run g = .ok x g' ∧ g.skeleton = g'.skeleton ∧ g'.Agrees σ

section Follows

variable {g : Graph} {α β : Type} {σ τ : Reading} {x : α} {y : β}

theorem follows_pure (h : g.Agrees σ) (x : α) : g.Follows (pure x) x σ := ⟨g, rfl, rfl, h⟩

theorem Follows.bind {a : Edit α} {f : α → Edit β} (ha : g.Follows a x σ)
    (hf : ∀ g' : Graph, g.skeleton = g'.skeleton → g'.Agrees σ → g'.Follows (f x) y τ) :
    g.Follows (a >>= f) y τ := by
  obtain ⟨g₁, run₁, skeleton₁, agrees₁⟩ := ha
  obtain ⟨g₂, run₂, skeleton₂, agrees₂⟩ := hf g₁ skeleton₁ agrees₁
  exact ⟨g₂, (bind_of_ok run₁).trans run₂, skeleton₁.trans skeleton₂, agrees₂⟩

theorem Follows.ask {q : Graph → Except NetworkError α} {f : α → Edit β} (hq : q g = .ok x)
    (hf : g.Follows (f x) y τ) : g.Follows (ask q >>= f) y τ := by
  obtain ⟨g', run, hs, ha⟩ := hf
  exact ⟨g', (bind_of_ok (ask_of_ok hq)).trans run, hs, ha⟩

theorem Follows.congr {a : Edit α} (h : g.Follows a x σ)
    (heq : ∀ k, k.isField → τ k = σ k) : g.Follows a x τ := by
  obtain ⟨g', run, hs, ha⟩ := h
  exact ⟨g', run, hs, fun k hk => (heq k hk).trans (ha k hk)⟩

theorem follows_modifyNeuron (h : g.Agrees σ) {id : NeuronId} {n : Neuron}
    (hn : g.neurons.get? id = some n) {f : Neuron → Neuron} (hf : (f n).skeleton = n.skeleton)
    (others : ∀ k, k.isField → ¬ k.IsOf id → τ k = σ k)
    (own : ∀ k, k.IsOf id → τ k = (f n).reading k) : g.Follows (modifyNeuron id f) () τ := by
  refine ⟨g.withNeuron id f, modifyNeuron_run (contains_of_get? hn) f, ?_, h.withNeuron hn others own⟩
  refine (skeleton_withNeuron g id fun m hm => ?_).symm
  obtain rfl : m = n := Option.some.inj (hm.symm.trans hn)
  exact hf

theorem follows_modifyConnection (h : g.Agrees σ) {c : ConnectionId}
    (hc : (g.connection? c).isSome) {f : Connection → Connection} (hf : ∀ d, (f d).gater = d.gater)
    (others : ∀ k, k.isField → k ≠ .weight c → k ≠ .gain c → τ k = σ k)
    (weight : ∀ d, d.weight = σ (.weight c) → d.gain = σ (.gain c) → τ (.weight c) = (f d).weight)
    (gain : ∀ d, d.weight = σ (.weight c) → d.gain = σ (.gain c) → τ (.gain c) = (f d).gain) :
    g.Follows (modifyConnection c f) () τ := by
  obtain ⟨d, hd⟩ := Option.isSome_iff_exists.mp hc
  have hw : d.weight = σ (.weight c) := by simp [h (.weight c) rfl, hd]
  have hg : d.gain = σ (.gain c) := by simp [h (.gain c) rfl, hd]
  exact ⟨g.withConnection c f, modifyConnection_run hc f, (skeleton_withConnection g c hf).symm,
    h.withConnection hd others (weight d hw hg) (gain d hw hg)⟩

theorem isSome_of_skeleton_eq {g' : Graph} (h : g.skeleton = g'.skeleton) {c : ConnectionId}
    (hc : (g.connection? c).isSome) : (g'.connection? c).isSome := by
  obtain ⟨d, hd⟩ := Option.isSome_iff_exists.mp hc
  obtain ⟨d', hd', -⟩ := connection?_of_skeleton_eq h hd
  simp [hd']

end Follows

end Graph

end GatedNetwork
