import GatedNetwork.Proofs.Graph.Follow

/-! The numbers that a graph holds, told apart from those it does not. A reading shows 0 where nothing
is kept; an entry is there or it is not, as its neuron, its connection or its trace is. -/

namespace GatedNetwork

/-- The number that a neuron keeps under a key, if it keeps one. -/
def Neuron.held? (n : Neuron) : Key → Option Float
  | .state _ => some n.state
  | .old _ => some n.old
  | .activation _ => some n.activation
  | .derivative _ => some n.derivative
  | .bias _ => some n.bias
  | .responsibility _ => some n.error.responsibility
  | .projected _ => some n.error.projected
  | .gated _ => some n.error.gated
  | .eligibility _ c => n.trace.eligibility.get? c
  | .extended _ k c => (n.trace.extended.get? k).bind (·.get? c)
  | .influence _ k => n.trace.influences.get? k
  | .weight _ => some n.selfConnection.weight
  | .gain _ => some n.selfConnection.gain
  | .rate | .target _ | .error _ | .gradient _ => none

namespace Graph

/-- The number that a graph keeps under a key, if it keeps one. -/
def held? (g : Graph) (k : Key) : Option Float :=
  match k with
  | .rate | .target _ | .error _ | .gradient _ => none
  | .weight c => (g.connection? c).map (·.weight)
  | .gain c => (g.connection? c).map (·.gain)
  | .state id | .old id | .activation id | .derivative id | .bias id | .responsibility id
  | .projected id | .gated id | .eligibility id _ | .extended id _ _ | .influence id _ =>
    (g.neurons.get? id).bind (·.held? k)

section Entries

variable {g g' : Graph} {id : NeuronId} {n : Neuron} {c : ConnectionId} {k : Key} {x : Float}

theorem held?_of_isOf (hk : k.IsOf id) : g.held? k = (g.neurons.get? id).bind (·.held? k) := by
  cases k with
  | rate | target | error | gradient => exact hk.elim
  | weight | gain =>
    obtain rfl := hk
    rw [held?, connection?_loop]
    cases g.neurons.get? id <;> rfl
  | _ =>
    obtain rfl := hk
    rfl

/-- What is not kept in a neuron is a weight or a gain of a connection between two. -/
theorem isOf_or_of_held? (h : g.held? k = some x) :
    (∃ id n, g.neurons.get? id = some n ∧ k.IsOf id) ∨
      ∃ c d, c.isSelf = false ∧ g.connection? c = some d ∧ (k = .weight c ∨ k = .gain c) := by
  have kept {id : NeuronId} (hk : k.IsOf id) : ∃ id n, g.neurons.get? id = some n ∧ k.IsOf id := by
    rw [held?_of_isOf hk] at h
    obtain ⟨n, hn, -⟩ := Option.bind_eq_some_iff.mp h
    exact ⟨id, n, hn, hk⟩
  have joined {c : ConnectionId} (hk : k = .weight c ∨ k = .gain c) (hd : (g.connection? c).isSome) :
      (∃ id n, g.neurons.get? id = some n ∧ k.IsOf id) ∨
        ∃ c d, c.isSelf = false ∧ g.connection? c = some d ∧ (k = .weight c ∨ k = .gain c) := by
    obtain ⟨d, hd⟩ := Option.isSome_iff_exists.mp hd
    cases hs : c.isSelf with
    | true =>
      have own : k.IsOf c.source := by rcases hk with rfl | rfl <;> exact eq_loop_of_isSelf hs
      exact .inl (kept own)
    | false => exact .inr ⟨c, d, hs, hd, hk⟩
  cases k with
  | rate | target | error | gradient => nomatch h
  | weight c =>
    obtain ⟨d, hd, -⟩ := Option.map_eq_some_iff.mp h
    exact joined (.inl rfl) (by simp [hd])
  | gain c =>
    obtain ⟨d, hd, -⟩ := Option.map_eq_some_iff.mp h
    exact joined (.inr rfl) (by simp [hd])
  | _ => exact .inl (kept rfl)

theorem withNeuron_held?_of_not_isOf (g : Graph) (id : NeuronId) (f : Neuron → Neuron)
    (hk : ¬ k.IsOf id) : (g.withNeuron id f).held? k = g.held? k := by
  cases k with
  | rate | target | error | gradient => rfl
  | weight | gain => simp [held?, connection?_withNeuron, show _ ≠ _ from hk]
  | _ => simp [held?, Ne.symm (show _ ≠ _ from hk)]

theorem withNeuron_held?_of_fixed {f : Neuron → Neuron}
    (h : ∀ n, g.neurons.get? id = some n → (f n).held? k = n.held? k) :
    (g.withNeuron id f).held? k = g.held? k := by
  by_cases hk : k.IsOf id
  · rw [held?_of_isOf hk, held?_of_isOf hk, withNeuron_get?, if_pos rfl]
    cases hn : g.neurons.get? id with
    | none => rfl
    | some n => exact h n hn
  · exact g.withNeuron_held?_of_not_isOf id f hk

theorem withConnection_held?_of_ne (g : Graph) (f : Connection → Connection) (hw : k ≠ .weight c)
    (hg : k ≠ .gain c) : (g.withConnection c f).held? k = g.held? k := by
  cases k with
  | rate | target | error | gradient => rfl
  | weight d =>
    have hne : c ≠ d := fun e => hw (by rw [e])
    simp [held?, hne]
  | gain d =>
    have hne : c ≠ d := fun e => hg (by rw [e])
    simp [held?, hne]
  | _ =>
    simp only [held?, withConnection_get?]
    split
    · rw [Option.bind_map]
      rfl
    · rfl

theorem reading_eq_getD (g : Graph) (k : Key) : g.reading k = (g.held? k).getD 0 := by
  cases k with
  | rate | target | error | gradient => rfl
  | weight | gain => simp [held?]
  | state id | old id | activation id | derivative id | bias id | responsibility id | projected id
  | gated id | eligibility id | extended id | influence id =>
    cases hn : g.neurons.get? id <;>
      simp [held?, hn, Neuron.held?, Trace.eligibilityOf, Trace.extendedOf, Trace.influenceOf]

/-- Graphs with one skeleton keep numbers under the same keys. -/
theorem isSome_held?_of_skeleton_eq (hs : g.skeleton = g'.skeleton) (k : Key) :
    (g'.held? k).isSome = (g.held? k).isSome := by
  have same {id : NeuronId} (hk : k.IsOf id) : (g'.held? k).isSome = (g.held? k).isSome := by
    rw [held?_of_isOf hk, held?_of_isOf hk]
    cases hn : g.neurons.get? id with
    | none => rw [get?_eq_none_of_skeleton_eq hs hn]
    | some n =>
      obtain ⟨n', hn', skeleton_eq⟩ := get?_of_skeleton_eq hs hn
      obtain ⟨-, -, -, -, -, -, clear_eq⟩ := Neuron.of_skeleton_eq skeleton_eq
      obtain ⟨eligibility_eq, extended_eq, influences_eq⟩ := Trace.mk.inj clear_eq
      rw [hn', Option.bind_some, Option.bind_some]
      cases k with
      | eligibility i c =>
        exact (SortedMap.contains_eq_of_mapValues _ eligibility_eq c).symm
      | influence i k => exact (SortedMap.contains_eq_of_mapValues _ influences_eq k).symm
      | extended i k c =>
        have rows := congrArg (SortedMap.get? · k) extended_eq
        simp only [SortedMap.get?_mapValues] at rows
        simp only [Neuron.held?]
        cases hr : n.trace.extended.get? k with
        | none =>
          have hr' : n'.trace.extended.get? k = none := by simpa [hr] using rows.symm
          rw [hr']
        | some row =>
          rw [hr, Option.map_some] at rows
          obtain ⟨row', hr', row_eq⟩ := Option.map_eq_some_iff.mp rows.symm
          rw [hr', Option.bind_some, Option.bind_some]
          exact SortedMap.contains_eq_of_mapValues _ row_eq c
      | _ => rfl
  have joined (c : ConnectionId) (f : Connection → Float) :
      ((g'.connection? c).map f).isSome = ((g.connection? c).map f).isSome := by
    cases hd : g.connection? c with
    | none => rw [connection?_eq_none_of_skeleton_eq hs hd]
    | some d =>
      obtain ⟨d', hd', -⟩ := connection?_of_skeleton_eq hs hd
      rw [hd']
      rfl
  cases k with
  | rate | target | error | gradient => rfl
  | weight c => exact joined c _
  | gain c => exact joined c _
  | _ => exact same rfl

end Entries

end Graph

end GatedNetwork
