import GatedNetwork.Program.Key
import GatedNetwork.Proofs.Graph.Skeleton

/-! The numbers of a graph by key. A graph is its skeleton together with the numbers that
stand in it. -/

namespace GatedNetwork

/-- A number for every key. -/
abbrev Reading := Key → Float

/-- The key names a number that a graph holds. -/
def Key.isField : Key → Bool
  | .rate | .target _ | .error _ | .gradient _ => false
  | _ => true

namespace Graph

/-- The numbers of a graph, with 0 for what is not there. -/
def reading (g : Graph) : Reading := fun k => (g.value k).toOption.getD 0

/-- A reading shows the numbers of a graph. -/
def Agrees (g : Graph) (σ : Reading) : Prop := ∀ k, k.isField → σ k = g.reading k

theorem agrees_reading (g : Graph) : g.Agrees g.reading := fun _ _ => rfl

section Fields

variable (g : Graph) (id : NeuronId)

theorem toOption_neuron : (g.neuron id).toOption = g.neurons.get? id := by
  unfold neuron
  cases g.neurons.get? id <;> rfl

theorem toOption_connection (c : ConnectionId) : (g.connection c).toOption = g.connection? c := by
  unfold connection connection? neuron
  split
  · cases g.neurons.get? c.source <;> rfl
  · cases g.connections.get? c <;> rfl

theorem toOption_map {ε α β : Type} (f : α → β) (x : Except ε α) :
    (x.map f).toOption = x.toOption.map f := by
  cases x <;> rfl

theorem reading_of_neuron {k : Key} {f : Neuron → Float} (hk : g.value k = (g.neuron id).map f) :
    g.reading k = ((g.neurons.get? id).map f).getD 0 := by
  rw [reading, hk, toOption_map, toOption_neuron]

theorem reading_of_connection {k : Key} {c : ConnectionId} {f : Connection → Float}
    (hk : g.value k = (g.connection c).map f) :
    g.reading k = ((g.connection? c).map f).getD 0 := by
  rw [reading, hk, toOption_map, toOption_connection]

@[simp] theorem reading_state :
    g.reading (.state id) = ((g.neurons.get? id).map (·.state)).getD 0 :=
  g.reading_of_neuron id rfl

@[simp] theorem reading_old : g.reading (.old id) = ((g.neurons.get? id).map (·.old)).getD 0 :=
  g.reading_of_neuron id rfl

@[simp] theorem reading_activation :
    g.reading (.activation id) = ((g.neurons.get? id).map (·.activation)).getD 0 :=
  g.reading_of_neuron id rfl

@[simp] theorem reading_derivative :
    g.reading (.derivative id) = ((g.neurons.get? id).map (·.derivative)).getD 0 :=
  g.reading_of_neuron id rfl

@[simp] theorem reading_bias : g.reading (.bias id) = ((g.neurons.get? id).map (·.bias)).getD 0 :=
  g.reading_of_neuron id rfl

@[simp] theorem reading_responsibility :
    g.reading (.responsibility id) =
      ((g.neurons.get? id).map (·.error.responsibility)).getD 0 :=
  g.reading_of_neuron id rfl

@[simp] theorem reading_projected :
    g.reading (.projected id) = ((g.neurons.get? id).map (·.error.projected)).getD 0 :=
  g.reading_of_neuron id rfl

@[simp] theorem reading_gated :
    g.reading (.gated id) = ((g.neurons.get? id).map (·.error.gated)).getD 0 :=
  g.reading_of_neuron id rfl

@[simp] theorem reading_weight (c : ConnectionId) :
    g.reading (.weight c) = ((g.connection? c).map (·.weight)).getD 0 :=
  g.reading_of_connection rfl

@[simp] theorem reading_gain (c : ConnectionId) :
    g.reading (.gain c) = ((g.connection? c).map (·.gain)).getD 0 :=
  g.reading_of_connection rfl

@[simp] theorem reading_eligibility (c : ConnectionId) :
    g.reading (.eligibility id c) =
      ((g.neurons.get? id).map (·.trace.eligibilityOf c)).getD 0 :=
  g.reading_of_neuron id rfl

@[simp] theorem reading_extended (k : NeuronId) (c : ConnectionId) :
    g.reading (.extended id k c) =
      ((g.neurons.get? id).map (·.trace.extendedOf k c)).getD 0 :=
  g.reading_of_neuron id rfl

@[simp] theorem reading_influence (k : NeuronId) :
    g.reading (.influence id k) =
      ((g.neurons.get? id).map (·.trace.influenceOf k)).getD 0 :=
  g.reading_of_neuron id rfl

end Fields

end Graph

section Extensionality

variable {κ : Type} [Ord κ] [Std.TransOrd κ] [Std.LawfulEqOrd κ]

theorem SortedMap.eq_of_contains_of_getD {ν : Type} (d : ν) {a b : SortedMap κ ν}
    (hk : ∀ k, a.contains k = b.contains k)
    (hv : ∀ k, (a.get? k).getD d = (b.get? k).getD d) : a = b := by
  refine eq_of_get?_eq fun k => ?_
  have hk := hk k
  have hv := hv k
  simp only [contains_eq_isSome] at hk
  cases ha : a.get? k <;> cases hb : b.get? k <;> simp_all

omit [Std.TransOrd κ] in
theorem SortedMap.contains_eq_of_mapValues {ν ν' : Type} (f : κ → ν → ν') {a b : SortedMap κ ν}
    (h : a.mapValues f = b.mapValues f) (k : κ) : a.contains k = b.contains k := by
  rw [← contains_mapValues f a k, h, contains_mapValues]

end Extensionality

theorem Trace.eq_of_clear_of_entries {t t' : Trace} (hs : t.clear = t'.clear)
    (he : ∀ c, t.eligibilityOf c = t'.eligibilityOf c)
    (hx : ∀ k c, t.extendedOf k c = t'.extendedOf k c)
    (hi : ∀ k, t.influenceOf k = t'.influenceOf k) : t = t' := by
  obtain ⟨eligibility_clear, extended_clear, influences_clear⟩ := Trace.mk.inj hs
  have eligibility_eq : t.eligibility = t'.eligibility :=
    SortedMap.eq_of_contains_of_getD 0 (SortedMap.contains_eq_of_mapValues _ eligibility_clear) he
  have influences_eq : t.influences = t'.influences :=
    SortedMap.eq_of_contains_of_getD 0 (SortedMap.contains_eq_of_mapValues _ influences_clear) hi
  have extended_eq : t.extended = t'.extended := SortedMap.eq_of_get?_eq fun k => by
    have hk := congrArg (SortedMap.get? · k) extended_clear
    have hxk := hx k
    simp only [SortedMap.get?_mapValues] at hk
    cases hr : t.extended.get? k with
    | none =>
      cases hr' : t'.extended.get? k with
      | none => rfl
      | some row' => simp [hr, hr'] at hk
    | some row =>
      cases hr' : t'.extended.get? k with
      | none => simp [hr, hr'] at hk
      | some row' =>
        simp only [hr, hr', Option.map_some, Option.some.injEq] at hk
        refine congrArg some (SortedMap.eq_of_contains_of_getD 0
          (SortedMap.contains_eq_of_mapValues _ hk) fun c => ?_)
        simpa [extendedOf, hr, hr'] using hxk c
  cases t
  cases t'
  simp_all

theorem Neuron.eq_of_skeleton {n n' : Neuron} (hs : n.skeleton = n'.skeleton)
    (values : (n.bias, n.activation, n.state, n.old, n.derivative, n.error) =
      (n'.bias, n'.activation, n'.state, n'.old, n'.derivative, n'.error))
    (self : n.selfConnection = n'.selfConnection) (trace : n.trace = n'.trace) : n = n' := by
  simp only [skeleton, clear, Neuron.mk.injEq] at hs
  cases n
  cases n'
  simp_all

namespace Graph

theorem get?_of_skeleton_eq {g g' : Graph} (h : g.skeleton = g'.skeleton) {id : NeuronId} {n : Neuron}
    (hn : g.neurons.get? id = some n) :
    ∃ n', g'.neurons.get? id = some n' ∧ n.skeleton = n'.skeleton := by
  have hid := skeleton_neurons_get? g id
  rw [h, skeleton_neurons_get?, hn] at hid
  obtain ⟨n', hn', hs⟩ := Option.map_eq_some_iff.mp hid
  exact ⟨n', hn', hs.symm⟩

theorem get?_eq_none_of_skeleton_eq {g g' : Graph} (h : g.skeleton = g'.skeleton) {id : NeuronId}
    (hn : g.neurons.get? id = none) : g'.neurons.get? id = none := by
  cases hn' : g'.neurons.get? id with
  | none => rfl
  | some n' =>
    obtain ⟨n, hn'', -⟩ := get?_of_skeleton_eq h.symm hn'
    simp [hn] at hn''

theorem connection?_of_skeleton_eq {g g' : Graph} (h : g.skeleton = g'.skeleton) {c : ConnectionId}
    {d : Connection} (hd : g.connection? c = some d) :
    ∃ d', g'.connection? c = some d' ∧ d.gater = d'.gater := by
  have hc := skeleton_connection? g c
  rw [h, skeleton_connection?, hd] at hc
  obtain ⟨d', hd', hs⟩ := Option.map_eq_some_iff.mp hc
  exact ⟨d', hd', (congrArg Connection.gater hs).symm⟩

theorem connection?_eq_none_of_skeleton_eq {g g' : Graph} (h : g.skeleton = g'.skeleton)
    {c : ConnectionId} (hd : g.connection? c = none) : g'.connection? c = none := by
  cases hd' : g'.connection? c with
  | none => rfl
  | some d' =>
    obtain ⟨d, hd'', -⟩ := connection?_of_skeleton_eq h.symm hd'
    simp [hd] at hd''

/-- Graphs with one skeleton also fail alike to have a number. -/
theorem value_eq_of_reading {g g' : Graph} (hs : g.skeleton = g'.skeleton) {k : Key}
    (same : g'.reading k = g.reading k) : g'.value k = g.value k := by
  have in_neuron {id : NeuronId} {f : Neuron → Float}
      (same : ((g'.neurons.get? id).map f).getD 0 = ((g.neurons.get? id).map f).getD 0) :
      (g'.neuron id).map f = (g.neuron id).map f := by
    cases hn : g.neurons.get? id with
    | none =>
      have hn' := get?_eq_none_of_skeleton_eq hs hn
      simp only [neuron, hn, hn']
    | some n =>
      obtain ⟨n', hn', -⟩ := get?_of_skeleton_eq hs hn
      simp only [hn, hn', Option.map_some, Option.getD_some] at same
      simp only [neuron, hn, hn', Except.map, same]
  have in_connection {c : ConnectionId} {f : Connection → Float}
      (same : ((g'.connection? c).map f).getD 0 = ((g.connection? c).map f).getD 0) :
      (g'.connection c).map f = (g.connection c).map f := by
    cases hd : g.connection? c with
    | none =>
      have hd' := connection?_eq_none_of_skeleton_eq hs hd
      rw [connection_eq_error hd, connection_eq_error hd']
    | some d =>
      obtain ⟨d', hd', -⟩ := connection?_of_skeleton_eq hs hd
      simp only [hd, hd', Option.map_some, Option.getD_some] at same
      simp only [connection_eq_ok hd, connection_eq_ok hd', Except.map, same]
  cases k with
  | rate | target | error | gradient => rfl
  | weight | gain => exact in_connection (by simpa using same)
  | _ => exact in_neuron (by simpa using same)

theorem connection?_eq_of_reading {g g' : Graph} (hs : g.skeleton = g'.skeleton)
    (hr : g'.Agrees g.reading) (c : ConnectionId) : g.connection? c = g'.connection? c := by
  have hw := hr (.weight c) rfl
  have hg := hr (.gain c) rfl
  simp only [reading_weight, reading_gain] at hw hg
  cases hd : g.connection? c with
  | none => rw [connection?_eq_none_of_skeleton_eq hs hd]
  | some d =>
    obtain ⟨d', hd', gater_eq⟩ := connection?_of_skeleton_eq hs hd
    simp only [hd, hd', Option.map_some, Option.getD_some] at hw hg
    rw [hd']
    cases d
    cases d'
    simp_all

theorem neuron_eq_of_reading {g g' : Graph} (hs : g.skeleton = g'.skeleton)
    (hr : g'.Agrees g.reading) {id : NeuronId} {n n' : Neuron}
    (hn : g.neurons.get? id = some n) (hn' : g'.neurons.get? id = some n') : n = n' := by
  obtain ⟨m, hm, skeleton_eq⟩ := get?_of_skeleton_eq hs hn
  obtain rfl : m = n' := Option.some.inj (hm.symm.trans hn')
  have bias := hr (.bias id) rfl
  have activation := hr (.activation id) rfl
  have state := hr (.state id) rfl
  have old := hr (.old id) rfl
  have derivative := hr (.derivative id) rfl
  have responsibility := hr (.responsibility id) rfl
  have projected := hr (.projected id) rfl
  have gated := hr (.gated id) rfl
  have eligibility := fun c => hr (.eligibility id c) rfl
  have extended := fun k c => hr (.extended id k c) rfl
  have influence := fun k => hr (.influence id k) rfl
  simp only [reading_bias, reading_activation, reading_state, reading_old, reading_derivative,
    reading_responsibility, reading_projected, reading_gated, reading_eligibility,
    reading_extended, reading_influence, hn, hn', Option.map_some, Option.getD_some]
    at bias activation state old derivative responsibility projected gated eligibility extended influence
  have error : n.error = m.error := by
    cases hne : n.error
    cases hme : m.error
    simp_all
  have self := connection?_eq_of_reading hs hr (.loop id)
  simp only [connection?, ConnectionId.isSelf, ConnectionId.loop, beq_self_eq_true, ↓reduceIte, hn,
    hn', Option.map_some, Option.some.injEq] at self
  refine Neuron.eq_of_skeleton skeleton_eq ?_ self
    (Trace.eq_of_clear_of_entries (congrArg Neuron.trace skeleton_eq) eligibility extended influence)
  simp [bias, activation, state, old, derivative, error]

/-- A graph is known by its skeleton, its numbers and the self pairs in its table, which stand for no
connection. -/
theorem eq_of_skeleton_of_stray {g g' : Graph} (hs : g.skeleton = g'.skeleton)
    (hr : g'.Agrees g.reading)
    (stray : ∀ c : ConnectionId, c.isSelf → g.connections.get? c = g'.connections.get? c) : g = g' := by
  have neurons_eq : g.neurons = g'.neurons := SortedMap.eq_of_get?_eq fun id => by
    cases hn : g.neurons.get? id with
    | none => rw [get?_eq_none_of_skeleton_eq hs hn]
    | some n =>
      obtain ⟨n', hn', -⟩ := get?_of_skeleton_eq hs hn
      rw [hn', neuron_eq_of_reading hs hr hn hn']
  have connections_eq : g.connections = g'.connections := SortedMap.eq_of_get?_eq fun c => by
    cases hc : c.isSelf with
    | true => exact stray c hc
    | false => simpa [connection?, hc] using connection?_eq_of_reading hs hr c
  cases g
  cases g'
  simp_all

theorem eq_of_skeleton_of_reading {g g' : Graph} (hs : g.skeleton = g'.skeleton)
    (hj : ∀ c, g.connections.contains c → c.isSelf = false) (hr : g'.Agrees g.reading) : g = g' := by
  refine eq_of_skeleton_of_stray hs hr fun c hc => ?_
  have absent : ¬ g.connections.contains c := fun there => by simp [hj c there] at hc
  have absent' : ¬ g'.connections.contains c := by
    rwa [← skeleton_contains_connection, ← hs, skeleton_contains_connection]
  simp only [SortedMap.contains_eq_isSome, Option.not_isSome_iff_eq_none] at absent absent'
  rw [absent, absent']

end Graph

end GatedNetwork
