import GatedNetwork.Proofs.Graph.Edits

/-! Changes of the numbers of a graph. They leave its indexes in agreement, and they give a
number only to what takes part in a run. -/

namespace GatedNetwork

theorem Trace.clear_clear (t : Trace) : t.clear.clear = t.clear := by
  simp only [Trace.clear, Trace.mk.injEq]
  refine ⟨SortedMap.eq_of_get?_eq fun c => ?_, SortedMap.eq_of_get?_eq fun k => ?_,
    SortedMap.eq_of_get?_eq fun k => ?_⟩
  · simp [Function.comp_def]
  · simp only [SortedMap.get?_mapValues, Option.map_map, Function.comp_def]
    congr 1
    funext row
    refine SortedMap.eq_of_get?_eq fun c => ?_
    simp [Function.comp_def]
  · simp [Function.comp_def]

theorem Neuron.skeleton_clear (n : Neuron) : n.clear.skeleton = n.skeleton := by
  simp [Neuron.skeleton, Neuron.clear, Trace.clear_clear]

theorem Neuron.Traced.clear {n : Neuron} (h : n.Traced) : n.clear.Traced :=
  h.of_skeleton_eq n.skeleton_clear.symm

namespace Graph

section Single

variable {g : Graph} {id : NeuronId}

theorem keeps_modifyNeuron {f : Neuron → Neuron}
    (hf : ∀ n, (f n).inputs = n.inputs ∧ (f n).projected = n.projected ∧ (f n).gated = n.gated ∧
      (f n).selfConnection = n.selfConnection ∧ (f n).selfConnected = n.selfConnected)
    (ht : ∀ n, n.Traced → (f n).Traced) : Keeps Consistent (modifyNeuron id f) :=
  keeps_withNeuron fun _ h _ => h.withNeuron hf ht

theorem keeps_setSquash (squash : Squash) :
    Keeps Consistent (modifyNeuron id fun n => { n with squash }) :=
  keeps_modifyNeuron (by simp) fun _ traced => traced.congr rfl rfl rfl

theorem keeps_setBias (bias : Float) : Keeps Consistent (modifyNeuron id fun n => { n with bias }) :=
  keeps_modifyNeuron (by simp) fun _ traced => traced.congr rfl rfl rfl

theorem keeps_clearNeuron : Keeps Consistent (modifyNeuron id (·.clear)) :=
  keeps_modifyNeuron (by simp [Neuron.clear]) fun _ traced => traced.clear

theorem keeps_setWeight {c : ConnectionId} (hc : c.isSelf = false) (weight : Float) :
    Keeps Consistent (modifyConnection c fun d => { d with weight }) := by
  refine keeps_withConnection fun g d h hd => h.withWeight ?_ weight
  rw [connection?_of_not_isSelf hc] at hd
  rw [contains_of_not_isSelf hc]
  exact Option.isSome_iff_exists.mpr ⟨d, hd⟩

/-- Everything but the gains of connections without a gater and the weights of disabled
self-connections may change as long as the indexes stay. -/
theorem Consistent.of_skeleton_eq {g' : Graph} (h : g.Consistent) (hs : g.skeleton = g'.skeleton)
    (gain_eq : ∀ c, g.gater? c = none → g'.reading (.gain c) = g.reading (.gain c))
    (weight_eq : ∀ id, g.contains (.loop id) = false →
      g'.reading (.weight (.loop id)) = g.reading (.weight (.loop id))) : g'.Consistent where
  toLinked := h.toLinked.of_skeleton_eq hs
  ungated_gain c d' hd' hg := by
    obtain ⟨d, hd, gater_eq⟩ := connection?_of_skeleton_eq hs.symm hd'
    have gain := gain_eq c (by rw [gater?, hd]; simp [← gater_eq, hg])
    simp only [reading_gain, hd, hd', Option.map_some, Option.getD_some] at gain
    rw [gain]
    exact h.ungated_gain c d hd (gater_eq ▸ hg)
  disabled_weight id n' hn' hoff := by
    obtain ⟨n, hn, skeleton_eq⟩ := get?_of_skeleton_eq hs.symm hn'
    obtain ⟨-, -, -, -, self_eq, -⟩ := Neuron.of_skeleton_eq skeleton_eq
    have weight := weight_eq id (by rw [contains_loop, hn]; simp [← self_eq, hoff])
    simp only [reading_weight, connection?_loop, hn, hn', Option.map_some, Option.getD_some]
      at weight
    rw [weight]
    exact h.disabled_weight id n hn (self_eq ▸ hoff)

end Single

section Clearing

variable {g : Graph}

theorem clear_get? (g : Graph) (id : NeuronId) :
    g.clear.neurons.get? id =
      (g.neurons.get? id).map fun n => { n.clear with selfConnection := n.selfConnection.clear } := by
  simp [clear]

theorem connection?_clear (g : Graph) (c : ConnectionId) :
    g.clear.connection? c = (g.connection? c).map (·.clear) := by
  unfold connection?
  split
  · rw [clear_get?, Option.map_map, Option.map_map]
    rfl
  · simp [clear]

@[simp] theorem Connection.clear_gater (d : Connection) : d.clear.gater = d.gater := by
  unfold Connection.clear
  split <;> rfl

@[simp] theorem Connection.clear_weight (d : Connection) : d.clear.weight = d.weight := by
  unfold Connection.clear
  split <;> rfl

theorem skeleton_clear (g : Graph) : g.clear.skeleton = g.skeleton := by
  have rested (n : Neuron) :
      ({ n.clear with selfConnection := n.selfConnection.clear } : Neuron).skeleton = n.skeleton := by
    rw [← n.skeleton_clear, Neuron.skeleton, Connection.skeleton_eq (Connection.clear_gater _)]
    rfl
  have same (c : Connection) : c.clear.skeleton = c.skeleton :=
    Connection.skeleton_eq (Connection.clear_gater c)
  simp only [skeleton, clear, SortedMap.mapValues_mapValues, rested, same]

theorem gater?_clear (g : Graph) (c : ConnectionId) : g.clear.gater? c = g.gater? c := by
  rw [gater?, gater?, connection?_clear]
  cases g.connection? c <;> simp

theorem contains_clear (g : Graph) (c : ConnectionId) : g.clear.contains c = g.contains c := by
  refine contains_eq_of (fun id => ?_) (fun d => by simp [clear]) c
  rw [clear_get?]
  cases g.neurons.get? id <;> rfl

@[simp] theorem clear_contains_neuron (g : Graph) (id : NeuronId) :
    g.clear.neurons.contains id = g.neurons.contains id := by
  simp [clear]

@[simp] theorem clear_contains_connection (g : Graph) (c : ConnectionId) :
    g.clear.connections.contains c = g.connections.contains c := by
  simp [clear]

theorem Consistent.clear (h : g.Consistent) : g.clear.Consistent := by
  have lookup {id : NeuronId} {n' : Neuron} (hn' : g.clear.neurons.get? id = some n') :
      ∃ n, g.neurons.get? id = some n ∧
        n' = { n.clear with selfConnection := n.selfConnection.clear } := by
    rw [clear_get?] at hn'
    obtain ⟨n, hn, heq⟩ := Option.map_eq_some_iff.mp hn'
    exact ⟨n, hn, heq.symm⟩
  refine ⟨⟨fun c hc => ?_, fun c x hg => ?_, fun id n' hn' c => ?_, fun id n' hn' c => ?_,
    fun id n' hn' c => ?_, fun id n' hn' => ?_⟩, fun c d hd hg => ?_, fun id n' hn' hoff => ?_⟩
  · simpa using h.joined c (by simpa using hc)
  · rw [gater?_clear] at hg
    simpa [contains_clear] using h.gater_mem c x hg
  · obtain ⟨n, hn, rfl⟩ := lookup hn'
    simpa [Neuron.clear] using h.projected_iff id n hn c
  · obtain ⟨n, hn, rfl⟩ := lookup hn'
    simpa [Neuron.clear] using h.inputs_iff id n hn c
  · obtain ⟨n, hn, rfl⟩ := lookup hn'
    simpa [Neuron.clear, gater?_clear] using h.gated_iff id n hn c
  · obtain ⟨n, hn, rfl⟩ := lookup hn'
    exact (h.traced id n hn).clear.congr rfl rfl rfl
  · rw [connection?_clear] at hd
    obtain ⟨e, he, rfl⟩ := Option.map_eq_some_iff.mp hd
    rw [Connection.clear_gater] at hg
    simp [Connection.clear, hg, h.ungated_gain c e he hg]
  · obtain ⟨n, hn, rfl⟩ := lookup hn'
    have weight := h.disabled_weight id n hn hoff
    simp only [Connection.clear]
    split <;> exact weight

end Clearing

section Intact

variable {ks : List NeuronId}

theorem intact_setSquash (id : NeuronId) (squash : Squash) :
    Keeps (Intact ks) (modifyNeuron id fun n => { n with squash }) :=
  (keeps_setSquash squash).and (named_modifyNeuron id _)

theorem intact_setBias (id : NeuronId) (bias : Float) :
    Keeps (Intact ks) (modifyNeuron id fun n => { n with bias }) :=
  (keeps_setBias bias).and (named_modifyNeuron id _)

theorem intact_clearNeuron (id : NeuronId) : Keeps (Intact ks) (modifyNeuron id (·.clear)) :=
  keeps_clearNeuron.and (named_modifyNeuron id _)

theorem intact_clear (g : Graph) (h : Intact ks g) : Intact ks g.clear :=
  ⟨h.1.clear, by simpa [Named, Graph.clear] using h.2⟩

end Intact

end Graph

namespace Layer

open GatedNetwork.Graph

variable {ks : List NeuronId}

theorem intact_setSquash (l : Layer) (squash : Squash) : Keeps (Intact ks) (l.setSquash squash) :=
  keeps_forM fun id _ => Graph.intact_setSquash id squash

theorem intact_setBias (l : Layer) (bias : Float) : Keeps (Intact ks) (l.setBias bias) :=
  keeps_forM fun id _ => Graph.intact_setBias id bias

theorem intact_clear (l : Layer) : Keeps (Intact ks) l.clear :=
  keeps_forM fun id _ => intact_clearNeuron id

theorem intact_onFirst {α : Type} {act : Graph.Edit α} (h : Keeps (Intact ks) act) :
    Keeps (fun s : Graph × RandomStream => Intact ks s.1) (onFirst act) :=
  keeps_focus fun s hs => h s.1 hs

theorem intact_onSecond {α : Type} (act : Draw α) :
    Keeps (fun s : Graph × RandomStream => Intact ks s.1) (onSecond act) :=
  keeps_focus fun _ hs => hs

theorem intact_redraw (weights biases : Range) (id : NeuronId) :
    Keeps (fun s => Intact ks s.1) (redraw weights biases id) := by
  rintro ⟨g, r⟩ h
  cases hn : g.neurons.get? id with
  | none =>
    rw [redraw, bind_of_error (onFirst_of_error (ask_neuron_error hn))]
    exact h
  | some n =>
    rw [redraw, bind_of_ok (onFirst_of_ok (ask_neuron hn))]
    refine Keeps.bind (intact_onSecond _) (fun bias => ?_) (g, r) h
    refine Keeps.bind (intact_onFirst (Graph.intact_setBias id bias)) fun _ => ?_
    refine keeps_forM fun c hc => Keeps.bind (intact_onSecond _) fun weight => ?_
    have hself := (h.1.input hn (SortedSet.mem_toList_iff.mp hc)).1
    exact intact_onFirst ((Graph.keeps_setWeight hself weight).and (named_modifyConnection c _))

theorem intact_reset (l : Layer) (weights biases : Range) :
    Keeps (fun s => Intact ks s.1) (l.reset weights biases) :=
  Keeps.bind (intact_onFirst l.intact_clear) fun _ =>
    keeps_forM fun id _ => intact_redraw weights biases id

theorem intact_projectOnto (l : Layer) (target : List NeuronId) (wiring : Wiring)
    (weight : Option Float) (draw : Draw Float) :
    Keeps (fun s => Intact ks s.1) (l.projectOnto target wiring weight draw) :=
  Keeps.bind (keeps_ask _) fun _ => keeps_mapM fun st _ => intact_project st.1 st.2 weight draw

end Layer

end GatedNetwork
