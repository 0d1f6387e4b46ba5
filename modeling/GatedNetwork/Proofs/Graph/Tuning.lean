import GatedNetwork.Proofs.Graph.Edits

/-! Changes of biases, squashes and weights. A tuning says what becomes of each of these values, and
the graph that is tuned by it differs from the old one in nothing else. -/

namespace GatedNetwork

/-- What becomes of the biases and squashes by neuron, and of the weights by connection. -/
structure Tuning where
  bias : NeuronId → Float → Float := fun _ bias => bias
  squash : NeuronId → Squash → Squash := fun _ squash => squash
  weight : ConnectionId → Float → Float := fun _ weight => weight

namespace Tuning

def andThen (t t' : Tuning) : Tuning where
  bias id bias := t'.bias id (t.bias id bias)
  squash id squash := t'.squash id (t.squash id squash)
  weight c weight := t'.weight c (t.weight c weight)

def setBias (id : NeuronId) (bias : Float) : Tuning where
  bias x old := if x = id then bias else old

def setSquash (id : NeuronId) (squash : Squash) : Tuning where
  squash x old := if x = id then squash else old

def setWeight (c : ConnectionId) (weight : Float) : Tuning where
  weight x old := if x = c then weight else old

end Tuning

namespace Graph

/-- The graph with tuned values: all that is not a bias, a squash or a weight stays. -/
def tuned (t : Tuning) (g : Graph) : Graph where
  neurons := g.neurons.mapValues fun id n =>
    { n with
      bias := t.bias id n.bias
      squash := t.squash id n.squash
      selfConnection :=
        { n.selfConnection with weight := t.weight (.loop id) n.selfConnection.weight } }
  connections := g.connections.mapValues fun c d => { d with weight := t.weight c d.weight }

section Tuned

variable {g : Graph} {t : Tuning} {id : NeuronId} {c : ConnectionId}

theorem eq_of_get?_eq {g g' : Graph} (neurons : ∀ id, g.neurons.get? id = g'.neurons.get? id)
    (connections : ∀ c, g.connections.get? c = g'.connections.get? c) : g = g' := by
  cases g
  cases g'
  simp only [mk.injEq]
  exact ⟨SortedMap.eq_of_get?_eq neurons, SortedMap.eq_of_get?_eq connections⟩

@[simp] theorem tuned_contains_neuron : (g.tuned t).neurons.contains id = g.neurons.contains id := by
  simp [tuned]

theorem tuned_connection? : (g.tuned t).connection? c =
    (g.connection? c).map fun d => { d with weight := t.weight c d.weight } := by
  unfold connection?
  split
  · rename_i self
    rw [tuned, SortedMap.get?_mapValues, Option.map_map, Option.map_map, ← eq_loop_of_isSelf self]
    rfl
  · rw [tuned, SortedMap.get?_mapValues]

@[simp] theorem tuned_contains : (g.tuned t).contains c = g.contains c := by
  refine contains_eq_of (fun id => ?_) (fun d => by simp [tuned]) c
  rw [tuned, SortedMap.get?_mapValues]
  cases g.neurons.get? id <;> rfl

theorem tuned_tuned (t t' : Tuning) : (g.tuned t).tuned t' = g.tuned (t.andThen t') := by
  simp only [tuned, SortedMap.mapValues_mapValues, Tuning.andThen]

theorem withNeuron_bias (id : NeuronId) (bias : Float) :
    (g.withNeuron id fun n => { n with bias }) = g.tuned (.setBias id bias) := by
  refine eq_of_get?_eq (fun x => ?_) fun d => ?_
  · rw [withNeuron_get?, tuned, SortedMap.get?_mapValues, Tuning.setBias]
    by_cases same : x = id
    · simp [same]
    · simp [same, Ne.symm same]
  · simp [tuned, Tuning.setBias]

theorem withNeuron_squash (id : NeuronId) (squash : Squash) :
    (g.withNeuron id fun n => { n with squash }) = g.tuned (.setSquash id squash) := by
  refine eq_of_get?_eq (fun x => ?_) fun d => ?_
  · rw [withNeuron_get?, tuned, SortedMap.get?_mapValues, Tuning.setSquash]
    by_cases same : x = id
    · simp [same]
    · simp [same, Ne.symm same]
  · simp [tuned, Tuning.setSquash]

/-- A self-connection is kept in its neuron and nowhere else. -/
theorem withConnection_weight (h : g.Linked) (c : ConnectionId) (weight : Float) :
    (g.withConnection c fun d => { d with weight }) = g.tuned (.setWeight c weight) := by
  refine eq_of_get?_eq (fun x => ?_) fun d => ?_
  · rw [withConnection_get?, tuned, SortedMap.get?_mapValues, Tuning.setWeight]
    by_cases same : ConnectionId.loop x = c
    · simp [same]
    · simp [same, Ne.symm same]
  · rw [withConnection, tuned, SortedMap.get?_mapValues, Tuning.setWeight]
    cases hd : g.connections.get? d with
    | none => split <;> simp [hd]
    | some e =>
      have regular : d.isSelf = false := (h.joined d (Option.isSome_iff_exists.mpr ⟨e, hd⟩)).1
      by_cases same : d = c
      · subst same
        simp [regular, hd]
      · split <;> simp [same, Ne.symm same, hd]

end Tuned

end Graph

end GatedNetwork
