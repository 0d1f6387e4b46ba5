import GatedNetwork.Proofs.Graph.Drawing
import GatedNetwork.Proofs.Graph.Lasting

/-! Edits of a graph that end fatally. Only a draw from a range without a finite width does, so an
edit whose draws have finite widths fails at a missing name or not at all. -/

namespace GatedNetwork

/-- The error is the answer to one request, and the next one can follow. -/
def NetworkError.IsMild (e : NetworkError) : Prop := e.isFatal = false

open NetworkError (IsMild)

/-- No run of the action ends fatally. -/
def Lenient {σ α : Type} (act : EStateM NetworkError σ α) : Prop := Endures (fun _ => True) IsMild act

section Parts

variable {σ α : Type}

theorem lenient_ask {q : σ → Except NetworkError α} (hq : ∀ s, Recoverable (q s)) : Lenient (ask q) :=
  endures_ask fun s e he => hq s e he

theorem lenient_onFirst {τ : Type} {act : EStateM NetworkError σ α} (h : Lenient act) :
    Lenient (onFirst act : EStateM NetworkError (σ × τ) α) :=
  endures_focus h (fun _ _ => trivial) fun _ _ _ _ => trivial

theorem lenient_onSecond {τ : Type} {act : EStateM NetworkError τ α} (h : Lenient act) :
    Lenient (onSecond act : EStateM NetworkError (σ × τ) α) :=
  endures_focus h (fun _ _ => trivial) fun _ _ _ _ => trivial

theorem lenient_modify (f : σ → σ) : Lenient (modify f : EStateM NetworkError σ PUnit) :=
  endures_modify fun _ _ => trivial

/-- A draw from a range with a finite width comes to an end. -/
theorem lenient_draw {range : Range} (bounded : range.isBounded) : Lenient range.draw := by
  intro r _
  obtain ⟨x, r', run_eq⟩ := draw_ok bounded r
  rw [run_eq]
  trivial

end Parts

namespace Graph

theorem lenient_modifyNeuron (id : NeuronId) (f : Neuron → Neuron) : Lenient (modifyNeuron id f) :=
  Endures.bind (lenient_ask fun g => g.recoverable_neuron id) fun _ => lenient_modify _

theorem lenient_modifyConnection (c : ConnectionId) (f : Connection → Connection) :
    Lenient (modifyConnection c f) :=
  Endures.bind (lenient_ask fun g => g.recoverable_connection c) fun _ => lenient_modify _

theorem lenient_ungate (c : ConnectionId) : Lenient (ungate c) := by
  refine Endures.bind (lenient_ask fun g => g.recoverable_connection c) fun d => ?_
  cases d.gater with
  | none => exact endures_pure _
  | some x => exact Endures.bind (lenient_modifyConnection _ _) fun _ => lenient_modifyNeuron _ _

theorem lenient_gate (x : NeuronId) (c : ConnectionId) : Lenient (gate x c) := by
  refine Endures.bind (lenient_ask fun g => g.recoverable_neuron x) fun _ => ?_
  refine endures_get fun g _ => endures_guard rfl ?_
  refine Endures.bind (lenient_ask fun g => g.recoverable_connection c) fun d => ?_
  have take : Lenient (do
      modifyConnection c fun conn => { conn with gater := some x }
      modifyNeuron x (·.addGated c)) :=
    Endures.bind (lenient_modifyConnection _ _) fun _ => lenient_modifyNeuron _ _
  refine endures_ite (endures_pure _) (endures_ite ?_ take)
  exact Endures.bind (lenient_ungate c) fun _ => take

theorem lenient_disconnect (source target : NeuronId) : Lenient (disconnect source target) := by
  refine endures_get fun g _ => endures_guard rfl (Endures.bind (lenient_ungate _) fun _ => ?_)
  exact endures_ite (lenient_modifyNeuron _ _) (lenient_modify _)

theorem lenient_removeNeuron (id : NeuronId) : Lenient (removeNeuron id) := by
  refine Endures.bind (lenient_ask fun g => g.recoverable_neuron id) fun n => ?_
  refine Endures.bind (endures_forM fun c _ => lenient_disconnect c.source c.target) fun _ => ?_
  refine Endures.bind (endures_forM fun c _ => lenient_ungate c) fun _ => ?_
  refine Endures.bind (lenient_ungate _) fun _ => ?_
  refine Endures.bind (lenient_ask fun g => g.recoverable_neuron id) fun rest => ?_
  exact Endures.bind (lenient_modify _) fun _ => endures_pure rest

theorem lenient_project {σ : Type} (source target : NeuronId) (weight : Option Float)
    {draw : EStateM NetworkError σ Float} (drawn : Lenient draw) :
    Lenient (project source target weight draw) := by
  rintro ⟨g, r⟩ -
  rcases project_cases source target weight draw g r with
    ⟨id, -, -, heq⟩ | ⟨-, -, ⟨-, heq⟩ | ⟨-, -, heq⟩ | ⟨-, -, heq⟩⟩
  · rw [heq]
    exact ⟨rfl, trivial⟩
  · rw [heq]
    trivial
  · rw [heq]
    trivial
  · rw [heq]
    cases weight with
    | some w => trivial
    | none =>
      have ending := drawn r trivial
      cases hr : draw.run r with
      | ok w r' => trivial
      | error e r' => exact ⟨(ending.of_eq_error hr).1, trivial⟩

theorem lastsEdits_lenient : LastsEdits (fun _ => True) IsMild where
  recoverable _ he := he
  setBias _ _ := lenient_modifyNeuron _ _
  setSquash _ _ := lenient_modifyNeuron _ _
  setWeight _ _ := lenient_modifyConnection _ _
  disconnect := lenient_disconnect
  project source target weight _ drawn := lenient_project source target weight drawn
  gate := lenient_gate
  removeNeuron := lenient_removeNeuron

end Graph

namespace Layer

open GatedNetwork.Graph

theorem lenient_reset (l : Layer) {weights biases : Range} (hw : weights.isBounded)
    (hb : biases.isBounded) : Lenient (l.reset weights biases) := by
  have cleared : Lenient l.clear := endures_forM fun id _ => lenient_modifyNeuron _ _
  refine Endures.bind (lenient_onFirst cleared) fun _ => endures_forM fun id _ => ?_
  refine Endures.bind (lenient_onFirst (lenient_ask fun g => g.recoverable_neuron id)) fun n => ?_
  refine Endures.bind (lenient_onSecond (lenient_draw hb)) fun bias => ?_
  refine Endures.bind (lenient_onFirst (lenient_modifyNeuron _ _)) fun _ => ?_
  exact endures_forM fun c _ => Endures.bind (lenient_onSecond (lenient_draw hw)) fun weight =>
    lenient_onFirst (lenient_modifyConnection _ _)

end Layer

end GatedNetwork
