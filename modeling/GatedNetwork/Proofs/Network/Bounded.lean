import GatedNetwork.Proofs.Graph.Bounded
import GatedNetwork.Proofs.Network.Lasting
import GatedNetwork.Proofs.Network.Running

/-! Networks whose settings draw from ranges of finite width. No change alters those ranges, so none
of their changes ends fatally. -/

namespace GatedNetwork

open NetworkError (IsMild)

def Config.isBounded (c : Config) : Bool := c.weightInit.isBounded && c.biasInit.isBounded

namespace Program

theorem recoverable_resolves (p : Program) (g : Graph) : Recoverable (p.resolves g) := by
  refine recoverable_forM fun id _ => ?_
  refine (g.recoverable_neuron id).bind fun n => recoverable_forM fun c _ => ?_
  exact (g.recoverable_connection c).bind fun _ => recoverable_ok _

theorem lenient_writeNeuron (p : Program) (id : NeuronId) : Lenient (p.writeNeuron id) := by
  refine Endures.bind (Graph.lenient_modifyNeuron id _) fun _ => ?_
  exact Endures.bind (lenient_ask fun g => g.recoverable_neuron id) fun n =>
    endures_forM fun c _ => Graph.lenient_modifyConnection c _

theorem lenient_writeBack (p : Program) : Lenient p.writeBack :=
  Endures.bind (lenient_ask p.recoverable_resolves) fun _ =>
    endures_forM fun id _ => p.lenient_writeNeuron id

end Program

namespace Network

/-- New weights and new biases can be drawn. -/
def Bounded (net : Network) : Prop := net.config.isBounded

section Edits

variable {net : Network}

theorem Bounded.weightInit (h : net.Bounded) : net.config.weightInit.isBounded :=
  (Bool.and_eq_true_iff.mp h).1

theorem Bounded.biasInit (h : net.Bounded) : net.config.biasInit.isBounded :=
  (Bool.and_eq_true_iff.mp h).2

theorem bounded_restore : Endures Bounded IsMild restore := by
  refine endures_get fun net _ => ?_
  cases net.program with
  | none => exact endures_pure _
  | some p =>
    exact Endures.bind (endures_focus p.lenient_writeBack (fun _ _ => trivial) fun _ _ h _ => h)
      fun _ => endures_modify fun _ h => h

theorem lastsEdits_bounded : LastsEdits Bounded (fun _ => True) IsMild where
  tuning := Graph.lastsEdits_lenient.toLastsTuning
  graph _ _ := trivial
  withGraph _ _ _ h _ := h
  restores := bounded_restore
  edits := Graph.lastsEdits_lenient
  mapLayer _ _ ref _ h := by cases ref <;> exact h
  weight _ h := lenient_draw h.weightInit

theorem lastsGrowth_bounded {floor : NeuronId} :
    LastsGrowth (fun _ => Bounded) (fun _ _ => True) IsMild floor where
  edits _ := lastsEdits_bounded
  withLayers _ _ _ _ _ _ h := h
  withNeuron _ _ _ _ h := h
  bias _ _ h := lenient_draw h.biasInit

theorem bounded_clear : Endures Bounded IsMild clear :=
  Endures.bind bounded_restore fun _ => endures_modify fun _ h => h

theorem bounded_reset : Endures Bounded IsMild reset := by
  refine Endures.bind bounded_clear fun _ => endures_get fun net h => endures_forM fun l _ => ?_
  exact lastsEdits_bounded.endures_onGraphAndRandom (l.lenient_reset h.weightInit h.biasInit)

theorem bounded_setOptimize (enabled : Bool) : Endures Bounded IsMild (setOptimize enabled) :=
  Endures.bind bounded_restore fun _ => endures_modify fun _ h => h

end Edits

section Running

variable {bound : NeuronId} {net bare : Network} {α : Type}

theorem StandsFor.bounded_iff (h : bare.StandsFor net) : net.Bounded ↔ bare.Bounded := by
  rw [Bounded, Bounded, h.config_eq]

theorem Walks.bounded {act : Edit α} {walk : Graph.Edit α} (walks : Walks bare net act walk)
    (bounded : bare.Bounded) :
    Ending (fun _ => Bounded) (fun e n => IsMild e ∧ n.Bounded) (act.run net) := by
  obtain ⟨x, live, net', run_eq, -, -, -, stands⟩ := walks
  rw [run_eq]
  exact stands.bounded_iff.mpr bounded

theorem StandsFor.bounded_optimize (h : bare.StandsFor net) (sound : bare.Sound bound [])
    (bounded : net.Bounded) :
    Ending (fun _ => Bounded) (fun e n => IsMild e ∧ n.Bounded) (optimize.run net) := by
  obtain ⟨p, run_eq, -⟩ := h.optimize_run sound
  rw [run_eq]
  exact h.bounded_iff.mp bounded

theorem StandsFor.bounded_activate (h : bare.StandsFor net) (sound : bare.Sound bound [])
    (bounded : net.Bounded) (values : List Float) :
    Ending (fun _ => Bounded) (fun e n => IsMild e ∧ n.Bounded) ((activate values).run net) := by
  by_cases length_eq : values.length = net.input.size
  · have length_eq : values.length = bare.input.size := h.layers_eq.1 ▸ length_eq
    exact (h.walks_activate sound length_eq).bounded (h.bounded_iff.mp bounded)
  · rw [activate, bind_of_ok (get_run net), if_neg length_eq]
    exact ⟨rfl, bounded⟩

theorem StandsFor.bounded_propagate (h : bare.StandsFor net) (sound : bare.Sound bound [])
    (bounded : net.Bounded) (rate : Float) (targets : List Float) :
    Ending (fun _ => Bounded) (fun e n => IsMild e ∧ n.Bounded) ((propagate rate targets).run net) := by
  by_cases valid : Program.validRate rate
  · by_cases length_eq : targets.length = net.output.size
    · have length_eq : targets.length = bare.output.size := h.layers_eq.2.2 ▸ length_eq
      exact (h.walks_propagate sound valid length_eq).bounded (h.bounded_iff.mp bounded)
    · rw [propagate, bind_of_ok (get_run net)]
      simp only [valid, length_eq, ↓reduceIte]
      exact ⟨rfl, bounded⟩
  · rw [propagate, bind_of_ok (get_run net), if_neg valid]
    exact ⟨rfl, bounded⟩

end Running

end Network

end GatedNetwork
