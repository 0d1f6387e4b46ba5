import GatedNetwork.Proofs.Network.Lasting

/-! Neurons keep to their layers. Whatever a network goes through, its layers have no neurons but those
that they had and such as were made later. -/

namespace GatedNetwork

theorem Graph.lastsEdits_any : LastsEdits (fun _ => True) fun _ => True where
  recoverable _ _ := trivial
  setBias _ _ := Keeps.endures fun _ _ => trivial
  setSquash _ _ := Keeps.endures fun _ _ => trivial
  setWeight _ _ := Keeps.endures fun _ _ => trivial
  disconnect _ _ := Keeps.endures fun _ _ => trivial
  project _ _ _ _ _ := Keeps.endures fun _ _ => trivial
  gate _ _ := Keeps.endures fun _ _ => trivial
  removeNeuron _ := Keeps.endures fun _ _ => trivial

namespace Network

/-- Every neuron of a layer was at home there, or its id was still free. -/
def Aged (home : LayerRef → NeuronId → Prop) (floor : NeuronId) (net : Network) : Prop :=
  ∀ ref, ∀ id ∈ net.members ref, home ref id ∨ floor ≤ id

variable {home : LayerRef → NeuronId → Prop} {floor : NeuronId} {net net' : Network} {α : Type}

theorem Aged.of_members (h : net.Aged home floor)
    (grown : ∀ ref, ∀ id ∈ net'.members ref, id ∈ net.members ref ∨ floor ≤ id) :
    net'.Aged home floor := fun ref id hid =>
  (grown ref id hid).elim (h ref id) .inr

section Edits

theorem aged_onGraph (act : Graph.Edit α) : Keeps (Aged home floor) (onGraph act) :=
  keeps_focus fun _ h => h

theorem keeps_restore {P : Network → Prop}
    (h : ∀ net g program, P net → P { net with graph := g, program }) : Keeps P restore := by
  refine Keeps.bind keeps_get fun net => ?_
  cases net.program with
  | none => exact keeps_pure _
  | some p =>
    exact Keeps.bind (keeps_focus fun net hnet => h net _ net.program hnet) fun _ =>
      keeps_modify fun net hnet => h net net.graph none hnet

theorem aged_restore : Keeps (Aged home floor) restore := keeps_restore fun _ _ _ h => h

/-- The layers change only where neurons come and go, and a neuron that comes is new. -/
theorem lastsGrowth_aged :
    LastsGrowth (fun _ => Aged home floor) (fun _ _ => True) (fun _ => True) floor where
  edits _ := {
    tuning := Graph.lastsEdits_any.toLastsTuning
    graph := fun _ _ => trivial
    withGraph := fun _ _ _ h _ => h
    restores := aged_restore.endures
    edits := Graph.lastsEdits_any
    mapLayer := fun _ _ _ fewer h => h.of_members fun _ _ =>
      mem_members_mapLayer fun l _ hx => .inl (fewer l hx)
    weight := fun _ _ => drawn_any _ }
  withLayers _ _ _ _ _ grown h := h.of_members grown
  withNeuron _ _ _ _ h := h
  bias _ _ _ := drawn_any _

end Edits

section Running

theorem aged_onProgram (act : EStateM NetworkError Program α) :
    Keeps (Aged home floor) (onProgram act) := by
  refine Keeps.bind keeps_get fun net => ?_
  cases net.program
  case' some p => refine Keeps.bind (keeps_pure p) fun p => ?_
  case' none => refine Keeps.bind (keeps_ask _) fun p => ?_
  all_goals
    refine Keeps.bind (keeps_modify fun _ h => h) fun _ => ?_
    cases act p with
    | ok a p => exact Keeps.bind (keeps_modify fun _ h => h) fun _ => keeps_pure a
    | error e p => exact Keeps.bind (keeps_modify fun _ h => h) fun _ _ h => h

theorem aged_activate (input : List Float) : Keeps (Aged home floor) (activate input) := by
  refine Keeps.bind keeps_get fun net => keeps_guard ?_
  cases net.config.mode with
  | flat => exact aged_onProgram _
  | graph =>
    refine Keeps.bind aged_restore fun _ => Keeps.bind keeps_get fun net => ?_
    refine Keeps.bind (aged_onGraph _) fun _ => Keeps.bind (keeps_forM fun l _ => ?_) fun _ => aged_onGraph _
    exact Keeps.bind (aged_onGraph _) fun _ => keeps_pure _

theorem aged_propagate (rate : Float) (target : List Float) :
    Keeps (Aged home floor) (propagate rate target) := by
  refine Keeps.bind keeps_get fun net => keeps_guard (keeps_guard ?_)
  cases net.config.mode with
  | flat => exact aged_onProgram _
  | graph =>
    refine Keeps.bind aged_restore fun _ => Keeps.bind keeps_get fun net => ?_
    exact Keeps.bind (aged_onGraph _) fun _ => keeps_forM fun l _ => aged_onGraph _

theorem aged_clear : Keeps (Aged home floor) clear :=
  Keeps.bind aged_restore fun _ => keeps_modify fun _ h => h

theorem aged_reset : Keeps (Aged home floor) reset :=
  Keeps.bind aged_clear fun _ => Keeps.bind keeps_get fun _ =>
    keeps_forM fun _ _ => keeps_focus fun _ h => h

theorem aged_optimize : Keeps (Aged home floor) optimize :=
  Keeps.bind aged_restore fun _ => Keeps.bind (keeps_ask _) fun _ =>
    Keeps.bind (keeps_modify fun _ h => h) fun _ => keeps_pure _

theorem aged_setOptimize (enabled : Bool) : Keeps (Aged home floor) (setOptimize enabled) :=
  Keeps.bind aged_restore fun _ => keeps_modify fun _ h => h

end Running

end Network

end GatedNetwork
