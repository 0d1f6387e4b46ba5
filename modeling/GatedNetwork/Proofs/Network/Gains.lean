import GatedNetwork.Proofs.Graph.Gains
import GatedNetwork.Proofs.Network.Lasting
import GatedNetwork.Proofs.Network.Running
import GatedNetwork.Proofs.Program.Gains

/-! The law of the gains for networks that are run over their graphs. Every change of a network is
made of changes of its graph that keep the law. -/

namespace GatedNetwork

namespace Network

/-- The network is run over its graph, and the graph has the property. -/
structure Upholds (P : Graph → Prop) (net : Network) : Prop where
  bare : net.program = none
  mode_eq : net.config.mode = .graph
  graph : P net.graph

/-- The gains obey the law, for the names that have been given away so far. -/
def Tended (bound : NeuronId) (net : Network) : Prop := net.Upholds (Graph.Governed bound)

section Parts

variable {P : Graph → Prop} {α : Type} {net : Network}

theorem Upholds.mono {Q : Graph → Prop} (h : net.Upholds P) (imp : ∀ g, P g → Q g) : net.Upholds Q :=
  { h with graph := imp _ h.graph }

theorem upholds_restore : Keeps (Upholds P) restore := by
  intro net h
  rw [restore, bind_of_ok (get_run net), h.bare]
  exact h

theorem upholds_onGraph {act : Graph.Edit α} (h : Keeps P act) : Keeps (Upholds P) (onGraph act) :=
  keeps_focus fun net upholds => { upholds with graph := h net.graph upholds.graph }

theorem upholds_onGraphAndRandom {act : EStateM NetworkError (Graph × RandomStream) α}
    (h : Keeps (fun s => P s.1) act) : Keeps (Upholds P) (onGraphAndRandom act) :=
  keeps_focus fun net upholds => { upholds with graph := h (net.graph, net.random) upholds.graph }

theorem Upholds.mapLayer (h : net.Upholds P) (f : Layer → Layer) (ref : LayerRef) :
    (net.mapLayer f ref).Upholds P := by
  cases ref <;> exact { h with }

end Parts

section Edits

open GatedNetwork.Graph

variable {bound : NeuronId}

theorem upholds_propagateGraph (rate : Float) (target : List Float) :
    Keeps (Upholds (Governed bound)) (propagateGraph rate target) := by
  refine Keeps.bind upholds_restore fun _ => Keeps.bind keeps_get fun net => ?_
  refine Keeps.bind (upholds_onGraph (net.output.governed_propagateOutput rate target)) fun _ => ?_
  exact keeps_forM fun l _ => upholds_onGraph (l.governed_propagate rate)

theorem upholds_propagate (rate : Float) (target : List Float) :
    Keeps (Upholds (Governed bound)) (propagate rate target) := by
  intro net h
  have whole : Keeps (Upholds (Governed bound)) (do
      unless Program.validRate rate do
        throw (.invalidRate rate)
      unless target.length = net.output.size do
        throw (.targetSize net.output.size target.length)
      propagateGraph rate target) := keeps_guard (keeps_guard (upholds_propagateGraph rate target))
  have run_eq := whole net h
  rw [propagate, bind_of_ok (get_run net), h.mode_eq]
  exact run_eq

theorem upholds_clear : Keeps (Upholds (Governed bound)) clear :=
  Keeps.bind upholds_restore fun _ => keeps_modify fun _ h => { h with graph := h.graph.clear.governed }

theorem upholds_reset : Keeps (Upholds (Governed bound)) reset := by
  intro net h
  have restored : restore.run net = .ok () net := by
    rw [restore, bind_of_ok (get_run net), h.bare]
    rfl
  have cleared : clear.run net = .ok () { net with graph := net.graph.clear } := bind_of_ok restored
  have calm : ({ net with graph := net.graph.clear } : Network).Upholds (Calm bound) :=
    { h with graph := h.graph.clear }
  have draws : Keeps (Upholds (Calm bound)) (do
      let net ← get
      (net.input :: net.hidden.toList ++ [net.output]).forM fun l =>
        onGraphAndRandom (l.reset net.config.weightInit net.config.biasInit)) :=
    Keeps.bind keeps_get fun _ => keeps_forM fun l _ => upholds_onGraphAndRandom (l.calm_reset _ _)
  rw [reset, bind_of_ok cleared]
  exact (draws _ calm).mono fun _ calm => calm.governed

end Edits

section Lasting

open GatedNetwork.Graph

/-- The law outlasts every edit of a network that is run over its graph. -/
theorem lastsEdits_tended (bound : NeuronId) :
    LastsEdits (Tended bound) (Governed bound) fun _ => True := by
  have tuning : Graph.LastsTuning (Governed bound) fun _ => True := {
    recoverable := fun _ _ => trivial
    setBias := fun id _ => Keeps.endures (governed_modifyNeuron id fun _ => ⟨rfl, rfl, rfl⟩)
    setSquash := fun id _ => Keeps.endures (governed_modifyNeuron id fun _ => ⟨rfl, rfl, rfl⟩)
    setWeight := fun c _ => (governed_setWeight c _).endures
    disconnect := fun source target => (governed_disconnect source target).endures }
  exact {
    tuning
    graph := fun _ h => h.graph
    withGraph := fun _ _ _ h graph => { h with graph }
    restores := upholds_restore.endures
    edits := { tuning with
      project := fun source target weight draw _ => (governed_project source target weight draw).endures
      gate := fun x c => (governed_gate x c).endures
      removeNeuron := fun id => (governed_removeNeuron id).endures }
    mapLayer := fun _ f ref _ h => h.mapLayer f ref
    weight := fun _ _ => drawn_any _ }

theorem lastsGrowth_tended {floor : NeuronId} : LastsGrowth Tended Governed (fun _ => True) floor where
  edits := lastsEdits_tended
  withLayers _ _ _ _ _ _ h := { h with }
  withNeuron _ _ squash bias h := { h with graph := h.graph.addNeuron squash bias }
  bias _ _ _ := drawn_any _

end Lasting

section Running

open GatedNetwork.Graph

variable {bound bound' : NeuronId} {net : Network}

theorem governed_of_driven {g : Graph} (driven : g.Driven) (consistent : g.Consistent)
    (known : ∀ id, g.neurons.contains id → id < bound) : g.Governed bound where
  known := known
  gaters c d x hd hx := by
    have gater_eq : g.gater? c = some x := by
      rw [gater?, hd]
      exact hx
    exact known x (consistent.gater_mem c x gater_eq).2
  ungated := consistent.ungated_gain
  gated c d x n hd hx hn := by
    obtain ⟨m, hm, gain_eq⟩ := driven c d x hd hx
    obtain rfl := Option.some.inj (hm.symm.trans hn)
    exact .inr gain_eq

theorem Upholds.activate (h : net.Upholds (Governed bound)) (sound : net.Sound bound' [])
    (values : List Float) :
    Ending (fun _ net' => net'.Upholds (Governed bound)) (fun _ net' => net' = net)
      ((activate values).run net) := by
  by_cases length_eq : values.length = net.input.size
  · obtain ⟨x, live, -, -, walk_run, consistent, skeleton_eq, -⟩ :=
      StandsFor.plain.walks_activate sound length_eq
    have restored := StandsFor.plain.restore_run sound
    have run_eq : (Network.activate values).run net = .ok x { net with graph := live } :=
      (activate_of_graph length_eq h.mode_eq).trans
        ((activateGraph_run restored values).trans (onGraph_of_ok walk_run))
    have driven := driven_of_walkForward sound.consistent.toLinked sound.layered length_eq walk_run
    have known (id : NeuronId) (hid : live.neurons.contains id) : id < bound :=
      h.graph.known id (contains_of_skeleton skeleton_eq.symm hid)
    have kept : ({ net with graph := live } : Network).Upholds (Governed bound) :=
      { h with graph := governed_of_driven driven consistent known }
    rw [run_eq]
    exact kept
  · have run_eq : (Network.activate values).run net =
        .error (.inputSize net.input.size values.length) net := by
      rw [Network.activate, bind_of_ok (get_run net), if_neg length_eq]
      rfl
    rw [run_eq]
    rfl

end Running

end Network

end GatedNetwork
