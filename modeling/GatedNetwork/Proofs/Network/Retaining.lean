import GatedNetwork.Proofs.Graph.Retaining
import GatedNetwork.Proofs.Network.Joining
import GatedNetwork.Proofs.Program.Addressing

/-! What the edits of a network do to the numbers that were there before. An edit first takes the
numbers back from the program, so it is followed from the bare network that the network stands for. -/

namespace GatedNetwork

namespace Network

/-- The number that a network has under a key, if it has one. It is in the memory of the program if
there is a slot for it, and else in the graph. -/
def live? (net : Network) (k : Key) : Option Float :=
  match net.program with
  | none => net.graph.held? k
  | some p => (net.graph.held? k).map (p.live k)

/-- The second network has no program, and its graph retains the numbers of the first one. -/
structure Retains (sets : Key → Option Float) (drops : Key → Prop) (net net' : Network) : Prop where
  bare : net'.program = none
  graph : net.graph.Retains sets drops net'.graph

section Showing

variable {bound : NeuronId} {net bare : Network}

theorem live?_of_bare (h : net.program = none) (k : Key) : net.live? k = net.graph.held? k := by
  rw [live?, h]

theorem StandsFor.live?_eq (h : bare.StandsFor net) (sound : bare.Sound bound []) (k : Key) :
    net.live? k = bare.graph.held? k := by
  cases h with
  | plain => exact live?_of_bare sound.bare k
  | compiled p g consistent mirrors =>
    have layered := sound.layered.of_skeleton_eq mirrors.skeleton.symm
    have run_eq := mirrors.writeBack_run consistent.toLinked layered
    rcases p.writeBack_cases g with ⟨there, g', run_eq', written⟩ | ⟨-, e, fails⟩
    · obtain ⟨-, rfl⟩ := EStateM.Result.ok.inj (run_eq.symm.trans run_eq')
      have anchored := mirrors.suits.anchored consistent.toLinked layered
      exact (anchored.held?_eq consistent.toLinked.filed there written k).symm
    · nomatch run_eq.symm.trans fails

end Showing

section Checks

variable {α : Type} {net : Network} {Q : α → Network → Prop}

theorem checked_neuron {id : NeuronId} {act : Edit α}
    (rest : net.graph.neurons.contains id → Ending Q (fun _ _ => True) (act.run net)) :
    Ending Q (fun _ _ => True) ((ask (·.graph.neuron id) >>= fun _ => act).run net) := by
  cases hn : net.graph.neurons.get? id with
  | none =>
    rw [bind_of_error (ask_graph_neuron_error hn)]
    trivial
  | some n =>
    rw [bind_of_ok (ask_graph_neuron hn)]
    exact rest (Graph.contains_of_get? hn)

theorem checked_connection {c : ConnectionId} {e : NetworkError} {act : PUnit → Edit α}
    (rest : net.graph.contains c → Ending Q (fun _ _ => True) ((act ⟨⟩).run net)) :
    Ending Q (fun _ _ => True)
      ((get >>= fun n : Network => if n.graph.contains c then act ⟨⟩ else throw e >>= act).run net) := by
  rw [bind_of_ok (get_run net)]
  split
  · rename_i there
    exact rest there
  · exact trivial

theorem checked_layer {ref : LayerRef} {act : Layer → Edit α}
    (rest : ∀ l, net.layer ref = .ok l → Ending Q (fun _ _ => True) ((act l).run net)) :
    Ending Q (fun _ _ => True) ((ask (·.layer ref) >>= act).run net) := by
  cases hl : net.layer ref with
  | error e =>
    rw [bind_of_error (ask_layer_error hl)]
    trivial
  | ok l =>
    rw [bind_of_ok (ask_layer hl)]
    exact rest l hl

end Checks

section Edits

variable {bound : NeuronId} {net bare : Network}

/-- Once the numbers are taken back, the network is changed as its graph is. -/
theorem StandsFor.retains_change (h : bare.StandsFor net) (sound : bare.Sound bound [])
    {sets : Key → Option Float} {drops : Key → Prop} {act : Graph.Edit Unit} {g : Graph}
    (run_eq : act.run bare.graph = .ok () g) (retained : bare.graph.Retains sets drops g) :
    Ending (fun _ net' => bare.Retains sets drops net') (fun _ _ => True)
      ((restore >>= fun _ => onGraph act).run net) := by
  rw [bind_of_ok (h.restore_run sound), onGraph_of_ok run_eq]
  exact ⟨sound.bare, retained⟩

theorem StandsFor.retains_setBias (h : bare.StandsFor net) (sound : bare.Sound bound [])
    (id : NeuronId) (bias : Float) :
    Ending (fun _ net' => bare.Retains (Graph.biasesOf [id] bias) (fun _ => False) net')
      (fun _ _ => True) ((setBias id bias).run net) :=
  checked_neuron fun hid => h.retains_change sound
    (Graph.modifyNeuron_run (h.contains_neuron id ▸ hid) _) (Graph.retains_biases [id] bias _)

theorem StandsFor.retains_setSquash (h : bare.StandsFor net) (sound : bare.Sound bound [])
    (id : NeuronId) (squash : Squash) :
    Ending (fun _ net' => bare.Retains (fun _ => none) (fun _ => False) net')
      (fun _ _ => True) ((setSquash id squash).run net) :=
  checked_neuron fun hid => h.retains_change sound
    (Graph.modifyNeuron_run (h.contains_neuron id ▸ hid) _) (Graph.retains_squashes [id] squash _)

theorem StandsFor.retains_setLayerBias (h : bare.StandsFor net) (sound : bare.Sound bound [])
    (ref : LayerRef) (bias : Float) :
    Ending (fun _ net' => bare.Retains (Graph.biasesOf (net.members ref) bias) (fun _ => False) net')
      (fun _ _ => True) ((setLayerBias ref bias).run net) :=
  checked_layer fun l hl => h.retains_change sound
    (Graph.modifyEach_run (fun _ hid => sound.contains_member (h.layer_eq ref ▸ hl) hid) _)
    (members_of_layer hl ▸ Graph.retains_biases l.neurons bias _)

theorem StandsFor.retains_setLayerSquash (h : bare.StandsFor net) (sound : bare.Sound bound [])
    (ref : LayerRef) (squash : Squash) :
    Ending (fun _ net' => bare.Retains (fun _ => none) (fun _ => False) net')
      (fun _ _ => True) ((setLayerSquash ref squash).run net) :=
  checked_layer fun l hl => h.retains_change sound
    (Graph.modifyEach_run (fun _ hid => sound.contains_member (h.layer_eq ref ▸ hl) hid) _)
    (Graph.retains_squashes l.neurons squash _)

theorem StandsFor.retains_setWeight (h : bare.StandsFor net) (sound : bare.Sound bound [])
    (c : ConnectionId) (weight : Float) :
    Ending (fun _ net' => bare.Retains (fun k => if k = .weight c then some weight else none)
      (fun _ => False) net') (fun _ _ => True) ((setWeight c weight).run net) :=
  checked_connection fun hc => h.retains_change sound
    (Graph.modifyConnection_run (Graph.connection?_isSome_of_contains (h.contains c ▸ hc)) _)
    (Graph.retains_withWeight _ c weight)

theorem StandsFor.retains_disconnect (h : bare.StandsFor net) (sound : bare.Sound bound [])
    (c : ConnectionId) :
    Ending (fun _ net' => bare.Retains
        (fun k => if c.isSelf ∧ k = .weight c then some 0 else net.graph.resetGain c k)
        (fun k => net.graph.ClosesWith c k ∨ c.isSelf = false ∧ k.Concerns c) net')
      (fun _ _ => True) ((disconnect c.source c.target).run net) := by
  rw [Graph.resetGain_of_skeleton_eq h.skeleton, Graph.closesWith_of_skeleton_eq h.skeleton]
  exact checked_connection fun hc => h.retains_change sound
    (Graph.disconnect_run sound.consistent (h.contains c ▸ hc))
    (Graph.retains_disconnected sound.consistent.toLinked c)

theorem StandsFor.retains_gateConnection (h : bare.StandsFor net) (sound : bare.Sound bound [])
    (gater : NeuronId) (c : ConnectionId) :
    Ending (fun _ net' => bare.Retains
        (fun k => if net.graph.gater? c = some gater then none else net.graph.resetGain c k)
        (fun k => net.graph.gater? c ≠ some gater ∧ net.graph.ClosesWith c k) net')
      (fun _ _ => True) ((gateConnection gater c).run net) := by
  rw [Graph.gater?_of_skeleton_eq h.skeleton, Graph.resetGain_of_skeleton_eq h.skeleton,
    Graph.closesWith_of_skeleton_eq h.skeleton]
  exact checked_neuron fun hx => checked_connection fun hc => h.retains_change sound
    (Graph.gate_run sound.consistent (h.contains_neuron gater ▸ hx) (h.contains c ▸ hc))
    (Graph.retains_gatedBy sound.consistent gater c)

theorem StandsFor.retains_projectNeuron (h : bare.StandsFor net) (sound : bare.Sound bound [])
    (source target : NeuronId) (weight : Option Float) :
    Ending (fun _ net' => bare.Retains (Graph.wired [⟨source, target⟩] weight) (fun _ => False) net')
      (fun _ _ => True) ((projectNeuron source target weight).run net) := by
  refine checked_neuron fun _ => checked_neuron fun _ => ?_
  rw [bind_of_ok (h.restore_run sound), bind_of_ok (get_run bare)]
  exact ends_focus ((Graph.retains_project sound.consistent source target weight _ bare.random).mono
    (fun _ _ done => ⟨sound.bare, done.2.2⟩) fun _ _ _ => trivial)

theorem StandsFor.retains_project (h : bare.StandsFor net) (sound : bare.Sound bound [])
    (source target : LayerRef) (wiring : Option Wiring) (weight : Option Float) :
    Ending (fun link net' => bare.Retains (Graph.wired link.connections weight) (fun _ => False) net')
      (fun _ _ => True) ((project source target wiring weight).run net) := by
  have wires (l l' : Layer) (wiring : Wiring) := l.retains_projectOnto sound.consistent l'.neurons
    wiring weight (drawWeight bare.config) bare.random
  exact (h.project_wires sound (fun l l' wiring => (wires l l' wiring).mono
    (fun _ _ done => done.2) fun _ _ _ => trivial) wiring).mono
      (fun _ _ done => ⟨done.1, done.2⟩) fun _ _ _ => trivial

end Edits

section Growing

variable {net bare : Network} {ids : IdSupply}

theorem Sound.retains_freshNeuron {pending : List NeuronId} (h : net.Sound ids.next pending) :
    Ending (fun id s => s.2.Sound s.1.next (pending ++ [id]) ∧ s.2.frame = net.frame ∧
        net.graph.Retains (fun _ => none) (fun _ => False) s.2.graph)
      (fun _ _ => True) (freshNeuron.run (ids, net)) := by
  have absent : net.graph.neurons.contains ids.next = false :=
    Bool.eq_false_iff.mpr fun there => Nat.lt_irrefl _ (h.fresh ids.next there)
  cases hr : net.config.biasInit.draw.run net.random with
  | error e r =>
    rw [freshNeuron_of_error hr]
    trivial
  | ok bias r =>
    rw [freshNeuron_of_ok hr]
    exact ⟨(h.withRandom r).addNeuron net.config.squash bias, rfl,
      Graph.retains_addNeuron absent net.config.squash bias⟩

theorem Sound.retains_freshLayer (h : net.Sound ids.next []) (size : Nat) :
    Ending (fun l s => s.2.Sound s.1.next l.neurons ∧
        net.graph.Retains (fun _ => none) (fun _ => False) s.2.graph)
      (fun _ _ => True) ((freshLayer size).run (ids, net)) := by
  refine Ending.bind (ends_mapM (E := fun _ _ => True) (I := fun _ ys (s : IdSupply × Network) =>
    s.2.Sound s.1.next ys ∧ net.graph.Retains (fun _ => none) (fun _ => False) s.2.graph) ?_
    (ids, net) ⟨h, .refl _⟩) fun ys s made => made
  rintro before _ later ys - ⟨ids', net'⟩ ⟨sound, retained⟩
  refine sound.retains_freshNeuron.mono ?_ fun _ _ _ => trivial
  rintro id s ⟨sound', -, step⟩
  exact ⟨sound', retained.followed step fun _ => rfl⟩

theorem StandsFor.retains_addNeuron (h : bare.StandsFor net) (sound : bare.Sound ids.next [])
    (ref : LayerRef) :
    Ending (fun _ s => bare.Retains (fun _ => none) (fun _ => False) s.2) (fun _ _ => True)
      ((addNeuron ref).run (ids, net)) := by
  cases hl : net.layer ref with
  | error e =>
    rw [addNeuron, bind_of_error (lift_of_error (ask_layer_error hl))]
    trivial
  | ok l =>
    rw [addNeuron, bind_of_ok (lift_of_ok (ask_layer hl)), bind_of_ok (lift_of_ok (h.restore_run sound))]
    refine Ending.bind sound.retains_freshNeuron ?_
    rintro id ⟨ids', net'⟩ ⟨sound', frame_eq, retained⟩
    have there : net'.layer ref = .ok l := (layer_of_frame frame_eq ref).trans (h.layer_eq ref ▸ hl)
    rw [bind_of_ok (lift_of_ok (modifyLayer_of_ok there _))]
    cases ref <;> exact ⟨sound'.bare, retained⟩

theorem StandsFor.retains_addHiddenLayer (h : bare.StandsFor net) (sound : bare.Sound ids.next [])
    (size : Nat) :
    Ending (fun _ s => bare.Retains (fun _ => none) (fun _ => False) s.2) (fun _ _ => True)
      ((addHiddenLayer size).run (ids, net)) := by
  rw [addHiddenLayer, bind_of_ok (lift_of_ok (h.restore_run sound))]
  refine Ending.bind (sound.retains_freshLayer size) ?_
  rintro l s ⟨sound', retained⟩
  exact ⟨sound'.bare, retained⟩

end Growing

end Network

end GatedNetwork
