import GatedNetwork.Proofs.Graph.Removal
import GatedNetwork.Proofs.Network.Standing

/-! Changing a network that exists. Every change checks names first, which no program can change,
and takes the numbers back before it looks at them or changes them. -/

namespace GatedNetwork

namespace Network

section Edits

variable {bound : NeuronId} {α : Type}

theorem relates_check_neuron {act : Edit α} (id : NeuronId) (h : Oblivious bound act) :
    Oblivious bound (ask (·.graph.neuron id) >>= fun _ => act) :=
  relates_check (fun _ _ twins => twins.neuron id fun _ _ _ => rfl) (fun _ _ h => h) h

theorem relates_check_connection {act : PUnit → Edit α} (c : ConnectionId) (e : NetworkError)
    (h : Oblivious bound (act ⟨⟩)) :
    Oblivious bound (get >>= fun net =>
      if net.graph.contains c then act ⟨⟩ else throw e >>= act) := by
  refine relates_get (fun a b twins => ?_) fun net => ?_
  · simp only [twins.contains c]
  · exact relates_guard (fun _ _ h => h.1) (h.mono (fun _ _ h => h.1) (fun _ _ _ h => h) fun _ _ h => h)

theorem oblivious_layer (ref : LayerRef) : Oblivious bound (ask (·.layer ref)) :=
  relates_ask (fun _ _ twins => twins.layer ref) (fun _ _ _ _ h => h) fun _ _ h => h

theorem oblivious_project (source target : LayerRef) (wiring : Option Wiring)
    (weight : Option Float) : Oblivious bound (project source target wiring weight) := by
  refine Relates.bind (oblivious_layer source) fun sourceLayer => ?_
  refine Relates.bind (oblivious_layer target) fun targetLayer => ?_
  refine Steady.afterRestore (steady_get (fun _ _ => rfl) fun net => Steady.given ?_ net)
  refine Relates.bind (steady_onGraphAndRandom fun _ =>
    sourceLayer.intact_projectOnto _ _ _ _) fun connections => ?_
  exact Relates.bind (steady_noteWiring source target) fun _ => steady_pure _

theorem oblivious_projectNeuron (source target : NeuronId) (weight : Option Float) :
    Oblivious bound (projectNeuron source target weight) := by
  refine relates_check_neuron source (relates_check_neuron target ?_)
  refine Steady.afterRestore (steady_get (fun _ _ => rfl) fun net => Steady.given ?_ net)
  exact steady_onGraphAndRandom fun _ => Graph.intact_project _ _ _ _

theorem oblivious_gateConnection (gater : NeuronId) (c : ConnectionId) :
    Oblivious bound (gateConnection gater c) :=
  relates_check_neuron gater (relates_check_connection c _ (Steady.afterRestore
    (steady_onGraph fun _ => Graph.intact_gate gater c)))

theorem oblivious_disconnect (source target : NeuronId) :
    Oblivious bound (disconnect source target) :=
  relates_check_connection _ _ (Steady.afterRestore
    (steady_onGraph fun _ => Graph.intact_disconnect source target))

theorem oblivious_setBias (id : NeuronId) (bias : Float) : Oblivious bound (setBias id bias) :=
  relates_check_neuron id (Steady.afterRestore
    (steady_onGraph fun _ => Graph.intact_setBias id bias))

theorem oblivious_setSquash (id : NeuronId) (squash : Squash) :
    Oblivious bound (setSquash id squash) :=
  relates_check_neuron id (Steady.afterRestore
    (steady_onGraph fun _ => Graph.intact_setSquash id squash))

theorem oblivious_setLayerSquash (ref : LayerRef) (squash : Squash) :
    Oblivious bound (setLayerSquash ref squash) :=
  Relates.bind (oblivious_layer ref) fun l =>
    Steady.afterRestore (steady_onGraph fun _ => l.intact_setSquash squash)

theorem oblivious_setLayerBias (ref : LayerRef) (bias : Float) :
    Oblivious bound (setLayerBias ref bias) :=
  Relates.bind (oblivious_layer ref) fun l =>
    Steady.afterRestore (steady_onGraph fun _ => l.intact_setBias bias)

theorem oblivious_connect : Oblivious bound connect := by
  refine relates_get (fun a b twins => ?_) fun net => ?_
  · obtain ⟨-, -, hidden_eq, -⟩ := twins.same
    simp only [hidden_eq]
  · refine Relates.mono (R := Twins bound) (relates_forM fun pair _ => ?_) (fun _ _ h => h.1)
      (fun _ _ _ h => h) fun _ _ h => h
    exact Relates.bind (oblivious_project _ _ _ _) fun _ => oblivious_pure _

theorem oblivious_disconnectAll : Oblivious bound disconnectAll := by
  refine Steady.afterRestore (steady_get (fun _ _ => rfl) fun net => Steady.given ?_ net)
  exact relates_forM fun c _ => steady_onGraph fun _ => Graph.intact_disconnect _ _

theorem oblivious_setWeight (c : ConnectionId) (weight : Float) :
    Oblivious bound (setWeight c weight) := by
  intro a b twins
  by_cases hc : a.graph.contains c
  · have hc' := (twins.contains c).symm.trans hc
    obtain ⟨net, mode, sound, ha, hb⟩ := twins
    have hnet : net.graph.contains c := (Graph.contains_of_skeleton_eq ha.skeleton c).symm.trans hc
    have edit := Graph.modifyConnection_run (Graph.connection?_isSome_of_contains hnet)
      fun conn => { conn with weight }
    have named := Graph.named_modifyConnection c (fun conn => { conn with weight }) net.graph rfl
    rw [edit] at named
    have start {n : Network} (hn : n.graph.contains c) : (setWeight c weight).run n =
        (restore >>= fun _ => onGraph (Graph.modifyConnection c fun conn =>
          { conn with weight })).run n := by
      rw [setWeight, bind_of_ok (get_run n), if_pos hn]
    rw [start hc, start hc', bind_of_ok (ha.restore_run sound),
      bind_of_ok (hb.restore_run (sound.withMode mode)), onGraph_of_ok edit,
      onGraph_of_ok (a := net.withMode mode) edit]
    exact ⟨rfl, Paired.twins ⟨sound.withGraph ⟨sound.consistent.withWeight hnet weight, named⟩
      net.random, mode, rfl⟩⟩
  · have hc' : ¬ b.graph.contains c := twins.contains c ▸ hc
    rw [setWeight, bind_of_ok (get_run a), bind_of_ok (get_run b), if_neg hc, if_neg hc']
    exact ⟨rfl, twins⟩

theorem Twins.gatePairs {a b : Network} (h : Twins bound a b) (gaters : List NeuronId) (link : Link)
    (gating : Gating) : a.gatePairs gaters link gating = b.gatePairs gaters link gating := by
  have found {f : Neuron → List ConnectionId} (hf : ∀ n n', n.skeleton = n'.skeleton → f n = f n')
      (p : NeuronId × NeuronId) :
      (a.graph.neuron p.1 >>= fun n => pure ((f n).map (p.2, ·))) =
        b.graph.neuron p.1 >>= fun n => pure ((f n).map (p.2, ·)) :=
    h.neuron p.1 (f := fun n => (f n).map (p.2, ·)) fun n n' hs => by rw [hf n n' hs]
  cases gating with
  | oneToOne => rfl
  | input =>
    have inputs_eq := found (f := fun n => n.inputs.toList.filter (link.connections.contains ·))
      fun n n' hs => by rw [(Neuron.of_skeleton_eq hs).2.1]
    simp only [Network.gatePairs, h.layer, inputs_eq]
  | output =>
    have leaving_eq (id : NeuronId) := found (f := fun n =>
      (n.projected.toList ++ [ConnectionId.loop id]).filter (link.connections.contains ·))
      fun n n' hs => by rw [(Neuron.of_skeleton_eq hs).2.2.1]
    simp only [Network.gatePairs, h.layer, leaving_eq]

theorem oblivious_gate (gater : LayerRef) (link : Link) (gating : Gating) :
    Oblivious bound (gate gater link gating) := by
  refine Relates.bind (oblivious_layer gater) fun l => ?_
  refine Relates.bind (relates_ask (fun _ _ twins => twins.gatePairs _ _ _) (fun _ _ _ _ h => h)
    fun _ _ h => h) fun pairs => ?_
  refine relates_get (fun a b twins => by simp only [twins.contains]) fun net => ?_
  refine Relates.mono (R := Twins bound) (Relates.bind (relates_forM fun pair _ => ?_) fun _ => ?_)
    (fun _ _ h => h.1) (fun _ _ _ h => h) fun _ _ h => h
  · exact relates_ite (oblivious_pure _) (oblivious_throw _)
  · exact Steady.afterRestore (relates_forM fun pair _ =>
      steady_onGraph fun _ => Graph.intact_gate pair.1 pair.2)

theorem Twins.layerOf {a b : Network} (h : Twins bound a b) (id : NeuronId) :
    a.layerOf id = b.layerOf id := by
  obtain ⟨-, input_eq, hidden_eq, output_eq, -⟩ := h.same
  simp only [Network.layerOf, input_eq, hidden_eq, output_eq]

/-- Removing a listed neuron takes it out of its layer and out of the graph, or stops at a
connection of its own that it gates. -/
theorem removeNeuron_cases {net bare : Network} (h : bare.StandsFor net)
    (sound : bare.Sound bound []) {id : NeuronId} {ref : LayerRef}
    (listed : bare.layerOf id = some ref) :
    (∀ c, ¬ bare.graph.GatesOwn id c) ∧
      (∃ net', (removeNeuron id).run net = .ok () net' ∧ net'.Sound bound [] ∧
        Graph.Removed id bare.graph net'.graph ∧ ∃ n, bare.graph.neurons.get? id = some n ∧
        net' = { bare with graph := bare.graph.removed id n }.mapLayer (·.remove id) ref) ∨
    ∃ c, bare.graph.GatesOwn id c ∧ ∃ g', (Graph.removeNeuron id).run bare.graph =
        .error (.unknownConnection c) g' ∧ g'.Intact bare.graph.neurons.keys ∧
      (removeNeuron id).run net = .error (.unknownConnection c) { bare with graph := g' } := by
  obtain ⟨l, hl, hid⟩ := exists_layer_of_layerOf listed
  have hmem : id ∈ bare.ids := by
    obtain ⟨before, later, ids_eq, -⟩ := exists_ids_mapLayer hl (fun l => l)
    rw [ids_eq]
    simp [hid]
  obtain ⟨n, hn⟩ := Graph.get?_of_contains ((sound.mem_iff id).mp (by simpa using hmem))
  have start : (removeNeuron id).run net = (do
      let _ ← onGraph (Graph.removeNeuron id)
      modifyLayer ref (·.remove id) : Edit Unit).run bare := by
    have listed' : net.layerOf id = some ref := by cases h <;> exact listed
    rw [removeNeuron, bind_of_ok (get_run net), listed']
    exact bind_of_ok (h.restore_run sound)
  rcases Graph.removeNeuron_cases sound.consistent hn with ⟨free, rest, run_eq⟩ | ⟨c, own, g', run_eq, intact⟩
  · have removed := sound.consistent.removed hn
    have graph_eq : ({ bare with graph := bare.graph.removed id n }.mapLayer (·.remove id) ref).graph =
        bare.graph.removed id n := by cases ref <;> rfl
    have ids_eq : ({ bare with graph := bare.graph.removed id n }.mapLayer (·.remove id) ref).ids =
        (bare.mapLayer (·.remove id) ref).ids := by cases ref <;> rfl
    obtain ⟨nodup, mem_iff⟩ := ids_remove hl (by simpa using sound.nodup) hid
    have contains_iff (x : NeuronId) : (bare.graph.removed id n).neurons.contains x ↔
        bare.graph.neurons.contains x ∧ x ≠ id := by simp [removed.neurons]
    refine .inl ⟨free, _, ?_, ⟨?_, ?_, ?_, fun x => ?_, fun x hx => ?_, ?_⟩, ?_, n, hn, rfl⟩
    · rw [start, bind_of_ok (onGraph_of_ok run_eq)]
      exact modifyLayer_of_ok (by cases ref <;> exact hl) _
    · cases ref <;> exact sound.bare
    · rw [graph_eq]
      exact removed.consistent
    · simpa [ids_eq] using nodup
    · rw [List.append_nil, ids_eq, mem_iff, graph_eq, contains_iff, ← sound.mem_iff x, List.append_nil]
    · rw [graph_eq, contains_iff] at hx
      exact sound.fresh x hx.1
    · cases ref <;> exact sound.valid
    · rwa [graph_eq]
  · refine .inr ⟨c, own, g', run_eq, intact, ?_⟩
    rw [start, bind_of_error (onGraph_of_error run_eq)]

theorem oblivious_removeNeuron (id : NeuronId) : Oblivious bound (removeNeuron id) := by
  intro a b twins
  have layerOf_eq := twins.layerOf id
  obtain ⟨net, mode, sound, ha, hb⟩ := twins
  have layerOf_net : a.layerOf id = net.layerOf id := by cases ha <;> rfl
  cases hl : net.layerOf id with
  | none =>
    rw [removeNeuron, bind_of_ok (get_run a), bind_of_ok (get_run b), ← layerOf_eq, layerOf_net, hl]
    exact ⟨rfl, net, mode, sound, ha, hb⟩
  | some ref =>
    rcases removeNeuron_cases ha sound hl with
      ⟨free, a', run_a, sound', -, n, hn, rfl⟩ | ⟨c, own, g, run_eq, intact, run_a⟩
    · rcases removeNeuron_cases hb (sound.withMode mode) hl with
        ⟨-, b', run_b, -, -, m, hm, rfl⟩ | ⟨c, own, -⟩
      · obtain rfl : n = m := Option.some.inj (hn.symm.trans hm)
        rw [run_a, run_b]
        refine ⟨rfl, Paired.twins ⟨sound', mode, ?_⟩⟩
        cases ref <;> rfl
      · exact absurd own (free c)
    · rcases removeNeuron_cases hb (sound.withMode mode) hl with
        ⟨free, -⟩ | ⟨c', -, g', run_eq', -, run_b⟩
      · exact absurd own (free c)
      · have same := run_eq.symm.trans run_eq'
        simp only [EStateM.Result.error.injEq, NetworkError.unknownConnection.injEq] at same
        obtain ⟨rfl, rfl⟩ := same
        rw [run_a, run_b]
        exact ⟨rfl, Paired.twins ⟨sound.withGraph intact net.random, mode, rfl⟩⟩

end Edits

end Network

end GatedNetwork
