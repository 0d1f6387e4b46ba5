import GatedNetwork.Network.Copying
import GatedNetwork.Proofs.Network.Editing
import GatedNetwork.Proofs.Network.Growing

/-! New networks. Two networks made in the same way are twins, however each of them is to be run,
and a network is described alike wherever its numbers are. -/

namespace GatedNetwork

namespace Network

/-- Both results are twins made with the same ids, or the same error. -/
def Born (floor : NeuronId) :
    EStateM.Result NetworkError IdSupply Network → EStateM.Result NetworkError IdSupply Network → Prop
  | .ok a s, .ok b t => s = t ∧ floor ≤ s.next ∧ Twins s.next a b
  | .error e s, .error f t => e = f ∧ s = t ∧ floor ≤ s.next
  | _, _ => False

/-- An action that fills an empty network. -/
def Founds (act : Growth Unit) : Prop :=
  ∀ floor config, Relates (Supplied floor (Staged (config, {}, #[], {}) []))
    (fun _ => Supplied floor Twins) (Spent floor) act

section Founding

variable {floor : NeuronId}

def blank (config : Config) : Network := { config, random := config.random }

theorem sound_empty {config : Config} (valid : config.validate = .ok ()) (bound : NeuronId) :
    (blank config).Sound bound [] where
  bare := rfl
  consistent := Graph.consistent_empty
  nodup := by simp [ids, idsOf, blank]
  mem_iff id := by simp [ids, idsOf, blank]
  fresh id h := by simp [blank] at h
  valid := valid

theorem grow_of_invalid {config : Config} {e : NetworkError} (h : config.validate = .error e)
    (act : Growth Unit) (ids : IdSupply) : (grow config act).run ids = .error e ids := by
  simp only [grow, EStateM.run, Network.empty, h, bind, Except.bind]

theorem grow_of_ok {config : Config} (h : config.validate = .ok ()) {act : Growth Unit}
    {ids : IdSupply} {s : IdSupply × Network}
    (run_eq : act.run (ids, blank config) = .ok () s) :
    (grow config act).run ids = .ok s.2 s.1 := by
  rw [EStateM.run, blank] at run_eq
  simp only [grow, EStateM.run, Network.empty, h, bind, Except.bind, pure, Except.pure, run_eq]

theorem grow_of_error {config : Config} (h : config.validate = .ok ()) {act : Growth Unit}
    {ids : IdSupply} {s : IdSupply × Network} {e : NetworkError}
    (run_eq : act.run (ids, blank config) = .error e s) :
    (grow config act).run ids = .error e s.1 := by
  rw [EStateM.run, blank] at run_eq
  simp only [grow, EStateM.run, Network.empty, h, bind, Except.bind, pure, Except.pure, run_eq]

theorem born_grow {act : Growth Unit} (h : Founds act) (config : Config) (mode : ExecutionMode)
    {ids : IdSupply} (le : floor ≤ ids.next) :
    Born floor ((grow config act).run ids) ((grow (config.withMode mode) act).run ids) := by
  have validate_eq : (config.withMode mode).validate = config.validate := rfl
  cases hv : config.validate with
  | error e =>
    rw [grow_of_invalid hv, grow_of_invalid (validate_eq.trans hv)]
    exact ⟨rfl, rfl, le⟩
  | ok =>
    have run := h floor config (ids, blank config)
      (ids, blank (config.withMode mode))
      ⟨rfl, le, ⟨sound_empty hv ids.next, mode, rfl⟩, rfl⟩
    rcases run.cases with ⟨_, s, t, hs, ht, born⟩ | ⟨e, s, t, hs, ht, spent⟩
    · rw [grow_of_ok hv hs, grow_of_ok (validate_eq.trans hv) ht]
      exact born
    · rw [grow_of_error hv hs, grow_of_error (validate_eq.trans hv) ht]
      exact ⟨rfl, spent⟩

end Founding

section Laying

variable {floor : NeuronId}

theorem relates_layInput (frame : Config × Layer × Array Layer × Layer) (squash : Squash) (size : Nat) :
    Relates (Supplied floor (Staged frame [])) (fun ids => Supplied floor (Staged frame ids))
      (Spent floor) ((List.replicate size ()).mapM fun _ => addNeuronToGraph squash 0) :=
  relates_mapM (fun _ _ ys => relates_addNeuronToGraph frame ys squash 0) []

theorem founds_lay (input : Nat) (hidden : List Nat) (output : Nat) :
    Founds (lay input hidden output) := by
  intro floor config
  refine relates_get (fun s t h => ?_) fun s => ?_
  · obtain ⟨-, -, ⟨-, mode, network_eq⟩, -⟩ := h
    rw [network_eq]
    rfl
  refine Relates.bind ((relates_layInput (config, {}, #[], {}) _ input).mono
    (fun _ _ h => h.1) (fun _ _ _ h => h) fun _ _ h => h) fun ids => ?_
  refine Relates.bind (S := fun _ => Supplied floor fun n a b => Paired n [] a b ∧ a.output = {})
    (relates_modify fun s t h => ?_) fun _ => ?_
  · rcases s with ⟨supply, a⟩
    rcases t with ⟨_, b⟩
    obtain ⟨rfl, le, ⟨sound, mode, rfl⟩, frame_eq⟩ := h
    simp only [frame, Prod.mk.injEq] at frame_eq
    obtain ⟨-, input_eq, hidden_eq, output_eq⟩ := frame_eq
    refine ⟨rfl, le, ⟨sound.withLayers sound.bare rfl rfl ?_, mode, rfl⟩, output_eq⟩
    simp [Network.ids, idsOf, input_eq, hidden_eq, output_eq]
  refine Relates.bind (relates_forM fun size _ => (relates_pushLayer size).mono (fun _ _ h => h)
    (fun _ _ _ h => h) fun _ _ h => h.spent) fun _ => ?_
  refine Relates.bind ((relates_freshLayer_unfinished output).mono (fun _ _ h => h)
    (fun _ _ _ h => h) fun _ _ h => h.spent) fun l => relates_modify fun s t h => ?_
  rcases s with ⟨supply, a⟩
  rcases t with ⟨_, b⟩
  obtain ⟨rfl, le, ⟨sound, mode, rfl⟩, output_eq⟩ := h
  refine ⟨rfl, le, Paired.twins ⟨sound.withLayers sound.bare rfl rfl ?_, mode, rfl⟩⟩
  have unfinished : a.output.neurons = [] := congrArg Layer.neurons output_eq
  simp [Network.ids, idsOf, unfinished]

theorem founds_perceptron (input : Nat) (hidden : List Nat) (output : Nat) :
    Founds (do lay input hidden output; lift connect) := fun floor config =>
  Relates.bind (founds_lay input hidden output floor config) fun _ =>
    (thriving_lift fun _ => oblivious_connect).mono (fun _ _ h => h) (fun _ _ _ h => h)
      fun _ _ h => h.spent

end Laying

section Rebuilding

variable {floor : NeuronId}

theorem steady_addRecord {bound : NeuronId} (made : Array (NeuronId × LayerRef))
    (r : ConnectionRecord) : Steady bound (addRecord made r) := by
  refine Relates.bind (steady_onGraphAndRandom fun _ => Graph.intact_project _ _ _ _) fun c => ?_
  cases r.gater with
  | none => exact steady_noteWiring _ _
  | some g =>
    exact Relates.bind (steady_onGraph fun _ => Graph.intact_gate _ _) fun _ => steady_noteWiring _ _

theorem founds_rebuild (s : Snapshot) : Founds (rebuild s) := by
  intro floor config
  refine Relates.bind (S := fun _ => Supplied floor fun n => Paired n [])
    (relates_modify fun s t h => ?_) fun _ => ?_
  · rcases s with ⟨supply, a⟩
    rcases t with ⟨_, b⟩
    obtain ⟨rfl, le, ⟨sound, mode, rfl⟩, frame_eq⟩ := h
    simp only [frame, Prod.mk.injEq] at frame_eq
    obtain ⟨-, -, hidden_eq, -⟩ := frame_eq
    refine ⟨rfl, le, sound.withLayers sound.bare rfl rfl ?_, mode, rfl⟩
    simp [Network.ids, idsOf, hidden_eq, List.flatMap_replicate]
  refine Relates.bind (S := fun _ => Supplied floor fun n => Paired n []) ?_ fun made => ?_
  · refine relates_mapM (I := fun _ => Supplied floor fun n => Paired n []) (fun r _ _ => ?_) []
    refine relates_of_frame fun frame => Relates.bind (S := fun id => Supplied floor fun n =>
      Paired n [id]) ?_ fun id => Relates.bind (relates_list r.layer id) fun _ =>
      relates_pure fun _ _ h => h
    refine (relates_addNeuronToGraph (F := Spent floor) frame [] r.squash r.bias).mono
      (fun s t h => ?_) (fun _ _ _ h => h.mono fun _ _ _ h => h.1) fun _ _ h => h
    exact ⟨h.1.1, h.1.2.1, h.1.2.2, h.2⟩
  · refine Relates.mono (E := Supplied floor Twins)
      (relates_forM fun r _ => relates_lift fun n => steady_addRecord _ r) (fun _ _ h => h)
      (fun _ _ _ h => h.mono fun _ _ _ h => h.twins) fun _ _ h => h.spent

theorem born_ofSnapshot (s : Snapshot) (config : Config) (mode : ExecutionMode) {ids : IdSupply}
    (le : floor ≤ ids.next) :
    Born floor ((ofSnapshot s config).run ids) ((ofSnapshot s (config.withMode mode)).run ids) := by
  cases hv : s.validate with
  | ok =>
    rw [ofSnapshot, ofSnapshot, bind_of_ok (ask_fixed_of_ok hv ids),
      bind_of_ok (ask_fixed_of_ok hv ids)]
    exact born_grow (founds_rebuild s) config mode le
  | error e =>
    rw [ofSnapshot, ofSnapshot, bind_of_error (ask_fixed_of_error hv ids),
      bind_of_error (ask_fixed_of_error hv ids)]
    exact ⟨rfl, rfl, le⟩

end Rebuilding

section Describing

variable {bound floor : NeuronId} {net bare a b : Network}

theorem StandsFor.live_eq (h : bare.StandsFor net) {k : Key} (hk : k.isField)
    (free : bare.program = none) {x y : Float} (hx : net.graph.reading k = x)
    (hy : bare.graph.reading k = y) : net.live k x = bare.live k y := by
  cases h with
  | plain => rw [← hx, ← hy]
  | compiled p g consistent mirrors =>
    have shown := mirrors.agrees k hk
    rw [hy] at shown
    simp only [Network.live, free, ← shown]
    exact Program.live_eq_view hx

theorem StandsFor.neuronRecord_eq (h : bare.StandsFor net) (sound : bare.Sound bound [])
    (id : NeuronId) (ref : LayerRef) : net.neuronRecord id ref = bare.neuronRecord id ref := by
  cases hn : net.graph.neurons.get? id with
  | none =>
    have hm := Graph.get?_eq_none_of_skeleton_eq h.skeleton hn
    rw [neuronRecord, neuronRecord, Graph.neuron_eq_error hn, Graph.neuron_eq_error hm]
    rfl
  | some n =>
    obtain ⟨m, hm, skeleton_eq⟩ := Graph.get?_of_skeleton_eq h.skeleton hn
    simp only [neuronRecord, Graph.neuron_eq_ok hn, Graph.neuron_eq_ok hm, bind, Except.bind]
    rw [(Neuron.of_skeleton_eq skeleton_eq).1,
      h.live_eq (k := .bias id) rfl sound.bare (by simp [hn]) (y := m.bias) (by simp [hm])]

theorem StandsFor.connectionRecord_eq (h : bare.StandsFor net) (sound : bare.Sound bound [])
    (ids : List NeuronId) (c : ConnectionId) :
    net.connectionRecord ids c = bare.connectionRecord ids c := by
  cases hd : net.graph.connection? c with
  | none =>
    have hd' := Graph.connection?_eq_none_of_skeleton_eq h.skeleton hd
    rw [connectionRecord, connectionRecord, Graph.connection_eq_error hd,
      Graph.connection_eq_error hd']
    rfl
  | some d =>
    obtain ⟨d', hd', gater_eq⟩ := Graph.connection?_of_skeleton_eq h.skeleton hd
    have weight_eq : net.live (.weight c) d.weight = bare.live (.weight c) d'.weight :=
      h.live_eq rfl sound.bare (by simp [hd]) (by simp [hd'])
    simp only [connectionRecord, Graph.connection_eq_ok hd, Graph.connection_eq_ok hd', bind,
      Except.bind, gater_eq, weight_eq]

theorem connections_eq_of_skeleton_eq {a b : Network} (neurons_eq : a.neurons = b.neurons)
    (skeleton_eq : a.graph.skeleton = b.graph.skeleton) : a.connections = b.connections := by
  unfold Network.connections
  rw [neurons_eq]
  congr 1
  funext listed
  obtain ⟨id, ref⟩ := listed
  simp only
  cases hn : a.graph.neurons.get? id with
  | none => rw [Graph.get?_eq_none_of_skeleton_eq skeleton_eq hn]
  | some n =>
    obtain ⟨m, hm, skeleton_eq⟩ := Graph.get?_of_skeleton_eq skeleton_eq hn
    obtain ⟨-, -, projected_eq, -, selfConnected_eq, -⟩ := Neuron.of_skeleton_eq skeleton_eq
    rw [hm]
    simp only [projected_eq, selfConnected_eq]

theorem StandsFor.connections_eq (h : bare.StandsFor net) : net.connections = bare.connections :=
  connections_eq_of_skeleton_eq (by cases h <;> rfl) h.skeleton

theorem StandsFor.toSnapshot_eq (h : bare.StandsFor net) (sound : bare.Sound bound []) :
    net.toSnapshot = bare.toSnapshot := by
  have neurons_eq : net.neurons = bare.neurons := by cases h <;> rfl
  simp only [toSnapshot, neurons_eq, h.connections_eq, h.neuronRecord_eq sound,
    funext (h.connectionRecord_eq sound _)]

theorem Twins.toSnapshot_eq (h : Twins bound a b) : a.toSnapshot = b.toSnapshot := by
  obtain ⟨net, mode, sound, ha, hb⟩ := h
  rw [ha.toSnapshot_eq sound, hb.toSnapshot_eq (sound.withMode mode)]
  rfl

theorem born_copy (h : Twins bound a b) {ids : IdSupply} (le : floor ≤ ids.next) :
    Born floor (a.copy.run ids) (b.copy.run ids) := by
  obtain ⟨-, -, -, -, -, mode, config_eq⟩ := h.same
  cases hs : a.toSnapshot with
  | ok s =>
    rw [copy, copy, bind_of_ok (ask_fixed_of_ok hs ids),
      bind_of_ok (ask_fixed_of_ok (h.toSnapshot_eq.symm.trans hs) ids), config_eq]
    exact born_ofSnapshot s a.config mode le
  | error e =>
    rw [copy, copy, bind_of_error (ask_fixed_of_error hs ids),
      bind_of_error (ask_fixed_of_error (h.toSnapshot_eq.symm.trans hs) ids)]
    exact ⟨rfl, rfl, le⟩

theorem merge_run {first second : Network} {config : Config}
    (sizes : first.output.size = second.input.size) {ids : IdSupply} :
    (merge first second config).run ids = (do
      let a ← ask fun _ => first.toSnapshot
      let b ← ask fun _ => second.toSnapshot
      ofSnapshot (a.chain b first.hidden.size) config : EStateM NetworkError IdSupply Network).run
        ids := by
  rw [merge, if_pos sizes]

theorem born_merge {a' b' : Network} (h : Twins bound a b) (h' : Twins bound a' b') (config : Config)
    (mode : ExecutionMode) {ids : IdSupply} (le : floor ≤ ids.next) :
    Born floor ((merge a a' config).run ids) ((merge b b' (config.withMode mode)).run ids) := by
  obtain ⟨-, -, hidden_eq, output_eq, -⟩ := h.same
  obtain ⟨-, input_eq, -⟩ := h'.same
  by_cases sizes : a.output.size = a'.input.size
  · rw [merge_run sizes, merge_run (by rw [← output_eq, ← input_eq, sizes]), ← hidden_eq,
      ← h.toSnapshot_eq, ← h'.toSnapshot_eq]
    cases hs : a.toSnapshot with
    | error e =>
      rw [bind_of_error (ask_fixed_of_error rfl ids), bind_of_error (ask_fixed_of_error rfl ids)]
      exact ⟨rfl, rfl, le⟩
    | ok s =>
      rw [bind_of_ok (ask_fixed_of_ok rfl ids), bind_of_ok (ask_fixed_of_ok rfl ids)]
      cases hs' : a'.toSnapshot with
      | error e =>
        rw [bind_of_error (ask_fixed_of_error rfl ids), bind_of_error (ask_fixed_of_error rfl ids)]
        exact ⟨rfl, rfl, le⟩
      | ok s' =>
        rw [bind_of_ok (ask_fixed_of_ok rfl ids), bind_of_ok (ask_fixed_of_ok rfl ids)]
        exact born_ofSnapshot _ config mode le
  · rw [merge, merge, ← output_eq, ← input_eq, if_neg sizes, if_neg sizes]
    exact ⟨rfl, rfl, le⟩

end Describing

end Network

end GatedNetwork
