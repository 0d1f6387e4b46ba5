import GatedNetwork.Proofs.Network.Refusing

/-! Calls that draw numbers and calls that go through the whole network. Where the names are there
and the sizes agree they fail at a draw or not at all. -/

namespace GatedNetwork

namespace Network

/-- The two layers are there, and they are of one size if they are to be wired neuron by neuron. -/
def Joinable (net : Network) (source target : LayerRef) (wiring : Option Wiring) : Prop :=
  ∃ l l', net.layer source = .ok l ∧ net.layer target = .ok l' ∧
    (wiring.getD (if source = target then .oneToOne else .allToAll) = .oneToOne → l'.size = l.size)

/-- A new number could not be drawn as the settings of the network ask for it. -/
def Parched (net : Network) (e : NetworkError) : Prop :=
  Starved net.config.weightInit net.config.biasInit e

section Wiring

variable {bound : NeuronId} {net bare : Network} {source target : LayerRef} {wiring : Option Wiring}

theorem StandsFor.parched_eq (h : bare.StandsFor net) : net.Parched = bare.Parched := by
  cases h <;> rfl

theorem StandsFor.refs_eq (h : bare.StandsFor net) : net.refs = bare.refs := by
  cases h <;> rfl

theorem Sound.mem_keys_of_layer (sound : bare.Sound bound []) {ref : LayerRef} {l : Layer}
    (hl : bare.layer ref = .ok l) : ∀ id ∈ l.neurons, id ∈ bare.graph.neurons.keys := fun _ hid =>
  SortedMap.mem_keys.mpr (sound.contains_member hl hid)

/-- Wiring two layers is refused before anything is changed, or it fails at the draw of a weight. -/
theorem StandsFor.project_ends (h : bare.StandsFor net) (sound : bare.Sound bound [])
    (source target : LayerRef) (wiring : Option Wiring) (weight : Option Float) :
    Ending (fun _ net' => net'.Sound bound [] ∧ net'.config = net.config ∧ net'.refs = net.refs)
      (fun e net' => bare.StandsFor net' ∧ ¬ net.Joinable source target wiring ∨ net.Parched e)
      ((project source target wiring weight).run net) := by
  cases hl : net.layer source with
  | error e =>
    rw [project, bind_of_error (ask_layer_error hl)]
    refine .inl ⟨h, ?_⟩
    rintro ⟨l, l', hl', -⟩
    nomatch hl.symm.trans hl'
  | ok l =>
    cases hl' : net.layer target with
    | error e =>
      rw [project, bind_of_ok (ask_layer hl), bind_of_error (ask_layer_error hl')]
      refine .inl ⟨h, ?_⟩
      rintro ⟨l, l', -, ht, -⟩
      nomatch hl'.symm.trans ht
    | ok l' =>
      rw [project, bind_of_ok (ask_layer hl), bind_of_ok (ask_layer hl'),
        bind_of_ok (h.restore_run sound), bind_of_ok (get_run bare)]
      have hsource := h.layer_eq source ▸ hl
      have wired : Ending _ _ ((l.projectOnto l'.neurons
          (wiring.getD (if source = target then .oneToOne else .allToAll)) weight
          (drawWeight bare.config)).run (bare.graph, bare.random)) :=
        l.projectOnto_ends ⟨sound.consistent, rfl⟩ (sound.mem_keys_of_layer hsource)
          (sound.mem_keys_of_layer (h.layer_eq target ▸ hl'))
      refine Ending.bind (Q := fun _ net' => ∃ g r, net' = { bare with graph := g, random := r } ∧
        g.Intact bare.graph.neurons.keys) (ends_focus (wired.mono ?_ ?_)) ?_
      · rintro cs ⟨g, r⟩ intact
        exact ⟨g, r, rfl, intact⟩
      · rintro e s (⟨⟨paired, differ⟩, rfl⟩ | ⟨r, r', draw_eq⟩)
        · refine .inl ⟨.plain, ?_⟩
          rintro ⟨m, m', hm, hm', sizes⟩
          obtain rfl := Except.ok.inj (hl.symm.trans hm)
          obtain rfl := Except.ok.inj (hl'.symm.trans hm')
          exact differ (sizes paired)
        · have starved := (draw_ends bare.config.weightInit (Q := fun _ _ => True)
            (fun _ _ => trivial) r).of_eq_error draw_eq
          rw [Parched, h.config_eq]
          exact .inr ⟨starved.1, by simp [starved.2]⟩
      · rintro connections _ ⟨g, r, rfl, intact⟩
        have sound' := sound.withGraph intact r
        have hg : { bare with graph := g, random := r }.layer source = .ok l := by
          cases source <;> exact hsource
        rw [bind_of_ok (modifyLayer_of_ok hg _)]
        refine ⟨sound'.noteWiring hg target, ?_, (refs_mapLayer _ _ _).trans h.refs_eq.symm⟩
        rw [h.config_eq]
        cases source <;> rfl

theorem StandsFor.projectNeuron_ends (h : bare.StandsFor net) (sound : bare.Sound bound [])
    (source target : NeuronId) (weight : Option Float) :
    Ending (fun _ net' => ∃ g r, net' = { bare with graph := g, random := r } ∧
        g.Intact bare.graph.neurons.keys)
      (fun e net' => net' = net ∧
        ¬ (net.graph.neurons.contains source ∧ net.graph.neurons.contains target) ∨ net.Parched e)
      ((projectNeuron source target weight).run net) := by
  have missing {id : NeuronId} (hn : net.graph.neurons.get? id = none) :
      ¬ net.graph.neurons.contains id := by simp [SortedMap.contains_eq_isSome, hn]
  cases hs : net.graph.neurons.get? source with
  | none =>
    rw [projectNeuron, bind_of_error (ask_graph_neuron_error hs)]
    exact .inl ⟨rfl, fun there => missing hs there.1⟩
  | some s =>
    cases ht : net.graph.neurons.get? target with
    | none =>
      rw [projectNeuron, bind_of_ok (ask_graph_neuron hs), bind_of_error (ask_graph_neuron_error ht)]
      exact .inl ⟨rfl, fun there => missing ht there.2⟩
    | some t =>
      rw [projectNeuron, bind_of_ok (ask_graph_neuron hs), bind_of_ok (ask_graph_neuron ht),
        bind_of_ok (h.restore_run sound), bind_of_ok (get_run bare)]
      refine ends_focus ?_
      have intact := Graph.intact_project source target weight (drawWeight bare.config)
        (bare.graph, bare.random) ⟨sound.consistent, rfl⟩
      cases hr : (Graph.project source target weight (drawWeight bare.config)).run
          (bare.graph, bare.random) with
      | ok c s =>
        rw [hr] at intact
        exact ⟨s.1, s.2, rfl, intact⟩
      | error e s =>
        obtain ⟨-, r, draw_eq⟩ := Graph.project_error
          (h.contains_neuron source ▸ Graph.contains_of_get? hs)
          (h.contains_neuron target ▸ Graph.contains_of_get? ht) hr
        have starved := (draw_ends bare.config.weightInit (Q := fun _ _ => True)
          (fun _ _ => trivial) bare.random).of_eq_error draw_eq
        refine .inr ⟨starved.1, ?_⟩
        rw [h.config_eq]
        simp [starved.2]

end Wiring

section Sweeping

variable {bound : NeuronId} {net bare : Network}

theorem StandsFor.connect_ends (h : bare.StandsFor net) (sound : bare.Sound bound []) :
    Ending (fun _ _ => True) (fun e _ => net.Parched e) (connect.run net) := by
  rw [connect, bind_of_ok (get_run net)]
  refine Ending.mono (ends_forM (I := fun _ net' => ∃ bare' : Network, bare'.Sound bound [] ∧
    bare'.StandsFor net' ∧ net'.config = net.config ∧ net'.refs = net.refs)
    (fun before p later refs_eq => ?_) net ⟨bare, sound, h, rfl, rfl⟩) (fun _ _ _ => trivial)
    fun _ _ parched => parched
  have listed : p ∈ net.refs.zip net.refs.tail := by
    rw [show net.refs.zip net.refs.tail = before ++ p :: later from refs_eq]
    simp
  have hsource := (List.of_mem_zip listed).1
  have htarget := List.mem_of_mem_tail (List.of_mem_zip listed).2
  rintro net' ⟨bare', sound', h', config_eq, refs_eq⟩
  have wired : Ending (fun _ net'' => net''.Sound bound [] ∧ net''.config = net.config ∧
      net''.refs = net.refs) (fun e _ => net.Parched e)
      ((project p.1 p.2 (some .allToAll) none).run net') := by
    refine (h'.project_ends sound' p.1 p.2 (some .allToAll) none).mono ?_ ?_
    · rintro link net'' ⟨sound'', config_eq', refs_eq'⟩
      exact ⟨sound'', config_eq'.trans config_eq, refs_eq'.trans refs_eq⟩
    · rintro e net'' (⟨-, refused⟩ | parched)
      · obtain ⟨l, hl⟩ := mem_refs_iff.mp (refs_eq ▸ hsource)
        obtain ⟨l', hl'⟩ := mem_refs_iff.mp (refs_eq ▸ htarget)
        exact absurd ⟨l, l', hl, hl', fun paired => nomatch paired⟩ refused
      · rwa [Parched, config_eq] at parched
  refine Ending.bind wired ?_
  rintro link net'' ⟨sound'', kept⟩
  exact ⟨net'', sound'', .plain, kept⟩

theorem StandsFor.disconnectAll_run (h : bare.StandsFor net) (sound : bare.Sound bound []) :
    disconnectAll.run net = .ok () { bare with graph := bare.graph.stripped bare.connections } := by
  have strips := Graph.disconnectEach_run sound.consistent (nodup_connections sound) fun c hc =>
    (mem_connections_iff sound c).mp hc
  rw [disconnectAll, bind_of_ok (h.restore_run sound), bind_of_ok (get_run bare)]
  exact (congrArg (EStateM.run · bare) (onGraph_forM bare.connections fun c =>
    Graph.disconnect c.source c.target)).symm.trans (onGraph_of_ok strips)

end Sweeping

section Growing

variable {bound : NeuronId} {net bare : Network} {frame : Config × Layer × Array Layer × Layer}

theorem freshNeuron_ends : Ends (fun s => s.2.frame = frame) freshNeuron (fun _ s => s.2.frame = frame)
    (fun e _ => Starved frame.1.weightInit frame.1.biasInit e) := by
  rintro ⟨ids, net⟩ rfl
  have drawn := draw_ends net.config.biasInit (Q := fun _ _ => True) (fun _ _ => trivial) net.random
  cases hr : net.config.biasInit.draw.run net.random with
  | ok bias r =>
    rw [freshNeuron_of_ok hr]
    exact rfl
  | error e r =>
    rw [freshNeuron_of_error hr]
    have unbounded := drawn.of_eq_error hr
    exact ⟨unbounded.1, by simp [Network.frame, unbounded.2]⟩

theorem freshLayer_ends (size : Nat) : Ends (fun s => s.2.frame = frame) (freshLayer size)
    (fun _ _ => True) (fun e _ => Starved frame.1.weightInit frame.1.biasInit e) :=
  Ends.bind (ends_mapM (I := fun _ _ (s : IdSupply × Network) => s.2.frame = frame)
    fun _ _ _ _ _ => freshNeuron_ends) fun _ => ends_pure fun _ _ => trivial

theorem StandsFor.addHiddenLayer_ends (h : bare.StandsFor net) (sound : bare.Sound bound [])
    (size : Nat) (ids : IdSupply) :
    Ending (fun _ _ => True) (fun e _ => net.Parched e) ((addHiddenLayer size).run (ids, net)) := by
  rw [addHiddenLayer, bind_of_ok (lift_of_ok (h.restore_run sound)), h.parched_eq]
  have laid : Ends (fun s => s.2.frame = bare.frame) (freshLayer size) _ _ := freshLayer_ends size
  exact Ending.bind (laid (ids, bare) rfl) fun _ _ _ => trivial

theorem StandsFor.addNeuron_ends (h : bare.StandsFor net) (sound : bare.Sound bound [])
    (ref : LayerRef) (ids : IdSupply) :
    Ending (fun _ _ => True) (fun e s => s = (ids, net) ∧ ref ∉ net.refs ∨ net.Parched e)
      ((addNeuron ref).run (ids, net)) := by
  cases hl : net.layer ref with
  | error e =>
    rw [addNeuron, bind_of_error (lift_of_error (ask_layer_error hl))]
    refine .inl ⟨rfl, fun there => ?_⟩
    obtain ⟨l, hl'⟩ := mem_refs_iff.mp there
    cases hl.symm.trans hl'
  | ok l =>
    rw [addNeuron, bind_of_ok (lift_of_ok (ask_layer hl)),
      bind_of_ok (lift_of_ok (h.restore_run sound)), h.parched_eq]
    refine Ending.bind ((freshNeuron_ends (ids, bare) rfl).mono (fun _ _ kept => kept)
      fun _ _ starved => .inr starved) ?_
    rintro id ⟨ids', net'⟩ kept
    have there : net'.layer ref = .ok l := (layer_of_frame kept ref).trans (h.layer_eq ref ▸ hl)
    rw [bind_of_ok (lift_of_ok (modifyLayer_of_ok there _))]
    trivial

end Growing

end Network

end GatedNetwork
