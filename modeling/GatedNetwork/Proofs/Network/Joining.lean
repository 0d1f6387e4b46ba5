import GatedNetwork.Proofs.Graph.Joining
import GatedNetwork.Proofs.Network.Directed
import GatedNetwork.Proofs.Network.Drawing

/-! Connecting the neurons of a network without a given weight: one pair, one pair after the other, or
two layers. What is connected already is found as it was, except that a neuron's connection to itself
gets weight 1. -/

namespace GatedNetwork

namespace Graph

section Standing

variable {σ : Type} {g : Graph} {c : ConnectionId}

theorem enabled_of_contains {id : NeuronId} (there : g.contains (.loop id)) (weight : Float) :
    g.enabled id weight = g.withConnection (.loop id) fun d => { d with weight } := by
  rw [withConnection, if_pos (isSelf_loop id)]
  refine withNeuron_congr fun n hn => ?_
  have already : n.selfConnected = true := by simpa [contains_loop, hn] using there
  simp only [already]

theorem project_there {source target : NeuronId} (hs : g.neurons.contains source)
    (ht : g.neurons.contains target) (there : g.contains ⟨source, target⟩)
    (draw : EStateM NetworkError σ Float) (r : σ) :
    (project source target none draw).run (g, r) = .ok ⟨source, target⟩
      (if source = target then g.withConnection (.loop source) fun d => { d with weight := 1 } else g,
        r) := by
  rcases project_cases source target none draw g r with
    ⟨id, rfl | rfl, missing, -⟩ | ⟨-, -, ⟨hst, heq⟩ | ⟨hne, hc, heq⟩ | ⟨hne, hc, heq⟩⟩
  · simp [hs] at missing
  · simp [ht] at missing
  · subst hst
    rw [heq, if_pos rfl, ← enabled_of_contains there]
    rfl
  · rw [heq, if_neg hne]
  · rw [contains_of_not_isSelf (by simp [ConnectionId.isSelf, hne]), hc] at there
    cases there

end Standing

end Graph

namespace Network

section Pairs

variable {bound : NeuronId} {net bare : Network} {source target : NeuronId}

theorem StandsFor.projectNeuron_run (h : bare.StandsFor net) (sound : bare.Sound bound [])
    (hs : bare.graph.neurons.contains source) (ht : bare.graph.neurons.contains target)
    (weight : Option Float) :
    (projectNeuron source target weight).run net =
      (onGraphAndRandom (Graph.project source target weight (drawWeight bare.config))).run bare := by
  obtain ⟨s, hs'⟩ := Graph.get?_of_contains ((h.contains_neuron source).trans hs)
  obtain ⟨t, ht'⟩ := Graph.get?_of_contains ((h.contains_neuron target).trans ht)
  rw [projectNeuron, bind_of_ok (ask_graph_neuron hs'), bind_of_ok (ask_graph_neuron ht'),
    bind_of_ok (h.restore_run sound), bind_of_ok (get_run bare)]

theorem StandsFor.reproject_run (h : bare.StandsFor net) (sound : bare.Sound bound [])
    (there : bare.graph.contains ⟨source, target⟩) :
    (projectNeuron source target none).run net = .ok ⟨source, target⟩
      (if source = target then
        { bare with graph := bare.graph.withConnection (.loop source) fun d => { d with weight := 1 } }
      else bare) := by
  obtain ⟨hs, ht⟩ := sound.consistent.toLinked.ends_of_contains there
  have found := Graph.project_there hs ht there (drawWeight bare.config) bare.random
  rw [h.projectNeuron_run sound hs ht, onGraphAndRandom_of_ok found]
  split <;> rfl

end Pairs

section Joining

variable {bound : NeuronId} {net bare net' : Network}

/-- What joining neurons leaves of a network. -/
structure Joined (cs : List ConnectionId) (net net' : Network) : Prop where
  network : ∃ g r, net' = { net with graph := g, random := r }
  intact : net'.graph.Intact net.graph.neurons.keys
  graph : net.graph.Joined cs net'.graph

theorem contains_of_keys_eq {g g' : Graph} (keys_eq : g'.neurons.keys = g.neurons.keys) {id : NeuronId}
    (there : g.neurons.contains id) : g'.neurons.contains id := by
  rwa [← SortedMap.mem_keys, keys_eq, SortedMap.mem_keys]

theorem Sound.projectNeuron_joined (h : net.Sound bound []) {source target : NeuronId}
    (hs : net.graph.neurons.contains source) (ht : net.graph.neurons.contains target) :
    Ending (fun c net' => c = ⟨source, target⟩ ∧ net.Joined [⟨source, target⟩] net')
      (fun e net' => e = .unboundedRange ∧ net'.frame = net.frame)
      ((projectNeuron source target none).run net) := by
  have ended := StandsFor.plain.projectNeuron_ends h source target none
  rw [StandsFor.plain.projectNeuron_run h hs ht] at ended ⊢
  have named : Keeps (fun s : Graph × RandomStream => Graph.Named net.graph.neurons.keys s.1)
      (Graph.project source target none (drawWeight net.config)) := Graph.named_project _ _ _ _
  have kept := named (net.graph, net.random) rfl
  have ending := Graph.project_joined h.consistent source target (drawWeight net.config) net.random
  cases hr : (Graph.project source target none (drawWeight net.config)).run (net.graph, net.random) with
  | error e s =>
    have failed : (onGraphAndRandom (Graph.project source target none (drawWeight net.config))).run net =
        .error e { net with graph := s.1, random := s.2 } := focus_of_error (s := net) hr
    rw [failed]
    rcases ended.of_eq_error failed with ⟨-, missing⟩ | parched
    · exact absurd ⟨hs, ht⟩ missing
    · exact ⟨parched.1, rfl⟩
  | ok c s =>
    rw [hr] at kept ending
    rw [onGraphAndRandom_of_ok hr]
    obtain ⟨c_eq, consistent, joined⟩ := ending
    exact ⟨c_eq, ⟨s.1, s.2, rfl⟩, ⟨consistent, kept⟩, joined⟩

theorem Joined.refl (h : net.Sound bound []) : net.Joined [] net :=
  ⟨⟨net.graph, net.random, rfl⟩, ⟨h.consistent, rfl⟩, .refl net.graph⟩

theorem Joined.sound {cs : List ConnectionId} (h : net.Joined cs net') (sound : net.Sound bound []) :
    net'.Sound bound [] := by
  obtain ⟨⟨g, r, rfl⟩, intact, -⟩ := h
  exact sound.withGraph intact r

theorem Joined.frame_eq {cs : List ConnectionId} (h : net.Joined cs net') : net'.frame = net.frame := by
  obtain ⟨⟨g, r, rfl⟩, -⟩ := h
  rfl

theorem Joined.append {cs ds : List ConnectionId} {net₁ net₂ : Network} (h : net.Joined cs net₁)
    (h' : net₁.Joined ds net₂) : net.Joined (cs ++ ds) net₂ := by
  obtain ⟨⟨g, r, rfl⟩, intact, joined⟩ := h
  obtain ⟨⟨g', r', rfl⟩, intact', joined'⟩ := h'
  exact ⟨⟨g', r', rfl⟩, ⟨intact'.1, intact'.2.trans intact.2⟩, joined.append joined'⟩

/-- Neurons that are there are connected one by one, until a weight cannot be drawn. -/
theorem Sound.projectEach_joined (h : net.Sound bound []) {xs : List NeuronId}
    (ends : NeuronId → ConnectionId) (there : ∀ x ∈ xs,
      net.graph.neurons.contains (ends x).source ∧ net.graph.neurons.contains (ends x).target) :
    Ending (fun _ net' => net.Joined (xs.map ends) net')
      (fun e net' => e = .unboundedRange ∧ net'.frame = net.frame)
      ((xs.forM fun x => do let _ ← projectNeuron (ends x).source (ends x).target none).run net) := by
  refine ends_forM (I := fun before net' => net.Joined (before.map ends) net')
    (fun before x later split => ?_) net (.refl h)
  intro net' joined
  obtain ⟨hs, ht⟩ := there x (by simp [split])
  have known {id : NeuronId} (hid : net.graph.neurons.contains id) : net'.graph.neurons.contains id :=
    contains_of_keys_eq joined.intact.2 hid
  refine Ending.bind (((joined.sound h).projectNeuron_joined (known hs) (known ht)).mono
    (fun _ _ step => step) fun e _ failed => ⟨failed.1, failed.2.trans joined.frame_eq⟩) ?_
  rintro _ net'' ⟨rfl, step⟩
  rw [List.map_append]
  exact joined.append step

theorem StandsFor.project_wires (h : bare.StandsFor net) (sound : bare.Sound bound [])
    {Q : List ConnectionId → Graph → Prop} {source target : LayerRef} {weight : Option Float}
    (wires : ∀ (l l' : Layer) (wiring : Wiring), Ending (fun cs s => Q cs s.1) (fun _ _ => True)
      ((l.projectOnto l'.neurons wiring weight (drawWeight bare.config)).run (bare.graph, bare.random)))
    (wiring : Option Wiring) :
    Ending (fun link net' => net'.program = none ∧ Q link.connections net'.graph) (fun _ _ => True)
      ((project source target wiring weight).run net) := by
  cases hl : net.layer source with
  | error e =>
    rw [project, bind_of_error (ask_layer_error hl)]
    trivial
  | ok l =>
    cases hl' : net.layer target with
    | error e =>
      rw [project, bind_of_ok (ask_layer hl), bind_of_error (ask_layer_error hl')]
      trivial
    | ok l' =>
      rw [project, bind_of_ok (ask_layer hl), bind_of_ok (ask_layer hl'),
        bind_of_ok (h.restore_run sound), bind_of_ok (get_run bare)]
      refine Ending.bind (Q := fun cs net' => net'.program = none ∧ Q cs net'.graph)
        (ends_focus ((wires l l' _).mono (fun _ _ done => ⟨sound.bare, done⟩) fun _ _ _ => trivial)) ?_
      rintro cs now ⟨program_eq, done⟩
      cases hl'' : now.layer source with
      | error e =>
        rw [bind_of_error (modifyLayer_of_error hl'' _)]
        trivial
      | ok l'' =>
        rw [bind_of_ok (modifyLayer_of_ok hl'' _)]
        cases source <;> exact ⟨program_eq, done⟩

/-- Two layers that are wired are joined by the connections that the link names. -/
theorem StandsFor.project_joined (h : bare.StandsFor net) (sound : bare.Sound bound [])
    {source target : LayerRef} {wiring : Option Wiring} {link : Link}
    (run_eq : (project source target wiring none).run net = .ok link net') :
    bare.graph.Joined link.connections net'.graph :=
  ((h.project_wires sound (fun (l : Layer) _ _ => (l.projectOnto_joined sound.consistent _ _ _ _).mono
    (fun _ _ joined => joined.2) fun _ _ _ => trivial) wiring).of_eq_ok run_eq).2

end Joining

end Network

end GatedNetwork
