import GatedNetwork.Proofs.Network.Joining

/-! One edit of the structure: a hidden neuron comes or goes, or a connection does. Whichever it is, and
wherever it stops, the input and output layers stay, and no hidden layer runs empty. -/

namespace GatedNetwork

namespace Network

/-- The second network has the same layers as the first, but for neurons that came into hidden layers
or went from one that keeps others. -/
structure Persists (net net' : Network) : Prop where
  input : net'.input = net.input
  output : net'.output = net.output
  size : net'.hidden.size = net.hidden.size
  filled : ∀ i, net.members (.hidden i) ≠ [] → net'.members (.hidden i) ≠ []

/-- The neuron came into a hidden layer, connected from all of the layer before and to all of the
layer after. -/
structure Sprouts (i : Nat) (id : NeuronId) (net net' : Network) : Prop where
  layered : i < net.hidden.size
  absent : net.graph.neurons.contains id = false
  frame_eq : net'.frame = (net.mapLayer (·.add id) (.hidden i)).frame
  neurons : ∀ x, net'.graph.neurons.contains x ↔ net.graph.neurons.contains x ∨ x = id
  contains : ∀ c, net'.graph.contains c ↔ net.graph.contains c ∨
    c.source ∈ net.members (net.neighbours i).1 ∧ c.target = id ∨
    c.source = id ∧ c.target ∈ net.members (net.neighbours i).2
  made : ∀ c, net'.graph.contains c → ¬ net.graph.contains c →
    ∃ weight, net'.graph.connection? c = some { weight }
  others : ∀ c, c.source ≠ id → c.target ≠ id → net'.graph.connection? c = net.graph.connection? c
  spares : ∀ x n, net.graph.neurons.get? x = some n →
    ∃ n', net'.graph.neurons.get? x = some n' ∧ n'.Spares n

/-- The networks differ in one connection between two neurons. -/
structure Rewires (c : ConnectionId) (net net' : Network) : Prop where
  regular : c.isSelf = false
  frame_eq : net'.frame = net.frame
  neurons : ∀ x, net'.graph.neurons.contains x = net.graph.neurons.contains x
  contains : ∀ d, d ≠ c → net'.graph.contains d = net.graph.contains d
  others : ∀ d, d ≠ c → net'.graph.connection? d = net.graph.connection? d

/-- The connection was there and is gone. -/
structure Cuts (c : ConnectionId) (net net' : Network) : Prop extends Rewires c net net' where
  there : net.graph.contains c
  gone : net'.graph.contains c = false
  spares : net.graph.Spares net'.graph

/-- The connection was missing and has been made, from an earlier to a later neuron. -/
structure Closes (c : ConnectionId) (net net' : Network) : Prop extends Rewires c net net' where
  absent : net.graph.contains c = false
  forward : net.place c.source < net.place c.target
  unsent : c.source ∉ net.output.neurons
  unreceived : c.target ∉ net.input.neurons
  contained : net'.graph.contains c
  made : ∃ weight, net'.graph.connection? c = some { weight }
  spares : net'.graph.Spares net.graph

section Layers

variable {net net' : Network} {i : Nat} {f : Layer → Layer}

theorem layer_mapLayer_of_ne {ref ref' : LayerRef} (apart : ref ≠ ref') :
    (net.mapLayer f ref).layer ref' = net.layer ref' := by
  cases ref with
  | input => cases ref' <;> first | rfl | contradiction
  | output => cases ref' <;> first | rfl | contradiction
  | hidden i =>
    cases ref' with
    | input => rfl
    | output => rfl
    | hidden j =>
      have apart : i ≠ j := fun same => apart (congrArg LayerRef.hidden same)
      simp [layer, mapLayer, Array.getElem?_modify, apart]

theorem Persists.of_frame_eq (frame_eq : net'.frame = net.frame) : net.Persists net' := by
  simp only [frame, Prod.mk.injEq] at frame_eq
  obtain ⟨-, input_eq, hidden_eq, output_eq⟩ := frame_eq
  exact ⟨input_eq, output_eq, congrArg Array.size hidden_eq, fun i => by simp [members, hidden_eq]⟩

theorem Persists.trans {net₁ net₂ net₃ : Network} (h : net₁.Persists net₂) (h' : net₂.Persists net₃) :
    net₁.Persists net₃ where
  input := h'.input.trans h.input
  output := h'.output.trans h.output
  size := h'.size.trans h.size
  filled i some := h'.filled i (h.filled i some)

theorem persists_of_mapLayer {l : Layer} (hl : net.layer (.hidden i) = .ok l)
    (some : (f l).neurons ≠ [])
    (frame_eq : net'.frame = (net.mapLayer f (.hidden i)).frame) : net.Persists net' := by
  have mapped : net.Persists (net.mapLayer f (.hidden i)) := by
    constructor
    · rfl
    · rfl
    · simp [mapLayer]
    · intro j filled
      rw [members_mapLayer hl]
      split
      · exact some
      · exact filled
  exact mapped.trans (.of_frame_eq frame_eq)

theorem Sprouts.persists {id : NeuronId} (h : net.Sprouts i id net') : net.Persists net' := by
  obtain ⟨l, hl⟩ := mem_refs_iff.mp (show LayerRef.hidden i ∈ net.refs by simp [refs, h.layered])
  exact persists_of_mapLayer hl (by simp [Layer.add]) h.frame_eq

end Layers

section Growing

variable {ids : IdSupply} {net : Network} {i : Nat}

theorem neighbours_mem_refs (hi : i < net.hidden.size) :
    (net.neighbours i).1 ∈ net.refs ∧ (net.neighbours i).2 ∈ net.refs := by
  simp only [neighbours, refs, List.cons_append, List.mem_cons, List.mem_append, List.mem_map,
    List.mem_range, List.not_mem_nil, or_false]
  constructor
  · split
    · exact .inl rfl
    · exact .inr (.inl ⟨i - 1, by omega, rfl⟩)
  · split
    · exact .inr (.inr rfl)
    · exact .inr (.inl ⟨i + 1, by omega, rfl⟩)

def sproutEnds (net : Network) (i : Nat) (id : NeuronId) : List ConnectionId :=
  (net.members (net.neighbours i).1).map (⟨·, id⟩) ++ (net.members (net.neighbours i).2).map (⟨id, ·⟩)

theorem mem_sproutEnds {id : NeuronId} {c : ConnectionId} : c ∈ net.sproutEnds i id ↔
    c.source ∈ net.members (net.neighbours i).1 ∧ c.target = id ∨
      c.source = id ∧ c.target ∈ net.members (net.neighbours i).2 := by
  obtain ⟨s, t⟩ := c
  simp only [sproutEnds, List.mem_append, List.mem_map, ConnectionId.mk.injEq]
  constructor
  · rintro (⟨x, hx, rfl, rfl⟩ | ⟨x, hx, rfl, rfl⟩)
    · exact .inl ⟨hx, rfl⟩
    · exact .inr ⟨rfl, hx⟩
  · rintro (⟨hs, rfl⟩ | ⟨rfl, ht⟩)
    · exact .inl ⟨s, hs, rfl, rfl⟩
    · exact .inr ⟨t, ht, rfl, rfl⟩

theorem Sound.isSelf_sproutEnds {bound : NeuronId} (h : net.Sound bound []) {c : ConnectionId}
    (hc : c ∈ net.sproutEnds i bound) : c.isSelf = false := by
  have other {ref : LayerRef} {x : NeuronId} (hx : x ∈ net.members ref) : x ≠ bound := by
    obtain ⟨l, hl⟩ := mem_refs_iff.mp (mem_refs_of_mem_members hx)
    rw [members_of_layer hl] at hx
    exact Nat.ne_of_lt (h.fresh x (h.contains_member hl hx))
  rcases mem_sproutEnds.mp hc with ⟨hs, ht⟩ | ⟨hs, ht⟩
  · simp [ConnectionId.isSelf, ht, other hs]
  · simp [ConnectionId.isSelf, hs, (other ht).symm]

/-- What joining a new neuron to the layers around it makes of the network. -/
theorem Sound.sprouts (h : net.Sound ids.next []) (hi : i < net.hidden.size) {grown net' : Network}
    {squash : Squash} {bias : Float}
    (graph_eq : grown.graph = net.graph.addNeuron ids.next squash bias)
    (frame_eq : grown.frame = (net.mapLayer (·.add ids.next) (.hidden i)).frame)
    (sound : grown.Sound (ids.next + 1) [])
    (joined : grown.Joined (net.sproutEnds i ids.next) net') :
    net.Sprouts i ids.next net' := by
  have absent : net.graph.neurons.contains ids.next = false :=
    Bool.eq_false_iff.mpr fun there => Nat.lt_irrefl _ (h.fresh ids.next there)
  have contains_eq (c : ConnectionId) : grown.graph.contains c = net.graph.contains c := by
    rw [graph_eq, Bool.eq_iff_iff, ← Graph.isSome_active?, Graph.active?_addNeuron absent,
      Graph.isSome_active?]
  constructor
  · exact hi
  · exact absent
  · exact joined.frame_eq.trans frame_eq
  · intro x
    rw [← SortedMap.mem_keys, joined.intact.2, SortedMap.mem_keys, graph_eq, Graph.addNeuron,
      SortedMap.contains_insert, Bool.or_eq_true, decide_eq_true_eq, eq_comm (a := ids.next)]
    exact or_comm
  · intro c
    rw [joined.graph.contains, contains_eq, mem_sproutEnds]
  · intro c now before
    refine joined.graph.made sound.consistent ?_ (by rwa [contains_eq])
    exact ((joined.graph.contains c).mp now).resolve_left (by rwa [contains_eq])
  · intro c hs ht
    have outside : c ∉ net.sproutEnds i ids.next := by
      rw [mem_sproutEnds]
      rintro (⟨-, e⟩ | ⟨e, -⟩)
      · exact ht e
      · exact hs e
    have notLoop : c ≠ .loop ids.next := fun e => hs (congrArg ConnectionId.source e)
    rw [joined.graph.others c outside, graph_eq, Graph.connection?_addNeuron, if_neg notLoop]
  · intro x n hn
    have there : net.graph.neurons.contains x := Graph.contains_of_get? hn
    have old : ids.next ≠ x := by
      rintro rfl
      simp [absent] at there
    apply joined.graph.spares fun c hc => h.isSelf_sproutEnds hc
    rw [graph_eq, Graph.addNeuron_get?, if_neg old]
    exact hn

/-- A neuron that is there is joined to two layers, unless a weight cannot be drawn. -/
theorem Sound.joins_around (ids : IdSupply) {bound : NeuronId} (h : net.Sound bound []) {id : NeuronId}
    (there : net.graph.neurons.contains id) {before after : LayerRef} {sources targets : Layer}
    (hsources : net.layer before = .ok sources) (htargets : net.layer after = .ok targets) :
    Ending (fun _ s => s.1 = ids ∧
        net.Joined (sources.neurons.map (⟨·, id⟩) ++ targets.neurons.map (⟨id, ·⟩)) s.2)
      (fun e s => e = .unboundedRange ∧ s.2.frame = net.frame)
      ((do
        let sources := (← lift (ask (·.layer before))).neurons
        lift (sources.forM fun s => do let _ ← projectNeuron s id none)
        let targets := (← lift (ask (·.layer after))).neurons
        lift (targets.forM fun t => do let _ ← projectNeuron id t none) : Growth Unit).run
        (ids, net)) := by
  rw [bind_of_ok (lift_of_ok (ask_layer hsources))]
  have entered := h.projectEach_joined (⟨·, id⟩) fun x hx => ⟨h.contains_member hsources hx, there⟩
  refine Ending.bind (Q := fun _ s => s.1 = ids ∧ net.Joined (sources.neurons.map (⟨·, id⟩)) s.2)
    (ends_focus (entered.mono (fun _ _ joined => ⟨rfl, joined⟩) fun _ _ failed => failed)) ?_
  rintro _ ⟨ids', halfway⟩ ⟨rfl, joined⟩
  have sound := joined.sound h
  have htargets' : halfway.layer after = .ok targets :=
    (layer_of_frame joined.frame_eq after).trans htargets
  rw [bind_of_ok (lift_of_ok (ask_layer htargets'))]
  have left := sound.projectEach_joined (⟨id, ·⟩) fun x hx =>
    ⟨contains_of_keys_eq joined.intact.2 there, sound.contains_member htargets' hx⟩
  refine ends_focus (left.mono (fun _ _ joined' => ⟨rfl, joined.append joined'⟩) fun _ _ failed => ?_)
  exact ⟨failed.1, failed.2.trans joined.frame_eq⟩

/-- A hidden neuron can be added anywhere; only a draw may fail. -/
theorem Sound.addHiddenNeuron_ends (h : net.Sound ids.next []) (hi : i < net.hidden.size) :
    Ending (fun _ s => s.1 = ⟨ids.next + 1⟩ ∧ net.Sprouts i ids.next s.2)
      (fun e s => e = .unboundedRange ∧ net.Persists s.2) ((addHiddenNeuron i).run (ids, net)) := by
  obtain ⟨l, hl⟩ := mem_refs_iff.mp (show LayerRef.hidden i ∈ net.refs by simp [refs, hi])
  obtain ⟨before, after⟩ := neighbours_mem_refs hi
  obtain ⟨sources, hsources⟩ := mem_refs_iff.mp before
  obtain ⟨targets, htargets⟩ := mem_refs_iff.mp after
  obtain ⟨below, above⟩ := net.before_neighbours i
  rw [addHiddenNeuron, bind_of_ok (get_run _)]
  rcases h.addNeuron_cases hl with
    ⟨grown, bias, r, grown_eq, sound, hl', added⟩ | ⟨e, r, draw_eq, failed⟩
  · have sound' := sound.add hl'
    have frame_eq : (grown.mapLayer (·.add ids.next) (.hidden i)).frame =
        (net.mapLayer (·.add ids.next) (.hidden i)).frame := by
      rw [grown_eq]
      rfl
    have graph_eq : (grown.mapLayer (·.add ids.next) (.hidden i)).graph =
        net.graph.addNeuron ids.next net.config.squash bias := by
      rw [grown_eq]
      rfl
    generalize grown.mapLayer (·.add ids.next) (.hidden i) = placed at added sound' frame_eq graph_eq
    have around {ref : LayerRef} (apart : LayerRef.hidden i ≠ ref) :
        placed.layer ref = net.layer ref :=
      (layer_of_frame frame_eq ref).trans (layer_mapLayer_of_ne apart)
    have newest : placed.graph.neurons.contains ids.next := by
      rw [graph_eq]
      simp [Graph.addNeuron]
    have joins := sound'.joins_around ⟨ids.next + 1⟩ newest
      ((around fun same => LayerRef.Before.irrefl _ (same ▸ below)).trans hsources)
      ((around fun same => LayerRef.Before.irrefl _ (same ▸ above)).trans htargets)
    rw [bind_of_ok added]
    refine joins.mono (fun _ s joined => ⟨joined.1, ?_⟩) fun e s failed => ⟨failed.1, ?_⟩
    · apply h.sprouts hi graph_eq frame_eq sound'
      rw [sproutEnds, members_of_layer hsources, members_of_layer htargets]
      exact joined.2
    · exact persists_of_mapLayer hl (by simp [Layer.add]) (failed.2.trans frame_eq)
  · obtain ⟨rfl, -⟩ := (draw_ends net.config.biasInit (Q := fun _ _ => True) (fun _ _ => trivial)
      net.random).of_eq_error draw_eq
    rw [bind_of_error failed]
    exact ⟨rfl, .of_frame_eq rfl⟩

end Growing

end Network

end GatedNetwork
