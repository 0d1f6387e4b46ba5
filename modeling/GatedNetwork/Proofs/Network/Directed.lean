import GatedNetwork.Proofs.Graph.Within
import GatedNetwork.Proofs.Network.Editing
import GatedNetwork.Proofs.Network.Lasting
import GatedNetwork.Proofs.Snapshot.Arranged

/-! Networks that only point forward, and what mutations do to them. A new neuron comes between the
neurons of the layers that it is wired to, a gap is filled from an earlier neuron to a later one, and
neurons that stay keep their order. -/

namespace GatedNetwork

section Order

variable {α : Type} [BEq α] [LawfulBEq α] {a b : α} {xs : List α}

theorem idxOf_lt_of_sublist (nodup : xs.Nodup) (sub : [a, b].Sublist xs) : xs.idxOf a < xs.idxOf b := by
  have ordered : xs.Pairwise fun x y => xs.idxOf x < xs.idxOf y := by
    refine List.pairwise_iff_getElem.mpr fun i j hi hj hij => ?_
    rwa [nodup.idxOf_getElem i hi, nodup.idxOf_getElem j hj]
  simpa using ordered.sublist sub

theorem sublist_of_idxOf_lt (hb : b ∈ xs) (lt : xs.idxOf a < xs.idxOf b) : [a, b].Sublist xs := by
  have ha : a ∈ xs := List.idxOf_lt_length_iff.mp (Nat.lt_trans lt (List.idxOf_lt_length_of_mem hb))
  obtain ⟨before, later, split, fresh⟩ := List.eq_append_cons_of_mem ha
  have place_eq : xs.idxOf a = before.length := by
    rw [split, List.idxOf_append_of_notMem fresh, List.idxOf_cons_self, Nat.add_zero]
  have behind : b ∈ later := by
    rw [split, List.mem_append, List.mem_cons] at hb
    rcases hb with hb | rfl | hb
    · have early := (List.IsPrefix.mem_iff_idxOf_lt_length (List.prefix_append before (a :: later)) b).mp hb
      rw [← split] at early
      omega
    · exact absurd lt (Nat.lt_irrefl _)
    · exact hb
  rw [split]
  exact ((List.singleton_sublist.mpr behind).cons_cons a).trans (List.sublist_append_right before _)

end Order

namespace Network

/-- Every connection goes from an earlier to a later neuron, none leaves an output or enters an input,
and no neuron is connected to itself. -/
@[mk_iff]
structure Directed (net : Network) : Prop where
  forward : ∀ c ∈ net.connections, net.place c.source < net.place c.target
  unsent : ∀ c ∈ net.connections, c.source ∉ net.output.neurons
  unreceived : ∀ c ∈ net.connections, c.target ∉ net.input.neurons
  unlooped : ∀ c ∈ net.connections, c.isSelf = false

instance (net : Network) : Decidable net.Directed :=
  decidable_of_iff' _ (directed_iff net)

/-- The connection may be made in a network that only points forward. -/
structure Ascends (net : Network) (c : ConnectionId) : Prop where
  forward : [c.source, c.target].Sublist net.ids
  unsent : c.source ∉ net.output.neurons
  unreceived : c.target ∉ net.input.neurons

/-- The network holds no program, and all connections ascend. -/
structure Ascending (net : Network) : Prop where
  bare : net.program = none
  within : net.graph.Within net.Ascends

section Ascent

variable {bound : NeuronId} {net net' bare : Network} {c : ConnectionId} {id s t : NeuronId}
  {ref ref' : LayerRef} {l : Layer}

theorem Sound.directed_iff_within (sound : net.Sound bound []) :
    net.Directed ↔ net.graph.Within net.Ascends := by
  have listed (c : ConnectionId) : c ∈ net.connections ↔ net.graph.contains c :=
    mem_connections_iff sound c
  constructor
  · intro h c hc
    have hc' := (listed c).mpr hc
    have there : c.target ∈ net.ids :=
      (sound.mem_ids _).mpr (sound.consistent.toLinked.ends_of_contains hc).2
    exact ⟨sublist_of_idxOf_lt there (h.forward c hc'), h.unsent c hc', h.unreceived c hc'⟩
  · intro h
    have ascends (c : ConnectionId) (hc : c ∈ net.connections) : net.Ascends c := h c ((listed c).mp hc)
    have lt (c : ConnectionId) (hc : c ∈ net.connections) : net.place c.source < net.place c.target :=
      idxOf_lt_of_sublist sound.nodup_ids (ascends c hc).forward
    refine ⟨lt, fun c hc => (ascends c hc).unsent, fun c hc => (ascends c hc).unreceived,
      fun c hc => Bool.eq_false_iff.mpr fun self => ?_⟩
    have same : c.source = c.target := by simpa [ConnectionId.isSelf] using self
    exact Nat.lt_irrefl _ (same ▸ lt c hc)

theorem StandsFor.directed_iff (h : bare.StandsFor net) : net.Directed ↔ bare.Directed := by
  have place_eq (x : NeuronId) : net.place x = bare.place x := by cases h <;> rfl
  obtain ⟨input_eq, -, output_eq⟩ := h.layers_eq
  simp only [Network.directed_iff, h.connections_eq, place_eq, input_eq, output_eq]

theorem ids_of_frame_eq (frame_eq : net'.frame = net.frame) : net'.ids = net.ids := by
  simp only [frame, Prod.mk.injEq] at frame_eq
  obtain ⟨-, input_eq, hidden_eq, output_eq⟩ := frame_eq
  rw [ids, ids, input_eq, hidden_eq, output_eq]

theorem Ascends.of_frame_eq (h : net.Ascends c) (frame_eq : net'.frame = net.frame) :
    net'.Ascends c := by
  have ids_eq := ids_of_frame_eq frame_eq
  simp only [frame, Prod.mk.injEq] at frame_eq
  obtain ⟨-, input_eq, -, output_eq⟩ := frame_eq
  exact ⟨ids_eq ▸ h.forward, output_eq ▸ h.unsent, input_eq ▸ h.unreceived⟩

/-- A neuron that comes into a layer stands between those that are there. -/
theorem Ascends.add (h : net.Ascends c) (hl : net.layer ref = .ok l) (fresh : id ∉ net.ids) :
    (net.mapLayer (·.add id) ref).Ascends c := by
  have there : c.source ∈ net.ids ∧ c.target ∈ net.ids := by
    simpa using h.forward.subset
  have other : c.source ≠ id ∧ c.target ≠ id :=
    ⟨fun same => fresh (same ▸ there.1), fun same => fresh (same ▸ there.2)⟩
  refine ⟨?_, ?_, ?_⟩
  · obtain ⟨before, later, ids_eq, changed_eq⟩ := exists_ids_mapLayer hl (·.add id)
    rw [changed_eq]
    refine (ids_eq ▸ h.forward).trans ?_
    exact ((List.sublist_append_left l.neurons [id]).append_left before).append_right later
  · cases ref <;> simp [mapLayer, Layer.add, h.unsent, other.1]
  · cases ref <;> simp [mapLayer, Layer.add, h.unreceived, other.2]

theorem Ascends.remove (h : net.Ascends c) (nodup : net.ids.Nodup) (hl : net.layer ref = .ok l)
    (hid : id ∈ l.neurons) (other : c.source ≠ id ∧ c.target ≠ id) :
    (net.mapLayer (·.remove id) ref).Ascends c := by
  refine ⟨?_, ?_, ?_⟩
  · rw [ids_erase hl nodup hid]
    simpa [other.1, other.2] using h.forward.erase id
  · cases ref <;> simp [mapLayer, Layer.remove, h.unsent]
    exact fun there => h.unsent (List.mem_of_mem_erase there)
  · cases ref <;> simp [mapLayer, Layer.remove, h.unreceived]
    exact fun there => h.unreceived (List.mem_of_mem_erase there)

theorem ref_unique (nodup : net.ids.Nodup) (h : (id, ref) ∈ net.neurons) (h' : (id, ref') ∈ net.neurons) :
    ref = ref' := by
  rw [← neurons_ids] at nodup
  exact congrArg Prod.snd (List.inj_on_of_nodup_map nodup h h' rfl)

theorem ref_eq_of_mem_members (nodup : net.ids.Nodup) (h : id ∈ net.members ref)
    (h' : id ∈ net.members ref') : ref = ref' :=
  ref_unique nodup (mem_neurons_iff.mpr ⟨mem_refs_of_mem_members h, h⟩)
    (mem_neurons_iff.mpr ⟨mem_refs_of_mem_members h', h'⟩)

theorem Sound.layerOf_member {bound : NeuronId} (h : net.Sound bound [])
    (member : id ∈ net.members ref) : net.layerOf id = some ref := by
  have listed : id ∈ net.ids := by
    rw [← neurons_ids]
    exact List.mem_map_of_mem (mem_neurons_iff.mpr ⟨mem_refs_of_mem_members member, member⟩)
  obtain ⟨ref', layerOf_eq⟩ := layerOf_isSome listed
  obtain ⟨l', hl', hid⟩ := exists_layer_of_layerOf layerOf_eq
  have same : ref' = ref := ref_eq_of_mem_members h.nodup_ids (by rwa [members_of_layer hl']) member
  rw [layerOf_eq, same]

theorem ascends_of_listed (nodup : net.ids.Nodup) (sub : [(s, ref), (t, ref')].Sublist net.neurons)
    (hs : ref ≠ .output) (ht : ref' ≠ .input) : net.Ascends ⟨s, t⟩ := by
  have there : (s, ref) ∈ net.neurons ∧ (t, ref') ∈ net.neurons := by simpa using sub.subset
  refine ⟨?_, fun output => hs (ref_unique nodup there.1 ?_), fun input => ht (ref_unique nodup there.2 ?_)⟩
  · rw [← neurons_ids]
    exact sub.map (·.1)
  · exact mem_neurons_iff.mpr ⟨by simp [refs], output⟩
  · exact mem_neurons_iff.mpr ⟨by simp [refs], input⟩

theorem ascends_of_before (nodup : net.ids.Nodup) (hs : (s, ref) ∈ net.neurons)
    (ht : (t, ref') ∈ net.neurons) (lt : ref.Before ref') : net.Ascends ⟨s, t⟩ := by
  obtain ⟨before, later, split⟩ := List.append_of_mem hs
  have sorted := net.pairwise_neurons
  rw [split, List.pairwise_append] at sorted
  have behind : (t, ref') ∈ later := by
    rw [split, List.mem_append, List.mem_cons] at ht
    rcases ht with early | same | behind
    · exact absurd lt (sorted.2.2 _ early _ List.mem_cons_self)
    · obtain ⟨-, rfl⟩ := Prod.mk.inj same
      exact absurd lt (LayerRef.Before.irrefl _)
    · exact behind
  have sub : [(s, ref), (t, ref')].Sublist net.neurons := by
    rw [split]
    exact ((List.singleton_sublist.mpr behind).cons_cons _).trans (List.sublist_append_right before _)
  refine ascends_of_listed nodup sub ?_ ?_
  · rintro rfl
    exact lt
  · rintro rfl
    cases ref <;> exact lt

theorem ascends_of_mem_forwardGaps (nodup : net.ids.Nodup) {gap : NeuronId × NeuronId}
    (there : gap ∈ net.forwardGaps) : net.Ascends ⟨gap.1, gap.2⟩ := by
  have listed (xs : List (NeuronId × LayerRef)) (hgap : gap ∈ forwardGaps.gaps net xs) :
      ∃ ref ref', [(gap.1, ref), (gap.2, ref')].Sublist xs ∧ ref ≠ .output ∧ ref' ≠ .input := by
    induction xs with
    | nil => cases hgap
    | cons first later ih =>
      obtain ⟨source, layer⟩ := first
      rw [forwardGaps.gaps, List.mem_append] at hgap
      rcases hgap with first | rest
      · split at first
        · cases first
        · rename_i sends
          obtain ⟨⟨target, layer'⟩, found, rfl⟩ := List.mem_map.mp first
          obtain ⟨there, receives⟩ := List.mem_filter.mp found
          refine ⟨layer, layer', (List.singleton_sublist.mpr there).cons_cons _, sends, ?_⟩
          simpa using (Bool.and_eq_true_iff.mp receives).1
      · obtain ⟨ref, ref', sub, sends, receives⟩ := ih rest
        exact ⟨ref, ref', sub.cons _, sends, receives⟩
  obtain ⟨ref, ref', sub, sends, receives⟩ := listed net.neurons there
  exact ascends_of_listed nodup sub sends receives

end Ascent

section Edits

variable {frame : Config × Layer × Array Layer × Layer} {P : ConnectionId → Prop}
  {net net' : Network} {s t : NeuronId}

/-- The settings and the layers are these, no program is held, and all connections have the
property. -/
structure Framed (frame : Config × Layer × Array Layer × Layer) (P : ConnectionId → Prop)
    (net : Network) : Prop where
  bare : net.program = none
  frame_eq : net.frame = frame
  within : net.graph.Within P

theorem Framed.ascending (h : net'.Framed net.frame net.Ascends) : net'.Ascending :=
  ⟨h.bare, h.within.mono fun _ ascends => ascends.of_frame_eq h.frame_eq⟩

theorem lastsWith_framed (frame : Config × Layer × Array Layer × Layer) (P : ConnectionId → Prop) :
    LastsWith (Framed frame P) (Graph.Within P) fun _ => True where
  tuning := Graph.lastsTuning_within P
  graph _ h := h.within
  withGraph _ _ _ h within := ⟨h.bare, h.frame_eq, within⟩
  restores := Keeps.endures fun net h => by
    rw [restore, bind_of_ok (get_run net), h.bare]
    exact h

theorem framed_projectNeuron (allowed : P ⟨s, t⟩) :
    Endures (Framed frame P) (fun _ => True) (projectNeuron s t none) :=
  (lastsWith_framed frame P).joining fun _ _ => (Graph.within_project allowed none _).endures

theorem framed_modifyConnections (nodup : net.ids.Nodup) :
    Endures (Framed net.frame net.Ascends) (fun _ => True) modifyConnections := by
  refine (lastsWith_framed net.frame net.Ascends).endures_modifyConnections fun net' h gap there => ?_
  have ascends := ascends_of_mem_forwardGaps (ids_of_frame_eq h.frame_eq ▸ nodup) there
  exact framed_projectNeuron (ascends.of_frame_eq h.frame_eq.symm)

end Edits

section Growing

variable {s : IdSupply × Network} {net : Network} {P : ConnectionId → Prop} {ref : LayerRef} {α : Type}

/-- A sound network that only points forward, and the ids that are free for it. -/
structure Poised (s : IdSupply × Network) : Prop where
  sound : s.2.Sound s.1.next []
  within : s.2.graph.Within s.2.Ascends

theorem Poised.ascending (h : Poised s) : s.2.Ascending := ⟨h.sound.bare, h.within⟩

theorem Poised.edits (h : Poised s) {act : Growth α}
    (ha : Endures (Grown (fun _ => Framed s.2.frame s.2.Ascends) 0) (fun _ => True) act) :
    Ending (fun _ s => s.2.Ascending) (fun _ s => s.2.Ascending) (act.run s) :=
  (ha s ⟨Nat.zero_le _, h.sound.bare, rfl, h.within⟩).mono (fun _ _ framed => framed.2.ascending)
    fun _ _ framed => framed.2.2.ascending

theorem Poised.redrawn {ids : IdSupply} (h : Poised (ids, net)) (r : RandomStream) :
    Poised (ids, { net with random := r }) :=
  ⟨h.sound.withRandom r, h.within.mono fun _ ascends => ascends.of_frame_eq rfl⟩

theorem Poised.addNeuron (h : Poised s) (ref : LayerRef) :
    Ending (fun id s' => Poised s' ∧ (id, ref) ∈ s'.2.neurons) (fun _ s' => s'.2.Ascending)
      ((addNeuron ref).run s) := by
  obtain ⟨ids, net⟩ := s
  have sound : net.Sound ids.next [] := h.sound
  cases hl : net.layer ref with
  | error e =>
    rw [Network.addNeuron, bind_of_error (lift_of_error (ask_layer_error hl))]
    exact h.ascending
  | ok l =>
    rcases sound.addNeuron_cases hl with
      ⟨grown, bias, r, grown_eq, sound', hl', added⟩ | ⟨e, r, -, failed⟩
    · have frame_eq : grown.frame = net.frame := by rw [grown_eq]; rfl
      have fresh : ids.next ∉ grown.ids := fun there =>
        Nat.lt_irrefl _ (sound.fresh _ ((sound.mem_ids _).mp (ids_of_frame_eq frame_eq ▸ there)))
      rw [added]
      refine ⟨⟨sound'.add hl', fun c hc => ?_⟩, mem_neurons_iff.mpr ⟨?_, ?_⟩⟩
      · have graph_eq : (grown.mapLayer (·.add ids.next) ref).graph = grown.graph := by cases ref <;> rfl
        have there : grown.graph.contains c := graph_eq ▸ hc
        rw [grown_eq] at there
        have old : net.Ascends c := h.within c (Graph.contains_of_addNeuron c there)
        have still : grown.Ascends c := old.of_frame_eq frame_eq
        exact still.add hl' fresh
      · rw [refs_mapLayer]
        exact mem_refs_iff.mpr ⟨l, hl'⟩
      · simp [members_mapLayer hl', Layer.add]
    · rw [failed]
      exact ⟨sound.bare, h.within.mono fun _ ascends => ascends.of_frame_eq rfl⟩

theorem framed_layer {act : Layer → Growth α} (ha : ∀ l, (∀ x ∈ l.neurons, (x, ref) ∈ net.neurons) →
      Endures (Grown (fun _ => Framed net.frame P) 0) (fun _ => True) (act l)) :
    Endures (Grown (fun _ => Framed net.frame P) 0) (fun _ => True)
      (lift (ask (·.layer ref)) >>= act) := by
  rintro ⟨ids, net'⟩ h
  cases hl : net'.layer ref with
  | error e =>
    rw [bind_of_error (lift_of_error (ask_layer_error hl))]
    exact ⟨trivial, h⟩
  | ok l =>
    rw [bind_of_ok (lift_of_ok (ask_layer hl))]
    have hl' : net.layer ref = .ok l := (layer_of_frame h.2.frame_eq ref).symm.trans hl
    refine ha l (fun x hx => mem_neurons_iff.mpr ⟨mem_refs_iff.mpr ⟨l, hl'⟩, ?_⟩) _ h
    rwa [members_of_layer hl']

theorem before_neighbours (net : Network) (i : Nat) :
    (net.neighbours i).1.Before (.hidden i) ∧ (LayerRef.hidden i).Before (net.neighbours i).2 := by
  simp only [neighbours]
  constructor
  · split
    · trivial
    · simp only [LayerRef.Before]
      omega
  · split
    · trivial
    · exact Nat.lt_succ_self i

theorem poised_addHiddenNeuron (i : Nat) :
    Ends Poised (addHiddenNeuron i) (fun _ s => s.2.Ascending) fun _ s => s.2.Ascending := by
  rintro ⟨ids, net⟩ h
  rw [addHiddenNeuron, bind_of_ok (get_run _)]
  refine Ending.bind (h.addNeuron (.hidden i)) ?_
  rintro id s ⟨poised, hid⟩
  obtain ⟨before, after⟩ := net.before_neighbours i
  have nodup := poised.sound.nodup_ids
  have wires {xs : List NeuronId} (ends : NeuronId → NeuronId × NeuronId)
      (allowed : ∀ x ∈ xs, s.2.Ascends ⟨(ends x).1, (ends x).2⟩) :
      Endures (Grown (fun _ => Framed s.2.frame s.2.Ascends) 0) (fun _ => True)
        (lift (xs.forM fun x => do let _ ← projectNeuron (ends x).1 (ends x).2 none)) :=
    endures_lift fun _ => endures_forM fun x hx =>
      Endures.bind (framed_projectNeuron (allowed x hx)) fun _ => endures_pure _
  refine poised.edits (framed_layer fun sources listed => ?_)
  refine Endures.bind (wires (·, id) fun x hx => ?_) fun _ =>
    framed_layer fun targets listed' => wires (id, ·) fun x hx => ?_
  · exact ascends_of_before nodup (listed x hx) hid before
  · exact ascends_of_before nodup hid (listed' x hx) after

end Growing

section Removing

variable {s : IdSupply × Network} {net : Network} {P : ConnectionId → Prop}

/-- To remove a neuron connects nothing, even if it stops half-way. -/
theorem within_removeNeuron (id : NeuronId) :
    Keeps (fun net => net.program = none ∧ net.graph.Within P) (removeNeuron id) := by
  refine Keeps.bind keeps_get fun net => ?_
  split
  · exact fun _ h => h
  · have edits : Keeps (fun net => net.program = none ∧ net.graph.Within P)
        (onGraph (Graph.removeNeuron id)) :=
      keeps_focus fun net h => ⟨h.1, Graph.within_removeNeuron id net.graph h.2⟩
    have restores : Keeps (fun net => net.program = none ∧ net.graph.Within P) restore := by
      intro net h
      rw [restore, bind_of_ok (get_run net), h.1]
      exact h
    refine Keeps.bind restores fun _ => Keeps.bind edits fun _ => Keeps.bind (keeps_ask _) fun _ => ?_
    exact keeps_modify fun net h => by cases ‹LayerRef› <;> exact h

theorem Poised.removeNeuron (h : Poised s) (id : NeuronId) :
    Ending (fun _ s => s.2.Ascending) (fun _ s => s.2.Ascending) ((lift (removeNeuron id)).run s) := by
  obtain ⟨ids, net⟩ := s
  have sound : net.Sound ids.next [] := h.sound
  have kept := within_removeNeuron id net ⟨sound.bare, fun c hc => (hc : net.graph.contains c)⟩
  refine ends_focus ?_
  show Ending (fun _ net => net.Ascending) (fun _ net => net.Ascending) ((Network.removeNeuron id).run net)
  cases listed : net.layerOf id with
  | none =>
    rw [Network.removeNeuron, bind_of_ok (get_run net), listed]
    exact h.ascending
  | some ref =>
    obtain ⟨l, hl, hid⟩ := exists_layer_of_layerOf listed
    rcases removeNeuron_cases .plain sound listed with
      ⟨-, net', run_eq, sound', removed, n, -, net_eq⟩ | ⟨c, -, g', -, -, run_eq⟩
    · rw [run_eq] at kept ⊢
      refine ⟨sound'.bare, fun c hc => ?_⟩
      have stays {x : NeuronId} (there : net'.graph.neurons.contains x) : x ≠ id := by
        rw [removed.neurons, Bool.and_eq_true, decide_eq_true_eq] at there
        exact there.2
      obtain ⟨source, target⟩ := sound'.consistent.toLinked.ends_of_contains hc
      have old : Ascends { net with graph := net.graph.removed id n } c :=
        (h.within c (kept.2 c hc)).of_frame_eq rfl
      rw [net_eq]
      exact old.remove sound.nodup_ids (by cases ref <;> exact hl) hid ⟨stays source, stays target⟩
    · rw [run_eq] at kept ⊢
      exact ⟨sound.bare, fun c hc => (h.within c (kept.2 c hc)).of_frame_eq rfl⟩

end Removing

section Mutating

variable {s : IdSupply × Network} {net bare : Network}

theorem poised_modifyNeurons :
    Ends Poised modifyNeurons (fun _ s => s.2.Ascending) fun _ s => s.2.Ascending := by
  rintro ⟨ids, net⟩ h
  rcases modifyNeurons_cases ids net with ⟨-, run_eq⟩ | ⟨i, -, r, -, run_eq | ⟨-, id, -, run_eq⟩⟩
  · rw [run_eq]
    exact h.ascending
  · rw [run_eq]
    exact poised_addHiddenNeuron i _ (h.redrawn r)
  · rw [run_eq]
    exact (h.redrawn r).removeNeuron id

/-- Whatever a mutation does, and however it ends, all connections still ascend. -/
theorem Poised.mutate (h : Poised s) (m : Mutation) :
    Ending (fun _ s => s.2.Ascending) (fun _ s => s.2.Ascending) ((mutate m).run s) := by
  have restored : (lift restore).run s = .ok () s :=
    lift_of_ok (StandsFor.plain.restore_run h.sound)
  have lasts := lastsWith_framed s.2.frame s.2.Ascends
  have edits {act : Edit Unit} (ha : Endures (Framed s.2.frame s.2.Ascends) (fun _ => True) act) :=
    h.edits (endures_lift fun _ => ha)
  refine Ending.bind (Q := fun _ t => t = s) (restored ▸ rfl) ?_
  rintro ⟨⟩ s rfl
  cases m with
  | swapWeight => exact edits lasts.endures_swapWeight
  | swapBias => exact edits lasts.endures_swapBias
  | modifyRandomBias noise => exact edits (lasts.endures_modifyRandomBias fun _ => drawn_any _)
  | modifyRandomWeight noise => exact edits (lasts.endures_modifyRandomWeight fun _ => drawn_any _)
  | modifyNeurons => exact poised_modifyNeurons s h
  | modifyConnections => exact edits (framed_modifyConnections h.sound.nodup_ids)
  | modifySquash allowed => exact edits (lasts.endures_modifySquash allowed)

end Mutating

end Network

end GatedNetwork
