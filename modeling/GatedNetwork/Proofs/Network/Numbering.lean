import GatedNetwork.Proofs.Network.Ageing
import GatedNetwork.Proofs.Network.Merging
import GatedNetwork.Proofs.Network.Rebuilding

/-! In which order new neurons get their ids. Ids are given away one by one, and a neuron is numbered
when it is made: the neurons of a new network from its input layer to its output layer, those of a new
layer in the order in which the layer lists them, and those of a description record by record. -/

namespace GatedNetwork

def hiddenLayout (sizes : List Nat) : List LayerRef :=
  (sizes.mapIdx fun i size => List.replicate size (.hidden i)).flatten

/-- The layers of the neurons of a network that has so many in each of its layers. -/
def layout (input : Nat) (hidden : List Nat) (output : Nat) : List LayerRef :=
  List.replicate input .input ++ hiddenLayout hidden ++ List.replicate output .output

theorem hiddenLayout_append (sizes : List Nat) (size : Nat) :
    hiddenLayout (sizes ++ [size]) = hiddenLayout sizes ++ List.replicate size (.hidden sizes.length) := by
  simp [hiddenLayout, List.mapIdx_append]

def Snapshot.layers (s : Snapshot) : List LayerRef := s.neurons.map (·.layer)

/-- The layers of the neurons of a chain, the outputs of whose first part become the layer `hidden`. The
inputs of the second part are not made again. -/
def chainedLayers (hidden : Nat) (first second : List LayerRef) : List LayerRef :=
  let ahead : LayerRef → LayerRef
    | .output => .hidden hidden
    | ref => ref
  let behind : LayerRef → Option LayerRef
    | .input => none
    | .hidden i => some (.hidden (hidden + 1 + i))
    | .output => some .output
  first.map ahead ++ second.filterMap behind

theorem Snapshot.layers_chain (first second : Snapshot) (hidden : Nat) :
    (first.chain second hidden).layers = chainedLayers hidden first.layers second.layers := by
  rw [layers, chain_neurons, List.map_append, List.map_map, List.map_map, chainedLayers, layers,
    List.map_map, layers, List.filterMap_map]
  congr 1
  · refine List.map_congr_left fun r _ => ?_
    cases hl : r.layer <;> simp [NeuronRecord.front, hl]
  · induction second.neurons with
    | nil => rfl
    | cons r rs ih => cases hl : r.layer <;> simp_all [NeuronRecord.behind]

namespace Network

/-- The layers of the neurons of a network in the order in which it lists them. -/
def roster (net : Network) : List LayerRef := net.neurons.map (·.2)

/-- The ids from `start` on, and no more, have been given to members of these layers one by one. -/
structure Numbered (start : NeuronId) (refs : List LayerRef) (s : IdSupply × Network) : Prop where
  next : s.1.next = start + refs.length
  member : ∀ m ref, refs[m]? = some ref → start + m ∈ s.2.members ref

section Members

variable {net net' : Network} {ref : LayerRef}

theorem members_of_frame (frame_eq : net'.frame = net.frame) : net'.members = net.members := by
  simp only [frame, Prod.mk.injEq] at frame_eq
  obtain ⟨-, input_eq, hidden_eq, output_eq⟩ := frame_eq
  funext ref
  cases ref <;> simp only [members, input_eq, hidden_eq, output_eq]

theorem members_noteWiring (net : Network) (ref target : LayerRef) :
    (net.mapLayer (·.noteWiring target) ref).members = net.members := by
  funext ref'
  cases ref with
  | input => cases ref' <;> simp [members, mapLayer, Layer.neurons_noteWiring]
  | output => cases ref' <;> simp [members, mapLayer, Layer.neurons_noteWiring]
  | hidden i =>
    cases ref' with
    | hidden j =>
      simp only [members, mapLayer, Array.getElem?_modify]
      split
      · cases net.hidden[j]? <;> simp [Layer.neurons_noteWiring]
      · rfl
    | _ => rfl

theorem members_push (l : Layer) (ref : LayerRef) :
    net.members ref ⊆ { net with hidden := net.hidden.push l }.members ref := by
  intro id hid
  cases ref with
  | hidden i =>
    simp only [members, Array.getElem?_push] at hid ⊢
    split
    · rename_i last
      simp [last] at hid
    · exact hid
  | _ => exact hid

theorem members_pushed (l : Layer) :
    { net with hidden := net.hidden.push l }.members (.hidden net.hidden.size) = l.neurons := by
  simp [members]

end Members

section Numbering

variable {start : NeuronId} {refs : List LayerRef} {ref : LayerRef} {s s' : IdSupply × Network} {n : Nat}

theorem numbered_start (s : IdSupply × Network) : Numbered s.1.next [] s := ⟨rfl, nofun⟩

theorem Numbered.extend (h : Numbered start refs s) (next : s'.1.next = s.1.next + n)
    (kept : ∀ ref, s.2.members ref ⊆ s'.2.members ref)
    (new : List.range' s.1.next n ⊆ s'.2.members ref) :
    Numbered start (refs ++ List.replicate n ref) s' := by
  have next_eq := h.next
  refine ⟨?_, fun m ref' there => ?_⟩
  · rw [next, next_eq, List.length_append, List.length_replicate, Nat.add_assoc]
  · rw [List.getElem?_append] at there
    split at there
    · exact kept ref' (h.member m ref' there)
    · rw [List.getElem?_replicate] at there
      split at there
      · obtain rfl := Option.some.inj there
        refine new (List.mem_range'_1.mpr ?_)
        rw [next_eq]
        omega
      · cases there

end Numbering

section Making

variable {k : NeuronId} {frame : Config × Layer × Array Layer × Layer} {n : Nat}

/-- So many neurons more have been made, and no layer lists them yet. -/
def Made (k : NeuronId) (frame : Config × Layer × Array Layer × Layer) (n : Nat)
    (s : IdSupply × Network) : Prop := s.1.next = k + n ∧ s.2.frame = frame

theorem addNeuronToGraph_made (squash : Squash) (bias : Float) :
    Ends (Made k frame n) (addNeuronToGraph squash bias) (fun id s => id = k + n ∧ Made k frame (n + 1) s)
      fun _ _ => True := by
  rintro ⟨⟨_⟩, net⟩ ⟨rfl, rfl⟩
  exact ⟨rfl, rfl, rfl⟩

theorem freshNeuron_made : Ends (Made k frame n) freshNeuron
    (fun id s => id = k + n ∧ Made k frame (n + 1) s) fun _ _ => True := by
  rintro ⟨ids, net⟩ made
  cases hr : net.config.biasInit.draw.run net.random with
  | ok bias r =>
    rw [freshNeuron_of_ok hr]
    exact addNeuronToGraph_made _ _ (ids, { net with random := r }) made
  | error e r =>
    rw [freshNeuron_of_error hr]
    trivial

/-- Neurons that are made in a row have ids in a row. -/
theorem mapM_made {act : Growth NeuronId} (made : ∀ n, Ends (Made k frame n) act
      (fun id s => id = k + n ∧ Made k frame (n + 1) s) fun _ _ => True) (size : Nat) :
    Ends (Made k frame 0) ((List.replicate size ()).mapM fun _ => act)
      (fun ids s => ids = List.range' k size ∧ Made k frame size s) fun _ _ => True := by
  refine (ends_mapM (I := fun before ids s => ids = List.range' k before.length ∧ Made k frame before.length s)
    fun before x later ids _ => ?_).mono (fun s hs => ⟨rfl, hs⟩) (fun ids s hs => ?_) fun _ _ h => h
  · rintro s ⟨rfl, hs⟩
    refine (made _ s hs).mono (fun id s' hs' => ?_) fun _ _ h => h
    rw [List.length_append, List.length_singleton]
    exact ⟨by rw [hs'.1, List.range'_1_concat], hs'.2⟩
  · rwa [List.length_replicate] at hs

theorem freshLayer_made (size : Nat) : Ends (Made k frame 0) (freshLayer size)
    (fun l s => l.neurons = List.range' k size ∧ Made k frame size s) fun _ _ => True :=
  Ends.bind (mapM_made (fun _ => freshNeuron_made) size) fun _ => ends_pure fun _ hs => hs

theorem made_start (s : IdSupply × Network) : Made s.1.next s.2.frame 0 s := ⟨rfl, rfl⟩

theorem Numbered.push {start : NeuronId} {refs : List LayerRef} {s s' : IdSupply × Network} {l : Layer}
    (h : Numbered start refs s) (listed : l.neurons = List.range' s.1.next n)
    (made : Made s.1.next s.2.frame n s') :
    Numbered start (refs ++ List.replicate n (.hidden s.2.hidden.size))
      (s'.1, { s'.2 with hidden := s'.2.hidden.push l }) := by
  obtain ⟨next, frame_eq⟩ := made
  have members_eq := members_of_frame frame_eq
  have hidden_eq : s'.2.hidden = s.2.hidden := congrArg (·.2.2.1) frame_eq
  refine h.extend next (fun ref => ?_) ?_
  · rw [← members_eq]
    exact members_push l ref
  · rw [← hidden_eq, members_pushed, listed]
    exact fun _ h => h

theorem lay_numbered (input : Nat) (hidden : List Nat) (output : Nat) (config : Config) (ids : IdSupply) :
    Ending (fun _ => Numbered ids.next (layout input hidden output)) (fun _ _ => True)
      ((lay input hidden output).run (ids, blank config)) := by
  rw [lay, bind_of_ok (get_run _)]
  refine Ending.bind (mapM_made (fun _ => addNeuronToGraph_made _ 0) input _ (made_start _)) ?_
  rintro inputs ⟨ids', net⟩ ⟨rfl, next, frame_eq⟩
  simp only [frame, Prod.mk.injEq] at frame_eq
  obtain ⟨-, input_eq, hidden_eq, output_eq⟩ := frame_eq
  refine Ending.bind (Q := fun _ s => Numbered ids.next (List.replicate input .input) s ∧
    s.2.hidden.size = 0 ∧ s.2.output = {}) ?_ fun _ s hs => ?_
  · have nothing (ref : LayerRef) : (blank config).members ref = [] := by
      cases ref <;> simp [members, blank]
    refine ⟨(numbered_start (ids, blank config)).extend next (fun ref => ?_) fun _ h => h, ?_, output_eq⟩
    · rw [nothing]
      exact List.nil_subset _
    · exact congrArg Array.size hidden_eq
  let done (sizes : List Nat) (s : IdSupply × Network) : Prop :=
    Numbered ids.next (List.replicate input .input ++ hiddenLayout sizes) s ∧
      s.2.hidden.size = sizes.length ∧ s.2.output = {}
  refine Ending.bind (Q := fun _ => done hidden) ?_ fun _ s hs => ?_
  · refine ends_forM (I := done) (fun before size later _ => ?_) s ?_
    · rintro s ⟨numbered, size_eq, unfinished⟩
      refine Ending.bind (freshLayer_made size s (made_start s)) ?_
      rintro l s' ⟨listed, made⟩
      refine ⟨?_, ?_, ?_⟩
      · rw [hiddenLayout_append, ← List.append_assoc, ← size_eq]
        exact numbered.push listed made
      · have hidden_eq : s'.2.hidden = s.2.hidden := congrArg (·.2.2.1) made.2
        simp [hidden_eq, size_eq]
      · exact (congrArg (·.2.2.2) made.2).trans unfinished
    · exact ⟨(List.append_nil _).symm ▸ hs.1, hs.2⟩
  · obtain ⟨numbered, -, unfinished⟩ := hs
    refine Ending.bind (freshLayer_made output s (made_start s)) ?_
    rintro l ⟨ids'', net'⟩ ⟨listed, next', frame_eq'⟩
    have members_eq := members_of_frame frame_eq'
    refine numbered.extend next' (fun ref => ?_) ?_
    · rw [← members_eq]
      cases ref with
      | output =>
        have output_eq' : net'.output = s.2.output := congrArg (·.2.2.2) frame_eq'
        simp [members, output_eq', unfinished]
      | _ => exact fun _ h => h
    · exact listed ▸ fun _ h => h

end Making

section Growing

variable {ids ids' : IdSupply} {net : Network} {config : Config} {refs : List LayerRef} {size : Nat}

theorem keeps_lift {α : Type} {P : Network → Prop} {act : Edit α} (h : Keeps P act) (ids : IdSupply) :
    Keeps (fun s : IdSupply × Network => s.1 = ids ∧ P s.2) (lift act) :=
  keeps_focus fun s hs => ⟨hs.1, h s.2 hs.2⟩

theorem restored_made (ids : IdSupply) (net : Network) :
    Ending (fun _ => Made ids.next net.frame 0) (fun _ _ => True) ((lift restore).run (ids, net)) := by
  have kept := keeps_lift (keeps_restore (P := fun n => n.frame = net.frame) fun _ _ _ h => h) ids
  refine (kept.endures (ids, net) ⟨rfl, rfl⟩).mono (fun _ s hs => ⟨?_, hs.2⟩) fun _ _ _ => trivial
  rw [hs.1]
  rfl

theorem addHiddenLayer_numbered (size : Nat) (ids : IdSupply) (net : Network) :
    Ending (fun _ => Numbered ids.next (List.replicate size (.hidden net.hidden.size))) (fun _ _ => True)
      ((addHiddenLayer size).run (ids, net)) := by
  refine Ending.bind (restored_made ids net) fun _ s restored => ?_
  have next_eq : s.1.next = ids.next := restored.1
  have size_eq : s.2.hidden.size = net.hidden.size := congrArg (·.2.2.1.size) restored.2
  refine Ending.bind (freshLayer_made size s (made_start s)) ?_
  rintro l s' ⟨listed, made⟩
  have numbered := (numbered_start s).push listed made
  rw [List.nil_append, next_eq, size_eq] at numbered
  exact numbered

theorem addNeuron_numbered (ref : LayerRef) (ids : IdSupply) (net : Network) :
    Ending (fun _ => Numbered ids.next [ref]) (fun _ _ => True) ((addNeuron ref).run (ids, net)) := by
  refine Ending.bind (Q := fun _ s => s = (ids, net)) ?_ fun _ s hs => ?_
  · cases hl : net.layer ref with
    | ok l =>
      rw [lift_of_ok (ask_layer hl)]
      rfl
    | error e =>
      rw [lift_of_error (ask_layer_error hl)]
      trivial
  obtain rfl := hs
  refine Ending.bind (restored_made ids net) fun _ s restored => ?_
  refine Ending.bind (freshNeuron_made s restored) fun id s' made => ?_
  obtain ⟨rfl, next, frame_eq⟩ := made
  have members_eq := members_of_frame frame_eq
  obtain ⟨ids', net'⟩ := s'
  cases hl : net'.layer ref with
  | error e =>
    rw [bind_of_error (lift_of_error (modifyLayer_of_error hl _))]
    trivial
  | ok l =>
    rw [bind_of_ok (lift_of_ok (modifyLayer_of_ok hl _))]
    refine (numbered_start (ids, net)).extend (n := 1) next (fun ref' => ?_) ?_
    · rw [← members_eq, members_mapLayer hl]
      split
      · rename_i same
        rw [← same, members_of_layer hl]
        exact List.subset_append_left _ _
      · exact fun _ h => h
    · rw [members_mapLayer hl, if_pos rfl]
      exact List.subset_append_right _ _

theorem grow_numbered {act : Growth Unit}
    (numbered : Ending (fun _ => Numbered ids.next refs) (fun _ _ => True) (act.run (ids, blank config)))
    (run_eq : (grow config act).run ids = .ok net ids') : Numbered ids.next refs (ids', net) := by
  cases valid : config.validate with
  | error e => cases (grow_of_invalid valid act ids).symm.trans run_eq
  | ok =>
    cases ran : act.run (ids, blank config) with
    | error e s => cases (grow_of_error valid ran).symm.trans run_eq
    | ok _ s =>
      cases (grow_of_ok valid ran).symm.trans run_eq
      exact numbered.of_eq_ok ran

theorem new_numbered {input output : Nat} {hidden : List Nat}
    (run_eq : (new input hidden output config).run ids = .ok net ids') :
    Numbered ids.next (layout input hidden output) (ids', net) :=
  grow_numbered (lay_numbered input hidden output config ids) run_eq

theorem keeps_members_project {members : LayerRef → List NeuronId} (source target : LayerRef)
    (wiring : Option Wiring) (weight : Option Float) :
    Keeps (fun net => net.members = members) (project source target wiring weight) := by
  refine Keeps.bind (keeps_ask _) fun _ => Keeps.bind (keeps_ask _) fun _ => ?_
  refine Keeps.bind (keeps_restore fun _ _ _ h => h) fun _ => Keeps.bind keeps_get fun _ => ?_
  refine Keeps.bind (keeps_focus fun _ h => h) fun _ => Keeps.bind ?_ fun _ => keeps_pure _
  exact Keeps.bind (keeps_ask _) fun _ => keeps_modify fun net h =>
    (members_noteWiring net source target).trans h

theorem keeps_members_connect (members : LayerRef → List NeuronId) :
    Keeps (fun net => net.members = members) connect :=
  Keeps.bind keeps_get fun _ => keeps_forM fun _ _ =>
    Keeps.bind (keeps_members_project _ _ _ _) fun _ => keeps_pure _

theorem perceptron_numbered {input output : Nat} {hidden : List Nat}
    (run_eq : (perceptron input hidden output config).run ids = .ok net ids') :
    Numbered ids.next (layout input hidden output) (ids', net) := by
  refine grow_numbered (Ending.bind (lay_numbered input hidden output config ids)
    fun _ s numbered => ?_) run_eq
  have kept := keeps_lift (keeps_members_connect s.2.members) s.1
  refine (kept.endures s ⟨rfl, rfl⟩).mono (fun _ s' hs => ⟨?_, ?_⟩) fun _ _ _ => trivial
  · rw [hs.1]
    exact numbered.next
  · rw [hs.2]
    exact numbered.member

theorem Realizes.numbered {snapshot : Snapshot} {start : NeuronId}
    (h : net.Realizes snapshot config start) :
    Numbered start snapshot.layers (⟨start + snapshot.neurons.length⟩, net) where
  next := congrArg (start + ·) (List.length_map _).symm
  member m ref there := by
    rw [Snapshot.layers, List.getElem?_map] at there
    obtain ⟨r, hr, rfl⟩ := Option.map_eq_some_iff.mp there
    rw [h.members]
    refine List.mem_map.mpr ⟨(start + m, r.layer), List.mem_filter.mpr ⟨?_, by simp⟩, rfl⟩
    exact List.mem_of_getElem? (i := m) (by simp [Snapshot.planted, hr])

theorem ofSnapshot_numbered {snapshot : Snapshot}
    (run_eq : (ofSnapshot snapshot config).run ids = .ok net ids') :
    Numbered ids.next snapshot.layers (ids', net) := by
  cases valid : snapshot.validate with
  | error e =>
    rw [ofSnapshot, bind_of_error (ask_fixed_of_error valid ids)] at run_eq
    cases run_eq
  | ok =>
    cases settings : config.validate with
    | error e =>
      rw [ofSnapshot, bind_of_ok (ask_fixed_of_ok valid ids), grow_of_invalid settings] at run_eq
      cases run_eq
    | ok =>
      obtain ⟨made, made_eq, realizes⟩ := ofSnapshot_ok valid settings ids
      cases made_eq.symm.trans run_eq
      exact realizes.numbered

theorem layers_described (net : Network) : net.described.layers = net.roster := by
  rw [Snapshot.layers, described, List.map_map, roster]
  rfl

section Copies

variable {bound₁ bound₂ : NeuronId} {first second bare₁ bare₂ copied : Network}

theorem StandsFor.roster_eq (h : bare₁.StandsFor first) : first.roster = bare₁.roster := by
  cases h <;> rfl

theorem StandsFor.copy_numbered (stands : bare₁.StandsFor first) (sound : bare₁.Sound bound₁ [])
    (run_eq : first.copy.run ids = .ok copied ids') : Numbered ids.next first.roster (ids', copied) := by
  have described := (stands.toSnapshot_eq sound).trans sound.toSnapshot_eq
  rw [copy, bind_of_ok (ask_fixed_of_ok described ids)] at run_eq
  rw [stands.roster_eq, ← layers_described]
  exact ofSnapshot_numbered run_eq

theorem StandsFor.merge_numbered (stands₁ : bare₁.StandsFor first) (sound₁ : bare₁.Sound bound₁ [])
    (stands₂ : bare₂.StandsFor second) (sound₂ : bare₂.Sound bound₂ [])
    (run_eq : (first.merge second config).run ids = .ok copied ids') :
    Numbered ids.next (chainedLayers first.hidden.size first.roster second.roster) (ids', copied) := by
  by_cases sizes : first.output.size = second.input.size
  · rw [stands₁.merge_chains sound₁ stands₂ sound₂ sizes] at run_eq
    obtain ⟨-, hidden_eq, -⟩ := stands₁.layers_eq
    rw [stands₁.roster_eq, stands₂.roster_eq, ← layers_described, ← layers_described, hidden_eq,
      ← Snapshot.layers_chain]
    exact ofSnapshot_numbered run_eq
  · rw [merge, if_neg sizes] at run_eq
    cases run_eq

end Copies

end Growing

section Spending

variable {α β : Type} {m n : Nat}

/-- The action takes so many ids at most, whether it succeeds or fails. -/
def Spends (n : Nat) (act : Growth α) : Prop := ∀ s, (after (act.run s)).1.next ≤ s.1.next + n

theorem spends_pure (x : α) : Spends 0 (pure x) := fun _ => Nat.le_refl _

theorem spends_get : Spends 0 (get : Growth (IdSupply × Network)) := fun _ => Nat.le_refl _

theorem spends_lift (act : Edit α) : Spends 0 (lift act) := by
  rintro ⟨ids, net⟩
  cases run_eq : act.run net with
  | ok x net' =>
    rw [lift_of_ok run_eq]
    exact Nat.le_refl ids.next
  | error e net' =>
    rw [lift_of_error run_eq]
    exact Nat.le_refl ids.next

theorem Spends.mono {act : Growth α} (h : Spends m act) (le : m ≤ n) : Spends n act := fun s =>
  Nat.le_trans (h s) (Nat.add_le_add_left le _)

theorem Spends.bind {a : Growth α} {f : α → Growth β} (ha : Spends m a) (hf : ∀ x, Spends n (f x)) :
    Spends (m + n) (a >>= f) := by
  intro s
  have first := ha s
  rw [bind_run]
  cases run_eq : a.run s with
  | ok x s' =>
    rw [run_eq, after_ok] at first
    calc
      (after ((f x).run s')).1.next ≤ s'.1.next + n := hf x s'
      _ ≤ s.1.next + m + n := Nat.add_le_add_right first n
      _ = s.1.next + (m + n) := Nat.add_assoc _ m n
  | error e s' =>
    rw [run_eq, after_error] at first
    exact Nat.le_trans first (Nat.add_le_add_left (Nat.le_add_right m n) _)

theorem Spends.free {a : Growth α} {f : α → Growth β} (ha : Spends 0 a) (hf : ∀ x, Spends n (f x)) :
    Spends n (a >>= f) := (ha.bind hf).mono (Nat.le_of_eq (Nat.zero_add n))

theorem spends_freshNeuron : Spends 1 freshNeuron :=
  spends_get.free fun _ => (spends_lift _).free fun _ _ => Nat.le_refl _

theorem spends_addNeuron (ref : LayerRef) : Spends 1 (addNeuron ref) :=
  (spends_lift _).free fun _ => (spends_lift _).free fun _ =>
    spends_freshNeuron.bind fun _ => (spends_lift _).bind fun _ => spends_pure _

theorem spends_addHiddenNeuron (i : Nat) : Spends 1 (addHiddenNeuron i) :=
  spends_get.free fun _ => (spends_addNeuron _).bind fun _ => (spends_lift _).free fun _ =>
    (spends_lift _).free fun _ => (spends_lift _).free fun _ => spends_lift _

theorem spends_modifyNeurons : Spends 1 modifyNeurons := by
  rintro ⟨ids, net⟩
  rcases modifyNeurons_cases ids net with ⟨-, run_eq⟩ | ⟨i, -, r, -, run_eq | ⟨-, id, -, run_eq⟩⟩
  · rw [run_eq]
    exact Nat.le_succ ids.next
  · rw [run_eq]
    exact spends_addHiddenNeuron i (ids, { net with random := r })
  · rw [run_eq]
    exact (spends_lift (removeNeuron id)).mono (Nat.zero_le 1) (ids, { net with random := r })

theorem spends_mutate (m : Mutation) : Spends 1 (mutate m) := by
  refine (spends_lift _).free fun _ => ?_
  cases m with
  | modifyNeurons => exact spends_modifyNeurons
  | _ => exact (spends_lift _).mono (Nat.zero_le _)

end Spending

end Network

end GatedNetwork
