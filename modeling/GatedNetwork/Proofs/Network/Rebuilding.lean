import GatedNetwork.Proofs.Graph.Resting
import GatedNetwork.Proofs.Network.Enumeration
import GatedNetwork.Proofs.Network.Founding
import GatedNetwork.Proofs.Snapshot.Meaning

/-! Networks made from descriptions. First the neurons are planted, record by record under the next
free ids; then every connection record is carried out, and what has been asked for so far is what
takes part in a run. -/

namespace GatedNetwork

namespace Graph

/-- The graph once a connection record is carried out. -/
def recorded (place : Nat → NeuronId) (g : Graph) (r : ConnectionRecord) : Graph :=
  match r.gater with
  | some i => (g.connected (r.between place) r.weight).gatedBy (place i) (r.between place)
  | none => g.connected (r.between place) r.weight

section Recording

variable {place : Nat → NeuronId} {g : Graph} {r : ConnectionRecord}

structure Offers (g : Graph) (place : Nat → NeuronId) (r : ConnectionRecord) : Prop where
  source : g.neurons.contains (place r.source)
  target : g.neurons.contains (place r.target)
  gater : ∀ i, r.gater = some i → g.neurons.contains (place i)

theorem inherits_recorded (place : Nat → NeuronId) (g : Graph) (r : ConnectionRecord) :
    g.Inherits (g.recorded place r) := by
  unfold recorded
  split
  · exact (inherits_connected g _ _).trans (inherits_gatedBy _ _ _)
  · exact inherits_connected g _ _

@[simp] theorem recorded_contains_neuron (place : Nat → NeuronId) (g : Graph) (r : ConnectionRecord)
    (id : NeuronId) : (g.recorded place r).neurons.contains id = g.neurons.contains id := by
  unfold recorded
  split <;> simp

theorem Consistent.recorded (h : g.Consistent) (offers : g.Offers place r) :
    (g.recorded place r).Consistent := by
  have connected := h.connected (c := r.between place) offers.source offers.target r.weight
  unfold Graph.recorded
  split
  · rename_i i hi
    refine connected.gatedBy ?_ (by simpa using offers.gater i hi)
    rw [contains_connected (c := r.between place) offers.source]
    simp
  · exact connected

/-- A record sets a weight, and a gater if it names one. -/
theorem active?_recorded (h : g.Consistent) (offers : g.Offers place r)
    (gains : ∀ c d, g.active? c = some d → d.gain = 1) (c : ConnectionId) :
    (g.recorded place r).active? c =
      if r.between place = c then
        some { weight := r.weight, gater := (r.gater.map place).or ((g.active? c).bind (·.gater)) }
      else g.active? c := by
  have connected := h.connected (c := r.between place) offers.source offers.target r.weight
  have active_eq : (g.connected (r.between place) r.weight).active? c = _ :=
    active?_connected h offers.source c
  have gain_eq : ((g.active? c).getD { weight := 0 }).gain = 1 := by
    cases hd : g.active? c with
    | some d => exact gains c d hd
    | none => rfl
  have gater_eq : ((g.active? c).getD { weight := 0 }).gater = (g.active? c).bind (·.gater) := by
    cases g.active? c <;> rfl
  unfold Graph.recorded
  split
  · rename_i i hi
    rw [active?_gatedBy connected, active_eq]
    split
    · simp only [hi, Option.map_some, Option.some_or, Option.some.injEq]
      split
      · rename_i same
        rw [← same]
        simp only [Connection.mk.injEq, true_and, and_true]
        exact gain_eq
      · rfl
    · rfl
  · rename_i hr
    rw [active_eq]
    split
    · rw [hr, Option.map_none, Option.none_or, ← gater_eq]
      simp only [Option.some.injEq, Connection.mk.injEq, true_and, and_true]
      exact gain_eq
    · rfl

end Recording

end Graph

namespace Network

/-- The neurons of the records are there under the ids from `start` on, in the layers that the
records name and without anything that comes from a run. -/
structure Planted (records : List NeuronRecord) (hidden : Nat) (config : Config) (start : NeuronId)
    (net : Network) : Prop where
  sound : net.Sound (start + records.length) []
  config_eq : net.config = config
  size : net.hidden.size = hidden
  members : ∀ ref, net.members ref =
    ((Snapshot.planted start records).filter (·.2 = ref)).map (·.1)
  traits : ∀ (i : Nat) r, records[i]? = some r →
    ∃ n, net.graph.neurons.get? (start + i) = some n ∧ n.squash = r.squash ∧ n.bias = r.bias
  resting : ∀ id n, net.graph.neurons.get? id = some n → n.Resting

def plant (net : Network) (id : NeuronId) (r : NeuronRecord) : Network :=
  { net with graph := net.graph.addNeuron id r.squash r.bias }.mapLayer (·.add id) r.layer

section Planting

variable {records : List NeuronRecord} {hidden : Nat} {config : Config} {start : NeuronId}
  {net : Network} {r : NeuronRecord}

theorem layer_of_lt {ref : LayerRef} (there : ∀ i, ref = .hidden i → i < net.hidden.size) :
    ∃ l, net.layer ref = .ok l := by
  rw [← mem_refs_iff]
  cases ref with
  | input => simp [refs]
  | output => simp [refs]
  | hidden i => simpa [refs] using there i rfl

@[simp] theorem plant_graph (net : Network) (id : NeuronId) (r : NeuronRecord) :
    (net.plant id r).graph = net.graph.addNeuron id r.squash r.bias := by
  unfold plant
  cases r.layer <;> rfl

theorem layer_withGraph {ref : LayerRef} {l : Layer} (hl : net.layer ref = .ok l) (g : Graph) :
    { net with graph := g }.layer ref = .ok l := by
  cases ref <;> exact hl

theorem plant_run (there : ∀ i, r.layer = .hidden i → i < net.hidden.size) (id : NeuronId) :
    (do
      let id ← addNeuronToGraph r.squash r.bias
      lift (modifyLayer r.layer (·.add id))
      return (id, r.layer) : Growth (NeuronId × LayerRef)).run (⟨id⟩, net) =
        .ok (id, r.layer) (⟨id + 1⟩, net.plant id r) := by
  obtain ⟨l, hl⟩ := layer_of_lt there
  have made : (addNeuronToGraph r.squash r.bias).run (⟨id⟩, net) =
      .ok id (⟨id + 1⟩, { net with graph := net.graph.addNeuron id r.squash r.bias }) := rfl
  rw [bind_of_ok made, bind_of_ok (lift_of_ok (modifyLayer_of_ok (layer_withGraph hl _) _))]
  rfl

theorem members_plant (there : ∀ i, r.layer = .hidden i → i < net.hidden.size) (id : NeuronId)
    (ref : LayerRef) :
    (net.plant id r).members ref = net.members ref ++ if r.layer = ref then [id] else [] := by
  obtain ⟨l, hl⟩ := layer_of_lt there
  rw [plant, members_mapLayer (layer_withGraph hl _)]
  split
  · rename_i same
    rw [← same, members_of_layer hl]
    rfl
  · rw [List.append_nil]
    rfl

theorem Planted.plant (h : net.Planted records hidden config start)
    (there : ∀ i, r.layer = .hidden i → i < hidden) :
    (net.plant (start + records.length) r).Planted (records ++ [r]) hidden config start := by
  have there : ∀ i, r.layer = .hidden i → i < net.hidden.size := h.size.symm ▸ there
  obtain ⟨l, hl⟩ := layer_of_lt there
  refine ⟨?_, ?_, ?_, fun ref => ?_, fun i r' hr' => ?_, fun id n hn => ?_⟩
  · have planted := (h.sound.addNeuron r.squash r.bias).add (layer_withGraph hl _)
    rwa [List.length_append, List.length_singleton, ← Nat.add_assoc]
  · refine Eq.trans ?_ h.config_eq
    unfold Network.plant
    cases r.layer <;> rfl
  · refine Eq.trans ?_ h.size
    unfold Network.plant
    cases r.layer <;> simp [mapLayer]
  · rw [members_plant there, h.members, Snapshot.planted_append, List.filter_append, List.map_append]
    by_cases same : r.layer = ref <;> simp [same]
  · rw [plant_graph, Graph.addNeuron_get?]
    rw [List.getElem?_append] at hr'
    split at hr'
    · rename_i hi
      rw [if_neg fun e => Nat.ne_of_gt hi (Nat.add_left_cancel e)]
      exact h.traits i r' hr'
    · rename_i hi
      have last : i = records.length := by
        have := (List.getElem?_eq_some_iff.mp hr').1
        simp only [List.length_singleton] at this
        omega
      subst last
      obtain rfl : r = r' := by simpa using hr'
      rw [if_pos rfl]
      exact ⟨_, rfl, rfl, rfl⟩
  · rw [plant_graph] at hn
    rcases Graph.addNeuron_cases hn with ⟨-, rfl⟩ | hn
    · exact Neuron.resting_new _ _
    · exact h.resting id n hn

theorem Planted.active?_plant (h : net.Planted records hidden config start) (r : NeuronRecord)
    (c : ConnectionId) :
    (net.plant (start + records.length) r).graph.active? c = net.graph.active? c := by
  have absent : net.graph.neurons.contains (start + records.length) = false :=
    Bool.eq_false_iff.mpr fun there => Nat.lt_irrefl _ (h.sound.fresh _ there)
  rw [plant_graph, Graph.active?_addNeuron absent]

theorem planted_blank (valid : config.validate = .ok ()) (hidden : Nat) (start : NeuronId) :
    { blank config with hidden := Array.replicate hidden {} }.Planted [] hidden config start where
  sound := (sound_empty valid start).withLayers rfl rfl rfl (by
    simp [ids, idsOf, blank, List.flatMap_replicate])
  config_eq := rfl
  size := by simp
  members ref := by
    cases ref with
    | input => rfl
    | output => rfl
    | hidden i =>
      rw [Network.members, Array.getElem?_replicate]
      split <;> rfl
  traits i r hr := by simp at hr
  resting id n hn := by simp [blank] at hn

/-- All records are planted, and nothing is connected yet. -/
theorem plantEach_ends (there : ∀ r ∈ records, ∀ i, r.layer = .hidden i → i < hidden) :
    Ends (fun s => s.1 = ⟨start⟩ ∧ s.2.Planted [] hidden config start ∧
        ∀ c, s.2.graph.active? c = none)
      (records.mapM fun r => (do
        let id ← addNeuronToGraph r.squash r.bias
        lift (modifyLayer r.layer (·.add id))
        return (id, r.layer) : Growth (NeuronId × LayerRef)))
      (fun made s => made = Snapshot.planted start records ∧ s.1 = ⟨start + records.length⟩ ∧
        s.2.Planted records hidden config start ∧ ∀ c, s.2.graph.active? c = none)
      (fun _ _ => False) := by
  refine (ends_mapM (I := fun before made (s : IdSupply × Network) =>
    made = Snapshot.planted start before ∧ s.1 = ⟨start + before.length⟩ ∧
      s.2.Planted before hidden config start ∧ ∀ c, s.2.graph.active? c = none)
    fun before r later made records_eq => ?_).mono (fun s hs => ⟨rfl, hs⟩) (fun _ _ h => h)
    fun _ _ h => h
  rintro ⟨_, net⟩ ⟨rfl, rfl, planted, inactive⟩
  have there := there r (by simp [records_eq])
  rw [plant_run (planted.size.symm ▸ there)]
  refine ⟨?_, ?_, planted.plant there, fun c => (planted.active?_plant r c).trans (inactive c)⟩
  · rw [Snapshot.planted_append]
  · rw [List.length_append, List.length_singleton, Nat.add_assoc]

end Planting

/-- The network is as the description says, under the ids from `start` on. -/
structure Realizes (s : Snapshot) (config : Config) (start : NeuronId) (net : Network) : Prop extends
    net.Planted s.neurons s.hiddenCount config start where
  active : ∀ c, net.graph.active? c = Snapshot.asked? (start + ·) s.connections c

section Wiring

variable {records : List NeuronRecord} {hidden : Nat} {config : Config} {start : NeuronId}
  {net : Network} {r : ConnectionRecord} {ids : IdSupply}

theorem Planted.contains (h : net.Planted records hidden config start) {i : Nat}
    (hi : i < records.length) : net.graph.neurons.contains (start + i) := by
  obtain ⟨n, hn, -⟩ := h.traits i records[i] (List.getElem?_eq_getElem hi)
  exact Graph.contains_of_get? hn

theorem Planted.offers (h : net.Planted records hidden config start)
    (hr : r.inRange records.length) : net.graph.Offers (start + ·) r := by
  simp only [ConnectionRecord.inRange, Bool.and_eq_true, decide_eq_true_eq, Option.all_eq_true] at hr
  exact ⟨h.contains hr.1.1, h.contains hr.1.2, fun i hi => h.contains (hr.2 i hi)⟩

theorem Planted.withGraph (h : net.Planted records hidden config start) {g : Graph}
    (consistent : g.Consistent)
    (same : ∀ id, g.neurons.contains id = net.graph.neurons.contains id)
    (inherits : net.graph.Inherits g) (random : RandomStream) :
    { net with graph := g, random }.Planted records hidden config start where
  sound := h.sound.withGraph ⟨consistent, SortedMap.keys_eq_of_contains_eq same⟩ random
  config_eq := h.config_eq
  size := h.size
  members := h.members
  traits i r hr := by
    obtain ⟨n, hn, squash_eq, bias_eq⟩ := h.traits i r hr
    obtain ⟨n', hn'⟩ := Graph.get?_of_contains ((same _).trans (Graph.contains_of_get? hn))
    obtain ⟨m, hm, kept⟩ := inherits _ n' hn'
    obtain rfl := Option.some.inj (hn.symm.trans hm)
    exact ⟨n', hn', kept.1.trans squash_eq, kept.2.1.trans bias_eq⟩
  resting id n' hn' := by
    obtain ⟨n, hn, kept⟩ := inherits id n' hn'
    exact kept.2.2 (h.resting id n hn)

theorem Planted.noteWiring (h : net.Planted records hidden config start) {ref : LayerRef} {l : Layer}
    (hl : net.layer ref = .ok l) (target : LayerRef) :
    (net.mapLayer (·.noteWiring target) ref).Planted records hidden config start := by
  have graph_eq : (net.mapLayer (·.noteWiring target) ref).graph = net.graph := by cases ref <;> rfl
  refine ⟨h.sound.noteWiring hl target, ?_, ?_, fun ref' => ?_, graph_eq ▸ h.traits,
    graph_eq ▸ h.resting⟩
  · refine Eq.trans ?_ h.config_eq
    cases ref <;> rfl
  · refine Eq.trans ?_ h.size
    cases ref <;> simp [mapLayer]
  · rw [members_mapLayer hl, ← h.members]
    split
    · rename_i same
      rw [← same, members_of_layer hl]
      unfold Layer.noteWiring
      split <;> rfl
    · rfl

theorem planted_getD {i : Nat} (hi : i < records.length) :
    (Snapshot.planted start records).toArray.getD i default = (start + i, records[i].layer) := by
  simp [Snapshot.planted, hi]

theorem Planted.record (h : net.Planted records hidden config start)
    (there : ∀ r ∈ records, ∀ i, r.layer = .hidden i → i < hidden) (hr : r.inRange records.length) :
    ∃ net', (addRecord (Snapshot.planted start records).toArray r).run net = .ok () net' ∧
      net'.Planted records hidden config start ∧
      net'.graph.active? = (net.graph.recorded (start + ·) r).active? := by
  have offers := h.offers hr
  have consistent := h.sound.consistent
  simp only [ConnectionRecord.inRange, Bool.and_eq_true, decide_eq_true_eq, Option.all_eq_true] at hr
  obtain ⟨⟨hs, ht⟩, hg⟩ := hr
  obtain ⟨l, hl⟩ : ∃ l, net.layer records[r.source].layer = .ok l := layer_of_lt fun i hi =>
    h.size.symm ▸ there records[r.source] (List.getElem_mem hs) i hi
  have source_there : net.graph.neurons.contains (r.between (start + ·)).source := offers.source
  have target_there : net.graph.neurons.contains (r.between (start + ·)).target := offers.target
  have connects : (onGraphAndRandom (Graph.project (start + r.source) (start + r.target)
      (some r.weight) (return r.weight))).run net = .ok (r.between (start + ·))
        { net with graph := net.graph.connected (r.between (start + ·)) r.weight } :=
    onGraphAndRandom_of_ok (Graph.project_run (c := r.between (start + ·)) source_there target_there)
  have recorded := h.withGraph (consistent.recorded offers) (fun id => by simp)
    (Graph.inherits_recorded _ _ r) net.random
  have graph_eq (net : Network) (ref target : LayerRef) :
      (net.mapLayer (·.noteWiring target) ref).graph = net.graph := by cases ref <;> rfl
  refine ⟨_, ?_, recorded.noteWiring (layer_withGraph hl _) records[r.target].layer,
    congrArg Graph.active? (graph_eq _ _ _)⟩
  rw [addRecord, planted_getD hs, planted_getD ht]
  refine (bind_of_ok connects).trans ?_
  unfold Graph.recorded
  cases hi : r.gater with
  | none => exact modifyLayer_of_ok (layer_withGraph hl _) _
  | some i =>
    have connected := consistent.connected (c := r.between (start + ·)) source_there target_there r.weight
    have there : (net.graph.connected (r.between (start + ·)) r.weight).contains
        (r.between (start + ·)) := by
      rw [Graph.contains_connected (c := r.between (start + ·)) source_there]
      simp
    have gates := Graph.gate_run (x := start + i) connected (by simpa using offers.gater i hi) there
    simp only [planted_getD (hg i hi)]
    exact (bind_of_ok (onGraph_of_ok gates)).trans (modifyLayer_of_ok (layer_withGraph hl _) _)

/-- All records are carried out. -/
theorem recordEach_ends {s : Snapshot} (valid : s.validate = .ok ()) :
    Ends (fun t => t.1 = ids ∧ t.2.Planted s.neurons s.hiddenCount config start ∧
        ∀ c, t.2.graph.active? c = none)
      (s.connections.forM fun r => lift (addRecord (Snapshot.planted start s.neurons).toArray r))
      (fun _ t => t.1 = ids ∧ t.2.Realizes s config start) (fun _ _ => False) := by
  refine (ends_forM (I := fun before (t : IdSupply × Network) => t.1 = ids ∧
    t.2.Planted s.neurons s.hiddenCount config start ∧
      ∀ c, t.2.graph.active? c = Snapshot.asked? (start + ·) before c)
    fun before r later records_eq => ?_).mono (fun t ht => ht)
    (fun _ t ht => ⟨ht.1, { ht.2.1 with active := ht.2.2 }⟩) fun _ _ h => h
  rintro ⟨_, net⟩ ⟨rfl, planted, active⟩
  have hr : r.inRange s.neurons.length :=
    Snapshot.validate_eq_ok_iff.mp valid r (by simp [records_eq])
  have gains (c : ConnectionId) (d : Connection) (hd : net.graph.active? c = some d) : d.gain = 1 :=
    Snapshot.gain_of_asked? ((active c).symm.trans hd)
  obtain ⟨net', run_eq, planted', active_eq⟩ :=
    planted.record (fun r hr i hi => Snapshot.lt_hiddenCount hr hi) hr
  rw [lift_of_ok run_eq]
  refine ⟨rfl, planted', fun c => ?_⟩
  rw [active_eq, Graph.active?_recorded planted.sound.consistent (planted.offers hr) gains,
    Snapshot.asked?_append, active]

/-- From settings and a description that are valid a network is made, and it is as the description
says. -/
theorem ofSnapshot_ok {s : Snapshot} (valid : s.validate = .ok ()) (settings : config.validate = .ok ())
    (ids : IdSupply) :
    ∃ net, (ofSnapshot s config).run ids = .ok net ⟨ids.next + s.neurons.length⟩ ∧
      net.Realizes s config ids.next := by
  have builds : Ends (fun t => t = (ids, blank config)) (rebuild s)
      (fun _ t => t.1 = ⟨ids.next + s.neurons.length⟩ ∧ t.2.Realizes s config ids.next)
      (fun _ _ => False) := by
    refine Ends.bind (Q := fun _ t => t.1 = ⟨ids.next⟩ ∧
      t.2.Planted [] s.hiddenCount config ids.next ∧ ∀ c, t.2.graph.active? c = none)
      (ends_modify ?_) fun _ => Ends.bind (plantEach_ends fun r hr i hi =>
        Snapshot.lt_hiddenCount hr hi) fun made => ?_
    · rintro _ rfl
      exact ⟨rfl, planted_blank settings _ _, fun c => by
        simp [Graph.active?, Graph.contains, blank]⟩
    · rintro t ⟨rfl, planted⟩
      exact recordEach_ends valid t planted
  obtain ⟨_, ⟨ids', net⟩, run_eq, rfl, realizes⟩ := (builds _ rfl).exists_ok
  refine ⟨net, ?_, realizes⟩
  rw [ofSnapshot, bind_of_ok (ask_fixed_of_ok valid ids)]
  exact grow_of_ok settings run_eq

end Wiring

end Network

end GatedNetwork
