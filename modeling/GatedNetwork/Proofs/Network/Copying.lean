import Mathlib.Data.List.Basic
import GatedNetwork.Proofs.Graph.Renaming
import GatedNetwork.Proofs.Network.Describing
import GatedNetwork.Proofs.Network.Rebuilding

/-! Copies. The network made from the description of a network lists its neurons in the same order,
under ids that ascend, and its graph is the graph of the other one, cleared, under those ids. -/

namespace GatedNetwork

section Grouping

variable {κ β : Type} {key : β → κ} {f : κ → List β} {ks ks' : List κ}

theorem filter_flatMap_key [DecidableEq κ] (nodup : ks.Nodup) (keyed : ∀ k, ∀ x ∈ f k, key x = k)
    {k : κ} (hk : k ∈ ks) : (ks.flatMap f).filter (key · = k) = f k := by
  have own (k : κ) : (f k).filter (key · = k) = f k :=
    List.filter_eq_self.mpr fun x hx => decide_eq_true (keyed k x hx)
  have other {k k' : κ} (hne : k' ≠ k) : (f k').filter (key · = k) = [] :=
    List.filter_eq_nil_iff.mpr fun x hx same => hne ((keyed k' x hx).symm.trans (of_decide_eq_true same))
  induction ks with
  | nil => nomatch hk
  | cons k₀ ks ih =>
    obtain ⟨fresh, nodup⟩ := List.nodup_cons.mp nodup
    rw [List.flatMap_cons, List.filter_append]
    rcases List.mem_cons.mp hk with rfl | hk
    · have rest : (ks.flatMap f).filter (key · = k) = [] := by
        refine List.filter_eq_nil_iff.mpr fun x hx same => ?_
        obtain ⟨k', hk', hx⟩ := List.mem_flatMap.mp hx
        exact fresh (((keyed k' x hx).symm.trans (of_decide_eq_true same)) ▸ hk')
      rw [own, rest, List.append_nil]
    · have apart : k₀ ≠ k := fun e => fresh (e ▸ hk)
      rw [other apart, List.nil_append, ih nodup hk]

theorem flatMap_of_sublist (h : ks.Sublist ks') (nodup : ks'.Nodup)
    (nothing : ∀ k ∈ ks', k ∉ ks → f k = []) : ks.flatMap f = ks'.flatMap f := by
  induction h with
  | slnil => rfl
  | cons k₀ h ih =>
    obtain ⟨fresh, nodup⟩ := List.nodup_cons.mp nodup
    rw [List.flatMap_cons, nothing k₀ List.mem_cons_self fun hk => fresh (h.subset hk), List.nil_append]
    exact ih nodup fun k hk => nothing k (List.mem_cons_of_mem _ hk)
  | cons_cons k₀ h ih =>
    obtain ⟨fresh, nodup⟩ := List.nodup_cons.mp nodup
    rw [List.flatMap_cons, List.flatMap_cons, ih nodup fun k hk missing => ?_]
    refine nothing k (List.mem_cons_of_mem _ hk) fun hk' => ?_
    rcases List.mem_cons.mp hk' with rfl | hk'
    · exact fresh hk
    · exact missing hk'

end Grouping

namespace Network

section Listing

variable {net : Network} {records : List NeuronRecord} {hidden : Nat} {config : Config}
  {start id : NeuronId} {ref : LayerRef}

theorem mem_neurons_iff : (id, ref) ∈ net.neurons ↔ ref ∈ net.refs ∧ id ∈ net.members ref := by
  simp only [neurons_eq_flatMap, List.mem_flatMap, List.mem_map, Prod.mk.injEq]
  constructor
  · rintro ⟨_, there, _, hid, rfl, rfl⟩
    exact ⟨there, hid⟩
  · rintro ⟨there, hid⟩
    exact ⟨ref, there, id, hid, rfl, rfl⟩

theorem filter_neurons (there : ref ∈ net.refs) :
    net.neurons.filter (·.2 = ref) = (net.members ref).map (·, ref) := by
  rw [neurons_eq_flatMap]
  refine filter_flatMap_key net.nodup_refs (fun ref p hp => ?_) there
  obtain ⟨id, -, rfl⟩ := List.mem_map.mp hp
  rfl

theorem refs_sublist {net' : Network} (le : net.hidden.size ≤ net'.hidden.size) :
    net.refs.Sublist net'.refs :=
  ((List.range_sublist.mpr le).map LayerRef.hidden).cons_cons _ |>.append (List.Sublist.refl _)

/-- Planted neurons are listed by their layers, each in the order of the records. -/
theorem Planted.neurons_eq (h : net.Planted records hidden config start) :
    net.neurons = net.refs.flatMap fun ref => (Snapshot.planted start records).filter (·.2 = ref) := by
  rw [neurons_eq_flatMap]
  congr 1
  funext ref
  rw [h.members, List.map_map]
  refine (List.map_congr_left fun p hp => ?_).trans (List.map_id _)
  have layer_eq : p.2 = ref := of_decide_eq_true (List.mem_filter.mp hp).2
  exact Prod.ext rfl layer_eq.symm

end Listing

/-- The name of a neuron in a copy whose first neuron is `start`. -/
def nameFrom (net : Network) (start : NeuronId) (id : NeuronId) : NeuronId := start + net.place id

section Copies

variable {bound start : NeuronId} {net copy : Network} {config : Config}

theorem Sound.planted_described (sound : net.Sound bound []) (start : NeuronId) :
    Snapshot.planted start net.described.neurons =
      net.neurons.map fun p => (net.nameFrom start p.1, p.2) := by
  refine List.ext_getElem (by simp [Snapshot.planted, described]) fun i h h' => ?_
  have hi : i < net.neurons.length := by simpa using h'
  have place_eq : net.place net.neurons[i].1 = i := by
    have hids : i < net.ids.length := length_ids net ▸ hi
    have same : net.ids[i] = net.neurons[i].1 := by simp [← neurons_ids]
    rw [← same]
    exact sound.place_getElem hids
  simp [Snapshot.planted, described, describedNeuron, nameFrom, place_eq]

/-- A copy lists its neurons as the network does; hidden layers may be missing at the end if they
hold no neuron. -/
theorem Realizes.neurons_map (h : copy.Realizes net.described config start) (sound : net.Sound bound []) :
    copy.neurons = net.neurons.map fun p => (net.nameFrom start p.1, p.2) := by
  have listed {id : NeuronId} {ref : LayerRef} (there : ref ∈ net.refs) (hid : id ∈ net.members ref) :
      net.describedNeuron (id, ref) ∈ net.described.neurons :=
    List.mem_map_of_mem (mem_neurons_iff.mpr ⟨there, hid⟩)
  have fewer : copy.hidden.size ≤ net.hidden.size := by
    rw [h.size, Snapshot.hiddenCount_le_iff]
    intro r hr i hi
    obtain ⟨⟨id, ref⟩, hp, rfl⟩ := List.mem_map.mp hr
    obtain rfl : ref = .hidden i := hi
    simpa [refs] using (mem_neurons_iff.mp hp).1
  have grouped : net.neurons.map (fun p => (net.nameFrom start p.1, p.2)) =
      net.refs.flatMap fun ref => (net.members ref).map fun id => (net.nameFrom start id, ref) := by
    rw [neurons_eq_flatMap, List.map_flatMap]
    simp only [List.map_map, Function.comp_def]
  have sublist := refs_sublist fewer
  rw [h.neurons_eq, sound.planted_described start, grouped, ← flatMap_of_sublist sublist net.nodup_refs]
  · refine List.flatMap_congr fun ref href => ?_
    refine filter_flatMap_key copy.nodup_refs (fun ref p hp => ?_) href
    obtain ⟨id, -, rfl⟩ := List.mem_map.mp hp
    rfl
  · intro ref there missing
    refine List.map_eq_nil_iff.mpr (List.eq_nil_iff_forall_not_mem.mpr fun id hid => missing ?_)
    cases ref with
    | input => simp [refs]
    | output => simp [refs]
    | hidden i =>
      have lt := Snapshot.lt_hiddenCount (listed there hid) (i := i) rfl
      rw [← h.size] at lt
      simp [refs, lt]

theorem Sound.nameFrom_injective (sound : net.Sound bound []) {a b : NeuronId}
    (ha : net.graph.neurons.contains a) (same : net.nameFrom start a = net.nameFrom start b) : a = b :=
  sound.place_injective ha (Nat.add_left_cancel same)

theorem Sound.rename_injective (sound : net.Sound bound []) {c c' : ConnectionId}
    (hc : net.graph.contains c) (same : c.rename (net.nameFrom start) = c'.rename (net.nameFrom start)) :
    c = c' := by
  obtain ⟨hs, ht⟩ := sound.consistent.toLinked.ends_of_contains hc
  have source_eq := sound.nameFrom_injective hs (congrArg ConnectionId.source same)
  have target_eq := sound.nameFrom_injective ht (congrArg ConnectionId.target same)
  exact ConnectionId.eq_of_ends source_eq target_eq

theorem Sound.nodup_renamed (sound : net.Sound bound []) (start : NeuronId) :
    (net.connections.map (·.rename (net.nameFrom start))).Nodup :=
  (nodup_connections sound).map_on fun c hc _ _ same =>
    sound.rename_injective ((mem_connections_iff sound c).mp hc) same

theorem between_describedConnection (net : Network) (start : NeuronId) (c : ConnectionId) :
    (net.describedConnection c).between (start + ·) = c.rename (net.nameFrom start) := rfl

theorem Sound.asked?_described (sound : net.Sound bound []) {c : ConnectionId} {d : Connection}
    (hd : net.graph.active? c = some d) :
    Snapshot.asked? (start + ·) net.described.connections (c.rename (net.nameFrom start)) =
      some (d.clear.rename (net.nameFrom start)) := by
  obtain ⟨hc, found⟩ := Graph.active?_eq_some_iff.mp hd
  have nodup : (net.described.connections.map (·.between (start + ·))).Nodup := by
    rw [described, List.map_map]
    exact sound.nodup_renamed start
  have listed : net.describedConnection c ∈ net.described.connections :=
    List.mem_map_of_mem ((mem_connections_iff sound c).mpr hc)
  have asked := Snapshot.asked?_of_unique nodup listed
  rw [between_describedConnection] at asked
  rw [asked]
  have gain_eq := sound.consistent.clear_gain found
  simp only [describedConnection, found, Option.getD_some, Connection.rename, gain_eq,
    Graph.Connection.clear_weight, Graph.Connection.clear_gater, Option.map_map]
  rfl

theorem Realizes.ids_eq (h : copy.Realizes net.described config start) (sound : net.Sound bound []) :
    copy.ids = net.ids.map (net.nameFrom start) := by
  rw [← neurons_ids, h.neurons_map sound, ← neurons_ids, List.map_map, List.map_map]
  rfl

theorem Realizes.contains_iff (h : copy.Realizes net.described config start)
    (sound : net.Sound bound []) {id' : NeuronId} :
    copy.graph.neurons.contains id' ↔ ∃ id, net.graph.neurons.contains id ∧ net.nameFrom start id = id' := by
  rw [← h.sound.mem_ids, h.ids_eq sound]
  simp only [List.mem_map, sound.mem_ids]

theorem Realizes.matches (h : copy.Realizes net.described config start) (sound : net.Sound bound []) :
    Graph.Matches (net.nameFrom start) net.graph.clear copy.graph where
  injective a b ha _ same := sound.nameFrom_injective (by simpa using ha) same
  neurons := {
    entry id n hn := by
      rw [Graph.clear_get?] at hn
      obtain ⟨m, hm, rfl⟩ := Option.map_eq_some_iff.mp hn
      obtain ⟨ref, href⟩ := sound.getElem?_place (Graph.contains_of_get? hm)
      obtain ⟨n', hn', squash_eq, bias_eq⟩ := h.traits (net.place id) (net.describedNeuron (id, ref))
        (by simp [described, href])
      refine ⟨n', hn', squash_eq.trans ?_, bias_eq.trans ?_⟩
      · simp [describedNeuron, hm, Neuron.clear]
      · simp [describedNeuron, hm, Neuron.clear]
    covered id' hid' := by
      obtain ⟨id, hid, rfl⟩ := (h.contains_iff sound).mp hid'
      exact ⟨id, by simpa using hid, rfl⟩ }
  active c d hd := by
    rw [Graph.active?_clear] at hd
    obtain ⟨e, he, rfl⟩ := Option.map_eq_some_iff.mp hd
    rw [h.active, sound.asked?_described he]
  covered c' hc' := by
    rw [← Graph.isSome_active?, h.active, Snapshot.asked?_isSome_iff] at hc'
    obtain ⟨r, hr, rfl⟩ := hc'
    obtain ⟨c, hc, rfl⟩ := List.mem_map.mp hr
    exact ⟨c, by rw [Graph.contains_clear]; exact (mem_connections_iff sound c).mp hc, rfl⟩

theorem Realizes.graph_resting {s : Snapshot} (h : copy.Realizes s config start) : copy.graph.Resting :=
  h.sound.consistent.resting h.resting fun c _ hd => Snapshot.gain_of_asked? ((h.active c).symm.trans hd)

/-- The graph of a copy is the graph of the network, cleared, under the names of the copy. -/
theorem Realizes.renames (h : copy.Realizes net.described config start) (sound : net.Sound bound []) :
    Graph.Renames (net.nameFrom start) net.graph.clear copy.graph :=
  (h.matches sound).renames sound.consistent.clear h.sound.consistent sound.consistent.resting_clear
    h.graph_resting

theorem StandsFor.copy_ok {bare : Network} (stands : bare.StandsFor net) (sound : bare.Sound bound [])
    (ids : IdSupply) :
    ∃ copy, net.copy.run ids = .ok copy ⟨ids.next + bare.neurons.length⟩ ∧
      copy.Realizes bare.described bare.config ids.next := by
  obtain ⟨copy, run_eq, realizes⟩ := ofSnapshot_ok sound.validate_described sound.valid ids
  refine ⟨copy, ?_, realizes⟩
  have described_eq : net.toSnapshot = .ok bare.described :=
    (stands.toSnapshot_eq sound).trans sound.toSnapshot_eq
  rw [Network.copy, bind_of_ok (ask_fixed_of_ok described_eq ids), stands.config_eq]
  exact run_eq.trans (by simp [described])

end Copies

end Network

end GatedNetwork
