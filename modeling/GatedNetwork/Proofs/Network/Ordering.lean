import GatedNetwork.Proofs.Network.Copying

/-! The order of connection records. Where ids ascend along the list of neurons, as they do in a
copy, records are in the one order that places alone determine; elsewhere a description has the same
records in another order. -/

namespace GatedNetwork

theorem ConnectionId.target_lt_of_compare {a b : ConnectionId} (h : compare a b = .lt)
    (same : a.source = b.source) : a.target < b.target := by
  have h : (compare a.source b.source).then (compare a.target b.target) = .lt := h
  rw [same, Nat.compare_eq_eq.mpr rfl] at h
  exact Nat.compare_eq_lt.mp h

namespace Network

section Ascending

variable {bound start : NeuronId} {net copy : Network} {config : Config}

theorem Sound.place_lt_place (sound : net.Sound bound []) (ascending : net.ids.Pairwise (· < ·))
    {a b : NeuronId} (ha : net.graph.neurons.contains a) (hb : net.graph.neurons.contains b)
    (lt : a < b) : net.place a < net.place b := by
  have ha := (sound.mem_ids a).mpr ha
  have hb := (sound.mem_ids b).mpr hb
  rcases Nat.lt_trichotomy (net.place a) (net.place b) with before | same | after
  · exact before
  · exact absurd ((List.idxOf_inj ha).mp same) (Nat.ne_of_lt lt)
  · have gt := List.pairwise_iff_getElem.mp ascending _ _ (List.idxOf_lt_length_of_mem hb)
      (List.idxOf_lt_length_of_mem ha) after
    rw [List.getElem_idxOf, List.getElem_idxOf] at gt
    exact absurd gt (Nat.lt_asymm lt)

theorem describedConnection_source (net : Network) (c : ConnectionId) :
    (net.describedConnection c).source = net.place c.source := rfl

theorem Sound.pairwise_leaving (sound : net.Sound bound []) (ascending : net.ids.Pairwise (· < ·))
    (id : NeuronId) :
    (net.graph.leaving id).Pairwise fun c c' =>
      (net.describedConnection c).Precedes (net.describedConnection c') := by
  have linked := sound.consistent.toLinked
  unfold Graph.leaving
  cases hn : net.graph.neurons.get? id with
  | none => exact .nil
  | some n =>
    have regular {c : ConnectionId} (hc : c ∈ n.projected.toList) : c.source = id ∧
        net.graph.neurons.contains c.target ∧ net.place c.target ≠ net.place c.source := by
      obtain ⟨self_eq, source_eq, -, t, ht⟩ := linked.projection hn (SortedSet.mem_toList_iff.mp hc)
      have there := Graph.contains_of_get? ht
      refine ⟨source_eq, there, fun same => ?_⟩
      have ends_eq : c.target = c.source := sound.place_injective there same
      simp [ConnectionId.isSelf, ends_eq] at self_eq
    refine List.pairwise_append.mpr ⟨?_, by split <;> simp, fun c hc c' hc' => ?_⟩
    · refine n.projected.pairwise_toList.imp_of_mem fun {c c'} hc hc' lt => ?_
      obtain ⟨source_eq, target_there, apart⟩ := regular hc
      obtain ⟨source_eq', target_there', -⟩ := regular hc'
      have target_lt := ConnectionId.target_lt_of_compare lt (source_eq.trans source_eq'.symm)
      refine .inr ⟨?_, apart, .inr (sound.place_lt_place ascending target_there target_there' target_lt)⟩
      rw [describedConnection_source, describedConnection_source, source_eq, source_eq']
    · obtain ⟨source_eq, -, apart⟩ := regular hc
      split at hc'
      · obtain rfl := List.mem_singleton.mp hc'
        refine .inr ⟨?_, apart, .inl rfl⟩
        rw [describedConnection_source, describedConnection_source, source_eq]
        rfl
      · cases hc'

theorem Sound.ordered_described (sound : net.Sound bound []) (ascending : net.ids.Pairwise (· < ·)) :
    net.described.Ordered := by
  have linked := sound.consistent.toLinked
  rw [Snapshot.Ordered, described, List.pairwise_map, connections_eq_flatMap, List.pairwise_flatMap]
  refine ⟨fun id _ => sound.pairwise_leaving ascending id, ascending.imp_of_mem ?_⟩
  intro a b ha hb lt c hc c' hc'
  obtain ⟨rfl, -⟩ := (Graph.mem_leaving_iff linked).mp hc
  obtain ⟨rfl, -⟩ := (Graph.mem_leaving_iff linked).mp hc'
  exact .inl (sound.place_lt_place ascending ((sound.mem_ids _).mp ha) ((sound.mem_ids _).mp hb) lt)

end Ascending

section Copies

variable {bound start : NeuronId} {net copy : Network} {config : Config}

theorem Realizes.place_eq (h : copy.Realizes net.described config start) (sound : net.Sound bound [])
    {id : NeuronId} (hid : net.graph.neurons.contains id) :
    copy.place (net.nameFrom start id) = net.place id := by
  have hlt : net.place id < net.ids.length :=
    List.idxOf_lt_length_of_mem ((sound.mem_ids id).mpr hid)
  have listed : net.ids[net.place id] = id := List.getElem_idxOf hlt
  have hlt' : net.place id < copy.ids.length := by simpa [h.ids_eq sound] using hlt
  have named : copy.ids[net.place id] = net.nameFrom start id := by
    simp only [h.ids_eq sound, List.getElem_map, listed]
  rw [← named]
  exact h.sound.place_getElem hlt'

/-- The ids of a copy ascend. -/
theorem Realizes.ascending (h : copy.Realizes net.described config start) (sound : net.Sound bound []) :
    copy.ids.Pairwise (· < ·) := by
  rw [h.ids_eq sound, List.pairwise_map, List.pairwise_iff_getElem]
  intro i j hi hj lt
  rw [nameFrom, nameFrom, sound.place_getElem hi, sound.place_getElem hj]
  exact Nat.add_lt_add_left lt start

theorem Realizes.describedNeuron_eq (h : copy.Realizes net.described config start)
    (sound : net.Sound bound []) {p : NeuronId × LayerRef} (hp : p ∈ net.neurons) :
    copy.describedNeuron (net.nameFrom start p.1, p.2) = net.describedNeuron p := by
  have hid : net.graph.neurons.contains p.1 := by
    rw [← sound.mem_ids, ← neurons_ids]
    exact List.mem_map_of_mem hp
  obtain ⟨n, hn⟩ := Graph.get?_of_contains hid
  have hn_clear : net.graph.clear.neurons.get? p.1 =
      some { n.clear with selfConnection := n.selfConnection.clear } := by simp [Graph.clear_get?, hn]
  obtain ⟨n', hn', squash_eq, bias_eq⟩ := (h.matches sound).neurons.entry _ _ hn_clear
  simp [describedNeuron, hn, hn', squash_eq, bias_eq, Neuron.clear]

theorem Realizes.describedConnection_eq (h : copy.Realizes net.described config start)
    (sound : net.Sound bound []) {c : ConnectionId} (hc : net.graph.contains c) :
    copy.describedConnection (c.rename (net.nameFrom start)) = net.describedConnection c := by
  have linked := sound.consistent.toLinked
  obtain ⟨d, hd⟩ := Option.isSome_iff_exists.mp ((Graph.isSome_active? net.graph c).trans hc)
  obtain ⟨-, found⟩ := Graph.active?_eq_some_iff.mp hd
  obtain ⟨hs, ht⟩ := linked.ends found
  have renamed : copy.graph.active? (c.rename (net.nameFrom start)) =
      some (d.clear.rename (net.nameFrom start)) := by rw [h.active, sound.asked?_described hd]
  have gater_eq : (d.gater.map (net.nameFrom start)).map copy.place = d.gater.map net.place := by
    cases hg : d.gater with
    | none => rfl
    | some x =>
      simp [h.place_eq sound (linked.gater_contains found hg)]
  simp only [describedConnection, (Graph.active?_eq_some_iff.mp renamed).2, found, Option.getD_some,
    Connection.rename, Graph.Connection.clear_gater, Graph.Connection.clear_weight, gater_eq,
    ConnectionRecord.mk.injEq]
  exact ⟨h.place_eq sound hs, h.place_eq sound ht, trivial, trivial⟩

/-- A copy has the neuron records of the network and the same connection records in some order. -/
theorem Realizes.described_perm (h : copy.Realizes net.described config start)
    (sound : net.Sound bound []) :
    copy.described.neurons = net.described.neurons ∧
      copy.described.connections.Perm net.described.connections := by
  constructor
  · rw [described, described, h.neurons_map sound, List.map_map]
    exact List.map_congr_left fun p hp => h.describedNeuron_eq sound hp
  · have renamed := sound.nodup_renamed start
    have perm : copy.connections.Perm (net.connections.map (ConnectionId.rename (net.nameFrom start))) := by
      refine (List.perm_ext_iff_of_nodup (nodup_connections h.sound) renamed).mpr fun c' => ?_
      rw [mem_connections_iff h.sound, List.mem_map]
      simp only [mem_connections_iff sound]
      constructor
      · intro hc'
        obtain ⟨c, hc, rfl⟩ := (h.matches sound).covered c' hc'
        exact ⟨c, by rwa [Graph.contains_clear] at hc, rfl⟩
      · rintro ⟨c, hc, rfl⟩
        exact (h.matches sound).contains_rename (by rwa [Graph.contains_clear])
    have described_eq : (net.connections.map (ConnectionId.rename (net.nameFrom start))).map
        copy.describedConnection = net.connections.map net.describedConnection := by
      rw [List.map_map]
      exact List.map_congr_left fun c hc =>
        h.describedConnection_eq sound ((mem_connections_iff sound c).mp hc)
    rw [described, described]
    exact described_eq ▸ perm.map copy.describedConnection

end Copies

end Network

end GatedNetwork
