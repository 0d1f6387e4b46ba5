import Mathlib.Data.Finset.Card
import GatedNetwork.Proofs.Network.Merging

/-! What becomes of the connections when two networks are glued together. The outputs of the first are
the inputs of the second, so a connection between two outputs and one between the inputs at the same
places become one; the record of the second network comes later and counts for more. -/

namespace GatedNetwork

/-- The connections run between the same places of two lists of neurons. -/
def ConnectionId.Parallel (xs ys : List NeuronId) (a b : ConnectionId) : Prop :=
  ∃ i j : Nat, xs[i]? = some a.source ∧ xs[j]? = some a.target ∧
    ys[i]? = some b.source ∧ ys[j]? = some b.target

/-- The connection is in the other graph under its new name, with its own weight and its own gater. -/
def Graph.Carries (f : NeuronId → NeuronId) (g g' : Graph) (c : ConnectionId) : Prop :=
  ∃ d d', g.active? c = some d ∧ g'.active? (c.rename f) = some d' ∧ d'.weight = d.weight ∧
    d'.gater = d.gater.map f

/-- The weight of the connection is that of the other graph, and so is its gater if it has one. -/
def Graph.Dominates (f : NeuronId → NeuronId) (g g' : Graph) (c : ConnectionId) : Prop :=
  ∃ d d', g.active? c = some d ∧ g'.active? (c.rename f) = some d' ∧ d'.weight = d.weight ∧
    (d.gater.isSome → d'.gater = d.gater.map f)

theorem Connection.isSome_overlay (later earlier : Option Connection) :
    (overlay later earlier).isSome ↔ later.isSome ∨ earlier.isSome := by
  cases later <;> simp [overlay]

theorem Connection.overlay_none (later : Option Connection) : overlay later none = later := by
  cases later <;> simp [overlay]

namespace Network

section Names

variable {bound start : NeuronId} {net : Network} {c : ConnectionId}

theorem Sound.ids_named (sound : net.Sound bound []) (start : NeuronId) :
    net.ids.map (net.nameFrom start) = List.range' start net.ids.length := by
  refine List.ext_getElem (by simp) fun i h _ => ?_
  have hi : i < net.ids.length := by simpa using h
  simp [nameFrom, sound.place_getElem hi]

theorem Sound.layers_named (sound : net.Sound bound []) (start : NeuronId) :
    net.input.neurons.map (net.nameFrom start) = List.range' start net.input.size ∧
    net.workerIds.map (net.nameFrom start) =
      List.range' (start + net.input.size) (net.ids.length - net.input.size) ∧
    net.output.neurons.map (net.nameFrom start) =
      List.range' (start + (net.ids.length - net.output.size)) net.output.size := by
  have ids := sound.ids_named start
  have lengths := congrArg List.length net.ids_eq
  rw [Network.ids_eq, List.map_append] at ids
  obtain ⟨inputs, later⟩ := range'_split ids
  rw [workerIds, List.map_append, ← List.append_assoc] at ids
  obtain ⟨-, outputs⟩ := range'_split ids
  simp only [workerIds, List.length_append, List.length_map] at inputs later outputs lengths
  have later_length : net.ids.length - net.input.size =
      (net.hidden.toList.flatMap (·.neurons)).length + net.output.neurons.length := by
    rw [Layer.size]
    omega
  have front_length : net.ids.length - net.output.size =
      net.input.neurons.length + (net.hidden.toList.flatMap (·.neurons)).length := by
    rw [Layer.size]
    omega
  rw [later_length, front_length]
  exact ⟨inputs, later, outputs⟩

theorem isSome_asked?_described (net : Network) (start : NeuronId) (c : ConnectionId) :
    (Snapshot.asked? (start + ·) net.described.connections c).isSome ↔
      ∃ a ∈ net.connections, a.rename (net.nameFrom start) = c := by
  rw [Snapshot.asked?_isSome_iff]
  constructor
  · rintro ⟨r, hr, rfl⟩
    obtain ⟨a, ha, rfl⟩ := List.mem_map.mp hr
    exact ⟨a, ha, rfl⟩
  · rintro ⟨a, ha, rfl⟩
    exact ⟨_, List.mem_map_of_mem ha, rfl⟩

theorem Sound.asked?_own (sound : net.Sound bound []) (start : NeuronId) (hc : c ∈ net.connections) :
    ∃ d d', net.graph.active? c = some d ∧
      Snapshot.asked? (start + ·) net.described.connections (c.rename (net.nameFrom start)) = some d' ∧
      d'.weight = d.weight ∧ d'.gater = d.gater.map (net.nameFrom start) := by
  have active : (net.graph.active? c).isSome := by
    rw [Graph.isSome_active?]
    exact (mem_connections_iff sound c).mp hc
  obtain ⟨d, hd⟩ := Option.isSome_iff_exists.mp active
  refine ⟨d, _, hd, sound.asked?_described hd, ?_, ?_⟩
  · simp [Connection.rename]
  · simp [Connection.rename]

end Names

section Gluing

variable {bound₁ bound₂ start : NeuronId} {first second merged : Network} {config : Config}
  {a b c : ConnectionId} {x y : NeuronId}

/-- No connection between two outputs of the first network runs as one between two inputs of the
second does. -/
def Apart (first second : Network) : Prop := ∀ a ∈ first.connections, ∀ b ∈ second.connections,
  ¬ ConnectionId.Parallel first.output.neurons second.input.neurons a b

def seam (first second : Network) : Nat := first.described.offset second.described

/-- The merged network is made from what two sound networks describe that fit. -/
structure Glued (config : Config) (bound₁ bound₂ start : NeuronId) (first second merged : Network) :
    Prop where
  first_sound : first.Sound bound₁ []
  second_sound : second.Sound bound₂ []
  sizes : first.output.size = second.input.size
  realizes : merged.Realizes (first.described.chain second.described first.hidden.size) config start

variable (h : Glued config bound₁ bound₂ start first second merged)

include h

theorem Glued.adjoins : first.described.Adjoins second.described first.hidden.size :=
  h.first_sound.adjoins_described h.second_sound h.sizes

theorem Glued.seam_add : first.seam second + second.input.size = first.ids.length := by
  have inputs : second.described.count .input = second.input.size := count_described (by simp [refs])
  have offset_eq := h.adjoins.offset_add
  rwa [inputs, described, List.length_map, ← length_ids] at offset_eq

theorem Glued.named_alike :
    second.input.neurons.map (second.nameFrom (start + first.seam second)) =
      first.output.neurons.map (first.nameFrom start) := by
  have seam_eq := h.seam_add
  have place_eq : first.ids.length - second.input.size = first.seam second := by omega
  rw [(h.second_sound.layers_named _).1, (h.first_sound.layers_named start).2.2, h.sizes, place_eq]

theorem Glued.ids_eq : merged.ids = first.ids.map (first.nameFrom start) ++
    second.workerIds.map (second.nameFrom (start + first.seam second)) := by
  have seam_eq := h.seam_add
  have lengths := congrArg List.length second.ids_eq
  rw [List.length_append] at lengths
  have inputs_le : second.input.size ≤ second.ids.length := by
    rw [Layer.size]
    omega
  have whole : merged.ids = List.range' start (first.seam second + second.ids.length) := by
    rw [h.realizes.ids_planted h.adjoins.arranged_chain, h.adjoins.length_chain,
      List.range'_eq_map_range, length_ids]
    simp [seam, described]
  have split : first.seam second + second.ids.length =
      first.ids.length + (second.ids.length - second.input.size) := by omega
  rw [whole, h.first_sound.ids_named, (h.second_sound.layers_named _).2.1, split,
    Nat.add_assoc start, seam_eq, List.range'_append_1]

/-- Two neurons get one name only where an input meets an output. -/
theorem Glued.same_name_iff (hx : x ∈ first.ids) (hy : y ∈ second.ids) :
    first.nameFrom start x = second.nameFrom (start + first.seam second) y ↔
      ∃ i : Nat, first.output.neurons[i]? = some x ∧ second.input.neurons[i]? = some y := by
  have alike := h.named_alike
  constructor
  · intro same
    have nodup := h.realizes.sound.nodup_ids
    rw [h.ids_eq] at nodup
    rcases List.mem_append.mp (second.ids_eq ▸ hy) with input | worker
    · obtain ⟨i, hi⟩ := List.getElem?_of_mem input
      have found := congrArg (·[i]?) alike
      simp only [List.getElem?_map, hi, Option.map_some] at found
      obtain ⟨x', hx', same'⟩ := Option.map_eq_some_iff.mp found.symm
      have there : first.graph.neurons.contains x := (h.first_sound.mem_ids x).mp hx
      obtain rfl := h.first_sound.nameFrom_injective there (same.trans same'.symm)
      exact ⟨i, hx', hi⟩
    · refine absurd same ((List.nodup_append.mp nodup).2.2 _ (List.mem_map_of_mem hx) _ ?_)
      exact List.mem_map_of_mem worker
  · rintro ⟨i, hx', hy'⟩
    have found := congrArg (·[i]?) alike
    simp only [List.getElem?_map, hx', hy', Option.map_some, Option.some.injEq] at found
    exact found.symm

theorem Glued.parallel_iff (ha : a ∈ first.connections) (hb : b ∈ second.connections) :
    a.rename (first.nameFrom start) = b.rename (second.nameFrom (start + first.seam second)) ↔
      ConnectionId.Parallel first.output.neurons second.input.neurons a b := by
  have there₁ := (mem_connections_iff h.first_sound a).mp ha
  have there₂ := (mem_connections_iff h.second_sound b).mp hb
  obtain ⟨as, at'⟩ := h.first_sound.consistent.toLinked.ends_of_contains there₁
  obtain ⟨bs, bt⟩ := h.second_sound.consistent.toLinked.ends_of_contains there₂
  rw [← h.first_sound.mem_ids] at as at'
  rw [← h.second_sound.mem_ids] at bs bt
  have sources := h.same_name_iff as bs
  have targets := h.same_name_iff at' bt
  constructor
  · intro same
    obtain ⟨i, as, bs⟩ := sources.mp (congrArg ConnectionId.source same)
    obtain ⟨j, at', bt⟩ := targets.mp (congrArg ConnectionId.target same)
    exact ⟨i, j, as, at', bs, bt⟩
  · rintro ⟨i, j, as, at', bs, bt⟩
    exact ConnectionId.eq_of_ends (sources.mpr ⟨i, as, bs⟩) (targets.mpr ⟨j, at', bt⟩)

theorem Glued.active?_eq (c : ConnectionId) : merged.graph.active? c = Connection.overlay
    (Snapshot.asked? (start + first.seam second + ·) second.described.connections c)
    (Snapshot.asked? (start + ·) first.described.connections c) := by
  have place_eq : (fun i => start + (first.described.offset second.described + i)) =
      (start + first.seam second + ·) := by
    funext i
    rw [seam, Nat.add_assoc]
  rw [h.realizes.active, h.adjoins.chain_connections, Snapshot.asked?_overlay,
    Snapshot.asked?_shift, place_eq]

theorem Glued.listed_iff (c : ConnectionId) : c ∈ merged.connections ↔
    (∃ a ∈ first.connections, a.rename (first.nameFrom start) = c) ∨
      ∃ b ∈ second.connections, b.rename (second.nameFrom (start + first.seam second)) = c := by
  rw [mem_connections_iff h.realizes.sound, ← Graph.isSome_active?, h.active?_eq,
    Connection.isSome_overlay, isSome_asked?_described first, isSome_asked?_described second, or_comm]

/-- What no connection of the second network meets is carried over. -/
theorem Glued.carries_first (ha : a ∈ first.connections) (alone : ∀ b ∈ second.connections,
      ¬ ConnectionId.Parallel first.output.neurons second.input.neurons a b) :
    first.graph.Carries (first.nameFrom start) merged.graph a := by
  obtain ⟨d, d', hd, asked, weight_eq, gater_eq⟩ := h.first_sound.asked?_own start ha
  have none_later : Snapshot.asked? (start + first.seam second + ·) second.described.connections
      (a.rename (first.nameFrom start)) = none := by
    rw [← Option.not_isSome_iff_eq_none, isSome_asked?_described second]
    rintro ⟨b, hb, same⟩
    exact alone b hb ((h.parallel_iff ha hb).mp same.symm)
  refine ⟨d, d', hd, ?_, weight_eq, gater_eq⟩
  rw [h.active?_eq, none_later, asked, Connection.overlay]

theorem Glued.carries_second (hb : b ∈ second.connections) (alone : ∀ a ∈ first.connections,
      ¬ ConnectionId.Parallel first.output.neurons second.input.neurons a b) :
    second.graph.Carries (second.nameFrom (start + first.seam second)) merged.graph b := by
  obtain ⟨d, d', hd, asked, weight_eq, gater_eq⟩ :=
    h.second_sound.asked?_own (start + first.seam second) hb
  have none_earlier : Snapshot.asked? (start + ·) first.described.connections
      (b.rename (second.nameFrom (start + first.seam second))) = none := by
    rw [← Option.not_isSome_iff_eq_none, isSome_asked?_described first]
    rintro ⟨a, ha, same⟩
    exact alone a ha ((h.parallel_iff ha hb).mp same)
  refine ⟨d, d', hd, ?_, weight_eq, gater_eq⟩
  rw [h.active?_eq, none_earlier, asked, Connection.overlay_none]

/-- Whatever they meet, the weights of the second network and its gaters are there. -/
theorem Glued.dominates_second (hb : b ∈ second.connections) :
    second.graph.Dominates (second.nameFrom (start + first.seam second)) merged.graph b := by
  obtain ⟨d, d', hd, asked, weight_eq, gater_eq⟩ :=
    h.second_sound.asked?_own (start + first.seam second) hb
  have found := h.active?_eq (b.rename (second.nameFrom (start + first.seam second)))
  rw [asked, Connection.overlay] at found
  refine ⟨d, _, hd, found, weight_eq, fun gated => ?_⟩
  obtain ⟨x, hx⟩ := Option.isSome_iff_exists.mp gated
  simp [gater_eq, hx]

/-- The merged network has the connections of both exactly if no two of them meet. -/
theorem Glued.length_eq_iff :
    merged.connections.length = first.connections.length + second.connections.length ↔
      first.Apart second := by
  let firsts := first.connections.map (·.rename (first.nameFrom start))
  let seconds := second.connections.map (·.rename (second.nameFrom (start + first.seam second)))
  have nodup₁ : firsts.Nodup := h.first_sound.nodup_renamed start
  have nodup₂ : seconds.Nodup := h.second_sound.nodup_renamed (start + first.seam second)
  have union_eq : merged.connections.toFinset = firsts.toFinset ∪ seconds.toFinset := by
    ext c
    simp [firsts, seconds, h.listed_iff]
  have lengths : merged.connections.length = first.connections.length + second.connections.length ↔
      (firsts.toFinset ∪ seconds.toFinset).card = firsts.toFinset.card + seconds.toFinset.card := by
    rw [← union_eq, List.toFinset_card_of_nodup (nodup_connections h.realizes.sound),
      List.toFinset_card_of_nodup nodup₁, List.toFinset_card_of_nodup nodup₂, List.length_map,
      List.length_map]
  rw [lengths, Finset.card_union_eq_card_add_card, List.disjoint_toFinset_iff_disjoint]
  constructor
  · intro disjoint a ha b hb parallel
    have same := (h.parallel_iff ha hb).mpr parallel
    exact disjoint (List.mem_map_of_mem ha) (same ▸ List.mem_map_of_mem hb)
  · intro apart c h₁ h₂
    obtain ⟨a, ha, rfl⟩ := List.mem_map.mp h₁
    obtain ⟨b, hb, same⟩ := List.mem_map.mp h₂
    exact apart a ha b hb ((h.parallel_iff ha hb).mp same.symm)

/-- Nothing is lost exactly if the two networks are apart. -/
theorem Glued.loses_nothing_iff :
    merged.connections.length = first.connections.length + second.connections.length ∧
      (∀ a ∈ first.connections, first.graph.Carries (first.nameFrom start) merged.graph a) ∧
      (∀ b ∈ second.connections,
        second.graph.Carries (second.nameFrom (start + first.seam second)) merged.graph b) ↔
    first.Apart second := by
  constructor
  · rintro ⟨length_eq, -⟩
    exact h.length_eq_iff.mp length_eq
  · intro apart
    refine ⟨h.length_eq_iff.mpr apart, fun a ha => ?_, fun b hb => ?_⟩
    · exact h.carries_first ha (apart a ha)
    · exact h.carries_second hb fun a ha => apart a ha b hb

end Gluing

end Network

end GatedNetwork
