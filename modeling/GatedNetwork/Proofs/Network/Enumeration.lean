import Mathlib.Data.List.Nodup
import GatedNetwork.Proofs.Graph.Active
import GatedNetwork.Proofs.Network.Standing

/-! The neurons and the connections of a network in the order in which they are listed: layer by
layer, and for each neuron what it projects and then its self-connection. -/

namespace GatedNetwork

namespace Graph

/-- The connections that leave a neuron, its self-connection last. -/
def leaving (g : Graph) (id : NeuronId) : List ConnectionId :=
  match g.neurons.get? id with
  | some n => n.projected.toList ++ if n.selfConnected then [.loop id] else []
  | none => []

section Leaving

variable {g : Graph} {id : NeuronId} {c : ConnectionId}

theorem mem_leaving_iff (h : g.Linked) : c ∈ g.leaving id ↔ c.source = id ∧ g.contains c := by
  unfold leaving
  cases hn : g.neurons.get? id with
  | none =>
    refine iff_of_false List.not_mem_nil ?_
    rintro ⟨rfl, hc⟩
    obtain ⟨d, hd⟩ := Option.isSome_iff_exists.mp (connection?_isSome_of_contains hc)
    have source := (h.ends hd).1
    simp [SortedMap.contains_eq_isSome, hn] at source
  | some n =>
    simp only [List.mem_append, SortedSet.mem_toList_iff, h.projected_iff id n hn]
    cases hself : c.isSelf with
    | true =>
      have absent : ¬ g.connections.contains c := fun hc => by simp [(h.joined c hc).1] at hself
      have loop_iff : c = .loop id ↔ c.source = id :=
        ⟨fun e => by rw [e]; rfl, fun e => e ▸ eq_loop_of_isSelf hself⟩
      rw [contains, if_pos hself]
      constructor
      · rintro (⟨-, hc⟩ | hc)
        · exact absurd hc absent
        · split at hc
          · rename_i enabled
            obtain rfl := loop_iff.mp (List.mem_singleton.mp hc)
            simp [hn, enabled]
          · exact absurd hc List.not_mem_nil
      · rintro ⟨rfl, hc⟩
        have enabled : n.selfConnected := by simpa [hn] using hc
        exact .inr (by simp [enabled, ← eq_loop_of_isSelf hself])
    | false =>
      rw [contains_of_not_isSelf hself]
      refine or_iff_left fun hc => ?_
      split at hc
      · rw [List.mem_singleton.mp hc, isSelf_loop] at hself
        nomatch hself
      · exact List.not_mem_nil hc

theorem nodup_leaving (h : g.Linked) (id : NeuronId) : (g.leaving id).Nodup := by
  unfold leaving
  cases hn : g.neurons.get? id with
  | none => exact List.nodup_nil
  | some n =>
    refine List.nodup_append.mpr ⟨n.projected.nodup_toList, by split <;> simp, ?_⟩
    rintro c hc _ hloop rfl
    have regular := (h.projection hn (SortedSet.mem_toList_iff.mp hc)).1
    split at hloop
    · simp [List.mem_singleton.mp hloop] at regular
    · exact List.not_mem_nil hloop

end Leaving

end Graph

namespace Network

def refs (net : Network) : List LayerRef :=
  .input :: (List.range net.hidden.size).map .hidden ++ [.output]

def members (net : Network) : LayerRef → List NeuronId
  | .input => net.input.neurons
  | .hidden i => (net.hidden[i]?.map (·.neurons)).getD []
  | .output => net.output.neurons

section Listing

variable {net : Network} {ref : LayerRef} {bound : NeuronId}

theorem mem_refs_iff : ref ∈ net.refs ↔ ∃ l, net.layer ref = .ok l := by
  cases ref with
  | input => simp [refs, layer]
  | output => simp [refs, layer]
  | hidden i =>
    simp only [refs, layer, List.mem_append, List.mem_cons, List.mem_map, List.mem_range]
    by_cases hi : i < net.hidden.size
    · simp [hi]
    · simp [hi]

theorem nodup_refs (net : Network) : net.refs.Nodup := by
  have hidden_nodup : ((List.range net.hidden.size).map LayerRef.hidden).Nodup :=
    (List.nodup_range).map fun i j h => LayerRef.hidden.inj h
  simp [refs, List.nodup_append, hidden_nodup]

theorem refs_mapLayer (net : Network) (f : Layer → Layer) (ref : LayerRef) :
    (net.mapLayer f ref).refs = net.refs := by
  cases ref <;> simp [refs, mapLayer]

theorem getElem?_of_layer {i : Nat} {l : Layer} (hl : net.layer (.hidden i) = .ok l) :
    net.hidden[i]? = some l := by
  simp only [layer] at hl
  split at hl
  · rename_i hi
    rw [hi, Except.ok.inj hl]
  · cases hl

theorem members_of_layer {l : Layer} (hl : net.layer ref = .ok l) : net.members ref = l.neurons := by
  cases ref with
  | input => exact congrArg Layer.neurons (Except.ok.inj hl)
  | output => exact congrArg Layer.neurons (Except.ok.inj hl)
  | hidden i => simp [members, getElem?_of_layer hl]

theorem mem_refs_of_mem_members {id : NeuronId} (h : id ∈ net.members ref) :
    ref ∈ net.refs := by
  cases ref with
  | input => simp [refs]
  | output => simp [refs]
  | hidden i =>
    by_contra missing
    have missing : net.hidden.size ≤ i := by simpa [refs] using missing
    simp [members, missing] at h

theorem members_mapLayer {l : Layer} (hl : net.layer ref = .ok l) (f : Layer → Layer)
    (ref' : LayerRef) :
    (net.mapLayer f ref).members ref' = if ref = ref' then (f l).neurons else net.members ref' := by
  cases ref with
  | input =>
    obtain rfl := Except.ok.inj hl
    cases ref' <;> rfl
  | output =>
    obtain rfl := Except.ok.inj hl
    cases ref' <;> rfl
  | hidden i =>
    cases ref' with
    | input => rfl
    | output => rfl
    | hidden j =>
      by_cases hij : i = j
      · subst hij
        simp [members, mapLayer, Array.getElem?_modify, getElem?_of_layer hl]
      · simp [members, mapLayer, Array.getElem?_modify, hij]

theorem mem_members_mapLayer {f : Layer → Layer} {P : NeuronId → Prop} {ref' : LayerRef} {id : NeuronId}
    (hf : ∀ l, ∀ x ∈ (f l).neurons, x ∈ l.neurons ∨ P x)
    (hid : id ∈ (net.mapLayer f ref).members ref') : id ∈ net.members ref' ∨ P id := by
  by_cases there : ref ∈ net.refs
  · obtain ⟨l, hl⟩ := mem_refs_iff.mp there
    rw [members_mapLayer hl] at hid
    split at hid
    · rename_i same
      rw [← same, members_of_layer hl]
      exact hf l id hid
    · exact .inl hid
  · cases ref with
    | input => simp [refs] at there
    | output => simp [refs] at there
    | hidden i =>
      have missing : net.hidden.size ≤ i := by simpa [refs] using there
      have same : net.hidden.modify i f = net.hidden := by
        simp [Array.modify, Array.modifyM, Nat.not_lt.mpr missing]
      exact .inl (by simpa [mapLayer, same] using hid)

theorem mem_members_push {l : Layer} {id : NeuronId}
    (hid : id ∈ { net with hidden := net.hidden.push l }.members ref) :
    id ∈ net.members ref ∨ id ∈ l.neurons := by
  cases ref with
  | input => exact .inl hid
  | output => exact .inl hid
  | hidden i =>
    simp only [members, Array.getElem?_push] at hid ⊢
    split at hid
    · exact .inr hid
    · exact .inl hid

theorem neurons_eq_flatMap (net : Network) :
    net.neurons = net.refs.flatMap fun ref => (net.members ref).map (·, ref) := by
  have hidden_eq : (net.hidden.toList.mapIdx fun i l => l.neurons.map (·, LayerRef.hidden i)) =
      (List.range net.hidden.size).map fun i => (net.members (.hidden i)).map (·, LayerRef.hidden i) := by
    refine List.ext_getElem (by simp) fun i h _ => ?_
    have hi : i < net.hidden.size := by simpa using h
    simp [members, hi]
  simp only [neurons, hidden_eq, refs, List.flatMap_append, List.flatMap_cons, List.flatMap_map]
  simp [members, List.flatMap_def]

theorem connections_eq_flatMap (net : Network) : net.connections = net.ids.flatMap net.graph.leaving := by
  rw [← neurons_ids, List.flatMap_map]
  rfl

theorem mem_connections_iff (h : net.Sound bound []) (c : ConnectionId) :
    c ∈ net.connections ↔ net.graph.contains c := by
  simp only [connections_eq_flatMap, List.mem_flatMap, Graph.mem_leaving_iff h.consistent.toLinked]
  constructor
  · rintro ⟨id, -, -, hc⟩
    exact hc
  · intro hc
    obtain ⟨d, hd⟩ := Option.isSome_iff_exists.mp (Graph.connection?_isSome_of_contains hc)
    have listed := (h.mem_iff c.source).mpr (h.consistent.toLinked.ends hd).1
    exact ⟨c.source, by simpa using listed, rfl, hc⟩

theorem nodup_connections (h : net.Sound bound []) : net.connections.Nodup := by
  have linked := h.consistent.toLinked
  have nodup : net.ids.Nodup := by simpa using h.nodup
  rw [connections_eq_flatMap]
  refine List.nodup_flatMap.mpr ⟨fun id _ => Graph.nodup_leaving linked id, nodup.imp ?_⟩
  rintro a b hab c ha hb
  exact hab (((Graph.mem_leaving_iff linked).mp ha).1.symm.trans ((Graph.mem_leaving_iff linked).mp hb).1)

end Listing

end Network

end GatedNetwork
