import GatedNetwork.Network.Structure
import GatedNetwork.Proofs.Program.Restored

/-! The neurons that the layers of a network list. A change of one layer changes its stretch of
the list and nothing else. -/

namespace GatedNetwork

theorem Layer.neurons_noteWiring (l : Layer) (target : LayerRef) :
    (l.noteWiring target).neurons = l.neurons := by
  unfold noteWiring
  split <;> rfl

namespace Network

def ids (net : Network) : List NeuronId := idsOf net.input net.hidden.toList net.output

theorem neurons_ids (net : Network) : net.neurons.map (·.1) = net.ids := by
  have hidden_eq : (net.hidden.toList.mapIdx fun i l =>
      l.neurons.map (·, LayerRef.hidden i)).flatten.map (·.1) =
      net.hidden.toList.flatMap (·.neurons) := by
    rw [List.map_flatten, List.flatMap_def]
    congr 1
    exact List.ext_getElem (by simp) (by simp [Function.comp_def])
  simp only [neurons, List.map_append, hidden_eq, ids, idsOf, List.append_assoc, List.map_map]
  simp [Function.comp_def]

section Change

variable {net : Network} {ref : LayerRef} {l : Layer}

theorem exists_ids_mapLayer (h : net.layer ref = .ok l) (f : Layer → Layer) :
    ∃ before later, net.ids = before ++ l.neurons ++ later ∧
      (net.mapLayer f ref).ids = before ++ (f l).neurons ++ later := by
  cases ref with
  | input =>
    obtain rfl : net.input = l := by simpa [layer] using h
    exact ⟨[], net.hidden.toList.flatMap (·.neurons) ++ net.output.neurons, by simp [ids, idsOf],
      by simp [ids, idsOf, mapLayer]⟩
  | output =>
    obtain rfl : net.output = l := by simpa [layer] using h
    exact ⟨net.input.neurons ++ net.hidden.toList.flatMap (·.neurons), [], by simp [ids, idsOf],
      by simp [ids, idsOf, mapLayer]⟩
  | hidden i =>
    have hi : ∃ hlt : i < net.hidden.toList.length, net.hidden.toList[i] = l := by
      simp only [layer] at h
      split at h
      · rename_i l' hl
        obtain rfl : l' = l := by simpa using h
        obtain ⟨hlt, heq⟩ := Array.getElem?_eq_some_iff.mp hl
        exact ⟨hlt, heq⟩
      · simp at h
    obtain ⟨hlt, heq⟩ := hi
    have split_eq : net.hidden.toList =
        net.hidden.toList.take i ++ l :: net.hidden.toList.drop (i + 1) := by
      rw [← heq, List.getElem_cons_drop, List.take_append_drop]
    have modify_eq : (net.hidden.modify i f).toList =
        net.hidden.toList.take i ++ f l :: net.hidden.toList.drop (i + 1) := by
      rw [Array.toList_modify, List.modify_eq_take_cons_drop hlt, heq]
    refine ⟨net.input.neurons ++ (net.hidden.toList.take i).flatMap (·.neurons),
      (net.hidden.toList.drop (i + 1)).flatMap (·.neurons) ++ net.output.neurons, ?_, ?_⟩
    · have flat := congrArg (List.flatMap Layer.neurons) split_eq
      rw [List.flatMap_append, List.flatMap_cons] at flat
      simp only [ids, idsOf, flat, List.append_assoc]
    · rw [ids, idsOf, mapLayer, modify_eq]
      simp

theorem ids_noteWiring (h : net.layer ref = .ok l) (target : LayerRef) :
    (net.mapLayer (·.noteWiring target) ref).ids = net.ids := by
  obtain ⟨before, later, ids_eq, changed_eq⟩ := exists_ids_mapLayer h (·.noteWiring target)
  rw [changed_eq, ids_eq, l.neurons_noteWiring]

theorem ids_add (h : net.layer ref = .ok l) (id : NeuronId) :
    (net.mapLayer (·.add id) ref).ids.Perm (net.ids ++ [id]) := by
  obtain ⟨before, later, ids_eq, changed_eq⟩ := exists_ids_mapLayer h (·.add id)
  rw [changed_eq, ids_eq, Layer.add]
  simp only [List.append_assoc]
  exact List.Perm.append_left _ (List.Perm.append_left _ List.perm_append_comm)

theorem ids_erase (h : net.layer ref = .ok l) (nodup : net.ids.Nodup) {id : NeuronId}
    (hid : id ∈ l.neurons) : (net.mapLayer (·.remove id) ref).ids = net.ids.erase id := by
  obtain ⟨before, later, ids_eq, changed_eq⟩ := exists_ids_mapLayer h (·.remove id)
  rw [ids_eq] at nodup
  have fresh : id ∉ before := fun hb => (List.nodup_append.mp (List.nodup_append.mp nodup).1).2.2
    id hb id hid rfl
  rw [changed_eq, ids_eq, List.append_assoc, List.append_assoc, List.erase_append_right _ fresh,
    List.erase_append_left _ hid, Layer.remove]

theorem ids_remove (h : net.layer ref = .ok l) (nodup : net.ids.Nodup) {id : NeuronId}
    (hid : id ∈ l.neurons) :
    (net.mapLayer (·.remove id) ref).ids.Nodup ∧
      ∀ x, x ∈ (net.mapLayer (·.remove id) ref).ids ↔ x ∈ net.ids ∧ x ≠ id := by
  rw [ids_erase h nodup hid]
  exact ⟨nodup.erase id, fun x => by rw [nodup.mem_erase_iff, and_comm]⟩

end Change

theorem exists_layer_of_layerOf {net : Network} {id : NeuronId} {ref : LayerRef}
    (h : net.layerOf id = some ref) : ∃ l, net.layer ref = .ok l ∧ id ∈ l.neurons := by
  unfold layerOf at h
  split at h
  · rename_i hid
    obtain rfl := Option.some.inj h
    exact ⟨net.input, rfl, by simpa using hid⟩
  · split at h
    · rename_i i hi
      obtain rfl := Option.some.inj h
      obtain ⟨hlt, hmem, -⟩ := Array.findIdx?_eq_some_iff_getElem.mp hi
      exact ⟨net.hidden[i], by simp [layer, hlt], by simpa using hmem⟩
    · split at h
      · rename_i hid
        obtain rfl := Option.some.inj h
        exact ⟨net.output, rfl, by simpa using hid⟩
      · cases h

theorem layerOf_isSome {net : Network} {id : NeuronId} (h : id ∈ net.ids) :
    ∃ ref, net.layerOf id = some ref := by
  unfold layerOf
  split
  · exact ⟨_, rfl⟩
  · rename_i hin
    split
    · exact ⟨_, rfl⟩
    · rename_i hnone
      split
      · exact ⟨_, rfl⟩
      · rename_i hout
        simp only [ids, idsOf, List.mem_append, List.mem_flatMap] at h
        rcases h with h | ⟨l, hl, hid⟩ | h
        · exact absurd (by simpa using h) hin
        · have := Array.findIdx?_eq_none_iff.mp hnone l (by simpa using hl)
          simp [hid] at this
        · exact absurd (by simpa using h) hout

end Network

end GatedNetwork
