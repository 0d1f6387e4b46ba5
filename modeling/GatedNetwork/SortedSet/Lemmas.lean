import GatedNetwork.SortedMap.Lemmas
import GatedNetwork.SortedSet

/-! What each operation on a sorted set does to membership. -/

namespace GatedNetwork.SortedSet

section Members

variable {κ : Type} [Ord κ]

@[simp] theorem contains_empty (k : κ) : (∅ : SortedSet κ).contains k = false := rfl

theorem nodup_toList [Std.ReflOrd κ] (s : SortedSet κ) : s.toList.Nodup := s.members.nodup_keys

theorem pairwise_toList (s : SortedSet κ) : s.toList.Pairwise fun a b => compare a b = .lt :=
  List.pairwise_map.mpr s.members.ascending

end Members

variable {κ : Type} [Ord κ] [Std.LawfulEqOrd κ]

@[simp] theorem contains_erase [DecidableEq κ] (s : SortedSet κ) (k k' : κ) :
    (s.erase k).contains k' = (s.contains k' && k ≠ k') := by
  simp only [contains, erase, SortedMap.contains, SortedMap.get?_erase]
  by_cases h : k = k' <;> simp [h]

@[simp] theorem get?_toMap {ν : Type} (s : SortedSet κ) (v : ν) (k : κ) :
    (s.toMap v).get? k = if s.contains k then some v else none := by
  rw [toMap, SortedMap.get?_mapValues]
  split
  · rename_i h
    obtain ⟨_, hu⟩ := Option.isSome_iff_exists.mp h
    simp [hu]
  · rename_i h
    simpa [contains, SortedMap.contains] using h

variable [Std.TransOrd κ]

@[simp] theorem contains_insert [DecidableEq κ] (s : SortedSet κ) (k k' : κ) :
    (s.insert k).contains k' = (decide (k = k') || s.contains k') := by
  simp only [contains, insert, SortedMap.contains, SortedMap.get?_insert]
  by_cases h : k = k' <;> simp [h]

@[simp] theorem mem_toList_iff {s : SortedSet κ} {k : κ} : k ∈ s.toList ↔ s.contains k :=
  SortedMap.mem_keys_iff

end GatedNetwork.SortedSet
