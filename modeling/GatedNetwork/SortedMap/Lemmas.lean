import GatedNetwork.SortedMap

/-! What each operation on a sorted table does to lookups. A table is determined by its
lookups, so equal lookups mean equal tables. -/

namespace GatedNetwork.SortedMap

section Keys

variable {κ ν : Type} [Ord κ]

@[simp] theorem get?_empty (k : κ) : (∅ : SortedMap κ ν).get? k = none := rfl

@[simp] theorem contains_empty (k : κ) : (∅ : SortedMap κ ν).contains k = false := rfl

theorem contains_eq_isSome (m : SortedMap κ ν) (k : κ) : m.contains k = (m.get? k).isSome := rfl

@[simp] theorem keys_mapValues {ν' : Type} (f : κ → ν → ν') (m : SortedMap κ ν) :
    (m.mapValues f).keys = m.keys := by
  simp [keys, mapValues]

@[simp] theorem keys_modify (m : SortedMap κ ν) (k : κ) (f : ν → ν) :
    (m.modify k f).keys = m.keys := keys_mapValues _ m

theorem nodup_keys [Std.ReflOrd κ] (m : SortedMap κ ν) : m.keys.Nodup := by
  refine List.pairwise_map.mpr (m.ascending.imp fun hab heq => ?_)
  simp [heq] at hab

end Keys

section Lookups

variable {κ ν : Type} [Ord κ] [Std.LawfulEqOrd κ]

@[simp] theorem get?_mapValues {ν' : Type} (f : κ → ν → ν') (m : SortedMap κ ν) (k : κ) :
    (m.mapValues f).get? k = (m.get? k).map (f k) := by
  have same_key : (fun e : κ × ν' => compare e.1 k == .eq) ∘ (fun e : κ × ν => (e.1, f e.1 e.2)) =
      fun e => compare e.1 k == .eq := rfl
  simp only [get?, mapValues, List.find?_map, same_key]
  cases h : m.entries.find? (fun e => compare e.1 k == .eq) with
  | none => rfl
  | some e =>
    obtain rfl : e.1 = k := by simpa using List.find?_some h
    rfl

@[simp] theorem get?_modify [DecidableEq κ] (m : SortedMap κ ν) (k k' : κ) (f : ν → ν) :
    (m.modify k f).get? k' = if k = k' then (m.get? k').map f else m.get? k' := by
  rw [modify, get?_mapValues]
  by_cases h : k = k'
  · simp [h]
  · simp [h, Ne.symm h]

@[simp] theorem get?_erase [DecidableEq κ] (m : SortedMap κ ν) (k k' : κ) :
    (m.erase k).get? k' = if k = k' then none else m.get? k' := by
  simp only [get?, erase, List.find?_filter]
  by_cases h : k = k'
  · subst h
    simp
  · rw [if_neg h]
    congr 2
    funext e
    by_cases he : e.1 = k'
    · simp [he, Ne.symm h]
    · simp [he]

@[simp] theorem get?_insert [Std.TransOrd κ] [DecidableEq κ] (m : SortedMap κ ν) (k k' : κ) (v : ν) :
    (m.insert k v).get? k' = if k = k' then some v else m.get? k' := by
  simp only [get?, insert]
  induction m.entries with
  | nil => by_cases h : k = k' <;> simp [insertEntry, h]
  | cons e es ih =>
    simp only [insertEntry]
    split
    · by_cases h : k = k' <;> simp [h]
    · rename_i heq
      have hk : k = e.1 := Std.LawfulEqOrd.eq_of_compare heq
      by_cases h : k = k' <;> simp [← hk, h]
    · rename_i hgt
      have hk : e.1 ≠ k := fun h => by simp [h] at hgt
      by_cases he : e.1 = k'
      · have h : k ≠ k' := fun h => hk (he.trans h.symm)
        simp [he, h]
      · simpa [he] using ih

@[simp] theorem contains_mapValues {ν' : Type} (f : κ → ν → ν') (m : SortedMap κ ν) (k : κ) :
    (m.mapValues f).contains k = m.contains k := by
  simp [contains]

@[simp] theorem contains_modify [DecidableEq κ] (m : SortedMap κ ν) (k k' : κ) (f : ν → ν) :
    (m.modify k f).contains k' = m.contains k' := by
  by_cases h : k = k' <;> simp [contains, h]

@[simp] theorem contains_erase [DecidableEq κ] (m : SortedMap κ ν) (k k' : κ) :
    (m.erase k).contains k' = (m.contains k' && k ≠ k') := by
  by_cases h : k = k' <;> simp [contains, h]

@[simp] theorem contains_insert [Std.TransOrd κ] [DecidableEq κ] (m : SortedMap κ ν) (k k' : κ)
    (v : ν) : (m.insert k v).contains k' = (decide (k = k') || m.contains k') := by
  by_cases h : k = k' <;> simp [contains, h]

end Lookups

section Entries

variable {κ ν : Type} [Ord κ] [Std.TransOrd κ]

theorem eq_of_key_eq {l : List (κ × ν)} (hl : l.Pairwise (fun a b => compare a.1 b.1 = .lt))
    {a b : κ × ν} (ha : a ∈ l) (hb : b ∈ l) (h : a.1 = b.1) : a = b := by
  induction l with
  | nil => simp at ha
  | cons x xs ih =>
    obtain ⟨hx, hxs⟩ := List.pairwise_cons.mp hl
    rcases List.mem_cons.mp ha with hax | hax <;> rcases List.mem_cons.mp hb with hbx | hbx
    · exact hax.trans hbx.symm
    · simpa [← h, hax] using hx b hbx
    · simpa [h, hbx] using hx a hax
    · exact ih hxs hax hbx

theorem entries_eq_of_mem_iff {l₁ l₂ : List (κ × ν)}
    (h₁ : l₁.Pairwise (fun a b => compare a.1 b.1 = .lt))
    (h₂ : l₂.Pairwise (fun a b => compare a.1 b.1 = .lt)) (h : ∀ e, e ∈ l₁ ↔ e ∈ l₂) :
    l₁ = l₂ := by
  have nodup {l : List (κ × ν)} (hl : l.Pairwise (fun a b => compare a.1 b.1 = .lt)) : l.Nodup :=
    hl.imp fun hab heq => by simp [heq] at hab
  refine List.Perm.eq_of_pairwise (fun a b _ _ hab hba => ?_) h₁ h₂
    ((List.perm_ext_iff_of_nodup (nodup h₁) (nodup h₂)).mpr h)
  simpa using Std.TransCmp.lt_trans hab hba

variable [Std.LawfulEqOrd κ]

theorem get?_eq_some_iff {m : SortedMap κ ν} {k : κ} {v : ν} :
    m.get? k = some v ↔ (k, v) ∈ m.entries := by
  simp only [get?, Option.map_eq_some_iff]
  constructor
  · rintro ⟨e, he, rfl⟩
    have hk : e.1 = k := by simpa using List.find?_some he
    exact hk ▸ List.mem_of_find?_eq_some he
  · intro h
    cases hf : m.entries.find? (fun e => compare e.1 k == .eq) with
    | none => simpa using List.find?_eq_none.mp hf _ h
    | some e =>
      have hk : e.1 = k := by simpa using List.find?_some hf
      exact ⟨e, rfl, by rw [eq_of_key_eq m.ascending (List.mem_of_find?_eq_some hf) h hk]⟩

theorem mem_keys_iff {m : SortedMap κ ν} {k : κ} : k ∈ m.keys ↔ (m.get? k).isSome := by
  simp [keys, Option.isSome_iff_exists, get?_eq_some_iff]

@[simp] theorem mem_keys {m : SortedMap κ ν} {k : κ} : k ∈ m.keys ↔ m.contains k :=
  mem_keys_iff

/-- Tables with the same lookups are equal. -/
theorem eq_of_get?_eq {a b : SortedMap κ ν} (h : ∀ k, a.get? k = b.get? k) : a = b :=
  ext <| entries_eq_of_mem_iff a.ascending b.ascending fun e => by
    rw [← get?_eq_some_iff, ← get?_eq_some_iff, h]

theorem mapValues_congr {ν' : Type} {f f' : κ → ν → ν'} {m : SortedMap κ ν}
    (h : ∀ k v, m.get? k = some v → f k v = f' k v) : m.mapValues f = m.mapValues f' := by
  refine eq_of_get?_eq fun k => ?_
  cases hv : m.get? k with
  | none => simp [hv]
  | some v => simp [hv, h k v hv]

theorem mapValues_mapValues {ν' ν'' : Type} (f : κ → ν → ν') (f' : κ → ν' → ν'')
    (m : SortedMap κ ν) :
    (m.mapValues f).mapValues f' = m.mapValues fun k v => f' k (f k v) := by
  refine eq_of_get?_eq fun k => ?_
  cases hv : m.get? k <;> simp [hv]

theorem foldl_insert_eq_mapValues [DecidableEq κ] {ks : List κ} {m : SortedMap κ ν}
    (f : κ → Option ν → ν) (nodup : ks.Nodup) (h : ∀ k, k ∈ ks ↔ m.contains k) :
    ks.foldl (fun m k => m.insert k (f k (m.get? k))) m = m.mapValues fun k v => f k (some v) := by
  have lookup (ks : List κ) (nodup : ks.Nodup) (m : SortedMap κ ν) (k : κ) :
      (ks.foldl (fun m k => m.insert k (f k (m.get? k))) m).get? k =
        if k ∈ ks then some (f k (m.get? k)) else m.get? k := by
    induction ks generalizing m with
    | nil => simp
    | cons x xs ih =>
      obtain ⟨hx, hxs⟩ := List.nodup_cons.mp nodup
      rw [List.foldl_cons, ih hxs]
      by_cases hk : x = k
      · subst hk
        simp [hx]
      · simp [hk, Ne.symm hk]
  refine eq_of_get?_eq fun k => ?_
  rw [lookup ks nodup, get?_mapValues]
  by_cases hk : k ∈ ks
  · obtain ⟨v, hv⟩ := Option.isSome_iff_exists.mp ((h k).mp hk)
    simp [hk, hv]
  · have hnone : m.get? k = none := by
      simpa [contains_eq_isSome] using fun hc => hk ((h k).mpr hc)
    simp [hk, hnone]

theorem keys_eq_of_contains_eq {ν' : Type} {a : SortedMap κ ν} {b : SortedMap κ ν'}
    (h : ∀ k, a.contains k = b.contains k) : a.keys = b.keys := by
  have hab : a.mapValues (fun _ _ => ()) = b.mapValues (fun _ _ => ()) :=
    eq_of_get?_eq fun k => by
      have hk := h k
      simp only [contains_eq_isSome] at hk
      cases ha : a.get? k <;> cases hb : b.get? k <;> simp_all
  rw [← keys_mapValues (fun _ _ => ()) a, hab, keys_mapValues]

end Entries

end GatedNetwork.SortedMap
