import GatedNetwork.Program.Compile
import GatedNetwork.Proofs.Program.Passes

/-! Memory seen through the slots of a table. No two keys share a slot, so code over slots does
to the memory what the listings over keys do to the reading that it shows. -/

namespace GatedNetwork

theorem Instruction.effect_map {α β : Type} (f : α → β) (read : β → Float) (i : Instruction α) :
    (i.map f).effect read = (i.effect fun a => read (f a)).map fun w => (f w.1, w.2) := by
  cases i <;> rfl

namespace SlotTable

section Views

variable {t : SlotTable} {σ₀ : Reading} {m : Memory}

theorem slot?_inj {k k' : Key} {s : Slot} (h : t.slot? k = some s) (h' : t.slot? k' = some s) :
    k = k' := by
  have hs := (t.indexed k s).mp h
  rw [(t.indexed k' s).mp h'] at hs
  exact (Option.some.inj hs).symm

/-- The memory by key; a key without a slot shows what the given reading shows. -/
def view (t : SlotTable) (σ₀ : Reading) (m : Memory) : Reading := fun k =>
  ((t.slot? k).map m.read).getD (σ₀ k)

theorem view_of_slot {k : Key} (h : (t.slot? k).isSome) : t.view σ₀ m k = m.read (t.slot k) := by
  obtain ⟨s, hs⟩ := Option.isSome_iff_exists.mp h
  rw [view, slot, hs]
  rfl

theorem size_store (m : Memory) (s : Slot) (x : Float) : (m.store s x).size = m.size :=
  Array.size_setIfInBounds

theorem size_storeAll (m : Memory) (writes : List (Slot × Float)) :
    (m.storeAll writes).size = m.size := by
  induction writes generalizing m with
  | nil => rfl
  | cons w writes ih => exact (ih (m.store w.1 w.2)).trans (size_store m w.1 w.2)

theorem size_step (m : Memory) (i : Instruction Slot) : (m.step i).size = m.size :=
  size_storeAll m _

theorem size_run (m : Memory) (b : Block Slot) : (m.run b).size = m.size := by
  induction b generalizing m with
  | nil => rfl
  | cons i b ih => exact (ih (m.step i)).trans (size_step m i)

theorem view_store (hm : m.size = t.entries.size) {k : Key} (hk : (t.slot? k).isSome) (x : Float) :
    t.view σ₀ (m.store (t.slot k) x) = Function.update (t.view σ₀ m) k x := by
  obtain ⟨s, hs⟩ := Option.isSome_iff_exists.mp hk
  have hlt : s < m.size := hm ▸ lt_size_of_slot? hs
  have slot_eq : t.slot k = s := by
    rw [slot, hs]
    rfl
  funext k'
  rw [slot_eq]
  by_cases hkk : k' = k
  · subst hkk
    simp [view, hs, Memory.read, Memory.store, hlt]
  · rw [Function.update_of_ne hkk, view, view]
    cases hs' : t.slot? k' with
    | none => rfl
    | some s' =>
      have hne : s ≠ s' := fun e => hkk (slot?_inj hs' (e ▸ hs))
      simp [Memory.read, Memory.store, Array.getElem?_setIfInBounds_ne hne]

theorem view_storeAll (hm : m.size = t.entries.size) {writes : List (Key × Float)}
    (hw : ∀ w ∈ writes, (t.slot? w.1).isSome) :
    t.view σ₀ (m.storeAll (writes.map fun w => (t.slot w.1, w.2))) =
      (t.view σ₀ m).store writes := by
  induction writes generalizing m with
  | nil => rfl
  | cons w writes ih =>
    refine (ih ((size_store m _ _).trans hm) fun w' hw' => hw w' (by simp [hw'])).trans ?_
    rw [view_store hm (hw w (by simp))]
    rfl

theorem view_step (hm : m.size = t.entries.size) {i : Instruction Key}
    (hi : ∀ k ∈ i.operands, (t.slot? k).isSome) :
    t.view σ₀ (m.step (i.map t.slot)) = (t.view σ₀ m).step i := by
  have effect_eq : (i.effect fun k => m.read (t.slot k)) = i.effect (t.view σ₀ m) :=
    Instruction.effect_congr fun k hk => (view_of_slot (hi k hk)).symm
  rw [Memory.step, Instruction.effect_map, effect_eq]
  refine view_storeAll hm fun w hw => hi w.1 (Instruction.mem_operands_of_mem_writes ?_)
  rw [← Instruction.effect_addresses (t.view σ₀ m)]
  exact List.mem_map_of_mem hw

theorem view_run (hm : m.size = t.entries.size) {b : Block Key}
    (hb : ∀ i ∈ b, ∀ k ∈ i.operands, (t.slot? k).isSome) :
    t.view σ₀ (m.run (b.map (·.map t.slot))) = (t.view σ₀ m).run b := by
  induction b generalizing m with
  | nil => rfl
  | cons i b ih =>
    refine (ih ((size_step m _).trans hm) fun j hj => hb j (by simp [hj])).trans ?_
    rw [view_step hm (hb i (by simp)), Reading.run_cons]

end Views

/-- Every operand of the blocks of a listing has a slot. -/
def Covers (t : SlotTable) (l : Listing) : Prop :=
  ∀ b ∈ [l.activation, l.trace, l.propagation], ∀ i ∈ b, ∀ k ∈ i.operands, (t.slot? k).isSome

section Passes

variable {t : SlotTable} {σ₀ : Reading}

/-- Loops over memory that each step shows as a step of the reading. -/
theorem view_foldl {α : Type} {xs : List α} {f : Memory → α → Memory} {f' : Reading → α → Reading}
    (size : ∀ m, ∀ x ∈ xs, (f m x).size = m.size)
    (view_eq : ∀ m : Memory, m.size = t.entries.size → ∀ x ∈ xs,
      t.view σ₀ (f m x) = f' (t.view σ₀ m) x)
    {m : Memory} (hm : m.size = t.entries.size) :
    (xs.foldl f m).size = m.size ∧ t.view σ₀ (xs.foldl f m) = xs.foldl f' (t.view σ₀ m) := by
  induction xs generalizing m with
  | nil => exact ⟨rfl, rfl⟩
  | cons x xs ih =>
    have hx := size m x (by simp)
    obtain ⟨size_eq, view_eq'⟩ := ih (fun m y hy => size m y (by simp [hy]))
      (fun m hm y hy => view_eq m hm y (by simp [hy])) (hx.trans hm)
    refine ⟨size_eq.trans hx, ?_⟩
    rw [List.foldl_cons, List.foldl_cons, view_eq', view_eq m hm x (by simp)]

theorem foldl_nested {α β : Type} (f : β → α → β) (xs : List (List α)) (s : β) :
    xs.foldl (fun s x => x.foldl f s) s = xs.flatten.foldl f s := by
  induction xs generalizing s with
  | nil => rfl
  | cons x xs ih => simp [ih]

theorem forward_spec (σ₀ : Reading) {layers : List (List Listing)} (ht : ∀ l ∈ layers.flatten, t.Covers l)
    {m : Memory} (hm : m.size = t.entries.size) :
    (Program.forward ((Code.ofListings layers).map t.slot) m).size = m.size ∧
      t.view σ₀ (Program.forward ((Code.ofListings layers).map t.slot) m) =
        layers.flatten.foldl Reading.fire (t.view σ₀ m) := by
  have flat : Program.forward ((Code.ofListings layers).map t.slot) m =
      layers.flatten.foldl (fun m l => (m.run (l.activation.map (·.map t.slot))).run
        (l.trace.map (·.map t.slot))) m := by
    rw [← foldl_nested]
    simp only [Program.forward, Code.map, Code.ofListings, List.map_map, List.zip_map',
      List.foldl_map, Function.comp_apply]
  rw [flat]
  refine view_foldl (fun m l _ => (size_run _ _).trans (size_run _ _)) (fun m hm l hl => ?_) hm
  rw [view_run ((size_run _ _).trans hm) (ht l hl _ (by simp)), view_run hm (ht l hl _ (by simp))]
  rfl

theorem backward_spec (σ₀ : Reading) {layers : List (List Listing)} (ht : ∀ l ∈ layers.flatten, t.Covers l)
    {m : Memory} (hm : m.size = t.entries.size) :
    (Program.backward ((Code.ofListings layers).map t.slot) m).size = m.size ∧
      t.view σ₀ (Program.backward ((Code.ofListings layers).map t.slot) m) =
        (layers.flatten.filter (·.role ≠ .input)).reverse.foldl Reading.learn (t.view σ₀ m) := by
  have flat : Program.backward ((Code.ofListings layers).map t.slot) m =
      (layers.flatten.filter (·.role ≠ .input)).reverse.foldl (fun m l =>
        m.run (l.propagation.map (·.map t.slot))) m := by
    have order : (layers.map fun layer =>
        ((layer.filter (·.role ≠ .input)).map (·.propagation)).reverse).reverse.flatten =
        ((layers.flatten.filter (·.role ≠ .input)).reverse).map (·.propagation) := by
      rw [List.map_reverse, List.filter_flatten, List.map_flatten, List.reverse_flatten,
        List.map_map, List.map_map]
      rfl
    simp only [Program.backward, Code.map, Code.ofListings]
    rw [foldl_nested, ← List.map_flatten, order, List.map_map, List.foldl_map]
    rfl
  rw [flat]
  refine view_foldl (fun m l _ => size_run _ _) (fun m hm l hl => ?_) hm
  have hl : l ∈ layers.flatten := (List.mem_filter.mp (List.mem_reverse.mp hl)).1
  exact view_run hm (ht l hl _ (by simp))

end Passes

end SlotTable

end GatedNetwork
