import GatedNetwork.Proofs.Program.Restored
import GatedNetwork.Proofs.Graph.Values

/-! A program that stands for a graph. The graph it was compiled from keeps the numbers of that
time; the live graph has the numbers that the memory shows. Every step of the program is a walk
over the live graph, and writing the memory back gives the live graph. -/

namespace GatedNetwork

/-- The layers list the neurons of the graph, each once, and nothing else. -/
structure Graph.Layered (g : Graph) (input : Layer) (hidden : List Layer) (output : Layer) :
    Prop where
  nodup : (idsOf input hidden output).Nodup
  mem_iff : ∀ id, id ∈ idsOf input hidden output ↔ g.neurons.contains id

theorem Graph.Layered.of_skeleton_eq {g g' : Graph} {input output : Layer} {hidden : List Layer}
    (h : g.Layered input hidden output) (hs : g.skeleton = g'.skeleton) :
    g'.Layered input hidden output where
  nodup := h.nodup
  mem_iff id := by rw [h.mem_iff, contains_neuron_of_skeleton_eq hs]

theorem Graph.Layered.present {g : Graph} {input output : Layer} {hidden : List Layer}
    (h : g.Layered input hidden output) (r : NeuronId × Role)
    (hr : r ∈ (rolesOf input hidden output).flatten) : g.neurons.contains r.1 := by
  rw [← h.mem_iff, ← rolesOf_ids]
  exact List.mem_map_of_mem hr

/-- The program stands for the live graph. -/
structure Program.Mirrors (p : Program) (stored live : Graph) (input : Layer) (hidden : List Layer)
    (output : Layer) : Prop where
  suits : p.Suits stored input hidden output
  skeleton : stored.skeleton = live.skeleton
  agrees : live.Agrees (p.table.view stored.reading p.memory)

/-- A frame for walks: only gains with a gater and weights of regular connections change. -/
theorem Graph.Consistent.of_frame {g g' : Graph} {σ τ : Reading} (h : g.Consistent)
    (ha : g.Agrees σ) (hs : g.skeleton = g'.skeleton) (ha' : g'.Agrees τ)
    (gain_eq : ∀ c, g.gater? c = none → τ (.gain c) = σ (.gain c))
    (weight_eq : ∀ id, τ (.weight (.loop id)) = σ (.weight (.loop id))) : g'.Consistent := by
  refine h.of_skeleton_eq hs (fun c hc => ?_) fun id _ => ?_
  · rw [← ha' _ rfl, ← ha _ rfl]
    exact gain_eq c hc
  · rw [← ha' _ rfl, ← ha _ rfl]
    exact weight_eq id

namespace Graph

section Frames

variable {g g' : Graph} {σ : Reading} {rs : List (NeuronId × Role)}

theorem Consistent.of_fire (h : g.Consistent) (ha : g.Agrees σ)
    (hrs : ∀ r ∈ rs, g.neurons.contains r.1) (values : List (NeuronId × Float))
    (hs : g.skeleton = g'.skeleton)
    (ha' : g'.Agrees ((rs.map g.listing).foldl Reading.fire
      (σ.store (values.map fun v => (.activation v.1, v.2))))) : g'.Consistent := by
  have unwritten {k : Key} (hk : ∀ id, ¬ k = .activation id) (hshared : k.IsShared)
      (hgain : ∀ id n c, g.neurons.get? id = some n → n.gated.contains c → k ≠ .gain c) :
      (rs.map g.listing).foldl Reading.fire
        (σ.store (values.map fun v => (.activation v.1, v.2))) k = σ k := by
    rw [Reading.foldl_frame fun l hl τ => ?_]
    · refine Reading.store_of_notMem _ fun hk' => ?_
      obtain ⟨w, hw, rfl⟩ := List.mem_map.mp hk'
      obtain ⟨v, -, rfl⟩ := List.mem_map.mp hw
      exact hk v.1 rfl
    · obtain ⟨r, hr, rfl⟩ := List.mem_map.mp hl
      obtain ⟨n, hn⟩ := get?_of_contains (hrs r hr)
      exact fire_of_unwritten hn (fun _ => hshared) fun c hc => hgain r.1 n c hn hc
  refine h.of_frame ha hs ha' (fun c hc => unwritten (by simp) trivial fun id n d hn hd => ?_)
    fun id => unwritten (by simp) trivial (by simp)
  rintro ⟨⟩
  rw [(h.gated_iff id n hn c).mp hd] at hc
  cases hc

theorem Consistent.of_learn (h : g.Consistent) (ha : g.Agrees σ)
    (hrs : ∀ r ∈ rs, g.neurons.contains r.1) (hs : g.skeleton = g'.skeleton)
    (ha' : g'.Agrees ((rs.map g.listing).foldl Reading.learn σ)) : g'.Consistent := by
  have unwritten {k : Key} (hshared : k.IsShared) (hsum : ¬ k.IsSum)
      (hweight : ∀ id n c, g.neurons.get? id = some n → n.inputs.contains c → k ≠ .weight c) :
      (rs.map g.listing).foldl Reading.learn σ k = σ k := by
    refine Reading.foldl_frame fun l hl τ => ?_
    obtain ⟨r, hr, rfl⟩ := List.mem_map.mp hl
    obtain ⟨n, hn⟩ := get?_of_contains (hrs r hr)
    exact learn_of_unwritten hn (fun _ => Key.isLearnt_of_isShared hshared)
      (fun c hc => hweight r.1 n c hn hc) hsum
  refine h.of_frame ha hs ha' (fun c _ => unwritten trivial (fun hs => hs) (by simp))
    fun id => unwritten trivial (fun hs => hs) fun x n c hn hc => ?_
  rintro ⟨⟩
  have := (h.input hn hc).1
  simp at this

end Frames

end Graph

theorem Graph.listings_workers (g : Graph) (input output : Layer) (hidden : List Layer) :
    (g.listings input hidden output).flatten.filter (·.role ≠ .input) =
      (workers hidden output).map g.listing := by
  rw [listings_flatten, rolesOf_flatten, List.map_append, List.filter_append,
    List.filter_eq_nil_iff.mpr, List.nil_append, List.filter_eq_self.mpr]
  · intro l hl
    obtain ⟨r, hr, rfl⟩ := List.mem_map.mp hl
    simpa [Graph.listing_role] using workers_role hr
  · simp [Graph.listing_role]

/-- What is stored before the backward pass: the rate and the targets. -/
def taught (rate : Float) (targets : List Float) : List (Key × Float) :=
  (.rate, rate) :: ((List.range targets.length).zip targets).map fun q => (.target q.1, q.2)

section Teaching

variable {σ : Reading} (rate : Float) {targets : List Float}

theorem mem_taught {w : Key × Float} {rate : Float} (hw : w ∈ taught rate targets) :
    w = (.rate, rate) ∨ ∃ i x, i < targets.length ∧ w = (.target i, x) := by
  rcases List.mem_cons.mp hw with rfl | hw
  · exact .inl rfl
  · obtain ⟨q, hq, rfl⟩ := List.mem_map.mp hw
    exact .inr ⟨q.1, q.2, List.mem_range.mp (List.of_mem_zip hq).1, rfl⟩

theorem nodup_taught : ((taught rate targets).map (·.1)).Nodup := by
  have fst_eq : ((List.range targets.length).zip targets).map (·.1) = List.range targets.length :=
    List.map_fst_zip (by simp)
  refine List.nodup_cons.mpr ⟨by simp, ?_⟩
  have keys_eq : (((List.range targets.length).zip targets).map fun q => (Key.target q.1, q.2)).map
      (·.1) = (List.range targets.length).map .target := by
    rw [← fst_eq, List.map_map, List.map_map, fst_eq]
    rfl
  rw [keys_eq]
  exact List.pairwise_map.mpr (List.nodup_range.imp fun hne e => hne (Key.target.inj e))

variable (σ)

theorem store_taught_rate : σ.store (taught rate targets) .rate = rate :=
  Reading.store_of_mem σ (nodup_taught rate) (w := (.rate, rate)) List.mem_cons_self

theorem store_taught_target {i : Nat} (hi : i < targets.length) :
    σ.store (taught rate targets) (.target i) = targets[i] := by
  refine Reading.store_of_mem σ (nodup_taught rate) (w := (.target i, targets[i])) ?_
  refine List.mem_cons_of_mem _ (List.mem_map.mpr ⟨(i, targets[i]), ?_, rfl⟩)
  rw [List.mem_iff_getElem]
  exact ⟨i, by simp [hi], by simp⟩

variable {σ}

theorem Graph.Agrees.taught {g : Graph} (h : g.Agrees σ) (targets : List Float) :
    g.Agrees (σ.store (taught rate targets)) := by
  intro k hk
  rw [← h k hk]
  refine Reading.store_of_notMem σ fun hk' => ?_
  obtain ⟨w, hw, rfl⟩ := List.mem_map.mp hk'
  rcases mem_taught hw with rfl | ⟨i, x, -, rfl⟩
  · cases hk
  · cases hk

end Teaching

namespace Program

section Steps

variable {p : Program} {stored live : Graph} {input output : Layer} {hidden : List Layer}

/-- A run of the program and a walk over the live graph give one answer and stay together. -/
def Shadows {α : Type} (p : Program) (stored live : Graph) (input : Layer) (hidden : List Layer)
    (output : Layer) (flat : EStateM NetworkError Program α) (walk : Graph.Edit α) : Prop :=
  ∃ x p' live', flat.run p = .ok x p' ∧ walk.run live = .ok x live' ∧ live'.Consistent ∧
    p'.Mirrors stored live' input hidden output

theorem Suits.withMemory (h : p.Suits stored input hidden output) {m : Memory}
    (size : m.size = p.memory.size) : { p with memory := m }.Suits stored input hidden output :=
  { h with size := size.trans h.size }

theorem activate_run {values : List Float} (h : values.length = p.inputs.length) :
    (activate values).run p = .ok
      (p.outputs.map (forward p.code (p.memory.storeAll (p.inputs.zip values))).read)
      { p with memory := forward p.code (p.memory.storeAll (p.inputs.zip values)) } := by
  rw [activate, bind_of_ok (get_run p), if_pos h]
  rfl

theorem propagate_run {rate : Float} {targets : List Float} (hr : validRate rate)
    (ht : targets.length = p.targets.length) :
    (propagate rate targets).run p = .ok ()
      { p with memory :=
          backward p.code ((p.memory.store p.rate rate).storeAll (p.targets.zip targets)) } := by
  rw [propagate, bind_of_ok (get_run p)]
  simp only [hr, ht, ↓reduceIte]
  rfl

theorem Mirrors.activate (m : p.Mirrors stored live input hidden output) (h : live.Consistent)
    (layered : stored.Layered input hidden output) {values : List Float}
    (length_eq : values.length = input.size) :
    p.Shadows stored live input hidden output (activate values)
      (walkForward input hidden output values) := by
  have suits := m.suits
  have present := layered.present
  have live_present (r) (hr : r ∈ (rolesOf input hidden output).flatten) :
      live.neurons.contains r.1 := Graph.contains_of_skeleton m.skeleton (present r hr)
  have stores : p.inputs.zip values =
      ((input.neurons.zip values).map fun q => (Key.activation q.1, q.2)).map fun w =>
        (p.table.slot w.1, w.2) := by
    rw [suits.inputs, List.zip_map_left, List.map_map]
    rfl
  have slots (w) (hw : w ∈ (input.neurons.zip values).map fun q => (Key.activation q.1, q.2)) :
      (p.table.slot? w.1).isSome := by
    obtain ⟨q, hq, rfl⟩ := List.mem_map.mp hw
    refine suits.activation_slot (q.1, .input) ?_
    rw [rolesOf_flatten, List.mem_append]
    exact .inl (List.mem_map_of_mem (List.of_mem_zip hq).1)
  obtain ⟨size, view_eq⟩ := SlotTable.forward_spec stored.reading suits.covers
    ((SlotTable.size_storeAll p.memory (p.inputs.zip values)).trans suits.size)
  rw [stores, SlotTable.view_storeAll suits.size slots, Graph.listings_flatten,
    ← Graph.foldl_fire_of_skeleton_eq m.skeleton present, ← stores] at view_eq
  have live_layered := layered.of_skeleton_eq m.skeleton
  obtain ⟨live', run_eq, skeleton_eq, agrees⟩ := Graph.follows_walkForward h.toLinked m.agrees
    live_layered.nodup (fun id hid => (live_layered.mem_iff id).mp hid) length_eq rfl
  refine ⟨_, _, live', activate_run (by rw [suits.inputs, length_eq, List.length_map]; rfl), ?_,
    h.of_fire m.agrees live_present _ skeleton_eq agrees, suits.withMemory ?_,
    m.skeleton.trans skeleton_eq, ?_⟩
  · rw [run_eq, suits.outputs, suits.code, ← view_eq, List.map_map]
    congr 1
    refine List.map_congr_left fun id hid => ?_
    obtain ⟨i, hi, rfl⟩ := List.mem_iff_getElem.mp hid
    refine SlotTable.view_of_slot (suits.activation_slot (output.neurons[i], .output i) ?_)
    rw [rolesOf_flatten, workers, List.mem_append, List.mem_append, List.mem_mapIdx]
    exact .inr (.inr ⟨i, hi, rfl⟩)
  · rw [suits.code, size, SlotTable.size_storeAll]
  · rw [← view_eq, ← suits.code] at agrees
    exact agrees

theorem Mirrors.propagate (m : p.Mirrors stored live input hidden output) (h : live.Consistent)
    (layered : stored.Layered input hidden output) {rate : Float} {targets : List Float}
    (hr : validRate rate) (length_eq : targets.length = output.size) :
    p.Shadows stored live input hidden output (propagate rate targets)
      (walkBackward hidden output rate targets) := by
  have suits := m.suits
  have live_layered := layered.of_skeleton_eq m.skeleton
  have present (r) (hr : r ∈ (workers hidden output).reverse) : stored.neurons.contains r.1 := by
    rw [← layered.mem_iff, ← rolesOf_ids, rolesOf_flatten]
    exact List.mem_map_of_mem (List.mem_append.mpr (.inr (List.mem_reverse.mp hr)))
  have stores : (p.memory.store p.rate rate).storeAll (p.targets.zip targets) =
      p.memory.storeAll ((taught rate targets).map fun w => (p.table.slot w.1, w.2)) := by
    rw [suits.rate, suits.targets, taught, length_eq, List.zip_map_left, List.map_cons, List.map_map]
    rfl
  have slots (w) (hw : w ∈ taught rate targets) : (p.table.slot? w.1).isSome := by
    rcases mem_taught hw with rfl | ⟨i, x, hi, rfl⟩
    · exact suits.rate_slot
    · exact suits.target_slot i (length_eq ▸ hi)
  have agrees := m.agrees.taught rate targets
  obtain ⟨size, view_eq⟩ := SlotTable.backward_spec stored.reading suits.covers
    ((SlotTable.size_storeAll p.memory _).trans suits.size)
    (m := p.memory.storeAll ((taught rate targets).map fun w => (p.table.slot w.1, w.2)))
  rw [SlotTable.view_storeAll suits.size slots, Graph.listings_workers, ← List.map_reverse,
    ← Graph.foldl_learn_of_skeleton_eq m.skeleton present] at view_eq
  obtain ⟨live', run_eq, skeleton_eq, agrees'⟩ := Graph.follows_walkBackward h.toLinked agrees
    (fun id hid => (live_layered.mem_iff id).mp (List.mem_append_right _ hid)) length_eq
    fun i hi => (store_taught_target _ rate hi).symm
  rw [store_taught_rate] at run_eq
  refine ⟨(), _, live', propagate_run hr (by rw [suits.targets, length_eq]; simp), run_eq,
    h.of_learn agrees (fun r hr => Graph.contains_of_skeleton m.skeleton (present r hr)) skeleton_eq
      agrees', suits.withMemory ?_, m.skeleton.trans skeleton_eq, ?_⟩
  · rw [suits.code, stores, size, SlotTable.size_storeAll]
  · rw [← view_eq, ← suits.code, ← stores] at agrees'
    exact agrees'

/-- Writing back makes the stored graph the live one. -/
theorem Mirrors.writeBack_run (m : p.Mirrors stored live input hidden output) (h : stored.Linked)
    (layered : stored.Layered input hidden output) : p.writeBack.run stored = .ok () live := by
  have neurons_eq : p.neurons = idsOf input hidden output := by rw [m.suits.neurons, rolesOf_ids]
  have hids (id : NeuronId) : id ∈ p.neurons ↔ stored.neurons.contains id := by
    rw [neurons_eq, layered.mem_iff]
  rcases p.writeBack_cases stored with ⟨-, g, run_eq, overwrites⟩ | ⟨missing, -⟩
  · rw [run_eq, overwrites.eq_live h (fun id hid => (hids id).mpr hid) m.skeleton m.agrees]
  · exact absurd (resolves_of_linked h fun id hid => (hids id).mp hid) missing

theorem Mirrors.restoreInto (m : p.Mirrors stored live input hidden output) (h : stored.Linked)
    (layered : stored.Layered input hidden output) : p.restoreInto stored = .ok live :=
  restoreInto_of_ok (m.writeBack_run h layered)

end Steps

end Program

end GatedNetwork
