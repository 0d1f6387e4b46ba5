import GatedNetwork.Proofs.Program.Mirror

/-! Where the numbers of a program are. The slots of a table fill the memory without gaps, and every
number that a graph keeps has one. -/

namespace GatedNetwork

open Listing

namespace SlotTable

theorem lt_size_iff (t : SlotTable) (s : Slot) :
    s < t.entries.size ↔ ∃ k, t.slot? k = some s := by
  refine ⟨fun hs => ⟨t.entries[s].key, (t.indexed _ s).mpr ?_⟩, fun ⟨k, hk⟩ => lt_size_of_slot? hk⟩
  simp [hs]

theorem Starts.of_slot? {g : Graph} {t : SlotTable} (h : t.Starts g) {k : Key} {s : Slot}
    (hs : t.slot? k = some s) : ∃ x, t.entries[s]? = some ⟨k, x⟩ ∧ g.value k = .ok x := by
  obtain ⟨⟨k', x⟩, hv, rfl⟩ := Option.map_eq_some_iff.mp ((t.indexed k s).mp hs)
  exact ⟨x, hv, h s _ hv⟩

theorem some_slot {t : SlotTable} {k : Key} (h : (t.slot? k).isSome) : some (t.slot k) = t.slot? k := by
  obtain ⟨s, hs⟩ := Option.isSome_iff_exists.mp h
  rw [slot, hs]
  rfl

theorem slot_lt {t : SlotTable} {k : Key} (h : (t.slot? k).isSome) : t.slot k < t.entries.size :=
  lt_size_of_slot? (some_slot h).symm

theorem map_some_slots {α : Type} {t : SlotTable} {f : α → Key} {xs : List α}
    (h : ∀ x ∈ xs, (t.slot? (f x)).isSome) :
    (xs.map fun x => t.slot (f x)).map some = xs.map fun x => t.slot? (f x) := by
  rw [List.map_map]
  exact List.map_congr_left fun x hx => some_slot (h x hx)

end SlotTable

section Requesting

variable {g : Graph} {id : NeuronId} {n : Neuron} {k : Key}

theorem mem_requests_of_mem_ownKeys (g : Graph) (hk : k ∈ ownKeys id n) (role : Role) :
    k ∈ (listingOf g id n role).requests := by
  cases role <;> simp [listingOf, ofErrorBlock, hk]

theorem mem_ownKeys_of_held? (traced : n.Traced) (hk : k.IsOf id) (hx : (n.held? k).isSome) :
    k ∈ ownKeys id n := by
  cases k with
  | rate | target | error | gradient => exact hk.elim
  | eligibility _ c =>
    obtain rfl := hk
    have entering : n.inputs.contains c := (traced.eligibility c).symm.trans hx
    simp [ownKeys, entering]
  | influence _ k =>
    obtain rfl := hk
    have traces : n.trace.extended.contains k := (traced.influences k).symm.trans hx
    obtain ⟨row, hrow⟩ := Option.isSome_iff_exists.mp traces
    have listed : (k, row) ∈ n.trace.extended.toList := SortedMap.get?_eq_some_iff.mp hrow
    simp only [ownKeys, List.mem_append, List.mem_flatMap]
    exact .inl (.inr ⟨_, listed, List.mem_cons_self⟩)
  | extended _ k c =>
    obtain rfl := hk
    obtain ⟨x, hx⟩ := Option.isSome_iff_exists.mp hx
    obtain ⟨row, hrow, hc⟩ := Option.bind_eq_some_iff.mp hx
    have listed : (k, row) ∈ n.trace.extended.toList := SortedMap.get?_eq_some_iff.mp hrow
    have member : c ∈ row.keys := by simp [SortedMap.mem_keys, SortedMap.contains_eq_isSome, hc]
    simp only [ownKeys, List.mem_append, List.mem_flatMap]
    exact .inl (.inr ⟨_, listed, List.mem_cons_of_mem _ (List.mem_map_of_mem member)⟩)
  | _ =>
    obtain rfl := hk
    simp [ownKeys]

end Requesting

/-- Every connection that is stored is listed by the neuron that it leaves. -/
def Graph.Filed (g : Graph) : Prop :=
  ∀ c n, g.connections.contains c → g.neurons.get? c.source = some n → n.projected.contains c

theorem Graph.filed_iff {g : Graph} : g.Filed ↔
    ∀ c ∈ g.connections.keys, ∀ n ∈ g.neurons.get? c.source, n.projected.contains c := by
  simp only [Filed, SortedMap.mem_keys, Option.mem_def]
  exact ⟨fun filed c joined n hn => filed c n joined hn, fun listed c n joined hn => listed c joined n hn⟩

instance (g : Graph) : Decidable g.Filed := decidable_of_iff _ Graph.filed_iff.symm

theorem Graph.Linked.filed {g : Graph} (h : g.Linked) : g.Filed := fun c n joined hn =>
  (h.projected_iff c.source n hn c).mpr ⟨rfl, joined⟩

namespace Program

variable {p : Program} {g : Graph} {input output : Layer} {hidden : List Layer} {k : Key}

theorem Suits.neurons_eq (h : p.Suits g input hidden output) : p.neurons = idsOf input hidden output := by
  rw [h.neurons, rolesOf_ids]

/-- No number of the graph is left without a slot. -/
theorem Suits.slot_of_held? (h : p.Suits g input hidden output) (linked : g.Linked)
    (layered : g.Layered input hidden output) (hk : (g.held? k).isSome) :
    (p.table.slot? k).isSome := by
  obtain ⟨x, hx⟩ := Option.isSome_iff_exists.mp hk
  have asked {id : NeuronId} {n : Neuron} (hn : g.neurons.get? id = some n)
      (own : k ∈ ownKeys id n) : (p.table.slot? k).isSome := by
    have listed : id ∈ (rolesOf input hidden output).flatten.map (·.1) := by
      rw [rolesOf_ids, layered.mem_iff]
      exact Graph.contains_of_get? hn
    obtain ⟨r, hr, rfl⟩ := List.mem_map.mp listed
    refine h.requested r hr k ?_
    rw [Graph.listing_eq hn]
    exact mem_requests_of_mem_ownKeys g own r.2
  rcases Graph.isOf_or_of_held? hx with ⟨id, n, hn, own⟩ | ⟨c, d, regular, hd, hk'⟩
  · refine asked hn (mem_ownKeys_of_held? (linked.traced id n hn) own ?_)
    rwa [Graph.held?_of_isOf own, hn, Option.bind_some] at hk
  · obtain ⟨n, hn⟩ := Graph.get?_of_contains (linked.ends hd).1
    have joined : g.connections.contains c := by
      rw [SortedMap.contains_eq_isSome, ← Graph.connection?_of_not_isSelf regular, hd]
      rfl
    have projected : c ∈ n.projected.toList :=
      SortedSet.mem_toList_iff.mpr ((linked.projected_iff _ n hn c).mpr ⟨rfl, joined⟩)
    refine asked hn ?_
    simp only [ownKeys, List.mem_append, List.mem_flatMap]
    exact .inr ⟨c, projected, by rcases hk' with rfl | rfl <;> simp⟩

theorem Suits.activation_isSome (h : p.Suits g input hidden output) {id : NeuronId}
    (hid : id ∈ idsOf input hidden output) : (p.table.slot? (.activation id)).isSome := by
  rw [← rolesOf_ids] at hid
  obtain ⟨r, hr, rfl⟩ := List.mem_map.mp hid
  exact h.activation_slot r hr

/-- The memory has one place for each number of the layers over a graph, and starts with it. -/
structure Places (p : Program) (g : Graph) (input : Layer) (hidden : List Layer) (output : Layer) :
    Prop where
  apart : ∀ k k' s, p.table.slot? k = some s → p.table.slot? k' = some s → k = k'
  fills : ∀ s, s < p.memory.size ↔ ∃ k, p.table.slot? k = some s
  starts : ∀ k s, p.table.slot? k = some s → ∃ x, p.table.entries[s]? = some ⟨k, x⟩ ∧
    p.memory[s]? = some x ∧ g.value k = .ok x ∧ (k.isField = false → x = 0)
  inputs : p.inputs.map some = input.neurons.map fun id => p.table.slot? (.activation id)
  outputs : p.outputs.map some = output.neurons.map fun id => p.table.slot? (.activation id)
  targets : p.targets.map some = (List.range output.size).map fun i => p.table.slot? (.target i)
  rate : some p.rate = p.table.slot? .rate
  neurons : p.neurons = idsOf input hidden output
  complete : ∀ k, (g.held? k).isSome → (p.table.slot? k).isSome

theorem Suits.places (h : p.Suits g input hidden output)
    (fresh : p.memory = p.table.entries.map (·.start)) (linked : g.Linked)
    (layered : g.Layered input hidden output) : p.Places g input hidden output := by
  refine {
    apart := fun k k' s => SlotTable.slot?_inj
    fills := fun s => by rw [h.size, SlotTable.lt_size_iff]
    starts := fun k s hs => ?_
    inputs := ?_
    outputs := ?_
    targets := ?_
    rate := h.rate ▸ SlotTable.some_slot h.rate_slot
    neurons := h.neurons_eq
    complete := fun k => h.slot_of_held? linked layered }
  · obtain ⟨x, entry, value_eq⟩ := h.starts.of_slot? hs
    refine ⟨x, entry, by simp [fresh, entry], value_eq, fun scratch => ?_⟩
    cases k with
    | rate | target | error | gradient => exact (Except.ok.inj value_eq).symm
    | _ => nomatch scratch
  · rw [h.inputs, SlotTable.map_some_slots fun id hid =>
      h.activation_isSome (List.mem_append_left _ hid)]
  · rw [h.outputs, SlotTable.map_some_slots fun id hid =>
      h.activation_isSome (List.mem_append_right _ (List.mem_append_right _ hid))]
  · rw [h.targets, SlotTable.map_some_slots fun i hi => h.target_slot i (List.mem_range.mp hi)]

/-- Every number of the graph is overwritten when the memory is written back. -/
theorem Places.restores (h : p.Places g input hidden output) (linked : g.Linked)
    (layered : g.Layered input hidden output) (m : Memory) :
    ∃ g', { p with memory := m }.restoreInto g = .ok g' ∧ ∀ k, (g.held? k).isSome →
      g'.held? k = { p with memory := m }.value? k ∧ ({ p with memory := m }.value? k).isSome := by
  have covered (id : NeuronId) : id ∈ p.neurons ↔ g.neurons.contains id := by
    rw [h.neurons, layered.mem_iff]
  rcases { p with memory := m }.writeBack_cases g with ⟨-, g', run_eq, written⟩ | ⟨missing, -⟩
  · refine ⟨g', restoreInto_of_ok run_eq, fun k hk => ?_⟩
    have reached := covers_of_linked (p := { p with memory := m }) linked
      (fun id hid => (covered id).mpr hid) hk
    obtain ⟨s, hs⟩ := Option.isSome_iff_exists.mp (h.complete k hk)
    obtain ⟨x, hx⟩ := Option.isSome_iff_exists.mp hk
    rw [written.written k reached, hx]
    simp [live, value?, hs]
  · exact absurd (resolves_of_linked linked fun id hid => (covered id).mp hid) missing

/-- Every slot belongs to a neuron that the program covers, or to a connection that leaves one. -/
structure Anchored (p : Program) : Prop where
  own : ∀ k id, (p.table.slot? k).isSome → k.IsOf id → id ∈ p.neurons
  projected : ∀ c, (p.table.slot? (.weight c)).isSome ∨ (p.table.slot? (.gain c)).isSome →
    c.source ∈ p.neurons

theorem Suits.anchored (h : p.Suits g input hidden output) (linked : g.Linked)
    (layered : g.Layered input hidden output) : p.Anchored := by
  have covered {id : NeuronId} (hid : g.neurons.contains id) : id ∈ p.neurons := by
    rw [h.neurons_eq, layered.mem_iff, hid]
  have valued {k : Key} (hk : (p.table.slot? k).isSome) : ∃ x, g.value k = .ok x := by
    obtain ⟨s, hs⟩ := Option.isSome_iff_exists.mp hk
    obtain ⟨x, -, hx⟩ := h.starts.of_slot? hs
    exact ⟨x, hx⟩
  have there {c : ConnectionId} {f : Connection → Float} {x : Float}
      (hx : (g.connection c).map f = .ok x) : ∃ d, g.connection? c = some d := by
    cases hd : g.connection? c with
    | some d => exact ⟨d, rfl⟩
    | none =>
      rw [Graph.connection_eq_error hd] at hx
      nomatch hx
  constructor
  · intro k id hk own
    obtain ⟨x, hx⟩ := valued hk
    have kept {id : NeuronId} {f : Neuron → Float} (hx : (g.neuron id).map f = .ok x) :
        id ∈ p.neurons := by
      cases hn : g.neurons.get? id with
      | some n => exact covered (Graph.contains_of_get? hn)
      | none =>
        rw [Graph.neuron_eq_error hn] at hx
        nomatch hx
    cases k with
    | rate | target | error | gradient => exact own.elim
    | weight c | gain c =>
      obtain ⟨d, hd⟩ := there hx
      obtain rfl : c = .loop id := own
      exact covered (linked.ends hd).1
    | _ =>
      obtain rfl := own
      exact kept hx
  · rintro c (hk | hk)
    all_goals
      obtain ⟨x, hx⟩ := valued hk
      obtain ⟨d, hd⟩ := there hx
      exact covered (linked.ends hd).1

/-- If every connection is listed by the neuron that it leaves, all that has a slot is written. -/
theorem Anchored.covers (h : p.Anchored) (filed : g.Filed) (there : p.Resolves g)
    (hs : (p.table.slot? k).isSome) (hk : (g.held? k).isSome) : p.Covers g k := by
  obtain ⟨x, hx⟩ := Option.isSome_iff_exists.mp hk
  rcases Graph.isOf_or_of_held? hx with ⟨id, n, -, own⟩ | ⟨c, d, regular, hd, hk'⟩
  · exact ⟨id, h.own k id hs own, .inl own⟩
  · have source : c.source ∈ p.neurons :=
      h.projected c (by rcases hk' with rfl | rfl <;> simp [hs])
    have joined : g.connections.contains c := by
      rw [SortedMap.contains_eq_isSome, ← Graph.connection?_of_not_isSelf regular, hd]
      rfl
    obtain ⟨n, hn, -⟩ := there c.source source
    exact ⟨c.source, source, .inr ⟨n, c, hn, filed c n joined hn, hk'⟩⟩

theorem Anchored.held?_eq (h : p.Anchored) (filed : g.Filed) (there : p.Resolves g) {g' : Graph}
    (written : p.Overwrites (p.Covers g) g g') (k : Key) :
    g'.held? k = (g.held? k).map (p.live k) := by
  by_cases covered : p.Covers g k
  · exact written.written k covered
  · rw [written.kept k covered]
    cases hx : g.held? k with
    | none => rfl
    | some x =>
      have unslotted : p.table.slot? k = none := by
        rw [← Option.not_isSome_iff_eq_none]
        exact fun hs => covered (h.covers filed there hs (by simp [hx]))
      simp [live, value?, unslotted]

end Program

end GatedNetwork
