import GatedNetwork.Proofs.Program.Requests

/-! Compiling succeeds where the indexes of the graph agree, and the program starts with the
numbers of the graph. -/

namespace GatedNetwork

namespace SlotTable

/-- The slots were made for this graph: each starts with the number that the graph holds. -/
def Starts (g : Graph) (t : SlotTable) : Prop :=
  ∀ (s : Slot) (v : Variable), t.entries[s]? = some v → g.value v.key = .ok v.start

section Reserving

variable {g : Graph} {t : SlotTable}

theorem starts_empty (g : Graph) : empty.Starts g := by
  intro s v h
  simp [empty] at h

theorem slot?_push (k : Key) (start : Float) (fresh : t.slot? k = none) (k' : Key) :
    (t.push k start fresh).slot? k' = if k = k' then some t.entries.size else t.slot? k' := by
  simp [slot?, push, Std.HashMap.getElem?_insert]

theorem Starts.push (h : t.Starts g) {k : Key} {start : Float} (fresh : t.slot? k = none)
    (hk : g.value k = .ok start) : (t.push k start fresh).Starts g := by
  intro s v hv
  simp only [SlotTable.push, Array.getElem?_push] at hv
  split at hv
  · obtain rfl := Option.some.inj hv
    exact hk
  · exact h s v hv

theorem reserve_spec (h : t.Starts g) {k : Key} (hk : k.Has g) :
    ∃ t', reserve g t k = .ok t' ∧ t'.Starts g ∧ (t'.slot? k).isSome ∧
      ∀ k', (t.slot? k').isSome → (t'.slot? k').isSome := by
  rw [reserve]
  split
  · rename_i s hs
    exact ⟨t, rfl, h, by simp [hs], fun _ h => h⟩
  · rename_i fresh
    obtain ⟨start, hstart⟩ := hk
    refine ⟨t.push k start fresh, by rw [hstart]; rfl, h.push fresh hstart, ?_, fun k' hk' => ?_⟩
    · simp [slot?_push]
    · rw [slot?_push]
      split
      · rfl
      · exact hk'

theorem reserveEach_spec (h : t.Starts g) {ks : List Key} (hks : ∀ k ∈ ks, k.Has g) :
    ∃ t', ks.foldlM (reserve g) t = .ok t' ∧ t'.Starts g ∧ (∀ k ∈ ks, (t'.slot? k).isSome) ∧
      ∀ k', (t.slot? k').isSome → (t'.slot? k').isSome := by
  induction ks generalizing t with
  | nil => exact ⟨t, rfl, h, by simp, fun _ h => h⟩
  | cons k ks ih =>
    obtain ⟨t₁, reserve_eq, h₁, hk, kept₁⟩ := reserve_spec h (hks k (by simp))
    obtain ⟨t₂, each_eq, h₂, hks₂, kept₂⟩ := ih h₁ fun k' hk' => hks k' (by simp [hk'])
    refine ⟨t₂, ?_, h₂, fun k' hk' => ?_, fun k' hk' => kept₂ k' (kept₁ k' hk')⟩
    · rw [List.foldlM_cons, reserve_eq]
      exact each_eq
    · rcases List.mem_cons.mp hk' with rfl | hk'
      · exact kept₂ _ hk
      · exact hks₂ k' hk'

theorem view_start (h : t.Starts g) : t.view g.reading (t.entries.map (·.start)) = g.reading := by
  funext k
  rw [view]
  cases hs : t.slot? k with
  | none => rfl
  | some s =>
    obtain ⟨v, hv, rfl⟩ := Option.map_eq_some_iff.mp ((t.indexed k s).mp hs)
    simp [Memory.read, hv, Graph.reading, h s v hv, Except.toOption]

end Reserving

end SlotTable

theorem Graph.listing_id (g : Graph) (r : NeuronId × Role) : (g.listing r).id = r.1 := by
  obtain ⟨id, role⟩ := r
  cases role <;> rfl

theorem Graph.listing_role (g : Graph) (r : NeuronId × Role) : (g.listing r).role = r.2 := by
  obtain ⟨id, role⟩ := r
  cases role <;> rfl

def Graph.listings (g : Graph) (input : Layer) (hidden : List Layer) (output : Layer) :
    List (List Listing) := (rolesOf input hidden output).map (·.map g.listing)

theorem Graph.listings_flatten (g : Graph) (input : Layer) (hidden : List Layer) (output : Layer) :
    (g.listings input hidden output).flatten =
      (rolesOf input hidden output).flatten.map g.listing := by
  rw [listings, List.map_flatten]

/-- The program runs these layers of a graph. -/
structure Program.Suits (p : Program) (g : Graph) (input : Layer) (hidden : List Layer)
    (output : Layer) : Prop where
  code : p.code = (Code.ofListings (g.listings input hidden output)).map p.table.slot
  inputs : p.inputs = input.neurons.map fun id => p.table.slot (.activation id)
  outputs : p.outputs = output.neurons.map fun id => p.table.slot (.activation id)
  targets : p.targets = (List.range output.size).map fun i => p.table.slot (.target i)
  rate : p.rate = p.table.slot .rate
  neurons : p.neurons = (rolesOf input hidden output).flatten.map (·.1)
  starts : p.table.Starts g
  requested : ∀ r ∈ (rolesOf input hidden output).flatten, ∀ k ∈ (g.listing r).requests,
    (p.table.slot? k).isSome
  covers : ∀ l ∈ (g.listings input hidden output).flatten, p.table.Covers l
  activation_slot : ∀ r ∈ (rolesOf input hidden output).flatten,
    (p.table.slot? (.activation r.1)).isSome
  target_slot : ∀ i < output.size, (p.table.slot? (.target i)).isSome
  rate_slot : (p.table.slot? .rate).isSome
  size : p.memory.size = p.table.entries.size

section Compiling

variable {g : Graph} {input output : Layer} {hidden : List Layer}

theorem listEach_eq (h : g.Linked)
    (present : ∀ r ∈ (rolesOf input hidden output).flatten, g.neurons.contains r.1) :
    (rolesOf input hidden output).mapM (fun layer =>
      layer.mapM fun (id, role) => Listing.ofNeuron g id role) =
      .ok (g.listings input hidden output) := by
  refine mapM_eq_ok fun layer hlayer => mapM_eq_ok fun r hr => ?_
  obtain ⟨n, hn⟩ := Graph.get?_of_contains (present r (List.mem_flatten.mpr ⟨layer, hlayer, hr⟩))
  rw [Graph.listing_eq hn]
  exact ofNeuron_eq h hn r.2

theorem activation_mem_requests (g : Graph) (r : NeuronId × Role) :
    .activation r.1 ∈ (g.listing r).requests := by
  obtain ⟨id, role⟩ := r
  cases role <;> simp [Graph.listing, listingOf, Listing.ofErrorBlock, Listing.ownKeys]

theorem target_mem_requests (g : Graph) (id : NeuronId) (i : Nat) :
    .target i ∈ (g.listing (id, .output i)).requests := by
  simp [Graph.listing, listingOf, Listing.ofErrorBlock, Listing.outputErrorBlock, Listing.keysOf,
    Instruction.operands]

theorem filter_input (g : Graph) (input : Layer) (hidden : List Layer) (output : Layer) :
    (g.listings input hidden output).flatten.filter (·.role = .input) =
      (input.neurons.map (·, .input)).map g.listing := by
  rw [g.listings_flatten, rolesOf_flatten, List.map_append, List.filter_append,
    List.filter_eq_self.mpr, List.filter_eq_nil_iff.mpr, List.append_nil]
  · intro l hl
    obtain ⟨r, hr, rfl⟩ := List.mem_map.mp hl
    simpa [Graph.listing_role] using workers_role hr
  · simp [Graph.listing_role]

theorem filter_output (g : Graph) (input : Layer) (hidden : List Layer) (output : Layer) :
    (g.listings input hidden output).flatten.filter (·.isOutput) =
      (output.neurons.mapIdx fun i id => (id, Role.output i)).map g.listing := by
  have not_output {r : NeuronId × Role} (hr : r.2 = .input ∨ r.2 = .hidden) :
      (g.listing r).isOutput = false := by
    rcases hr with hr | hr <;> simp [Listing.isOutput, Graph.listing_role, hr]
  rw [g.listings_flatten, rolesOf_flatten, workers, List.map_append, List.map_append,
    List.filter_append, List.filter_append, List.filter_eq_nil_iff.mpr, List.filter_eq_nil_iff.mpr,
    List.filter_eq_self.mpr, List.nil_append, List.nil_append]
  · intro l hl
    obtain ⟨r, hr, rfl⟩ := List.mem_map.mp hl
    obtain ⟨i, _, rfl⟩ := List.mem_mapIdx.mp hr
    simp [Listing.isOutput, Graph.listing_role]
  · intro l hl
    obtain ⟨r, hr, rfl⟩ := List.mem_map.mp hl
    obtain ⟨layer, -, hr⟩ := List.mem_flatMap.mp hr
    obtain ⟨id, -, rfl⟩ := List.mem_map.mp hr
    simp [not_output (r := (id, .hidden)) (.inr rfl)]
  · intro l hl
    obtain ⟨r, hr, rfl⟩ := List.mem_map.mp hl
    obtain ⟨id, -, rfl⟩ := List.mem_map.mp hr
    simp [not_output (r := (id, .input)) (.inl rfl)]

/-- Compiling gives a program for the layers, and its memory is what the slots start with. -/
theorem compile_spec (h : g.Linked)
    (present : ∀ r ∈ (rolesOf input hidden output).flatten, g.neurons.contains r.1) :
    ∃ p, compile g input hidden output = .ok p ∧ p.Suits g input hidden output ∧
      p.memory = p.table.entries.map (·.start) := by
  have has (k : Key) (hk : k ∈ Key.rate ::
      (g.listings input hidden output).flatten.flatMap (·.requests)) : k.Has g := by
    rcases List.mem_cons.mp hk with rfl | hk
    · exact ⟨0, rfl⟩
    · obtain ⟨l, hl, hk⟩ := List.mem_flatMap.mp hk
      rw [g.listings_flatten] at hl
      obtain ⟨r, hr, rfl⟩ := List.mem_map.mp hl
      obtain ⟨n, hn⟩ := Graph.get?_of_contains (present r hr)
      rw [Graph.listing_eq hn] at hk
      exact has_requests h hn r.2 hk
  obtain ⟨t, reserve_eq, starts, slots, -⟩ :=
    SlotTable.reserveEach_spec (SlotTable.starts_empty g) has
  have slot_of_request (r : NeuronId × Role) (hr : r ∈ (rolesOf input hidden output).flatten)
      {k : Key} (hk : k ∈ (g.listing r).requests) : (t.slot? k).isSome := by
    refine slots k (List.mem_cons_of_mem _ (List.mem_flatMap.mpr ⟨g.listing r, ?_, hk⟩))
    rw [g.listings_flatten]
    exact List.mem_map_of_mem hr
  rw [compile, listEach_eq h present]
  simp only [bind, Except.bind, Program.ofListings, reserve_eq]
  refine ⟨_, rfl, ?_, rfl⟩
  refine ⟨rfl, ?_, ?_, ?_, rfl, ?_, starts, fun r hr k hk => slot_of_request r hr hk,
    fun l hl b hb i hi k hk => ?_, fun r hr => ?_, fun i hi => ?_, slots .rate (by simp), by simp⟩
  · simp only [filter_input, List.map_map, Function.comp_def, Graph.listing_id]
  · simp only [filter_output, List.map_map, Function.comp_def, Graph.listing_id]
    exact List.ext_getElem (by simp) (by simp)
  · simp only [filter_output]
    exact List.ext_getElem (by simp [Layer.size]) (by simp)
  · simp only [g.listings_flatten, List.map_map, Function.comp_def, Graph.listing_id]
  · rw [g.listings_flatten] at hl
    obtain ⟨r, hr, rfl⟩ := List.mem_map.mp hl
    obtain ⟨n, hn⟩ := Graph.get?_of_contains (present r hr)
    refine slot_of_request r hr ?_
    rw [Graph.listing_eq hn] at hb ⊢
    exact mem_requests hb hi hk
  · exact slot_of_request r hr (activation_mem_requests g r)
  · refine slot_of_request (output.neurons[i], .output i) ?_ (target_mem_requests g _ i)
    rw [rolesOf_flatten, workers, List.mem_append, List.mem_append, List.mem_mapIdx]
    exact .inr (.inr ⟨i, hi, rfl⟩)

end Compiling

end GatedNetwork
