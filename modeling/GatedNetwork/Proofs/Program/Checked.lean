import GatedNetwork.Proofs.Program.Addressing

/-! Runs of a program in which every access to the memory is checked. A program that names no slot
outside of its memory runs through all of them. -/

namespace GatedNetwork

theorem Instruction.operands_map {α β : Type} (f : α → β) (i : Instruction α) :
    (i.map f).operands = i.operands.map f := by
  cases i <;> rfl

def Code.instructions {α : Type} (c : Code α) : List (Instruction α) :=
  c.activation.flatten.flatten ++ (c.trace.flatten.flatten ++ c.propagation.flatten.flatten)

namespace Memory

def store? (m : Memory) (s : Slot) (x : Float) : Option Memory :=
  if s < m.size then some (m.store s x) else none

def storeAll? (m : Memory) (writes : List (Slot × Float)) : Option Memory :=
  writes.foldlM (fun m w => m.store? w.1 w.2) m

/-- An instruction that names a slot outside of the memory has no result. -/
def step? (m : Memory) (i : Instruction Slot) : Option Memory :=
  if ∀ s ∈ i.operands, s < m.size then some (m.step i) else none

def run? (m : Memory) (b : Block Slot) : Option Memory := b.foldlM step? m

end Memory

namespace Program

def forward? (c : Code Slot) (m : Memory) : Option Memory :=
  (c.activation.zip c.trace).foldlM (fun m layer =>
    (layer.1.zip layer.2).foldlM (fun m blocks => (m.run? blocks.1).bind (·.run? blocks.2)) m) m

def backward? (c : Code Slot) (m : Memory) : Option Memory :=
  c.propagation.foldlM (fun m blocks => blocks.foldlM Memory.run? m) m

def activate? (p : Program) (input : List Float) :
    Option (EStateM.Result NetworkError Program (List Float)) :=
  if input.length = p.inputs.length then
    ((p.memory.storeAll? (p.inputs.zip input)).bind (forward? p.code)).bind fun m =>
      (p.outputs.mapM fun s => m[s]?).map fun output => .ok output { p with memory := m }
  else
    some (.error (.inputSize p.inputs.length input.length) p)

def propagate? (p : Program) (rate : Float) (target : List Float) :
    Option (EStateM.Result NetworkError Program Unit) :=
  if validRate rate then
    if target.length = p.targets.length then
      (((p.memory.store? p.rate rate).bind (·.storeAll? (p.targets.zip target))).bind
        (backward? p.code)).map fun m => .ok () { p with memory := m }
    else
      some (.error (.targetSize p.targets.length target.length) p)
  else
    some (.error (.invalidRate rate) p)

/-- Every slot that the program names is in its memory. -/
structure Addressed (p : Program) : Prop where
  operands : ∀ i ∈ p.code.instructions, ∀ s ∈ i.operands, s < p.memory.size
  inputs : ∀ s ∈ p.inputs, s < p.memory.size
  outputs : ∀ s ∈ p.outputs, s < p.memory.size
  targets : ∀ s ∈ p.targets, s < p.memory.size
  rate : p.rate < p.memory.size

/-- On memory of this size the checked action goes through, and does what it does without checks. -/
def Passes (size : Nat) (act? : Memory → Option Memory) (act : Memory → Memory) : Prop :=
  ∀ m : Memory, m.size = size → act? m = some (act m) ∧ (act m).size = size

section Passing

variable {size : Nat} {m : Memory}

theorem Passes.bind {f? g? : Memory → Option Memory} {f g : Memory → Memory} (hf : Passes size f? f)
    (hg : Passes size g? g) : Passes size (fun m => (f? m).bind g?) fun m => g (f m) := by
  intro m hm
  obtain ⟨first, kept⟩ := hf m hm
  obtain ⟨second, kept'⟩ := hg (f m) kept
  refine ⟨?_, kept'⟩
  change (f? m).bind g? = some (g (f m))
  rw [first, Option.bind_some, second]

theorem passes_foldlM {α : Type} {xs : List α} {f? : Memory → α → Option Memory}
    {f : Memory → α → Memory} (h : ∀ x ∈ xs, Passes size (f? · x) (f · x)) :
    Passes size (xs.foldlM f? ·) (xs.foldl f ·) := by
  induction xs with
  | nil => exact fun m hm => ⟨rfl, hm⟩
  | cons x xs ih =>
    intro m hm
    obtain ⟨first, kept⟩ := h x (by simp) m hm
    obtain ⟨rest, kept'⟩ := ih (fun y hy => h y (by simp [hy])) (f m x) kept
    refine ⟨?_, kept'⟩
    change (f? m x).bind (xs.foldlM f? ·) = _
    rw [show f? m x = some (f m x) from first]
    exact rest

theorem passes_store {s : Slot} (hs : s < size) (x : Float) :
    Passes size (·.store? s x) (·.store s x) := fun m hm =>
  ⟨if_pos (hm ▸ hs), (SlotTable.size_store m s x).trans hm⟩

theorem passes_storeAll (writes : List (Slot × Float)) (h : ∀ w ∈ writes, w.1 < size) :
    Passes size (·.storeAll? writes) (·.storeAll writes) :=
  passes_foldlM fun w hw => passes_store (h w hw) w.2

theorem passes_run {b : Block Slot} (h : ∀ i ∈ b, ∀ s ∈ i.operands, s < size) :
    Passes size (·.run? b) (·.run b) :=
  passes_foldlM fun i hi m hm => ⟨if_pos fun s hs => hm ▸ h i hi s hs, (SlotTable.size_step m i).trans hm⟩

variable {c : Code Slot}

theorem passes_forward (h : ∀ i ∈ c.instructions, ∀ s ∈ i.operands, s < size) :
    Passes size (forward? c) (forward c) := by
  have block {b : Block Slot} (hb : b ∈ c.activation.flatten ∨ b ∈ c.trace.flatten) :
      Passes size (·.run? b) (·.run b) := by
    refine passes_run fun i hi => h i ?_
    rcases hb with hb | hb
    · exact List.mem_append_left _ (List.mem_flatten_of_mem hb hi)
    · exact List.mem_append_right _ (List.mem_append_left _ (List.mem_flatten_of_mem hb hi))
  refine passes_foldlM fun layer hlayer => passes_foldlM fun blocks hblocks => ?_
  obtain ⟨activation, trace⟩ := List.of_mem_zip hlayer
  obtain ⟨fires, traces⟩ := List.of_mem_zip hblocks
  exact (block (.inl (List.mem_flatten_of_mem activation fires))).bind
    (block (.inr (List.mem_flatten_of_mem trace traces)))

theorem passes_backward (h : ∀ i ∈ c.instructions, ∀ s ∈ i.operands, s < size) :
    Passes size (backward? c) (backward c) :=
  passes_foldlM fun _ hblocks => passes_foldlM fun _ hb => passes_run fun i hi =>
    h i (List.mem_append_right _ (List.mem_append_right _
      (List.mem_flatten_of_mem (List.mem_flatten_of_mem hblocks hb) hi)))

end Passing

section Running

variable {p : Program}

theorem Addressed.withMemory (h : p.Addressed) {m : Memory} (size : m.size = p.memory.size) :
    { p with memory := m }.Addressed where
  operands i hi s hs := by
    have bounded := h.operands i hi s hs
    simpa only [size] using bounded
  inputs s hs := by simpa only [size] using h.inputs s hs
  outputs s hs := by simpa only [size] using h.outputs s hs
  targets s hs := by simpa only [size] using h.targets s hs
  rate := by simpa only [size] using h.rate

theorem readAll_eq {m : Memory} {ss : List Slot} (h : ∀ s ∈ ss, s < m.size) :
    (ss.mapM fun s => m[s]?) = some (ss.map m.read) := by
  induction ss with
  | nil => rfl
  | cons s ss ih =>
    have bounded : s < m.size := h s (by simp)
    rw [List.mapM_cons, ih fun s hs => h s (by simp [hs])]
    simp [Memory.read, bounded]

/-- A forward pass stays within the memory, and changes nothing but its numbers. -/
theorem Addressed.activate (h : p.Addressed) (input : List Float) :
    p.activate? input = some ((Program.activate input).run p) ∧
      ∃ m : Memory, m.size = p.memory.size ∧
        after ((Program.activate input).run p) = { p with memory := m } := by
  by_cases fits : input.length = p.inputs.length
  · have stores := passes_storeAll (p.inputs.zip input) fun w hw =>
      h.inputs w.1 (List.of_mem_zip hw).1
    obtain ⟨passed, size_eq⟩ := stores.bind (passes_forward h.operands) p.memory rfl
    beta_reduce at passed size_eq
    rw [activate_run fits]
    refine ⟨?_, _, size_eq, rfl⟩
    rw [activate?, if_pos fits, passed, Option.bind_some, readAll_eq fun s hs => size_eq ▸ h.outputs s hs]
    rfl
  · have refused : (Program.activate input).run p = .error (.inputSize p.inputs.length input.length) p := by
      rw [Program.activate, bind_of_ok (get_run p), if_neg fits]
      rfl
    rw [refused, activate?, if_neg fits]
    exact ⟨rfl, p.memory, rfl, rfl⟩

theorem Addressed.propagate (h : p.Addressed) (rate : Float) (target : List Float) :
    p.propagate? rate target = some ((Program.propagate rate target).run p) ∧
      ∃ m : Memory, m.size = p.memory.size ∧
        after ((Program.propagate rate target).run p) = { p with memory := m } := by
  by_cases valid : validRate rate
  · by_cases fits : target.length = p.targets.length
    · have stores := (passes_store h.rate rate).bind (passes_storeAll (p.targets.zip target)
        fun w hw => h.targets w.1 (List.of_mem_zip hw).1)
      obtain ⟨passed, size_eq⟩ := stores.bind (passes_backward h.operands) p.memory rfl
      beta_reduce at passed size_eq
      rw [propagate_run valid fits]
      refine ⟨?_, _, size_eq, rfl⟩
      rw [propagate?, if_pos valid, if_pos fits, passed]
      rfl
    · have refused : (Program.propagate rate target).run p =
          .error (.targetSize p.targets.length target.length) p := by
        rw [Program.propagate, bind_of_ok (get_run p), if_pos valid, if_neg fits]
        rfl
      rw [refused, propagate?, if_pos valid, if_neg fits]
      exact ⟨rfl, p.memory, rfl, rfl⟩
  · have refused : (Program.propagate rate target).run p = .error (.invalidRate rate) p := by
      rw [Program.propagate, bind_of_ok (get_run p), if_neg valid]
      rfl
    rw [refused, propagate?, if_neg valid]
    exact ⟨rfl, p.memory, rfl, rfl⟩

end Running

section Compiled

theorem mem_renamed {α β : Type} {f : α → β} {layers : List (List (Block α))} {i : Instruction β}
    (hi : i ∈ (layers.map (·.map (·.map (·.map f)))).flatten.flatten) :
    ∃ b ∈ layers.flatten, ∃ j ∈ b, j.map f = i := by
  rw [← List.map_flatten, ← List.flatMap_def] at hi
  obtain ⟨b, hb, hi⟩ := List.mem_flatMap.mp hi
  obtain ⟨j, hj, rfl⟩ := List.mem_map.mp hi
  exact ⟨b, hb, j, hj, rfl⟩

theorem mem_instructions {layers : List (List Listing)} {f : Key → Slot} {i : Instruction Slot}
    (hi : i ∈ ((Code.ofListings layers).map f).instructions) :
    ∃ l ∈ layers.flatten, ∃ b ∈ [l.activation, l.trace, l.propagation], ∃ j ∈ b, j.map f = i := by
  rcases List.mem_append.mp hi with hi | hi
  · obtain ⟨b, hb, instruction⟩ := mem_renamed hi
    rw [Code.ofListings, ← List.map_flatten] at hb
    obtain ⟨l, hl, rfl⟩ := List.mem_map.mp hb
    exact ⟨l, hl, _, by simp, instruction⟩
  rcases List.mem_append.mp hi with hi | hi
  · obtain ⟨b, hb, instruction⟩ := mem_renamed hi
    rw [Code.ofListings, ← List.map_flatten] at hb
    obtain ⟨l, hl, rfl⟩ := List.mem_map.mp hb
    exact ⟨l, hl, _, by simp, instruction⟩
  · obtain ⟨b, hb, instruction⟩ := mem_renamed hi
    obtain ⟨blocks, hblocks, hb⟩ := List.mem_flatten.mp hb
    obtain ⟨layer, hlayer, rfl⟩ := List.mem_map.mp (List.mem_reverse.mp hblocks)
    obtain ⟨l, hl, rfl⟩ := List.mem_map.mp (List.mem_reverse.mp hb)
    exact ⟨l, List.mem_flatten_of_mem hlayer (List.mem_filter.mp hl).1, _, by simp, instruction⟩

variable {p : Program} {g : Graph} {input output : Layer} {hidden : List Layer}

theorem Suits.addressed (h : p.Suits g input hidden output) : p.Addressed := by
  have bounded {k : Key} (hk : (p.table.slot? k).isSome) : p.table.slot k < p.memory.size := by
    rw [h.size]
    exact SlotTable.slot_lt hk
  have activations {ids : List NeuronId} (hids : ∀ id ∈ ids, id ∈ idsOf input hidden output) (s : Slot)
      (hs : s ∈ ids.map fun id => p.table.slot (.activation id)) : s < p.memory.size := by
    obtain ⟨id, hid, rfl⟩ := List.mem_map.mp hs
    exact bounded (h.activation_isSome (hids id hid))
  refine ⟨fun i hi s hs => ?_, ?_, ?_, ?_, ?_⟩
  · rw [h.code] at hi
    obtain ⟨l, hl, b, hb, j, hj, rfl⟩ := mem_instructions hi
    rw [Instruction.operands_map] at hs
    obtain ⟨k, hk, rfl⟩ := List.mem_map.mp hs
    exact bounded (h.covers l hl b hb j hj k hk)
  · rw [h.inputs]
    exact activations fun id hid => List.mem_append_left _ hid
  · rw [h.outputs]
    exact activations fun id hid => List.mem_append_right _ (List.mem_append_right _ hid)
  · rw [h.targets]
    intro s hs
    obtain ⟨i, hi, rfl⟩ := List.mem_map.mp hs
    exact bounded (h.target_slot i (List.mem_range.mp hi))
  · rw [h.rate]
    exact bounded h.rate_slot

end Compiled

end Program

end GatedNetwork
