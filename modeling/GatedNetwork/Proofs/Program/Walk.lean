import GatedNetwork.Proofs.Program.Passes

/-! The two passes over a whole network, on the graph and by the listings of its neurons. -/

namespace GatedNetwork

def workers (hidden : List Layer) (output : Layer) : List (NeuronId × Role) :=
  hidden.flatMap (fun l => l.neurons.map (·, .hidden)) ++
    output.neurons.mapIdx fun i id => (id, .output i)

theorem rolesOf_flatten (input : Layer) (hidden : List Layer) (output : Layer) :
    (rolesOf input hidden output).flatten =
      input.neurons.map (·, .input) ++ workers hidden output := by
  simp [rolesOf, workers, List.flatMap_def]

theorem workers_role {hidden : List Layer} {output : Layer} {r : NeuronId × Role}
    (hr : r ∈ workers hidden output) : r.2 ≠ .input := by
  simp only [workers, List.mem_append, List.mem_flatMap, List.mem_map, List.mem_mapIdx] at hr
  rcases hr with ⟨l, -, id, -, rfl⟩ | ⟨i, -, rfl⟩ <;> simp

theorem mem_hidden_of_mem_workers {hidden : List Layer} {output : Layer} {id : NeuronId}
    (hr : (id, .hidden) ∈ workers hidden output) : ∃ l ∈ hidden, id ∈ l.neurons := by
  simpa [workers] using hr

theorem outputRoles_ids (output : Layer) :
    (output.neurons.mapIdx fun i id => (id, Role.output i)).map (·.1) = output.neurons :=
  List.ext_getElem (by simp) (by simp)

theorem workers_ids (hidden : List Layer) (output : Layer) :
    (workers hidden output).map (·.1) = hidden.flatMap (·.neurons) ++ output.neurons := by
  simp [workers, List.map_flatMap, Function.comp_def, outputRoles_ids]

def walkForward (input : Layer) (hidden : List Layer) (output : Layer) (values : List Float) :
    Graph.Edit (List Float) := do
  let _ ← input.activateInput values
  hidden.forM fun l => do
    let _ ← l.activate
  output.activate

def walkBackward (hidden : List Layer) (output : Layer) (rate : Float) (targets : List Float) :
    Graph.Edit Unit := do
  output.propagateOutput rate targets
  hidden.reverse.forM fun l => l.propagate rate

namespace Graph

section Passes

variable {g : Graph} {σ : Reading}

theorem follows_hidden (h : g.Linked) (ha : g.Agrees σ) {hidden : List Layer}
    (nodup : (hidden.flatMap (·.neurons)).Nodup)
    (present : ∀ id ∈ hidden.flatMap (·.neurons), g.neurons.contains id) :
    g.Follows (hidden.forM fun l => do let _ ← l.activate) ()
      (((hidden.flatMap fun l => l.neurons.map (·, Role.hidden)).map g.listing).foldl
        Reading.fire σ) := by
  induction hidden generalizing g σ with
  | nil => exact follows_pure ha ()
  | cons l hidden ih =>
    rw [List.flatMap_cons] at nodup present
    obtain ⟨nodup_l, nodup, -⟩ := List.nodup_append.mp nodup
    have ids_eq : (l.neurons.map (·, Role.hidden)).map (·.1) = l.neurons := by
      simp [Function.comp_def]
    have layer := follows_activateEach h ha (l.neurons.map (·, Role.hidden))
      (by rwa [ids_eq]) (by simpa using fun id hid => present id (by simp [hid])) (by simp)
    rw [ids_eq] at layer
    have later (id : NeuronId) (hid : id ∈ hidden.flatMap (·.neurons)) : g.neurons.contains id :=
      present id (by simp only [List.mem_append, hid, or_true])
    rw [List.flatMap_cons, List.map_append, List.foldl_append]
    refine Follows.bind (x := ⟨⟩) (Follows.bind layer fun g₁ _ ha₁ => follows_pure ha₁ PUnit.unit)
      fun g₁ hs₁ ha₁ => ?_
    rw [← foldl_fire_of_skeleton_eq hs₁ fun r hr => ?_]
    · exact ih (h.of_skeleton_eq hs₁) ha₁ nodup fun id hid =>
        contains_of_skeleton hs₁ (later id hid)
    · obtain ⟨l', hl', hr⟩ := List.mem_flatMap.mp hr
      obtain ⟨id, hid, rfl⟩ := List.mem_map.mp hr
      exact later id (List.mem_flatMap.mpr ⟨l', hl', hid⟩)

theorem follows_inputLayer (h : g.Linked) (ha : g.Agrees σ) {input : Layer}
    (nodup : input.neurons.Nodup) (present : ∀ id ∈ input.neurons, g.neurons.contains id)
    {values : List Float} (length_eq : values.length = input.size) :
    g.Follows (input.activateInput values) ((input.neurons.zip values).map (·.2))
      (((input.neurons.map (·, Role.input)).map g.listing).foldl Reading.fire
        (σ.store ((input.neurons.zip values).map fun p => (.activation p.1, p.2)))) := by
  have fst_eq : (input.neurons.zip values).map (·.1) = input.neurons :=
    List.map_fst_zip (Nat.le_of_eq length_eq.symm)
  have roles_eq : (input.neurons.zip values).map (fun p => (p.1, Role.input)) =
      input.neurons.map (·, .input) := by
    rw [← fst_eq, List.map_map, fst_eq]
    rfl
  have activateInput_eq : input.activateInput values =
      (input.neurons.zip values).mapM fun p => activateInput p.1 p.2 := by
    rw [Layer.activateInput, if_pos length_eq]
  have inputs := follows_activateInputs h ha (input.neurons.zip values) (by rwa [fst_eq])
    fun p hp => present p.1 (fst_eq ▸ List.mem_map_of_mem hp)
  rwa [roles_eq, ← activateInput_eq] at inputs

theorem follows_outputLayer (h : g.Linked) (ha : g.Agrees σ) {output : Layer}
    (nodup : output.neurons.Nodup) (present : ∀ id ∈ output.neurons, g.neurons.contains id)
    {τ : Reading} (hτ : τ = ((output.neurons.mapIdx fun i id => (id, Role.output i)).map
      g.listing).foldl Reading.fire σ) :
    g.Follows output.activate (output.neurons.map fun id => τ (.activation id)) τ := by
  have outputs := follows_activateEach h ha (output.neurons.mapIdx fun i id => (id, Role.output i))
    (by rwa [outputRoles_ids])
    (fun r hr => present _ (outputRoles_ids output ▸ List.mem_map_of_mem hr))
    fun r hr => by
      obtain ⟨i, _, rfl⟩ := List.mem_mapIdx.mp hr
      simp
  rwa [outputRoles_ids, ← hτ] at outputs

theorem follows_walkForward (h : g.Linked) (ha : g.Agrees σ) {input output : Layer}
    {hidden : List Layer}
    (nodup : (input.neurons ++ (hidden.flatMap (·.neurons) ++ output.neurons)).Nodup)
    (present : ∀ id ∈ input.neurons ++ (hidden.flatMap (·.neurons) ++ output.neurons),
      g.neurons.contains id) {values : List Float} (length_eq : values.length = input.size)
    {τ : Reading} (hτ : τ = ((rolesOf input hidden output).flatten.map g.listing).foldl Reading.fire
      (σ.store ((input.neurons.zip values).map fun p => (.activation p.1, p.2)))) :
    g.Follows (walkForward input hidden output values)
      (output.neurons.map fun id => τ (.activation id)) τ := by
  obtain ⟨nodup_input, nodup_rest, -⟩ := List.nodup_append.mp nodup
  obtain ⟨nodup_hidden, nodup_output, -⟩ := List.nodup_append.mp nodup_rest
  have input_present (id : NeuronId) (hid : id ∈ input.neurons) : g.neurons.contains id :=
    present id (by simp only [List.mem_append, hid, true_or])
  have hidden_present (id : NeuronId) (hid : id ∈ hidden.flatMap (·.neurons)) :
      g.neurons.contains id := present id (by simp only [List.mem_append, hid, true_or, or_true])
  have output_present (id : NeuronId) (hid : id ∈ output.neurons) : g.neurons.contains id :=
    present id (by simp only [List.mem_append, hid, or_true])
  refine Follows.bind (follows_inputLayer h ha nodup_input input_present length_eq)
    fun g₁ hs₁ ha₁ => ?_
  have h₁ := h.of_skeleton_eq hs₁
  refine Follows.bind (follows_hidden h₁ ha₁ nodup_hidden fun id hid =>
    contains_of_skeleton hs₁ (hidden_present id hid)) fun g₂ hs₂ ha₂ => ?_
  have hs := hs₁.trans hs₂
  refine follows_outputLayer (h.of_skeleton_eq hs) ha₂ nodup_output
    (fun id hid => contains_of_skeleton hs (output_present id hid)) ?_
  rw [foldl_fire_of_skeleton_eq hs fun r hr =>
      output_present _ (outputRoles_ids output ▸ List.mem_map_of_mem hr),
    foldl_fire_of_skeleton_eq hs₁ fun r hr => ?_]
  · rw [hτ, rolesOf_flatten, workers]
    simp only [List.map_append, List.foldl_append]
  · obtain ⟨l, hl, hr⟩ := List.mem_flatMap.mp hr
    obtain ⟨id, hid, rfl⟩ := List.mem_map.mp hr
    exact hidden_present id (List.mem_flatMap.mpr ⟨l, hl, hid⟩)

theorem walkBackward_eq {hidden : List Layer} {output : Layer} {rate : Float} {targets : List Float}
    (length_eq : targets.length = output.size) {t : Nat → Float}
    (ht : ∀ i (hi : i < targets.length), targets[i] = t i) :
    walkBackward hidden output rate targets =
      (workers hidden output).reverse.forM fun r => propagate r.1 rate (r.2.position?.map t) := by
  have outputs_eq : (output.neurons.zip targets).map (fun p => (p.1, some p.2)) =
      (output.neurons.mapIdx fun i id => (id, Role.output i)).map fun r =>
        (r.1, r.2.position?.map t) := by
    have length_eq : targets.length = output.neurons.length := length_eq
    refine List.ext_getElem (by simp [length_eq]) fun i hi _ => ?_
    have hi : i < targets.length := by
      simp only [List.length_map, List.length_zip] at hi
      omega
    simp [Role.position?, ht i hi]
  have output_pass : output.propagateOutput rate targets =
      (output.neurons.mapIdx fun i id => (id, Role.output i)).reverse.forM fun r =>
        propagate r.1 rate (r.2.position?.map t) := by
    refine Eq.trans ?_ (List.forM_map (g := fun r : NeuronId × Role => (r.1, r.2.position?.map t))
      (f := fun q => propagate q.1 rate q.2))
    rw [List.map_reverse, ← outputs_eq, ← List.map_reverse, List.forM_map, Layer.propagateOutput,
      if_pos length_eq]
    rfl
  have hidden_pass : (hidden.reverse.forM fun l => l.propagate rate) =
      (hidden.flatMap fun l => l.neurons.map (·, Role.hidden)).reverse.forM fun r =>
        propagate r.1 rate (r.2.position?.map t) := by
    rw [List.reverse_flatMap, forM_flatMap]
    congr 1
    funext l
    rw [Function.comp_apply, ← List.map_reverse, List.forM_eq_forM, List.forM_map]
    rfl
  rw [walkBackward, output_pass, hidden_pass, workers, List.reverse_append]
  exact List.forM_append.symm

theorem follows_walkBackward (h : g.Linked) (ha : g.Agrees σ) {hidden : List Layer} {output : Layer}
    (present : ∀ id ∈ hidden.flatMap (·.neurons) ++ output.neurons, g.neurons.contains id)
    {targets : List Float} (length_eq : targets.length = output.size)
    (ht : ∀ i (hi : i < targets.length), targets[i] = σ (.target i)) :
    g.Follows (walkBackward hidden output (σ .rate) targets) ()
      (((workers hidden output).reverse.map g.listing).foldl Reading.learn σ) := by
  rw [walkBackward_eq length_eq ht]
  refine follows_propagateEach h ha _ (fun r hr => ?_) fun r hr =>
    workers_role (List.mem_reverse.mp hr)
  refine present r.1 ?_
  rw [← workers_ids]
  exact List.mem_map_of_mem (List.mem_reverse.mp hr)

end Passes

end Graph

end GatedNetwork
