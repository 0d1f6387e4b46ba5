import GatedNetwork.Proofs.Network.Describing
import GatedNetwork.Proofs.Network.Running
import GatedNetwork.Proofs.Program.Lockstep

/-! A network that runs two others one behind the other. What it shows of the first is what the first
shows; what it shows of the second is what the second shows when it is fed with the answers of the
first. -/

namespace GatedNetwork

/-- The role of a neuron in a network that goes on behind it. -/
def Role.inner : Role → Role
  | .output _ => .hidden
  | role => role

theorem Role.inner_eq_input (role : Role) : role.inner = .input ↔ role = .input := by
  cases role <;> simp [inner]

namespace Network

theorem renamed_ids (f : NeuronId → NeuronId) (ρ : Role → Role) (rs : List (NeuronId × Role)) :
    (rs.map fun r => (f r.1, ρ r.2)).map (·.1) = (rs.map (·.1)).map f := by
  rw [List.map_map, List.map_map]
  rfl

def workerIds (net : Network) : List NeuronId :=
  net.hidden.toList.flatMap (·.neurons) ++ net.output.neurons

def roles (net : Network) : List (NeuronId × Role) :=
  net.input.neurons.map (·, .input) ++ workers net.hidden.toList net.output

/-- The reading with the values at the inputs. -/
def fed (net : Network) (values : List Float) : Reading :=
  net.graph.reading.store ((net.input.neurons.zip values).map fun p => (.activation p.1, p.2))

/-- The reading after a forward pass. -/
def swept (net : Network) (values : List Float) : Reading :=
  (net.roles.map net.graph.listing).foldl Reading.fire (net.fed values)

def answer (net : Network) (values : List Float) : List Float :=
  net.output.neurons.map fun id => net.swept values (.activation id)

section Passes

variable {bound : NeuronId} {net bare : Network} {values : List Float}

theorem ids_eq (net : Network) : net.ids = net.input.neurons ++ net.workerIds := rfl

theorem roles_ids (net : Network) : net.roles.map (·.1) = net.ids := by
  rw [roles, ← rolesOf_flatten, rolesOf_ids]
  rfl

theorem Sound.present (sound : net.Sound bound []) {r : NeuronId × Role} (hr : r ∈ net.roles) :
    net.graph.neurons.contains r.1 := by
  rw [← sound.mem_ids, ← roles_ids]
  exact List.mem_map_of_mem hr

theorem Sound.fed_input (sound : net.Sound bound []) (length_eq : values.length = net.input.neurons.length)
    {i : Nat} (hi : i < net.input.neurons.length) :
    net.fed values (.activation net.input.neurons[i]) = values[i] := by
  have nodup := net.ids_eq ▸ sound.nodup_ids
  have keys_eq : ((net.input.neurons.zip values).map fun p => (Key.activation p.1, p.2)).map (·.1) =
      net.input.neurons.map .activation := by
    rw [List.map_map, ← List.map_fst_zip (Nat.le_of_eq length_eq.symm), List.map_map,
      List.map_fst_zip (Nat.le_of_eq length_eq.symm)]
    rfl
  have keys_nodup : (((net.input.neurons.zip values).map fun p =>
      (Key.activation p.1, p.2)).map (·.1)).Nodup := by
    rw [keys_eq]
    exact (List.nodup_append.mp nodup).1.map fun _ _ => Key.activation.inj
  refine Reading.store_of_mem _ keys_nodup (List.mem_map.mpr ⟨(net.input.neurons[i], values[i]), ?_, rfl⟩)
  exact List.mem_of_getElem? (List.getElem?_zip_eq_some.mpr
    ⟨List.getElem?_eq_getElem hi, List.getElem?_eq_getElem (length_eq.symm ▸ hi)⟩)

theorem fed_of_notMem {k : Key} (unset : ∀ x ∈ net.input.neurons, k ≠ .activation x) :
    net.fed values k = net.graph.reading k := by
  refine Reading.store_of_notMem _ fun hk => ?_
  obtain ⟨p, hp, rfl⟩ := List.mem_map.mp (List.map_map ▸ hk)
  exact unset p.1 (List.of_mem_zip hp).1 rfl

theorem Sound.swept_of_not_isFired (sound : net.Sound bound []) {k : Key} (hk : k.isFired = false) :
    net.swept values k = net.graph.reading k := by
  rw [swept, foldl_fire_of_not_isFired (fun _ => sound.present) hk]
  apply fed_of_notMem
  rintro x - rfl
  cases hk

/-- However a network is run, a step gives its answer and leaves the reading of the pass. -/
theorem StandsFor.sweeps (h : bare.StandsFor net) (sound : bare.Sound bound [])
    (length_eq : values.length = bare.input.size) :
    ∃ live net', (activate values).run net = .ok (bare.answer values) net' ∧
      bare.graph.skeleton = live.skeleton ∧ live.Agrees (bare.swept values) ∧
      { bare with graph := live }.Sound bound [] ∧ { bare with graph := live }.StandsFor net' := by
  obtain ⟨x, live, net', run_eq, walk_run, consistent, skeleton_eq, stands⟩ :=
    h.walks_activate sound length_eq
  have linked := sound.consistent.toLinked
  have swept_eq : bare.swept values = ((rolesOf bare.input bare.hidden.toList bare.output).flatten.map
      bare.graph.listing).foldl Reading.fire (bare.fed values) := by
    rw [swept, roles, ← rolesOf_flatten]
  obtain ⟨live', walk_run', -, agrees⟩ := Graph.follows_walkForward linked bare.graph.agrees_reading
    sound.layered.nodup (fun id => (sound.layered.mem_iff id).mp) length_eq swept_eq
  obtain ⟨rfl, rfl⟩ : x = bare.answer values ∧ live = live' := by
    simpa [answer] using walk_run.symm.trans walk_run'
  exact ⟨live, net', run_eq, skeleton_eq, agrees,
    sound.withGraph ⟨consistent, (keys_of_skeleton_eq skeleton_eq).symm⟩ bare.random, stands⟩

end Passes

/-- The last network hosts the first two, each under names of its own. The outputs of the first are
the inputs of the second; all numbers are shown alike. -/
structure Chained (f₁ f₂ : NeuronId → NeuronId) (first second whole : Network) : Prop where
  hosts_first : first.graph.Hosts f₁ (· ∈ first.ids) (· ∈ first.ids) whole.graph
  hosts_second : second.graph.Hosts f₂ (· ∈ second.ids) (· ∈ second.workerIds) whole.graph
  echoes_first :
    first.graph.reading.Echoes f₁ (· ∈ first.ids) (· ∈ first.ids) whole.graph.reading
  echoes_second :
    second.graph.reading.Echoes f₂ (· ∈ second.ids) (· ∈ second.workerIds) whole.graph.reading
  input : whole.input.neurons = first.input.neurons.map f₁
  hidden : whole.hidden.toList.flatMap (·.neurons) =
    first.workerIds.map f₁ ++ (second.hidden.toList.flatMap (·.neurons)).map f₂
  output : whole.output.neurons = second.output.neurons.map f₂
  meet : first.output.neurons.map f₁ = second.input.neurons.map f₂

section Chains

variable {f₁ f₂ : NeuronId → NeuronId} {first second whole : Network} {bound₁ bound₂ bound : NeuronId}
  {values : List Float}

theorem Chained.roles_eq (h : Chained f₁ f₂ first second whole) :
    whole.roles = first.roles.map (fun r => (f₁ r.1, Role.inner r.2)) ++
      (workers second.hidden.toList second.output).map fun r => (f₂ r.1, r.2) := by
  have hidden_eq (net : Network) : net.hidden.toList.flatMap (fun l => l.neurons.map (·, Role.hidden)) =
      (net.hidden.toList.flatMap (·.neurons)).map (·, Role.hidden) := by
    rw [List.map_flatMap]
  have inner_outputs (ids : List NeuronId) :
      (ids.mapIdx fun i id => (id, Role.output i)).map (fun r => (f₁ r.1, Role.inner r.2)) =
        (ids.map f₁).map (·, Role.hidden) :=
    List.ext_getElem (by simp) (by simp [Role.inner])
  have outputs (ids : List NeuronId) :
      (ids.mapIdx fun i id => (id, Role.output i)).map (fun r => (f₂ r.1, r.2)) =
        (ids.map f₂).mapIdx fun i id => (id, Role.output i) :=
    List.ext_getElem (by simp) (by simp)
  have inner_input : Role.inner .input = .input := rfl
  have inner_hidden : Role.inner .hidden = .hidden := rfl
  simp only [roles, workers, hidden_eq, List.map_append, inner_outputs, outputs, h.hidden, h.input,
    h.output, workerIds, List.append_assoc, List.map_map, Function.comp_def, inner_input, inner_hidden]

theorem Chained.ids_eq (h : Chained f₁ f₂ first second whole) :
    whole.ids = first.ids.map f₁ ++ second.workerIds.map f₂ := by
  simp only [Network.ids_eq, workerIds, h.input, h.hidden, h.output, List.map_append, List.append_assoc]

theorem Chained.fed_eq (h : Chained f₁ f₂ first second whole) (values : List Float) :
    whole.fed values = whole.graph.reading.store
      ((first.input.neurons.zip values).map fun p => (.activation (f₁ p.1), p.2)) := by
  rw [fed, h.input, List.zip_map_left, List.map_map]
  rfl

theorem Chained.present_first (h : Chained f₁ f₂ first second whole) (sound : whole.Sound bound [])
    {r : NeuronId × Role} (hr : r ∈ first.roles.map fun r => (f₁ r.1, Role.inner r.2)) :
    whole.graph.neurons.contains r.1 := by
  refine sound.present ?_
  rw [h.roles_eq]
  exact List.mem_append_left _ hr

theorem Chained.present_second (h : Chained f₁ f₂ first second whole) (sound : whole.Sound bound [])
    {r : NeuronId × Role}
    (hr : r ∈ (workers second.hidden.toList second.output).map fun r => (f₂ r.1, r.2)) :
    whole.graph.neurons.contains r.1 := by
  refine sound.present ?_
  rw [h.roles_eq]
  exact List.mem_append_right _ hr

/-- The reading of the whole network where the second part has its turn next. -/
def halfway (f₁ : NeuronId → NeuronId) (first whole : Network) (values : List Float) : Reading :=
  ((first.roles.map fun r => (f₁ r.1, Role.inner r.2)).map whole.graph.listing).foldl Reading.fire
    (whole.fed values)

theorem Chained.swept_eq (h : Chained f₁ f₂ first second whole) (values : List Float) :
    whole.swept values = (((workers second.hidden.toList second.output).map fun r =>
      (f₂ r.1, r.2)).map whole.graph.listing).foldl Reading.fire (halfway f₁ first whole values) := by
  rw [swept, h.roles_eq, List.map_append, List.foldl_append, halfway]

theorem Chained.first_halfway (h : Chained f₁ f₂ first second whole) (sound₁ : first.Sound bound₁ [])
    (sound : whole.Sound bound []) (values : List Float) :
    (first.swept values).Echoes f₁ (· ∈ first.ids) (· ∈ first.ids) (halfway f₁ first whole values) := by
  have members (p : NeuronId × Float) (hp : p ∈ first.input.neurons.zip values) : p.1 ∈ first.ids := by
    rw [Network.ids_eq]
    exact List.mem_append_left _ (List.of_mem_zip hp).1
  have turns (r : NeuronId × Role) (hr : r ∈ first.roles) : r.1 ∈ first.ids :=
    first.roles_ids ▸ List.mem_map_of_mem hr
  have given := h.echoes_first.store h.hosts_first members
  rw [← h.fed_eq] at given
  exact given.foldl h.hosts_first sound₁.consistent.toLinked sound.consistent.toLinked Role.inner_eq_input
    turns

theorem Chained.apart (h : Chained f₁ f₂ first second whole) (sound : whole.Sound bound [])
    {x y : NeuronId} (hx : x ∈ first.ids) (hy : y ∈ second.workerIds) : f₁ x ≠ f₂ y := by
  have nodup := h.ids_eq ▸ sound.nodup_ids
  exact (List.nodup_append.mp nodup).2.2 _ (List.mem_map_of_mem hx) _ (List.mem_map_of_mem hy)

theorem Chained.length_answer (h : Chained f₁ f₂ first second whole) (values : List Float) :
    (first.answer values).length = second.input.neurons.length := by
  rw [answer, List.length_map]
  simpa using congrArg List.length h.meet

theorem Chained.fed_second (h : Chained f₁ f₂ first second whole) (sound₂ : second.Sound bound₂ [])
    (values : List Float) {x : NeuronId} (hx : x ∈ second.input.neurons) :
    ∃ o ∈ first.output.neurons, f₂ x = f₁ o ∧
      second.fed (first.answer values) (.activation x) = first.swept values (.activation o) := by
  obtain ⟨i, hi, rfl⟩ := List.getElem_of_mem hx
  have length_eq := h.length_answer values
  have hi' : i < (first.answer values).length := length_eq ▸ hi
  have ho : i < first.output.neurons.length := by simpa [answer] using hi'
  have same : f₂ second.input.neurons[i] = f₁ first.output.neurons[i] := by
    have places := congrArg (·[i]?) h.meet
    simp only [List.getElem?_map, List.getElem?_eq_getElem hi, List.getElem?_eq_getElem ho,
      Option.map_some] at places
    exact (Option.some.inj places).symm
  refine ⟨first.output.neurons[i], List.getElem_mem ho, same, ?_⟩
  rw [sound₂.fed_input length_eq hi]
  simp [answer]

/-- Once its inputs are set to the answers of the first network, the second one is where the whole
network is after the turns of the first part. -/
theorem Chained.second_halfway (h : Chained f₁ f₂ first second whole) (sound₁ : first.Sound bound₁ [])
    (sound₂ : second.Sound bound₂ []) (sound : whole.Sound bound []) (values : List Float) :
    (((second.input.neurons.map (·, Role.input)).map second.graph.listing).foldl Reading.fire
      (second.fed (first.answer values))).Echoes f₂ (· ∈ second.ids) (· ∈ second.workerIds)
        (halfway f₁ first whole values) := by
  have inputs_ids : (second.input.neurons.map (·, Role.input)).map (·.1) = second.input.neurons := by
    simp [Function.comp_def]
  have turns_ids : (first.roles.map fun r => (f₁ r.1, Role.inner r.2)).map (·.1) = first.ids.map f₁ := by
    rw [renamed_ids, roles_ids]
  have nodup₂ := Network.ids_eq second ▸ sound₂.nodup_ids
  have nodup := h.ids_eq ▸ sound.nodup_ids
  have present : ∀ r ∈ second.input.neurons.map (·, Role.input), second.graph.neurons.contains r.1 := by
    intro r hr
    exact sound₂.present (List.mem_append_left _ hr)
  have unset₂ (k : Key)
      (hk : ∀ x ∈ (second.input.neurons.map (·, Role.input)).map (·.1), k ≠ .activation x) :
      second.fed (first.answer values) k = second.graph.reading k := by
    rw [inputs_ids] at hk
    exact fed_of_notMem hk
  have unset (k : Key)
      (hk : ∀ x ∈ (first.roles.map fun r => (f₁ r.1, Role.inner r.2)).map (·.1), k ≠ .activation x) :
      whole.fed values k = whole.graph.reading k := by
    refine fed_of_notMem fun x hx => hk x ?_
    rw [h.input] at hx
    rw [turns_ids, Network.ids_eq, List.map_append]
    exact List.mem_append_left _ hx
  have inputs_nodup : ((second.input.neurons.map (·, Role.input)).map (·.1)).Nodup := by
    rw [inputs_ids]
    exact (List.nodup_append.mp nodup₂).1
  have turns_nodup : ((first.roles.map fun r => (f₁ r.1, Role.inner r.2)).map (·.1)).Nodup := by
    rw [turns_ids]
    exact (List.nodup_append.mp nodup).1
  have first_half := h.first_halfway sound₁ sound values
  refine h.echoes_second.of_passes h.hosts_second sound₂.consistent.toLinked
    sound.consistent.toLinked present (fun _ => h.present_first sound) inputs_nodup turns_nodup
    unset₂ unset ?_ ?_ ?_
  · rw [inputs_ids, turns_ids]
    intro x hx
    obtain ⟨o, ho, same, value_eq⟩ := h.fed_second sound₂ values hx
    have there : o ∈ first.ids := by
      rw [Network.ids_eq]
      exact List.mem_append_right _ (List.mem_append_right _ ho)
    refine ⟨same ▸ List.mem_map_of_mem there, ?_⟩
    rw [foldl_fire_inputs present (by simp), value_eq, same]
    exact first_half.activation o there
  · rw [inputs_ids, turns_ids]
    intro x hx free named
    obtain ⟨y, hy, same⟩ := List.mem_map.mp named
    rw [Network.ids_eq] at hx
    exact h.apart sound hy ((List.mem_append.mp hx).resolve_left free) same
  · rw [inputs_ids]
    intro id worker input
    exact (List.nodup_append.mp nodup₂).2.2 _ input _ worker rfl

theorem Chained.swept_second (h : Chained f₁ f₂ first second whole) (sound₁ : first.Sound bound₁ [])
    (sound₂ : second.Sound bound₂ []) (sound : whole.Sound bound []) (values : List Float) :
    (second.swept (first.answer values)).Echoes f₂ (· ∈ second.ids) (· ∈ second.workerIds)
      (whole.swept values) := by
  have turns (r : NeuronId × Role) (hr : r ∈ workers second.hidden.toList second.output) :
      r.1 ∈ second.workerIds := by
    rw [workerIds, ← workers_ids]
    exact List.mem_map_of_mem hr
  have half := h.second_halfway sound₁ sound₂ sound values
  rw [h.swept_eq, swept, roles, List.map_append, List.foldl_append]
  exact half.foldl h.hosts_second sound₂.consistent.toLinked sound.consistent.toLinked
    (fun role => Iff.rfl) turns

theorem Chained.swept_first (h : Chained f₁ f₂ first second whole) (sound₁ : first.Sound bound₁ [])
    (sound : whole.Sound bound []) (values : List Float) :
    (first.swept values).Echoes f₁ (· ∈ first.ids) (· ∈ first.ids) (whole.swept values) := by
  have turns_ids : ((workers second.hidden.toList second.output).map fun r => (f₂ r.1, r.2)).map (·.1) =
      second.workerIds.map f₂ := by
    rw [workerIds, ← workers_ids]
    exact renamed_ids f₂ id _
  have nodup := h.ids_eq ▸ sound.nodup_ids
  have half := h.first_halfway sound₁ sound values
  rw [h.swept_eq]
  have others (x : NeuronId) (hx : x ∈ first.ids) :
      f₁ x ∉ ((workers second.hidden.toList second.output).map fun r => (f₂ r.1, r.2)).map (·.1) := by
    rw [turns_ids]
    intro named
    obtain ⟨y, hy, same⟩ := List.mem_map.mp named
    exact h.apart sound hx hy same.symm
  change ((([] : List (NeuronId × Role)).map first.graph.listing).foldl Reading.fire
    (first.swept values)).Echoes f₁ _ _ _
  exact half.of_passes h.hosts_first sound₁.consistent.toLinked sound.consistent.toLinked (by simp)
    (fun _ => h.present_second sound) (by simp) (turns_ids ▸ (List.nodup_append.mp nodup).2.1)
    (fun _ _ => rfl) (fun _ _ => rfl) (by simp) (fun x hx _ => others x hx) (by simp)

/-- The whole network answers as the second one does to the answers of the first. -/
theorem Chained.answer_eq (h : Chained f₁ f₂ first second whole) (sound₁ : first.Sound bound₁ [])
    (sound₂ : second.Sound bound₂ []) (sound : whole.Sound bound []) (values : List Float) :
    whole.answer values = second.answer (first.answer values) := by
  have echoes := h.swept_second sound₁ sound₂ sound values
  rw [answer, answer, h.output, List.map_map]
  refine List.map_congr_left fun id hid => echoes.activation id ?_
  rw [Network.ids_eq]
  exact List.mem_append_right _ (List.mem_append_right _ hid)

theorem Chained.advance (h : Chained f₁ f₂ first second whole) (sound₁ : first.Sound bound₁ [])
    (sound₂ : second.Sound bound₂ []) (sound : whole.Sound bound []) {values : List Float}
    {live₁ live₂ live : Graph} (skeleton₁ : first.graph.skeleton = live₁.skeleton)
    (skeleton₂ : second.graph.skeleton = live₂.skeleton) (skeleton : whole.graph.skeleton = live.skeleton)
    (agrees₁ : live₁.Agrees (first.swept values))
    (agrees₂ : live₂.Agrees (second.swept (first.answer values)))
    (agrees : live.Agrees (whole.swept values)) :
    Chained f₁ f₂ { first with graph := live₁ } { second with graph := live₂ }
      { whole with graph := live } where
  hosts_first := h.hosts_first.of_skeleton_eq skeleton₁ skeleton
  hosts_second := h.hosts_second.of_skeleton_eq skeleton₂ skeleton
  echoes_first := (h.swept_first sound₁ sound values).congr (fun k hk => (agrees₁ k hk).symm)
    fun k hk => (agrees k hk).symm
  echoes_second := (h.swept_second sound₁ sound₂ sound values).congr (fun k hk => (agrees₂ k hk).symm)
    fun k hk => (agrees k hk).symm
  input := h.input
  hidden := h.hidden
  output := h.output
  meet := h.meet

end Chains

section Running

/-- The last network is the first two one behind the other, however each of them is run. -/
def Composed (size : Nat) (a b c : Network) : Prop :=
  ∃ (f₁ f₂ : NeuronId → NeuronId) (bound₁ bound₂ bound : NeuronId) (first second whole : Network),
    Chained f₁ f₂ first second whole ∧ (first.Sound bound₁ [] ∧ first.StandsFor a) ∧
      (second.Sound bound₂ [] ∧ second.StandsFor b) ∧ (whole.Sound bound [] ∧ whole.StandsFor c) ∧
        first.input.size = size

variable {size : Nat} {a b c : Network} {values : List Float}

theorem Composed.step (h : Composed size a b c) (length_eq : values.length = size) :
    ∃ between output a' b' c', (activate values).run a = .ok between a' ∧
      (activate between).run b = .ok output b' ∧ (activate values).run c = .ok output c' ∧
        Composed size a' b' c' := by
  obtain ⟨f₁, f₂, bound₁, bound₂, bound, first, second, whole, chained, ⟨sound₁, stands₁⟩,
    ⟨sound₂, stands₂⟩, ⟨sound, stands⟩, size_eq⟩ := h
  have whole_size : values.length = whole.input.size := by
    rw [length_eq, ← size_eq, Layer.size, Layer.size, chained.input, List.length_map]
  obtain ⟨live₁, a', run₁, skeleton₁, agrees₁, sound₁', stands₁'⟩ :=
    stands₁.sweeps sound₁ (length_eq.trans size_eq.symm)
  obtain ⟨live₂, b', run₂, skeleton₂, agrees₂, sound₂', stands₂'⟩ :=
    stands₂.sweeps sound₂ (chained.length_answer values)
  obtain ⟨live, c', run, skeleton, agrees, sound', stands'⟩ := stands.sweeps sound whole_size
  rw [chained.answer_eq sound₁ sound₂ sound] at run
  exact ⟨_, _, a', b', c', run₁, run₂, run, f₁, f₂, bound₁, bound₂, bound, _, _, _,
    chained.advance sound₁ sound₂ sound skeleton₁ skeleton₂ skeleton agrees₁ agrees₂ agrees,
    ⟨sound₁', stands₁'⟩, ⟨sound₂', stands₂'⟩, ⟨sound', stands'⟩, size_eq⟩

theorem Composed.input_size (h : Composed size a b c) : a.input.size = size ∧ c.input.size = size := by
  obtain ⟨f₁, f₂, bound₁, bound₂, bound, first, second, whole, chained, ⟨-, stands₁⟩, -, ⟨-, stands⟩,
    size_eq⟩ := h
  have whole_size : whole.input.size = size := by
    rw [← size_eq, Layer.size, Layer.size, chained.input, List.length_map]
  rw [stands₁.layers_eq.1, stands.layers_eq.1]
  exact ⟨size_eq, whole_size⟩

end Running

end Network

end GatedNetwork
