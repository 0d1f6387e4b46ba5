import GatedNetwork.Proofs.Network.Standing

/-! Running a network. However it is run, a step gives the answer and the numbers of the walk over
the graph of the bare network. -/

namespace GatedNetwork

namespace Network

section Walks

variable {α β : Type}

theorem onGraph_bind (a : Graph.Edit α) (f : α → Graph.Edit β) :
    onGraph (a >>= f) = onGraph a >>= fun x => onGraph (f x) := by
  funext net
  change (onGraph (a >>= f)).run net = (onGraph a >>= fun x => onGraph (f x)).run net
  cases hr : a.run net.graph with
  | ok x g =>
    rw [bind_of_ok (onGraph_of_ok hr)]
    cases hf : (f x).run g with
    | ok y g' =>
      rw [onGraph_of_ok ((bind_of_ok hr).trans hf), onGraph_of_ok (a := { net with graph := g }) hf]
    | error e g' =>
      rw [onGraph_of_error ((bind_of_ok hr).trans hf),
        onGraph_of_error (a := { net with graph := g }) hf]
  | error e g => rw [bind_of_error (onGraph_of_error hr), onGraph_of_error (bind_of_error hr)]

theorem onGraph_forM (xs : List α) (f : α → Graph.Edit PUnit) :
    onGraph (xs.forM f) = xs.forM fun x => onGraph (f x) := by
  induction xs with
  | nil => rfl
  | cons x xs ih => exact (onGraph_bind (f x) fun _ => xs.forM f).trans (by rw [ih]; rfl)

theorem activateGraph_run {net bare : Network} (h : restore.run net = .ok () bare)
    (values : List Float) :
    (activateGraph values).run net =
      (onGraph (walkForward bare.input bare.hidden.toList bare.output values)).run bare := by
  rw [activateGraph, bind_of_ok h, bind_of_ok (get_run bare), walkForward, onGraph_bind]
  simp only [onGraph_bind, onGraph_forM]
  rfl

theorem propagateGraph_run {net bare : Network} (h : restore.run net = .ok () bare) (rate : Float)
    (targets : List Float) :
    (propagateGraph rate targets).run net =
      (onGraph (walkBackward bare.hidden.toList bare.output rate targets)).run bare := by
  rw [propagateGraph, bind_of_ok h, bind_of_ok (get_run bare), walkBackward, onGraph_bind]
  simp only [onGraph_forM]

end Walks

section Steps

variable {α : Type} {bound : NeuronId} {bare net : Network}

/-- The action gives the answer of the walk, and a network that stands for the walked one. -/
def Walks (bare net : Network) (act : Edit α) (walk : Graph.Edit α) : Prop :=
  ∃ x live net', act.run net = .ok x net' ∧ walk.run bare.graph = .ok x live ∧ live.Consistent ∧
    bare.graph.skeleton = live.skeleton ∧ { bare with graph := live }.StandsFor net'

/-- A compiled network mirrors itself. -/
theorem Sound.compile_spec (h : bare.Sound bound []) : ∃ p, bare.compile = .ok p ∧
    p.Mirrors bare.graph bare.graph bare.input bare.hidden.toList bare.output := by
  obtain ⟨p, compile_eq, suits, memory_eq⟩ :=
    GatedNetwork.compile_spec h.consistent.toLinked h.layered.present
  refine ⟨p, compile_eq, suits, rfl, ?_⟩
  rw [memory_eq, SlotTable.view_start suits.starts]
  exact bare.graph.agrees_reading

/-- The program does what the walk does, whichever graph it was compiled from. -/
def Mimics (bare : Network) (flat : EStateM NetworkError Program α) (walk : Graph.Edit α) : Prop :=
  ∀ (p : Program) (g : Graph), g.Layered bare.input bare.hidden.toList bare.output →
    p.Mirrors g bare.graph bare.input bare.hidden.toList bare.output →
    p.Shadows g bare.graph bare.input bare.hidden.toList bare.output flat walk

variable {flat : EStateM NetworkError Program α} {walk : Graph.Edit α}

theorem onProgram_held {p p' : Program} {x : α} (held : net.program = some p)
    (h : flat.run p = .ok x p') :
    (onProgram flat).run net = .ok x { net with program := some p' } := by
  have h : flat p = .ok x p' := h
  rw [onProgram, bind_of_ok (get_run net), held]
  refine (bind_of_ok (pure_run p net)).trans ?_
  rw [bind_of_ok (modify_run _ _), h]
  rfl

theorem onProgram_fresh {p p' : Program} {x : α} (free : net.program = none)
    (compiled : net.compile = .ok p) (h : flat.run p = .ok x p') :
    (onProgram flat).run net = .ok x { net with program := some p' } := by
  have h : flat p = .ok x p' := h
  rw [onProgram, bind_of_ok (get_run net), free]
  refine (bind_of_ok (ask_of_ok compiled)).trans ?_
  rw [bind_of_ok (modify_run _ _), h]
  rfl

theorem StandsFor.walks_onProgram (h : bare.StandsFor net) (sound : bare.Sound bound [])
    (mimics : bare.Mimics flat walk) : Walks bare net (onProgram flat) walk := by
  cases h with
  | plain =>
    obtain ⟨p, compile_eq, mirrors⟩ := sound.compile_spec
    obtain ⟨x, p', live, flat_run, walk_run, consistent, mirrors'⟩ := mimics p _ sound.layered mirrors
    exact ⟨x, live, _, onProgram_fresh sound.bare compile_eq flat_run, walk_run, consistent,
      mirrors'.skeleton, .compiled p' _ sound.consistent mirrors'⟩
  | compiled p g consistent mirrors =>
    obtain ⟨x, p', live, flat_run, walk_run, consistent', mirrors'⟩ :=
      mimics p g (sound.layered.of_skeleton_eq mirrors.skeleton.symm) mirrors
    exact ⟨x, live, _, onProgram_held rfl flat_run, walk_run, consistent',
      mirrors.skeleton.symm.trans mirrors'.skeleton, .compiled p' g consistent mirrors'⟩

theorem StandsFor.walks_onGraph {act : Edit α} (h : bare.StandsFor net) (sound : bare.Sound bound [])
    (mimics : bare.Mimics flat walk) (act_run : restore.run net = .ok () bare →
      act.run net = (onGraph walk).run bare) : Walks bare net act walk := by
  obtain ⟨p, -, mirrors⟩ := sound.compile_spec
  obtain ⟨x, p', live, -, walk_run, consistent, mirrors'⟩ := mimics p _ sound.layered mirrors
  refine ⟨x, live, _, (act_run (h.restore_run sound)).trans (focus_of_ok walk_run), walk_run,
    consistent, mirrors'.skeleton, .plain⟩

theorem Sound.mimics_forward (sound : bare.Sound bound []) {values : List Float}
    (length_eq : values.length = bare.input.size) :
    bare.Mimics (Program.activate values)
      (walkForward bare.input bare.hidden.toList bare.output values) :=
  fun _ _ layered mirrors => mirrors.activate sound.consistent layered length_eq

theorem Sound.mimics_backward (sound : bare.Sound bound []) {rate : Float} {targets : List Float}
    (valid : Program.validRate rate) (length_eq : targets.length = bare.output.size) :
    bare.Mimics (Program.propagate rate targets)
      (walkBackward bare.hidden.toList bare.output rate targets) :=
  fun _ _ layered mirrors => mirrors.propagate sound.consistent layered valid length_eq

theorem Walks.of_run_eq {act act' : Edit α} (h : Walks bare net act' walk)
    (run_eq : act.run net = act'.run net) : Walks bare net act walk := by
  obtain ⟨x, live, net', run, rest⟩ := h
  exact ⟨x, live, net', run_eq.trans run, rest⟩

theorem activate_of_graph {values : List Float} (length_eq : values.length = net.input.size)
    (mode_eq : net.config.mode = .graph) :
    (activate values).run net = (activateGraph values).run net := by
  rw [activate, bind_of_ok (get_run net)]
  refine (congrArg (EStateM.run · net) (if_pos length_eq)).trans ?_
  simp only [mode_eq]

theorem activate_of_flat {values : List Float} (length_eq : values.length = net.input.size)
    (mode_eq : net.config.mode = .flat) :
    (activate values).run net = (onProgram (Program.activate values)).run net := by
  rw [activate, bind_of_ok (get_run net)]
  refine (congrArg (EStateM.run · net) (if_pos length_eq)).trans ?_
  simp only [mode_eq]

theorem propagate_of_graph {rate : Float} {targets : List Float} (valid : Program.validRate rate)
    (length_eq : targets.length = net.output.size) (mode_eq : net.config.mode = .graph) :
    (propagate rate targets).run net = (propagateGraph rate targets).run net := by
  rw [propagate, bind_of_ok (get_run net)]
  refine (congrArg (EStateM.run · net) (if_pos valid)).trans ?_
  refine (congrArg (EStateM.run · net) (if_pos length_eq)).trans ?_
  simp only [mode_eq]

theorem propagate_of_flat {rate : Float} {targets : List Float} (valid : Program.validRate rate)
    (length_eq : targets.length = net.output.size) (mode_eq : net.config.mode = .flat) :
    (propagate rate targets).run net = (onProgram (Program.propagate rate targets)).run net := by
  rw [propagate, bind_of_ok (get_run net)]
  refine (congrArg (EStateM.run · net) (if_pos valid)).trans ?_
  refine (congrArg (EStateM.run · net) (if_pos length_eq)).trans ?_
  simp only [mode_eq]

theorem StandsFor.walks_activate (h : bare.StandsFor net) (sound : bare.Sound bound [])
    {values : List Float} (length_eq : values.length = bare.input.size) :
    Walks bare net (activate values)
      (walkForward bare.input bare.hidden.toList bare.output values) := by
  have mimics := sound.mimics_forward length_eq
  have length_eq' : values.length = net.input.size := by cases h <;> exact length_eq
  cases mode_eq : net.config.mode with
  | graph =>
    exact h.walks_onGraph sound mimics fun restored =>
      (activate_of_graph length_eq' mode_eq).trans (activateGraph_run restored values)
  | flat =>
    exact (h.walks_onProgram sound mimics).of_run_eq (activate_of_flat length_eq' mode_eq)

theorem StandsFor.walks_propagate (h : bare.StandsFor net) (sound : bare.Sound bound [])
    {rate : Float} {targets : List Float} (valid : Program.validRate rate)
    (length_eq : targets.length = bare.output.size) :
    Walks bare net (propagate rate targets)
      (walkBackward bare.hidden.toList bare.output rate targets) := by
  have mimics := sound.mimics_backward valid length_eq
  have length_eq' : targets.length = net.output.size := by cases h <;> exact length_eq
  cases mode_eq : net.config.mode with
  | graph =>
    exact h.walks_onGraph sound mimics fun restored =>
      (propagate_of_graph valid length_eq' mode_eq).trans (propagateGraph_run restored rate targets)
  | flat =>
    exact (h.walks_onProgram sound mimics).of_run_eq (propagate_of_flat valid length_eq' mode_eq)

theorem Alike.of_walks {a b : Network} {act : Edit α} {mode : ExecutionMode}
    (sound : bare.Sound bound []) (ha : Walks bare a act walk)
    (hb : Walks (bare.withMode mode) b act walk) :
    Alike (fun _ => Twins bound) (Twins bound) (act.run a) (act.run b) := by
  obtain ⟨x, live, a', run_a, walk_a, consistent, skeleton_eq, stands_a⟩ := ha
  obtain ⟨y, live', b', run_b, walk_b, -, -, stands_b⟩ := hb
  obtain ⟨rfl, rfl⟩ : x = y ∧ live = live' := by
    have same := walk_a.symm.trans walk_b
    simpa using same
  rw [run_a, run_b]
  exact ⟨rfl, { bare with graph := live }, mode,
    sound.withGraph ⟨consistent, (keys_of_skeleton_eq skeleton_eq).symm⟩ bare.random, stands_a,
    stands_b⟩

theorem oblivious_activate (values : List Float) : Oblivious bound (activate values) := by
  intro a b h
  by_cases length_eq : values.length = a.input.size
  · obtain ⟨net, mode, sound, ha, hb⟩ := h
    have length_eq : values.length = net.input.size := by cases ha <;> exact length_eq
    exact Alike.of_walks sound (ha.walks_activate sound length_eq)
      (hb.walks_activate (sound.withMode mode) length_eq)
  · have input_eq := h.same.2.1
    rw [activate, bind_of_ok (get_run a), bind_of_ok (get_run b), if_neg length_eq,
      if_neg (input_eq ▸ length_eq), ← input_eq]
    exact ⟨rfl, h⟩

theorem oblivious_propagate (rate : Float) (targets : List Float) :
    Oblivious bound (propagate rate targets) := by
  intro a b h
  obtain ⟨-, -, -, output_eq, -⟩ := h.same
  by_cases valid : Program.validRate rate
  · by_cases length_eq : targets.length = a.output.size
    · obtain ⟨net, mode, sound, ha, hb⟩ := h
      have length_eq : targets.length = net.output.size := by cases ha <;> exact length_eq
      exact Alike.of_walks sound (ha.walks_propagate sound valid length_eq)
        (hb.walks_propagate (sound.withMode mode) valid length_eq)
    · rw [propagate, bind_of_ok (get_run a), bind_of_ok (get_run b)]
      simp only [valid, length_eq, ↓reduceIte, ← output_eq]
      exact ⟨rfl, h⟩
  · rw [propagate, bind_of_ok (get_run a), bind_of_ok (get_run b), if_neg valid, if_neg valid]
    exact ⟨rfl, h⟩

end Steps

section Controls

variable {bound : NeuronId} {bare net : Network}

theorem StandsFor.optimize_run (h : bare.StandsFor net) (sound : bare.Sound bound []) :
    ∃ p, optimize.run net = .ok p { bare with program := some p } ∧
      p.Mirrors bare.graph bare.graph bare.input bare.hidden.toList bare.output := by
  obtain ⟨p, compile_eq, mirrors⟩ := sound.compile_spec
  refine ⟨p, ?_, mirrors⟩
  rw [optimize, bind_of_ok (h.restore_run sound)]
  exact bind_of_ok (ask_of_ok compile_eq)

theorem StandsFor.setOptimize_run (h : bare.StandsFor net) (sound : bare.Sound bound [])
    (enabled : Bool) :
    (setOptimize enabled).run net = .ok () (bare.withMode (if enabled then .flat else .graph)) :=
  bind_of_ok (h.restore_run sound)

end Controls

section Forgetting

variable {bound : NeuronId} {bare net : Network}

theorem StandsFor.clear_run (h : bare.StandsFor net) (sound : bare.Sound bound []) :
    clear.run net = .ok () { bare with graph := bare.graph.clear } :=
  bind_of_ok (h.restore_run sound)

theorem Sound.clear (sound : bare.Sound bound []) :
    { bare with graph := bare.graph.clear }.Sound bound [] :=
  sound.withGraph (Graph.intact_clear bare.graph ⟨sound.consistent, rfl⟩) bare.random

theorem relates_clear : Relates (Twins bound) (fun _ => Paired bound []) (Twins bound) clear := by
  refine Relates.bind relates_restore fun _ => relates_modify fun a b h => ?_
  obtain ⟨sound, mode, rfl⟩ := h
  exact ⟨sound.withGraph (Graph.intact_clear a.graph ⟨sound.consistent, rfl⟩) a.random, mode, rfl⟩

theorem oblivious_clear : Oblivious bound clear :=
  relates_clear.mono (fun _ _ h => h) (fun _ _ _ h => h.twins) fun _ _ h => h

theorem oblivious_reset : Oblivious bound reset := by
  refine Relates.bind relates_clear fun _ => Relates.mono (R := Paired bound [])
    (S := fun _ => Paired bound []) (steady_get (fun _ _ => rfl) fun net => Steady.given ?_ net)
    (fun _ _ h => h) (fun _ _ _ h => h.twins) fun _ _ h => h
  exact relates_forM fun l _ => steady_onGraphAndRandom fun ks => l.intact_reset _ _

end Forgetting

end Network

end GatedNetwork
