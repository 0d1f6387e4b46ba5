import GatedNetwork.Proofs.Session.Twins

/-! Lessons on a program. A compiled program answers as the walk over the graph does, one lesson
after the other, and writing its memory back gives the graph that was walked. -/

namespace GatedNetwork

inductive Lesson where
  | present (input : List Float)
  | teach (rate : Float) (target : List Float)

namespace Lesson

def flat : Lesson → EStateM NetworkError Program (List Float)
  | present input => Program.activate input
  | teach rate target => do Program.propagate rate target; return []

def walked : Lesson → Network.Edit (List Float)
  | present input => Network.activateGraph input
  | teach rate target => do Network.propagateGraph rate target; return []

def Fits (net : Network) : Lesson → Prop
  | present input => input.length = net.input.size
  | teach rate target => Program.validRate rate ∧ target.length = net.output.size

section Steps

open Network

variable {bound : NeuronId} {bare : Network} {p : Program} {g : Graph}

theorem run_of_mirrors (sound : bare.Sound bound [])
    (layered : g.Layered bare.input bare.hidden.toList bare.output)
    (mirrors : p.Mirrors g bare.graph bare.input bare.hidden.toList bare.output) {s : Lesson}
    (fits : s.Fits bare) :
    ∃ x p' live, s.flat.run p = .ok x p' ∧ s.walked.run bare = .ok x { bare with graph := live } ∧
      { bare with graph := live }.Sound bound [] ∧
      p'.Mirrors g live bare.input bare.hidden.toList bare.output := by
  have restored := StandsFor.plain.restore_run sound
  have kept {p' : Program} {live : Graph} (consistent : live.Consistent)
      (mirrors' : p'.Mirrors g live bare.input bare.hidden.toList bare.output) :
      { bare with graph := live }.Sound bound [] :=
    sound.withGraph ⟨consistent, keys_of_skeleton_eq (mirrors'.skeleton.symm.trans mirrors.skeleton)⟩
      bare.random
  cases s with
  | present input =>
    obtain ⟨x, p', live, flat_run, walk_run, consistent, mirrors'⟩ :=
      sound.mimics_forward fits p g layered mirrors
    exact ⟨x, p', live, flat_run, (activateGraph_run restored input).trans (onGraph_of_ok walk_run),
      kept consistent mirrors', mirrors'⟩
  | teach rate target =>
    obtain ⟨⟨⟩, p', live, flat_run, walk_run, consistent, mirrors'⟩ :=
      sound.mimics_backward fits.1 fits.2 p g layered mirrors
    exact ⟨[], p', live, bind_of_ok flat_run,
      bind_of_ok ((propagateGraph_run restored rate target).trans (onGraph_of_ok walk_run)),
      kept consistent mirrors', mirrors'⟩

/-- Any number of lessons, by induction: what one lesson needs, it leaves for the next. -/
theorem runs_of_mirrors (sound : bare.Sound bound [])
    (layered : g.Layered bare.input bare.hidden.toList bare.output)
    (mirrors : p.Mirrors g bare.graph bare.input bare.hidden.toList bare.output) {steps : List Lesson}
    (fits : ∀ s ∈ steps, s.Fits bare) :
    ∃ xs p' live, (steps.mapM flat).run p = .ok xs p' ∧
      (steps.mapM walked).run bare = .ok xs { bare with graph := live } ∧
      p'.Mirrors g live bare.input bare.hidden.toList bare.output := by
  induction steps generalizing bare p with
  | nil => exact ⟨[], p, bare.graph, rfl, rfl, mirrors⟩
  | cons s steps ih =>
    obtain ⟨x, p₁, live₁, flat_run, walked_run, sound₁, mirrors₁⟩ :=
      run_of_mirrors sound layered mirrors (fits s (by simp))
    obtain ⟨xs, p₂, live₂, flat_runs, walked_runs, mirrors₂⟩ :=
      ih sound₁ layered mirrors₁ fun s' hs' => by
        have := fits s' (by simp [hs'])
        cases s' <;> exact this
    refine ⟨x :: xs, p₂, live₂, ?_, ?_, mirrors₂⟩
    · rw [List.mapM_cons, bind_of_ok flat_run, bind_of_ok flat_runs]
      rfl
    · rw [List.mapM_cons, bind_of_ok walked_run, bind_of_ok walked_runs]
      rfl

end Steps

end Lesson

/-- Compiling a reachable network, giving the program any lessons that fit and writing its memory
back does what the same lessons do over the graph. -/
theorem Network.Reachable.compiled_lessons {net : Network} (h : net.Reachable) {steps : List Lesson}
    (fits : ∀ s ∈ steps, s.Fits net) :
    restore.run net = .ok () net.settled ∧
      ∃ p xs p' net', net.settled.compile = .ok p ∧ (steps.mapM Lesson.flat).run p = .ok xs p' ∧
        (steps.mapM Lesson.walked).run net.settled = .ok xs net' ∧
        p'.restoreInto net.settled.graph = .ok net'.graph := by
  obtain ⟨bound, bare, sound, stands⟩ := h.stands
  have restored := stands.restore_run sound
  have settled_eq := stands.settled_eq sound
  have fits : ∀ s ∈ steps, s.Fits bare := fun s hs => by
    have := fits s hs
    cases stands <;> cases s <;> exact this
  obtain ⟨p, compile_eq, mirrors⟩ := sound.compile_spec
  obtain ⟨xs, p', live, flat_run, walked_run, mirrors'⟩ :=
    Lesson.runs_of_mirrors sound sound.layered mirrors fits
  rw [settled_eq]
  exact ⟨restored, p, xs, p', _, compile_eq, flat_run, walked_run,
    mirrors'.restoreInto sound.consistent.toLinked sound.layered⟩

theorem Network.compiled_lessons_selfGating : ∃ net : Network, restore.run net = .ok () net.settled ∧
    ∃ p xs p' net', net.settled.compile = .ok p ∧
      ([Lesson.present [1], .teach 0.5 [0], .present [1]].mapM Lesson.flat).run p = .ok xs p' ∧
      ([Lesson.present [1], .teach 0.5 [0], .present [1]].mapM Lesson.walked).run net.settled =
        .ok xs net' ∧
      p'.restoreInto net.settled.graph = .ok net'.graph := by
  obtain ⟨net, reachable, input_size, output_size, -⟩ := exists_selfGating
  have valid : Program.validRate 0.5 = true := by decide
  refine ⟨net, Reachable.compiled_lessons reachable fun s hs => ?_⟩
  simp only [List.mem_cons, List.not_mem_nil, or_false] at hs
  rcases hs with rfl | rfl | rfl
  · exact input_size.symm
  · exact ⟨valid, output_size.symm⟩
  · exact input_size.symm

end GatedNetwork
