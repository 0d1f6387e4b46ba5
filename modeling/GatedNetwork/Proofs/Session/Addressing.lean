import GatedNetwork.Proofs.Program.Checked
import GatedNetwork.Proofs.Session.Lessons

/-! The memory of compiled networks. Every number of a network has one slot, the slots are the whole
memory, and no lessons make a program reach outside of it or lose a number that is to be restored. -/

namespace GatedNetwork

namespace Lesson

def checked (p : Program) : Lesson → Option (EStateM.Result NetworkError Program (List Float))
  | present input => p.activate? input
  | teach rate target => (p.propagate? rate target).map fun
    | .ok _ p => .ok [] p
    | .error e p => .error e p

def study (p : Program) (steps : List Lesson) : Program :=
  steps.foldl (fun p s => after (s.flat.run p)) p

def study? (p : Program) (steps : List Lesson) : Option Program :=
  steps.foldlM (fun p s => (s.checked p).map after) p

section Studying

variable {p : Program}

theorem checked_eq (h : p.Addressed) (s : Lesson) : s.checked p = some (s.flat.run p) ∧
    ∃ m : Memory, m.size = p.memory.size ∧ after (s.flat.run p) = { p with memory := m } := by
  cases s with
  | present input => exact h.activate input
  | teach rate target =>
    obtain ⟨checked_eq, m, size, after_eq⟩ := h.propagate rate target
    rw [checked, checked_eq]
    cases hr : (Program.propagate rate target).run p with
    | ok u p' =>
      rw [hr] at after_eq
      have flat_run : (teach rate target).flat.run p = .ok [] p' := bind_of_ok hr
      rw [flat_run]
      exact ⟨rfl, m, size, after_eq⟩
    | error e p' =>
      rw [hr] at after_eq
      have flat_run : (teach rate target).flat.run p = .error e p' := bind_of_error hr
      rw [flat_run]
      exact ⟨rfl, m, size, after_eq⟩

/-- By induction: a lesson changes nothing but numbers, so the next one stays within the memory too. -/
theorem study?_eq (h : p.Addressed) (steps : List Lesson) : study? p steps = some (study p steps) ∧
    ∃ m : Memory, m.size = p.memory.size ∧ study p steps = { p with memory := m } := by
  induction steps generalizing p with
  | nil => exact ⟨rfl, p.memory, rfl, rfl⟩
  | cons s steps ih =>
    obtain ⟨passed, m, size, after_eq⟩ := checked_eq h s
    obtain ⟨rest, m', size', study_eq⟩ := ih (h.withMemory size)
    have first : study p (s :: steps) = study { p with memory := m } steps := by
      rw [← after_eq]
      rfl
    rw [first]
    refine ⟨?_, m', size'.trans size, study_eq⟩
    rw [study?, List.foldlM_cons, passed, ← rest, ← after_eq]
    rfl

end Studying

end Lesson

namespace Network

open Lesson

variable {net : Network}

theorem Reachable.linked_layered (h : net.Reachable) :
    net.graph.Linked ∧ net.graph.Layered net.input net.hidden.toList net.output := by
  obtain ⟨bound, bare, sound, stands⟩ := h.stands
  cases stands with
  | plain => exact ⟨sound.consistent.toLinked, sound.layered⟩
  | compiled p g consistent mirrors =>
    exact ⟨consistent.toLinked, sound.layered.of_skeleton_eq mirrors.skeleton.symm⟩

/-- The network compiles into a program that has a place for every number. However it is run, it
stays within its memory and keeps a value for everything that is written back. -/
theorem Reachable.compile_addressed (h : net.Reachable) : ∃ p, net.compile = .ok p ∧
    p.Places net.graph net.input net.hidden.toList net.output ∧ p.Addressed ∧
    ∀ steps : List Lesson, study? p steps = some (study p steps) ∧
      ∃ g, (study p steps).restoreInto net.graph = .ok g ∧
        ∀ k, (net.graph.held? k).isSome →
          g.held? k = (study p steps).value? k ∧ ((study p steps).value? k).isSome := by
  obtain ⟨linked, layered⟩ := h.linked_layered
  obtain ⟨p, compile_eq, suits, fresh⟩ := GatedNetwork.compile_spec linked layered.present
  have places := suits.places fresh linked layered
  refine ⟨p, compile_eq, places, suits.addressed, fun steps => ?_⟩
  obtain ⟨passed, m, -, study_eq⟩ := study?_eq suits.addressed steps
  rw [study_eq] at passed ⊢
  exact ⟨passed, places.restores linked layered m⟩

theorem compile_addressed_selfGating : ∃ (net : Network) (p : Program), net.Reachable ∧
    net.compile = .ok p ∧ p.Places net.graph net.input net.hidden.toList net.output ∧
    study? p [.present [1], .teach 0.5 [0], .present [], .teach 0.5 [1]] =
      some (study p [.present [1], .teach 0.5 [0], .present [], .teach 0.5 [1]]) := by
  obtain ⟨net, reachable, -⟩ := exists_selfGating
  obtain ⟨p, compile_eq, places, -, runs⟩ := Reachable.compile_addressed reachable
  exact ⟨net, p, reachable, compile_eq, places, (runs _).1⟩

end Network

end GatedNetwork
