import Mathlib.Logic.Function.Basic
import GatedNetwork.Program.Instruction
import GatedNetwork.Proofs.Graph.Reading

/-! Instructions over keys as changes of a reading. A block changes only the keys that it
writes, and a loop of blocks can be taken one block at a time. -/

namespace GatedNetwork

namespace Instruction

variable {α : Type}

def writes : Instruction α → List α
  | .zero dst | .copy dst _ | .add dst _ _ | .sub dst _ _ | .mul dst _ _ | .mulAcc dst _ _
  | .mulAcc3 dst _ _ _ | .recur dst _ _ _ _ | .trace dst _ _ _ _ | .extended dst _ _ _ _ _ => [dst]
  | .squash _ _ activation derivative => [activation, derivative]

theorem effect_addresses (read : α → Float) (i : Instruction α) :
    (i.effect read).map (·.1) = i.writes := by
  cases i <;> rfl

theorem mem_operands_of_mem_writes {i : Instruction α} {a : α} (h : a ∈ i.writes) :
    a ∈ i.operands := by
  cases i <;> simp_all [writes, operands]

theorem effect_congr {read read' : α → Float} {i : Instruction α}
    (h : ∀ a ∈ i.operands, read a = read' a) : i.effect read = i.effect read' := by
  cases i <;> simp_all [effect, operands]

end Instruction

def blockWrites {α : Type} (b : Block α) : List α := b.flatMap (·.writes)

namespace Reading

def store (σ : Reading) (writes : List (Key × Float)) : Reading :=
  writes.foldl (fun σ (k, x) => Function.update σ k x) σ

def step (σ : Reading) (i : Instruction Key) : Reading := σ.store (i.effect σ)

def run (σ : Reading) (b : Block Key) : Reading := b.foldl step σ

section Steps

variable (σ : Reading)

@[simp] theorem store_nil : σ.store [] = σ := rfl

@[simp] theorem store_cons (k : Key) (x : Float) (writes : List (Key × Float)) :
    σ.store ((k, x) :: writes) = store (Function.update σ k x) writes := rfl

@[simp] theorem run_nil : σ.run [] = σ := rfl

@[simp] theorem run_cons (i : Instruction Key) (b : Block Key) : σ.run (i :: b) = (σ.step i).run b :=
  rfl

@[simp] theorem run_append (a b : Block Key) : σ.run (a ++ b) = (σ.run a).run b :=
  List.foldl_append

theorem store_of_notMem {writes : List (Key × Float)} {k : Key} (h : k ∉ writes.map (·.1)) :
    σ.store writes k = σ k := by
  induction writes generalizing σ with
  | nil => rfl
  | cons w writes ih =>
    simp only [List.map_cons, List.mem_cons, not_or] at h
    exact (ih (Function.update σ w.1 w.2) h.2).trans (Function.update_of_ne h.1 _ _)

theorem step_of_notMem {i : Instruction Key} {k : Key} (h : k ∉ i.writes) : σ.step i k = σ k :=
  σ.store_of_notMem (by rwa [Instruction.effect_addresses])

theorem store_of_mem {writes : List (Key × Float)} (nodup : (writes.map (·.1)).Nodup)
    {w : Key × Float} (hw : w ∈ writes) : σ.store writes w.1 = w.2 := by
  induction writes generalizing σ with
  | nil => simp at hw
  | cons w' writes ih =>
    obtain ⟨fresh, nodup⟩ := List.nodup_cons.mp nodup
    rcases List.mem_cons.mp hw with rfl | hw
    · exact (store_of_notMem _ fresh).trans (by simp)
    · exact ih _ nodup hw

theorem run_of_notMem {b : Block Key} {k : Key} (h : k ∉ blockWrites b) : σ.run b k = σ k := by
  induction b generalizing σ with
  | nil => rfl
  | cons i b ih =>
    simp only [blockWrites, List.flatMap_cons, List.mem_append, not_or] at h
    exact (ih (σ.step i) h.2).trans (σ.step_of_notMem h.1)

theorem store_update_comm {writes : List (Key × Float)} {k : Key} (h : k ∉ writes.map (·.1))
    (x : Float) : store (Function.update σ k x) writes = Function.update (σ.store writes) k x := by
  induction writes generalizing σ with
  | nil => rfl
  | cons w writes ih =>
    simp only [List.map_cons, List.mem_cons, not_or] at h
    simp only [store, List.foldl_cons] at ih ⊢
    rw [Function.update_comm h.1, ih (Function.update σ w.1 w.2) h.2]

theorem step_update_comm {i : Instruction Key} {k : Key} (h : k ∉ i.operands) (x : Float) :
    step (Function.update σ k x) i = Function.update (σ.step i) k x := by
  have effect_eq : i.effect (Function.update σ k x) = i.effect σ :=
    Instruction.effect_congr fun a ha => Function.update_of_ne (ne_of_mem_of_not_mem ha h) _ _
  rw [step, effect_eq]
  refine σ.store_update_comm ?_ x
  rw [Instruction.effect_addresses]
  exact fun hk => h (Instruction.mem_operands_of_mem_writes hk)

/-- A number that a block does not speak of can be stored before or after it. -/
theorem run_update_comm {b : Block Key} {k : Key} (h : ∀ i ∈ b, k ∉ i.operands) (x : Float) :
    run (Function.update σ k x) b = Function.update (σ.run b) k x := by
  induction b generalizing σ with
  | nil => rfl
  | cons i b ih =>
    rw [run_cons, run_cons, σ.step_update_comm (h i (by simp)), ih _ fun j hj => h j (by simp [hj])]

end Steps

section Loops

variable {σ : Reading} {α : Type} {xs : List α}

theorem run_accumulate {d : Key} {f : α → Instruction Key} {v : α → Float}
    (hf : ∀ x ∈ xs, ∀ τ : Reading, (∀ k ≠ d, τ k = σ k) →
      τ.step (f x) = Function.update τ d (τ d + v x)) :
    σ.run (xs.map f) = Function.update σ d (xs.foldl (fun s x => s + v x) (σ d)) := by
  suffices h : ∀ τ : Reading, (∀ k ≠ d, τ k = σ k) →
      τ.run (xs.map f) = Function.update τ d (xs.foldl (fun s x => s + v x) (τ d)) from
    h σ fun _ _ => rfl
  induction xs with
  | nil =>
    intro τ _
    simp
  | cons x xs ih =>
    intro τ hτ
    rw [List.map_cons, run_cons, hf x (by simp) τ hτ,
      ih (fun y hy => hf y (by simp [hy])) _ fun k hk => (Function.update_of_ne hk _ _).trans (hτ k hk)]
    simp

/-- What one block of a loop writes alone is what it writes from a reading that the other
blocks have changed only where they write. -/
theorem run_flatMap [DecidableEq α] {f : α → Block Key} (nodup : xs.Nodup) {x : α} (hx : x ∈ xs)
    {k : Key} {v : Float} (alone : ∀ y ∈ xs, y ≠ x → k ∉ blockWrites (f y))
    (hv : ∀ τ : Reading, (∀ r, (∀ y ∈ xs, y ≠ x → r ∉ blockWrites (f y)) → τ r = σ r) →
      τ.run (f x) k = v) : σ.run (xs.flatMap f) k = v := by
  obtain ⟨before, later, rfl⟩ := List.append_of_mem hx
  obtain ⟨-, hnodup, disjoint⟩ := List.nodup_append.mp nodup
  have ne_before {y : α} (hy : y ∈ before) : y ≠ x := disjoint y hy x (by simp)
  have ne_later {y : α} (hy : y ∈ later) : y ≠ x := by
    rintro rfl
    exact (List.nodup_cons.mp hnodup).1 hy
  have frame {ys : List α} (τ : Reading) {r : Key} (h : ∀ y ∈ ys, r ∉ blockWrites (f y)) :
      τ.run (ys.flatMap f) r = τ r := by
    refine τ.run_of_notMem fun hr => ?_
    simp only [blockWrites, List.mem_flatMap] at hr h
    obtain ⟨i, ⟨y, hy, hi⟩, hr⟩ := hr
    exact h y hy ⟨i, hi, hr⟩
  rw [List.flatMap_append, List.flatMap_cons, run_append, run_append,
    frame _ fun y hy => alone y (by simp [hy]) (ne_later hy)]
  exact hv _ fun r hr => frame σ fun y hy => hr y (by simp [hy]) (ne_before hy)

end Loops

end Reading

end GatedNetwork
