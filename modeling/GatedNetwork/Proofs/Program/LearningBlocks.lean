import GatedNetwork.Proofs.Program.Blocks

/-! What the blocks of the backward pass compute, as formulas over the reading that they start
from. -/

namespace GatedNetwork

open Listing

namespace Reading

section Formulas

variable (σ : Reading) (g : Graph) (id : NeuronId) (n : Neuron)

def projectedError : Float :=
  n.projected.toList.foldl
    (fun sum c => sum + σ (.responsibility c.target) * σ (.gain c) * σ (.weight c)) 0

def gatedError : Float :=
  n.trace.extended.keys.foldl (fun sum k => sum + σ (.responsibility k) * σ (.influence id k)) 0

def gradientOf (c : ConnectionId) : Float :=
  n.trace.extended.keys.foldl (fun sum k => sum + σ (.responsibility k) * σ (.extended id k c))
    (σ (.projected id) * σ (.eligibility id c))

/-- The error terms of a neuron that is not an output, once its influences are known. -/
def hiddenTerms : ErrorTerms where
  responsibility := σ (.derivative id) * σ.projectedError n +
    σ (.derivative id) * (σ.influenced g id n).gatedError id n
  projected := σ (.derivative id) * σ.projectedError n
  gated := σ (.derivative id) * (σ.influenced g id n).gatedError id n

def blamed (terms : ErrorTerms) : Reading :=
  Function.update (Function.update (Function.update σ
    (.responsibility id) terms.responsibility) (.projected id) terms.projected)
    (.gated id) terms.gated

/-- The reading once the weights of connections have moved. -/
def adjusted (cs : List ConnectionId) (delta : ConnectionId → Float) : Reading
  | .weight c => if c ∈ cs then σ (.weight c) + delta c else σ (.weight c)
  | k => σ k

def learned : Reading :=
  Function.update (σ.adjusted n.inputs.toList fun c => σ .rate * σ.gradientOf id n c)
    (.bias id) (σ (.bias id) + σ .rate * σ (.responsibility id))

end Formulas

end Reading

def gradientCode (id : NeuronId) (n : Neuron) (c : ConnectionId) : Block Key :=
  .mul (.gradient id) (.projected id) (.eligibility id c) ::
  n.trace.extended.keys.map (fun k =>
    .mulAcc (.gradient id) (.responsibility k) (.extended id k c)) ++
  [.mulAcc (.weight c) .rate (.gradient id)]

def projectedErrorCode (id : NeuronId) (n : Neuron) : Block Key :=
  .zero (.error id) :: n.projected.toList.map fun c =>
    .mulAcc3 (.error id) (.responsibility c.target) (.gain c) (.weight c)

def gatedErrorCode (id : NeuronId) (n : Neuron) : Block Key :=
  .zero (.error id) :: n.trace.extended.keys.map fun k =>
    .mulAcc (.error id) (.responsibility k) (.influence id k)

theorem hiddenErrorBlock_eq (id : NeuronId) (n : Neuron) (influences : Block Key) :
    hiddenErrorBlock id n influences = projectedErrorCode id n ++
      (.mul (.projected id) (.derivative id) (.error id) :: (influences ++
      (gatedErrorCode id n ++
      [.mul (.gated id) (.derivative id) (.error id),
        .add (.responsibility id) (.projected id) (.gated id)]))) := by
  simp [hiddenErrorBlock, projectedErrorCode, gatedErrorCode]

theorem updateBlock_eq (id : NeuronId) (n : Neuron) :
    updateBlock id n = n.inputs.toList.flatMap (gradientCode id n) ++
      [.mulAcc (.bias id) .rate (.responsibility id)] := rfl

theorem mem_blockWrites_gradientCode {id : NeuronId} {n : Neuron} {c : ConnectionId} {r : Key} :
    r ∈ blockWrites (gradientCode id n c) ↔ r = .gradient id ∨ r = .weight c := by
  rw [gradientCode, mem_blockWrites_append, mem_blockWrites_cons, mem_blockWrites_map]
  simp only [Instruction.writes, blockWrites, List.mem_cons, List.not_mem_nil, or_false,
    List.flatMap_cons, List.flatMap_nil, List.append_nil]
  constructor
  · rintro ((rfl | ⟨_, _, rfl⟩) | rfl) <;> simp
  · rintro (rfl | rfl) <;> simp

section Runs

variable (σ : Reading) (g : Graph) (id : NeuronId) (n : Neuron)

theorem run_outputErrorBlock (position : Nat) :
    σ.run (outputErrorBlock id position) = σ.blamed id
      { responsibility := σ (.target position) - σ (.activation id)
        projected := σ (.target position) - σ (.activation id)
        gated := σ (.gated id) } := by
  funext r
  by_cases hr : r = .gated id
  · subst hr
    simp [outputErrorBlock, Reading.step, Instruction.effect, Reading.blamed]
  · rw [Reading.blamed, Function.update_of_ne hr]
    simp [outputErrorBlock, Reading.step, Instruction.effect]

theorem run_projectedErrorCode :
    σ.run (projectedErrorCode id n) = Function.update σ (.error id) (σ.projectedError n) := by
  rw [projectedErrorCode, Reading.run_cons, Reading.run_accumulate (d := .error id)
    (v := fun c => σ (.responsibility c.target) * σ (.gain c) * σ (.weight c)) ?_]
  · simp [Reading.step, Instruction.effect, Reading.projectedError]
  · intro c _ τ hτ
    simp [Reading.step, Instruction.effect, hτ]

theorem run_gatedErrorCode :
    σ.run (gatedErrorCode id n) = Function.update σ (.error id) (σ.gatedError id n) := by
  rw [gatedErrorCode, Reading.run_cons, Reading.run_accumulate (d := .error id)
    (v := fun k => σ (.responsibility k) * σ (.influence id k)) ?_]
  · simp [Reading.step, Instruction.effect, Reading.gatedError]
  · intro k _ τ hτ
    simp [Reading.step, Instruction.effect, hτ]

theorem notMem_operands_influencesCode {k : Key} (hk : k = .error id ∨ k = .projected id) :
    ∀ i ∈ influencesCode g id n, k ∉ i.operands := by
  intro i hi
  simp only [influencesCode, influenceCode, List.mem_flatMap, List.mem_cons, List.mem_map] at hi
  obtain ⟨j, -, rfl | ⟨c, -, rfl⟩⟩ := hi
  · split <;> rcases hk with rfl | rfl <;> simp [Instruction.operands]
  · rcases hk with rfl | rfl <;> simp [Instruction.operands]

/-- The influences are found between the two sums, and touch neither of them. -/
theorem run_hiddenErrorBlock :
    ∃ x, σ.run (hiddenErrorBlock id n (influencesCode g id n)) =
      Function.update ((σ.influenced g id n).blamed id (σ.hiddenTerms g id n)) (.error id) x := by
  have product : Reading.step (Function.update σ (.error id) (σ.projectedError n))
      (.mul (.projected id) (.derivative id) (.error id)) =
      Function.update (Function.update σ (.error id) (σ.projectedError n)) (.projected id)
        (σ (.derivative id) * σ.projectedError n) := by
    simp [Reading.step, Instruction.effect]
  have derivative : σ.influenced g id n (.derivative id) = σ (.derivative id) := rfl
  have gatedError_eq (x y : Float) : Reading.gatedError (Function.update (Function.update
      (σ.influenced g id n) (.error id) x) (.projected id) y) id n =
        (σ.influenced g id n).gatedError id n := by
    simp [Reading.gatedError]
  refine ⟨(σ.influenced g id n).gatedError id n, ?_⟩
  rw [hiddenErrorBlock_eq, Reading.run_append, run_projectedErrorCode, Reading.run_cons, product,
    Reading.run_append, Reading.run_update_comm _ (notMem_operands_influencesCode g id n (.inr rfl)),
    Reading.run_update_comm _ (notMem_operands_influencesCode g id n (.inl rfl)), run_influencesCode,
    Reading.run_append, run_gatedErrorCode, gatedError_eq]
  funext r
  by_cases he : r = .error id
  · simp [he, Reading.step, Instruction.effect]
  · by_cases hp : r = .projected id
    · simp [hp, Reading.step, Instruction.effect, Reading.blamed, Reading.hiddenTerms]
    · by_cases hr : r = .responsibility id
      · simp [hr, Reading.step, Instruction.effect, Reading.blamed, Reading.hiddenTerms, derivative]
      · by_cases hg : r = .gated id
        · simp [hg, Reading.step, Instruction.effect, Reading.blamed, Reading.hiddenTerms, derivative]
        · simp [he, hp, hr, hg, Reading.step, Instruction.effect, Reading.blamed]

theorem run_gradientCode (τ : Reading) (c : ConnectionId) :
    τ.run (gradientCode id n c) = Function.update (Function.update τ (.gradient id)
      (τ.gradientOf id n c)) (.weight c) (τ (.weight c) + τ .rate * τ.gradientOf id n c) := by
  have start : τ.step (.mul (.gradient id) (.projected id) (.eligibility id c)) =
      Function.update τ (.gradient id) (τ (.projected id) * τ (.eligibility id c)) := by
    simp [Reading.step, Instruction.effect]
  rw [gradientCode, Reading.run_append, Reading.run_cons τ, start,
    Reading.run_accumulate (d := .gradient id)
      (v := fun k => τ (.responsibility k) * τ (.extended id k c)) ?_]
  · simp [Reading.step, Instruction.effect, Reading.gradientOf]
  · intro k _ τ' hτ'
    simp [Reading.step, Instruction.effect, hτ']

/-- The changes of the incoming weights do not depend on one another. -/
theorem run_gradientCodes {r : Key} (hr : r ≠ .gradient id) :
    σ.run (n.inputs.toList.flatMap (gradientCode id n)) r =
      σ.adjusted n.inputs.toList (fun c => σ .rate * σ.gradientOf id n c) r := by
  by_cases hw : ∃ c ∈ n.inputs.toList, r = .weight c
  · obtain ⟨c, hc, rfl⟩ := hw
    simp only [Reading.adjusted, if_pos hc]
    refine Reading.run_flatMap (SortedSet.nodup_toList _) hc (fun y _ hy => ?_) fun τ hτ => ?_
    · simpa [mem_blockWrites_gradientCode] using Ne.symm hy
    · have unwritten (r : Key) (hg : r ≠ .gradient id) (hw : ∀ c' ≠ c, r ≠ .weight c') :
          τ r = σ r := hτ r fun y _ hy => by
        rw [mem_blockWrites_gradientCode]
        rintro (rfl | rfl)
        · exact hg rfl
        · exact hw y hy rfl
      have gradientOf_eq : τ.gradientOf id n c = σ.gradientOf id n c := by
        simp [Reading.gradientOf, unwritten]
      have own : τ (.weight c) = σ (.weight c) := unwritten _ (by simp) fun c' hc' => by
        simp [Ne.symm hc']
      rw [run_gradientCode, gradientOf_eq, own, unwritten .rate (by simp) (by simp)]
      simp
  · rw [Reading.run_of_notMem]
    · cases r with
      | weight c =>
        have hc : c ∉ n.inputs.toList := fun hc => hw ⟨c, hc, rfl⟩
        simp only [Reading.adjusted, if_neg hc]
      | _ => rfl
    · rw [mem_blockWrites_flatMap]
      rintro ⟨c, hc, hmem⟩
      rcases mem_blockWrites_gradientCode.mp hmem with rfl | rfl
      · exact hr rfl
      · exact hw ⟨c, hc, rfl⟩

theorem run_updateBlock :
    ∃ x, σ.run (updateBlock id n) = Function.update (σ.learned id n) (.gradient id) x := by
  refine ⟨σ.run (updateBlock id n) (.gradient id), ?_⟩
  funext r
  by_cases hr : r = .gradient id
  · simp [hr]
  · rw [Function.update_of_ne hr, updateBlock_eq, Reading.run_append, Reading.learned]
    by_cases hb : r = .bias id
    · subst hb
      simp [Reading.step, Instruction.effect, run_gradientCodes, Reading.adjusted]
    · rw [Function.update_of_ne hb, ← run_gradientCodes σ id n hr]
      simp [Reading.step, Instruction.effect, hb]

end Runs

end GatedNetwork
