import GatedNetwork.Program.Listing
import GatedNetwork.Proofs.Graph.Consistent
import GatedNetwork.Proofs.Outcome
import GatedNetwork.Proofs.Program.Execution

/-! What the blocks of the forward pass compute, as formulas over the reading that they start
from. -/

namespace GatedNetwork

open Listing

namespace Reading

section Formulas

variable (σ : Reading) (g : Graph) (id : NeuronId) (n : Neuron)

def nextState : Float :=
  n.inputs.toList.foldl
    (fun sum c => sum + σ (.activation c.source) * σ (.weight c) * σ (.gain c))
    (σ (.gain (.loop id)) * σ (.weight (.loop id)) * σ (.state id) + σ (.bias id))

/-- How much a neuron moves the state of a neuron that it gates into. -/
def influenceOn (k : NeuronId) : Float :=
  (n.gated.toList.filter fun c => c.target == k && !c.isSelf).foldl
    (fun sum c => sum + σ (.weight c) * σ (.activation c.source))
    (if g.gater? (.loop k) = some id then σ (.weight (.loop k)) * σ (.old k) else 0)

def nextEligibility (c : ConnectionId) : Float :=
  σ (.gain (.loop id)) * σ (.weight (.loop id)) * σ (.eligibility id c) +
    σ (.gain c) * σ (.activation c.source)

def nextExtended (k : NeuronId) (c : ConnectionId) : Float :=
  σ (.gain (.loop k)) * σ (.weight (.loop k)) * σ (.extended id k c) +
    σ (.derivative id) * σ.nextEligibility id c * σ (.influence id k)

/-- The reading once a neuron has fired from a new state. -/
def fired (s : Float) : Reading :=
  Function.update (Function.update (Function.update (Function.update σ
    (.old id) (σ (.state id))) (.state id) s)
    (.activation id) (n.squash.apply s)) (.derivative id) (n.squash.derivative s)

/-- The reading once the influences of a neuron are known. -/
def influenced : Reading
  | .influence i k =>
    if i = id ∧ n.trace.extended.contains k then σ.influenceOn g id n k else σ (.influence i k)
  | k => σ k

/-- The reading once the traces of a neuron have moved on. -/
def traced : Reading
  | .eligibility i c =>
    if i = id ∧ n.inputs.contains c then σ.nextEligibility id c else σ (.eligibility i c)
  | .extended i k c =>
    if i = id ∧ n.trace.extended.contains k ∧ n.inputs.contains c then σ.nextExtended id k c
    else σ (.extended i k c)
  | k => σ k

end Formulas

end Reading

def influenceCode (g : Graph) (id : NeuronId) (n : Neuron) (k : NeuronId) : Block Key :=
  (if g.gater? (.loop k) = some id then .mul (.influence id k) (.weight (.loop k)) (.old k)
    else .zero (.influence id k)) ::
  (n.gated.toList.filter fun c => c.target == k && !c.isSelf).map fun c =>
    .mulAcc (.influence id k) (.weight c) (.activation c.source)

def influencesCode (g : Graph) (id : NeuronId) (n : Neuron) : Block Key :=
  n.trace.extended.keys.flatMap (influenceCode g id n)

def rowCode (id : NeuronId) (n : Neuron) (c : ConnectionId) : Block Key :=
  .trace (.eligibility id c) (.gain (.loop id)) (.weight (.loop id)) (.gain c)
    (.activation c.source) ::
  n.trace.extended.keys.map fun k =>
    .extended (.extended id k c) (.gain (.loop k)) (.weight (.loop k)) (.derivative id)
      (.eligibility id c) (.influence id k)

theorem traceBlock_eq (id : NeuronId) (n : Neuron) (influences : Block Key) :
    traceBlock id n influences =
      influences ++ n.inputs.toList.flatMap (rowCode id n) ++ gainBlock id n := rfl

theorem influenceBlock_eq {g : Graph} (h : g.Linked) {id : NeuronId} {n : Neuron}
    (hn : g.neurons.get? id = some n) : influenceBlock g id n = .ok (influencesCode g id n) := by
  have one (k : NeuronId) (hk : k ∈ n.trace.extended.keys) :
      Listing.influenceOn g id n k = .ok (influenceCode g id n k) := by
    obtain ⟨m, hm⟩ := h.extended hn (SortedMap.mem_keys.mp hk)
    have hgater : m.selfConnection.gater = g.gater? (.loop k) := by
      simp [Graph.gater?, Graph.connection?_loop, hm]
    rw [Listing.influenceOn, Graph.neuron_eq_ok hm, influenceCode, ← hgater]
    rfl
  rw [influenceBlock, mapM_eq_ok one, influencesCode, List.flatMap_def]
  rfl

section Writes

variable {g : Graph} {id : NeuronId} {n : Neuron}

theorem mem_blockWrites_map {α : Type} {xs : List α} {f : α → Instruction Key} {r : Key} :
    r ∈ blockWrites (xs.map f) ↔ ∃ x ∈ xs, r ∈ (f x).writes := by
  simp [blockWrites]

theorem mem_blockWrites_flatMap {α : Type} {xs : List α} {f : α → Block Key} {r : Key} :
    r ∈ blockWrites (xs.flatMap f) ↔ ∃ x ∈ xs, r ∈ blockWrites (f x) := by
  simp only [blockWrites, List.mem_flatMap]
  constructor
  · rintro ⟨i, ⟨x, hx, hi⟩, hr⟩
    exact ⟨x, hx, i, hi, hr⟩
  · rintro ⟨x, hx, i, hi, hr⟩
    exact ⟨i, ⟨x, hx, hi⟩, hr⟩

theorem mem_blockWrites_nil {r : Key} : r ∈ blockWrites [] ↔ False := by
  simp [blockWrites]

theorem mem_blockWrites_append {a b : Block Key} {r : Key} :
    r ∈ blockWrites (a ++ b) ↔ r ∈ blockWrites a ∨ r ∈ blockWrites b := by
  simp [blockWrites]

theorem mem_blockWrites_cons {i : Instruction Key} {b : Block Key} {r : Key} :
    r ∈ blockWrites (i :: b) ↔ r ∈ i.writes ∨ r ∈ blockWrites b := by
  simp [blockWrites]

theorem mem_blockWrites_influenceCode {k : NeuronId} {r : Key} :
    r ∈ blockWrites (influenceCode g id n k) ↔ r = .influence id k := by
  rw [influenceCode, mem_blockWrites_cons, mem_blockWrites_map]
  split <;> simp [Instruction.writes]

theorem mem_blockWrites_influencesCode {r : Key} :
    r ∈ blockWrites (influencesCode g id n) ↔
      ∃ k, n.trace.extended.contains k ∧ r = .influence id k := by
  simp [influencesCode, mem_blockWrites_flatMap, mem_blockWrites_influenceCode]

theorem mem_blockWrites_rowCode {c : ConnectionId} {r : Key} :
    r ∈ blockWrites (rowCode id n c) ↔
      r = .eligibility id c ∨ ∃ k, n.trace.extended.contains k ∧ r = .extended id k c := by
  rw [rowCode, mem_blockWrites_cons, mem_blockWrites_map]
  simp [Instruction.writes]

theorem mem_blockWrites_gainBlock {r : Key} :
    r ∈ blockWrites (gainBlock id n) ↔ ∃ c, n.gated.contains c ∧ r = .gain c := by
  rw [gainBlock, mem_blockWrites_map]
  simp [Instruction.writes]

end Writes

def Block.zeros (ks : List Key) : Block Key := ks.map .zero

theorem Block.zeros_cons (k : Key) {α : Type} (xs : List α) (f : α → Key) :
    Block.zeros (k :: xs.map f) = .zero k :: xs.map fun x => .zero (f x) := by
  simp [zeros]

theorem Reading.run_zeros (σ : Reading) (ks : List Key) (r : Key) :
    σ.run (Block.zeros ks) r = if r ∈ ks then 0 else σ r := by
  induction ks generalizing σ with
  | nil => rfl
  | cons k ks ih =>
    rw [Block.zeros, List.map_cons, run_cons, ← Block.zeros, ih]
    by_cases hr : r ∈ ks
    · simp [hr]
    · by_cases hk : r = k <;> simp [hr, hk, step, Instruction.effect]

section Runs

variable (σ : Reading) (g : Graph) (id : NeuronId) (n : Neuron)

theorem run_activationBlock :
    σ.run (activationBlock id n) = σ.fired id n (σ.nextState id n) := by
  have start : σ.run [.copy (.old id) (.state id),
      .recur (.state id) (.gain (.loop id)) (.weight (.loop id)) (.old id) (.bias id)] =
      Function.update (Function.update σ (.old id) (σ (.state id))) (.state id)
        (σ (.gain (.loop id)) * σ (.weight (.loop id)) * σ (.state id) + σ (.bias id)) := by
    simp [Reading.step, Instruction.effect]
  have sum := Reading.run_accumulate (d := .state id)
    (f := fun c => .mulAcc3 (.state id) (.activation c.source) (.weight c) (.gain c))
    (v := fun c => σ (.activation c.source) * σ (.weight c) * σ (.gain c))
    (σ := Function.update (Function.update σ (.old id) (σ (.state id))) (.state id)
        (σ (.gain (.loop id)) * σ (.weight (.loop id)) * σ (.state id) + σ (.bias id)))
    fun c (_ : c ∈ n.inputs.toList) τ hτ => by simp [Reading.step, Instruction.effect, hτ]
  rw [activationBlock, Reading.run_append, Reading.run_append, start, sum]
  simp [Reading.step, Instruction.effect, Reading.fired, Reading.nextState, Squash.eval]

theorem run_influencesCode : σ.run (influencesCode g id n) = σ.influenced g id n := by
  funext r
  by_cases hr : ∃ k, n.trace.extended.contains k ∧ r = .influence id k
  · obtain ⟨k, hk, rfl⟩ := hr
    simp only [Reading.influenced, hk, and_self, ↓reduceIte]
    refine Reading.run_flatMap (SortedMap.nodup_keys _) (SortedMap.mem_keys.mpr hk)
      (fun y _ hy => ?_) fun τ hτ => ?_
    · simpa [mem_blockWrites_influenceCode] using Ne.symm hy
    · have unwritten (r : Key) (hr : ∀ y, r ≠ .influence id y) : τ r = σ r :=
        hτ r fun y _ _ => by simpa [mem_blockWrites_influenceCode] using hr y
      have start : τ.step (if g.gater? (.loop k) = some id
          then .mul (.influence id k) (.weight (.loop k)) (.old k) else .zero (.influence id k)) =
          Function.update τ (.influence id k)
            (if g.gater? (.loop k) = some id then σ (.weight (.loop k)) * σ (.old k) else 0) := by
        split <;> simp [Reading.step, Instruction.effect, unwritten]
      rw [influenceCode, Reading.run_cons, start, Reading.run_accumulate
        (d := .influence id k) (v := fun c => σ (.weight c) * σ (.activation c.source)) ?_]
      · simp [Reading.influenceOn]
      · intro c _ τ' hτ'
        simp [Reading.step, Instruction.effect, hτ', unwritten]
  · rw [Reading.run_of_notMem _ (by rwa [mem_blockWrites_influencesCode])]
    cases r with
    | influence i k =>
      have hne : ¬ (i = id ∧ n.trace.extended.contains k) := by
        rintro ⟨rfl, hk⟩
        exact hr ⟨k, hk, rfl⟩
      simp only [Reading.influenced, if_neg hne]
    | _ => rfl

theorem run_rowCode {c : ConnectionId} {τ : Reading}
    (hτ : ∀ r, (∀ c' ≠ c, r ≠ .eligibility id c' ∧ ∀ k, r ≠ .extended id k c') → τ r = σ r) :
    τ.run (rowCode id n c) (.eligibility id c) = σ.nextEligibility id c ∧
      ∀ k, n.trace.extended.contains k →
        τ.run (rowCode id n c) (.extended id k c) = σ.nextExtended id k c := by
  have row : τ.step (.trace (.eligibility id c) (.gain (.loop id)) (.weight (.loop id)) (.gain c)
      (.activation c.source)) =
      Function.update τ (.eligibility id c) (σ.nextEligibility id c) := by
    have own : τ (.eligibility id c) = σ (.eligibility id c) :=
      hτ _ fun c' hc' => by simp [Ne.symm hc']
    simp [Reading.step, Instruction.effect, Reading.nextEligibility, own, hτ]
  rw [rowCode, Reading.run_cons, row]
  refine ⟨?_, fun k hk => ?_⟩
  · rw [Reading.run_of_notMem _ (by simp [mem_blockWrites_map, Instruction.writes])]
    simp
  · rw [List.map_eq_flatMap]
    refine Reading.run_flatMap (SortedMap.nodup_keys _) (SortedMap.mem_keys.mpr hk)
      (fun y _ hy => ?_) fun τ' hτ' => ?_
    · simpa [blockWrites, Instruction.writes] using Ne.symm hy
    · have unwritten (r : Key) (hr : ∀ y ≠ k, r ≠ .extended id y c) :
          τ' r = Function.update τ (.eligibility id c) (σ.nextEligibility id c) r :=
        hτ' r fun y _ hy => by simpa [blockWrites, Instruction.writes] using hr y hy
      have own : τ (.extended id k c) = σ (.extended id k c) :=
        hτ _ fun c' hc' => by simp [Ne.symm hc']
      have own' : τ' (.extended id k c) = τ (.extended id k c) :=
        (unwritten _ fun y hy => by simp [Ne.symm hy]).trans (by simp)
      simp [Reading.step, Instruction.effect, Reading.nextExtended, own, own', unwritten, hτ]

theorem run_rows : σ.run (n.inputs.toList.flatMap (rowCode id n)) = σ.traced id n := by
  have one {c : ConnectionId} {τ : Reading}
      (hτ : ∀ r, (∀ y ∈ n.inputs.toList, y ≠ c → r ∉ blockWrites (rowCode id n y)) → τ r = σ r) :=
    run_rowCode σ id n (τ := τ) fun r hr => hτ r fun y _ hy => by
      rw [mem_blockWrites_rowCode]
      rintro (rfl | ⟨k, -, rfl⟩)
      · exact (hr y hy).1 rfl
      · exact (hr y hy).2 k rfl
  funext r
  by_cases hr : r ∈ blockWrites (n.inputs.toList.flatMap (rowCode id n))
  · simp only [mem_blockWrites_flatMap, mem_blockWrites_rowCode, SortedSet.mem_toList_iff] at hr
    obtain ⟨c, hc, rfl | ⟨k, hk, rfl⟩⟩ := hr
    · simp only [Reading.traced, hc, and_self, ↓reduceIte]
      refine Reading.run_flatMap (SortedSet.nodup_toList _) (SortedSet.mem_toList_iff.mpr hc)
        (fun y _ hy => ?_) fun τ hτ => (one hτ).1
      simpa [mem_blockWrites_rowCode] using Ne.symm hy
    · simp only [Reading.traced, hk, hc, and_self, ↓reduceIte]
      refine Reading.run_flatMap (SortedSet.nodup_toList _) (SortedSet.mem_toList_iff.mpr hc)
        (fun y _ hy => ?_) fun τ hτ => (one hτ).2 k hk
      rw [mem_blockWrites_rowCode]
      rintro (same | ⟨k', -, same⟩)
      · cases same
      · exact hy (Key.extended.inj same).2.2.symm
  · rw [Reading.run_of_notMem _ hr]
    simp only [mem_blockWrites_flatMap, mem_blockWrites_rowCode, SortedSet.mem_toList_iff,
      not_exists, not_and, not_or] at hr
    cases r with
    | eligibility i c =>
      have hne : ¬ (i = id ∧ n.inputs.contains c) := by
        rintro ⟨rfl, hc⟩
        exact (hr c hc).1 rfl
      simp only [Reading.traced, if_neg hne]
    | extended i k c =>
      have hne : ¬ (i = id ∧ n.trace.extended.contains k ∧ n.inputs.contains c) := by
        rintro ⟨rfl, hk, hc⟩
        exact (hr c hc).2 k hk rfl
      simp only [Reading.traced, if_neg hne]
    | _ => rfl

end Runs

end GatedNetwork
