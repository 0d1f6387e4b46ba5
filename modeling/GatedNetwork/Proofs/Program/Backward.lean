import GatedNetwork.Graph.Learning
import GatedNetwork.Proofs.Program.Forward
import GatedNetwork.Proofs.Program.LearningBlocks

/-! The backward pass over one neuron, on the graph and by its block. The graph finds all
gradients before it moves a weight; the block moves each weight as soon as its gradient is
known. -/

namespace GatedNetwork

open Listing

namespace Graph

section Questions

variable {g : Graph} {id : NeuronId} {n : Neuron} {σ : Reading}

theorem projectedError_eq (h : g.Linked) (ha : g.Agrees σ) (hn : g.neurons.get? id = some n) :
    g.projectedError n = .ok (σ.projectedError n) := by
  refine foldlM_eq_ok (v := fun sum c =>
    sum + σ (.responsibility c.target) * σ (.gain c) * σ (.weight c)) (fun sum c hc => ?_) 0
  obtain ⟨-, -, ⟨d, hd⟩, t, ht⟩ := h.projection hn (SortedSet.mem_toList_iff.mp hc)
  obtain ⟨hw, hg⟩ := ha.connection hd
  have hresp : σ (.responsibility c.target) = t.error.responsibility := ha.own ht rfl
  rw [connection_eq_ok hd, neuron_eq_ok ht, ← hw, ← hg, hresp]
  rfl

theorem gatedError_eq (h : g.Linked) (ha : g.Agrees σ) (hn : g.neurons.get? id = some n) :
    g.gatedError (n.trace.extended.keys.map fun k => (k, σ.influenceOn g id n k)) =
      .ok ((σ.influenced g id n).gatedError id n) := by
  rw [gatedError, List.foldlM_map]
  refine foldlM_eq_ok (v := fun sum k => sum + σ.influenced g id n (.responsibility k) *
    σ.influenced g id n (.influence id k)) (fun sum k hk => ?_) 0
  have hk := SortedMap.mem_keys.mp hk
  obtain ⟨m, hm⟩ := h.extended hn hk
  have hi : σ.influenced g id n (.influence id k) = σ.influenceOn g id n k := by
    simp [Reading.influenced, hk]
  have hresp : σ (.responsibility k) = m.error.responsibility := ha.own hm rfl
  rw [influenced_of_ne (r := .responsibility k) (by simp), hi, hresp]
  simp only [neuron_eq_ok hm]
  rfl

theorem gradients_eq (h : g.Linked) (ha : g.Agrees σ) (hn : g.neurons.get? id = some n) :
    g.gradients id = .ok (n.inputs.toList.map fun c => (c, σ.gradientOf id n c)) := by
  have own {k : Key} (hk : k.IsOf id) : σ k = n.reading k := ha.own hn hk
  rw [gradients, neuron_eq_ok hn]
  refine mapM_eq_ok fun c _ => ?_
  have gradient_eq : g.gradient n c = .ok (σ.gradientOf id n c) := by
    refine (foldlM_eq_ok (v := fun sum k =>
      sum + σ (.responsibility k) * σ (.extended id k c)) (fun sum k hk => ?_) _).trans ?_
    · obtain ⟨m, hm⟩ := h.extended hn (SortedMap.mem_keys.mp hk)
      have hresp : σ (.responsibility k) = m.error.responsibility := ha.own hm rfl
      rw [neuron_eq_ok hm, hresp, own (k := .extended id k c) rfl]
      rfl
    · rw [Reading.gradientOf, own (k := .projected id) rfl, own (k := .eligibility id c) rfl]
      rfl
  rw [gradient_eq]
  rfl

end Questions

section Steps

variable {g : Graph} {id : NeuronId} {n : Neuron} {σ : Reading}

theorem follows_recordInfluences (h : g.Linked) (ha : g.Agrees σ)
    (hn : g.neurons.get? id = some n) :
    g.Follows (modifyNeuron id fun n' => { n' with
        trace := n'.trace.recordInfluences
          (n.trace.extended.keys.map fun k => (k, σ.influenceOn g id n k)) }) ()
      (σ.influenced g id n) := by
  have traced := h.traced id n hn
  have record_eq := Trace.recordInfluences_eq (t := n.trace) (SortedMap.nodup_keys n.trace.extended)
    (fun k => by rw [SortedMap.mem_keys, traced.influences]) fun k => σ.influenceOn g id n k
  refine follows_modifyNeuron ha hn ?_ (fun r _ hof => ?_) fun r hof => ?_
  · simp only [record_eq, Neuron.skeleton, Neuron.clear, Trace.clear, SortedMap.mapValues_mapValues]
  · exact influenced_of_ne fun k => by
      rintro rfl
      exact hof rfl
  · rw [record_eq]
    have own := ha.own hn hof
    cases r with
    | rate | target | error | gradient => exact hof.elim
    | influence j k =>
      obtain rfl := hof
      simp only [Reading.influenced, Neuron.reading]
      rw [influenceOf_of_mapValues traced (fun k => σ.influenceOn g j n k) rfl]
      by_cases hk : n.trace.extended.contains k
      · simp [hk]
      · simpa [hk] using own.trans (influenceOf_of_not_traced traced hk)
    | _ => exact own

theorem follows_blame (ha : g.Agrees σ) (hn : g.neurons.get? id = some n) (terms : ErrorTerms) :
    g.Follows (modifyNeuron id fun n => { n with error := terms }) () (σ.blamed id terms) := by
  refine follows_modifyNeuron ha hn rfl (fun r _ hof => ?_) fun r hof => ?_
  · cases r <;> simp_all [Reading.blamed, Key.IsOf]
  · have own := ha.own hn hof
    cases r with
    | rate | target | error | gradient => exact hof.elim
    | responsibility | projected | gated =>
      obtain rfl := hof
      simp [Reading.blamed, Neuron.reading]
    | _ =>
      refine Eq.trans ?_ own
      simp [Reading.blamed]

theorem follows_adjust (ha : g.Agrees σ) {cs : List ConnectionId} (nodup : cs.Nodup)
    (hcs : ∀ c ∈ cs, (g.connection? c).isSome) (delta : ConnectionId → Float) :
    g.Follows (cs.forM fun c => modifyConnection c fun d => { d with weight := d.weight + delta c }) ()
      (σ.adjusted cs delta) := by
  induction cs generalizing g σ with
  | nil =>
    refine (follows_pure ha ()).congr fun r _ => ?_
    cases r <;> simp [Reading.adjusted]
  | cons c cs ih =>
    obtain ⟨fresh, nodup⟩ := List.nodup_cons.mp nodup
    refine Follows.bind (x := ⟨⟩) (σ := Function.update σ (.weight c) (σ (.weight c) + delta c)) ?_
      fun g' hs ha' => ?_
    · refine follows_modifyConnection ha (hcs c (by simp)) (fun _ => rfl)
        (fun r _ hr _ => Function.update_of_ne hr _ _) (fun d hw _ => ?_) fun d _ hg => ?_
      · simp [hw]
      · simpa using hg.symm
    · refine (ih ha' nodup fun d hd => isSome_of_skeleton_eq hs (hcs d (by simp [hd]))).congr
        fun r _ => ?_
      cases r with
      | weight d =>
        by_cases hd : d = c
        · subst hd
          simp [Reading.adjusted, fresh]
        · simp [Reading.adjusted, hd]
      | _ => simp [Reading.adjusted]

theorem follows_bias (ha : g.Agrees σ) (hn : g.neurons.get? id = some n) (delta : Float) :
    g.Follows (modifyNeuron id fun n => { n with bias := n.bias + delta }) ()
      (Function.update σ (.bias id) (σ (.bias id) + delta)) := by
  refine follows_modifyNeuron ha hn rfl (fun r _ hof => ?_) fun r hof => ?_
  · refine Function.update_of_ne ?_ _ _
    rintro rfl
    exact hof rfl
  · have own := ha.own hn hof
    cases r with
    | rate | target | error | gradient => exact hof.elim
    | bias =>
      obtain rfl := hof
      simp [own, Neuron.reading]
    | _ =>
      refine Eq.trans ?_ own
      simp

theorem follows_learn (h : g.Linked) (ha : g.Agrees σ) (hn : g.neurons.get? id = some n) :
    g.Follows (do
      (← ask (·.gradients id)).forM fun (c, gradient) =>
        modifyConnection c fun conn => { conn with weight := conn.weight + σ .rate * gradient }
      modifyNeuron id fun n => { n with bias := n.bias + σ .rate * σ (.responsibility id) }) ()
      (σ.run (updateBlock id n)) := by
  obtain ⟨x, hx⟩ := run_updateBlock σ id n
  refine Follows.congr (σ := σ.learned id n) (Follows.ask (gradients_eq h ha hn) ?_) fun r hr => ?_
  · have moved := follows_adjust ha n.inputs.nodup_toList (fun c hc => by
      obtain ⟨-, -, ⟨d, hd⟩, -⟩ := h.input hn (SortedSet.mem_toList_iff.mp hc)
      simp [hd]) fun c => σ .rate * σ.gradientOf id n c
    rw [List.forM_eq_forM, List.forM_map]
    refine Follows.bind moved fun g₁ hs₁ ha₁ => ?_
    obtain ⟨n₁, hn₁, -⟩ := exists_of_skeleton_eq hs₁ hn
    exact follows_bias ha₁ hn₁ (σ .rate * σ (.responsibility id))
  · rw [hx, Function.update_of_ne]
    rintro rfl
    simp [Key.isField] at hr

theorem follows_hiddenTerms (h : g.Linked) (ha : g.Agrees σ) (hn : g.neurons.get? id = some n) :
    g.Follows (Graph.hiddenTerms id n) (σ.hiddenTerms g id n) (σ.influenced g id n) := by
  have derivative : n.derivative = σ (.derivative id) := (ha.own hn (k := .derivative id) rfl).symm
  refine Follows.ask (projectedError_eq h ha hn) (Follows.ask (influences_eq h ha hn) ?_)
  refine Follows.ask (gatedError_eq h ha hn) ?_
  refine Follows.bind (follows_recordInfluences h ha hn) fun g' _ ha' => ?_
  rw [derivative]
  exact follows_pure ha' _

theorem follows_terms (h : g.Linked) (ha : g.Agrees σ) (hn : g.neurons.get? id = some n)
    (terms : ErrorTerms) :
    g.Follows (do
      modifyNeuron id fun n => { n with error := terms }
      (← ask (·.gradients id)).forM fun (c, gradient) =>
        modifyConnection c fun conn => { conn with weight := conn.weight + σ .rate * gradient }
      modifyNeuron id fun n => { n with bias := n.bias + σ .rate * terms.responsibility }) ()
      ((σ.blamed id terms).run (updateBlock id n)) := by
  have rate : σ .rate = σ.blamed id terms .rate := by simp [Reading.blamed]
  have responsibility : terms.responsibility = σ.blamed id terms (.responsibility id) := by
    simp [Reading.blamed]
  refine Follows.bind (follows_blame ha hn terms) fun g₁ hs₁ ha₁ => ?_
  obtain ⟨n₁, hn₁, -, inputs_eq, -, -, keys_eq⟩ := exists_of_skeleton_eq hs₁ hn
  have updateBlock_eq : updateBlock id n₁ = updateBlock id n := by
    simp only [updateBlock, inputs_eq, keys_eq]
  have learn := follows_learn (h.of_skeleton_eq hs₁) ha₁ hn₁
  rwa [updateBlock_eq, ← rate, ← responsibility] at learn

def errorCode (g : Graph) (id : NeuronId) (n : Neuron) : Option Nat → Block Key
  | some position => outputErrorBlock id position
  | none => hiddenErrorBlock id n (influencesCode g id n)

theorem run_updateBlock_error (σ : Reading) (id : NeuronId) (n : Neuron) (x : Float) :
    Reading.run (Function.update σ (.error id) x) (updateBlock id n) =
      Function.update (σ.run (updateBlock id n)) (.error id) x := by
  refine σ.run_update_comm (fun i hi => ?_) x
  simp only [updateBlock, List.mem_append, List.mem_flatMap, List.mem_cons, List.mem_map,
    List.not_mem_nil, or_false] at hi
  rcases hi with ⟨c, -, (rfl | ⟨k, -, rfl⟩) | rfl⟩ | rfl <;> simp [Instruction.operands]

/-- The backward pass over a neuron is what its block does. -/
theorem follows_propagate (h : g.Linked) (ha : g.Agrees σ) (hn : g.neurons.get? id = some n)
    (position : Option Nat) :
    g.Follows (propagate id (σ .rate) (position.map fun i => σ (.target i))) ()
      (σ.run (errorCode g id n position ++ updateBlock id n)) := by
  rw [Reading.run_append]
  refine Follows.ask (neuron_eq_ok hn) ?_
  cases position with
  | some i =>
    have terms_eq : outputTerms (σ (.target i)) n =
        { responsibility := σ (.target i) - σ (.activation id)
          projected := σ (.target i) - σ (.activation id)
          gated := σ (.gated id) } := by
      rw [ha.own hn (k := .activation id) rfl, ha.own hn (k := .gated id) rfl]
      rfl
    rw [errorCode, run_outputErrorBlock, ← terms_eq]
    exact Follows.bind (follows_pure ha _) fun g₁ hs₁ ha₁ => by
      obtain ⟨n₁, hn₁, -, inputs_eq, -, -, keys_eq⟩ := exists_of_skeleton_eq hs₁ hn
      have updateBlock_eq : updateBlock id n₁ = updateBlock id n := by
        simp only [updateBlock, inputs_eq, keys_eq]
      rw [← updateBlock_eq]
      exact follows_terms (h.of_skeleton_eq hs₁) ha₁ hn₁ _
  | none =>
    obtain ⟨x, hx⟩ := run_hiddenErrorBlock σ g id n
    rw [errorCode, hx, run_updateBlock_error]
    refine Follows.congr (σ := Reading.run ((σ.influenced g id n).blamed id (σ.hiddenTerms g id n))
      (updateBlock id n)) ?_ fun r hr => ?_
    · refine Follows.bind (follows_hiddenTerms h ha hn) fun g₁ hs₁ ha₁ => ?_
      obtain ⟨n₁, hn₁, -, inputs_eq, -, -, keys_eq⟩ := exists_of_skeleton_eq hs₁ hn
      have updateBlock_eq : updateBlock id n₁ = updateBlock id n := by
        simp only [updateBlock, inputs_eq, keys_eq]
      rw [← updateBlock_eq]
      exact follows_terms (h.of_skeleton_eq hs₁) ha₁ hn₁ _
    · rw [Function.update_of_ne]
      rintro rfl
      simp [Key.isField] at hr

end Steps

end Graph

end GatedNetwork
