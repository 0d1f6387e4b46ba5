import Mathlib.Data.List.Basic
import GatedNetwork.Layer.Running
import GatedNetwork.Program.Compile
import GatedNetwork.Proofs.Program.Backward

/-! The passes over the layers of a network, on the graph and by the listings of its neurons. -/

namespace GatedNetwork

open Listing

def listingOf (g : Graph) (id : NeuronId) (n : Neuron) : Role → Listing
  | .input =>
    { id, role := .input, activation := inputBlock id n, trace := [], propagation := []
      requests := ownKeys id n ++ keysOf (inputBlock id n) }
  | .hidden =>
    ofErrorBlock id .hidden n (influencesCode g id n) (hiddenErrorBlock id n (influencesCode g id n))
  | .output position =>
    ofErrorBlock id (.output position) n (influencesCode g id n) (outputErrorBlock id position)

theorem ofNeuron_eq {g : Graph} (h : g.Linked) {id : NeuronId} {n : Neuron}
    (hn : g.neurons.get? id = some n) (role : Role) :
    Listing.ofNeuron g id role = .ok (listingOf g id n role) := by
  rw [Listing.ofNeuron, Graph.neuron_eq_ok hn]
  cases role with
  | input => rfl
  | hidden | output =>
    simp only [bind, Except.bind, influenceBlock_eq h hn]
    rfl

def Graph.listing (g : Graph) (r : NeuronId × Role) : Listing :=
  listingOf g r.1 ((g.neurons.get? r.1).getD default) r.2

theorem Graph.listing_eq {g : Graph} {r : NeuronId × Role} {n : Neuron}
    (hn : g.neurons.get? r.1 = some n) : g.listing r = listingOf g r.1 n r.2 := by
  rw [listing, hn]
  rfl

theorem code_of_skeleton_eq {g g' : Graph} (hs : g.skeleton = g'.skeleton) {r : NeuronId × Role}
    (hr : g.neurons.contains r.1) :
    (g'.listing r).activation = (g.listing r).activation ∧
      (g'.listing r).trace = (g.listing r).trace ∧
      (g'.listing r).propagation = (g.listing r).propagation := by
  obtain ⟨n, hn⟩ := Graph.get?_of_contains hr
  obtain ⟨n', hn', squash_eq, inputs_eq, projected_eq, gated_eq, keys_eq⟩ :=
    Graph.exists_of_skeleton_eq hs hn
  have influence_eq : influenceCode g' r.1 n' = influenceCode g r.1 n := by
    funext k
    rw [influenceCode, influenceCode, gated_eq, Graph.gater?_of_skeleton_eq hs]
  have influences_eq : influencesCode g' r.1 n' = influencesCode g r.1 n := by
    rw [influencesCode, influencesCode, influence_eq, keys_eq]
  rw [Graph.listing_eq hn, Graph.listing_eq hn']
  obtain ⟨id, role⟩ := r
  cases role <;>
    simp only [listingOf, ofErrorBlock, inputBlock, gainBlock, activationBlock, traceBlock,
      hiddenErrorBlock, updateBlock, influences_eq, squash_eq, inputs_eq, projected_eq, gated_eq,
      keys_eq, and_self]

def Role.position? : Role → Option Nat
  | .output position => some position
  | _ => none

namespace Reading

def fire (σ : Reading) (l : Listing) : Reading := (σ.run l.activation).run l.trace

def learn (σ : Reading) (l : Listing) : Reading := σ.run l.propagation

theorem store_run_comm {σ : Reading} {writes : List (Key × Float)} {b : Block Key}
    (h : ∀ w ∈ writes, ∀ i ∈ b, w.1 ∉ i.operands) :
    (σ.store writes).run b = (σ.run b).store writes := by
  induction writes generalizing σ with
  | nil => rfl
  | cons w writes ih =>
    rw [store_cons, ih fun w' hw' => h w' (by simp [hw']), run_update_comm _ (h w (by simp))]
    rfl

theorem foldl_frame {α : Type} {f : Reading → α → Reading} {xs : List α} {k : Key} {σ : Reading}
    (h : ∀ x ∈ xs, ∀ τ, f τ x k = τ k) : xs.foldl f σ k = σ k := by
  induction xs generalizing σ with
  | nil => rfl
  | cons x xs ih => exact (ih fun y hy => h y (by simp [hy])).trans (h x (by simp) σ)

end Reading

def Key.IsShared : Key → Prop
  | .weight _ | .gain _ => True
  | _ => False

/-- The key names a number that a forward pass computes. -/
def Key.isFired : Key → Bool
  | .state _ | .old _ | .activation _ | .derivative _ | .gain _ | .eligibility _ _ | .extended _ _ _
  | .influence _ _ => true
  | _ => false

/-- The key names a number of its own that a neuron in this role changes in a backward pass. -/
def Key.isLearnt (role : Role) : Key → Bool
  | .responsibility _ | .projected _ | .bias _ => true
  | .gated _ | .influence _ _ => role = .hidden
  | _ => false

theorem Key.isLearnt_of_isShared {role : Role} {k : Key} (h : k.IsShared) :
    k.isLearnt role = false := by
  cases k with
  | weight | gain => rfl
  | _ => exact h.elim

section Writes

variable {g : Graph} {r : NeuronId × Role} {n : Neuron} {k : Key}

theorem forward_writes (h : k ∈ blockWrites (listingOf g r.1 n r.2).activation ∨
    k ∈ blockWrites (listingOf g r.1 n r.2).trace) :
    k.isFired ∧ (k.IsOf r.1 ∧ ¬ k.IsShared ∨ ∃ c, n.gated.contains c ∧ k = .gain c) := by
  have gain (h : ∃ c, n.gated.contains c ∧ k = .gain c) :
      k.isFired ∧ (k.IsOf r.1 ∧ ¬ k.IsShared ∨ ∃ c, n.gated.contains c ∧ k = .gain c) := by
    obtain ⟨c, hc, rfl⟩ := h
    exact ⟨rfl, .inr ⟨c, hc, rfl⟩⟩
  obtain ⟨id, role⟩ := r
  cases role with
  | input =>
    rcases h with h | h
    · simp only [listingOf, inputBlock, mem_blockWrites_append, mem_blockWrites_cons,
        mem_blockWrites_map, mem_blockWrites_gainBlock, Instruction.writes, List.mem_singleton] at h
      rcases h with (rfl | ⟨c, -, rfl⟩) | h
      · exact ⟨rfl, .inl ⟨rfl, fun hs => hs⟩⟩
      · exact ⟨rfl, .inl ⟨rfl, fun hs => hs⟩⟩
      · exact gain h
    · simp [listingOf, blockWrites] at h
  | hidden | output =>
    rcases h with h | h
    · simp only [listingOf, ofErrorBlock, activationBlock, mem_blockWrites_append,
        mem_blockWrites_cons, mem_blockWrites_map, Instruction.writes, List.mem_cons,
        List.not_mem_nil, or_false, mem_blockWrites_nil] at h
      rcases h with ((rfl | rfl) | ⟨c, -, rfl⟩) | rfl | rfl <;> exact ⟨rfl, .inl ⟨rfl, fun hs => hs⟩⟩
    · simp only [listingOf, ofErrorBlock, traceBlock_eq, mem_blockWrites_append,
        mem_blockWrites_influencesCode, mem_blockWrites_flatMap, mem_blockWrites_rowCode,
        mem_blockWrites_gainBlock] at h
      rcases h with (⟨j, -, rfl⟩ | ⟨c, -, rfl | ⟨j, -, rfl⟩⟩) | h
      · exact ⟨rfl, .inl ⟨rfl, fun hs => hs⟩⟩
      · exact ⟨rfl, .inl ⟨rfl, fun hs => hs⟩⟩
      · exact ⟨rfl, .inl ⟨rfl, fun hs => hs⟩⟩
      · exact gain h

/-- The key names a running sum of the backward pass. -/
def Key.IsSum : Key → Prop
  | .error _ | .gradient _ => True
  | _ => False

theorem backward_writes (h : k ∈ blockWrites (listingOf g r.1 n r.2).propagation) :
    k.IsOf r.1 ∧ k.isLearnt r.2 ∨ (∃ c, n.inputs.contains c ∧ k = .weight c) ∨ k.IsSum := by
  obtain ⟨id, role⟩ := r
  have update (h : k ∈ blockWrites (updateBlock id n)) :
      k.IsOf id ∧ k.isLearnt role ∨ (∃ c, n.inputs.contains c ∧ k = .weight c) ∨ k.IsSum := by
    simp only [updateBlock_eq, mem_blockWrites_append, mem_blockWrites_flatMap,
      mem_blockWrites_gradientCode, mem_blockWrites_cons, Instruction.writes, List.mem_cons,
      List.not_mem_nil, or_false, mem_blockWrites_nil] at h
    rcases h with ⟨c, hc, rfl | rfl⟩ | rfl
    · exact .inr (.inr trivial)
    · exact .inr (.inl ⟨c, SortedSet.mem_toList_iff.mp hc, rfl⟩)
    · exact .inl ⟨rfl, rfl⟩
  cases role with
  | input => simp [listingOf, blockWrites] at h
  | hidden =>
    simp only [listingOf, ofErrorBlock, mem_blockWrites_append] at h
    rcases h with h | h
    · simp only [hiddenErrorBlock, mem_blockWrites_append, mem_blockWrites_cons,
        mem_blockWrites_map, mem_blockWrites_influencesCode, Instruction.writes, List.mem_cons,
        List.not_mem_nil, or_false, mem_blockWrites_nil] at h
      rcases h with (((((rfl | ⟨c, -, rfl⟩) | rfl) | ⟨j, -, rfl⟩) | rfl) | ⟨j, -, rfl⟩) | rfl | rfl
      · exact .inr (.inr trivial)
      · exact .inr (.inr trivial)
      · exact .inl ⟨rfl, rfl⟩
      · exact .inl ⟨rfl, rfl⟩
      · exact .inr (.inr trivial)
      · exact .inr (.inr trivial)
      · exact .inl ⟨rfl, rfl⟩
      · exact .inl ⟨rfl, rfl⟩
    · exact update h
  | output =>
    simp only [listingOf, ofErrorBlock, mem_blockWrites_append] at h
    rcases h with h | h
    · simp only [outputErrorBlock, mem_blockWrites_cons, Instruction.writes, List.mem_cons,
        List.not_mem_nil, or_false, mem_blockWrites_nil] at h
      rcases h with rfl | rfl <;> exact .inl ⟨rfl, rfl⟩
    · exact update h

theorem fire_of_unwritten (hn : g.neurons.get? r.1 = some n) {σ : Reading}
    (hof : k.IsOf r.1 → k.IsShared) (hgain : ∀ c, n.gated.contains c → k ≠ .gain c) :
    σ.fire (g.listing r) k = σ k := by
  rw [Graph.listing_eq hn, Reading.fire]
  have unwritten : ¬ (k ∈ blockWrites (listingOf g r.1 n r.2).activation ∨
      k ∈ blockWrites (listingOf g r.1 n r.2).trace) := fun h => by
    rcases (forward_writes h).2 with ⟨h, hs⟩ | ⟨c, hc, rfl⟩
    · exact hs (hof h)
    · exact hgain c hc rfl
  rw [Reading.run_of_notMem _ fun h => unwritten (.inr h),
    Reading.run_of_notMem _ fun h => unwritten (.inl h)]

/-- What a forward pass does not compute is as it was. -/
theorem fire_of_not_isFired (hn : g.neurons.get? r.1 = some n) (hk : k.isFired = false)
    (σ : Reading) : σ.fire (g.listing r) k = σ k := by
  rw [Graph.listing_eq hn, Reading.fire]
  have unwritten : ¬ (k ∈ blockWrites (listingOf g r.1 n r.2).activation ∨
      k ∈ blockWrites (listingOf g r.1 n r.2).trace) := fun h => by
    simp [(forward_writes h).1] at hk
  rw [Reading.run_of_notMem _ fun h => unwritten (.inr h),
    Reading.run_of_notMem _ fun h => unwritten (.inl h)]

theorem foldl_fire_of_not_isFired {rs : List (NeuronId × Role)}
    (present : ∀ r ∈ rs, g.neurons.contains r.1) (hk : k.isFired = false) (σ : Reading) :
    (rs.map g.listing).foldl Reading.fire σ k = σ k := by
  apply Reading.foldl_frame
  intro l hl τ
  obtain ⟨r, hr, rfl⟩ := List.mem_map.mp hl
  obtain ⟨n, hn⟩ := Graph.get?_of_contains (present r hr)
  exact fire_of_not_isFired hn hk τ

theorem learn_of_unwritten (hn : g.neurons.get? r.1 = some n) {σ : Reading}
    (hof : k.IsOf r.1 → k.isLearnt r.2 = false) (hweight : ∀ c, n.inputs.contains c → k ≠ .weight c)
    (hsum : ¬ k.IsSum) : σ.learn (g.listing r) k = σ k := by
  rw [Graph.listing_eq hn, Reading.learn]
  refine Reading.run_of_notMem _ fun h => ?_
  rcases backward_writes h with ⟨h, learnt⟩ | ⟨c, hc, rfl⟩ | hs
  · simp [hof h] at learnt
  · exact hweight c hc rfl
  · exact hsum hs

/-- A backward pass changes the numbers of the neurons that it visits, each in its role, and the
weights of the connections between two neurons that enter one of those. -/
theorem foldl_learn_of_untaught (linked : g.Linked) {rs : List (NeuronId × Role)}
    (present : ∀ r ∈ rs, g.neurons.contains r.1)
    (own : ∀ r ∈ rs, k.IsOf r.1 → k.isLearnt r.2 = false)
    (weight : ∀ c, k = .weight c → c.isSelf = false → c.target ∉ rs.map (·.1))
    (hsum : ¬ k.IsSum) (σ : Reading) : (rs.map g.listing).foldl Reading.learn σ k = σ k := by
  apply Reading.foldl_frame
  intro l hl τ
  obtain ⟨r, hr, rfl⟩ := List.mem_map.mp hl
  obtain ⟨n, hn⟩ := Graph.get?_of_contains (present r hr)
  apply learn_of_unwritten hn (own r hr) _ hsum
  rintro c hc rfl
  obtain ⟨hself, target_eq, -⟩ := linked.input hn hc
  exact weight c rfl hself (target_eq ▸ List.mem_map_of_mem hr)

end Writes

namespace Graph

section Layers

variable {g : Graph} {σ : Reading}

theorem contains_of_skeleton {g' : Graph} (hs : g.skeleton = g'.skeleton) {id : NeuronId}
    (h : g.neurons.contains id) : g'.neurons.contains id :=
  (contains_neuron_of_skeleton_eq hs id).symm.trans h

theorem foldl_fire_of_skeleton_eq {g' : Graph} (hs : g.skeleton = g'.skeleton)
    {rs : List (NeuronId × Role)} (hrs : ∀ r ∈ rs, g.neurons.contains r.1) (σ : Reading) :
    (rs.map g'.listing).foldl Reading.fire σ = (rs.map g.listing).foldl Reading.fire σ := by
  rw [List.foldl_map, List.foldl_map]
  refine List.foldl_ext _ _ σ fun τ r hr => ?_
  obtain ⟨activation_eq, trace_eq, -⟩ := code_of_skeleton_eq hs (hrs r hr)
  rw [Reading.fire, Reading.fire, activation_eq, trace_eq]

theorem foldl_learn_of_skeleton_eq {g' : Graph} (hs : g.skeleton = g'.skeleton)
    {rs : List (NeuronId × Role)} (hrs : ∀ r ∈ rs, g.neurons.contains r.1) (σ : Reading) :
    (rs.map g'.listing).foldl Reading.learn σ = (rs.map g.listing).foldl Reading.learn σ := by
  rw [List.foldl_map, List.foldl_map]
  refine List.foldl_ext _ _ σ fun τ r hr => ?_
  rw [Reading.learn, Reading.learn, (code_of_skeleton_eq hs (hrs r hr)).2.2]

/-- Setting the input neurons one after the other is storing all values first and then running
the blocks. -/
theorem follows_activateInputs (h : g.Linked) (ha : g.Agrees σ) (ps : List (NeuronId × Float))
    (nodup : (ps.map (·.1)).Nodup) (hps : ∀ p ∈ ps, g.neurons.contains p.1) :
    g.Follows (ps.mapM fun p => activateInput p.1 p.2) (ps.map (·.2))
      (((ps.map fun p => (p.1, Role.input)).map g.listing).foldl Reading.fire
        (σ.store (ps.map fun p => (.activation p.1, p.2)))) := by
  induction ps generalizing g σ with
  | nil => exact follows_pure ha []
  | cons p ps ih =>
    obtain ⟨fresh, nodup⟩ := List.nodup_cons.mp nodup
    obtain ⟨n, hn⟩ := get?_of_contains (hps p (by simp))
    have inputs_present (g' : Graph) (hs : g.skeleton = g'.skeleton) (q) (hq : q ∈ ps) :
        g'.neurons.contains q.1 := contains_of_skeleton hs (hps q (by simp [hq]))
    have fire_eq : Reading.fire (σ.store ((.activation p.1, p.2) ::
        ps.map fun p => (.activation p.1, p.2))) (g.listing (p.1, .input)) =
        Reading.store (Reading.run (Function.update σ (.activation p.1) p.2) (inputBlock p.1 n))
          (ps.map fun p => (.activation p.1, p.2)) := by
      rw [listing_eq hn]
      refine Reading.store_run_comm (σ := Function.update σ (.activation p.1) p.2)
        (b := inputBlock p.1 n) fun w hw i hi => ?_
      obtain ⟨q, hq, rfl⟩ := List.mem_map.mp hw
      have hne : q.1 ≠ p.1 := fun e => fresh (List.mem_map.mpr ⟨q, hq, e⟩)
      simp only [inputBlock, gainBlock, List.mem_append, List.mem_cons, List.mem_map] at hi
      rcases hi with (rfl | ⟨c, -, rfl⟩) | ⟨c, -, rfl⟩ <;> simp [Instruction.operands, hne]
    rw [List.mapM_cons]
    simp only [List.map_cons, List.foldl_cons]
    rw [fire_eq]
    refine Follows.bind (follows_activateInput h ha hn p.2) fun g₁ hs₁ ha₁ => ?_
    refine Follows.bind (ih (h.of_skeleton_eq hs₁) ha₁ nodup (inputs_present g₁ hs₁))
      fun g₂ _ ha₂ => ?_
    rw [← foldl_fire_of_skeleton_eq hs₁ fun r hr => ?_]
    · exact follows_pure ha₂ _
    · obtain ⟨q, hq, rfl⟩ := List.mem_map.mp hr
      exact inputs_present g rfl q hq

theorem fire_worker_eq {r : NeuronId × Role} {n : Neuron} (hn : g.neurons.get? r.1 = some n)
    (hr : r.2 ≠ .input) (σ : Reading) : σ.fire (g.listing r) =
      (σ.run (activationBlock r.1 n)).run (traceBlock r.1 n (influencesCode g r.1 n)) := by
  rw [listing_eq hn, Reading.fire]
  obtain ⟨id, role⟩ := r
  cases role with
  | input => exact absurd rfl hr
  | hidden | output => rfl

theorem run_traceBlock_own {id : NeuronId} {n : Neuron} {k : Key}
    (own : k = .activation id ∨ k = .state id) (σ : Reading) :
    σ.run (traceBlock id n (influencesCode g id n)) k = σ k := by
  refine Reading.run_of_notMem σ ?_
  rcases own with rfl | rfl <;>
    simp [traceBlock_eq, mem_blockWrites_append, mem_blockWrites_influencesCode,
      mem_blockWrites_flatMap, mem_blockWrites_rowCode, mem_blockWrites_gainBlock]

theorem follows_activateEach (h : g.Linked) (ha : g.Agrees σ) (rs : List (NeuronId × Role))
    (nodup : (rs.map (·.1)).Nodup) (hrs : ∀ r ∈ rs, g.neurons.contains r.1)
    (hrole : ∀ r ∈ rs, r.2 ≠ .input) :
    g.Follows ((rs.map (·.1)).mapM activate)
      ((rs.map (·.1)).map fun id => (rs.map g.listing).foldl Reading.fire σ (.activation id))
      ((rs.map g.listing).foldl Reading.fire σ) := by
  induction rs generalizing g σ with
  | nil => exact follows_pure ha []
  | cons r rs ih =>
    obtain ⟨fresh, nodup⟩ := List.nodup_cons.mp nodup
    obtain ⟨n, hn⟩ := get?_of_contains (hrs r (by simp))
    have fire_eq := fire_worker_eq hn (hrole r (by simp)) σ
    have own : σ.fire (g.listing r) (.activation r.1) =
        σ.run (activationBlock r.1 n) (.activation r.1) := by
      rw [fire_eq, run_traceBlock_own (.inl rfl)]
    have answer : σ.run (activationBlock r.1 n) (.activation r.1) =
        (rs.map g.listing).foldl Reading.fire (σ.fire (g.listing r)) (.activation r.1) := by
      rw [← own]
      refine (Reading.foldl_frame fun l hl τ => ?_).symm
      obtain ⟨q, hq, rfl⟩ := List.mem_map.mp hl
      obtain ⟨m, hm⟩ := get?_of_contains (hrs q (by simp [hq]))
      refine fire_of_unwritten hm (fun hof => (fresh ?_).elim) (by simp)
      exact List.mem_map.mpr ⟨q, hq, hof.symm⟩
    have later (g' : Graph) (hs : g.skeleton = g'.skeleton) (q) (hq : q ∈ rs) :
        g'.neurons.contains q.1 := contains_of_skeleton hs (hrs q (by simp [hq]))
    simp only [List.map_cons, List.mapM_cons, List.foldl_cons]
    refine Follows.bind (fire_eq ▸ follows_activate h ha hn) fun g₁ hs₁ ha₁ => ?_
    refine Follows.bind (ih (h.of_skeleton_eq hs₁) ha₁ nodup (later g₁ hs₁)
      fun q hq => hrole q (by simp [hq])) fun g₂ _ ha₂ => ?_
    rw [answer]
    rw [foldl_fire_of_skeleton_eq hs₁ (later g rfl)] at ha₂ ⊢
    exact follows_pure ha₂ _

theorem follows_propagateEach (h : g.Linked) (ha : g.Agrees σ) (rs : List (NeuronId × Role))
    (hrs : ∀ r ∈ rs, g.neurons.contains r.1) (hrole : ∀ r ∈ rs, r.2 ≠ .input) :
    g.Follows (rs.forM fun r =>
        propagate r.1 (σ .rate) (r.2.position?.map fun i => σ (.target i))) ()
      ((rs.map g.listing).foldl Reading.learn σ) := by
  induction rs generalizing g σ with
  | nil => exact follows_pure ha ()
  | cons r rs ih =>
    obtain ⟨n, hn⟩ := get?_of_contains (hrs r (by simp))
    have learn_eq : σ.learn (g.listing r) =
        σ.run (errorCode g r.1 n r.2.position? ++ updateBlock r.1 n) := by
      rw [listing_eq hn, Reading.learn]
      obtain ⟨id, role⟩ := r
      cases role with
      | input => exact absurd rfl (hrole (id, .input) (by simp))
      | hidden | output => rfl
    have later (g' : Graph) (hs : g.skeleton = g'.skeleton) (q) (hq : q ∈ rs) :
        g'.neurons.contains q.1 := contains_of_skeleton hs (hrs q (by simp [hq]))
    have rate_eq : σ.learn (g.listing r) .rate = σ .rate :=
      learn_of_unwritten hn (fun hof => hof.elim) (by simp) fun hs => hs
    have target_eq (i : Nat) : σ.learn (g.listing r) (.target i) = σ (.target i) :=
      learn_of_unwritten hn (fun hof => hof.elim) (by simp) fun hs => hs
    simp only [List.map_cons, List.foldl_cons]
    refine Follows.bind (learn_eq ▸ follows_propagate h ha hn r.2.position?) fun g₁ hs₁ ha₁ => ?_
    have rest := ih (h.of_skeleton_eq hs₁) ha₁ (later g₁ hs₁) fun q hq => hrole q (by simp [hq])
    rw [foldl_learn_of_skeleton_eq hs₁ (later g rfl)] at rest
    simpa only [rate_eq, target_eq] using rest

end Layers

end Graph

end GatedNetwork
