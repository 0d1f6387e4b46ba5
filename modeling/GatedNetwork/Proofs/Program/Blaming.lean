import GatedNetwork.Proofs.Program.Walk

/-! The error terms that a backward pass leaves. Each neuron finds its terms in its turn, from the
numbers as the turns before it have left them: the responsibilities are those of this pass, and the
weights that have been moved are among what it reads. -/

namespace GatedNetwork

open Listing

/-- The numbers that the error terms of a hidden neuron are found from. -/
def Neuron.Heeds (n : Neuron) (id : NeuronId) : Key → Prop
  | .derivative x => x = id
  | .responsibility x => n.trace.extended.contains x ∨ ∃ c, n.projected.contains c ∧ c.target = x
  | .weight c => n.projected.contains c ∨ n.gated.contains c ∨ c.isSelf
  | .gain c => n.projected.contains c
  | .activation x => ∃ c, n.gated.contains c ∧ c.source = x
  | .old x => n.trace.extended.contains x
  | _ => False

theorem Neuron.Heeds.isField {n : Neuron} {id : NeuronId} {k : Key} (heeds : n.Heeds id k) :
    k.isField := by
  cases k with
  | rate | target | error | gradient => exact heeds.elim
  | _ => rfl

namespace Reading

def terms (σ : Reading) (id : NeuronId) : ErrorTerms where
  responsibility := σ (.responsibility id)
  projected := σ (.projected id)
  gated := σ (.gated id)

/-- The reading between the turns of a backward pass that begins with the first reading and ends with
the second, when these neurons have had their turns. -/
def midway (σ τ : Reading) (done : NeuronId → Prop) [DecidablePred done] : Reading
  | .responsibility x => if done x then τ (.responsibility x) else σ (.responsibility x)
  | .weight c => if c.isSelf = false ∧ done c.target then τ (.weight c) else σ (.weight c)
  | k => σ k

section Heeding

variable {σ σ' τ τ' : Reading} {g : Graph} {id : NeuronId} {n : Neuron}

theorem midway_eq {done : NeuronId → Prop} [DecidablePred done] (begins : ∀ k, k.isField → σ k = σ' k)
    (ends : ∀ k, k.isField → τ k = τ' k) {k : Key} (field : k.isField) :
    σ.midway τ done k = σ'.midway τ' done k := by
  cases k with
  | responsibility x => simp only [midway, begins _ field, ends _ field]
  | weight c => simp only [midway, begins _ field, ends _ field]
  | _ => exact begins _ field

theorem terms_eq (responsibility : τ (.responsibility id) = σ (.responsibility id))
    (projected : τ (.projected id) = σ (.projected id)) (gated : τ (.gated id) = σ (.gated id)) :
    τ.terms id = σ.terms id := by
  rw [terms, terms, responsibility, projected, gated]

theorem influenceOn_eq (same : ∀ k, n.Heeds id k → τ k = σ k) {k : NeuronId}
    (traced : n.trace.extended.contains k) : τ.influenceOn g id n k = σ.influenceOn g id n k := by
  have start_eq : τ (.weight (.loop k)) * τ (.old k) = σ (.weight (.loop k)) * σ (.old k) := by
    rw [same (.weight (.loop k)) (.inr (.inr (by simp))), same (.old k) traced]
  rw [influenceOn, influenceOn, start_eq]
  refine List.foldl_ext _ _ _ fun sum c hc => ?_
  have gated := SortedSet.mem_toList_iff.mp (List.mem_filter.mp hc).1
  rw [same (.weight c) (.inr (.inl gated)), same (.activation c.source) ⟨c, gated, rfl⟩]

/-- Readings that agree on what a hidden neuron heeds give it the same error terms. -/
theorem hiddenTerms_eq (same : ∀ k, n.Heeds id k → τ k = σ k) :
    τ.hiddenTerms g id n = σ.hiddenTerms g id n := by
  have projected_eq : τ.projectedError n = σ.projectedError n := by
    refine List.foldl_ext _ _ _ fun sum c hc => ?_
    have projected := SortedSet.mem_toList_iff.mp hc
    rw [same (.responsibility c.target) (.inr ⟨c, projected, rfl⟩), same (.gain c) projected,
      same (.weight c) (.inl projected)]
  have gated_eq : (τ.influenced g id n).gatedError id n = (σ.influenced g id n).gatedError id n := by
    refine List.foldl_ext _ _ _ fun sum k hk => ?_
    have traced := SortedMap.mem_keys.mp hk
    have influence_eq (υ : Reading) :
        υ.influenced g id n (.influence id k) = υ.influenceOn g id n k := by
      simp [influenced, traced]
    have apart : ∀ j, Key.responsibility k ≠ .influence id j := by simp
    rw [Graph.influenced_of_ne apart, Graph.influenced_of_ne apart, influence_eq, influence_eq,
      same (.responsibility k) (.inl traced), influenceOn_eq same traced]
  rw [hiddenTerms, hiddenTerms, projected_eq, gated_eq, same (.derivative id) rfl]

end Heeding

end Reading

section Turns

variable {g : Graph} {r : NeuronId × Role} {n : Neuron} {id : NeuronId} (σ : Reading)

theorem terms_run_updateBlock : (σ.run (updateBlock id n)).terms id = σ.terms id := by
  obtain ⟨x, run_eq⟩ := run_updateBlock σ id n
  rw [run_eq]
  apply Reading.terms_eq <;> simp [Reading.learned, Reading.adjusted]

theorem terms_learn_hidden (hn : g.neurons.get? r.1 = some n) (hidden : r.2 = .hidden) :
    (σ.learn (g.listing r)).terms r.1 = σ.hiddenTerms g r.1 n := by
  obtain ⟨id, role⟩ := r
  obtain rfl : role = .hidden := hidden
  obtain ⟨x, run_eq⟩ := run_hiddenErrorBlock σ g id n
  rw [Graph.listing_eq hn, Reading.learn]
  simp only [listingOf, ofErrorBlock, Reading.run_append]
  rw [terms_run_updateBlock, run_eq]
  simp [Reading.terms, Reading.blamed]

theorem terms_learn_output (hn : g.neurons.get? r.1 = some n) {position : Nat}
    (output : r.2 = .output position) :
    (σ.learn (g.listing r)).terms r.1 =
      { responsibility := σ (.target position) - σ (.activation r.1)
        projected := σ (.target position) - σ (.activation r.1)
        gated := σ (.gated r.1) } := by
  obtain ⟨id, role⟩ := r
  obtain rfl : role = .output position := output
  rw [Graph.listing_eq hn, Reading.learn]
  simp only [listingOf, ofErrorBlock, Reading.run_append]
  rw [terms_run_updateBlock, run_outputErrorBlock]
  simp [Reading.terms, Reading.blamed]

end Turns

section Passing

variable {g : Graph} {σ : Reading} {r : NeuronId × Role} {rs before later : List (NeuronId × Role)}
  {id : NeuronId}

theorem foldl_learn_of_unlearnt (linked : g.Linked)
    (present : ∀ r ∈ rs, g.neurons.contains r.1) {k : Key} (unlearnt : ∀ role, k.isLearnt role = false)
    (regular : ∀ c, k ≠ .weight c) (sum : ¬ k.IsSum) (σ : Reading) :
    (rs.map g.listing).foldl Reading.learn σ k = σ k :=
  foldl_learn_of_untaught linked present (fun r _ _ => unlearnt r.2) (fun c hc => absurd hc (regular c))
    sum σ

theorem foldl_learn_terms (linked : g.Linked)
    (present : ∀ r ∈ rs, g.neurons.contains r.1) (aside : id ∉ rs.map (·.1)) (σ : Reading) :
    ((rs.map g.listing).foldl Reading.learn σ).terms id = σ.terms id := by
  have other : ∀ r ∈ rs, id ≠ r.1 := fun r hr own => aside (own ▸ List.mem_map_of_mem hr)
  have kept {k : Key} (own : ∀ x, k.IsOf x → x = id) (regular : ∀ c, k ≠ .weight c) (sum : ¬ k.IsSum) :
      (rs.map g.listing).foldl Reading.learn σ k = σ k :=
    foldl_learn_of_untaught linked present (fun r hr of => absurd (own _ of).symm (other r hr))
      (fun c hc => absurd hc (regular c)) sum σ
  apply Reading.terms_eq
  all_goals exact kept (fun _ of => of.symm) (by simp) fun sum => sum

theorem foldl_learn_weight (linked : g.Linked)
    (present : ∀ r ∈ rs, g.neurons.contains r.1) {c : ConnectionId}
    (aside : c.isSelf = false → c.target ∉ rs.map (·.1)) (σ : Reading) :
    (rs.map g.listing).foldl Reading.learn σ (.weight c) = σ (.weight c) := by
  refine foldl_learn_of_untaught (k := .weight c) linked present (fun _ _ _ => rfl) ?_ (fun sum => sum) σ
  rintro d hd regular
  cases hd
  exact aside regular

theorem foldl_learn_turn (linked : g.Linked)
    (present : ∀ q ∈ before ++ r :: later, g.neurons.contains q.1) (once : r.1 ∉ later.map (·.1)) :
    (((before ++ r :: later).map g.listing).foldl Reading.learn σ).terms r.1 =
      (((before.map g.listing).foldl Reading.learn σ).learn (g.listing r)).terms r.1 := by
  rw [List.map_append, List.foldl_append, List.map_cons, List.foldl_cons]
  exact foldl_learn_terms linked (fun q hq => present q (by simp [hq])) once _

/-- Between two turns of a pass, what the next neuron heeds is as it was at the beginning, or as it
is at the end: the weights that enter the neurons that are done have been moved, and these neurons
have their responsibilities. -/
theorem foldl_learn_midway (linked : g.Linked)
    (present : ∀ q ∈ before ++ later, g.neurons.contains q.1) (done : NeuronId → Prop)
    [DecidablePred done] (sooner : ∀ q ∈ before, done q.1) (others : ∀ q ∈ later, ¬ done q.1)
    {n : Neuron} {k : Key} (heeds : n.Heeds id k) :
    (before.map g.listing).foldl Reading.learn σ k =
      σ.midway (((before ++ later).map g.listing).foldl Reading.learn σ) done k := by
  have first : ∀ q ∈ before, g.neurons.contains q.1 := fun q hq => present q (by simp [hq])
  have rest : ∀ q ∈ later, g.neurons.contains q.1 := fun q hq => present q (by simp [hq])
  have undone {x : NeuronId} (hx : ¬ done x) : x ∉ before.map (·.1) := fun turn => by
    obtain ⟨q, hq, rfl⟩ := List.mem_map.mp turn
    exact hx (sooner q hq)
  have past {x : NeuronId} (hx : done x) : x ∉ later.map (·.1) := fun turn => by
    obtain ⟨q, hq, rfl⟩ := List.mem_map.mp turn
    exact others q hq hx
  rw [List.map_append, List.foldl_append]
  cases k with
  | responsibility x =>
    by_cases hx : done x
    · simp only [Reading.midway, hx, ↓reduceIte]
      exact (congrArg ErrorTerms.responsibility (foldl_learn_terms linked rest (past hx) _)).symm
    · simp only [Reading.midway, hx, ↓reduceIte]
      exact congrArg ErrorTerms.responsibility (foldl_learn_terms linked first (undone hx) _)
  | weight c =>
    by_cases moved : c.isSelf = false ∧ done c.target
    · simp only [Reading.midway, moved, and_self, ↓reduceIte]
      exact (foldl_learn_weight linked rest (fun _ => past moved.2) _).symm
    · simp only [Reading.midway, moved, ↓reduceIte]
      exact foldl_learn_weight linked first (fun regular => undone fun hx => moved ⟨regular, hx⟩) _
  | derivative | gain | activation | old =>
    refine foldl_learn_of_unlearnt linked first (fun _ => rfl) (by simp) ?_ σ
    exact fun sum => sum
  | _ => exact heeds.elim

end Passing

end GatedNetwork
