import GatedNetwork.Proofs.Program.Slots
import GatedNetwork.Proofs.Program.Walk

/-! What the listings of a graph ask for. Every key they name stands for a number of the graph
where the indexes agree, and their blocks name no other key. -/

namespace GatedNetwork

open Listing

/-- The key stands for a number of the graph, or for one that only a run needs. -/
def Key.Has (g : Graph) (k : Key) : Prop := ∃ x, g.value k = .ok x

section Requests

variable {g : Graph} {id : NeuronId} {n : Neuron}

theorem has_of_neuron {id' : NeuronId} (hn : g.neurons.get? id' = some n) {k : Key}
    (hk : k.IsOf id') : k.Has g := by
  have hneuron := Graph.neuron_eq_ok hn
  have hloop : g.connection (.loop id') = .ok n.selfConnection :=
    Graph.connection_eq_ok (by simp [Graph.connection?_loop, hn])
  cases k with
  | rate | target | error | gradient => exact hk.elim
  | weight | gain =>
    obtain rfl := hk
    simp [Key.Has, Graph.value, hloop, Except.map]
  | _ =>
    obtain rfl := hk
    simp [Key.Has, Graph.value, hneuron, Except.map]

theorem has_of_connection {c : ConnectionId} {d : Connection} (hd : g.connection? c = some d) :
    (Key.weight c).Has g ∧ (Key.gain c).Has g := by
  simp [Key.Has, Graph.value, Graph.connection_eq_ok hd, Except.map]

/-- Every operand of a block has a number in the graph. -/
def Grounded (g : Graph) (b : Block Key) : Prop := ∀ i ∈ b, ∀ k ∈ i.operands, k.Has g

theorem Grounded.append {a b : Block Key} (ha : Grounded g a) (hb : Grounded g b) :
    Grounded g (a ++ b) := fun i hi =>
  (List.mem_append.mp hi).elim (ha i) (hb i)

theorem Grounded.keysOf {b : Block Key} (hb : Grounded g b) {k : Key} (hk : k ∈ keysOf b) :
    k.Has g := by
  obtain ⟨i, hi, hk⟩ := List.mem_flatMap.mp hk
  exact hb i hi k hk

theorem grounded_cons {i : Instruction Key} {b : Block Key} :
    Grounded g (i :: b) ↔ (∀ k ∈ i.operands, k.Has g) ∧ Grounded g b := by
  simp [Grounded]

theorem grounded_map {α : Type} {xs : List α} {f : α → Instruction Key} :
    Grounded g (xs.map f) ↔ ∀ x ∈ xs, ∀ k ∈ (f x).operands, k.Has g := by
  simp [Grounded]

theorem grounded_flatMap {α : Type} {xs : List α} {f : α → Block Key} :
    Grounded g (xs.flatMap f) ↔ ∀ x ∈ xs, Grounded g (f x) := by
  simp only [Grounded, List.mem_flatMap]
  exact ⟨fun h x hx i hi => h i ⟨x, hx, hi⟩, fun h i ⟨x, hx, hi⟩ => h x hx i hi⟩

theorem grounded_nil : Grounded g [] := by simp [Grounded]

section Blocks

variable (h : g.Linked) (hn : g.neurons.get? id = some n)
include h hn

theorem grounded_gainBlock : Grounded g (gainBlock id n) := by
  refine grounded_map.mpr fun c hc => ?_
  obtain ⟨⟨d, hd⟩, -⟩ := h.gate hn (SortedSet.mem_toList_iff.mp hc)
  simp [Instruction.operands, has_of_connection hd, has_of_neuron hn (k := .activation id) rfl]

theorem grounded_inputBlock : Grounded g (inputBlock id n) := by
  refine Grounded.append (grounded_cons.mpr ⟨?_, grounded_map.mpr fun c _ => ?_⟩)
    (grounded_gainBlock h hn)
  · simp [Instruction.operands, has_of_neuron hn (k := .derivative id) rfl]
  · simp [Instruction.operands, has_of_neuron hn (k := .eligibility id c) rfl]

theorem grounded_activationBlock : Grounded g (activationBlock id n) := by
  have own {k : Key} (hk : k.IsOf id) : k.Has g := has_of_neuron hn hk
  refine Grounded.append (Grounded.append ?_ (grounded_map.mpr fun c hc => ?_)) ?_
  · simp [grounded_cons, grounded_nil, Instruction.operands, own (k := .old id) rfl,
      own (k := .state id) rfl, own (k := .gain (.loop id)) rfl, own (k := .weight (.loop id)) rfl,
      own (k := .bias id) rfl]
  · obtain ⟨-, -, ⟨d, hd⟩, s, hs⟩ := h.input hn (SortedSet.mem_toList_iff.mp hc)
    simp [Instruction.operands, has_of_connection hd, own (k := .state id) rfl,
      has_of_neuron hs (k := .activation c.source) rfl]
  · simp [grounded_cons, grounded_nil, Instruction.operands, own (k := .state id) rfl,
      own (k := .activation id) rfl, own (k := .derivative id) rfl]

theorem grounded_influencesCode : Grounded g (influencesCode g id n) := by
  refine grounded_flatMap.mpr fun k hk => ?_
  obtain ⟨m, hm⟩ := h.extended hn (SortedMap.mem_keys.mp hk)
  have influence : (Key.influence id k).Has g := has_of_neuron hn rfl
  refine grounded_cons.mpr ⟨?_, grounded_map.mpr fun c hc => ?_⟩
  · split
    · simp [Instruction.operands, influence, has_of_neuron hm (k := .weight (.loop k)) rfl,
        has_of_neuron hm (k := .old k) rfl]
    · simp [Instruction.operands, influence]
  · obtain ⟨⟨d, hd⟩, ⟨s, hs⟩, -⟩ :=
      h.gate hn (SortedSet.mem_toList_iff.mp (List.mem_filter.mp hc).1)
    simp [Instruction.operands, influence, has_of_connection hd,
      has_of_neuron hs (k := .activation c.source) rfl]

theorem grounded_traceBlock : Grounded g (traceBlock id n (influencesCode g id n)) := by
  have own {k : Key} (hk : k.IsOf id) : k.Has g := has_of_neuron hn hk
  rw [traceBlock_eq]
  refine Grounded.append (Grounded.append (grounded_influencesCode h hn)
    (grounded_flatMap.mpr fun c hc => ?_)) (grounded_gainBlock h hn)
  obtain ⟨-, -, ⟨d, hd⟩, s, hs⟩ := h.input hn (SortedSet.mem_toList_iff.mp hc)
  refine grounded_cons.mpr ⟨?_, grounded_map.mpr fun k hk => ?_⟩
  · simp [Instruction.operands, own (k := .eligibility id c) rfl, own (k := .gain (.loop id)) rfl,
      own (k := .weight (.loop id)) rfl, has_of_connection hd,
      has_of_neuron hs (k := .activation c.source) rfl]
  · obtain ⟨m, hm⟩ := h.extended hn (SortedMap.mem_keys.mp hk)
    simp [Instruction.operands, own (k := .extended id k c) rfl, own (k := .derivative id) rfl,
      own (k := .eligibility id c) rfl, own (k := .influence id k) rfl,
      has_of_neuron hm (k := .gain (.loop k)) rfl, has_of_neuron hm (k := .weight (.loop k)) rfl]

theorem grounded_errorCode (position : Option Nat) :
    Grounded g (Graph.errorCode g id n position) := by
  have own {k : Key} (hk : k.IsOf id) : k.Has g := has_of_neuron hn hk
  have error : (Key.error id).Has g := ⟨0, rfl⟩
  cases position with
  | some i =>
    have target : (Key.target i).Has g := ⟨0, rfl⟩
    simp [Graph.errorCode, outputErrorBlock, grounded_cons, grounded_nil, Instruction.operands,
      target, own (k := .responsibility id) rfl, own (k := .activation id) rfl,
      own (k := .projected id) rfl]
  | none =>
    refine Grounded.append (Grounded.append (Grounded.append (Grounded.append (Grounded.append ?_ ?_)
      (grounded_influencesCode h hn)) ?_) ?_) ?_
    · refine grounded_cons.mpr ⟨by simp [Instruction.operands, error], grounded_map.mpr fun c hc => ?_⟩
      obtain ⟨-, -, ⟨d, hd⟩, m, hm⟩ := h.projection hn (SortedSet.mem_toList_iff.mp hc)
      simp [Instruction.operands, error, has_of_connection hd,
        has_of_neuron hm (k := .responsibility c.target) rfl]
    · simp [grounded_cons, grounded_nil, Instruction.operands, error, own (k := .projected id) rfl,
        own (k := .derivative id) rfl]
    · simp [grounded_cons, grounded_nil, Instruction.operands, error]
    · refine grounded_map.mpr fun k hk => ?_
      obtain ⟨m, hm⟩ := h.extended hn (SortedMap.mem_keys.mp hk)
      simp [Instruction.operands, error, own (k := .influence id k) rfl,
        has_of_neuron hm (k := .responsibility k) rfl]
    · simp [grounded_cons, grounded_nil, Instruction.operands, error, own (k := .gated id) rfl,
        own (k := .derivative id) rfl, own (k := .responsibility id) rfl,
        own (k := .projected id) rfl]

theorem grounded_updateBlock : Grounded g (updateBlock id n) := by
  have own {k : Key} (hk : k.IsOf id) : k.Has g := has_of_neuron hn hk
  have gradient : (Key.gradient id).Has g := ⟨0, rfl⟩
  have rate : Key.rate.Has g := ⟨0, rfl⟩
  rw [updateBlock_eq]
  refine Grounded.append (grounded_flatMap.mpr fun c hc => ?_) ?_
  · obtain ⟨-, -, ⟨d, hd⟩, -⟩ := h.input hn (SortedSet.mem_toList_iff.mp hc)
    refine Grounded.append (grounded_cons.mpr ⟨?_, grounded_map.mpr fun k hk => ?_⟩) ?_
    · simp [Instruction.operands, gradient, own (k := .projected id) rfl,
        own (k := .eligibility id c) rfl]
    · obtain ⟨m, hm⟩ := h.extended hn (SortedMap.mem_keys.mp hk)
      simp [Instruction.operands, gradient, own (k := .extended id k c) rfl,
        has_of_neuron hm (k := .responsibility k) rfl]
    · simp [grounded_cons, grounded_nil, Instruction.operands, gradient, rate, has_of_connection hd]
  · simp [grounded_cons, grounded_nil, Instruction.operands, rate, own (k := .bias id) rfl,
      own (k := .responsibility id) rfl]

theorem has_ownKeys {k : Key} (hk : k ∈ ownKeys id n) : k.Has g := by
  have own {k : Key} (hk : k.IsOf id) : k.Has g := has_of_neuron hn hk
  simp only [ownKeys, List.mem_append, List.mem_cons, List.not_mem_nil, or_false, List.mem_map,
    List.mem_flatMap] at hk
  rcases hk with ((hk | ⟨c, -, rfl⟩) | ⟨⟨j, row⟩, -, rfl | ⟨c, -, rfl⟩⟩) | ⟨c, hc, hk⟩
  · rcases hk with rfl | rfl | rfl | rfl | rfl | rfl | rfl | rfl | rfl | rfl <;> exact own rfl
  · exact own rfl
  · exact own rfl
  · exact own rfl
  · obtain ⟨-, -, ⟨d, hd⟩, -⟩ := h.projection hn (SortedSet.mem_toList_iff.mp hc)
    rcases hk with rfl | rfl
    · exact (has_of_connection hd).1
    · exact (has_of_connection hd).2

theorem has_requests (role : Role) {k : Key} (hk : k ∈ (listingOf g id n role).requests) :
    k.Has g := by
  have inner (position : Option Nat) (hk : k ∈ ownKeys id n ++ keysOf (activationBlock id n) ++
      keysOf (traceBlock id n (influencesCode g id n)) ++
      keysOf (Graph.errorCode g id n position) ++ .gradient id :: keysOf (updateBlock id n)) :
      k.Has g := by
    simp only [List.mem_append, List.mem_cons] at hk
    rcases hk with (((hk | hk) | hk) | hk) | rfl | hk
    · exact has_ownKeys h hn hk
    · exact (grounded_activationBlock h hn).keysOf hk
    · exact (grounded_traceBlock h hn).keysOf hk
    · exact (grounded_errorCode h hn position).keysOf hk
    · exact ⟨0, rfl⟩
    · exact (grounded_updateBlock h hn).keysOf hk
  cases role with
  | input =>
    rcases List.mem_append.mp hk with hk | hk
    · exact has_ownKeys h hn hk
    · exact (grounded_inputBlock h hn).keysOf hk
  | hidden => exact inner none hk
  | output position => exact inner (some position) hk

end Blocks

/-- The blocks of a listing speak only of what it asks for. -/
theorem mem_requests {role : Role} {k : Key} {b : Block Key}
    (hb : b ∈ [(listingOf g id n role).activation, (listingOf g id n role).trace,
      (listingOf g id n role).propagation]) {i : Instruction Key} (hi : i ∈ b)
    (hk : k ∈ i.operands) : k ∈ (listingOf g id n role).requests := by
  have hkeys : k ∈ keysOf b := List.mem_flatMap.mpr ⟨i, hi, hk⟩
  simp only [List.mem_cons, List.not_mem_nil, or_false] at hb
  cases role with
  | input =>
    rcases hb with rfl | rfl | rfl
    · exact List.mem_append.mpr (.inr hkeys)
    · simp [listingOf] at hi
    · simp [listingOf] at hi
  | hidden | output =>
    simp only [listingOf, ofErrorBlock, List.mem_append, List.mem_cons] at hb ⊢
    rcases hb with rfl | rfl | rfl
    · simp [hkeys]
    · simp [hkeys]
    · simp only [keysOf, List.flatMap_append, List.mem_append] at hkeys
      rcases hkeys with hkeys | hkeys <;> simp [keysOf, hkeys]

end Requests

end GatedNetwork
