import GatedNetwork.Proofs.Network.FeedForward
import GatedNetwork.Proofs.Program.Blaming

/-! The backward pass over a network as one reading, and the error terms in it. The neurons have their
turns from the last one to the first one that is not an input. -/

namespace GatedNetwork

open GatedNetwork.Graph

namespace Network

def hiddenIds (net : Network) : List NeuronId := net.hidden.toList.flatMap (·.neurons)

def tasked (net : Network) (rate : Float) (targets : List Float) : Reading :=
  net.graph.reading.store (taught rate targets)

/-- The reading after a backward pass. -/
def learned (net : Network) (rate : Float) (targets : List Float) : Reading :=
  ((workers net.hidden.toList net.output).reverse.map net.graph.listing).foldl Reading.learn
    (net.tasked rate targets)

section Passes

variable {bound : NeuronId} {net bare : Network} {rate : Float} {targets : List Float} {id x : NeuronId}
  {r : NeuronId × Role} {before later : List (NeuronId × Role)}

theorem Sound.worker_present (sound : net.Sound bound [])
    (hr : r ∈ (workers net.hidden.toList net.output).reverse) : net.graph.neurons.contains r.1 :=
  sound.present (List.mem_append_right _ (List.mem_reverse.mp hr))

theorem tasked_eq {k : Key} (field : k.isField) : net.tasked rate targets k = net.graph.reading k :=
  net.graph.agrees_reading.taught rate targets k field

/-- However a network is run, a step leaves the reading of the pass. -/
theorem StandsFor.learns (h : bare.StandsFor net) (sound : bare.Sound bound [])
    (valid : Program.validRate rate) (length_eq : targets.length = bare.output.size) :
    ∃ live net', (propagate rate targets).run net = .ok () net' ∧
      bare.graph.skeleton = live.skeleton ∧ live.Agrees (bare.learned rate targets) ∧
      { bare with graph := live }.Sound bound [] ∧ { bare with graph := live }.StandsFor net' := by
  obtain ⟨⟨⟩, live, net', run_eq, walk_run, consistent, skeleton_eq, stands⟩ :=
    h.walks_propagate sound valid length_eq
  have present : ∀ id ∈ bare.workerIds, bare.graph.neurons.contains id := fun id worker =>
    (sound.mem_workerIds_iff.mp worker).1
  obtain ⟨live', walk_run', -, agrees⟩ := follows_walkBackward sound.consistent.toLinked
    (bare.graph.agrees_reading.taught rate targets) present length_eq
    fun i hi => (store_taught_target _ rate hi).symm
  rw [store_taught_rate] at walk_run'
  obtain rfl : live = live' := by simpa using walk_run.symm.trans walk_run'
  exact ⟨live, net', run_eq, skeleton_eq, agrees,
    sound.withGraph ⟨consistent, (keys_of_skeleton_eq skeleton_eq).symm⟩ bare.random, stands⟩

theorem Sound.place_lt_iff (sound : net.Sound bound []) (split : net.roles = before ++ r :: later) :
    net.place r.1 < net.place x ↔ x ∉ before.map (·.1) ∧ x ≠ r.1 := by
  have listed : r.1 ∈ net.ids := by simp [(sound.one_turn split).1]
  have own_iff : net.place r.1 = net.place x ↔ r.1 = x := List.idxOf_inj listed
  rw [sound.mem_before_iff split, ne_comm, ne_eq, ← own_iff]
  omega

/-- The turns of a backward pass before and after the one of a neuron are those of the neurons listed
behind it and of the others. -/
theorem Sound.turn_split (sound : net.Sound bound [])
    (hr : r ∈ workers net.hidden.toList net.output) :
    ∃ before later, (workers net.hidden.toList net.output).reverse = before ++ r :: later ∧
      r.1 ∉ later.map (·.1) ∧ (∀ q ∈ before, net.place r.1 < net.place q.1) ∧
      ∀ q ∈ r :: later, ¬ net.place r.1 < net.place q.1 := by
  obtain ⟨earlier, behind, split⟩ := List.append_of_mem hr
  have roles_eq : net.roles = (net.input.neurons.map (·, .input) ++ earlier) ++ r :: behind := by
    rw [roles, split, List.append_assoc]
  obtain ⟨ids_eq, fresh, once⟩ := sound.one_turn roles_eq
  have apart := (List.nodup_append.mp (ids_eq ▸ sound.nodup_ids)).2.2
  have earlier_fresh : r.1 ∉ earlier.map (·.1) := fun again => fresh (by simp [again])
  refine ⟨behind.reverse, earlier.reverse, by simp [split], ?_, fun q hq => ?_, fun q hq behind => ?_⟩
  · rwa [List.map_reverse, List.mem_reverse]
  · have turn : q.1 ∈ behind.map (·.1) := List.mem_map_of_mem (List.mem_reverse.mp hq)
    refine (sound.place_lt_iff roles_eq).mpr ⟨fun again => ?_, fun own => once (own ▸ turn)⟩
    exact apart q.1 again q.1 (List.mem_cons_of_mem _ turn) rfl
  · obtain ⟨undone, other⟩ := (sound.place_lt_iff roles_eq).mp behind
    rcases List.mem_cons.mp hq with rfl | hq
    · exact other rfl
    · refine undone ?_
      rw [List.map_append]
      exact List.mem_append_right _ (List.mem_map_of_mem (List.mem_reverse.mp hq))

/-- A neuron keeps the error terms that it finds in its turn, when those listed behind it have had
theirs. -/
theorem Sound.terms_learned (sound : net.Sound bound [])
    (hr : r ∈ workers net.hidden.toList net.output) :
    ∃ before later n, (workers net.hidden.toList net.output).reverse = before ++ r :: later ∧
      (∀ q ∈ before, net.place r.1 < net.place q.1) ∧
      (∀ q ∈ r :: later, ¬ net.place r.1 < net.place q.1) ∧ net.graph.neurons.get? r.1 = some n ∧
      (net.learned rate targets).terms r.1 =
        (((before.map net.graph.listing).foldl Reading.learn (net.tasked rate targets)).learn
          (net.graph.listing r)).terms r.1 := by
  obtain ⟨before, later, split, once, behind, others⟩ := sound.turn_split hr
  obtain ⟨n, hn⟩ := get?_of_contains (sound.worker_present (List.mem_reverse.mpr hr))
  refine ⟨before, later, n, split, behind, others, hn, ?_⟩
  rw [learned, split]
  exact foldl_learn_turn sound.consistent.toLinked (fun q hq => sound.worker_present (split ▸ hq)) once

theorem Sound.terms_learned_hidden (sound : net.Sound bound []) (hidden : id ∈ net.hiddenIds) :
    ∃ n, net.graph.neurons.get? id = some n ∧ (net.learned rate targets).terms id =
      (net.graph.reading.midway (net.learned rate targets) (net.place id < net.place ·)).hiddenTerms
        net.graph id n := by
  have hr : (id, .hidden) ∈ workers net.hidden.toList net.output := by
    simpa [workers, hiddenIds] using hidden
  obtain ⟨before, later, n, split, behind, others, hn, terms_eq⟩ := sound.terms_learned hr
  refine ⟨n, hn, terms_eq.trans ?_⟩
  rw [terms_learn_hidden _ hn rfl]
  refine Reading.hiddenTerms_eq fun k heeds => ?_
  rw [foldl_learn_midway sound.consistent.toLinked (fun q hq => sound.worker_present (split ▸ hq))
    (net.place id < net.place ·) behind others heeds, ← split]
  exact Reading.midway_eq (fun k field => tasked_eq field) (fun k _ => rfl) heeds.isField

theorem Sound.terms_learned_output (sound : net.Sound bound []) {i : Nat}
    (hi : i < net.output.neurons.length) (hi' : i < targets.length) :
    (net.learned rate targets).terms net.output.neurons[i] =
      { responsibility := targets[i] - net.graph.reading (.activation net.output.neurons[i])
        projected := targets[i] - net.graph.reading (.activation net.output.neurons[i])
        gated := net.graph.reading (.gated net.output.neurons[i]) } := by
  have hr : (net.output.neurons[i], .output i) ∈ workers net.hidden.toList net.output := by
    refine List.mem_append_right _ (List.mem_mapIdx.mpr ⟨i, hi, rfl⟩)
  have linked := sound.consistent.toLinked
  obtain ⟨before, later, n, split, behind, -, hn, terms_eq⟩ :=
    sound.terms_learned hr
  have first : ∀ q ∈ before, net.graph.neurons.contains q.1 :=
    fun q hq => sound.worker_present (split ▸ List.mem_append_left _ hq)
  have fresh : net.output.neurons[i] ∉ before.map (·.1) := fun turn => by
    obtain ⟨q, hq, own⟩ := List.mem_map.mp turn
    exact Nat.lt_irrefl _ (own ▸ behind q hq)
  have target_eq : (before.map net.graph.listing).foldl Reading.learn (net.tasked rate targets)
      (.target i) = targets[i] :=
    (foldl_learn_of_unlearnt (k := .target i) linked first (fun _ => rfl) (by simp) (fun sum => sum)
      _).trans (store_taught_target _ rate hi')
  have activation_eq : (before.map net.graph.listing).foldl Reading.learn (net.tasked rate targets)
      (.activation net.output.neurons[i]) = net.graph.reading (.activation net.output.neurons[i]) :=
    (foldl_learn_of_unlearnt (k := .activation _) linked first (fun _ => rfl) (by simp)
      (fun sum => sum) _).trans (tasked_eq rfl)
  have gated_eq : (before.map net.graph.listing).foldl Reading.learn (net.tasked rate targets)
      (.gated net.output.neurons[i]) = net.graph.reading (.gated net.output.neurons[i]) :=
    (congrArg ErrorTerms.gated (foldl_learn_terms linked first fresh _)).trans (tasked_eq rfl)
  rw [terms_eq, terms_learn_output _ hn rfl, target_eq, activation_eq, gated_eq]

theorem Sound.terms_learned_input (sound : net.Sound bound []) (given : id ∈ net.input.neurons) :
    (net.learned rate targets).terms id = net.graph.reading.terms id := by
  have aside : id ∉ (workers net.hidden.toList net.output).reverse.map (·.1) := by
    rw [List.map_reverse, List.mem_reverse, workers_ids]
    exact fun worker => (sound.mem_workerIds_iff.mp worker).2 given
  rw [learned, foldl_learn_terms sound.consistent.toLinked (fun _ => sound.worker_present) aside]
  exact Reading.terms_eq (tasked_eq rfl) (tasked_eq rfl) (tasked_eq rfl)

end Passes

end Network

end GatedNetwork
