import GatedNetwork.Proofs.Graph.Redrawing
import GatedNetwork.Proofs.Network.Drawing

/-! Networks that are reset. Each bias and each weight of a connection between two neurons is drawn
once, in the order of the neurons; self-connections are not among the inputs of their neurons, and
they keep their weights. -/

namespace GatedNetwork

namespace Network

open GatedNetwork.Graph

/-- Everything that a reset draws anew, in its order. -/
def redrawn (net : Network) : List Key := net.ids.flatMap net.graph.drawnAt

/-- Where the number under a key is drawn from. -/
def drawRange (net : Network) : Key → Range := Key.drawRange net.config.weightInit net.config.biasInit

section Resetting

variable {bound : NeuronId} {net bare : Network}

theorem StandsFor.redrawn_eq (h : bare.StandsFor net) : net.redrawn = bare.redrawn := by
  have ids_eq : net.ids = bare.ids := by cases h <;> rfl
  rw [redrawn, redrawn, ids_eq, funext (drawnAt_of_skeleton_eq h.skeleton)]

theorem Sound.nodup_redrawn (h : bare.Sound bound []) : bare.redrawn.Nodup :=
  nodup_drawn h.consistent.toLinked (by simpa using h.nodup)

theorem Sound.mem_redrawn_iff (h : bare.Sound bound []) {k : Key} : k ∈ bare.redrawn ↔
    (∃ id, k = .bias id ∧ bare.graph.neurons.contains id) ∨
      ∃ c, k = .weight c ∧ bare.graph.connections.contains c := by
  have listed (id : NeuronId) : id ∈ bare.ids ↔ bare.graph.neurons.contains id := by
    simpa using h.mem_iff id
  simp only [redrawn, List.mem_flatMap, mem_drawnAt_iff h.consistent.toLinked]
  constructor
  · rintro ⟨id, -, ⟨rfl, there⟩ | ⟨c, rfl, -, there⟩⟩
    · exact .inl ⟨id, rfl, there⟩
    · exact .inr ⟨c, rfl, there⟩
  · rintro (⟨id, rfl, there⟩ | ⟨c, rfl, there⟩)
    · exact ⟨id, (listed id).mpr there, .inl ⟨rfl, there⟩⟩
    · exact ⟨c.target, (listed _).mpr (h.consistent.joined c there).2.2, .inr ⟨c, rfl, rfl, there⟩⟩

theorem Sound.mem_redrawn_bias (h : bare.Sound bound []) (id : NeuronId) :
    .bias id ∈ bare.redrawn ↔ bare.graph.neurons.contains id := by
  simp [h.mem_redrawn_iff]

theorem Sound.mem_redrawn_weight (h : bare.Sound bound []) (c : ConnectionId) :
    .weight c ∈ bare.redrawn ↔ c ∈ bare.connections ∧ c.isSelf = false := by
  rw [mem_connections_iff h]
  simp only [h.mem_redrawn_iff, reduceCtorEq, false_and, exists_false, false_or, Key.weight.injEq,
    exists_eq_left']
  constructor
  · intro there
    have regular := (h.consistent.joined c there).1
    exact ⟨(contains_of_not_isSelf regular).trans there, regular⟩
  · rintro ⟨there, regular⟩
    rwa [← contains_of_not_isSelf regular]

/-- A reset of a cleared network is a list of draws; it fails where one of them does. -/
theorem StandsFor.reset_draws (h : bare.StandsFor net) (sound : bare.Sound bound []) :
    Ending (fun _ net' => ∃ g r, net' = { bare with graph := g, random := r } ∧
        Redrawn bare.drawRange bare.graph.clear bare.random bare.redrawn (g, r))
      (fun e _ => Layer.Dry bare.config.weightInit bare.config.biasInit bare.redrawn e)
      (reset.run net) := by
  have sound' := sound.clear
  have resting := sound.consistent.resting_clear
  have keys_eq : (bare.input :: bare.hidden.toList ++ [bare.output]).flatMap
      (·.drawnIn bare.graph.clear) = bare.redrawn := by
    have ids_eq : (bare.input :: bare.hidden.toList ++ [bare.output]).flatMap (·.neurons) = bare.ids := by
      simp [ids, idsOf]
    rw [redrawn, ← ids_eq, List.flatMap_assoc]
    simp only [Layer.drawnIn, funext (drawnAt_of_skeleton_eq bare.graph.skeleton_clear)]
  have fresh := sound.nodup_redrawn
  rw [reset, bind_of_ok (h.clear_run sound), bind_of_ok (get_run _)]
  rw [← keys_eq] at fresh ⊢
  refine ends_forM (I := fun (before : List Layer) (net' : Network) =>
    ∃ g r, net' = { bare with graph := g, random := r } ∧ Redrawn bare.drawRange bare.graph.clear
      bare.random (before.flatMap (·.drawnIn bare.graph.clear)) (g, r))
    (fun before l later split => ?_) { bare with graph := bare.graph.clear }
    ⟨_, _, rfl, drawn_nil _ _ _⟩
  rintro _ ⟨g, r, rfl, drawn⟩
  have split : bare.input :: bare.hidden.toList ++ [bare.output] = before ++ l :: later := split
  have split_keys : (bare.input :: bare.hidden.toList ++ [bare.output]).flatMap
      (·.drawnIn bare.graph.clear) = before.flatMap (·.drawnIn bare.graph.clear) ++
        (l.drawnIn bare.graph.clear ++ later.flatMap (·.drawnIn bare.graph.clear)) := by
    rw [split, List.flatMap_append, List.flatMap_cons]
  have members (id : NeuronId) (hid : id ∈ l.neurons) : bare.graph.clear.neurons.contains id := by
    refine (sound'.mem_iff id).mp ?_
    have listed : id ∈ (bare.input :: bare.hidden.toList ++ [bare.output]).flatMap (·.neurons) :=
      List.mem_flatMap.mpr ⟨l, by simp [split], hid⟩
    simpa [ids, idsOf] using listed
  have layer_fresh : (before.flatMap (·.drawnIn bare.graph.clear) ++ l.drawnIn bare.graph.clear).Nodup := by
    rw [split_keys, ← List.append_assoc] at fresh
    exact (List.nodup_append.mp fresh).1
  refine ends_focus ((Layer.ends_reset_drawn sound'.consistent.toLinked resting members layer_fresh (g, r)
    drawn).mono (fun _ s drawn' => ?_) fun e _ dry => ⟨dry.1, ?_⟩)
  · refine ⟨s.1, s.2, rfl, ?_⟩
    rw [List.flatMap_append, List.flatMap_singleton]
    exact drawn'
  · obtain ⟨k, hk, unbounded⟩ := dry.2
    refine ⟨k, ?_, unbounded⟩
    rw [split_keys]
    simp [hk]

theorem StandsFor.reset_ends (h : bare.StandsFor net) (sound : bare.Sound bound []) :
    Ending (fun _ _ => True) (fun e _ => net.Parched e) (reset.run net) := by
  refine (h.reset_draws sound).mono (fun _ _ _ => trivial) ?_
  rintro e - ⟨rfl, k, -, unbounded⟩
  rw [h.parched_eq]
  refine ⟨rfl, ?_⟩
  cases k <;> simp_all [Key.drawRange]

end Resetting

end Network

end GatedNetwork
