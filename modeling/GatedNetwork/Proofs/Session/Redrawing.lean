import GatedNetwork.Proofs.Network.Redrawing
import GatedNetwork.Proofs.Session.Bounded

/-! What a reset makes of a reachable network. Whatever it draws lies in the range that the settings
give, but it does not draw the weights of self-connections. -/

namespace GatedNetwork

namespace Network

open GatedNetwork.Graph

/-- A reset has made the second network of the first one. Number by number what is read under the
drawn keys comes from the stream; self-connections have the weights that they had; the structure
with its gaters and squashes stays, and nothing is left of any run. -/
structure Redraws (net net' : Network) : Prop where
  drawn : (net.redrawn.mapM fun k => (net.drawRange k).draw).run net.random =
    .ok (net.redrawn.map net'.graph.reading) net'.random
  within : ∀ k ∈ net.redrawn, (net.drawRange k).Yields (net'.graph.reading k)
  loops : ∀ c : ConnectionId, c.isSelf →
    net'.graph.reading (.weight c) = net.settled.graph.reading (.weight c)
  skeleton : net'.graph.skeleton = net.graph.skeleton
  resting : net'.graph.Resting
  layers : net'.input = net.input ∧ net'.hidden = net.hidden ∧ net'.output = net.output
  config : net'.config = net.config
  program : net'.program = none

section Resetting

variable {bound : NeuronId} {net net' bare : Network} {g : Graph} {r : RandomStream}

theorem StandsFor.redraws (h : bare.StandsFor net) (sound : bare.Sound bound [])
    (drawn : Redrawn bare.drawRange bare.graph.clear bare.random bare.redrawn (g, r)) :
    net.Redraws { bare with graph := g, random := r } := by
  have random_eq : net.random = bare.random := by cases h <;> rfl
  have range_eq : net.drawRange = bare.drawRange := by rw [drawRange, drawRange, h.config_eq]
  have valid (k : Key) : (bare.drawRange k).isValid := by
    obtain ⟨hw, hb⟩ := bare.config.isValid_of_validate sound.valid
    cases k <;> first | exact hw | exact hb
  have skeleton_eq := drawn.skeleton.trans bare.graph.skeleton_clear
  have resting := drawn.resting sound.consistent.resting_clear
  obtain ⟨values, rfl, draws⟩ := drawn
  have read (k : Key) (hk : k ∈ bare.redrawn) :
      (bare.graph.clear.tuned (.drawn bare.redrawn values)).reading k = values k := by
    rcases sound.mem_redrawn_iff.mp hk with ⟨id, rfl, there⟩ | ⟨c, rfl, there⟩
    · exact reading_drawn_bias ((clear_contains_neuron bare.graph id).trans there) hk
    · refine reading_drawn_weight (connection?_isSome_of_contains ?_) hk
      rw [contains_clear, contains_of_not_isSelf (sound.consistent.joined c there).1, there]
  constructor
  case drawn =>
    rw [h.redrawn_eq, range_eq, random_eq, draws, List.map_congr_left read]
  case within =>
    rw [h.redrawn_eq, range_eq]
    intro k hk
    rw [read k hk]
    exact yields_of_mapM valid draws k hk
  case loops =>
    intro c self
    have undrawn : .weight c ∉ bare.redrawn := fun hk => by
      simp [((sound.mem_redrawn_weight c).mp hk).2] at self
    rw [h.settled_eq sound, reading_undrawn_weight undrawn, reading_clear_weight]
  case skeleton => exact skeleton_eq.trans h.skeleton.symm
  case resting => exact resting
  case layers => cases h <;> exact ⟨rfl, rfl, rfl⟩
  case config => exact h.config_eq.symm
  case program => exact sound.bare

theorem Redraws.weights_iff (h : net.Redraws net') (listed : ∀ c, c ∈ net'.connections ↔ c ∈ net.connections)
    (regular : ∀ c, .weight c ∈ net.redrawn ↔ c ∈ net.connections ∧ c.isSelf = false) :
    (∀ c ∈ net'.connections, net.config.weightInit.Yields (net'.graph.reading (.weight c))) ↔
      ∀ c ∈ net.connections, c.isSelf →
        net.config.weightInit.Yields (net.settled.graph.reading (.weight c)) := by
  constructor
  · intro all c hc self
    rw [← h.loops c self]
    exact all c ((listed c).mpr hc)
  · intro loops c hc
    cases self : c.isSelf with
    | true =>
      rw [h.loops c self]
      exact loops c ((listed c).mp hc) self
    | false => exact h.within (.weight c) ((regular c).mpr ⟨(listed c).mp hc, self⟩)

/-- A reset draws every bias and the weight of every connection between two neurons, each of them once
and from its range; it fails where one of them cannot be drawn. Otherwise the structure is kept and
nothing is left of any run, but self-connections keep their weights, so that all listed weights lie in
the range exactly if those of the self-connections did before. -/
theorem Reachable.reset_redraws (h : net.Reachable) :
    (net.redrawn.Nodup ∧ (∀ id, .bias id ∈ net.redrawn ↔ net.graph.neurons.contains id) ∧
      ∀ c, .weight c ∈ net.redrawn ↔ c ∈ net.connections ∧ c.isSelf = false) ∧
    Ending (fun _ net' => net.Redraws net' ∧
        ((∀ c ∈ net'.connections, net.config.weightInit.Yields (net'.graph.reading (.weight c))) ↔
          ∀ c ∈ net.connections, c.isSelf →
            net.config.weightInit.Yields (net.settled.graph.reading (.weight c))))
      (fun e _ => e = .unboundedRange ∧ ∃ k ∈ net.redrawn, (net.drawRange k).isBounded = false)
      (reset.run net) := by
  obtain ⟨bound, bare, sound, stands⟩ := h.stands
  have regular (c : ConnectionId) : .weight c ∈ net.redrawn ↔ c ∈ net.connections ∧ c.isSelf = false := by
    rw [stands.redrawn_eq, stands.connections_eq]
    exact sound.mem_redrawn_weight c
  refine ⟨⟨stands.redrawn_eq ▸ sound.nodup_redrawn, fun id => ?_, regular⟩, ?_⟩
  · rw [stands.redrawn_eq, sound.mem_redrawn_bias, contains_neuron_of_skeleton_eq stands.skeleton]
  · refine (stands.reset_draws sound).mono ?_ ?_
    · rintro - _ ⟨g, r, rfl, drawn⟩
      have redraws := stands.redraws sound drawn
      refine ⟨redraws, redraws.weights_iff (fun c => ?_) regular⟩
      rw [connections_eq_of_skeleton_eq (a := { bare with graph := g, random := r }) (b := net)
        (by cases stands <;> rfl) redraws.skeleton]
    · rintro e - ⟨rfl, k, hk, unbounded⟩
      rw [stands.redrawn_eq]
      refine ⟨rfl, k, hk, ?_⟩
      rw [drawRange, stands.config_eq]
      exact unbounded

theorem exists_heavyLoop : ∃ net net' : Network, net.Reachable ∧
    net.config.weightInit = ⟨0.25, 0.25⟩ ∧ ⟨1, 2⟩ ∈ net.connections ∧ reset.run net = .ok () net' ∧
    ⟨2, 2⟩ ∈ net'.connections ∧ (net'.graph.connection? ⟨2, 2⟩).map (·.weight) = some 5 := by
  obtain ⟨net, reachable, weights_eq, listed, ended⟩ : ∃ net : Network, net.Reachable ∧
      net.config.weightInit = ⟨0.25, 0.25⟩ ∧ ⟨1, 2⟩ ∈ net.connections ∧
      Ending (fun _ net' => ⟨2, 2⟩ ∈ net'.connections ∧
        (net'.graph.connection? ⟨2, 2⟩).map (·.weight) = some 5) (fun _ _ => False) (reset.run net) :=
    exists_reachable [.new 1 [] 1 { weightInit := ⟨0.25, 0.25⟩, biasInit := ⟨0, 0⟩ },
      .call 0 (.projectNeuron 1 2 (some 3)), .call 0 (.projectNeuron 2 2 (some 5))]
      ⟨_, rfl, rfl, by decide +kernel, by decide +kernel⟩
  obtain ⟨⟨⟩, net', run_eq, facts⟩ := ended.exists_ok
  exact ⟨net, net', reachable, weights_eq, listed, run_eq, facts⟩

theorem reset_redraws_heavyLoop : ∃ net net' : Network, net.Reachable ∧ reset.run net = .ok () net' ∧
    net.Redraws net' ∧ net'.graph.reading (.weight ⟨1, 2⟩) = 0.25 := by
  obtain ⟨net, net', reachable, weights_eq, listed, run_eq, -⟩ := exists_heavyLoop
  obtain ⟨⟨-, -, regular⟩, ends⟩ := Reachable.reset_redraws reachable
  have redraws := (ends.of_eq_ok run_eq).1
  have drawn := redraws.within (.weight ⟨1, 2⟩) ((regular ⟨1, 2⟩).mpr ⟨listed, rfl⟩)
  refine ⟨net, net', reachable, run_eq, redraws, ?_⟩
  have range_eq : net.drawRange (.weight ⟨1, 2⟩) = ⟨0.25, 0.25⟩ := weights_eq
  rw [range_eq, Range.Yields, if_neg (by decide)] at drawn
  exact drawn

theorem reset_misses_loop : ∃ net net' : Network, net.Reachable ∧ reset.run net = .ok () net' ∧
    ⟨2, 2⟩ ∈ net'.connections ∧ (net'.graph.connection? ⟨2, 2⟩).map (·.weight) = some 5 ∧
    net.config.weightInit = ⟨0.25, 0.25⟩ ∧ ¬ Range.Yields ⟨0.25, 0.25⟩ 5 := by
  obtain ⟨net, net', reachable, weights_eq, -, run_eq, listed, weight_eq⟩ := exists_heavyLoop
  refine ⟨net, net', reachable, run_eq, listed, weight_eq, weights_eq, ?_⟩
  rw [Range.Yields, if_neg (by decide)]
  decide

end Resetting

end Network

end GatedNetwork
