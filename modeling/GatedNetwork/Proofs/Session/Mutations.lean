import GatedNetwork.Proofs.Network.Availability
import GatedNetwork.Proofs.Session.Directed

/-! Mutations of reachable networks: what a failed one leaves behind, when there is nothing to mutate,
and what becomes of the values when one of them is mutated. -/

namespace GatedNetwork

open Network

/-- The network is among those that some run of requests leaves behind, and these ids are free then. -/
def Network.ReachableWith (ids : IdSupply) (net : Network) : Prop :=
  ∃ cs : List Request, (({} : World).run cs).ids = ids ∧ net ∈ (({} : World).run cs).networks

namespace Network

section Reaching

variable {ids : IdSupply} {net : Network} {m : Mutation}

theorem ReachableWith.of_run {cs : List Request} {w : World} (h : ({} : World).run cs = w)
    (ids_eq : w.ids = ids) (hnet : net ∈ w.networks) : net.ReachableWith ids :=
  ⟨cs, h ▸ ids_eq, h ▸ hnet⟩

theorem exists_reachableWith (cs : List Request) {P : Network → Prop}
    (ids_eq : (({} : World).run cs).ids = ids)
    (h : ∃ net ∈ (({} : World).run cs).networks[0]?, P net) :
    ∃ net : Network, net.ReachableWith ids ∧ P net := by
  obtain ⟨net, there, seen⟩ := h
  exact ⟨net, ⟨cs, ids_eq, List.mem_of_getElem? there⟩, seen⟩

theorem ReachableWith.stands (h : net.ReachableWith ids) :
    ∃ bare : Network, bare.Sound ids.next [] ∧ bare.StandsFor net := by
  obtain ⟨cs, rfl, hnet⟩ := h
  obtain ⟨i, hi⟩ := List.getElem?_of_mem hnet
  exact (World.Twins.empty.run cs).2.stands_at hi

/-- A mutation of a reachable network comes to one of the outcomes for the network with its numbers
taken back. -/
theorem ReachableWith.mutate_outcome (h : net.ReachableWith ids) (m : Mutation) :
    net.settled.Sound ids.next [] ∧ restore.run net = .ok () net.settled ∧
      net.settled.Outcome ids m ((mutate m).run (ids, net)) := by
  obtain ⟨bare, sound, stands⟩ := h.stands
  rw [stands.settled_eq sound, stands.mutate_run sound]
  exact ⟨sound, stands.restore_run sound, sound.mutate_outcome m⟩

end Reaching

section Failing

variable {ids : IdSupply} {net : Network} {m : Mutation}

theorem barren_of_idle (idle : net.Idle m) : net.Barren m := by
  cases m with
  | modifySquash allowed =>
    intro id r choice
    by_cases none : net.nonInputs = []
    · rw [none] at choice
      nomatch choice
    · obtain ⟨found, r', choice', ⟨id', hid, rfl⟩, -⟩ := Draw.gives_choose none net.random
      obtain ⟨same, -⟩ := EStateM.Result.ok.inj (choice.symm.trans choice')
      obtain rfl := Option.some.inj same
      exact idle id hid
  | _ => exact idle

theorem not_drawsFirst_of_noise {noise : Range} (carried : m.noise? = some noise) : ¬ net.DrawsFirst m := by
  cases m with
  | modifySquash | modifyNeurons => nomatch carried
  | _ => exact id

/-- A mutation that fails changes nothing, unless it has drawn before it knew that there is something
to change. Then the random stream has moved on, and that is all when no other squash is found for the
neuron that was drawn; the other such failure is that of a neuron that gates one of its own connections
and is not removed. -/
theorem ReachableWith.failed_mutate_iff (h : net.ReachableWith ids) {e : NetworkError}
    {s : IdSupply × Network} (run_eq : (mutate m).run (ids, net) = .error e s) (mild : e.isFatal = false) :
    restore.run net = .ok () net.settled ∧
    (s.1 = ids ∧ restore.run s.2 = .ok () net.settled ↔ ¬ net.settled.DrawsFirst m) ∧
    (net.settled.DrawsFirst m →
      s.1 = ids ∧ net.settled.random.position < s.2.random.position ∧
      ((∃ allowed, m = .modifySquash allowed ∧ e = .mutationUnavailable .noOtherSquash ∧
          s.2 = { net.settled with random := s.2.random }) ∨
        m = .modifyNeurons ∧ ∃ id c, e = .unknownConnection c ∧ net.settled.graph.GatesOwn id c)) := by
  obtain ⟨sound, restored, outcome⟩ := h.mutate_outcome m
  have same : restore.run net.settled = .ok () net.settled := restore_of_bare sound.bare
  refine ⟨restored, ?_⟩
  rw [run_eq] at outcome
  generalize net.settled = bare at *
  have moved {g : Graph} {r : RandomStream} (read : bare.random.position < r.position) :
      restore.run { bare with graph := g, random := r } ≠ .ok () bare := by
    have settled : restore.run { bare with graph := g, random := r } =
        .ok () { bare with graph := g, random := r } := restore_of_bare sound.bare
    rw [settled]
    intro kept
    obtain ⟨-, same⟩ := EStateM.Result.ok.inj kept
    rw [← same] at read
    exact Nat.lt_irrefl _ read
  cases outcome with
  | refused carried disordered =>
    have steady : ¬ bare.DrawsFirst m := not_drawsFirst_of_noise carried
    exact ⟨⟨fun _ => steady, fun _ => ⟨rfl, same⟩⟩, fun first => absurd first steady⟩
  | unavailable reason barren steady =>
    exact ⟨⟨fun _ => steady, fun _ => ⟨rfl, same⟩⟩, fun first => absurd first steady⟩
  | sated squashes barren some read =>
    subst squashes
    exact ⟨⟨fun ⟨_, kept⟩ => absurd kept (moved read), fun steady => absurd some steady⟩,
      fun _ => ⟨rfl, read, .inl ⟨_, rfl, rfl, rfl⟩⟩⟩
  | stuck removes layered own read =>
    subst removes
    exact ⟨⟨fun ⟨_, kept⟩ => absurd kept (moved read), fun steady => absurd layered steady⟩,
      fun _ => ⟨rfl, read, .inr ⟨rfl, _, _, rfl, own⟩⟩⟩
  | starved able => nomatch mild

theorem exists_unconnected : ∃ (net : Network) (r : RandomStream), net.ReachableWith ⟨3⟩ ∧
    net.settled = net ∧ restore.run { net with random := r } = .ok () { net with random := r } ∧
    (mutate .swapWeight).run (⟨3⟩, net) =
      .error (.mutationUnavailable .fewerThanTwoConnections) (⟨3⟩, net) ∧
    (mutate (.modifySquash [.logistic])).run (⟨3⟩, net) =
      .error (.mutationUnavailable .noOtherSquash) (⟨3⟩, { net with random := r }) ∧
    net.nonInputs ≠ [] ∧ r ≠ net.random := by
  obtain ⟨net, reachable, settled_eq, failed, listed, squash⟩ : ∃ net : Network,
      net.ReachableWith ⟨3⟩ ∧ net.settled = net ∧ (mutate .swapWeight).run (⟨3⟩, net) =
        .error (.mutationUnavailable .fewerThanTwoConnections) (⟨3⟩, net) ∧ net.nonInputs = [2] ∧
      (net.graph.neurons.get? 2).map (·.squash) = some .logistic :=
    exists_reachableWith [.new 1 [] 1 { biasInit := ⟨0, 0⟩ }] rfl ⟨_, rfl, rfl, rfl, rfl, rfl⟩
  obtain ⟨sound, -, -⟩ := reachable.mutate_outcome .swapBias
  rw [settled_eq] at sound
  have idle : net.Idle (.modifySquash [.logistic]) := by
    intro id hid n hn allowed there
    rw [listed, List.mem_singleton] at hid
    rw [hid] at hn
    rw [hn] at squash
    rw [List.mem_singleton.mp there]
    exact (Option.some.inj squash).symm
  obtain ⟨id, r, choice, read, ⟨-, sated⟩ | ⟨able, -⟩⟩ :=
    modifySquash_run sound [.logistic] (by simp [listed])
  · have moved : r ≠ net.random := fun same => Nat.lt_irrefl _ (same ▸ read)
    have mutated : (mutate (.modifySquash [.logistic])).run (⟨3⟩, net) =
        .error (.mutationUnavailable .noOtherSquash) (⟨3⟩, { net with random := r }) :=
      (bind_of_ok (lift_of_ok (restore_of_bare sound.bare))).trans (lift_of_error sated)
    exact ⟨net, r, reachable, settled_eq, restore_of_bare sound.bare, failed, mutated,
      by simp [listed], moved⟩
  · exact absurd (barren_of_idle idle id r choice) able

theorem failed_mutate_unconnected : ∃ (net : Network) (s t : IdSupply × Network),
    net.ReachableWith ⟨3⟩ ∧
    (mutate .swapWeight).run (⟨3⟩, net) = .error (.mutationUnavailable .fewerThanTwoConnections) s ∧
    s.1 = ⟨3⟩ ∧ restore.run s.2 = .ok () net.settled ∧
    (mutate (.modifySquash [.logistic])).run (⟨3⟩, net) =
      .error (.mutationUnavailable .noOtherSquash) t ∧
    t.1 = ⟨3⟩ ∧ net.settled.random.position < t.2.random.position := by
  obtain ⟨net, r, reachable, settled_eq, -, unconnected, sated, some, -⟩ := exists_unconnected
  obtain ⟨-, kept, -⟩ := ReachableWith.failed_mutate_iff reachable unconnected rfl
  obtain ⟨-, -, moved⟩ := ReachableWith.failed_mutate_iff reachable sated rfl
  obtain ⟨ids_eq, restored⟩ := kept.mpr fun first => first
  obtain ⟨ids_eq', read, -⟩ := moved (by rwa [settled_eq])
  exact ⟨net, _, _, reachable, unconnected, ids_eq, restored, sated, ids_eq', read⟩

/-- The only squash that is allowed is the one that the only candidate has. The mutation fails, and the
next random choice of the network is another one than before. -/
theorem failed_mutate_draws : ∃ (net : Network) (s : IdSupply × Network), net.ReachableWith ⟨3⟩ ∧
    (mutate (.modifySquash [.logistic])).run (⟨3⟩, net) =
      .error (.mutationUnavailable .noOtherSquash) s ∧
    restore.run s.2 ≠ .ok () net.settled ∧ s.2.random ≠ net.random := by
  obtain ⟨net, r, reachable, settled_eq, restored, -, sated, -, moved⟩ := exists_unconnected
  refine ⟨net, _, reachable, sated, ?_, moved⟩
  rw [settled_eq, restored]
  exact fun kept => moved (congrArg random (EStateM.Result.ok.inj kept).2)

end Failing

section Availability

variable {ids : IdSupply} {net : Network} {m : Mutation}

/-- An operator with noise from a range in order reports that nothing could be mutated if and only if
it finds nothing to change. -/
theorem ReachableWith.mutate_unavailable_iff (h : net.ReachableWith ids)
    (valid : ∀ noise, m.noise? = some noise → noise.isValid) :
    ((∃ reason s, (mutate m).run (ids, net) = .error (.mutationUnavailable reason) s) ↔
      net.settled.Barren m) ∧
    (net.settled.Idle m → net.settled.Barren m) ∧
    ((∀ allowed, m ≠ .modifySquash allowed) → (net.settled.Barren m ↔ net.settled.Idle m)) := by
  obtain ⟨-, -, outcome⟩ := h.mutate_outcome m
  generalize net.settled = bare at outcome ⊢
  refine ⟨?_, barren_of_idle, fun other => ?_⟩
  · generalize (mutate m).run (ids, net) = result at outcome ⊢
    cases outcome with
    | refused carried disordered => simp [valid _ carried] at disordered
    | unavailable reason barren steady => exact ⟨fun _ => barren, fun _ => ⟨reason, _, rfl⟩⟩
    | sated squashes barren some read => exact ⟨fun _ => barren, fun _ => ⟨_, _, rfl⟩⟩
    | stuck removes layered own read =>
      subst removes
      exact ⟨fun ⟨_, _, same⟩ => (nomatch same), fun flat => absurd flat layered⟩
    | starved able | tuned able tunes | rewired structural able =>
      exact ⟨fun ⟨_, _, same⟩ => (nomatch same), fun barren => absurd barren able⟩
  · cases m with
    | modifySquash allowed => exact absurd rfl (other allowed)
    | _ => exact Iff.rfl

theorem mutate_unavailable_flat : ∃ net : Network, net.ReachableWith ⟨3⟩ ∧
    (∃ reason s, (mutate .modifyNeurons).run (⟨3⟩, net) = .error (.mutationUnavailable reason) s) ∧
    ∀ reason s, (mutate (.modifyRandomBias ⟨-1, 1⟩)).run (⟨3⟩, net) ≠
      .error (.mutationUnavailable reason) s := by
  obtain ⟨net, reachable, hidden_eq, listed⟩ : ∃ net : Network, net.ReachableWith ⟨3⟩ ∧
      net.settled.hidden = #[] ∧ net.settled.nonInputs = [2] :=
    exists_reachableWith [.new 1 [] 1 { biasInit := ⟨0, 0⟩ }] rfl ⟨_, rfl, rfl, rfl⟩
  obtain ⟨unavailable, barren, -⟩ :=
    ReachableWith.mutate_unavailable_iff reachable (m := .modifyNeurons) (by simp [Mutation.noise?])
  obtain ⟨available, -, idle⟩ :=
    ReachableWith.mutate_unavailable_iff reachable (m := .modifyRandomBias ⟨-1, 1⟩) (by decide)
  refine ⟨net, reachable, unavailable.mpr (barren hidden_eq), fun reason s failed => ?_⟩
  have empty : net.settled.nonInputs = [] := (idle (by simp)).mp (available.mp ⟨reason, s, failed⟩)
  simp [listed] at empty

/-- One of two outputs has the only squash that is allowed and the other has not. The first one is
drawn, and the mutation is called unavailable. -/
theorem mutate_unavailable_unlucky : ∃ net : Network, net.ReachableWith ⟨4⟩ ∧
    net.random = .ofSeed 2 ∧ ¬ net.settled.Idle (.modifySquash [.identity]) ∧
    ∃ reason s, (mutate (.modifySquash [.identity])).run (⟨4⟩, net) =
      .error (.mutationUnavailable reason) s := by
  obtain ⟨net, reachable, settled_eq, stream_eq, listed, first, second⟩ : ∃ net : Network,
      net.ReachableWith ⟨4⟩ ∧ net.settled = net ∧ net.random = .ofSeed 2 ∧ net.nonInputs = [2, 3] ∧
      (net.graph.neurons.get? 2).map (·.squash) = some .identity ∧
      (net.graph.neurons.get? 3).map (·.squash) = some .logistic :=
    exists_reachableWith [.new 1 [] 2 { seed := some 2, biasInit := ⟨0, 0⟩ },
      .call 0 (.setSquash 2 .identity)] rfl ⟨_, rfl, rfl, rfl, rfl, rfl, rfl⟩
  have head_eq : (RandomStream.ofSeed 2).head = 348700191 := by
    rw [RandomStream.head, ChaCha.getElem_block]
    decide +kernel
  have drawn : (Draw.choose [2, 3]).run (.ofSeed 2) = .ok (some 2) (RandomStream.ofSeed 2).advance := by
    rw [Draw.choose_run (by simp) (by rw [head_eq]; decide), head_eq]
    rfl
  refine ⟨net, reachable, stream_eq, ?_, ?_⟩
  · rw [settled_eq]
    intro idle
    obtain ⟨n, hn, squash_eq⟩ := Option.map_eq_some_iff.mp second
    have same := idle 3 (by simp [listed]) n hn .identity (by simp)
    rw [squash_eq] at same
    nomatch same
  · refine (ReachableWith.mutate_unavailable_iff reachable (by simp [Mutation.noise?])).1.mpr ?_
    rw [settled_eq]
    intro id r choice n hn squash there
    rw [listed, stream_eq, drawn] at choice
    obtain rfl : 2 = id := Option.some.inj (EStateM.Result.ok.inj choice).1
    rw [hn] at first
    rw [List.mem_singleton.mp there]
    exact (Option.some.inj first).symm

end Availability

section Values

variable {ids : IdSupply} {net : Network} {m : Mutation}

/-- A mutation of values that succeeds tunes the network with its numbers taken back as its operator
says, and touches nothing else but the random stream. Values that are swapped are those that were there
before, in another order. -/
theorem ReachableWith.mutate_tunes (h : net.ReachableWith ids) {s : IdSupply × Network}
    (values : m.isStructural = false) (run_eq : (mutate m).run (ids, net) = .ok () s) :
    restore.run net = .ok () net.settled ∧ net.settled.program = none ∧ s.1 = ids ∧
    ∃ t r, net.settled.Tunes m t ∧
      s.2 = { net.settled with graph := net.settled.graph.tuned t, random := r } ∧
      s.2.connections = net.settled.connections ∧
      (m = .swapWeight → s.2.weights.Perm net.settled.weights) ∧
      (m = .swapBias → s.2.biases.Perm net.settled.biases) := by
  obtain ⟨sound, restored, outcome⟩ := h.mutate_outcome m
  refine ⟨restored, sound.bare, ?_⟩
  rw [run_eq] at outcome
  generalize net.settled = bare at *
  cases outcome with
  | rewired structural able => simp [structural] at values
  | tuned able tunes =>
    refine ⟨rfl, _, _, tunes, rfl, connections_tuned _ _, ?_, ?_⟩
    · rintro rfl
      exact tunes.perm_weights sound _
    · rintro rfl
      exact tunes.perm_biases sound _

theorem mutate_tunes_outputs : ∃ (net : Network) (s : IdSupply × Network), net.ReachableWith ⟨4⟩ ∧
    (mutate .swapBias).run (⟨4⟩, net) = .ok () s ∧
    restore.run net = .ok () net.settled ∧ net.settled.program = none ∧ s.1 = ⟨4⟩ ∧
    ∃ t r, net.settled.Tunes .swapBias t ∧
      s.2 = { net.settled with graph := net.settled.graph.tuned t, random := r } ∧
      s.2.connections = net.settled.connections ∧ s.2.biases.Perm net.settled.biases := by
  obtain ⟨net, reachable, listed⟩ : ∃ net : Network, net.ReachableWith ⟨4⟩ ∧ net.nonInputs = [2, 3] :=
    exists_reachableWith [.new 1 [] 2 { biasInit := ⟨0, 0⟩ }, .call 0 (.setBias 2 1)] rfl ⟨_, rfl, rfl⟩
  obtain ⟨bare, sound, stands⟩ := reachable.stands
  have many : ¬ bare.nonInputs.length < 2 := by
    rw [← stands.nonInputs_eq, listed]
    decide
  obtain ⟨t, r, -, swapped⟩ := swapBias_run sound many
  have mutated : (mutate .swapBias).run (⟨4⟩, net) =
      .ok () (⟨4⟩, { bare with graph := bare.graph.tuned t, random := r }) := by
    rw [stands.mutate_run sound]
    exact (bind_of_ok (lift_of_ok (restore_of_bare sound.bare))).trans (lift_of_ok swapped)
  obtain ⟨restored, plain, ids_eq, t', r', tunes, net_eq, connections_eq, -, swapped⟩ :=
    ReachableWith.mutate_tunes reachable rfl mutated
  exact ⟨net, _, reachable, mutated, restored, plain, ids_eq, t', r', tunes, net_eq, connections_eq,
    swapped rfl⟩

end Values

end Network

end GatedNetwork
