import GatedNetwork.Proofs.Network.Regrowing
import GatedNetwork.Proofs.Network.Rewiring
import GatedNetwork.Proofs.Network.Tuning

/-! When a mutation finds something to act on, and all that it can come to. Most operators look for
what they can change before they draw. Two of them draw first: a squash is looked for when a neuron
has been drawn for it, and a neuron that is drawn to be removed may turn out to stay. -/

namespace GatedNetwork

def Mutation.isStructural : Mutation → Bool
  | .modifyNeurons | .modifyConnections => true
  | _ => false

namespace Network

/-- There is nothing in the network that the operator could change. -/
def Idle (net : Network) : Mutation → Prop
  | .swapWeight => ∀ c d, net.graph.contains c → net.graph.contains d → c = d
  | .swapBias => ∀ a ∈ net.nonInputs, ∀ b ∈ net.nonInputs, a = b
  | .modifyRandomBias _ => net.nonInputs = []
  | .modifyRandomWeight _ => ∀ c, ¬ net.graph.contains c
  | .modifyNeurons => net.hidden = #[]
  | .modifyConnections => (∀ c, net.graph.contains c → c.isSelf) ∧
      net.neurons.Pairwise fun a b => a.2 ≠ .output → b.2 ≠ .input → net.graph.contains ⟨a.1, b.1⟩
  | .modifySquash allowed => ∀ id ∈ net.nonInputs, net.Sated allowed id

/-- The operator finds nothing to change. It tries no more than one neuron for another squash, the one
that the random stream picks. -/
def Barren (net : Network) : Mutation → Prop
  | .modifySquash allowed => ∀ id r,
      (Draw.choose net.nonInputs).run net.random = .ok (some id) r → net.Sated allowed id
  | m => net.Idle m

/-- The operator draws before it knows that there is something to change. -/
def DrawsFirst (net : Network) : Mutation → Prop
  | .modifySquash _ => net.nonInputs ≠ []
  | .modifyNeurons => net.hidden ≠ #[]
  | _ => False

/-- What a mutation of a network without a program can come to. -/
inductive Outcome (net : Network) (ids : IdSupply) (m : Mutation) :
    EStateM.Result NetworkError (IdSupply × Network) Unit → Prop where
  /-- The noise is not from a range in order. -/
  | refused {noise : Range} (carried : m.noise? = some noise) (disordered : noise.isValid = false) :
      Outcome net ids m (.error (.invalidConfig .perturbationRange) (ids, net))
  | unavailable (reason : Unavailability) (barren : net.Barren m) (steady : ¬ net.DrawsFirst m) :
      Outcome net ids m (.error (.mutationUnavailable reason) (ids, net))
  /-- The neuron that was drawn has the only squash that is allowed. -/
  | sated {allowed : List Squash} {r : RandomStream} (squashes : m = .modifySquash allowed)
      (barren : net.Barren m) (some : net.nonInputs ≠ []) (read : net.random.position < r.position) :
      Outcome net ids m (.error (.mutationUnavailable .noOtherSquash) (ids, { net with random := r }))
  /-- The neuron that was drawn gates one of its own connections and is not removed. -/
  | stuck {c : ConnectionId} {id : NeuronId} {g : Graph} {r : RandomStream} (removes : m = .modifyNeurons)
      (layered : net.hidden ≠ #[]) (own : net.graph.GatesOwn id c)
      (read : net.random.position < r.position) :
      Outcome net ids m (.error (.unknownConnection c) (ids, { net with graph := g, random := r }))
  /-- A new number could not be drawn. -/
  | starved {s : IdSupply × Network} (able : ¬ net.Barren m) :
      Outcome net ids m (.error .unboundedRange s)
  | tuned {t : Tuning} {r : RandomStream} (able : ¬ net.Barren m) (tunes : net.Tunes m t) :
      Outcome net ids m (.ok () (ids, { net with graph := net.graph.tuned t, random := r }))
  | rewired {s : IdSupply × Network} (structural : m.isStructural) (able : ¬ net.Barren m) :
      Outcome net ids m (.ok () s)

section Rewiring

variable {bound : NeuronId} {net : Network}

theorem connections_eq_nil_iff (h : net.Sound bound []) :
    net.connections = [] ↔ ∀ c, ¬ net.graph.contains c := by
  simp only [List.eq_nil_iff_forall_not_mem, mem_connections_iff h]

theorem modifyConnections_idle (h : net.Sound bound []) (idle : net.Idle .modifyConnections) :
    modifyConnections.run net = .error (.mutationUnavailable .noConnectionToChange) net := by
  obtain ⟨loops, full⟩ := idle
  have removable : net.connections.filter (!·.isSelf) = [] := by
    simp only [List.filter_eq_nil_iff, mem_connections_iff h]
    intro c hc
    simp [loops c hc]
  rw [modifyConnections, bind_of_ok (get_run net), removable, forwardGaps_eq_nil_iff.mpr full]
  rfl

/-- Where there is something to change, it is decided whether a connection is broken or a gap is
closed, and then one is picked. -/
theorem modifyConnections_cases (h : net.Sound bound []) (able : ¬ net.Idle .modifyConnections) :
    (∃ c r, net.graph.contains c ∧ c.isSelf = false ∧ modifyConnections.run net =
      (disconnect c.source c.target).run { net with random := r }) ∨
    ∃ gap ∈ net.forwardGaps, ∃ r, modifyConnections.run net =
      (projectNeuron gap.1 gap.2 none >>= fun _ => pure ()).run { net with random := r } := by
  have listed {c : ConnectionId} (hc : c ∈ net.connections.filter (!·.isSelf)) :
      net.graph.contains c ∧ c.isSelf = false := by
    obtain ⟨there, regular⟩ := List.mem_filter.mp hc
    exact ⟨(mem_connections_iff h c).mp there, by simpa using regular⟩
  have some : net.connections.filter (!·.isSelf) = [] → net.forwardGaps ≠ [] := by
    intro removable addable
    refine able ⟨fun c hc => ?_, forwardGaps_eq_nil_iff.mp addable⟩
    simpa using List.filter_eq_nil_iff.mp removable c ((mem_connections_iff h c).mpr hc)
  rw [modifyConnections, bind_of_ok (get_run net)]
  generalize net.connections.filter (!·.isSelf) = removable at listed some ⊢
  generalize net.forwardGaps = addable at some ⊢
  have breaks (r : RandomStream) (ne : removable ≠ []) :
      ∃ c r', net.graph.contains c ∧ c.isSelf = false ∧ (do
          let c ← pick removable .noConnectionToChange
          disconnect c.source c.target : Edit Unit).run { net with random := r } =
        (disconnect c.source c.target).run { net with random := r' } := by
    obtain ⟨c, hc, r', -, -, chosen⟩ :=
      pick_run { net with random := r } ne .noConnectionToChange
    exact ⟨c, r', (listed hc).1, (listed hc).2, bind_of_ok chosen⟩
  have closes (r : RandomStream) (ne : addable ≠ []) :
      ∃ gap ∈ addable, ∃ r', (do
          let gap ← pick addable .noConnectionToChange
          let _ ← projectNeuron gap.1 gap.2 none : Edit Unit).run { net with random := r } =
        (projectNeuron gap.1 gap.2 none >>= fun _ => pure ()).run { net with random := r' } := by
    obtain ⟨gap, hgap, r', -, -, chosen⟩ :=
      pick_run { net with random := r } ne .noConnectionToChange
    exact ⟨gap, hgap, r', bind_of_ok chosen⟩
  cases removable with
  | nil =>
    cases addable with
    | nil => exact absurd rfl (some rfl)
    | cons gap gaps => exact .inr (closes net.random (List.cons_ne_nil _ _))
  | cons c cs =>
    cases addable with
    | nil => exact .inl (breaks net.random (List.cons_ne_nil _ _))
    | cons gap gaps =>
      obtain ⟨remove, r, coin_eq, -, -⟩ := Draw.gives_coin net.random
      have tossed : (onRandom Draw.coin).run net = .ok remove { net with random := r } :=
        onRandom_of_ok coin_eq
      cases remove with
      | true =>
        obtain ⟨c', r', there, regular, run_eq⟩ := breaks r (List.cons_ne_nil _ _)
        exact .inl ⟨c', r', there, regular, (bind_of_ok tossed).trans run_eq⟩
      | false =>
        obtain ⟨gap', there, r', run_eq⟩ := closes r (List.cons_ne_nil _ _)
        exact .inr ⟨gap', there, r', (bind_of_ok tossed).trans run_eq⟩

end Rewiring

section Mutating

variable {ids : IdSupply} {net : Network} {m : Mutation}

/-- An operator that looks before it draws is unavailable, tunes the network, or lacks a new number. -/
theorem Outcome.of_looking {act : Edit Unit} (reason : Unavailability) (steady : ¬ net.DrawsFirst m)
    (idles : net.Barren m → act.run net = .error (.mutationUnavailable reason) net)
    (works : ¬ net.Barren m → (∃ t r, net.Tunes m t ∧
      act.run net = .ok () { net with graph := net.graph.tuned t, random := r }) ∨
      ∃ s, act.run net = .error .unboundedRange s) :
    net.Outcome ids m ((lift act).run (ids, net)) := by
  by_cases barren : net.Barren m
  · rw [lift_of_error (idles barren)]
    exact .unavailable _ barren steady
  · rcases works barren with ⟨t, r, tunes, run_eq⟩ | ⟨s, failed⟩
    · rw [lift_of_ok run_eq]
      exact .tuned barren tunes
    · rw [lift_of_error failed]
      exact .starved barren

theorem outcome_swapWeight (h : net.Sound ids.next []) :
    net.Outcome ids .swapWeight ((lift swapWeight).run (ids, net)) := by
  have few_iff : net.connections.length < 2 ↔ net.Idle .swapWeight := by
    simp only [length_lt_two_iff (nodup_connections h), mem_connections_iff h, Idle]
    exact ⟨fun same c d hc hd => same c hc d hd, fun same c hc d hd => same c d hc hd⟩
  refine .of_looking .fewerThanTwoConnections id (fun idle => ?_) fun able =>
    .inl (swapWeight_run h fun few => able (few_iff.mp few))
  rw [swapWeight, bind_of_ok (get_run net), bind_of_error (pickPair_of_few (few_iff.mpr idle) _)]

theorem outcome_swapBias (h : net.Sound ids.next []) :
    net.Outcome ids .swapBias ((lift swapBias).run (ids, net)) := by
  have few_iff : net.nonInputs.length < 2 ↔ net.Idle .swapBias := length_lt_two_iff h.nodup_nonInputs
  refine .of_looking .fewerThanTwoNeurons id (fun idle => ?_) fun able =>
    .inl (swapBias_run h fun few => able (few_iff.mp few))
  rw [swapBias, bind_of_ok (get_run net), bind_of_error (pickPair_of_few (few_iff.mpr idle) _)]

theorem validateNoise_error {noise : Range} (disordered : noise.isValid = false) :
    (validateNoise noise).run net = .error (.invalidConfig .perturbationRange) net := by
  simp only [validateNoise, Mutation.noiseFault?, disordered]
  rfl

theorem outcome_modifyRandomBias (h : net.Sound ids.next []) (noise : Range) :
    net.Outcome ids (.modifyRandomBias noise) ((lift (modifyRandomBias noise)).run (ids, net)) := by
  cases valid : noise.isValid with
  | false =>
    rw [lift_of_error (by rw [modifyRandomBias, bind_of_error (validateNoise_error valid)])]
    exact .refused rfl valid
  | true =>
    refine .of_looking .noNeuron id (fun none => ?_) (modifyRandomBias_run h valid)
    rw [modifyRandomBias, bind_of_ok (validateNoise_run valid), bind_of_ok (get_run net),
      bind_of_error (pick_of_nil none _)]

theorem outcome_modifyRandomWeight (h : net.Sound ids.next []) (noise : Range) :
    net.Outcome ids (.modifyRandomWeight noise) ((lift (modifyRandomWeight noise)).run (ids, net)) := by
  have none_iff : net.connections = [] ↔ net.Idle (.modifyRandomWeight noise) := connections_eq_nil_iff h
  cases valid : noise.isValid with
  | false =>
    rw [lift_of_error (by rw [modifyRandomWeight, bind_of_error (validateNoise_error valid)])]
    exact .refused rfl valid
  | true =>
    refine .of_looking .noConnection id (fun idle => ?_) fun able =>
      modifyRandomWeight_run h valid fun none => able (none_iff.mp none)
    rw [modifyRandomWeight, bind_of_ok (validateNoise_run valid), bind_of_ok (get_run net),
      bind_of_error (pick_of_nil (none_iff.mpr idle) _)]

theorem outcome_modifySquash (h : net.Sound ids.next []) (allowed : List Squash) :
    net.Outcome ids (.modifySquash allowed) ((lift (modifySquash allowed)).run (ids, net)) := by
  by_cases none : net.nonInputs = []
  · have failed : (modifySquash allowed).run net = .error (.mutationUnavailable .noNeuron) net := by
      rw [modifySquash, bind_of_ok (get_run net), bind_of_error (pick_of_nil none _)]
    rw [lift_of_error failed]
    refine .unavailable _ (fun id r choice => ?_) fun some => some none
    rw [none] at choice
    cases (EStateM.Result.ok.inj choice).1
  · obtain ⟨id, r, choice, read, ⟨sated, failed⟩ | ⟨able, t, r', tunes, run_eq⟩⟩ :=
      modifySquash_run h allowed none
    · rw [lift_of_error failed]
      refine .sated rfl (fun id' r' choice' => ?_) none read
      obtain ⟨same, -⟩ := EStateM.Result.ok.inj (choice.symm.trans choice')
      rwa [← Option.some.inj same]
    · rw [lift_of_ok run_eq]
      exact .tuned (fun barren => able (barren id r choice)) tunes

theorem outcome_modifyConnections (h : net.Sound ids.next []) :
    net.Outcome ids .modifyConnections ((lift modifyConnections).run (ids, net)) := by
  by_cases idle : net.Idle .modifyConnections
  · rw [lift_of_error (modifyConnections_idle h idle)]
    exact .unavailable _ idle id
  · rcases modifyConnections_cases h idle with ⟨c, r, there, -, run_eq⟩ | ⟨gap, there, r, run_eq⟩
    · have sound : { net with random := r }.Sound ids.next [] := h.withRandom r
      obtain ⟨⟨⟩, net', disconnect_eq⟩ :=
        (StandsFor.plain.guarded_disconnect sound c.source c.target).passes there
      rw [lift_of_ok (run_eq.trans disconnect_eq)]
      exact .rewired rfl idle
    · have sound : { net with random := r }.Sound ids.next [] := h.withRandom r
      have joined := StandsFor.plain.projectNeuron_ends sound gap.1 gap.2 none
      cases project_eq : (projectNeuron gap.1 gap.2 none).run { net with random := r } with
      | ok c net' =>
        rw [lift_of_ok (run_eq.trans (bind_of_ok project_eq))]
        exact .rewired rfl idle
      | error e net' =>
        rw [lift_of_error (run_eq.trans (bind_of_error project_eq))]
        rcases joined.of_eq_error project_eq with ⟨-, missing⟩ | ⟨rfl, -⟩
        · exact absurd (h.contains_of_mem_forwardGaps there) missing
        · exact .starved idle

theorem outcome_modifyNeurons (h : net.Sound ids.next []) :
    net.Outcome ids .modifyNeurons (modifyNeurons.run (ids, net)) := by
  rcases modifyNeurons_cases ids net with ⟨flat, run_eq⟩ | ⟨i, hi, r, read, made⟩
  · rw [run_eq]
    exact .unavailable _ flat fun layered => layered flat
  have layered : net.hidden ≠ #[] := Array.ne_empty_of_size_pos (Nat.zero_lt_of_lt hi)
  have sound : { net with random := r }.Sound ids.next [] := h.withRandom r
  rcases made with run_eq | ⟨-, id, member, run_eq⟩
  · have ended := sound.addHiddenNeuron_ends hi
    rw [run_eq]
    cases add_eq : (addHiddenNeuron i).run (ids, { net with random := r }) with
    | ok _ s => exact .rewired rfl layered
    | error e s =>
      obtain ⟨rfl, -⟩ := ended.of_eq_error add_eq
      exact .starved layered
  · rw [run_eq]
    rcases removeNeuron_cases .plain sound (h.layerOf_member member) with
      ⟨-, net', removed, -⟩ | ⟨c, own, g, -, -, failed⟩
    · rw [lift_of_ok removed]
      exact .rewired rfl layered
    · rw [lift_of_error failed]
      exact .stuck rfl layered own read

/-- A mutation of a sound network without a program comes to one of these outcomes. -/
theorem Sound.mutate_outcome (h : net.Sound ids.next []) (m : Mutation) :
    net.Outcome ids m ((mutate m).run (ids, net)) := by
  have start : (lift restore).run (ids, net) = .ok () (ids, net) :=
    lift_of_ok (restore_of_bare h.bare)
  have started {m : Mutation} {act : Growth Unit} (outcome : net.Outcome ids m (act.run (ids, net))) :
      net.Outcome ids m ((lift restore >>= fun _ => act).run (ids, net)) := by
    rwa [bind_of_ok start]
  cases m with
  | swapWeight => exact started (outcome_swapWeight h)
  | swapBias => exact started (outcome_swapBias h)
  | modifyRandomBias noise => exact started (outcome_modifyRandomBias h noise)
  | modifyRandomWeight noise => exact started (outcome_modifyRandomWeight h noise)
  | modifyNeurons => exact started (outcome_modifyNeurons h)
  | modifyConnections => exact started (outcome_modifyConnections h)
  | modifySquash allowed => exact started (outcome_modifySquash h allowed)

end Mutating

end Network

end GatedNetwork
