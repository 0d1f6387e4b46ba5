import GatedNetwork.Proofs.Graph.Active

/-! Edits that take back other edits. Breaking a connection that was just made, and ungating one that
was just gated, give back the graph there was, with every list, every trace and every number. -/

namespace GatedNetwork

theorem SortedMap.erase_insert {κ ν : Type} [Ord κ] [Std.TransOrd κ] [Std.LawfulEqOrd κ]
    [DecidableEq κ] {m : SortedMap κ ν} {k : κ} (absent : m.contains k = false) (v : ν) :
    (m.insert k v).erase k = m := by
  refine eq_of_get?_eq fun k' => ?_
  rw [get?_erase, get?_insert]
  by_cases hk : k = k'
  · subst hk
    rw [if_pos rfl]
    exact (Option.isNone_iff_eq_none.mp (by simpa [contains_eq_isSome] using absent)).symm
  · simp [hk]

theorem SortedSet.erase_insert {κ : Type} [Ord κ] [Std.TransOrd κ] [Std.LawfulEqOrd κ]
    [DecidableEq κ] {s : SortedSet κ} {k : κ} (absent : s.contains k = false) :
    (s.insert k).erase k = s :=
  congrArg SortedSet.mk (SortedMap.erase_insert absent ())

namespace Neuron

section Lists

variable {n : Neuron} {c : ConnectionId}

theorem removeInput_addInput (h : n.Traced) (absent : n.inputs.contains c = false) :
    (n.addInput c).removeInput c = n := by
  have inputs_eq : (n.inputs.insert c).erase c = n.inputs := SortedSet.erase_insert absent
  have eligibility_eq : (n.trace.eligibility.insert c 0).erase c = n.trace.eligibility :=
    SortedMap.erase_insert ((h.eligibility c).trans absent) 0
  have extended_eq : ((n.trace.extended.mapValues fun _ row => row.insert c 0).mapValues
      fun _ row => row.erase c) = n.trace.extended := by
    refine SortedMap.eq_of_get?_eq fun k => ?_
    rw [SortedMap.get?_mapValues, SortedMap.get?_mapValues]
    cases hr : n.trace.extended.get? k with
    | none => rfl
    | some row =>
      exact congrArg some (SortedMap.erase_insert ((h.rows k row hr c).trans absent) 0)
  simp only [removeInput, addInput, inputs_eq, eligibility_eq, extended_eq]

/-- A neuron that is gated into already keeps its traces open when another gate goes. -/
theorem removeGated_addGated (h : n.Traced) (absent : n.gated.contains c = false) :
    (n.addGated c).removeGated c = n := by
  have gated_eq : (n.gated.insert c).erase c = n.gated := SortedSet.erase_insert absent
  have others : n.gated.toList.any (·.target == c.target) = n.trace.extended.contains c.target := by
    rw [Bool.eq_iff_iff, any_target_iff]
    exact (h.extended c.target).symm
  cases hopen : n.trace.extended.contains c.target with
  | true => simp [removeGated, addGated, gated_eq, others, hopen]
  | false =>
    have extended_eq := SortedMap.erase_insert hopen (n.inputs.toMap 0)
    have influences_eq := SortedMap.erase_insert ((h.influences c.target).trans hopen) (0 : Float)
    simp [removeGated, addGated, gated_eq, others, hopen, extended_eq, influences_eq]

end Lists

end Neuron

namespace Graph

section Inverses

variable {g : Graph} {c : ConnectionId} {x : NeuronId}

theorem ungated_of_free (hfree : g.gater? c = none) : g.ungated c = g := by
  rw [ungated, hfree]

theorem detach_attach (h : g.Linked) (hc : c.isSelf = false)
    (absent : g.connections.contains c = false) (weight : Float) : (g.attach c weight).detach c = g := by
  have ends_ne : c.source ≠ c.target := by simpa [ConnectionId.isSelf] using hc
  have unlisted {id : NeuronId} {n : Neuron} (hn : g.neurons.get? id = some n) :
      n.inputs.contains c = false ∧ n.projected.contains c = false := by
    constructor
    · refine Bool.eq_false_iff.mpr fun hin => ?_
      simp [((h.inputs_iff id n hn c).mp hin).2] at absent
    · refine Bool.eq_false_iff.mpr fun hin => ?_
      simp [((h.projected_iff id n hn c).mp hin).2] at absent
  have neurons_eq : ((g.attach c weight).detach c).neurons = g.neurons := by
    refine SortedMap.eq_of_get?_eq fun id => ?_
    simp only [detach, attach, SortedMap.get?_modify]
    cases hn : g.neurons.get? id with
    | none => simp
    | some n =>
      obtain ⟨not_input, not_projected⟩ := unlisted hn
      by_cases hs : c.source = id
      · have ht : c.target ≠ id := fun e => ends_ne (hs.trans e.symm)
        simp [hs, ht, SortedSet.erase_insert not_projected]
      · by_cases ht : c.target = id
        · simp [hs, ht, Neuron.removeInput_addInput (h.traced id n hn) not_input]
        · simp [hs, ht]
  have connections_eq : ((g.attach c weight).detach c).connections = g.connections :=
    SortedMap.erase_insert absent _
  rw [Graph.mk.injEq]
  exact ⟨neurons_eq, connections_eq⟩

theorem withNeuron_withNeuron (g : Graph) (id : NeuronId) (f f' : Neuron → Neuron) :
    (g.withNeuron id f).withNeuron id f' = g.withNeuron id fun n => f' (f n) := by
  have neurons_eq : ((g.withNeuron id f).withNeuron id f').neurons =
      (g.withNeuron id fun n => f' (f n)).neurons := by
    refine SortedMap.eq_of_get?_eq fun id' => ?_
    simp only [withNeuron_get?]
    by_cases hid : id = id'
    · simp only [hid, if_true, Option.map_map, Function.comp_def]
    · simp only [hid, if_false]
  exact congrArg (Graph.mk · g.connections) neurons_eq

theorem withNeuron_congr {id : NeuronId} {f f' : Neuron → Neuron}
    (h : ∀ n, g.neurons.get? id = some n → f n = f' n) : g.withNeuron id f = g.withNeuron id f' := by
  have neurons_eq : (g.withNeuron id f).neurons = (g.withNeuron id f').neurons := by
    refine SortedMap.eq_of_get?_eq fun id' => ?_
    rw [withNeuron_get?, withNeuron_get?]
    split
    · rename_i hid
      subst hid
      cases hn : g.neurons.get? id with
      | none => rfl
      | some n => exact congrArg some (h n hn)
    · rfl
  exact congrArg (Graph.mk · g.connections) neurons_eq

theorem withNeuron_of_fixed {id : NeuronId} {f : Neuron → Neuron}
    (hf : ∀ n, g.neurons.get? id = some n → f n = n) : g.withNeuron id f = g := by
  have unchanged : (g.withNeuron id fun n => n).neurons = g.neurons :=
    SortedMap.eq_of_get?_eq fun id' => by simp [withNeuron_get?]
  exact (withNeuron_congr hf).trans (congrArg (Graph.mk · g.connections) unchanged)

theorem withConnection_withConnection (g : Graph) (c : ConnectionId) (u u' : Connection → Connection) :
    (g.withConnection c u).withConnection c u' = g.withConnection c fun d => u' (u d) := by
  cases hs : c.isSelf with
  | true =>
    simp only [withConnection, hs, if_true]
    exact withNeuron_withNeuron g c.source _ _
  | false =>
    simp only [withConnection, hs, Bool.false_eq_true, if_false]
    refine congrArg (Graph.mk g.neurons) (SortedMap.eq_of_get?_eq fun c' => ?_)
    simp only [SortedMap.get?_modify]
    by_cases hc : c = c'
    · simp only [hc, if_true, Option.map_map, Function.comp_def]
    · simp only [hc, if_false]

theorem withConnection_of_fixed {u : Connection → Connection}
    (hu : ∀ d, g.connection? c = some d → u d = d) : g.withConnection c u = g := by
  cases hs : c.isSelf with
  | true =>
    rw [withConnection, if_pos hs]
    refine withNeuron_of_fixed fun n hn => ?_
    have self_eq := hu n.selfConnection (by rw [connection?, if_pos hs, hn]; rfl)
    simp only [self_eq]
  | false =>
    rw [withConnection, if_neg (by simp [hs])]
    refine congrArg (Graph.mk g.neurons) (SortedMap.eq_of_get?_eq fun c' => ?_)
    rw [SortedMap.get?_modify]
    split
    · rename_i hcc
      subst hcc
      rw [connection?_of_not_isSelf hs] at hu
      cases hd : g.connections.get? c with
      | none => rfl
      | some d => exact congrArg some (hu d hd)
    · rfl

/-- A change of a neuron that is blind to its self-connection can be made before or after a change of
any connection. -/
theorem withConnection_withNeuron (g : Graph) (c : ConnectionId) (id : NeuronId)
    {f : Neuron → Neuron} (u : Connection → Connection)
    (hf : ∀ n, f { n with selfConnection := u n.selfConnection } =
      { f n with selfConnection := u (f n).selfConnection }) :
    (g.withNeuron id f).withConnection c u = (g.withConnection c u).withNeuron id f := by
  cases hs : c.isSelf with
  | false => simp only [withConnection, hs, Bool.false_eq_true, if_false, withNeuron]
  | true =>
    simp only [withConnection, hs, if_true]
    have neurons_eq : ((g.withNeuron id f).withNeuron c.source fun n =>
          { n with selfConnection := u n.selfConnection }).neurons =
        ((g.withNeuron c.source fun n =>
          { n with selfConnection := u n.selfConnection }).withNeuron id f).neurons := by
      refine SortedMap.eq_of_get?_eq fun id' => ?_
      simp only [withNeuron_get?]
      cases hn : g.neurons.get? id' with
      | none => simp
      | some n =>
        by_cases hid : id = id' <;> by_cases hc : c.source = id'
        · simp only [hid, hc, if_true, Option.map_some, hf]
        · simp only [hid, hc, if_true, if_false]
        · simp only [hid, hc, if_true, if_false]
        · simp only [hid, hc, if_false]
    exact congrArg (Graph.mk · g.connections) neurons_eq

theorem dropGater_setGater (h : g.Consistent) (hfree : g.gater? c = none) (x : NeuronId) :
    (g.setGater c x).dropGater c x = g := by
  have kept (d : Connection) (hd : g.connection? c = some d) :
      ({ d with gater := none, gain := 1 } : Connection) = d := by
    have gater_eq : d.gater = none := by simpa [gater?, hd] using hfree
    have gain_eq := h.ungated_gain c d hd gater_eq
    cases d
    simp_all
  have closed (n : Neuron) (hn : g.neurons.get? x = some n) : (n.addGated c).removeGated c = n := by
    refine Neuron.removeGated_addGated (h.traced x n hn) (Bool.eq_false_iff.mpr fun hg => ?_)
    simp [(h.gated_iff x n hn c).mp hg] at hfree
  rw [dropGater, setGater, withConnection_withNeuron (f := (·.addGated c)) _ c x _ fun _ => rfl,
    withNeuron_withNeuron, withConnection_withConnection, withConnection_of_fixed kept]
  exact withNeuron_of_fixed closed

theorem disabled_enabled (h : g.Consistent) {id : NeuronId} (off : g.contains (.loop id) = false)
    (weight : Float) : (g.enabled id weight).disabled id = g := by
  have neurons_eq : ((g.enabled id weight).disabled id).neurons = g.neurons := by
    refine SortedMap.eq_of_get?_eq fun id' => ?_
    simp only [disabled, enabled, withNeuron_get?]
    by_cases hid : id = id'
    · subst hid
      cases hn : g.neurons.get? id with
      | none => simp
      | some n =>
        have disconnected : n.selfConnected = false := by simpa [contains_loop, hn] using off
        have weight_eq := h.disabled_weight id n hn disconnected
        simp [← weight_eq, ← disconnected]
    · simp [hid]
  rw [Graph.mk.injEq]
  exact ⟨neurons_eq, rfl⟩

theorem gater?_enabled (g : Graph) (id : NeuronId) (weight : Float) (c : ConnectionId) :
    (g.enabled id weight).gater? c = g.gater? c := by
  rw [gater?, gater?, enabled, connection?_withNeuron]
  split
  · rename_i hc
    subst hc
    rw [connection?_loop]
    cases g.neurons.get? id <;> rfl
  · rfl

theorem disconnected_connected (h : g.Consistent) (absent : g.contains c = false) (weight : Float) :
    (g.connected c weight).disconnected c = g := by
  have hfree : g.gater? c = none := by
    cases hg : g.gater? c with
    | none => rfl
    | some x => simp [(h.gater_mem c x hg).1] at absent
  unfold connected disconnected
  cases hs : c.isSelf with
  | true =>
    have enabled_free := (gater?_enabled g c.source weight c).trans hfree
    rw [eq_loop_of_isSelf hs] at absent
    rw [if_pos rfl, if_pos rfl, ungated_of_free enabled_free]
    exact disabled_enabled h absent weight
  | false =>
    rw [contains_of_not_isSelf hs] at absent
    have attached_free : (g.attach c weight).gater? c = none :=
      (gater?_attach hs absent weight c).trans hfree
    simp only [Bool.false_eq_true, if_false, absent]
    rw [ungated_of_free attached_free]
    exact detach_attach h.toLinked hs absent weight

end Inverses

section Runs

variable {σ : Type} {g : Graph} {c : ConnectionId}

/-- Where two neurons are not connected, connecting them can fail only with the draw of the weight. -/
theorem project_fresh (hs : g.neurons.contains c.source) (ht : g.neurons.contains c.target)
    (absent : g.contains c = false) (weight : Option Float) (draw : EStateM NetworkError σ Float)
    (r : σ) :
    (∃ w r', (project c.source c.target weight draw).run (g, r) = .ok c (g.connected c w, r')) ∨
      weight = none ∧ c.isSelf = false ∧ ∃ e r', draw.run r = .error e r' ∧
        (project c.source c.target weight draw).run (g, r) = .error e (g, r') := by
  cases weight with
  | some w => exact .inl ⟨w, r, project_run hs ht⟩
  | none =>
    rcases project_cases c.source c.target none draw g r with
      ⟨id, rfl | rfl, missing, -⟩ | ⟨-, -, ⟨hst, heq⟩ | ⟨hne, hc, -⟩ | ⟨hne, hc, heq⟩⟩
    · simp [hs] at missing
    · simp [ht] at missing
    · refine .inl ⟨1, r, ?_⟩
      rw [connected, if_pos (by simp [ConnectionId.isSelf, hst])]
      exact heq
    · have hself : c.isSelf = false := by simp [ConnectionId.isSelf, hne]
      rw [contains_of_not_isSelf hself] at absent
      simp [absent] at hc
    · have hself : c.isSelf = false := by simp [ConnectionId.isSelf, hne]
      cases hr : draw.run r with
      | ok w r' =>
        refine .inl ⟨w, r', ?_⟩
        simp only [hr] at heq
        rw [heq, connected, if_neg (by simp [hself]), if_neg (by simp [hc])]
      | error e r' =>
        simp only [hr] at heq
        exact .inr ⟨rfl, hself, e, r', rfl, heq⟩

/-- Breaking a new connection, and ungating one that was just gated, give back the very graph. -/
theorem edits_undone (h : g.Consistent) :
    (∀ (source target : NeuronId) (weight : Option Float) (draw : EStateM NetworkError σ Float) (r : σ),
      g.neurons.contains source → g.neurons.contains target → g.contains ⟨source, target⟩ = false →
      (∃ g' r', (project source target weight draw).run (g, r) = .ok ⟨source, target⟩ (g', r') ∧
        g'.contains ⟨source, target⟩ ∧ (disconnect source target).run g' = .ok () g) ∨
      weight = none ∧ source ≠ target ∧ ∃ e r', draw.run r = .error e r' ∧
        (project source target weight draw).run (g, r) = .error e (g, r')) ∧
    ∀ (x : NeuronId) (c : ConnectionId), g.neurons.contains x → g.contains c → g.gater? c = none →
      ∃ g', (gate x c).run g = .ok () g' ∧ g'.gater? c = some x ∧ (ungate c).run g' = .ok () g := by
  refine ⟨fun source target weight draw r hs ht absent => ?_, fun x c hx hc hfree => ?_⟩
  · rcases project_fresh (c := ⟨source, target⟩) hs ht absent weight draw r with
      ⟨w, r', run_eq⟩ | ⟨weight_eq, regular, e, r', draw_eq, run_eq⟩
    · have made : (g.connected ⟨source, target⟩ w).contains ⟨source, target⟩ := by
        simp [contains_connected (c := ⟨source, target⟩) hs]
      have consistent := h.connected (c := ⟨source, target⟩) hs ht w
      refine .inl ⟨_, r', run_eq, made, ?_⟩
      rw [disconnect_run consistent made, disconnected_connected h absent]
    · exact .inr ⟨weight_eq, by simpa [ConnectionId.isSelf] using regular, e, r', draw_eq, run_eq⟩
  · have gated_eq : g.gatedBy x c = g.setGater c x := by
      rw [gatedBy, hfree, if_neg (by simp), ungated_of_free hfree]
    have now_gated : (g.setGater c x).gater? c = some x := by simp [gater?_setGater hc]
    refine ⟨g.setGater c x, (gate_run h hx hc).trans (by rw [gated_eq]), now_gated, ?_⟩
    have hd := connection?_isSome_of_contains ((contains_setGater g c c x).trans hc)
    rw [ungate_run (h.setGater hc hx hfree).toLinked hd, ungated, now_gated]
    exact congrArg _ (dropGater_setGater h hfree x)

theorem edits_undone_selfGating : ∃ g : Graph, g.Consistent ∧ g.gater? ⟨1, 2⟩ = some 2 ∧
    g.contains (.loop 2) ∧ g.gater? (.loop 2) = none ∧
    (∃ g' r', (project 2 1 none (return 0.5)).run (g, ()) = .ok ⟨2, 1⟩ (g', r') ∧
      g'.contains ⟨2, 1⟩ ∧ (disconnect 2 1).run g' = .ok () g) ∧
    ∃ g', (gate 2 (.loop 2)).run g = .ok () g' ∧ g'.gater? (.loop 2) = some 2 ∧
      (ungate (.loop 2)).run g' = .ok () g := by
  have two : ((({} : Graph).addNeuron 1 .identity 0).addNeuron 2 .tanh 0).Consistent :=
    (consistent_empty.addNeuron rfl .identity 0).addNeuron rfl .tanh 0
  have joined := two.attach (c := ⟨1, 2⟩) rfl rfl rfl rfl 1
  have h := (joined.setGater (c := ⟨1, 2⟩) (x := 2) rfl rfl rfl).enabled 2 1
  obtain ⟨unmade, unmarked⟩ := edits_undone h
  refine ⟨_, h, rfl, rfl, rfl, ?_, unmarked 2 (.loop 2) rfl rfl rfl⟩
  rcases unmade 2 1 none (return 0.5) () rfl rfl rfl with made | ⟨-, -, e, r', draw_eq, -⟩
  · exact made
  · nomatch draw_eq

end Runs

end Graph

end GatedNetwork
