import GatedNetwork.Proofs.Program.Addressing
import GatedNetwork.Proofs.Session.Service

/-! Restoring a network whose graph is no longer the one that its program was compiled from. Either
everything that the program covers is written back and the program is gone, or something is missing
and the network stays as it was. -/

namespace GatedNetwork

/-- Some network holds the program, whatever it has learned since it was compiled. -/
def Program.Issued (p : Program) : Prop := ∃ net : Network, net.Reachable ∧ net.program = some p

/-- Takes a connection off the list of its source and leaves it in the graph. -/
def Graph.unlist (g : Graph) (c : ConnectionId) : Graph :=
  g.withNeuron c.source fun n => { n with projected := n.projected.erase c }

/-- Puts a connection into the graph and on the list of its source. -/
def Graph.enlist (g : Graph) (c : ConnectionId) (d : Connection) : Graph :=
  { g.withNeuron c.source fun n => { n with projected := n.projected.insert c } with
    connections := g.connections.insert c d }

namespace Network

variable {net : Network} {p : Program}

theorem Reachable.anchored (h : net.Reachable) (held : net.program = some p) : p.Anchored := by
  obtain ⟨bound, bare, sound, stands⟩ := h.stands
  cases stands with
  | plain => nomatch sound.bare.symm.trans held
  | compiled q g consistent mirrors =>
    obtain rfl := Option.some.inj held
    exact mirrors.suits.anchored consistent.toLinked
      (sound.layered.of_skeleton_eq mirrors.skeleton.symm)

theorem restore_run_of_ok (held : net.program = some p) {g : Graph}
    (h : p.writeBack.run net.graph = .ok () g) :
    restore.run net = .ok () { net with graph := g, program := none } := by
  rw [restore, bind_of_ok (get_run net), held]
  exact bind_of_ok (onGraph_of_ok h)

theorem restore_run_of_error (held : net.program = some p) {e : NetworkError}
    (h : p.writeBack.run net.graph = .error e net.graph) : restore.run net = .error e net := by
  rw [restore, bind_of_ok (get_run net), held]
  exact bind_of_error (onGraph_of_error h)

theorem restore_run_of_bare (bare : net.program = none) : restore.run net = .ok () net := by
  rw [restore, bind_of_ok (get_run net), bare]
  rfl

/-- Whatever has been done to the graph, restoring writes back all that the program covers, or fails
and changes nothing. A second time, with or without the program, it changes nothing either. -/
theorem restore_all_or_nothing (held : net.program = some p) :
    (p.Resolves net.graph ∧ ∃ g, p.writeBack.run net.graph = .ok () g ∧
        p.Overwrites (p.Covers net.graph) net.graph g ∧
        (p.Issued → net.graph.Filed → ∀ k, g.held? k = (net.graph.held? k).map (p.live k)) ∧
        restore.run net = .ok () { net with graph := g, program := none } ∧
        p.writeBack.run g = .ok () g ∧
        restore.run { net with graph := g, program := none } =
          .ok () { net with graph := g, program := none }) ∨
      ¬ p.Resolves net.graph ∧ ∃ e, p.writeBack.run net.graph = .error e net.graph ∧
        restore.run net = .error e net := by
  rcases p.writeBack_cases net.graph with ⟨there, g, run_eq, written⟩ | ⟨missing, e, fails⟩
  · refine .inl ⟨there, g, run_eq, written, ?_, restore_run_of_ok held run_eq, written.again there,
      restore_run_of_bare rfl⟩
    rintro ⟨net', reachable, held'⟩ filed k
    exact (reachable.anchored held').held?_eq filed there written k
  · exact .inr ⟨missing, e, fails, restore_run_of_error held fails⟩

theorem Reachable.issues (h : net.Reachable) (plain : net.program.isNone) : ∃ p : Program, p.Issued ∧
    p.neurons = net.ids ∧ (∀ k x, net.graph.held? k = some x → p.value? k = some x) ∧
    ∀ c, net.graph.connection? c = none → p.value? (.weight c) = none := by
  obtain ⟨bound, bare, sound, stands⟩ := h.stands
  obtain rfl : bare = net := by
    cases stands with
    | plain => rfl
    | compiled => cases plain
  obtain ⟨p, run_eq, mirrors⟩ := stands.optimize_run sound
  obtain ⟨supply, leaves⟩ := h.performs .optimize
  refine ⟨p, ⟨_, leaves _ _ _ (bind_of_ok (lift_of_ok run_eq)), rfl⟩, mirrors.suits.neurons_eq,
    fun k x hx => ?_, fun c absent => ?_⟩
  · have slotted := mirrors.suits.slot_of_held? sound.consistent.toLinked sound.layered
      (show (bare.graph.held? k).isSome by simp [hx])
    have field : k.isField := by
      cases k with
      | rate | target | error | gradient => cases hx
      | _ => rfl
    have shown : p.live k x = x := by
      have reading_eq : bare.graph.reading k = x := by rw [Graph.reading_eq_getD, hx, Option.getD_some]
      rw [Program.live_eq_view reading_eq, mirrors.agrees k field, reading_eq]
    obtain ⟨slot, hslot⟩ := Option.isSome_iff_exists.mp slotted
    simpa [Program.live, Program.value?, hslot] using shown
  · rw [Program.value?, Option.map_eq_none_iff, Option.eq_none_iff_forall_ne_some]
    intro slot hslot
    obtain ⟨x, -, value_eq⟩ := mirrors.suits.starts.of_slot? hslot
    rw [Graph.value, Graph.connection_eq_error absent] at value_eq
    cases value_eq

/-- Two neurons in a row with a weight of 3, and what may become of their graph: without a neuron or
the connection it does not resolve, with more of them or a shorter list it does. -/
theorem exists_joined : ∃ net : Network, net.Reachable ∧ net.program.isNone ∧
    net.graph.held? (.weight ⟨1, 2⟩) = some 3 ∧ net.graph.connection? ⟨1, 3⟩ = none ∧
    (∃ id ∈ net.ids, ¬ { net.graph with neurons := net.graph.neurons.erase 2 }.Resolves id) ∧
    (∃ id ∈ net.ids,
      ¬ { net.graph with connections := net.graph.connections.erase ⟨1, 2⟩ }.Resolves id) ∧
    let stale := net.graph.withConnection ⟨1, 2⟩ fun d => { d with weight := 1 }
    let grown := (stale.addNeuron 3 .identity 0).enlist ⟨1, 3⟩ { weight := 5 }
    let short := stale.unlist ⟨1, 2⟩
    ((∀ id ∈ net.ids, grown.Resolves id) ∧ grown.Filed ∧ grown.held? (.weight ⟨1, 2⟩) = some 1 ∧
      grown.held? (.weight ⟨1, 3⟩) = some 5) ∧
    (∀ id ∈ net.ids, short.Resolves id) ∧ short.held? (.weight ⟨1, 2⟩) = some 1 ∧
    ∀ id ∈ net.ids, ∀ n ∈ short.neurons.get? id, n.projected.contains ⟨1, 2⟩ = false :=
  exists_reachable [.new 1 [] 1 { biasInit := ⟨0, 0⟩, squash := .identity, mode := .graph },
    .call 0 (.projectNeuron 1 2 (some 3))] (by decide +kernel)

/-- Without the neuron or the connection that it projects, restoring fails. With a neuron and a
connection more it writes the weight that has a slot and keeps the one that has none. -/
theorem restore_all_or_nothing_edited : ∃ (net grown restored : Network) (p : Program), p.Issued ∧
    net.program = some p ∧ p.value? (.weight ⟨1, 2⟩) = some 3 ∧
    (let lost := { net with graph.neurons := net.graph.neurons.erase 2 }
      ∃ e, restore.run lost = .error e lost) ∧
    (let cut := { net with graph.connections := net.graph.connections.erase ⟨1, 2⟩ }
      ∃ e, restore.run cut = .error e cut) ∧
    grown.program = some p ∧ grown.graph.held? (.weight ⟨1, 2⟩) = some 1 ∧
    grown.graph.held? (.weight ⟨1, 3⟩) = some 5 ∧ restore.run grown = .ok () restored ∧
    restored.program = none ∧ restored.graph.held? (.weight ⟨1, 2⟩) = some 3 ∧
    restored.graph.held? (.weight ⟨1, 3⟩) = some 5 := by
  obtain ⟨net, reachable, plain, three, absent, lost, cut, ⟨resolves, filed, one, five⟩, -⟩ :=
    exists_joined
  obtain ⟨p, issued, neurons_eq, values, unslotted⟩ := reachable.issues plain
  let holding (g : Graph) : Network := { net with graph := g, program := some p }
  have held (g : Graph) : (holding g).program = some p := rfl
  have fails (g : Graph) (missing : ∃ id ∈ net.ids, ¬ g.Resolves id) :
      ∃ e, restore.run (holding g) = .error e (holding g) := by
    rcases restore_all_or_nothing (held g) with ⟨there, -⟩ | ⟨-, e, -, fails⟩
    · obtain ⟨id, hid, missing⟩ := missing
      exact absurd (there id (neurons_eq ▸ hid)) missing
    · exact ⟨e, fails⟩
  let stale := net.graph.withConnection ⟨1, 2⟩ fun d => { d with weight := 1 }
  let grown := (stale.addNeuron 3 .identity 0).enlist ⟨1, 3⟩ { weight := 5 }
  rcases restore_all_or_nothing (held grown) with ⟨-, g, -, -, written, run_eq, -⟩ | ⟨missing, -⟩
  · refine ⟨holding net.graph, holding grown, _, p, issued, rfl, values _ _ three, fails _ lost,
      fails _ cut, rfl, one, five, run_eq, rfl, ?_, ?_⟩
    · rw [written issued filed, one, Option.map_some, Program.live, values _ _ three]
      rfl
    · rw [written issued filed, five, Option.map_some, Program.live, unslotted _ absent]
      rfl
  · exact absurd (fun id hid => resolves id (neurons_eq ▸ hid)) missing

/-- A connection that its source does not list keeps the weight that the graph has for it. -/
theorem restore_skips_unlisted : ∃ (net restored : Network) (p : Program), p.Issued ∧
    net.program = some p ∧ restore.run net = .ok () restored ∧ p.value? (.weight ⟨1, 2⟩) = some 3 ∧
    net.graph.held? (.weight ⟨1, 2⟩) = some 1 ∧
    restored.graph.held? (.weight ⟨1, 2⟩) = some 1 := by
  obtain ⟨net, reachable, plain, three, -, -, -, -, resolves, one, short⟩ := exists_joined
  obtain ⟨p, issued, neurons_eq, values, -⟩ := reachable.issues plain
  let stale := net.graph.withConnection ⟨1, 2⟩ fun d => { d with weight := 1 }
  rcases p.writeBack_cases (stale.unlist ⟨1, 2⟩) with ⟨-, g, run_eq, written⟩ | ⟨missing, -⟩
  · refine ⟨{ net with graph := stale.unlist ⟨1, 2⟩, program := some p }, _, p, issued, rfl,
      restore_run_of_ok rfl run_eq, values _ _ three, one, ?_⟩
    rw [written.kept, one]
    rintro ⟨id, hid, own | ⟨n, c, hn, listed, same⟩⟩
    · cases own
    · obtain rfl : ⟨1, 2⟩ = c := by simpa using same
      rw [short id (neurons_eq ▸ hid) n hn] at listed
      cases listed
  · exact absurd (fun id hid => resolves id (neurons_eq ▸ hid)) missing

end Network

end GatedNetwork
