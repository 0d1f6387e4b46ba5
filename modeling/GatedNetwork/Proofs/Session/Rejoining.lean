import GatedNetwork.Proofs.Network.Joining
import GatedNetwork.Proofs.Network.Tuning
import GatedNetwork.Proofs.Session.Twins

/-! Connecting again what is connected, without a weight. A connection of two neurons is found as it
was. The connection of a neuron to itself gets weight 1, whatever weight it had. -/

namespace GatedNetwork

namespace Network

variable {net : Network}

theorem settled_of_bare (bare : net.program = none) : net.settled = net := by
  rw [settled, restore_of_bare bare, after_ok]

/-- Without a weight, two neurons that are connected stay as they are, and nothing is drawn; only the
weight of a neuron's connection to itself is set to 1. Two layers that are wired without a weight keep
what connects them in the same way, and get what is missing. -/
theorem Reachable.reconnects (h : net.Reachable) :
    restore.run net = .ok () net.settled ∧
    (∀ source target, net.graph.contains ⟨source, target⟩ →
      (projectNeuron source target none).run net = .ok ⟨source, target⟩
        (if source = target then
          { net.settled with
            graph := net.settled.graph.withConnection (.loop source) fun d => { d with weight := 1 } }
        else net.settled)) ∧
    ∀ source target wiring link net', (project source target wiring none).run net = .ok link net' →
      net'.settled = net' ∧
      (∀ c, net'.graph.contains c ↔ net.graph.contains c ∨ c ∈ link.connections) ∧
      (∀ c d, net.graph.contains c → net.settled.graph.connection? c = some d →
        net'.graph.connection? c =
          some (if c.isSelf ∧ c ∈ link.connections then { d with weight := 1 } else d)) ∧
      ∀ c ∈ link.connections, ¬ net.graph.contains c →
        ∃ weight, net'.graph.connection? c = some { weight } := by
  obtain ⟨bound, bare, sound, stands⟩ := h.stands
  rw [stands.settled_eq sound]
  refine ⟨stands.restore_run sound, ?_, ?_⟩
  · intro source target there
    rw [stands.contains] at there
    exact stands.reproject_run sound there
  · intro source target wiring link net' run_eq
    obtain ⟨sound', -⟩ := (stands.project_ends sound source target wiring none).of_eq_ok run_eq
    have joined := stands.project_joined sound run_eq
    simp only [stands.contains]
    refine ⟨StandsFor.plain.settled_eq sound', joined.contains, fun c d there hd => ?_,
      fun c hc absent => joined.made sound.consistent hc absent⟩
    by_cases hc : c ∈ link.connections
    · cases self : c.isSelf with
      | true => rw [joined.loops c hc self, hd, if_pos ⟨rfl, hc⟩, Option.map_some]
      | false => rw [joined.standing c self there, hd, if_neg (by simp)]
    · rw [joined.others c hc, hd, if_neg fun both => hc both.2]

theorem exists_halfLoop : ∃ net : Network, net.Reachable ∧ net.graph.contains ⟨1, 2⟩ ∧
    net.graph.contains ⟨2, 2⟩ ∧ net.settled.graph.connection? ⟨2, 2⟩ = some { weight := 0.5 } ∧
    ∃ link net', (project .input .output none none).run net = .ok link net' ∧
      link.connections = [⟨1, 2⟩] := by
  obtain ⟨net, reachable, there, loop, half, wired⟩ : ∃ net : Network, net.Reachable ∧
      net.graph.contains ⟨1, 2⟩ ∧ net.graph.contains ⟨2, 2⟩ ∧
      net.settled.graph.connection? ⟨2, 2⟩ = some { weight := 0.5 } ∧
      Ending (fun link _ => link.connections = [⟨1, 2⟩]) (fun _ _ => False)
        ((project .input .output none none).run net) :=
    exists_reachable [.new 1 [] 1 { biasInit := ⟨0, 0⟩ }, .call 0 (.projectNeuron 1 2 (some 2)),
      .call 0 (.projectNeuron 2 2 (some 0.5))] ⟨_, rfl, rfl, rfl, rfl, by decide +kernel⟩
  exact ⟨net, reachable, there, loop, half, wired.exists_ok⟩

theorem reconnects_halfLoop : ∃ net net' : Network, net.Reachable ∧
    (projectNeuron 1 2 none).run net = .ok ⟨1, 2⟩ net.settled ∧
    (∃ link, (project .input .output none none).run net = .ok link net') ∧
    net'.graph.connection? ⟨2, 2⟩ = some { weight := 0.5 } ∧
    ∀ d, net.settled.graph.connection? ⟨1, 2⟩ = some d → net'.graph.connection? ⟨1, 2⟩ = some d := by
  obtain ⟨net, reachable, there, loop, half, link, net', wired, link_eq⟩ := exists_halfLoop
  obtain ⟨-, alone, layers⟩ := Reachable.reconnects reachable
  obtain ⟨-, -, kept, -⟩ := layers _ _ _ _ _ wired
  refine ⟨net, net', reachable, (alone 1 2 there).trans (by rw [if_neg (by decide)]), ⟨link, wired⟩, ?_,
    fun d hd => ?_⟩
  · rw [kept _ _ loop half, if_neg (by simp [link_eq])]
  · rw [kept _ _ there hd, if_neg (by simp [ConnectionId.isSelf])]

theorem reconnect_overwrites : ∃ net net' : Network, net.Reachable ∧ net.graph.contains ⟨2, 2⟩ ∧
    net.settled.graph.connection? ⟨2, 2⟩ = some { weight := 0.5 } ∧
    (projectNeuron 2 2 none).run net = .ok ⟨2, 2⟩ net' ∧
    net'.settled.graph.connection? ⟨2, 2⟩ = some { weight := 1 } ∧ (0.5 : Float) ≠ 1 := by
  obtain ⟨net, reachable, -, there, half, -⟩ := exists_halfLoop
  obtain ⟨bound, bare, sound, stands⟩ := reachable.stands
  rw [stands.settled_eq sound] at half
  have run_eq : (projectNeuron 2 2 none).run net = _ :=
    stands.reproject_run sound (by rwa [← stands.contains])
  rw [if_pos rfl] at run_eq
  have overwritten :
      (bare.graph.withConnection (.loop 2) fun d => { d with weight := 1 }).connection? ⟨2, 2⟩ =
        some { weight := 1 } := by
    rw [Graph.withConnection_connection?]
    exact congrArg (Option.map fun d => { d with weight := 1 }) half
  refine ⟨net, _, reachable, there, by rwa [stands.settled_eq sound], run_eq, ?_, by decide⟩
  rwa [settled_of_bare (by exact sound.bare)]

end Network

end GatedNetwork
