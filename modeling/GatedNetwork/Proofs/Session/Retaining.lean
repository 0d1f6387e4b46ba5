import GatedNetwork.Proofs.Network.Retaining
import GatedNetwork.Proofs.Session.Mutations

/-! Edits of a network that has learned. Whether its numbers are in the graph or in the memory of a
program, an edit that succeeds keeps each of them, but for those that it sets and for traces that go
with what it takes away. -/

namespace GatedNetwork

/-- The edits that name the neurons, the connections or the layer that they are about. -/
def Call.isTargeted : Call → Bool
  | project .. | projectNeuron .. | gateConnection .. | disconnect .. | addHiddenLayer _ | addNeuron _
  | setBias .. | setSquash .. | setWeight .. | setLayerSquash .. | setLayerBias .. => true
  | _ => false

/-- The numbers that a targeted edit gives. An answer names the connections of a wiring; a self-connection
that is disconnected gets weight 0, and a connection that loses its gater gets gain 1. -/
def Call.sets (net : Network) : Call → Reply → Key → Option Float
  | project _ _ _ weight, .link link => Graph.wired link.connections weight
  | projectNeuron source target weight, _ => Graph.wired [⟨source, target⟩] weight
  | gateConnection gater c, _ => fun k =>
    if net.graph.gater? c = some gater then none else net.graph.resetGain c k
  | disconnect source target, _ => fun k =>
    let c : ConnectionId := ⟨source, target⟩
    if c.isSelf ∧ k = .weight c then some 0 else net.graph.resetGain c k
  | setBias id bias, _ => Graph.biasesOf [id] bias
  | setWeight c weight, _ => fun k => if k = .weight c then some weight else none
  | setLayerBias ref bias, _ => Graph.biasesOf (net.members ref) bias
  | _, _ => fun _ => none

/-- The numbers that go: those of a connection that is broken, and the traces that the gater of a
connection kept for it alone. -/
def Call.drops (net : Network) : Call → Key → Prop
  | gateConnection gater c => fun k => net.graph.gater? c ≠ some gater ∧ net.graph.ClosesWith c k
  | disconnect source target => fun k =>
    let c : ConnectionId := ⟨source, target⟩
    net.graph.ClosesWith c k ∨ c.isSelf = false ∧ k.Concerns c
  | _ => fun _ => False

namespace Network

section Retaining

variable {ids : IdSupply} {net bare : Network}

theorem ends_lifted {α : Type} {act : Edit α} {f : α → Reply} {Q : Reply → Network → Prop}
    (h : Ending (fun x net' => Q (f x) net') (fun _ _ => True) (act.run net)) :
    Ending (fun r s => Q r s.2) (fun _ _ => True)
      ((do let x ← lift act; return f x : Growth Reply).run (ids, net)) :=
  Ending.bind (ends_focus h) fun _ _ done => done

theorem StandsFor.retains_perform (h : bare.StandsFor net) (sound : bare.Sound ids.next []) {c : Call}
    (targeted : c.isTargeted) :
    Ending (fun r s => bare.Retains (c.sets net r) (c.drops net) s.2) (fun _ _ => True)
      (c.perform.run (ids, net)) := by
  cases c with
  | project source target wiring weight =>
    exact ends_lifted (h.retains_project sound source target wiring weight)
  | projectNeuron source target weight =>
    exact ends_lifted (h.retains_projectNeuron sound source target weight)
  | gateConnection gater c => exact ends_lifted (h.retains_gateConnection sound gater c)
  | disconnect source target => exact ends_lifted (h.retains_disconnect sound ⟨source, target⟩)
  | addHiddenLayer size => exact Ending.bind (h.retains_addHiddenLayer sound size) fun _ _ done => done
  | addNeuron ref => exact Ending.bind (h.retains_addNeuron sound ref) fun _ _ done => done
  | setBias id bias => exact ends_lifted (h.retains_setBias sound id bias)
  | setSquash id squash => exact ends_lifted (h.retains_setSquash sound id squash)
  | setWeight c weight => exact ends_lifted (h.retains_setWeight sound c weight)
  | setLayerSquash ref squash => exact ends_lifted (h.retains_setLayerSquash sound ref squash)
  | setLayerBias ref bias => exact ends_lifted (h.retains_setLayerBias sound ref bias)
  | _ => nomatch targeted

theorem ReachableWith.performs (h : net.ReachableWith ids) {c : Call} {r : Reply} {ids' : IdSupply}
    {net' : Network} (run_eq : c.perform.run (ids, net) = .ok r (ids', net')) :
    net'.ReachableWith ids' := by
  obtain ⟨cs, rfl, hnet⟩ := h
  obtain ⟨i, hi⟩ := List.getElem?_of_mem hnet
  obtain ⟨world_eq, there⟩ := World.run_call hi run_eq
  exact .of_run world_eq rfl there

/-- No learned number is lost by an edit: what is there before and after is as it was, unless the edit
sets it, and what is there before is there after, unless it goes with what the edit takes away. -/
theorem ReachableWith.edit_retains (h : net.ReachableWith ids) {c : Call} (targeted : c.isTargeted)
    {r : Reply} {ids' : IdSupply} {net' : Network}
    (run_eq : c.perform.run (ids, net) = .ok r (ids', net')) :
    (∀ k x y, net.live? k = some x → net'.live? k = some y → y = (c.sets net r k).getD x) ∧
    ∀ k, (net.live? k).isSome → (net'.live? k = none ↔ c.drops net k) := by
  obtain ⟨bare, sound, stands⟩ := h.stands
  obtain ⟨bare_eq, retained⟩ := (stands.retains_perform sound targeted).of_eq_ok run_eq
  simp only [stands.live?_eq sound, live?_of_bare bare_eq]
  refine ⟨fun k x y hx hy => ?_, fun k hk => ⟨fun lost => ?_, retained.dropped k hk⟩⟩
  · by_cases gone : c.drops net k
    · cases hy.symm.trans (retained.dropped k (by simp [hx]) gone)
    · exact Option.some.inj (hy.symm.trans (retained.kept k x hx gone))
  · obtain ⟨x, hx⟩ := Option.isSome_iff_exists.mp hk
    by_contra stays
    cases lost.symm.trans (retained.kept k x hx stays)

theorem edit_retains_regated : ∃ (net net' : Network), net.ReachableWith ⟨3⟩ ∧ net.isCompiled ∧
    (Call.gateConnection 1 ⟨1, 2⟩).perform.run (⟨3⟩, net) = .ok .done (⟨3⟩, net') ∧
    net'.live? (.gain ⟨1, 2⟩) = some 1 ∧
    ∀ x, net.live? (.weight ⟨1, 2⟩) = some x → net'.live? (.weight ⟨1, 2⟩) = some x := by
  obtain ⟨start, reachable, gated, there⟩ : ∃ start : Network, start.ReachableWith ⟨3⟩ ∧
      start.graph.gater? ⟨1, 2⟩ = some 2 ∧ start.graph.contains ⟨1, 2⟩ :=
    exists_reachableWith [.new 1 [] 1 { biasInit := ⟨0, 0⟩ }, .call 0 (.projectNeuron 1 2 (some 1)),
      .call 0 (.gateConnection 2 ⟨1, 2⟩)] rfl ⟨_, rfl, rfl, rfl⟩
  obtain ⟨bare, sound, stands⟩ := reachable.stands
  rw [Graph.gater?_of_skeleton_eq stands.skeleton] at gated
  rw [stands.contains] at there
  obtain ⟨p, optimized, mirrors⟩ := stands.optimize_run sound
  let net := { bare with program := some p }
  have compiled : bare.StandsFor net := .compiled p _ sound.consistent mirrors
  have compiles : Call.optimize.perform.run (⟨3⟩, start) = .ok .done (⟨3⟩, net) :=
    bind_of_ok (lift_of_ok optimized)
  have reachable' : net.ReachableWith ⟨3⟩ := reachable.performs compiles
  have source := (sound.consistent.toLinked.ends_of_contains there).1
  obtain ⟨⟨⟩, net', gate_eq⟩ := (compiled.guarded_gateConnection sound 1 ⟨1, 2⟩).iff_passes.mpr
    ⟨source, there⟩
  have run_eq' : (Call.gateConnection 1 ⟨1, 2⟩).perform.run (⟨3⟩, net) = .ok .done (⟨3⟩, net') :=
    bind_of_ok (lift_of_ok gate_eq)
  obtain ⟨same, lost⟩ := ReachableWith.edit_retains reachable' rfl run_eq'
  obtain ⟨d, hd⟩ := Option.isSome_iff_exists.mp (Graph.connection?_isSome_of_contains there)
  have stays {k : Key} {x : Float} (hk : ¬ k.Towards 2) (hx : net.live? k = some x) :
      net'.live? k = some (((Call.gateConnection 1 ⟨1, 2⟩).sets net .done k).getD x) := by
    have kept : net'.live? k ≠ none := fun gone =>
      hk ((lost k (by simp [hx])).mp gone).2.1
    obtain ⟨y, hy⟩ := Option.ne_none_iff_exists'.mp kept
    rw [hy, same k x y hx hy]
  refine ⟨net, net', reachable', rfl, run_eq', ?_, fun x hx => ?_⟩
  · have gain : net.live? (.gain ⟨1, 2⟩) = some d.gain := by
      rw [compiled.live?_eq sound, Graph.held?, hd]
      rfl
    rw [stays id gain]
    simp [Call.sets, net, gated, Graph.resetGain]
  · rw [stays id hx]
    simp [Call.sets, net, gated, Graph.resetGain]

end Retaining

end Network

end GatedNetwork
