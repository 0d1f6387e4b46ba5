import GatedNetwork.Proofs.Network.Gains
import GatedNetwork.Proofs.Network.Refusing
import GatedNetwork.Proofs.Session.Lasting
import GatedNetwork.Proofs.Session.Twins

/-! Gains track gaters. The law is an invariant of the runs over graphs; every other run leaves the
same numbers as one of those. -/

namespace GatedNetwork

open GatedNetwork.Graph Network

section Calls

variable {floor bound : NeuronId} {α : Type} {s : IdSupply × Network}

theorem tended_perform {c : Call} (work : c.isControl = false) (h : Grown Tended floor s)
    (sound : s.2.Sound bound []) :
    Ending (fun _ => Grown Tended floor) (fun _ s => True ∧ Grown Tended floor s) (c.perform.run s) := by
  have others (edit : c.isEdit) := lastsGrowth_tended.endures_perform edit
    (fun noise _ _ => drawn_any noise.draw) s h
  cases c with
  | activate input =>
    refine ends_reply h.1 ((Upholds.activate h.2 sound input).mono (fun _ _ kept => kept) ?_) .vector
    rintro e net rfl
    exact ⟨trivial, h.2⟩
  | propagate rate target =>
    exact endures_edit (P := Tended) (fun _ => (upholds_propagate rate target).endures) (fun _ => .done) s h
  | clear => exact endures_edit (fun _ => upholds_clear.endures) (fun _ => .done) s h
  | reset => exact endures_edit (fun _ => upholds_reset.endures) (fun _ => .done) s h
  | optimize => nomatch work
  | setOptimize enabled => nomatch work
  | _ => exact others rfl

theorem Network.Upholds.sound {P : Graph → Prop} {net other : Network} (h : net.Upholds P)
    (twins : Network.Twins bound other net) : net.Sound bound [] := by
  obtain ⟨bare, mode, sound, -, stands⟩ := twins
  exact stands.eq_of_bare h.bare ▸ sound.withMode mode

end Calls

theorem inherited_tended : World.Inherited Tended where
  later le h := Upholds.mono h fun _ governed => governed.mono le
  copies h := ⟨rfl, h.mode_eq, governed_empty _⟩

namespace World

section Steps

variable {w other : World}

/-- A request of a plain run keeps the law. What the networks hold is known from another world with
twins of them. -/
theorem Holds.plain_step (h : w.Holds Tended) (twins : other.Twins w) {c : Request}
    (plain_eq : c.plain = some c) : (w.step c).2.Holds Tended := by
  refine (Holds.step lastsGrowth_tended inherited_tended h (fun config brought _ => ?_)
    fun i call net call_eq hi => ?_).holds
  · have mode_eq : config.withMode .graph = config := by
      cases c <;> simp_all [Request.config?, Request.plain]
    exact ⟨rfl, mode_eq ▸ rfl, governed_empty _⟩
  · obtain rfl := call_eq
    have work : call.isControl = false := by
      by_contra control
      simp [Request.plain, control] at plain_eq
    have tended := h net (List.mem_of_getElem? hi)
    rcases twins.at i with ⟨a, b, -, hb, twin⟩ | ⟨-, absent⟩
    · obtain rfl := Option.some.inj (hb.symm.trans hi)
      exact tended_perform work ⟨Nat.le_refl _, tended⟩ (Upholds.sound tended twin)
    · cases hi.symm.trans absent

theorem Holds.plain_run {w w' : World} (h : w'.Holds Tended) (twins : w.Twins w') (cs : List Request) :
    (w'.run (cs.filterMap Request.plain)).Holds Tended := by
  induction cs generalizing w w' with
  | nil => exact h
  | cons c cs ih =>
    cases hc : c.plain with
    | none =>
      rw [List.filterMap_cons_none hc]
      exact ih h (twins.control hc).2
    | some d =>
      rw [List.filterMap_cons_some hc]
      exact ih (h.plain_step twins (Request.plain_plain hc)) (twins.step hc).2

end Steps

end World

namespace Network

variable {net bare : Network} {bound : NeuronId}

theorem Reachable.governed (h : net.Reachable) : ∃ (bound : NeuronId) (bare : Network),
    bare.Sound bound [] ∧ bare.StandsFor net ∧ bare.graph.Governed bound := by
  obtain ⟨cs, hnet⟩ := h
  obtain ⟨i, hi⟩ := List.getElem?_of_mem hnet
  have start : ({} : World).Holds Tended := fun _ absent => nomatch absent
  have tended := start.plain_run World.Twins.empty cs
  have twins := (World.Twins.empty.run cs).2
  rcases twins.at i with ⟨a, b, ha, hb, bare, mode, sound, stands, stands'⟩ | ⟨ha, -⟩
  · obtain rfl := Option.some.inj (ha.symm.trans hi)
    have upholds := tended b (List.mem_of_getElem? hb)
    have governed : bare.graph.Governed (({} : World).run cs).ids.next := by
      rw [twins.1]
      obtain rfl := stands'.eq_of_bare upholds.bare
      exact upholds.graph
    exact ⟨_, bare, sound, stands, governed⟩
  · nomatch ha.symm.trans hi

theorem StandsFor.driven_of_activate (h : bare.StandsFor net) (sound : bare.Sound bound [])
    {values answer : List Float} {net' : Network}
    (run_eq : (activate values).run net = .ok answer net') : net'.settled.graph.Driven := by
  have length_eq : values.length = bare.input.size := by
    have accepted := (h.guarded_activate sound values).iff_passes.mp ⟨answer, net', run_eq⟩
    cases h <;> exact accepted
  obtain ⟨x, live, net'', run_eq', walk_run, consistent, skeleton_eq, stands⟩ :=
    h.walks_activate sound length_eq
  obtain ⟨rfl, rfl⟩ : answer = x ∧ net' = net'' := by
    simpa using run_eq.symm.trans run_eq'
  have sound' := sound.withGraph ⟨consistent, (keys_of_skeleton_eq skeleton_eq).symm⟩ bare.random
  rw [stands.settled_eq sound']
  exact driven_of_walkForward sound.consistent.toLinked sound.layered length_eq walk_run

/-- Gains track gaters: with the numbers taken back, a connection without a gater has gain 1, one
with a gater has gain 1 or the activation of its gater, and after a pass it is the activation. -/
theorem Reachable.gains_track (h : net.Reachable) :
    restore.run net = .ok () net.settled ∧
    (∀ c d, net.settled.graph.connection? c = some d →
      (d.gater = none → d.gain = 1) ∧
      ∀ x, d.gater = some x → ∃ n, net.settled.graph.neurons.get? x = some n ∧
        (d.gain = 1 ∨ d.gain = n.activation)) ∧
    ∀ values answer net', (activate values).run net = .ok answer net' →
      net'.settled.graph.Driven := by
  obtain ⟨bound, bare, sound, stands, governed⟩ := h.governed
  rw [stands.settled_eq sound]
  refine ⟨stands.restore_run sound, fun c d hd => ⟨governed.ungated c d hd, fun x hx => ?_⟩,
    fun values answer net' run_eq => stands.driven_of_activate sound run_eq⟩
  have gater_eq : bare.graph.gater? c = some x := by
    rw [gater?, hd]
    exact hx
  obtain ⟨n, hn⟩ := get?_of_contains (sound.consistent.gater_mem c x gater_eq).2
  exact ⟨n, hn, governed.gated c d x n hd hx hn⟩

theorem gains_track_selfGating : ∃ net : Network, net.Reachable ∧
    net.settled.graph.gater? ⟨1, 2⟩ = some 2 ∧
    ∃ answer net', (activate [1]).run net = .ok answer net' ∧ net'.settled.graph.Driven := by
  obtain ⟨net, reachable, size_eq, -, -, gater_eq⟩ := exists_selfGating
  obtain ⟨bound, bare, sound, stands⟩ := reachable.stands
  have accepted : ([1] : List Float).length = net.input.size := size_eq.symm
  obtain ⟨answer, net', run_eq⟩ := (stands.guarded_activate sound [1]).iff_passes.mpr accepted
  obtain ⟨-, -, driven⟩ := Reachable.gains_track reachable
  exact ⟨net, reachable, gater_eq, answer, net', run_eq, driven [1] answer net' run_eq⟩

end Network

end GatedNetwork
