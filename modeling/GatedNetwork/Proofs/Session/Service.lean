import GatedNetwork.Proofs.Network.Copying
import GatedNetwork.Proofs.Network.Redrawing
import GatedNetwork.Proofs.Session.Twins

/-! Calls that succeed. No index of a reachable network names what is not there, so a call fails
only if what the caller gives is wrong, or if a number is to be drawn from a range that has none. -/

namespace GatedNetwork

namespace Network

def Succeeds {α : Type} (net : Network) (act : Edit α) : Prop := ∃ x net', act.run net = .ok x net'

/-- What the network answers to its callers. Drawing from a range whose width overflows ends in a
fatal error, which no caller gets to see. -/
structure Serves (net : Network) : Prop where
  activates : ∀ values, net.Succeeds (activate values) ↔ values.length = net.input.size
  answers : ∀ values output net', (activate values).run net = .ok output net' →
    output.length = net.output.size
  propagates : ∀ rate targets, net.Succeeds (propagate rate targets) ↔
    (rate.isFinite ∧ 0 < rate) ∧ targets.length = net.output.size
  restores : net.Succeeds restore
  optimizes : ∃ p net', optimize.run net = .ok p net' ∧ net'.program = some p
  switches : ∀ enabled, net.Succeeds (setOptimize enabled)
  clears : net.Succeeds clear
  strips : net.Succeeds disconnectAll
  describes : ∃ s, net.toSnapshot = .ok s
  copies : ∀ ids, ∃ copy ids', net.copy.run ids = .ok copy ids'
  resets : ∀ e net', reset.run net = .error e net' → net.Parched e
  connects : ∀ e net', connect.run net = .error e net' → net.Parched e
  grows : ∀ size ids e s, (addHiddenLayer size).run (ids, net) = .error e s → net.Parched e
  joins : ∀ source target weight e net', (projectNeuron source target weight).run net = .error e net' →
    ¬ (net.graph.neurons.contains source ∧ net.graph.neurons.contains target) ∨ net.Parched e
  gates : ∀ gater c, net.Succeeds (gateConnection gater c) ↔
    net.graph.neurons.contains gater ∧ net.graph.contains c
  disconnects : ∀ source target,
    net.Succeeds (disconnect source target) ↔ net.graph.contains ⟨source, target⟩
  biases : ∀ id bias, net.Succeeds (setBias id bias) ↔ net.graph.neurons.contains id
  squashes : ∀ id squash, net.Succeeds (setSquash id squash) ↔ net.graph.neurons.contains id
  weighs : ∀ c weight, net.Succeeds (setWeight c weight) ↔ net.graph.contains c
  checks : ∀ p, net.program = some p → p.inputs.length = net.input.size ∧
    p.outputs.length = net.output.size ∧ p.targets.length = net.output.size

section Service

variable {bound : NeuronId} {net bare : Network}

theorem StandsFor.serves (h : bare.StandsFor net) (sound : bare.Sound bound []) : net.Serves where
  activates values := (h.guarded_activate sound values).iff_passes
  answers _ _ _ run_eq := h.length_activate sound run_eq
  propagates rate targets := by
    rw [← Program.validRate_iff]
    exact (h.guarded_propagate sound rate targets).iff_passes
  restores := ⟨_, _, h.restore_run sound⟩
  optimizes := by
    obtain ⟨p, run_eq, -⟩ := h.optimize_run sound
    exact ⟨p, _, run_eq, rfl⟩
  switches enabled := ⟨_, _, h.setOptimize_run sound enabled⟩
  clears := ⟨_, _, h.clear_run sound⟩
  strips := ⟨_, _, h.disconnectAll_run sound⟩
  describes := ⟨_, (h.toSnapshot_eq sound).trans sound.toSnapshot_eq⟩
  copies ids := by
    obtain ⟨copy, run_eq, -⟩ := h.copy_ok sound ids
    exact ⟨copy, _, run_eq⟩
  resets _ _ run_eq := (h.reset_ends sound).of_eq_error run_eq
  connects _ _ run_eq := (h.connect_ends sound).of_eq_error run_eq
  grows size ids _ _ run_eq := (h.addHiddenLayer_ends sound size ids).of_eq_error run_eq
  joins source target weight _ _ run_eq :=
    ((h.projectNeuron_ends sound source target weight).of_eq_error run_eq).imp_left (·.2)
  gates gater c := (h.guarded_gateConnection sound gater c).iff_passes
  disconnects source target := (h.guarded_disconnect sound source target).iff_passes
  biases id bias := (h.guarded_setBias sound id bias).iff_passes
  squashes id squash := (h.guarded_setSquash sound id squash).iff_passes
  weighs c weight := (h.guarded_setWeight sound c weight).iff_passes
  checks p held := by
    cases h with
    | plain => nomatch sound.bare.symm.trans held
    | compiled q g consistent mirrors =>
      obtain rfl := Option.some.inj held
      have suits := mirrors.suits
      refine ⟨?_, ?_, ?_⟩
      · simp [suits.inputs, Layer.size]
      · simp [suits.outputs, Layer.size]
      · simp [suits.targets]

/-- In either mode a reachable network serves its callers. -/
theorem Reachable.serves_callers (h : net.Reachable) : net.Serves := by
  obtain ⟨bound, bare, sound, stands⟩ := h.stands
  exact stands.serves sound

theorem Reachable.performs (h : net.Reachable) (c : Call) : ∃ ids, ∀ r ids' net',
    c.perform.run (ids, net) = .ok r (ids', net') → net'.Reachable := by
  obtain ⟨cs, hnet⟩ := h
  obtain ⟨i, hi⟩ := List.getElem?_of_mem hnet
  refine ⟨(({} : World).run cs).ids, fun r ids' net' run_eq => ?_⟩
  obtain ⟨world_eq, there⟩ := World.run_call hi run_eq
  exact .of_run world_eq there

theorem serves_callers_compiled : ∃ (net : Network) (p : Program), net.Reachable ∧ net.program = some p ∧
    net.Serves ∧ p.inputs.length = net.input.size := by
  obtain ⟨net, reachable, -⟩ := exists_selfGating
  obtain ⟨p, net', run_eq, held⟩ := (Reachable.serves_callers reachable).optimizes
  obtain ⟨ids, leaves⟩ := reachable.performs .optimize
  have reachable' : net'.Reachable := leaves _ _ _ (bind_of_ok (lift_of_ok run_eq))
  have serves := Reachable.serves_callers reachable'
  exact ⟨net', p, reachable', held, serves, (serves.checks p held).1⟩

end Service

end Network

end GatedNetwork
