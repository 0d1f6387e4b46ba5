import GatedNetwork.Proofs.Network.Drawing
import GatedNetwork.Proofs.Session.Twins

/-! Calls that are refused. They have checked all that they are given before they change anything,
so what is left of a refused call is at most that the numbers are back in the graph. -/

namespace GatedNetwork

open Network

def Call.isChecked : Call → Bool
  | activate _ | propagate .. | project .. | projectNeuron .. | gate .. | gateConnection ..
  | disconnect .. | addNeuron _ | setBias .. | setSquash .. | setWeight .. | setLayerSquash ..
  | setLayerBias .. => true
  | _ => false

namespace Network

section Refusals

variable {α : Type} {bound : NeuronId} {net bare : Network}

/-- A failure that is not fatal leaves the numbers and the free ids as they were. -/
def Undone (bare : Network) (ids : IdSupply) (r : EStateM.Result NetworkError (IdSupply × Network) α) :
    Prop :=
  Ending (fun _ _ => True) (fun e s => e.isFatal = false → s.1 = ids ∧ bare.StandsFor s.2) r

theorem Parched.isFatal {e : NetworkError} (h : net.Parched e) : e.isFatal = true := by
  rw [h.1]
  rfl

theorem undone_reply {act : Edit α} {ids : IdSupply} (reply : α → Reply)
    (h : Ending (fun _ _ => True) (fun e net' => e.isFatal = false → bare.StandsFor net') (act.run net)) :
    bare.Undone ids ((lift act >>= fun x => pure (reply x)).run (ids, net)) :=
  Ending.bind (Q := fun _ _ => True) (ends_focus (h.mono (fun _ _ _ => trivial)
    fun _ _ kept mild => ⟨rfl, kept mild⟩)) fun _ _ _ => trivial

theorem Guarded.undone {act : Edit α} {condition : Prop} (guard : Guarded net condition act)
    (h : bare.StandsFor net) {ids : IdSupply} (reply : α → Reply) :
    bare.Undone ids ((lift act >>= fun x => pure (reply x)).run (ids, net)) := by
  refine undone_reply reply ?_
  cases run_eq : act.run net with
  | ok x net' => trivial
  | error e net' =>
    intro _
    rwa [guard.unchanged run_eq]

theorem StandsFor.undone (h : bare.StandsFor net) (sound : bare.Sound bound []) {c : Call}
    (checked : c.isChecked) (ids : IdSupply) : bare.Undone ids (c.perform.run (ids, net)) := by
  cases c with
  | activate values => exact (h.guarded_activate sound values).undone h _
  | propagate rate targets => exact (h.guarded_propagate sound rate targets).undone h fun _ => .done
  | gate gater link gating => exact (h.guarded_gate sound gater link gating).undone h fun _ => .done
  | gateConnection gater c => exact (h.guarded_gateConnection sound gater c).undone h fun _ => .done
  | disconnect source target => exact (h.guarded_disconnect sound source target).undone h fun _ => .done
  | setBias id bias => exact (h.guarded_setBias sound id bias).undone h fun _ => .done
  | setSquash id squash => exact (h.guarded_setSquash sound id squash).undone h fun _ => .done
  | setWeight c weight => exact (h.guarded_setWeight sound c weight).undone h fun _ => .done
  | setLayerSquash ref squash =>
    exact (h.guarded_setLayerSquash sound ref squash).undone h fun _ => .done
  | setLayerBias ref bias => exact (h.guarded_setLayerBias sound ref bias).undone h fun _ => .done
  | project source target wiring weight =>
    refine undone_reply _ ((h.project_ends sound source target wiring weight).mono
      (fun _ _ _ => trivial) ?_)
    rintro e net' (⟨kept, -⟩ | parched) mild
    · exact kept
    · simp [parched.isFatal] at mild
  | projectNeuron source target weight =>
    refine undone_reply _ ((h.projectNeuron_ends sound source target weight).mono
      (fun _ _ _ => trivial) ?_)
    rintro e net' (⟨rfl, -⟩ | parched) mild
    · exact h
    · simp [parched.isFatal] at mild
  | addNeuron ref =>
    refine Ending.bind (Q := fun _ _ => True) ((h.addNeuron_ends sound ref ids).mono
      (fun _ _ _ => trivial) ?_) fun _ _ _ => trivial
    rintro e s (⟨rfl, -⟩ | parched) mild
    · exact ⟨rfl, h⟩
    · simp [parched.isFatal] at mild
  | _ => nomatch checked

/-- A call that is refused leaves the network and the free ids exactly as they were, and a layer
that is made to gate a link gates all of it: every connection that is named is there, and the last
neuron that is to gate it does. -/
theorem Reachable.refused_unchanged {net : Network} (h : net.Reachable) :
    restore.run net = .ok () net.settled ∧
    (∀ (c : Call) (ids : IdSupply) (e : NetworkError) (s : IdSupply × Network), c.isChecked →
      c.perform.run (ids, net) = .error e s → e.isFatal = false →
      s.1 = ids ∧ restore.run s.2 = .ok () net.settled) ∧
    ∀ (gater : LayerRef) (link : Link) (gating : Gating) (net' : Network),
      (gate gater link gating).run net = .ok () net' →
      ∃ l pairs, net.layer gater = .ok l ∧ net.gatePairs l.neurons link gating = .ok pairs ∧
        (∀ p ∈ pairs, net.graph.contains p.2) ∧
        ∀ c, net'.graph.gater? c = (Graph.lastGater pairs c).or (net.graph.gater? c) := by
  obtain ⟨bound, bare, sound, stands⟩ := h.stands
  have settled_eq := stands.settled_eq sound
  rw [settled_eq]
  refine ⟨stands.restore_run sound, fun c ids e s checked run_eq mild => ?_,
    fun gater link gating net' run_eq => ?_⟩
  · obtain ⟨ids_eq, kept⟩ := (stands.undone sound checked ids).of_eq_error run_eq mild
    exact ⟨ids_eq, kept.restore_run sound⟩
  · rcases stands.gate_cases sound gater link gating with
      ⟨l, pairs, hl, hp, there, gate_eq⟩ | ⟨-, e, error_eq⟩
    · obtain rfl : { bare with graph := bare.graph.gatedEach pairs } = net' :=
        (EStateM.Result.ok.inj (gate_eq.symm.trans run_eq)).2
      refine ⟨l, pairs, hl, hp, there, fun c => ?_⟩
      rw [Graph.gater?_of_skeleton_eq stands.skeleton]
      exact Graph.gater?_gatedEach (fun p hp' => stands.contains p.2 ▸ there p hp') c
    · cases error_eq.symm.trans run_eq

theorem refused_unchanged_fork : ∃ net : Network, net.Reachable ∧
    (∃ s, (Call.gate .output ⟨.input, .output, .allToAll, [⟨1, 2⟩, ⟨1, 3⟩]⟩ .oneToOne).perform.run
        ({}, net) = .error (.unknownConnection ⟨1, 3⟩) s ∧
      s.1 = {} ∧ restore.run s.2 = .ok () net.settled) ∧
    ∃ net' pairs, (gate .output ⟨.input, .output, .allToAll, [⟨1, 2⟩, ⟨1, 2⟩]⟩ .oneToOne).run net =
        .ok () net' ∧ pairs = [(2, ⟨1, 2⟩), (3, ⟨1, 2⟩)] ∧
      ∀ c, net'.graph.gater? c = (Graph.lastGater pairs c).or (net.graph.gater? c) := by
  obtain ⟨net, reachable, outputs, present, missing⟩ : ∃ net : Network, net.Reachable ∧
      net.output = { neurons := [2, 3] } ∧ net.graph.contains ⟨1, 2⟩ ∧ ¬ net.graph.contains ⟨1, 3⟩ :=
    exists_reachable [.new 1 [] 2 { biasInit := ⟨0, 0⟩ }, .call 0 (.projectNeuron 1 2 (some 1))]
      ⟨_, rfl, rfl, rfl, nofun⟩
  obtain ⟨-, refused, gated⟩ := Reachable.refused_unchanged reachable
  have hl : net.layer .output = .ok { neurons := [2, 3] } := congrArg Except.ok outputs
  have error_eq : (Call.gate .output ⟨.input, .output, .allToAll, [⟨1, 2⟩, ⟨1, 3⟩]⟩ .oneToOne).perform.run
      ({}, net) = .error (.unknownConnection ⟨1, 3⟩) ({}, net) := by
    refine bind_of_error (lift_of_error ?_)
    rw [gate, bind_of_ok (ask_layer hl), bind_of_ok (ask_gatePairs rfl), bind_of_ok (get_run net)]
    exact bind_of_error (by simp [present, missing])
  obtain ⟨bound, bare, sound, stands⟩ := reachable.stands
  obtain ⟨⟨⟩, net', ok_eq⟩ := (stands.guarded_gate sound .output
    ⟨.input, .output, .allToAll, [⟨1, 2⟩, ⟨1, 2⟩]⟩ .oneToOne).passes
    ⟨_, [(2, ⟨1, 2⟩), (3, ⟨1, 2⟩)], hl, rfl, by simpa using present⟩
  obtain ⟨l, pairs, hl', hp, -, gaters⟩ := gated _ _ _ net' ok_eq
  obtain rfl := Except.ok.inj (hl.symm.trans hl')
  exact ⟨net, reachable, ⟨_, error_eq, refused _ _ _ _ rfl error_eq rfl⟩,
    net', pairs, ok_eq, (Except.ok.inj hp).symm, gaters⟩

end Refusals

end Network

end GatedNetwork
