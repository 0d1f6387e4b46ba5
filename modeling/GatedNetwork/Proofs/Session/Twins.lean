import Mathlib.Data.List.Forall2
import GatedNetwork.Proofs.Network.Founding
import GatedNetwork.Proofs.Network.Mutating
import GatedNetwork.Proofs.Network.Running
import GatedNetwork.Proofs.Session.Basic

/-! Twin worlds. Their networks are twins one by one, so they answer every request alike, and
requests that only say how a network is to be run may come to one of them alone. -/

namespace GatedNetwork

section Calls

variable {floor bound : NeuronId} {α : Type} {a b : Network}

theorem Network.Thriving.reply {act : Network.Growth α} (h : Network.Thriving floor act)
    (f : α → Reply) : Network.Thriving floor (do let x ← act; return f x) :=
  Relates.bind h fun _ => relates_pure fun _ _ h => h

open Network in
theorem thriving_perform {c : Call} (h : c.isControl = false) : Thriving floor c.perform := by
  have lifted {α : Type} {act : Edit α} (h : ∀ n, Oblivious n act) (f : α → Reply) :
      Thriving floor (do let x ← lift act; return f x) := (thriving_lift h).reply f
  cases c with
  | activate input => exact lifted (fun _ => oblivious_activate input) .vector
  | propagate rate target => exact lifted (fun _ => oblivious_propagate rate target) fun _ => .done
  | clear => exact lifted (fun _ => oblivious_clear) fun _ => .done
  | reset => exact lifted (fun _ => oblivious_reset) fun _ => .done
  | optimize => nomatch h
  | restore => nomatch h
  | setOptimize enabled => nomatch h
  | snapshot =>
    exact lifted (fun _ => relates_ask (fun _ _ h => h.toSnapshot_eq) (fun _ _ _ _ h => h)
      fun _ _ h => h) .snapshot
  | project source target wiring weight =>
    exact lifted (fun _ => oblivious_project source target wiring weight) .link
  | projectNeuron source target weight =>
    exact lifted (fun _ => oblivious_projectNeuron source target weight) .connection
  | gate gater link gating => exact lifted (fun _ => oblivious_gate gater link gating) fun _ => .done
  | gateConnection gater c => exact lifted (fun _ => oblivious_gateConnection gater c) fun _ => .done
  | disconnect source target =>
    exact lifted (fun _ => oblivious_disconnect source target) fun _ => .done
  | connect => exact lifted (fun _ => oblivious_connect) fun _ => .done
  | disconnectAll => exact lifted (fun _ => oblivious_disconnectAll) fun _ => .done
  | addHiddenLayer size => exact (thriving_addHiddenLayer size).reply .layer
  | addNeuron ref => exact (thriving_addNeuron ref).reply .neuron
  | removeNeuron id => exact lifted (fun _ => oblivious_removeNeuron id) fun _ => .done
  | setBias id bias => exact lifted (fun _ => oblivious_setBias id bias) fun _ => .done
  | setSquash id squash => exact lifted (fun _ => oblivious_setSquash id squash) fun _ => .done
  | setWeight c weight => exact lifted (fun _ => oblivious_setWeight c weight) fun _ => .done
  | setLayerSquash ref squash =>
    exact lifted (fun _ => oblivious_setLayerSquash ref squash) fun _ => .done
  | setLayerBias ref bias => exact lifted (fun _ => oblivious_setLayerBias ref bias) fun _ => .done
  | mutate m => exact (thriving_mutate m).reply fun _ => .done

open Network in
theorem Network.Twins.control (h : Twins bound a b) {c : Call} (control : c.isControl) (ids : IdSupply) :
    ∃ a', c.perform.run (ids, a) = .ok .done (ids, a') ∧ Twins bound a' b := by
  obtain ⟨net, mode, sound, ha, hb⟩ := h
  cases c with
  | optimize =>
    obtain ⟨p, run_eq, mirrors⟩ := ha.optimize_run sound
    exact ⟨_, bind_of_ok (lift_of_ok run_eq), net, mode, sound, .compiled p _ sound.consistent mirrors, hb⟩
  | restore =>
    exact ⟨net, bind_of_ok (lift_of_ok (ha.restore_run sound)), net, mode, sound, .plain, hb⟩
  | setOptimize enabled =>
    exact ⟨_, bind_of_ok (lift_of_ok (ha.setOptimize_run sound enabled)), _, mode,
      sound.withMode _, .plain, hb⟩
  | _ => nomatch control

open Network in
theorem thriving_reseed (random : RandomStream) : Thriving floor
    (do modify fun (ids, net) => (ids, { net with random }); return Reply.done) := by
  refine Relates.bind (S := fun _ => Supplied floor Twins) (relates_modify fun s t h => ?_)
    fun _ => relates_pure fun _ _ h => h
  obtain ⟨ids_eq, le, net, mode, sound, ha, hb⟩ := h
  refine ⟨ids_eq, le, { net with random }, mode, sound.withRandom random, ?_, ?_⟩
  · exact ha.withRandom random
  · exact hb.withRandom random

end Calls

/-- The request as it is for networks that are run over their graphs. Nothing is left of a call
that only says how a network is run. -/
def Request.plain : Request → Option Request
  | new input hidden output config => some (new input hidden output (config.withMode .graph))
  | perceptron input hidden output config =>
    some (perceptron input hidden output (config.withMode .graph))
  | ofSnapshot s config => some (ofSnapshot s (config.withMode .graph))
  | merge i j config => some (merge i j (config.withMode .graph))
  | call i c => if c.isControl then none else some (call i c)
  | c => some c

theorem Request.plain_plain {c d : Request} (h : c.plain = some d) : d.plain = some d := by
  cases c with
  | call i c =>
    simp only [plain] at h
    split at h
    · nomatch h
    · rename_i work
      obtain rfl := Option.some.inj h
      simp only [plain, if_neg work]
  | _ =>
    obtain rfl := Option.some.inj h
    rfl

namespace World

def replies (w : World) : List Request → List Answer
  | [] => []
  | c :: cs =>
    match c.plain with
    | some _ => (w.step c).1 :: (w.step c).2.replies cs
    | none => (w.step c).2.replies cs

def Twins (w w' : World) : Prop :=
  w.ids = w'.ids ∧ List.Forall₂ (Network.Twins w.ids.next) w.networks w'.networks

section Steps

variable {w w' : World} {i : Nat} {a b : Network}

theorem forall₂_set {α : Type} {R : α → α → Prop} {xs ys : List α} (h : List.Forall₂ R xs ys)
    (i : Nat) {x y : α} (hxy : R x y) : List.Forall₂ R (xs.set i x) (ys.set i y) := by
  induction h generalizing i with
  | nil => exact .nil
  | cons head tail ih =>
    cases i with
    | zero => exact .cons hxy tail
    | succ i => exact .cons head (ih i)

theorem Twins.at (h : w.Twins w') (i : Nat) :
    (∃ a b, w.networks[i]? = some a ∧ w'.networks[i]? = some b ∧ Network.Twins w.ids.next a b) ∨
      w.networks[i]? = none ∧ w'.networks[i]? = none := by
  obtain ⟨length_eq, twins⟩ := List.forall₂_iff_get.mp h.2
  by_cases hi : i < w.networks.length
  · exact .inl ⟨_, _, List.getElem?_eq_getElem hi, List.getElem?_eq_getElem (length_eq ▸ hi),
      twins i hi (length_eq ▸ hi)⟩
  · exact .inr ⟨List.getElem?_eq_none (by omega), List.getElem?_eq_none (by omega)⟩

theorem Twins.later (h : w.Twins w') {n : NeuronId} (le : w.ids.next ≤ n) :
    List.Forall₂ (Network.Twins n) w.networks w'.networks := h.2.imp fun _ _ h => h.mono le

theorem Twins.found (h : w.Twins w') {new new' : EStateM NetworkError IdSupply Network}
    (born : Network.Born w.ids.next (new.run w.ids) (new'.run w'.ids)) :
    (w.found new).1 = (w'.found new').1 ∧ (w.found new).2.Twins (w'.found new').2 := by
  unfold World.found
  revert born
  cases new.run w.ids <;> cases new'.run w'.ids
  · rintro ⟨rfl, le, twins⟩
    exact ⟨rfl, rfl, List.rel_append (h.later le) (.cons twins .nil)⟩
  · exact False.elim
  · exact False.elim
  · rintro ⟨rfl, rfl, le⟩
    exact ⟨rfl, rfl, h.later le⟩

theorem Twins.act (h : w.Twins w') (twins : Network.Twins w.ids.next a b) (i : Nat)
    {action : Network.Growth Reply} (thriving : Network.Thriving w.ids.next action) :
    (w.act i a action).1 = (w'.act i b action).1 ∧ (w.act i a action).2.Twins (w'.act i b action).2 := by
  have run := thriving (w.ids, a) (w'.ids, b) ⟨h.1, Nat.le_refl _, twins⟩
  unfold World.act
  rcases run.cases with ⟨r, s, t, hs, ht, ids_eq, le, twins⟩ | ⟨e, s, t, hs, ht, ids_eq, le, twins⟩
  · rw [hs, ht]
    exact ⟨rfl, ids_eq, forall₂_set (h.later le) i twins⟩
  · rw [hs, ht]
    exact ⟨rfl, ids_eq, forall₂_set (h.later le) i twins⟩

/-- A request that does more than to say how a network is run gets one answer from twin worlds,
whatever modes it names. -/
theorem Twins.step (h : w.Twins w') {c d : Request} (plain_eq : c.plain = some d) :
    (w.step c).1 = (w'.step d).1 ∧ (w.step c).2.Twins (w'.step d).2 := by
  have ids_eq := h.1
  have le := Nat.le_refl w.ids.next
  cases c with
  | new input hidden output config =>
    obtain rfl := Option.some.inj plain_eq
    exact h.found (ids_eq ▸ Network.born_grow (Network.founds_lay input hidden output) config .graph le)
  | perceptron input hidden output config =>
    obtain rfl := Option.some.inj plain_eq
    exact h.found (ids_eq ▸
      Network.born_grow (Network.founds_perceptron input hidden output) config .graph le)
  | ofSnapshot s config =>
    obtain rfl := Option.some.inj plain_eq
    exact h.found (ids_eq ▸ Network.born_ofSnapshot s config .graph le)
  | copy i =>
    obtain rfl := Option.some.inj plain_eq
    rcases h.at i with ⟨a, b, ha, hb, twins⟩ | ⟨ha, hb⟩
    · simp only [World.step, ha, hb]
      exact h.found (ids_eq ▸ Network.born_copy twins le)
    · simp only [World.step, ha, hb]
      exact ⟨trivial, h⟩
  | merge i j config =>
    obtain rfl := Option.some.inj plain_eq
    rcases h.at i with ⟨a, b, ha, hb, twins⟩ | ⟨ha, hb⟩
    · rcases h.at j with ⟨a', b', ha', hb', twins'⟩ | ⟨ha', hb'⟩
      · simp only [World.step, ha, hb, ha', hb']
        exact h.found (ids_eq ▸ Network.born_merge twins twins' config .graph le)
      · simp only [World.step, ha, hb, ha', hb']
        exact ⟨trivial, h⟩
    · simp only [World.step, ha, hb]
      exact ⟨trivial, h⟩
  | reseed i random =>
    obtain rfl := Option.some.inj plain_eq
    rcases h.at i with ⟨a, b, ha, hb, twins⟩ | ⟨ha, hb⟩
    · simp only [World.step, ha, hb]
      exact h.act twins i (thriving_reseed random)
    · simp only [World.step, ha, hb]
      exact ⟨trivial, h⟩
  | call i c =>
    simp only [Request.plain] at plain_eq
    split at plain_eq
    · nomatch plain_eq
    · rename_i work
      obtain rfl := Option.some.inj plain_eq
      rcases h.at i with ⟨a, b, ha, hb, twins⟩ | ⟨ha, hb⟩
      · simp only [World.step, ha, hb]
        exact h.act twins i (thriving_perform (Bool.eq_false_iff.mpr work))
      · simp only [World.step, ha, hb]
        exact ⟨trivial, h⟩

theorem Twins.control (h : w.Twins w') {c : Request} (control : c.plain = none) :
    (w.step c).1 = .ok .done ∧ (w.step c).2.Twins w' := by
  cases c with
  | call i c =>
    simp only [Request.plain] at control
    split at control
    · rename_i isControl
      rcases h.at i with ⟨a, b, ha, hb, twins⟩ | ⟨ha, hb⟩
      · obtain ⟨a', run_eq, twins'⟩ := twins.control isControl w.ids
        obtain ⟨hi, rfl⟩ := List.getElem?_eq_some_iff.mp hb
        have kept := forall₂_set h.2 i twins'
        rw [List.set_getElem_self] at kept
        simp only [World.step, ha, World.act, run_eq]
        exact ⟨trivial, h.1, kept⟩
      · simp only [World.step, ha]
        exact ⟨trivial, h⟩
    · nomatch control
  | _ => nomatch control

theorem Twins.request (h : w.Twins w') (r : Request) : ∃ w'', (w.step r).2.Twins w'' := by
  cases plain_eq : r.plain with
  | none => exact ⟨_, (h.control plain_eq).2⟩
  | some d => exact ⟨_, (h.step plain_eq).2⟩

theorem Twins.stands_at (h : w.Twins w') (hi : w.networks[i]? = some a) :
    ∃ bare : Network, bare.Sound w.ids.next [] ∧ bare.StandsFor a := by
  rcases h.at i with ⟨a, b, ha, -, bare, mode, sound, stands, -⟩ | ⟨ha, -⟩
  · obtain rfl := Option.some.inj (ha.symm.trans hi)
    exact ⟨bare, sound, stands⟩
  · cases ha.symm.trans hi

end Steps

section Runs

theorem run_call {w : World} {cs : List Request} {i : Nat} {net net' : Network} {c : Call} {r : Reply}
    {ids' : IdSupply} (hi : (w.run cs).networks[i]? = some net)
    (run_eq : c.perform.run ((w.run cs).ids, net) = .ok r (ids', net')) :
    w.run (cs ++ [.call i c]) = { ids := ids', networks := (w.run cs).networks.set i net' } ∧
      net' ∈ (w.run cs).networks.set i net' := by
  have step_eq : w.run (cs ++ [.call i c]) = ((w.run cs).step (.call i c)).2 := List.foldl_append
  obtain ⟨bounded, -⟩ := List.getElem?_eq_some_iff.mp hi
  refine ⟨?_, List.mem_iff_getElem?.mpr ⟨i, by simp [bounded]⟩⟩
  rw [step_eq]
  simp only [step, hi, act, run_eq]

theorem Twins.empty : ({} : World).Twins {} := ⟨rfl, .nil⟩

/-- A run and what is left of it without the calls that say how networks are run. -/
theorem Twins.run {w w' : World} (h : w.Twins w') (cs : List Request) :
    w.replies cs = w'.replies (cs.filterMap Request.plain) ∧
      (w.run cs).Twins (w'.run (cs.filterMap Request.plain)) := by
  induction cs generalizing w w' with
  | nil => exact ⟨rfl, h⟩
  | cons c cs ih =>
    cases hc : c.plain with
    | none =>
      rw [List.filterMap_cons_none hc, replies, hc]
      exact ih (h.control hc).2
    | some d =>
      obtain ⟨answer_eq, twins⟩ := h.step hc
      obtain ⟨replies_eq, twins'⟩ := ih twins
      rw [List.filterMap_cons_some hc, replies, replies, hc, Request.plain_plain hc, answer_eq, replies_eq]
      exact ⟨rfl, twins'⟩

end Runs

end World

theorem Network.StandsFor.settled_eq {bound : NeuronId} {net bare : Network} (h : bare.StandsFor net)
    (sound : bare.Sound bound []) : net.settled = bare := by
  rw [settled, h.restore_run sound, after_ok]

/-- A reachable network stands for a bare one whose indexes agree. -/
theorem Network.Reachable.stands {net : Network} (h : net.Reachable) :
    ∃ (bound : NeuronId) (bare : Network), bare.Sound bound [] ∧ bare.StandsFor net := by
  obtain ⟨cs, hnet⟩ := h
  obtain ⟨i, hi⟩ := List.getElem?_of_mem hnet
  exact ⟨_, (World.Twins.empty.run cs).2.stands_at hi⟩

/-- Two neurons, of which the second gates what it takes in from the first. -/
theorem exists_selfGating : ∃ net : Network, net.Reachable ∧ net.input.size = 1 ∧
    net.output.size = 1 ∧ net.neurons.map (·.1) = [1, 2] ∧
    net.settled.graph.gater? ⟨1, 2⟩ = some 2 :=
  Network.exists_reachable [.new 1 [] 1 { biasInit := ⟨0, 0⟩ }, .call 0 (.projectNeuron 1 2 (some 1)),
    .call 0 (.gateConnection 2 ⟨1, 2⟩)] ⟨_, rfl, rfl, rfl, rfl, rfl⟩

end GatedNetwork
