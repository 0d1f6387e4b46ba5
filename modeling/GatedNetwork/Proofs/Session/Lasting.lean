import GatedNetwork.Proofs.Network.Lasting
import GatedNetwork.Proofs.Session.Basic

/-! What outlasts a request. A network that is made, or that is called with an edit, has what its
edits keep; of any other call it has to be shown. The networks that are not asked stay as they are. -/

namespace GatedNetwork

open Network

def Request.config? : Request → Option Config
  | new _ _ _ config | perceptron _ _ _ config | ofSnapshot _ config | merge _ _ config => some config
  | _ => none

def Call.noise? : Call → Option Range
  | mutate m => m.noise?
  | _ => none

def Call.isEdit : Call → Bool
  | activate _ | propagate .. | clear | reset | optimize | setOptimize _ => false
  | _ => true

variable {P : NeuronId → Network → Prop} {Q : NeuronId → Graph → Prop} {E : NetworkError → Prop}

section Calls

variable {floor : NeuronId} {α : Type}

theorem Network.endures_reply {act : Growth α} (ha : Endures (Grown P floor) E act) (f : α → Reply) :
    Endures (Grown P floor) E (do let x ← act; return f x) := Endures.bind ha fun _ => endures_pure _

theorem Network.endures_edit {act : Edit α} (ha : ∀ bound, Endures (P bound) E act) (f : α → Reply) :
    Endures (Grown P floor) E (do let x ← lift act; return f x) := endures_reply (endures_lift ha) f

theorem Network.ends_reply {s : IdSupply × Network} (le : floor ≤ s.1.next) {act : Edit α}
    (ending : Ending (fun _ => P s.1.next) (fun e net => E e ∧ P s.1.next net) (act.run s.2))
    (f : α → Reply) : Ending (fun _ => Grown P floor) (fun e s => E e ∧ Grown P floor s)
      ((do let x ← lift act; return f x : Growth Reply).run s) :=
  Ending.bind (ends_focus (ending.mono (fun _ _ kept => ⟨le, kept⟩)
    fun _ _ kept => ⟨kept.1, le, kept.2⟩)) fun _ _ kept => kept

theorem Network.LastsGrowth.endures_perform (h : LastsGrowth P Q E floor) {c : Call} (edit : c.isEdit)
    (drawn : ∀ noise, c.noise? = some noise → noise.isValid → Drawn E noise.draw) :
    Endures (Grown P floor) E c.perform := by
  have edits (bound : NeuronId) := h.edits bound
  cases c with
  | activate input => cases edit
  | propagate rate target => cases edit
  | clear => cases edit
  | reset => cases edit
  | optimize => cases edit
  | setOptimize enabled => cases edit
  | restore => exact endures_edit (fun n => (edits n).restores) fun _ => .done
  | snapshot => exact endures_edit (fun n => (edits n).asks recoverable_toSnapshot) .snapshot
  | project source target wiring weight =>
    exact endures_edit (fun n => (edits n).endures_project source target wiring weight) .link
  | projectNeuron source target weight =>
    exact endures_edit (fun n => (edits n).endures_projectNeuron source target weight) .connection
  | gate gater link gating =>
    exact endures_edit (fun n => (edits n).endures_gate gater link gating) fun _ => .done
  | gateConnection gater c =>
    exact endures_edit (fun n => (edits n).endures_gateConnection gater c) fun _ => .done
  | disconnect source target =>
    exact endures_edit (fun n => (edits n).endures_disconnect source target) fun _ => .done
  | connect => exact endures_edit (fun n => (edits n).endures_connect) fun _ => .done
  | disconnectAll => exact endures_edit (fun n => (edits n).endures_disconnectAll) fun _ => .done
  | addHiddenLayer size => exact endures_reply (h.endures_addHiddenLayer size) .layer
  | addNeuron ref => exact endures_reply (h.endures_addNeuron ref) .neuron
  | removeNeuron id => exact endures_edit (fun n => (edits n).endures_removeNeuron id) fun _ => .done
  | setBias id bias => exact endures_edit (fun n => (edits n).endures_setBias id bias) fun _ => .done
  | setSquash id squash =>
    exact endures_edit (fun n => (edits n).endures_setSquash id squash) fun _ => .done
  | setWeight c weight =>
    exact endures_edit (fun n => (edits n).endures_setWeight c weight) fun _ => .done
  | setLayerSquash ref squash =>
    exact endures_edit (fun n => (edits n).endures_setLayerSquash ref squash) fun _ => .done
  | setLayerBias ref bias =>
    exact endures_edit (fun n => (edits n).endures_setLayerBias ref bias) fun _ => .done
  | mutate m => exact endures_reply (h.endures_mutate drawn) fun _ => .done

theorem Network.LastsGrowth.endures_reseed (h : LastsGrowth P Q E floor) (random : RandomStream) :
    Endures (Grown P floor) E
      (do modify fun (ids, net) => (ids, { net with random }); return Reply.done) := by
  refine Endures.bind (endures_modify fun s hs => ⟨hs.1, ?_⟩) fun _ => endures_pure _
  have edits := h.edits s.1.next
  exact edits.withGraph s.2 s.2.graph random hs.2 (edits.graph s.2 hs.2)

end Calls

namespace World

def Holds (P : NeuronId → Network → Prop) (w : World) : Prop := ∀ net ∈ w.networks, P w.ids.next net

/-- Ids are only taken, and the networks have the property after an answer that is no error or one of
those. -/
structure Serves (P : NeuronId → Network → Prop) (E : NetworkError → Prop) (w : World)
    (r : Answer × World) : Prop where
  fails : ∀ e, r.1 = .error e → E e
  later : w.ids.next ≤ r.2.ids.next
  holds : r.2.Holds P

/-- What has the property keeps it while ids are given away, and passes it on to copies. -/
structure Inherited (P : NeuronId → Network → Prop) : Prop where
  later : ∀ {n m : NeuronId} {net : Network}, n ≤ m → P n net → P m net
  copies : ∀ {n : NeuronId} {net : Network}, P n net → P n (blank net.config)

section Steps

variable {w : World} {net : Network} {i : Nat}

theorem Holds.later (holds : w.Holds P) (inherited : Inherited P) {n : NeuronId} (le : w.ids.next ≤ n) :
    ∀ net ∈ w.networks, P n net := fun net hnet => inherited.later le (holds net hnet)

theorem Holds.serves (holds : w.Holds P) : Serves P E w (.ok .done, w) := ⟨nofun, Nat.le_refl _, holds⟩

theorem Holds.found (holds : w.Holds P) (inherited : Inherited P)
    {new : EStateM NetworkError IdSupply Network} (founded : Founded P E w.ids (new.run w.ids)) :
    Serves P E w (w.found new) := by
  unfold World.found
  cases hr : new.run w.ids with
  | ok net ids =>
    obtain ⟨le, fresh⟩ := founded.of_eq_ok hr
    refine ⟨nofun, le, fun a ha => ?_⟩
    rcases List.mem_append.mp ha with old | new
    · exact holds.later inherited le a old
    · obtain rfl := List.mem_singleton.mp new
      exact fresh
  | error e ids =>
    obtain ⟨he, le⟩ := founded.of_eq_error hr
    refine ⟨fun e' he' => ?_, le, holds.later inherited le⟩
    obtain rfl := Except.error.inj he'
    exact he

theorem Holds.act (holds : w.Holds P) (inherited : Inherited P) (i : Nat) {action : Growth Reply}
    (ending : Ending (fun _ => Grown P w.ids.next) (fun e s => E e ∧ Grown P w.ids.next s)
      (action.run (w.ids, net))) : Serves P E w (w.act i net action) := by
  have changed {s : IdSupply × Network} (grown : Grown P w.ids.next s) :
      World.Holds P { ids := s.1, networks := w.networks.set i s.2 } := by
    intro a ha
    rcases List.mem_or_eq_of_mem_set ha with old | rfl
    · exact holds.later inherited grown.1 a old
    · exact grown.2
  unfold World.act
  cases hr : action.run (w.ids, net) with
  | ok r s => exact ⟨nofun, (ending.of_eq_ok hr).1, changed (ending.of_eq_ok hr)⟩
  | error e s =>
    obtain ⟨he, grown⟩ := ending.of_eq_error hr
    refine ⟨fun e' he' => ?_, grown.1, changed grown⟩
    obtain rfl := Except.error.inj he'
    exact he

theorem Holds.step (h : LastsGrowth P Q E w.ids.next) (inherited : Inherited P) (holds : w.Holds P)
    {r : Request}
    (starts : ∀ config, r.config? = some config → config.validate = .ok () →
      P w.ids.next (blank config))
    (calls : ∀ i c net, r = .call i c → w.networks[i]? = some net →
      Ending (fun _ => Grown P w.ids.next) (fun e s => E e ∧ Grown P w.ids.next s)
        (c.perform.run (w.ids, net))) :
    Serves P E w (w.step r) := by
  cases r with
  | new input hidden output config =>
    exact holds.found inherited (h.founded_grow (h.endures_lay input hidden output) (starts config rfl))
  | perceptron input hidden output config =>
    have builds : Endures (Grown P w.ids.next) E (do lay input hidden output; lift connect) :=
      Endures.bind (h.endures_lay input hidden output) fun _ =>
        endures_lift fun bound => (h.edits bound).endures_connect
    exact holds.found inherited (h.founded_grow builds (starts config rfl))
  | ofSnapshot s config => exact holds.found inherited (h.founded_ofSnapshot s (starts config rfl))
  | copy i =>
    simp only [World.step]
    cases hi : w.networks[i]? with
    | none => exact holds.serves
    | some net =>
      exact holds.found inherited (h.founded_copy fun _ =>
        inherited.copies (holds net (List.mem_of_getElem? hi)))
  | merge i j config =>
    simp only [World.step]
    split
    · exact holds.found inherited (h.founded_merge _ _ (starts config rfl))
    · exact holds.serves
  | reseed i random =>
    simp only [World.step]
    cases hi : w.networks[i]? with
    | none => exact holds.serves
    | some net =>
      exact holds.act inherited i (h.endures_reseed random _
        ⟨Nat.le_refl _, holds net (List.mem_of_getElem? hi)⟩)
  | call i c =>
    simp only [World.step]
    cases hi : w.networks[i]? with
    | none => exact holds.serves
    | some net => exact holds.act inherited i (calls i c net rfl hi)

end Steps

end World

end GatedNetwork
