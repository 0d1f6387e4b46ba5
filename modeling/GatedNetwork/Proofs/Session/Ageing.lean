import GatedNetwork.Proofs.Network.Ageing
import GatedNetwork.Proofs.Session.Directed
import GatedNetwork.Proofs.Session.Lasting

/-! Neurons keep to their layers in every run. Ids are only taken, so that what was free when a run
began tells the neurons that it made from those that were there. -/

namespace GatedNetwork

open Network

variable {home : LayerRef → NeuronId → Prop} {floor : NeuronId}

theorem Network.aged_perform (c : Call) :
    Endures (Grown (fun _ => Aged home floor) floor) (fun _ => True) c.perform := by
  have grows : LastsGrowth (fun _ => Aged home floor) (fun _ _ => True) (fun _ => True) floor :=
    lastsGrowth_aged
  have others (edit : c.isEdit) : Endures (Grown (fun _ => Aged home floor) floor) (fun _ => True) c.perform :=
    grows.endures_perform edit fun noise _ _ => drawn_any noise.draw
  cases c with
  | activate input => exact endures_edit (fun _ => (aged_activate input).endures) .vector
  | propagate rate target => exact endures_edit (fun _ => (aged_propagate rate target).endures) fun _ => .done
  | clear => exact endures_edit (fun _ => aged_clear.endures) fun _ => .done
  | reset => exact endures_edit (fun _ => aged_reset.endures) fun _ => .done
  | optimize => exact endures_edit (fun _ => aged_optimize.endures) fun _ => .done
  | setOptimize enabled => exact endures_edit (fun _ => (aged_setOptimize enabled).endures) fun _ => .done
  | _ => exact others rfl

namespace World

variable {w : World} {i : Nat} {net : Network}

theorem ids_step (w : World) (r : Request) : w.ids.next ≤ (w.step r).2.ids.next := by
  have all (net : Network) : net.Aged (fun _ _ => True) w.ids.next := fun _ _ _ => .inl trivial
  have inherited : Inherited fun _ => Aged (fun _ _ => True) w.ids.next :=
    ⟨fun _ _ => all _, fun _ => all _⟩
  have holds : w.Holds fun _ => Aged (fun _ _ => True) w.ids.next := fun net _ => all net
  exact (holds.step lastsGrowth_aged inherited (fun _ _ _ => all _)
    fun i c net _ _ => aged_perform c _ ⟨Nat.le_refl _, all net⟩).later

theorem aged_step (hi : w.networks[i]? = some net) (le : floor ≤ w.ids.next)
    (aged : net.Aged home floor) (r : Request) :
    ∃ net', (w.step r).2.networks[i]? = some net' ∧ net'.Aged home floor := by
  by_cases target : r.target? = some i
  · have acted {action : Network.Growth Reply}
        (h : Endures (Grown (fun _ => Aged home floor) floor) (fun _ => True) action) :
        (after (action.run (w.ids, net))).2.Aged home floor := (h.keeps _ ⟨le, aged⟩).2
    cases r with
    | reseed j random =>
      obtain rfl := Option.some.inj target
      simp only [World.step, hi]
      exact ⟨_, networks_act_self hi _, acted (lastsGrowth_aged.endures_reseed random)⟩
    | call j c =>
      obtain rfl := Option.some.inj target
      simp only [World.step, hi]
      exact ⟨_, networks_act_self hi _, acted (aged_perform c)⟩
    | _ => cases target
  · exact ⟨net, networks_step hi target, aged⟩

theorem aged_run (hi : w.networks[i]? = some net) (le : floor ≤ w.ids.next)
    (aged : net.Aged home floor) (rs : List Request) :
    ∃ net', (w.run rs).networks[i]? = some net' ∧ net'.Aged home floor := by
  induction rs generalizing w net with
  | nil => exact ⟨net, hi, aged⟩
  | cons r rs ih =>
    obtain ⟨net', hi', aged'⟩ := aged_step hi le aged r
    exact ih hi' (Nat.le_trans le (w.ids_step r)) aged'

end World

end GatedNetwork
