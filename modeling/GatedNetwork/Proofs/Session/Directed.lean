import GatedNetwork.Proofs.Network.Directed
import GatedNetwork.Proofs.Session.Twins

/-! Runs in which a network is only mutated. If it points forward, so it does after every mutation,
whichever random stream it draws from and whatever becomes of the other networks. -/

namespace GatedNetwork

open Network

def Request.target? : Request → Option Nat
  | reseed i _ | call i _ => some i
  | _ => none

/-- The network is not called but to be mutated. It may get any random stream. -/
def Request.onlyMutates (i : Nat) : Request → Bool
  | call _ (.mutate _) => true
  | call j _ => j != i
  | _ => true

section Mutating

variable {bound : NeuronId} {net bare : Network} {ids : IdSupply}

theorem Network.StandsFor.mutate_run (h : bare.StandsFor net) (sound : bare.Sound bound [])
    (m : Mutation) : (mutate m).run (ids, net) = (mutate m).run (ids, bare) := by
  have restored := h.restore_run sound
  have restored' := StandsFor.plain.restore_run sound
  refine (bind_of_ok (lift_of_ok restored)).trans (Eq.symm ?_)
  exact bind_of_ok (lift_of_ok restored')

theorem Network.StandsFor.ascending_mutate (h : bare.StandsFor net) (sound : bare.Sound ids.next [])
    (directed : net.Directed) (m : Mutation) :
    (after ((Call.mutate m).perform.run (ids, net))).2.Ascending := by
  have within := sound.directed_iff_within.mp (h.directed_iff.mp directed)
  have mutated := Poised.mutate (s := (ids, bare)) ⟨sound, within⟩ m
  rw [← h.mutate_run sound] at mutated
  cases hr : (mutate m).run (ids, net) with
  | ok x s =>
    rw [Call.perform, bind_of_ok hr]
    exact mutated.of_eq_ok hr
  | error e s =>
    rw [Call.perform, bind_of_error hr]
    exact mutated.of_eq_error hr

end Mutating

namespace World

section Networks

variable {w : World} {i j : Nat} {net : Network}

theorem networks_found (hi : w.networks[i]? = some net) (new : EStateM NetworkError IdSupply Network) :
    (w.found new).2.networks[i]? = some net := by
  unfold found
  cases new.run w.ids with
  | ok other ids =>
    rwa [List.getElem?_append_left (List.getElem?_eq_some_iff.mp hi).1]
  | error e ids => exact hi

theorem networks_act_self (hi : w.networks[i]? = some net) (action : Network.Growth Reply) :
    (w.act i net action).2.networks[i]? = some (after (action.run (w.ids, net))).2 := by
  have there : i < w.networks.length := (List.getElem?_eq_some_iff.mp hi).1
  unfold act
  cases action.run (w.ids, net) <;> exact List.getElem?_set_self there

theorem networks_act_ne (ne : j ≠ i) (other : Network) (action : Network.Growth Reply) :
    (w.act j other action).2.networks[i]? = w.networks[i]? := by
  unfold act
  cases action.run (w.ids, other) <;> exact List.getElem?_set_ne ne

theorem networks_step {r : Request} (hi : w.networks[i]? = some net) (ne : r.target? ≠ some i) :
    (w.step r).2.networks[i]? = some net := by
  have acted {j : Nat} (hj : j ≠ i) (other : Network) (action : Network.Growth Reply) :
      (w.act j other action).2.networks[i]? = some net := (networks_act_ne hj other action).trans hi
  cases r with
  | new input hidden output config => exact networks_found hi _
  | perceptron input hidden output config => exact networks_found hi _
  | ofSnapshot s config => exact networks_found hi _
  | copy j =>
    simp only [World.step]
    split
    · exact networks_found hi _
    · exact hi
  | merge j k config =>
    simp only [World.step]
    split
    · exact networks_found hi _
    · exact hi
  | reseed j random =>
    simp only [World.step]
    split
    · exact acted (fun same => ne (congrArg some same)) _ _
    · exact hi
  | call j c =>
    simp only [World.step]
    split
    · exact acted (fun same => ne (congrArg some same)) _ _
    · exact hi

end Networks

section Runs

variable {w w' : World} {i : Nat} {net : Network} {r : Request}

/-- A request leaves the network pointing forward. That it is still sound is known from the twins
of the worlds. -/
theorem Twins.directed_step (h : w.Twins w') (hi : w.networks[i]? = some net)
    (directed : net.Directed) (mutates : r.onlyMutates i) :
    ∃ net', (w.step r).2.networks[i]? = some net' ∧ net'.Directed := by
  by_cases target : r.target? = some i
  · cases r with
    | reseed j random =>
      obtain rfl := Option.some.inj target
      simp only [World.step, hi]
      exact ⟨_, networks_act_self hi _,
        ⟨directed.forward, directed.unsent, directed.unreceived, directed.unlooped⟩⟩
    | call j c =>
      obtain rfl := Option.some.inj target
      cases c with
      | mutate m =>
        obtain ⟨w'', twins⟩ := h.request (.call j (.mutate m))
        have found : (w.step (.call j (.mutate m))).2.networks[j]? =
            some (after ((Call.mutate m).perform.run (w.ids, net))).2 := by
          simp only [World.step, hi]
          exact networks_act_self hi _
        obtain ⟨bare, sound, stands⟩ := h.stands_at hi
        have ascending := stands.ascending_mutate sound directed m
        obtain ⟨bare', sound', stands'⟩ := twins.stands_at found
        obtain rfl := stands'.eq_of_bare ascending.bare
        exact ⟨_, found, sound'.directed_iff_within.mpr ascending.within⟩
      | _ => simp [Request.onlyMutates] at mutates
    | _ => cases target
  · exact ⟨net, networks_step hi target, directed⟩

theorem Twins.directed_run (h : w.Twins w') (hi : w.networks[i]? = some net) (directed : net.Directed)
    {rs : List Request} (mutates : ∀ r ∈ rs, r.onlyMutates i) :
    ∃ net', (w.run rs).networks[i]? = some net' ∧ net'.Directed := by
  induction rs generalizing w w' net with
  | nil => exact ⟨net, hi, directed⟩
  | cons r rs ih =>
    obtain ⟨mutates, rest⟩ := List.forall_mem_cons.mp mutates
    obtain ⟨net', hi', directed'⟩ := h.directed_step hi directed mutates
    obtain ⟨w'', twins⟩ := h.request r
    exact ih twins hi' directed' rest

/-- Mutations keep a network pointing forward: any number of them, with any operators and random
streams, whether they succeed or not, and whatever else happens in between to other networks. -/
theorem directed_of_mutations {cs rs : List Request}
    (hi : (({} : World).run cs).networks[i]? = some net) (directed : net.Directed)
    (mutates : ∀ r ∈ rs, r.onlyMutates i) :
    ∃ net', ((({} : World).run cs).run rs).networks[i]? = some net' ∧ net'.Directed :=
  (Twins.empty.run cs).2.directed_run hi directed mutates

theorem directed_of_mutations_chain :
    ∃ net, (({} : World).run [.new 1 [1] 1 { biasInit := ⟨0, 0⟩ }, .call 0 (.projectNeuron 1 2 (some 1)),
      .call 0 (.projectNeuron 2 3 (some 1))]).networks[0]? = some net ∧ net.Directed ∧
    ∃ net', ((({} : World).run [.new 1 [1] 1 { biasInit := ⟨0, 0⟩ },
      .call 0 (.projectNeuron 1 2 (some 1)), .call 0 (.projectNeuron 2 3 (some 1))]).run
      [.call 0 (.mutate .modifyNeurons), .call 0 (.mutate .modifyConnections), .reseed 0 (.ofSeed 7),
        .call 0 (.mutate (.modifySquash []))]).networks[0]? = some net' ∧ net'.Directed := by
  obtain ⟨net, hi, directed⟩ : ∃ net, (({} : World).run [.new 1 [1] 1 { biasInit := ⟨0, 0⟩ },
      .call 0 (.projectNeuron 1 2 (some 1)), .call 0 (.projectNeuron 2 3 (some 1))]).networks[0]? =
      some net ∧ net.Directed := ⟨_, rfl, by decide +kernel⟩
  exact ⟨net, hi, directed, directed_of_mutations hi directed (by simp [Request.onlyMutates])⟩

end Runs

end World

end GatedNetwork
