import GatedNetwork.Proofs.Network.Numbering
import GatedNetwork.Proofs.Session.Strangers

/-! The ids of a run. Whatever is asked of however many networks, an id belongs to the neuron that it was
made for and to the network in which that neuron was made. -/

namespace GatedNetwork

open Network

/-- The layers of the neurons that a call makes, in the order in which it makes them. -/
def Call.plan (net : Network) : Call → List LayerRef
  | addHiddenLayer size => List.replicate size (.hidden net.hidden.size)
  | addNeuron ref => [ref]
  | _ => []

def Request.isMutation : Request → Bool
  | call _ (.mutate _) => true
  | _ => false

namespace World

def plan (w : World) : Request → List LayerRef
  | .new inputs sizes outputs _ | .perceptron inputs sizes outputs _ => layout inputs sizes outputs
  | .ofSnapshot s _ => s.layers
  | .copy i => (w.networks[i]?.map roster).getD []
  | .merge i j _ =>
    match w.networks[i]?, w.networks[j]? with
    | some first, some second => chainedLayers first.hidden.size first.roster second.roster
    | _, _ => []
  | .reseed _ _ => []
  | .call i c => (w.networks[i]?.map c.plan).getD []

/-- The request makes the neurons of its plan and no others. It takes their ids one by one. -/
structure Fulfils (w : World) (r : Request) : Prop where
  next : (w.step r).2.ids.next = w.ids.next + (w.plan r).length
  member : ∀ m ref, (w.plan r)[m]? = some ref →
    ∃ net, (w.step r).2.networks[w.subject r]? = some net ∧ w.ids.next + m ∈ net.members ref

section Steps

variable {w w' : World} {r : Request} {i : Nat} {c : Call} {net : Network} {reply : Reply}

theorem fulfils_of_idle (idle : w.plan r = []) (same : (w.step r).2 = w) : w.Fulfils r where
  next := by
    rw [idle, same]
    rfl
  member m ref there := by
    rw [idle] at there
    cases there

theorem fulfils_of_found {new : EStateM NetworkError IdSupply Network} (untargeted : r.target? = none)
    (founds : w.step r = w.found new) (served : (w.step r).1 = .ok reply)
    (numbered : ∀ net ids, new.run w.ids = .ok net ids → Numbered w.ids.next (w.plan r) (ids, net)) :
    w.Fulfils r := by
  have subject_eq : w.subject r = w.networks.length := by rw [subject, untargeted, Option.getD_none]
  cases run_eq : new.run w.ids with
  | error e ids =>
    rw [founds, found, run_eq] at served
    cases served
  | ok net ids =>
    have made := numbered net ids run_eq
    have step_eq : (w.step r).2 = { ids, networks := w.networks ++ [net] } := by rw [founds, found, run_eq]
    refine ⟨?_, fun m ref there => ⟨net, ?_, made.member m ref there⟩⟩
    · rw [step_eq]
      exact made.next
    · rw [step_eq, subject_eq, List.getElem?_concat_length]

theorem lift_numbered {α : Type} (act : Edit α) (f : α → Reply) (ids : IdSupply) (net : Network) :
    Ending (fun _ => Numbered ids.next []) (fun _ _ => True)
      ((do let x ← lift act; return f x : Growth Reply).run (ids, net)) := by
  cases run_eq : act.run net with
  | ok x net' =>
    rw [bind_of_ok (lift_of_ok run_eq)]
    exact numbered_start (ids, net')
  | error e net' =>
    rw [bind_of_error (lift_of_error run_eq)]
    trivial

theorem perform_numbered (certain : (Request.call i c).isMutation = false) (ids : IdSupply)
    (net : Network) : Ending (fun _ => Numbered ids.next (c.plan net)) (fun _ _ => True)
      (c.perform.run (ids, net)) := by
  cases c with
  | addHiddenLayer size => exact Ending.bind (addHiddenLayer_numbered size ids net) fun _ _ h => h
  | addNeuron ref => exact Ending.bind (addNeuron_numbered ref ids net) fun _ _ h => h
  | mutate m => cases certain
  | _ => exact lift_numbered _ _ ids net

theorem fulfils_call (certain : (Request.call i c).isMutation = false)
    (served : (w.step (.call i c)).1 = .ok reply) : w.Fulfils (.call i c) := by
  cases hi : w.networks[i]? with
  | none => exact fulfils_of_idle (by simp [plan, hi]) (by simp [step, hi])
  | some net =>
    obtain ⟨bounded, -⟩ := List.getElem?_eq_some_iff.mp hi
    have plan_eq : w.plan (.call i c) = c.plan net := by
      rw [plan, hi]
      rfl
    cases run_eq : c.perform.run (w.ids, net) with
    | error e s =>
      simp only [step, hi, act, run_eq] at served
      cases served
    | ok x s =>
      have made := (perform_numbered certain w.ids net).of_eq_ok run_eq
      have step_eq : (w.step (.call i c)).2 = { ids := s.1, networks := w.networks.set i s.2 } := by
        simp only [step, hi, act, run_eq]
      refine ⟨?_, fun m ref there => ⟨s.2, ?_, made.member m ref (plan_eq ▸ there)⟩⟩
      · rw [step_eq, plan_eq]
        exact made.next
      · rw [step_eq]
        exact List.getElem?_set_self bounded

theorem Twins.fulfils (h : w.Twins w') (certain : r.isMutation = false)
    (served : (w.step r).1 = .ok reply) : w.Fulfils r := by
  cases r with
  | new input hidden output config => exact fulfils_of_found rfl rfl served fun _ _ => new_numbered
  | perceptron input hidden output config =>
    exact fulfils_of_found rfl rfl served fun _ _ => perceptron_numbered
  | ofSnapshot s config => exact fulfils_of_found rfl rfl served fun _ _ => ofSnapshot_numbered
  | copy i =>
    cases hi : w.networks[i]? with
    | none => exact fulfils_of_idle (by simp [World.plan, hi]) (by simp [World.step, hi])
    | some net =>
      obtain ⟨bare, sound, stands⟩ := h.stands_at hi
      have founds : w.step (.copy i) = w.found net.copy := by simp only [World.step, hi]
      refine fulfils_of_found rfl founds served fun copied ids run_eq => ?_
      rw [World.plan, hi]
      exact stands.copy_numbered sound run_eq
  | merge i j config =>
    cases hi : w.networks[i]? with
    | none => exact fulfils_of_idle (by simp [World.plan, hi]) (by simp [World.step, hi])
    | some first =>
      cases hj : w.networks[j]? with
      | none => exact fulfils_of_idle (by simp [World.plan, hi, hj]) (by simp [World.step, hi, hj])
      | some second =>
        obtain ⟨bare₁, sound₁, stands₁⟩ := h.stands_at hi
        obtain ⟨bare₂, sound₂, stands₂⟩ := h.stands_at hj
        have founds : w.step (.merge i j config) = w.found (first.merge second config) := by
          simp only [World.step, hi, hj]
        refine fulfils_of_found rfl founds served fun merged ids run_eq => ?_
        rw [World.plan, hi, hj]
        exact stands₁.merge_numbered sound₁ stands₂ sound₂ run_eq
  | reseed i random =>
    refine ⟨?_, fun m ref there => ?_⟩
    · simp only [World.step, World.plan]
      cases w.networks[i]? <;> rfl
    · cases there
  | call i c => exact fulfils_call certain served

theorem ids_mutation (w : World) (mutation : r.isMutation) :
    (w.step r).2.ids.next ≤ w.ids.next + 1 := by
  unfold Request.isMutation at mutation
  split at mutation
  · rename_i i m
    cases hi : w.networks[i]? with
    | none =>
      simp only [step, hi]
      exact Nat.le_succ _
    | some net =>
      have spends : Spends 1 (Call.mutate m).perform := (spends_mutate m).bind fun _ => spends_pure _
      have spent := spends (w.ids, net)
      simp only [step, hi, act]
      cases run_eq : (Call.mutate m).perform.run (w.ids, net) <;>
        simpa only [run_eq, after_ok, after_error] using spent
  · cases mutation

end Steps

section Runs

variable {cs : List Request} {s t : Nat}

def upTo (cs : List Request) (t : Nat) : World := ({} : World).run (cs.take t)

theorem upTo_le (le : s ≤ t) : upTo cs t = (upTo cs s).run ((cs.take t).drop s) := by
  have split := List.take_append_drop s (cs.take t)
  rw [List.take_take, Nat.min_eq_left le] at split
  rw [upTo, upTo, ← run_append, split]

theorem twins_upTo (cs : List Request) (t : Nat) : ∃ w', (upTo cs t).Twins w' :=
  ⟨_, (Twins.empty.run (cs.take t)).2⟩

/-- No id is shared in the run, and none is used twice. -/
structure Unshared (cs : List Request) : Prop where
  listed : ∀ t i net, (upTo cs t).networks[i]? = some net →
    net.ids.Nodup ∧ ∀ id, id ∈ net.ids ↔ (upTo cs t).Denotes i id
  apart : ∀ t i j id, (upTo cs t).Denotes i id → (upTo cs t).Denotes j id → i = j
  /-- One request took the id, for the network in which it has been in use ever since. -/
  origin : ∀ t i id, (upTo cs t).Denotes i id → ∃ s r, s < t ∧ cs[s]? = some r ∧
    (upTo cs s).Takes r id ∧ (upTo cs s).subject r = i ∧
    (∀ u, s < u → u ≤ t → (upTo cs u).Denotes i id) ∧
    ∀ s' r', cs[s']? = some r' → (upTo cs s').Takes r' id → s' = s
  spent : ∀ s t u i j id, s ≤ t → t ≤ u → (upTo cs s).Denotes i id → ¬ (upTo cs t).Denotes i id →
    ¬ (upTo cs u).Denotes j id
  /-- What is there by now and was not there before has larger ids than what was there. -/
  later : ∀ s t i j id id', s ≤ t → (upTo cs s).Denotes i id → (upTo cs t).Denotes j id' →
    ¬ (upTo cs s).Denotes j id' → id < id'
  /-- The ids of what one request makes are in the order in which it is made. -/
  ordered : ∀ t r reply, cs[t]? = some r → ((upTo cs t).step r).1 = .ok reply →
    r.isMutation = false → (upTo cs t).Fulfils r
  mutated : ∀ t r, cs[t]? = some r → r.isMutation →
    ((upTo cs t).step r).2.ids.next ≤ (upTo cs t).ids.next + 1
  joined : ∀ t i net c, (upTo cs t).networks[i]? = some net → net.graph.contains c →
    (upTo cs t).Denotes i c.source ∧ (upTo cs t).Denotes i c.target
  foreign : ∀ t i net id, (upTo cs t).networks[i]? = some net → ¬ (upTo cs t).Denotes i id →
    (upTo cs t).Disowns i net id
  unlinked : ∀ t i net, (upTo cs t).networks[i]? = some net → (upTo cs t).DisownsLinks i net

theorem listed_upTo {i : Nat} {net : Network} (hi : (upTo cs t).networks[i]? = some net) :
    net.ids.Nodup ∧ ∀ id, id ∈ net.ids ↔ (upTo cs t).Denotes i id := by
  obtain ⟨w', twins⟩ := twins_upTo cs t
  obtain ⟨bare, sound, stands⟩ := twins.stands_at hi
  refine ⟨stands.nodup_ids sound, fun id => ?_⟩
  rw [denotes_iff hi, stands.mem_ids sound]

theorem origin_upTo {i : Nat} {id : NeuronId} (den : (upTo cs t).Denotes i id) :
    ∃ s r, s < t ∧ cs[s]? = some r ∧ (upTo cs s).Takes r id ∧ (upTo cs s).subject r = i ∧
      (∀ u, s < u → u ≤ t → (upTo cs u).Denotes i id) ∧
      ∀ s' r', cs[s']? = some r' → (upTo cs s').Takes r' id → s' = s := by
  have nothing : ¬ ({} : World).Denotes i id := fun ⟨_, hi, _⟩ => by cases hi
  have part {u : Nat} (le : u ≤ t) : (cs.take t).take u = cs.take u := by
    rw [List.take_take, Nat.min_eq_left le]
  obtain ⟨s, r, there, taken, subject_eq⟩ := Twins.empty.exists_takes nothing den
  have before : s < t := by
    have := (List.getElem?_eq_some_iff.mp there).1
    rw [List.length_take] at this
    omega
  have there' : cs[s]? = some r := (List.getElem?_take_of_lt before).symm.trans there
  rw [part (Nat.le_of_lt before)] at taken subject_eq
  refine ⟨s, r, before, there', taken, subject_eq, fun u since le => ?_, fun s' r' hr' taken' => ?_⟩
  · have still := Twins.empty.denotes_since den (part (Nat.le_of_lt before) ▸ taken) there since
    rwa [part le] at still
  · exact taken.unique there' taken' hr'

/-- Whatever is asked for, ids are never shared and never used again. -/
theorem ids_unshared (cs : List Request) : Unshared cs where
  listed _ _ _ hi := listed_upTo hi
  apart t := Twins.empty.apart_run apart_empty (cs.take t)
  origin _ _ _ den := origin_upTo den
  spent s t u i j id first second den gone := by
    obtain ⟨w', twins⟩ := twins_upTo cs s
    rw [upTo_le first] at gone
    rw [upTo_le second, upTo_le first]
    exact twins.never_again (Twins.empty.apart_run apart_empty _) den gone _ j
  later s t i j id id' le den den' new := by
    obtain ⟨w', twins⟩ := twins_upTo cs s
    rw [upTo_le le] at den'
    exact twins.lt_of_later den den' new
  ordered t r reply _ served certain := by
    obtain ⟨w', twins⟩ := twins_upTo cs t
    exact twins.fulfils certain served
  mutated _ _ _ mutation := ids_mutation _ mutation
  joined t i net c hi there := by
    obtain ⟨w', twins⟩ := twins_upTo cs t
    obtain ⟨source, target⟩ := (twins.linked hi).ends_of_contains there
    exact ⟨(denotes_iff hi).mpr source, (denotes_iff hi).mpr target⟩
  foreign t i net id hi lost := by
    obtain ⟨w', twins⟩ := twins_upTo cs t
    exact twins.disowns hi lost
  unlinked t i net hi := by
    obtain ⟨w', twins⟩ := twins_upTo cs t
    exact twins.disownsLinks hi

example : (({} : World).run [.new 1 [] 1 { biasInit := ⟨0, 0⟩ }, .copy 0, .call 1 (.removeNeuron 4),
    .call 1 (.addNeuron .output)]).networks.map Network.ids = [[1, 2], [3, 5]] := by decide +kernel

end Runs

end World

end GatedNetwork
