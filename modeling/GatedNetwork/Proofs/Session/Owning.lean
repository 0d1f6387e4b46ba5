import GatedNetwork.Proofs.Network.Gating
import GatedNetwork.Proofs.Session.Ageing

/-! Whose the ids are. A request leaves the ids that are in use where they are, and what it takes from
those that are free goes to one network: the one that it is made to or the one that it makes. So an id
is taken once and for one network, and when its neuron is gone it is never used again. -/

namespace GatedNetwork

open Network

namespace World

def Denotes (w : World) (i : Nat) (id : NeuronId) : Prop :=
  ∃ net, w.networks[i]? = some net ∧ net.graph.neurons.contains id

/-- The id is free, and it is no longer once the request is served. -/
def Takes (w : World) (r : Request) (id : NeuronId) : Prop :=
  w.ids.next ≤ id ∧ id < (w.step r).2.ids.next

def subject (w : World) (r : Request) : Nat := r.target?.getD w.networks.length

section Steps

variable {w w' : World} {i j : Nat} {id : NeuronId} {net : Network} {r : Request}

theorem Twins.contains_iff (h : w.Twins w') (hi : w.networks[i]? = some net) :
    net.graph.neurons.contains id ↔ ∃ ref, id ∈ net.members ref := by
  obtain ⟨bare, sound, stands⟩ := h.stands_at hi
  rw [← stands.mem_ids sound, ← neurons_ids]
  constructor
  · intro listed
    obtain ⟨⟨_, ref⟩, there, rfl⟩ := List.mem_map.mp listed
    exact ⟨ref, (mem_neurons_iff.mp there).2⟩
  · rintro ⟨ref, member⟩
    exact List.mem_map.mpr ⟨(id, ref), mem_neurons_iff.mpr ⟨mem_refs_of_mem_members member, member⟩, rfl⟩

theorem Twins.lt_next (h : w.Twins w') (den : w.Denotes i id) : id < w.ids.next := by
  obtain ⟨net, hi, there⟩ := den
  obtain ⟨bare, sound, stands⟩ := h.stands_at hi
  exact sound.fresh id ((stands.contains_neuron id).symm.trans there)

theorem step_founds (w : World) (untargeted : r.target? = none) :
    (w.step r).2 = w ∨ ∃ new, (w.step r).2 = (w.found new).2 ∧
      Founded (fun _ => Aged (fun _ _ => False) w.ids.next) (fun _ => True) w.ids (new.run w.ids) := by
  have grows : LastsGrowth (fun _ => Aged (fun _ _ => False) w.ids.next) (fun _ _ => True)
    (fun _ => True) w.ids.next := lastsGrowth_aged
  have start (config : Config) : (blank config).Aged (fun _ _ => False) w.ids.next := by
    intro ref id hid
    cases ref <;> simp [members, blank] at hid
  cases r with
  | new input hidden output config =>
    exact .inr ⟨_, rfl, grows.founded_grow (grows.endures_lay input hidden output) fun _ => start config⟩
  | perceptron input hidden output config =>
    refine .inr ⟨_, rfl, grows.founded_grow ?_ fun _ => start config⟩
    exact Endures.bind (grows.endures_lay input hidden output) fun _ =>
      endures_lift fun bound => (grows.edits bound).endures_connect
  | ofSnapshot s config => exact .inr ⟨_, rfl, grows.founded_ofSnapshot s fun _ => start config⟩
  | copy j =>
    simp only [step]
    split
    · exact .inr ⟨_, rfl, grows.founded_copy fun _ => start _⟩
    · exact .inl rfl
  | merge j k config =>
    simp only [step]
    split
    · exact .inr ⟨_, rfl, grows.founded_merge _ _ fun _ => start config⟩
    · exact .inl rfl
  | reseed j random => cases untargeted
  | call j c => cases untargeted

theorem getElem?_found {new : EStateM NetworkError IdSupply Network}
    (hi : (w.found new).2.networks[i]? = some net) :
    w.networks[i]? = some net ∨ i = w.networks.length ∧ ∃ ids, new.run w.ids = .ok net ids := by
  unfold found at hi
  cases run_eq : new.run w.ids with
  | error e ids =>
    rw [run_eq] at hi
    exact .inl hi
  | ok made ids =>
    rw [run_eq] at hi
    rcases Nat.lt_trichotomy i w.networks.length with before | rfl | behind
    · exact .inl ((List.getElem?_append_left before).symm.trans hi)
    · obtain rfl : made = net := by simpa using hi
      exact .inr ⟨rfl, ids, rfl⟩
    · have beyond : (w.networks ++ [made]).length ≤ i := by
        rw [List.length_append]
        exact behind
      cases (List.getElem?_eq_none beyond).symm.trans hi

theorem length_act (w : World) (j : Nat) (net : Network) (action : Growth Reply) :
    (w.act j net action).2.networks.length = w.networks.length := by
  unfold act
  cases action.run (w.ids, net) <;> exact List.length_set

theorem length_step (target : r.target? = some j) : (w.step r).2.networks.length = w.networks.length := by
  cases r with
  | reseed j random =>
    simp only [step]
    split
    · exact w.length_act _ _ _
    · rfl
  | call j c =>
    simp only [step]
    split
    · exact w.length_act _ _ _
    · rfl
  | _ => cases target

/-- What a network is called by after a request it was called by before, or the request took it for
this network. -/
theorem Twins.denotes_step (h : w.Twins w') (den : (w.step r).2.Denotes i id) :
    w.Denotes i id ∨ w.Takes r id ∧ w.subject r = i := by
  obtain ⟨w'', twins⟩ := h.request r
  have taken := twins.lt_next den
  obtain ⟨net', hi', there⟩ := den
  obtain ⟨ref, member⟩ := (twins.contains_iff hi').mp there
  cases hi : w.networks[i]? with
  | some net =>
    by_cases target : r.target? = some i
    · have aged : net.Aged (fun _ id => w.Denotes i id) w.ids.next := fun ref id hid =>
        .inl ⟨net, hi, (h.contains_iff hi).mpr ⟨ref, hid⟩⟩
      obtain ⟨_, same, aged'⟩ := aged_step hi (Nat.le_refl _) aged r
      obtain rfl := Option.some.inj (same.symm.trans hi')
      exact (aged' ref id member).imp_right fun fresh =>
        ⟨⟨fresh, taken⟩, congrArg (Option.getD · w.networks.length) target⟩
    · obtain rfl := Option.some.inj ((networks_step hi target).symm.trans hi')
      exact .inl ⟨_, hi, there⟩
  | none =>
    cases target : r.target? with
    | some j =>
      have lost := (length_step (w := w) target).symm ▸ List.getElem?_eq_none_iff.mp hi
      cases (List.getElem?_eq_none lost).symm.trans hi'
    | none =>
      rcases w.step_founds target with same | ⟨new, made, founded⟩
      · rw [same] at hi'
        cases hi.symm.trans hi'
      · rw [made] at hi'
        rcases getElem?_found hi' with old | ⟨rfl, ids, run_eq⟩
        · cases hi.symm.trans old
        · have fresh := ((founded.of_eq_ok run_eq).2 ref id member).resolve_left not_false
          exact .inr ⟨⟨fresh, taken⟩, congrArg (Option.getD · w.networks.length) target⟩

end Steps

section Runs

variable {w w' : World} {i j : Nat} {id id' : NeuronId} {r : Request} {cs rs : List Request}

theorem run_append (w : World) (cs rs : List Request) : w.run (cs ++ rs) = (w.run cs).run rs :=
  List.foldl_append

theorem ids_run (w : World) (rs : List Request) : w.ids.next ≤ (w.run rs).ids.next := by
  induction rs generalizing w with
  | nil => exact Nat.le_refl _
  | cons r rs ih => exact Nat.le_trans (w.ids_step r) (ih _)

def Apart (w : World) : Prop := ∀ i j id, w.Denotes i id → w.Denotes j id → i = j

theorem Twins.apart_step (h : w.Twins w') (apart : w.Apart) (r : Request) : (w.step r).2.Apart := by
  intro i j id hi hj
  rcases h.denotes_step hi with old | ⟨taken, rfl⟩ <;> rcases h.denotes_step hj with old' | ⟨taken', rfl⟩
  · exact apart i j id old old'
  · exact absurd (h.lt_next old) (Nat.not_lt.mpr taken'.1)
  · exact absurd (h.lt_next old') (Nat.not_lt.mpr taken.1)
  · rfl

theorem Twins.apart_run (h : w.Twins w') (apart : w.Apart) (rs : List Request) : (w.run rs).Apart := by
  induction rs generalizing w w' with
  | nil => exact apart
  | cons r rs ih =>
    obtain ⟨w'', twins⟩ := h.request r
    exact ih twins (h.apart_step apart r)

theorem apart_empty : ({} : World).Apart := by
  rintro i j id ⟨net, hi, -⟩
  cases hi

theorem Twins.denotes_run (h : w.Twins w') (den : (w.run rs).Denotes i id) :
    w.Denotes i id ∨ w.ids.next ≤ id := by
  induction rs generalizing w w' with
  | nil => exact .inl den
  | cons r rs ih =>
    obtain ⟨w'', twins⟩ := h.request r
    rcases ih twins den with soon | free
    · exact (h.denotes_step soon).imp_right fun taken => taken.1.1
    · exact .inr (Nat.le_trans (w.ids_step r) free)

theorem Twins.never_again (h : w.Twins w') (apart : w.Apart) (den : w.Denotes i id)
    (gone : ¬ (w.run rs).Denotes i id) (later : List Request) (j : Nat) :
    ¬ ((w.run rs).run later).Denotes j id := by
  intro again
  rw [← run_append] at again
  have now := (h.denotes_run again).resolve_right (Nat.not_le.mpr (h.lt_next den))
  obtain rfl := apart i j id den now
  rw [run_append] at again
  have twins := (h.run rs).2
  have meanwhile := Nat.lt_of_lt_of_le (h.lt_next den) (w.ids_run rs)
  exact gone ((twins.denotes_run again).resolve_right (Nat.not_le.mpr meanwhile))

theorem Twins.lt_of_later (h : w.Twins w') (den : w.Denotes i id) (later : (w.run rs).Denotes j id')
    (new : ¬ w.Denotes j id') : id < id' :=
  Nat.lt_of_lt_of_le (h.lt_next den) ((h.denotes_run later).resolve_left new)

theorem Twins.exists_takes (h : w.Twins w') (new : ¬ w.Denotes i id) (den : (w.run rs).Denotes i id) :
    ∃ t r, rs[t]? = some r ∧ (w.run (rs.take t)).Takes r id ∧ (w.run (rs.take t)).subject r = i := by
  induction rs generalizing w w' with
  | nil => exact absurd den new
  | cons r rs ih =>
    by_cases soon : (w.step r).2.Denotes i id
    · exact ⟨0, r, rfl, (h.denotes_step soon).resolve_left new⟩
    · obtain ⟨w'', twins⟩ := h.request r
      obtain ⟨t, r', there, taken⟩ := ih twins soon den
      exact ⟨t + 1, r', there, taken⟩

theorem Takes.lt_next {t s : Nat} (taken : (w.run (cs.take t)).Takes r id) (there : cs[t]? = some r)
    (later : t < s) : id < (w.run (cs.take s)).ids.next := by
  have until_then : cs.take (t + 1) = cs.take t ++ [r] := by
    rw [List.take_add_one, there]
    rfl
  have split := List.take_append_drop (t + 1) (cs.take s)
  rw [List.take_take, Nat.min_eq_left later] at split
  rw [← split, run_append, until_then, run_append]
  exact Nat.lt_of_lt_of_le taken.2 (ids_run _ _)

theorem Takes.unique {t s : Nat} {r' : Request} (taken : (w.run (cs.take t)).Takes r id)
    (there : cs[t]? = some r) (taken' : (w.run (cs.take s)).Takes r' id) (there' : cs[s]? = some r') :
    s = t := by
  rcases Nat.lt_trichotomy t s with before | same | behind
  · exact absurd (taken.lt_next there before) (Nat.not_lt.mpr taken'.1)
  · exact same.symm
  · exact absurd (taken'.lt_next there' behind) (Nat.not_lt.mpr taken.1)

/-- From the request on that takes it for a network in which its neuron still is, the id has been that
of a neuron there. -/
theorem Twins.denotes_since (h : w.Twins w') (den : (w.run cs).Denotes i id) {t s : Nat}
    (taken : (w.run (cs.take t)).Takes r id) (there : cs[t]? = some r) (later : t < s) :
    (w.run (cs.take s)).Denotes i id := by
  rw [← List.take_append_drop s cs, run_append] at den
  have twins := (h.run (cs.take s)).2
  exact (twins.denotes_run den).resolve_right (Nat.not_le.mpr (taken.lt_next there later))

end Runs

end World

end GatedNetwork
