import GatedNetwork.Proofs.Graph.Entries
import GatedNetwork.Proofs.Graph.Gating

/-! Listing and unlisting a connection at a neuron, by the numbers that the neuron keeps. New traces
start beside the old ones, and a trace goes with its input or with the last gate that kept it open. -/

namespace GatedNetwork

/-- The number belongs to a trace towards this neuron. -/
def Key.Towards (target : NeuronId) : Key → Prop
  | .extended _ k _ | .influence _ k => k = target
  | _ => False

def Key.Concerns (c : ConnectionId) : Key → Prop
  | .weight d | .gain d => d = c
  | .eligibility n d | .extended n _ d => n = c.target ∧ d = c
  | _ => False

namespace Neuron

variable {n : Neuron} {c : ConnectionId} {k : Key} {x : Float}

theorem held?_addInput (traced : n.Traced) (absent : n.inputs.contains c = false)
    (h : n.held? k = some x) : (n.addInput c).held? k = some x := by
  cases k with
  | eligibility _ d =>
    have other : c ≠ d := by
      rintro rfl
      have untraced := (traced.eligibility c).trans absent
      rw [SortedMap.contains_eq_isSome, show n.trace.eligibility.get? c = some x from h] at untraced
      nomatch untraced
    simpa [held?, addInput, other] using h
  | extended _ j d =>
    obtain ⟨row, hrow, hx⟩ := Option.bind_eq_some_iff.mp h
    have other : c ≠ d := by
      rintro rfl
      have untraced := (traced.rows j row hrow c).trans absent
      rw [SortedMap.contains_eq_isSome, hx] at untraced
      nomatch untraced
    simp [held?, addInput, hrow, other, hx]
  | _ => exact h

theorem held?_addGated (traced : n.Traced) (h : n.held? k = some x) :
    (n.addGated c).held? k = some x := by
  by_cases opened : n.trace.extended.contains c.target
  · have trace_eq : (n.addGated c).trace = n.trace := by simp [addGated, opened]
    cases k with
    | eligibility | extended | influence => simpa only [held?, trace_eq] using h
    | _ => exact h
  · have trace_eq : (n.addGated c).trace =
        { n.trace with
          extended := n.trace.extended.insert c.target (n.inputs.toMap 0)
          influences := n.trace.influences.insert c.target 0 } := by simp [addGated, opened]
    cases k with
    | eligibility => simpa only [held?, trace_eq] using h
    | extended _ j d =>
      obtain ⟨row, hrow, hx⟩ := Option.bind_eq_some_iff.mp h
      have other : c.target ≠ j := by
        rintro rfl
        exact opened (by simp [SortedMap.contains_eq_isSome, hrow])
      simp [held?, trace_eq, other, hrow, hx]
    | influence _ j =>
      have other : c.target ≠ j := by
        rintro rfl
        refine opened ((traced.influences c.target).symm.trans ?_)
        rw [SortedMap.contains_eq_isSome, show n.trace.influences.get? c.target = some x from h]
        rfl
      simpa [held?, trace_eq, other] using h
    | _ => exact h

theorem held?_removeInput (n : Neuron) (hk : ¬ k.Concerns c) (own : k.IsOf c.target) :
    (n.removeInput c).held? k = n.held? k := by
  cases k with
  | eligibility i d =>
    have other : c ≠ d := fun e => hk ⟨own, e.symm⟩
    simp [held?, removeInput, other]
  | extended i j d =>
    have other : c ≠ d := fun e => hk ⟨own, e.symm⟩
    simp only [held?, removeInput, SortedMap.get?_mapValues]
    cases n.trace.extended.get? j <;> simp [other]
  | _ => rfl

theorem held?_removeGated_of_not_towards (n : Neuron) (hk : ¬ k.Towards c.target) :
    (n.removeGated c).held? k = n.held? k := by
  cases k with
  | extended _ j d =>
    have other : c.target ≠ j := fun e => hk e.symm
    simp only [held?, removeGated]
    split <;> simp [other]
  | influence _ j =>
    have other : c.target ≠ j := fun e => hk e.symm
    simp only [held?, removeGated]
    split <;> simp [other]
  | eligibility =>
    simp only [held?, removeGated]
    split <;> rfl
  | _ => rfl

/-- A gate into the same neuron that stays keeps the traces open. -/
theorem held?_removeGated_of_other (n : Neuron) {d : ConnectionId} (gated : n.gated.contains d)
    (other : d ≠ c) (same : d.target = c.target) : (n.removeGated c).held? k = n.held? k := by
  have stays : (n.gated.erase c).toList.any (·.target == c.target) = true := by
    rw [any_target_iff]
    exact ⟨d, by simp [gated, other.symm], same⟩
  have trace_eq : (n.removeGated c).trace = n.trace := by simp [removeGated, stays]
  cases k with
  | eligibility | extended | influence => simp only [held?, trace_eq]
  | _ => rfl

theorem held?_removeGated_of_last (n : Neuron) (hk : k.Towards c.target)
    (last : ∀ d, n.gated.contains d → d.target = c.target → d = c) :
    (n.removeGated c).held? k = none := by
  have gone : (n.gated.erase c).toList.any (·.target == c.target) = false := by
    rw [Bool.eq_false_iff, ne_eq, any_target_iff]
    rintro ⟨d, hd, same⟩
    simp only [SortedSet.contains_erase, Bool.and_eq_true, decide_eq_true_eq] at hd
    exact hd.2 (last d hd.1 same).symm
  cases k with
  | extended _ j d =>
    obtain rfl := hk
    simp [held?, removeGated, gone]
  | influence _ j =>
    obtain rfl := hk
    simp [held?, removeGated, gone]
  | _ => exact hk.elim

end Neuron

end GatedNetwork
