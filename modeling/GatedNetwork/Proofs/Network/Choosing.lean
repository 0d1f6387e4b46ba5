import GatedNetwork.Proofs.Network.Directed
import GatedNetwork.Proofs.Network.Drawing
import GatedNetwork.Proofs.Random.Choosing

/-! What mutations choose from. A choice fails only where there is nothing to choose from, and then
it has read nothing from the random stream. -/

namespace GatedNetwork

theorem length_lt_two_iff {α : Type} {xs : List α} (nodup : xs.Nodup) :
    xs.length < 2 ↔ ∀ a ∈ xs, ∀ b ∈ xs, a = b := by
  constructor
  · intro few a ha b hb
    obtain ⟨i, hi, rfl⟩ := List.getElem_of_mem ha
    obtain ⟨j, hj, rfl⟩ := List.getElem_of_mem hb
    obtain rfl : i = j := by omega
    rfl
  · intro same
    by_contra many
    have places : 0 < xs.length ∧ 1 < xs.length := by omega
    have eq := same xs[0] (List.getElem_mem places.1) xs[1] (List.getElem_mem places.2)
    exact absurd ((nodup.getElem_inj_iff).mp eq) Nat.zero_ne_one

namespace Network

section Picking

variable {α : Type} {net : Network} {xs : List α}

theorem pick_of_nil (none : xs = []) (reason : Unavailability) :
    (pick xs reason).run net = .error (.mutationUnavailable reason) net := by
  subst none
  rfl

theorem pick_run (net : Network) (some : xs ≠ []) (reason : Unavailability) :
    ∃ x ∈ xs, ∃ r, (Draw.choose xs).run net.random = .ok (.some x) r ∧
      net.random.position < r.position ∧
      (pick xs reason).run net = .ok x { net with random := r } := by
  obtain ⟨choice, r, run_eq, ⟨x, hx, rfl⟩, read⟩ := Draw.gives_choose some net.random
  exact ⟨x, hx, r, run_eq, read, bind_of_ok (onRandom_of_ok run_eq)⟩

theorem pickPair_of_few (few : xs.length < 2) (reason : Unavailability) :
    (pickPair xs reason).run net = .error (.mutationUnavailable reason) net := by
  rw [pickPair, if_pos few]
  rfl

theorem pickPair_run (net : Network) (nodup : xs.Nodup) (many : ¬ xs.length < 2) (reason : Unavailability) :
    ∃ a ∈ xs, ∃ b ∈ xs, a ≠ b ∧ ∃ r,
      (pickPair xs reason).run net = .ok (a, b) { net with random := r } := by
  obtain ⟨⟨i, j⟩, r, run_eq, ⟨hi, hj, differ⟩, -⟩ :=
    Draw.gives_choosePair (Nat.le_of_not_lt many) net.random
  refine ⟨xs[i], List.getElem_mem hi, xs[j], List.getElem_mem hj, fun same => ?_, r, ?_⟩
  · exact differ ((nodup.getElem_inj_iff).mp same)
  · rw [pickPair, if_neg many]
    refine (bind_of_ok (onRandom_of_ok run_eq)).trans ?_
    simp only [List.getElem?_eq_getElem hi, List.getElem?_eq_getElem hj, pure_run]

end Picking

section Candidates

variable {bound : NeuronId} {net bare : Network} {id : NeuronId}

theorem nonInputs_sublist (net : Network) : net.nonInputs.Sublist net.ids := by
  rw [← neurons_ids]
  exact List.filter_sublist.map _

theorem Sound.nodup_nonInputs (h : net.Sound bound []) : net.nonInputs.Nodup :=
  h.nodup_ids.sublist net.nonInputs_sublist

theorem Sound.contains_of_mem_nonInputs (h : net.Sound bound []) (listed : id ∈ net.nonInputs) :
    net.graph.neurons.contains id :=
  (h.mem_ids id).mp (net.nonInputs_sublist.subset listed)

theorem StandsFor.nonInputs_eq (h : bare.StandsFor net) : net.nonInputs = bare.nonInputs := by
  cases h <;> rfl

theorem forwardGaps_eq_nil_iff : net.forwardGaps = [] ↔ net.neurons.Pairwise fun a b =>
    a.2 ≠ .output → b.2 ≠ .input → net.graph.contains ⟨a.1, b.1⟩ := by
  have listed (xs : List (NeuronId × LayerRef)) : forwardGaps.gaps net xs = [] ↔
      xs.Pairwise fun a b => a.2 ≠ .output → b.2 ≠ .input → net.graph.contains ⟨a.1, b.1⟩ := by
    induction xs with
    | nil => simp [forwardGaps.gaps]
    | cons first later ih =>
      obtain ⟨source, layer⟩ := first
      rw [forwardGaps.gaps, List.append_eq_nil_iff, ih, List.pairwise_cons]
      refine and_congr_left fun _ => ?_
      by_cases sends : layer = .output
      · simp [sends]
      · simp [sends, List.filter_eq_nil_iff]
  exact listed net.neurons

theorem absent_of_mem_forwardGaps {gap : NeuronId × NeuronId} (there : gap ∈ net.forwardGaps) :
    net.graph.contains ⟨gap.1, gap.2⟩ = false := by
  have listed (xs : List (NeuronId × LayerRef)) (hgap : gap ∈ forwardGaps.gaps net xs) :
      net.graph.contains ⟨gap.1, gap.2⟩ = false := by
    induction xs with
    | nil => cases hgap
    | cons first later ih =>
      rw [forwardGaps.gaps, List.mem_append] at hgap
      rcases hgap with here | rest
      · split at here
        · cases here
        · obtain ⟨target, found, rfl⟩ := List.mem_map.mp here
          simpa using (Bool.and_eq_true_iff.mp (List.mem_filter.mp found).2).2
      · exact ih rest
  exact listed net.neurons there

theorem Sound.contains_of_mem_forwardGaps (h : net.Sound bound []) {gap : NeuronId × NeuronId}
    (there : gap ∈ net.forwardGaps) :
    net.graph.neurons.contains gap.1 ∧ net.graph.neurons.contains gap.2 := by
  have listed := (ascends_of_mem_forwardGaps h.nodup_ids there).forward.subset
  exact ⟨(h.mem_ids _).mp (listed List.mem_cons_self), (h.mem_ids _).mp (listed (by simp))⟩

end Candidates

end Network

end GatedNetwork
