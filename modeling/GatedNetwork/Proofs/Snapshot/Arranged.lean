import Mathlib.Data.List.Pairwise
import GatedNetwork.Proofs.Network.Copying

/-! Descriptions that list their neurons layer by layer. A network made from one lists its neurons as
the description does, so that the ids follow the places and the ids ascend. -/

namespace GatedNetwork

/-- The first layer is run before the second. -/
def LayerRef.Before : LayerRef → LayerRef → Prop
  | .input, .hidden _ => True
  | .input, .output => True
  | .hidden i, .hidden j => i < j
  | .hidden _, .output => True
  | _, _ => False

theorem LayerRef.Before.irrefl (ref : LayerRef) : ¬ ref.Before ref := by
  cases ref <;> simp [LayerRef.Before]

theorem LayerRef.Before.asymm {a b : LayerRef} (h : a.Before b) : ¬ b.Before a := by
  cases a <;> cases b <;> simp_all [LayerRef.Before]
  omega

/-- No neuron is listed behind one of a later layer. -/
def Snapshot.Arranged (s : Snapshot) : Prop :=
  s.neurons.Pairwise fun a b => ¬ b.layer.Before a.layer

section Grouping

variable {κ β : Type} {key : β → κ} {R : κ → κ → Prop} {ks : List κ} {xs : List β}

theorem flatMap_filter_key [DecidableEq κ] (keys : ks.Pairwise R) (irrefl : ∀ k, ¬ R k k)
    (sorted : xs.Pairwise fun x y => ¬ R (key y) (key x)) (covered : ∀ x ∈ xs, key x ∈ ks) :
    (ks.flatMap fun k => xs.filter (key · = k)) = xs := by
  induction xs with
  | nil => simp
  | cons x xs ih =>
    obtain ⟨first, sorted⟩ := List.pairwise_cons.mp sorted
    obtain ⟨before, after, rfl⟩ := List.append_of_mem (covered x List.mem_cons_self)
    obtain ⟨-, keys_after, keys_before⟩ := List.pairwise_append.mp keys
    have nothing {k : κ} (hk : k ∈ before) : (x :: xs).filter (key · = k) = [] := by
      have lt : R k (key x) := keys_before k hk (key x) List.mem_cons_self
      refine List.filter_eq_nil_iff.mpr fun y hy same => ?_
      obtain rfl : key y = k := of_decide_eq_true same
      rcases List.mem_cons.mp hy with rfl | hy
      · exact irrefl _ lt
      · exact first y hy lt
    have later {k : κ} (hk : k ∈ after) : (x :: xs).filter (key · = k) = xs.filter (key · = k) := by
      refine List.filter_cons_of_neg fun same => ?_
      obtain rfl : key x = k := of_decide_eq_true same
      exact irrefl _ ((List.pairwise_cons.mp keys_after).1 _ hk)
    have rest := ih sorted fun y hy => covered y (List.mem_cons_of_mem _ hy)
    have nothing_left : (before.flatMap fun k => xs.filter (key · = k)) = [] := by
      refine List.flatMap_eq_nil_iff.mpr fun k hk => ?_
      exact List.eq_nil_of_subset_nil (nothing hk ▸ (List.sublist_cons_self x xs).filter _ |>.subset)
    rw [List.flatMap_append, nothing_left, List.nil_append, List.flatMap_cons] at rest
    rw [List.flatMap_append, List.flatMap_eq_nil_iff.mpr fun k hk => nothing hk, List.nil_append,
      List.flatMap_cons, List.flatMap_congr fun k hk => later hk,
      List.filter_cons_of_pos (by simp), List.cons_append, rest]

end Grouping

namespace Network

section Arranging

variable {net : Network} {records : List NeuronRecord} {hidden : Nat} {config : Config}
  {start bound : NeuronId} {s : Snapshot}

theorem pairwise_refs (net : Network) : net.refs.Pairwise LayerRef.Before := by
  have hidden_ascending : ((List.range net.hidden.size).map LayerRef.hidden).Pairwise
      LayerRef.Before := List.pairwise_map.mpr List.pairwise_lt_range
  have output_last : ∀ ref ∈ LayerRef.input :: (List.range net.hidden.size).map .hidden,
      ref.Before .output := by simp [LayerRef.Before]
  refine List.pairwise_append.mpr ⟨List.pairwise_cons.mpr ⟨fun ref href => ?_, hidden_ascending⟩,
    List.pairwise_singleton _ _, fun ref href out hout => ?_⟩
  · obtain ⟨i, -, rfl⟩ := List.mem_map.mp href
    trivial
  · obtain rfl := List.mem_singleton.mp hout
    exact output_last ref href

theorem pairwise_neurons (net : Network) : net.neurons.Pairwise fun a b => ¬ b.2.Before a.2 := by
  rw [neurons_eq_flatMap, List.pairwise_flatMap]
  refine ⟨fun ref _ => ?_, net.pairwise_refs.imp ?_⟩
  · rw [List.pairwise_map]
    exact List.pairwise_of_forall fun _ _ => LayerRef.Before.irrefl ref
  · intro a b lt p hp q hq
    obtain ⟨x, -, rfl⟩ := List.mem_map.mp hp
    obtain ⟨y, -, rfl⟩ := List.mem_map.mp hq
    exact lt.asymm

theorem arranged_described (net : Network) : net.described.Arranged :=
  List.pairwise_map.mpr net.pairwise_neurons

/-- Records that are listed layer by layer are planted in the order in which they are listed. -/
theorem Planted.neurons_planted (h : net.Planted records hidden config start)
    (arranged : records.Pairwise fun a b => ¬ b.layer.Before a.layer)
    (there : ∀ r ∈ records, ∀ i, r.layer = .hidden i → i < hidden) :
    net.neurons = Snapshot.planted start records := by
  rw [h.neurons_eq]
  refine flatMap_filter_key net.pairwise_refs LayerRef.Before.irrefl ?_ fun p hp => ?_
  · have sorted : (records.map (·.layer)).Pairwise fun a b => ¬ b.Before a :=
      List.pairwise_map.mpr arranged
    rw [← Snapshot.planted_layers start, List.pairwise_map] at sorted
    exact sorted
  · obtain ⟨i, hi, rfl⟩ := List.mem_mapIdx.mp hp
    cases hr : records[i].layer with
    | input => simp [refs]
    | output => simp [refs]
    | hidden j =>
      have lt := there records[i] (List.getElem_mem hi) j hr
      rw [← h.size] at lt
      simp [refs, lt]

theorem Realizes.neurons_planted (h : net.Realizes s config start) (arranged : s.Arranged) :
    net.neurons = Snapshot.planted start s.neurons :=
  h.toPlanted.neurons_planted arranged fun _ hr _ hi => Snapshot.lt_hiddenCount hr hi

theorem Realizes.ids_planted (h : net.Realizes s config start) (arranged : s.Arranged) :
    net.ids = (List.range s.neurons.length).map (start + ·) := by
  rw [← neurons_ids, h.neurons_planted arranged]
  exact List.ext_getElem (by simp [Snapshot.planted]) fun i _ _ => by simp [Snapshot.planted]

theorem Realizes.ids_ascend (h : net.Realizes s config start) (arranged : s.Arranged) :
    net.ids.Pairwise (· < ·) := by
  rw [h.ids_planted arranged, List.pairwise_map]
  exact List.pairwise_lt_range.imp fun lt => Nat.add_lt_add_left lt start

theorem Realizes.place_planted (h : net.Realizes s config start) (arranged : s.Arranged) {i : Nat}
    (hi : i < s.neurons.length) : net.place (start + i) = i := by
  have ids_eq := h.ids_planted arranged
  have hlt : i < net.ids.length := by simpa [ids_eq] using hi
  have listed : net.ids[i] = start + i := by simp [ids_eq]
  rw [← listed]
  exact h.sound.place_getElem hlt

end Arranging

end Network

end GatedNetwork
