import Mathlib.Data.List.Range
import GatedNetwork.Proofs.Snapshot.Arranged

/-! Chains of descriptions. Where both list their neurons layer by layer, the second keeps its order
behind the first, moved up so far that its inputs meet the outputs of the first. -/

namespace GatedNetwork

def ConnectionRecord.shift (m : Nat) (r : ConnectionRecord) : ConnectionRecord :=
  { r with source := m + r.source, target := m + r.target, gater := r.gater.map (m + ·) }

theorem ConnectionRecord.inRange_iff {r : ConnectionRecord} {n : Nat} :
    r.inRange n ↔ r.source < n ∧ r.target < n ∧ ∀ i, r.gater = some i → i < n := by
  simp [inRange, and_assoc, Option.all_eq_true]

/-- The record in front of another description, whose inputs meet its outputs in the layer `hidden`. -/
def NeuronRecord.front (hidden : Nat) (r : NeuronRecord) : NeuronRecord :=
  if r.layer = .output then { r with layer := .hidden hidden } else r

def NeuronRecord.behind (hidden : Nat) (r : NeuronRecord) : NeuronRecord :=
  match r.layer with
  | .hidden i => { r with layer := .hidden (hidden + 1 + i) }
  | _ => r

namespace Snapshot

section Asked

variable {place : Nat → NeuronId} {rs rs' : List ConnectionRecord} {c : ConnectionId}

theorem asked?_congr (same : rs.filter (·.between place = c) = rs'.filter (·.between place = c)) :
    asked? place rs c = asked? place rs' c := by
  rw [asked?, asked?, same]

theorem asked?_shift (place : Nat → NeuronId) (m : Nat) (rs : List ConnectionRecord) (c : ConnectionId) :
    asked? place (rs.map (·.shift m)) c = asked? (fun i => place (m + i)) rs c := by
  have between_eq (r : ConnectionRecord) : (r.shift m).between place = r.between fun i => place (m + i) := rfl
  have gater_eq (l : List ConnectionRecord) : (l.map (·.shift m)).findSome? (·.gater) =
      (l.findSome? (·.gater)).map (m + ·) := by
    induction l with
    | nil => rfl
    | cons r l ih =>
      rw [List.map_cons, List.findSome?_cons, List.findSome?_cons, ih]
      cases hg : r.gater <;> simp [ConnectionRecord.shift, hg]
  simp only [asked?, List.filter_map, Function.comp_def, between_eq, List.getLast?_map,
    ← List.map_reverse, gater_eq, Option.map_map]
  rfl

theorem asked?_rename {f : NeuronId → NeuronId}
    (names : ∀ r ∈ rs, r.between (f ∘ place) = c.rename f ↔ r.between place = c) :
    asked? (f ∘ place) rs (c.rename f) = (asked? place rs c).map (Connection.rename f) := by
  have named_eq : rs.filter (·.between (f ∘ place) = c.rename f) = rs.filter (·.between place = c) :=
    List.filter_congr fun r hr => decide_eq_decide.mpr (names r hr)
  simp only [asked?, named_eq, Option.map_map]
  congr 1
  funext r
  simp [Connection.rename, Function.comp_def]

end Asked

def count (s : Snapshot) (ref : LayerRef) : Nat := s.neurons.countP (·.layer = ref)

section Order

variable {s : Snapshot}

theorem filter_append_filter {α : Type} {p : α → Bool} {xs : List α}
    (h : xs.Pairwise fun a b => p b → p a) : xs.filter p ++ xs.filter (!p ·) = xs := by
  induction xs with
  | nil => rfl
  | cons x xs ih =>
    obtain ⟨first, later⟩ := List.pairwise_cons.mp h
    cases hx : p x with
    | true => simp [hx, ih later]
    | false =>
      have none_later : ∀ y ∈ xs, p y = false :=
        fun y hy => Bool.eq_false_iff.mpr fun hp => by simp [first y hy hp] at hx
      have nothing : xs.filter p = [] := List.filter_eq_nil_iff.mpr fun y hy => by simp [none_later y hy]
      have all : xs.filter (!p ·) = xs := List.filter_eq_self.mpr fun y hy => by simp [none_later y hy]
      simp [hx, nothing, all]

theorem Arranged.inputs_first (h : s.Arranged) :
    s.neurons.filter (·.layer = .input) ++ s.neurons.filter (·.layer ≠ .input) = s.neurons := by
  have sorted : s.neurons.Pairwise fun a b => decide (b.layer = .input) → decide (a.layer = .input) := by
    refine h.imp fun {a b} ordered hb => ?_
    simp only [decide_eq_true_eq] at hb ⊢
    cases ha : a.layer <;> simp_all [LayerRef.Before]
  have split := filter_append_filter sorted
  simpa using split

theorem Arranged.outputs_last (h : s.Arranged) :
    s.neurons.filter (·.layer ≠ .output) ++ s.neurons.filter (·.layer = .output) = s.neurons := by
  have sorted : s.neurons.Pairwise fun a b => decide (b.layer ≠ .output) → decide (a.layer ≠ .output) := by
    refine h.imp fun {a b} ordered hb => ?_
    simp only [decide_eq_true_eq] at hb ⊢
    intro ha
    cases hl : b.layer <;> simp_all [LayerRef.Before]
  have split := filter_append_filter sorted
  simpa using split

theorem outputPlaces_eq (rs : List NeuronRecord) :
    outputPlaces rs = (rs.zipIdx.filter fun p => p.1.layer = .output).map (·.2) := rfl

theorem outputPlaces_append {front outs : List NeuronRecord} (hf : ∀ r ∈ front, r.layer ≠ .output)
    (ho : ∀ r ∈ outs, r.layer = .output) :
    outputPlaces (front ++ outs) = List.range' front.length outs.length := by
  have none_front : (front.zipIdx.filter fun p => p.1.layer = .output) = [] := by
    refine List.filter_eq_nil_iff.mpr fun p hp => ?_
    simpa using hf p.1 (List.fst_mem_of_mem_zipIdx hp)
  have all_outs : ((outs.zipIdx front.length).filter fun p => p.1.layer = .output) =
      outs.zipIdx front.length := by
    refine List.filter_eq_self.mpr fun p hp => ?_
    simpa using ho p.1 (List.fst_mem_of_mem_zipIdx hp)
  rw [outputPlaces_eq, List.zipIdx_append, List.filter_append, Nat.zero_add, none_front, all_outs,
    List.nil_append, List.zipIdx_map_snd]

/-- Inputs take the places of outputs, as many as there are; the others follow one by one. -/
theorem placements_append {ins rest : List NeuronRecord} {outs : List Nat} {next : Nat}
    (length_eq : outs.length = ins.length) (hi : ∀ r ∈ ins, r.layer = .input)
    (hr : ∀ r ∈ rest, r.layer ≠ .input) :
    placements outs next (ins ++ rest) = outs ++ List.range' next rest.length := by
  induction ins generalizing outs with
  | nil =>
    obtain rfl := List.length_eq_zero_iff.mp length_eq
    induction rest generalizing next with
    | nil => rfl
    | cons r rest ih =>
      have step : placements [] next (r :: rest) = next :: placements [] (next + 1) rest := by
        rw [placements]
        exact fun _ _ _ same => nomatch same
      have later : placements [] (next + 1) rest = List.range' (next + 1) rest.length :=
        ih fun q hq => hr q (List.mem_cons_of_mem r hq)
      rw [List.nil_append, step, later, List.length_cons, List.range'_succ, List.nil_append]
  | cons r ins ih =>
    cases outs with
    | nil => simp at length_eq
    | cons o outs =>
      have layer_eq := hi r List.mem_cons_self
      have later := ih (Nat.succ.inj length_eq) fun q hq => hi q (List.mem_cons_of_mem r hq)
      rw [List.cons_append, placements, later, List.cons_append]
      exact layer_eq

end Order

section Chains

/-- Of two descriptions the second can come behind the first: it has as many inputs as there are
outputs. -/
structure Adjoins (first second : Snapshot) (hidden : Nat) : Prop where
  arranged_first : first.Arranged
  arranged_second : second.Arranged
  valid_first : first.validate = .ok ()
  valid_second : second.validate = .ok ()
  sizes : first.count .output = second.count .input
  room : ∀ r ∈ first.neurons, ∀ i, r.layer = .hidden i → i < hidden

/-- Two descriptions of which the second can come behind the first, and nothing in the second enters
its inputs. -/
structure Meets (first second : Snapshot) (hidden : Nat) : Prop extends first.Adjoins second hidden where
  sealed : ∀ r ∈ second.connections, second.count .input ≤ r.target

def offset (first second : Snapshot) : Nat := first.neurons.length - second.count .input

variable {first second : Snapshot} {hidden : Nat}

theorem Adjoins.offset_add (h : first.Adjoins second hidden) :
    first.offset second + second.count .input = first.neurons.length := by
  have le : second.count .input ≤ first.neurons.length := h.sizes ▸ List.countP_le_length
  exact Nat.sub_add_cancel le

theorem chain_neurons (first second : Snapshot) (hidden : Nat) :
    (first.chain second hidden).neurons = first.neurons.map (·.front hidden) ++
      (second.neurons.filter (·.layer ≠ .input)).map (·.behind hidden) := by
  refine congrArg (first.neurons.map (·.front hidden) ++ ·) ?_
  induction second.neurons with
  | nil => rfl
  | cons r rs ih =>
    cases hl : r.layer <;> simp [hl, ih, NeuronRecord.behind]

theorem Adjoins.outputPlaces_eq (h : first.Adjoins second hidden) :
    outputPlaces first.neurons = List.range' (first.offset second) (second.count .input) := by
  have outs : outputPlaces (first.neurons.filter (·.layer ≠ .output) ++
        first.neurons.filter (·.layer = .output)) =
      List.range' (first.neurons.filter (·.layer ≠ .output)).length
        (first.neurons.filter (·.layer = .output)).length :=
    outputPlaces_append (by simp) (by simp)
  have lengths := congrArg List.length h.arranged_first.outputs_last
  rw [h.arranged_first.outputs_last] at outs
  rw [List.length_append] at lengths
  have count_eq : (first.neurons.filter (·.layer = .output)).length = second.count .input := by
    rw [← List.countP_eq_length_filter, ← h.sizes, count]
  have offset_eq : (first.neurons.filter (·.layer ≠ .output)).length = first.offset second := by
    rw [offset]
    omega
  rw [outs, count_eq, offset_eq]

theorem Adjoins.placements_eq (h : first.Adjoins second hidden) :
    placements (outputPlaces first.neurons) first.neurons.length second.neurons =
      List.range' (first.offset second) second.neurons.length := by
  have length_eq : (outputPlaces first.neurons).length =
      (second.neurons.filter (·.layer = .input)).length := by
    rw [h.outputPlaces_eq, List.length_range', ← List.countP_eq_length_filter, count]
  have split : placements (outputPlaces first.neurons) first.neurons.length
        (second.neurons.filter (·.layer = .input) ++ second.neurons.filter (·.layer ≠ .input)) =
      outputPlaces first.neurons ++ List.range' first.neurons.length
        (second.neurons.filter (·.layer ≠ .input)).length :=
    placements_append length_eq (by simp) (by simp)
  have lengths := congrArg List.length h.arranged_second.inputs_first
  rw [h.arranged_second.inputs_first] at split
  rw [List.length_append, ← List.countP_eq_length_filter] at lengths
  rw [split, h.outputPlaces_eq, ← h.offset_add, List.range'_append_1, ← lengths, count]

/-- All places of the second description move up by the same. -/
theorem Adjoins.chain_connections (h : first.Adjoins second hidden) :
    (first.chain second hidden).connections =
      first.connections ++ second.connections.map (·.shift (first.offset second)) := by
  have place_eq {i : Nat} (hi : i < second.neurons.length) :
      (placements (outputPlaces first.neurons) first.neurons.length second.neurons).getD i 0 =
        first.offset second + i := by
    rw [h.placements_eq]
    simp [hi]
  refine congrArg (first.connections ++ ·) (List.map_congr_left fun r hr => ?_)
  obtain ⟨hs, ht, hg⟩ := ConnectionRecord.inRange_iff.mp (validate_eq_ok_iff.mp h.valid_second r hr)
  have gater_eq : r.gater.map (fun i =>
      (placements (outputPlaces first.neurons) first.neurons.length second.neurons).getD i 0) =
        r.gater.map (first.offset second + ·) := by
    cases hgater : r.gater with
    | none => rfl
    | some i => exact congrArg some (place_eq (hg i hgater))
  dsimp only
  rw [ConnectionRecord.shift, place_eq hs, place_eq ht, gater_eq]

theorem front_layer (hidden : Nat) (r : NeuronRecord) :
    (r.front hidden).layer = if r.layer = .output then .hidden hidden else r.layer := by
  unfold NeuronRecord.front
  split <;> simp_all

theorem Adjoins.length_chain (h : first.Adjoins second hidden) :
    (first.chain second hidden).neurons.length = first.offset second + second.neurons.length := by
  have lengths := congrArg List.length h.arranged_second.inputs_first
  have offset_eq := h.offset_add
  rw [List.length_append, ← List.countP_eq_length_filter] at lengths
  rw [count] at offset_eq
  rw [chain_neurons, List.length_append, List.length_map, List.length_map]
  omega

theorem count_chain_input (first second : Snapshot) (hidden : Nat) :
    (first.chain second hidden).count .input = first.count .input := by
  have front_iff : (fun r : NeuronRecord => decide ((r.front hidden).layer = .input)) =
      fun r => decide (r.layer = .input) := by
    funext r
    cases hl : r.layer <;> simp [NeuronRecord.front, hl]
  have behind_none : ((second.neurons.filter (·.layer ≠ .input)).map (·.behind hidden)).countP
      (·.layer = .input) = 0 := by
    refine List.countP_eq_zero.mpr fun r hr => ?_
    obtain ⟨q, hq, rfl⟩ := List.mem_map.mp hr
    have layer_ne := (List.mem_filter.mp hq).2
    cases hl : q.layer <;> simp_all [NeuronRecord.behind]
  rw [count, chain_neurons, List.countP_append, behind_none, List.countP_map, Nat.add_zero, count]
  exact congrArg (List.countP · first.neurons) front_iff

theorem count_chain_output (first second : Snapshot) (hidden : Nat) :
    (first.chain second hidden).count .output = second.count .output := by
  have front_none : (first.neurons.map (·.front hidden)).countP (·.layer = .output) = 0 := by
    refine List.countP_eq_zero.mpr fun r hr => ?_
    obtain ⟨q, -, rfl⟩ := List.mem_map.mp hr
    cases hl : q.layer <;> simp [NeuronRecord.front, hl]
  rw [count, chain_neurons, List.countP_append, front_none, List.countP_map, Nat.zero_add,
    List.countP_filter, count]
  refine congrArg (List.countP · second.neurons) (funext fun r => ?_)
  cases hl : r.layer <;> simp [NeuronRecord.behind, hl]

theorem behind_layer (hidden : Nat) (r : NeuronRecord) : (r.behind hidden).layer =
    match r.layer with
    | .hidden i => .hidden (hidden + 1 + i)
    | ref => ref := by
  cases hl : r.layer <;> simp [NeuronRecord.behind, hl]

theorem Adjoins.arranged_chain (h : first.Adjoins second hidden) : (first.chain second hidden).Arranged := by
  rw [Arranged, chain_neurons]
  refine List.pairwise_append.mpr ⟨?_, ?_, ?_⟩
  · refine List.pairwise_map.mpr (h.arranged_first.imp_of_mem fun {a b} ha hb ordered => ?_)
    have room := h.room a ha
    rw [front_layer, front_layer]
    clear ha hb
    cases hla : a.layer <;> cases hlb : b.layer <;> simp_all [LayerRef.Before]
    omega
  · refine List.pairwise_map.mpr ((h.arranged_second.sublist List.filter_sublist).imp ?_)
    intro a b ordered
    rw [behind_layer, behind_layer]
    cases hla : a.layer <;> cases hlb : b.layer <;> simp_all [LayerRef.Before]
  · intro a ha b hb
    obtain ⟨q, hq, rfl⟩ := List.mem_map.mp ha
    obtain ⟨r, hr, rfl⟩ := List.mem_map.mp hb
    have room := h.room q hq
    have layer_ne : r.layer ≠ .input := by simpa using (List.mem_filter.mp hr).2
    rw [front_layer, behind_layer]
    clear ha hb hq hr
    cases hla : q.layer <;> cases hlb : r.layer <;> simp_all [LayerRef.Before]
    · omega
    · omega

theorem Adjoins.valid_chain (h : first.Adjoins second hidden) :
    (first.chain second hidden).validate = .ok () := by
  have offset_eq := h.offset_add
  have count_le : second.count .input ≤ second.neurons.length := List.countP_le_length
  refine validate_eq_ok_iff.mpr fun r hr => ?_
  rw [h.chain_connections] at hr
  rw [h.length_chain]
  rcases List.mem_append.mp hr with hr | hr
  · obtain ⟨hs, ht, hg⟩ := ConnectionRecord.inRange_iff.mp (validate_eq_ok_iff.mp h.valid_first r hr)
    refine ConnectionRecord.inRange_iff.mpr ⟨by omega, by omega, fun i hi => ?_⟩
    have lt := hg i hi
    omega
  · obtain ⟨q, hq, rfl⟩ := List.mem_map.mp hr
    obtain ⟨hs, ht, hg⟩ := ConnectionRecord.inRange_iff.mp (validate_eq_ok_iff.mp h.valid_second q hq)
    refine ConnectionRecord.inRange_iff.mpr ⟨Nat.add_lt_add_left hs _, Nat.add_lt_add_left ht _, ?_⟩
    intro j hj
    obtain ⟨i, hi, rfl⟩ := Option.map_eq_some_iff.mp hj
    exact Nat.add_lt_add_left (hg i hi) _

end Chains

/-- The description has another one in it, moved up by `m` places. Of what it says about the neurons
of the other one from the place `low` on, it says nothing else. -/
structure Holds (t : Snapshot) (m low : Nat) (s : Snapshot) : Prop where
  valid : s.validate = .ok ()
  record : ∀ i r, low ≤ i → s.neurons[i]? = some r →
    ∃ r', t.neurons[m + i]? = some r' ∧ r'.squash = r.squash ∧ r'.bias = r.bias
  entering : t.connections.filter (fun r => m + low ≤ r.target ∧ r.target < m + s.neurons.length) =
    s.connections.map (·.shift m)

section Parts

variable {first second : Snapshot} {hidden : Nat}

theorem Meets.holds_first (h : first.Meets second hidden) :
    (first.chain second hidden).Holds 0 0 first where
  valid := h.valid_first
  record i r _ hr := by
    obtain ⟨hi, rfl⟩ := List.getElem?_eq_some_iff.mp hr
    refine ⟨first.neurons[i].front hidden, ?_, ?_, ?_⟩
    · rw [chain_neurons, Nat.zero_add, List.getElem?_append_left (by simpa using hi)]
      simp [hi]
    · unfold NeuronRecord.front
      split <;> rfl
    · unfold NeuronRecord.front
      split <;> rfl
  entering := by
    have offset_eq := h.offset_add
    have own : first.connections.filter (fun r => 0 + 0 ≤ r.target ∧ r.target < 0 + first.neurons.length) =
        first.connections := by
      refine List.filter_eq_self.mpr fun r hr => ?_
      obtain ⟨-, ht, -⟩ := ConnectionRecord.inRange_iff.mp (validate_eq_ok_iff.mp h.valid_first r hr)
      simpa using ht
    have others : (second.connections.map (·.shift (first.offset second))).filter
        (fun r => 0 + 0 ≤ r.target ∧ r.target < 0 + first.neurons.length) = [] := by
      refine List.filter_eq_nil_iff.mpr fun r hr => ?_
      obtain ⟨q, hq, rfl⟩ := List.mem_map.mp hr
      have target_ge := h.sealed q hq
      have target_eq : (q.shift (first.offset second)).target = first.offset second + q.target := rfl
      rw [target_eq, decide_eq_true_eq]
      omega
    have unmoved (r : ConnectionRecord) : r.shift 0 = r := by
      cases r
      simp [ConnectionRecord.shift]
    rw [h.chain_connections, List.filter_append, own, others, List.append_nil]
    simp [unmoved]

theorem Meets.holds_second (h : first.Meets second hidden) :
    (first.chain second hidden).Holds (first.offset second) (second.count .input) second where
  valid := h.valid_second
  record i r low hr := by
    have offset_eq := h.offset_add
    have ins_length : (second.neurons.filter (·.layer = .input)).length = second.count .input :=
      List.countP_eq_length_filter.symm
    rw [← h.arranged_second.inputs_first, List.getElem?_append_right (by omega), ins_length] at hr
    refine ⟨r.behind hidden, ?_, ?_, ?_⟩
    · rw [chain_neurons, List.getElem?_append_right (by rw [List.length_map]; omega), List.length_map,
        List.getElem?_map]
      have place_eq : first.offset second + i - first.neurons.length = i - second.count .input := by omega
      rw [place_eq, hr]
      rfl
    · unfold NeuronRecord.behind
      split <;> rfl
    · unfold NeuronRecord.behind
      split <;> rfl
  entering := by
    have offset_eq := h.offset_add
    have others : first.connections.filter (fun r => first.offset second + second.count .input ≤ r.target ∧
        r.target < first.offset second + second.neurons.length) = [] := by
      refine List.filter_eq_nil_iff.mpr fun r hr => ?_
      obtain ⟨-, ht, -⟩ := ConnectionRecord.inRange_iff.mp (validate_eq_ok_iff.mp h.valid_first r hr)
      rw [decide_eq_true_eq]
      omega
    have own : (second.connections.map (·.shift (first.offset second))).filter
        (fun r => first.offset second + second.count .input ≤ r.target ∧
          r.target < first.offset second + second.neurons.length) =
        second.connections.map (·.shift (first.offset second)) := by
      refine List.filter_eq_self.mpr fun r hr => ?_
      obtain ⟨q, hq, rfl⟩ := List.mem_map.mp hr
      have target_ge := h.sealed q hq
      have target_eq : (q.shift (first.offset second)).target = first.offset second + q.target := rfl
      obtain ⟨-, ht, -⟩ := ConnectionRecord.inRange_iff.mp (validate_eq_ok_iff.mp h.valid_second q hq)
      rw [target_eq, decide_eq_true_eq]
      omega
    rw [h.chain_connections, List.filter_append, others, own, List.nil_append]

end Parts

end Snapshot

end GatedNetwork
