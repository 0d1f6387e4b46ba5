import Mathlib.Data.List.Basic
import GatedNetwork.Snapshot.Basic

/-! What a description asks for. Its connection records may name one connection several times: the
last weight counts, and the last gater that is named. -/

namespace GatedNetwork

/-- The connection of a record, when the neurons of the description stand at the given places. -/
def ConnectionRecord.between (r : ConnectionRecord) (place : Nat → NeuronId) : ConnectionId :=
  ⟨place r.source, place r.target⟩

/-- Of two records that are in order the first comes before the second. -/
def ConnectionRecord.Precedes (a b : ConnectionRecord) : Prop :=
  a.source < b.source ∨
    a.source = b.source ∧ a.target ≠ a.source ∧ (b.target = b.source ∨ a.target < b.target)

theorem ConnectionRecord.Precedes.asymm {a b : ConnectionRecord} (h : a.Precedes b) :
    ¬ b.Precedes a := by
  unfold ConnectionRecord.Precedes at *
  omega

/-- A connection that is asked for once more. The later weight counts, and so does the later gater if
there is one. -/
def Connection.overlay (later earlier : Option Connection) : Option Connection :=
  match later with
  | some d => some { d with gater := d.gater.or (earlier.bind (·.gater)) }
  | none => earlier

namespace Snapshot

/-- The neurons of a description under the ids from `start` on, with their layers. -/
def planted (start : NeuronId) (rs : List NeuronRecord) : List (NeuronId × LayerRef) :=
  rs.mapIdx fun i r => (start + i, r.layer)

/-- What the records make of a connection. -/
def asked? (place : Nat → NeuronId) (rs : List ConnectionRecord) (c : ConnectionId) :
    Option Connection :=
  let named := rs.filter (·.between place = c)
  named.getLast?.map fun r =>
    { weight := r.weight, gater := (named.reverse.findSome? (·.gater)).map place }

section Connections

variable {place : Nat → NeuronId} {rs : List ConnectionRecord} {c : ConnectionId} {d : Connection}

theorem gater_asked? (place : Nat → NeuronId) (rs : List ConnectionRecord) (c : ConnectionId) :
    (asked? place rs c).bind (·.gater) =
      ((rs.filter (·.between place = c)).reverse.findSome? (·.gater)).map place := by
  cases hn : (rs.filter (·.between place = c)).getLast? with
  | some last => simp only [asked?, hn, Option.map_some, Option.bind_some]
  | none =>
    rw [List.getLast?_eq_none_iff] at hn
    simp [asked?, hn]

theorem asked?_overlay (place : Nat → NeuronId) (rs later : List ConnectionRecord) (c : ConnectionId) :
    asked? place (rs ++ later) c = Connection.overlay (asked? place later c) (asked? place rs c) := by
  have gater_eq := gater_asked? place rs c
  cases hn : (later.filter (·.between place = c)).getLast? with
  | none =>
    rw [List.getLast?_eq_none_iff] at hn
    simp [asked?, hn, Connection.overlay]
  | some last =>
    simp only [asked?, List.filter_append, List.getLast?_append, hn, Option.some_or, Option.map_some,
      List.reverse_append, List.findSome?_append, Option.map_or] at gater_eq ⊢
    rw [Connection.overlay, gater_eq]

theorem asked?_append (rs : List ConnectionRecord) (r : ConnectionRecord) (c : ConnectionId) :
    asked? place (rs ++ [r]) c =
      if r.between place = c then
        some { weight := r.weight, gater := (r.gater.map place).or ((asked? place rs c).bind (·.gater)) }
      else asked? place rs c := by
  rw [asked?_overlay]
  by_cases hc : r.between place = c
  · rw [if_pos hc]
    cases hg : r.gater <;> simp [asked?, hc, hg, Connection.overlay]
  · simp [asked?, hc, Connection.overlay]

theorem gain_of_asked? (h : asked? place rs c = some d) : d.gain = 1 := by
  obtain ⟨r, -, rfl⟩ := Option.map_eq_some_iff.mp h
  rfl

theorem asked?_isSome_iff : (asked? place rs c).isSome ↔ ∃ r ∈ rs, r.between place = c := by
  rw [← not_iff_not, Bool.not_eq_true, Option.isSome_eq_false_iff, Option.isNone_iff_eq_none]
  simp [asked?]

/-- A connection that one record names is as that record says. -/
theorem asked?_of_unique {r : ConnectionRecord} (nodup : (rs.map (·.between place)).Nodup) (hr : r ∈ rs) :
    asked? place rs (r.between place) = some { weight := r.weight, gater := r.gater.map place } := by
  have named_eq : rs.filter (·.between place = r.between place) = [r] := by
    induction rs with
    | nil => nomatch hr
    | cons x rs ih =>
      obtain ⟨fresh, nodup⟩ := List.nodup_cons.mp nodup
      rcases List.mem_cons.mp hr with rfl | hr
      · rw [List.filter_cons_of_pos (by simp), List.filter_eq_nil_iff.mpr]
        intro y hy same
        exact fresh (List.mem_map.mpr ⟨y, hy, of_decide_eq_true same⟩)
      · rw [List.filter_cons_of_neg, ih nodup hr]
        intro same
        exact fresh (List.mem_map.mpr ⟨r, hr, (of_decide_eq_true same).symm⟩)
  rw [asked?, named_eq]
  cases hg : r.gater <;> simp [hg]

theorem validate_eq_ok_iff {s : Snapshot} :
    s.validate = .ok () ↔ ∀ r ∈ s.connections, r.inRange s.neurons.length := by
  unfold validate
  cases hf : s.connections.findIdx? fun c => !c.inRange s.neurons.length with
  | none =>
    have := List.findIdx?_eq_none_iff.mp hf
    simpa using this
  | some i =>
    obtain ⟨hi, bad, -⟩ := List.findIdx?_eq_some_iff_getElem.mp hf
    refine iff_of_false (fun h => nomatch h) fun good => ?_
    simp [good _ (List.getElem_mem hi)] at bad

end Connections

section Layers

variable {s : Snapshot}

theorem hiddenCount_le_iff {m : Nat} :
    s.hiddenCount ≤ m ↔ ∀ r ∈ s.neurons, ∀ i, r.layer = .hidden i → i < m := by
  have counted {f : Nat → NeuronRecord → Nat}
      (hf : ∀ count r, f count r ≤ m ↔ count ≤ m ∧ ∀ i, r.layer = .hidden i → i < m)
      (rs : List NeuronRecord) (count : Nat) :
      rs.foldl f count ≤ m ↔ count ≤ m ∧ ∀ r ∈ rs, ∀ i, r.layer = .hidden i → i < m := by
    induction rs generalizing count with
    | nil => simp
    | cons r rs ih =>
      rw [List.foldl_cons, ih, hf]
      simp [and_assoc]
  refine (counted (fun count r => ?_) s.neurons 0).trans (and_iff_right (Nat.zero_le m))
  cases hr : r.layer with
  | hidden i =>
    refine Nat.max_le.trans (and_congr_right fun _ => ⟨fun le j same => ?_, fun below => below i rfl⟩)
    obtain rfl := LayerRef.hidden.inj same
    exact le
  | input => simp
  | output => simp

theorem lt_hiddenCount {r : NeuronRecord} (hr : r ∈ s.neurons) {i : Nat} (hi : r.layer = .hidden i) :
    i < s.hiddenCount := hiddenCount_le_iff.mp (Nat.le_refl _) r hr i hi

end Layers

section Order

/-- Records are in order: by their sources, for each source by their targets, and the connection of
a neuron to itself last. -/
def Ordered (s : Snapshot) : Prop := s.connections.Pairwise ConnectionRecord.Precedes

/-- The same records have one order only. -/
theorem Ordered.unique {s t : Snapshot} (hs : s.Ordered) (ht : t.Ordered)
    (neurons_eq : s.neurons = t.neurons) (same : s.connections.Perm t.connections) : s = t := by
  have connections_eq := List.Perm.eq_of_pairwise (fun a b _ _ hab hba => absurd hba hab.asymm)
    hs ht same
  cases s
  cases t
  simp_all

end Order

theorem planted_layers (start : NeuronId) (rs : List NeuronRecord) :
    (planted start rs).map (·.2) = rs.map (·.layer) :=
  List.ext_getElem (by simp [planted]) fun i _ _ => by simp [planted]

theorem planted_append (start : NeuronId) (rs : List NeuronRecord) (r : NeuronRecord) :
    planted start (rs ++ [r]) = planted start rs ++ [(start + rs.length, r.layer)] := by
  simp [planted, List.mapIdx_append]

end Snapshot

end GatedNetwork
