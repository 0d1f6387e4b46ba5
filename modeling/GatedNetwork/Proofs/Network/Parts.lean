import GatedNetwork.Proofs.Program.Lockstep
import GatedNetwork.Proofs.Snapshot.Chaining

/-! Parts of networks. Where a description holds another one, the network made from it hosts the one
made from the other, and before they run it shows the same numbers. -/

namespace GatedNetwork

/-- The name of a neuron once the ids that start at `start` start elsewhere. -/
def renumber (start start' : NeuronId) (id : NeuronId) : NeuronId := start' + (id - start)

theorem renumber_add (start start' : NeuronId) (i : Nat) :
    renumber start start' (start + i) = start' + i := by
  simp [renumber]

namespace Graph

section Numbers

variable {f : NeuronId → NeuronId} {g g' : Graph} {c : ConnectionId}

/-- What takes part in a run decides about all connections of two graphs whose indexes agree. -/
theorem connection?_of_active? (h : g.Consistent) (h' : g'.Consistent)
    (source : g.neurons.contains c.source)
    (source' : c.isSelf → g'.neurons.contains (c.rename f).source)
    (self_eq : (c.rename f).isSelf = c.isSelf)
    (active_eq : g'.active? (c.rename f) = (g.active? c).map (Connection.rename f)) :
    g'.connection? (c.rename f) = (g.connection? c).map (Connection.rename f) := by
  cases hself : c.isSelf with
  | false =>
    rw [active?_of_not_isSelf hself, active?_of_not_isSelf (self_eq.trans hself)] at active_eq
    rw [connection?_of_not_isSelf hself, connection?_of_not_isSelf (self_eq.trans hself), active_eq]
  | true =>
    obtain ⟨n, hn⟩ := get?_of_contains source
    obtain ⟨n', hn'⟩ := get?_of_contains (source' hself)
    have found := h.active?_loop hn
    have found' := h'.active?_loop hn'
    rw [← eq_loop_of_isSelf hself] at found
    rw [← eq_loop_of_isSelf (self_eq.trans hself), active_eq] at found'
    have self_renamed : n'.selfConnection = n.selfConnection.rename f := by
      rw [← found', ← found]
      cases g.active? c <;> rfl
    have loop_eq := eq_loop_of_isSelf hself
    have loop_eq' := eq_loop_of_isSelf (self_eq.trans hself)
    calc
      _ = g'.connection? (.loop (c.rename f).source) := by rw [← loop_eq']
      _ = some (n.selfConnection.rename f) := by
        rw [connection?_loop, hn', Option.map_some, self_renamed]
      _ = (g.connection? (.loop c.source)).map (Connection.rename f) := by
        rw [connection?_loop, hn, Option.map_some, Option.map_some]
      _ = (g.connection? c).map (Connection.rename f) := by rw [← loop_eq]

theorem Resting.reading_zero (h : g.Resting) (id : NeuronId) :
    g.reading (.activation id) = 0 ∧ g.reading (.state id) = 0 := by
  rw [reading_activation, reading_state]
  cases hn : g.neurons.get? id with
  | none => exact ⟨rfl, rfl⟩
  | some n => exact ⟨(h.neurons id n hn).activation, (h.neurons id n hn).state⟩

end Numbers

end Graph

namespace Network

section Parts

variable {s t : Snapshot} {part whole : Network} {config config' : Config} {start start' : NeuronId}
  {m low : Nat} {S : NeuronId → Prop}

theorem Realizes.mem_ids_iff (h : part.Realizes s config start) (arranged : s.Arranged) {id : NeuronId} :
    id ∈ part.ids ↔ ∃ i, i < s.neurons.length ∧ start + i = id := by
  rw [h.ids_planted arranged]
  simp

/-- What enters the neurons of the part from the place `low` on is as it is in the part. -/
theorem Realizes.active?_part (h : part.Realizes s config start) (h' : whole.Realizes t config' start')
    (holds : t.Holds m low s) (i : Nat) {j : Nat} (hj : low ≤ j) (lt : j < s.neurons.length) :
    whole.graph.active? (ConnectionId.rename (renumber start (start' + m)) ⟨start + i, start + j⟩) =
      (part.graph.active? ⟨start + i, start + j⟩).map
        (Connection.rename (renumber start (start' + m))) := by
  have place_eq : (fun i => start' + (m + i)) = renumber start (start' + m) ∘ (start + ·) := by
    funext i
    rw [Function.comp_apply, renumber_add, Nat.add_assoc]
  have named : ∀ r : ConnectionRecord, r.between (start' + ·) =
      ConnectionId.rename (renumber start (start' + m)) ⟨start + i, start + j⟩ →
      m + low ≤ r.target ∧ r.target < m + s.neurons.length := by
    intro r same
    have target_eq : start' + r.target = renumber start (start' + m) (start + j) :=
      congrArg ConnectionId.target same
    rw [renumber_add, Nat.add_assoc] at target_eq
    have place_eq : r.target = m + j := Nat.add_left_cancel target_eq
    omega
  have only : t.connections.filter (fun r => r.between (start' + ·) =
        ConnectionId.rename (renumber start (start' + m)) ⟨start + i, start + j⟩) =
      (s.connections.map (·.shift m)).filter fun r => r.between (start' + ·) =
        ConnectionId.rename (renumber start (start' + m)) ⟨start + i, start + j⟩ := by
    rw [← holds.entering, List.filter_filter]
    refine List.filter_congr fun r _ => ?_
    by_cases same : r.between (start' + ·) =
        ConnectionId.rename (renumber start (start' + m)) ⟨start + i, start + j⟩
    · simp [same, named r same]
    · simp [same]
  rw [h'.active, h.active, Snapshot.asked?_congr only, Snapshot.asked?_shift, place_eq]
  refine Snapshot.asked?_rename fun r _ => ?_
  constructor
  · intro same
    have source_eq : renumber start (start' + m) (start + r.source) = _ :=
      congrArg ConnectionId.source same
    have target_eq : renumber start (start' + m) (start + r.target) = _ :=
      congrArg ConnectionId.target same
    simp only [ConnectionId.rename, renumber_add] at source_eq target_eq
    refine ConnectionId.eq_of_ends ?_ ?_
    · exact congrArg (start + ·) (Nat.add_left_cancel source_eq)
    · exact congrArg (start + ·) (Nat.add_left_cancel target_eq)
  · intro same
    rw [← same]
    rfl

theorem Realizes.active?_rename (h : part.Realizes s config start) (h' : whole.Realizes t config' start')
    (arranged : s.Arranged) (holds : t.Holds m low s)
    (hS : ∀ id, S id ↔ ∃ i, (low ≤ i ∧ i < s.neurons.length) ∧ start + i = id) {c : ConnectionId}
    (hx : c.source ∈ part.ids) (hc : S c.target) :
    whole.graph.active? (c.rename (renumber start (start' + m))) =
      (part.graph.active? c).map (Connection.rename (renumber start (start' + m))) := by
  obtain ⟨i, -, source_eq⟩ := (h.mem_ids_iff arranged).mp hx
  obtain ⟨j, ⟨hj, lt⟩, target_eq⟩ := (hS c.target).mp hc
  have ends_eq : c = ⟨start + i, start + j⟩ := ConnectionId.eq_of_ends source_eq.symm target_eq.symm
  rw [ends_eq]
  exact h.active?_part h' holds i hj lt

/-- The network of a description hosts the network of a description that is held by it. -/
theorem Realizes.hosts (h : part.Realizes s config start) (h' : whole.Realizes t config' start')
    (arranged : s.Arranged) (holds : t.Holds m low s)
    (hS : ∀ id, S id ↔ ∃ i, (low ≤ i ∧ i < s.neurons.length) ∧ start + i = id) :
    part.graph.Hosts (renumber start (start' + m)) (· ∈ part.ids) S whole.graph := by
  have linked := h.sound.consistent.toLinked
  have linked' := h'.sound.consistent.toLinked
  have active_eq (c : ConnectionId) (hx : c.source ∈ part.ids) (hc : S c.target) :=
    h.active?_rename h' arranged holds hS hx hc
  refine ⟨fun id => (h.sound.mem_ids id).symm, fun id hid => ?_, fun a b ha hb lt => ?_,
    fun id n hid hn => ?_, fun id c' hid hc' target_eq => ?_, fun c hx hc => ?_, fun c hx hc => ?_⟩
  · obtain ⟨i, ⟨-, lt⟩, rfl⟩ := (hS id).mp hid
    exact (h.mem_ids_iff arranged).mpr ⟨i, lt, rfl⟩
  · obtain ⟨i, -, rfl⟩ := (h.mem_ids_iff arranged).mp ha
    obtain ⟨j, -, rfl⟩ := (h.mem_ids_iff arranged).mp hb
    rw [renumber_add, renumber_add]
    exact Nat.add_lt_add_left (Nat.lt_of_add_lt_add_left lt) _
  · obtain ⟨i, ⟨hi, lt⟩, rfl⟩ := (hS id).mp hid
    have listed := List.getElem?_eq_getElem lt
    obtain ⟨r', hr', squash_eq, -⟩ := holds.record i _ hi listed
    obtain ⟨n', hn', squash_eq', -⟩ := h'.traits (m + i) r' hr'
    obtain ⟨n₀, hn₀, squash_eq₀, -⟩ := h.traits i _ listed
    obtain rfl := Option.some.inj (hn₀.symm.trans hn)
    rw [renumber_add, Nat.add_assoc]
    exact ⟨n', hn', squash_eq'.trans (squash_eq.trans squash_eq₀.symm)⟩
  · obtain ⟨j, ⟨hj, lt⟩, rfl⟩ := (hS id).mp hid
    rw [← Graph.isSome_active?, h'.active, Snapshot.asked?_isSome_iff] at hc'
    obtain ⟨r, hr, rfl⟩ := hc'
    have name_eq : start' + r.target = renumber start (start' + m) (start + j) := target_eq
    rw [renumber_add, Nat.add_assoc] at name_eq
    have place_eq : r.target = m + j := Nat.add_left_cancel name_eq
    have kept : r ∈ s.connections.map (·.shift m) := by
      rw [← holds.entering, List.mem_filter]
      exact ⟨hr, decide_eq_true (by omega)⟩
    obtain ⟨q, hq, rfl⟩ := List.mem_map.mp kept
    have inRange := ConnectionRecord.inRange_iff.mp (Snapshot.validate_eq_ok_iff.mp holds.valid q hq)
    refine ⟨start + q.source, (h.mem_ids_iff arranged).mpr ⟨_, inRange.1, rfl⟩, ?_⟩
    rw [renumber_add, Nat.add_assoc]
    rfl
  · rw [← Graph.isSome_active?, ← Graph.isSome_active?, active_eq c hx hc, Option.isSome_map]
  · rw [linked'.gater?_eq, linked.gater?_eq, active_eq c hx hc]
    cases part.graph.active? c <;> rfl

theorem Realizes.echoes (h : part.Realizes s config start) (h' : whole.Realizes t config' start')
    (arranged : s.Arranged) (holds : t.Holds m low s)
    (hS : ∀ id, S id ↔ ∃ i, (low ≤ i ∧ i < s.neurons.length) ∧ start + i = id) :
    part.graph.reading.Echoes (renumber start (start' + m)) (· ∈ part.ids) S whole.graph.reading := by
  have hosts := h.hosts h' arranged holds hS
  have connection_eq (c : ConnectionId) (hx : c.source ∈ part.ids) (hc : S c.target) :
      whole.graph.connection? (c.rename (renumber start (start' + m))) =
        (part.graph.connection? c).map (Connection.rename (renumber start (start' + m))) := by
    refine Graph.connection?_of_active? h.sound.consistent h'.sound.consistent
      ((hosts.guests _).mpr hx) (fun self => ?_) (hosts.isSelf_rename hx hc) ?_
    · have ends_eq : c.source = c.target := by simpa [ConnectionId.isSelf] using self
      obtain ⟨n, hn⟩ := Graph.get?_of_contains ((hosts.guests _).mpr (hosts.within _ hc))
      obtain ⟨n', hn', -⟩ := hosts.neuron _ n hc hn
      rw [← ends_eq] at hn'
      exact Graph.contains_of_get? hn'
    · exact h.active?_rename h' arranged holds hS hx hc
  refine ⟨fun id _ => ?_, fun id _ => ?_, fun id hid => ?_, fun c hx hc => ?_, fun c hx hc => ?_⟩
  · rw [(h'.graph_resting.reading_zero _).1, (h.graph_resting.reading_zero _).1]
  · rw [(h'.graph_resting.reading_zero _).2, (h.graph_resting.reading_zero _).2]
  · obtain ⟨i, ⟨hi, lt⟩, rfl⟩ := (hS id).mp hid
    have listed := List.getElem?_eq_getElem lt
    obtain ⟨r', hr', -, bias_eq⟩ := holds.record i _ hi listed
    obtain ⟨n', hn', -, bias_eq'⟩ := h'.traits (m + i) r' hr'
    obtain ⟨n, hn, -, bias_eq₀⟩ := h.traits i _ listed
    rw [renumber_add, Nat.add_assoc, Graph.reading_bias, Graph.reading_bias, hn, hn']
    simp only [Option.map_some, Option.getD_some]
    rw [bias_eq', bias_eq, bias_eq₀]
  · rw [Graph.reading_weight, Graph.reading_weight, connection_eq c hx hc]
    cases part.graph.connection? c <;> rfl
  · rw [Graph.reading_gain, Graph.reading_gain, connection_eq c hx hc]
    cases part.graph.connection? c <;> rfl

end Parts

end Network

end GatedNetwork
