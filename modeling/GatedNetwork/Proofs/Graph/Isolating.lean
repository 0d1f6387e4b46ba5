import GatedNetwork.Proofs.Graph.Removal

/-! Graphs without connections. Leaving out every connection changes no number that a neuron has of
its own, and a consistent graph from which all connections are gone is the one without them. -/

namespace GatedNetwork

/-- The neuron as it is once nothing connects it and it gates nothing. -/
def Neuron.isolated (n : Neuron) : Neuron :=
  { n with
    inputs := ∅
    projected := ∅
    gated := ∅
    selfConnection := { weight := 0 }
    selfConnected := false
    trace := {} }

@[simp] theorem Neuron.isolated_removeInput (n : Neuron) (c : ConnectionId) :
    (n.removeInput c).isolated = n.isolated := rfl

@[simp] theorem Neuron.isolated_removeGated (n : Neuron) (c : ConnectionId) :
    (n.removeGated c).isolated = n.isolated := rfl

theorem SortedMap.eq_empty_of_contains {κ ν : Type} [Ord κ] [Std.TransOrd κ] [Std.LawfulEqOrd κ]
    {m : SortedMap κ ν} (h : ∀ k, m.contains k = false) : m = ∅ :=
  eq_of_get?_eq fun k => Option.not_isSome_iff_eq_none.mp (by simpa [contains_eq_isSome] using h k)

theorem SortedSet.eq_empty_of_contains {κ : Type} [Ord κ] [Std.TransOrd κ] [Std.LawfulEqOrd κ]
    {s : SortedSet κ} (h : ∀ k, s.contains k = false) : s = ∅ :=
  congrArg SortedSet.mk (SortedMap.eq_empty_of_contains h)

/-- A neuron whose traces follow its connections has none without them. -/
theorem Neuron.Traced.trace_eq_empty {n : Neuron} (h : n.Traced) (inputs_eq : n.inputs = ∅)
    (gated_eq : n.gated = ∅) : n.trace = {} := by
  have eligibility_eq : n.trace.eligibility = ∅ := SortedMap.eq_empty_of_contains fun c => by
    rw [h.eligibility, inputs_eq]
    rfl
  have extended_eq : n.trace.extended = ∅ := SortedMap.eq_empty_of_contains fun k => by
    rw [Bool.eq_false_iff, Ne, h.extended, gated_eq]
    simp
  have influences_eq : n.trace.influences = ∅ := SortedMap.eq_empty_of_contains fun k => by
    rw [h.influences, extended_eq]
    rfl
  cases ht : n.trace
  simp_all

namespace Graph

def isolated (g : Graph) : Graph where
  neurons := g.neurons.mapValues fun _ n => n.isolated
  connections := ∅

section Isolating

variable {g : Graph} {c : ConnectionId} {id : NeuronId}

theorem isolated_modify (g : Graph) (connections : SortedMap ConnectionId Connection) (id : NeuronId)
    {f : Neuron → Neuron} (hf : ∀ n, (f n).isolated = n.isolated) :
    isolated { neurons := g.neurons.modify id f, connections } = g.isolated := by
  have neurons_eq : (g.neurons.modify id f).mapValues (fun _ n => n.isolated) =
      g.neurons.mapValues fun _ n => n.isolated := SortedMap.eq_of_get?_eq fun x => by
    simp only [SortedMap.get?_mapValues, SortedMap.get?_modify]
    split
    · simp [Function.comp_def, hf]
    · rfl
  rw [isolated, isolated, neurons_eq]

theorem isolated_withNeuron (g : Graph) (id : NeuronId) {f : Neuron → Neuron}
    (hf : ∀ n, (f n).isolated = n.isolated) : (g.withNeuron id f).isolated = g.isolated :=
  isolated_modify g g.connections id hf

theorem isolated_withConnection (g : Graph) (c : ConnectionId) (f : Connection → Connection) :
    (g.withConnection c f).isolated = g.isolated := by
  unfold withConnection
  split
  · exact isolated_modify g g.connections c.source fun n => by rfl
  · rfl

theorem isolated_ungated (g : Graph) (c : ConnectionId) : (g.ungated c).isolated = g.isolated := by
  unfold ungated
  split
  · rfl
  · exact (isolated_withNeuron _ _ (·.isolated_removeGated c)).trans (isolated_withConnection g c _)

theorem isolated_detach (g : Graph) (c : ConnectionId) : (g.detach c).isolated = g.isolated := by
  have source_isolated : (g.withNeuron c.source fun n =>
      { n with projected := n.projected.erase c }).isolated = g.isolated :=
    isolated_withNeuron g c.source (f := fun n => { n with projected := n.projected.erase c })
      fun _ => rfl
  exact (isolated_modify _ _ c.target (·.isolated_removeInput c)).trans source_isolated

theorem isolated_disconnected (g : Graph) (c : ConnectionId) :
    (g.disconnected c).isolated = g.isolated := by
  unfold disconnected
  split
  · rw [disabled, isolated_withNeuron _ c.source (fun _ => by rfl), isolated_ungated]
  · exact (isolated_detach _ c).trans (isolated_ungated g c)

theorem isolated_stripped (g : Graph) (cs : List ConnectionId) :
    (g.stripped cs).isolated = g.isolated := by
  induction cs generalizing g with
  | nil => rfl
  | cons c cs ih => exact (ih (g.disconnected c)).trans (isolated_disconnected g c)

theorem contains_stripped (g : Graph) (cs : List ConnectionId) (c : ConnectionId) :
    (g.stripped cs).contains c = (g.contains c && c ∉ cs) := by
  induction cs generalizing g with
  | nil => simp [stripped]
  | cons d cs ih =>
    rw [stripped, List.foldl_cons, ← stripped, ih, contains_disconnected]
    by_cases hd : d = c
    · simp [hd]
    · simp [hd, Ne.symm hd]

/-- Where no connection is there, the indexes have nothing to name. -/
theorem Consistent.isolated_eq (h : g.Consistent) (none : ∀ c, g.contains c = false) :
    g.isolated = g := by
  have unstored (c : ConnectionId) : g.connections.contains c = false := by
    refine Bool.eq_false_iff.mpr fun hc => ?_
    have there := none c
    rw [contains_of_not_isSelf (h.joined c hc).1, hc] at there
    nomatch there
  have ungated (c : ConnectionId) (x : NeuronId) : g.gater? c ≠ some x := fun hx => by
    have there := (h.gater_mem c x hx).1
    rw [none c] at there
    nomatch there
  have alone (id : NeuronId) (n : Neuron) (hn : g.neurons.get? id = some n) : n.isolated = n := by
    have inputs_eq : n.inputs = ∅ := SortedSet.eq_empty_of_contains fun c => by
      rw [Bool.eq_false_iff, Ne, h.inputs_iff id n hn, unstored]
      simp
    have projected_eq : n.projected = ∅ := SortedSet.eq_empty_of_contains fun c => by
      rw [Bool.eq_false_iff, Ne, h.projected_iff id n hn, unstored]
      simp
    have gated_eq : n.gated = ∅ := SortedSet.eq_empty_of_contains fun c => by
      rw [Bool.eq_false_iff, Ne, h.gated_iff id n hn]
      exact ungated c id
    have disabled : n.selfConnected = false := by simpa [contains_loop, hn] using none (.loop id)
    have self_there : g.connection? (.loop id) = some n.selfConnection := by
      rw [connection?_loop, hn, Option.map_some]
    have free : n.selfConnection.gater = Option.none := by
      refine Option.eq_none_iff_forall_ne_some.mpr fun x hx => ungated (.loop id) x ?_
      rw [gater?, self_there]
      exact hx
    have self_eq : n.selfConnection = { weight := 0 } := by
      have weight_eq := h.disabled_weight id n hn disabled
      have gain_eq := h.ungated_gain (.loop id) n.selfConnection self_there free
      cases hs : n.selfConnection
      simp_all
    have trace_eq := (h.traced id n hn).trace_eq_empty inputs_eq gated_eq
    rw [Neuron.isolated, ← inputs_eq]
    cases n
    simp_all
  have neurons_eq : g.isolated.neurons = g.neurons := SortedMap.eq_of_get?_eq fun id => by
    rw [isolated, SortedMap.get?_mapValues]
    cases hn : g.neurons.get? id with
    | none => rfl
    | some n => rw [Option.map_some, alone id n hn]
  have connections_eq : g.connections = ∅ := SortedMap.eq_empty_of_contains unstored
  cases g
  simp_all [isolated]

theorem Consistent.stripped_eq (h : g.Consistent) {cs : List ConnectionId}
    (all : ∀ c, g.contains c → c ∈ cs) : g.stripped cs = g.isolated := by
  rw [← isolated_stripped g cs]
  refine ((h.stripped cs).isolated_eq fun c => ?_).symm
  rw [contains_stripped]
  cases hc : g.contains c with
  | false => rfl
  | true => simp [all c hc]

end Isolating

end Graph

end GatedNetwork
