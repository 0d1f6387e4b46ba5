import GatedNetwork.Proofs.Graph.Removal

/-! The connections that take part in a run: the regular ones, and self-connections while they
are enabled. What connecting and gating do to them depends on nothing else. -/

namespace GatedNetwork

namespace Graph

/-- A connection by its name, if it takes part in a run. -/
def active? (g : Graph) (c : ConnectionId) : Option Connection :=
  if g.contains c then g.connection? c else none

section Lookups

variable {g : Graph} {c : ConnectionId}

theorem active?_eq_some_iff {d : Connection} :
    g.active? c = some d ↔ g.contains c ∧ g.connection? c = some d := by
  unfold active?
  split <;> simp_all

@[simp] theorem isSome_active? (g : Graph) (c : ConnectionId) : (g.active? c).isSome = g.contains c := by
  unfold active?
  split
  · rename_i hc
    rw [connection?_isSome_of_contains hc, hc]
  · simp_all

theorem active?_eq_none (h : g.contains c = false) : g.active? c = none := by
  simp [active?, h]

theorem active?_of_contains (h : g.contains c) : g.active? c = g.connection? c := by
  simp [active?, h]

theorem active?_of_not_isSelf (h : c.isSelf = false) : g.active? c = g.connections.get? c := by
  rw [active?, contains_of_not_isSelf h, connection?_of_not_isSelf h, SortedMap.contains_eq_isSome]
  cases g.connections.get? c <;> rfl

/-- Only what takes part in a run has a gater. -/
theorem Linked.gater?_eq (h : g.Linked) (c : ConnectionId) :
    g.gater? c = (g.active? c).bind (·.gater) := by
  cases hc : g.contains c with
  | true => rw [active?_of_contains hc, gater?]
  | false =>
    rw [active?_eq_none hc, Option.bind_none]
    cases hg : g.gater? c with
    | none => rfl
    | some x => simp [(h.gater_mem c x hg).1] at hc

theorem active?_addNeuron {id : NeuronId} (absent : g.neurons.contains id = false) (squash : Squash)
    (bias : Float) (c : ConnectionId) : (g.addNeuron id squash bias).active? c = g.active? c := by
  have contains_eq : (g.addNeuron id squash bias).contains c = g.contains c := by
    refine contains_eq_of (fun x => ?_) ?_ c
    · rw [addNeuron_get?]
      split
      · rename_i hx
        have none_eq : g.neurons.get? x = none := by
          simpa [SortedMap.contains_eq_isSome, hx] using absent
        simp [none_eq]
      · rfl
    · exact fun _ => rfl
  unfold active?
  rw [contains_eq, connection?_addNeuron]
  split
  · rename_i hc
    split
    · rename_i loop_eq
      subst loop_eq
      have none_eq : g.neurons.get? id = none := by
        simpa [SortedMap.contains_eq_isSome] using absent
      simp [contains_loop, none_eq] at hc
    · rfl
  · rfl

theorem active?_congr {g' : Graph} (hc : g'.contains c = g.contains c)
    (hd : g'.connection? c = g.connection? c) : g'.active? c = g.active? c := by
  rw [active?, active?, hc, hd]

end Lookups

def connected (g : Graph) (c : ConnectionId) (weight : Float) : Graph :=
  if c.isSelf then g.enabled c.source weight
  else if g.connections.contains c then g.withConnection c fun d => { d with weight }
  else g.attach c weight

section Connecting

variable {g : Graph} {c : ConnectionId} {weight : Float}

theorem project_run {σ : Type} {draw : EStateM NetworkError σ Float} {r : σ}
    (hs : g.neurons.contains c.source) (ht : g.neurons.contains c.target) :
    (project c.source c.target (some weight) draw).run (g, r) = .ok c (g.connected c weight, r) := by
  unfold connected
  rcases project_cases c.source c.target (some weight) draw g r with
    ⟨id, rfl | rfl, absent, -⟩ | ⟨-, -, ⟨hst, heq⟩ | ⟨hne, hc, heq⟩ | ⟨hne, hc, heq⟩⟩
  · simp [hs] at absent
  · simp [ht] at absent
  · rw [if_pos (by simp [ConnectionId.isSelf, hst])]
    exact heq
  · rw [if_neg (by simp [ConnectionId.isSelf, hne]), if_pos hc]
    exact heq
  · rw [if_neg (by simp [ConnectionId.isSelf, hne]), if_neg (by simp [hc])]
    exact heq

theorem Consistent.connected (h : g.Consistent) (hs : g.neurons.contains c.source)
    (ht : g.neurons.contains c.target) (weight : Float) : (g.connected c weight).Consistent := by
  unfold Graph.connected
  split
  · exact h.enabled _ _
  · rename_i hself
    have hself := Bool.eq_false_iff.mpr hself
    split
    · rename_i hc
      exact h.withWeight (by rwa [contains_of_not_isSelf hself]) weight
    · rename_i hc
      exact h.attach hself hs ht (Bool.eq_false_iff.mpr hc) weight

theorem contains_enabled (hs : g.neurons.contains c.source) (hself : c.isSelf) (c' : ConnectionId) :
    (g.enabled c.source weight).contains c' = (decide (c = c') || g.contains c') := by
  by_cases hself' : c'.isSelf
  · rw [eq_loop_of_isSelf hself', contains_loop, contains_loop, enabled, withNeuron_get?]
    by_cases hid : c.source = c'.source
    · obtain ⟨n, hn⟩ := get?_of_contains hs
      have hcc := eq_of_isSelf hself hself' hid
      simp [hcc, ← eq_loop_of_isSelf hself', hid ▸ hn]
    · have hne : c ≠ .loop c'.source := fun e => hid (congrArg (·.source) e)
      simp [hid, hne]
  · have hne : c ≠ c' := fun e => hself' (e ▸ hself)
    rw [contains_of_not_isSelf (Bool.eq_false_iff.mpr hself'),
      contains_of_not_isSelf (Bool.eq_false_iff.mpr hself')]
    simp [enabled, hne]

theorem contains_connected (hs : g.neurons.contains c.source) (c' : ConnectionId) :
    (g.connected c weight).contains c' = (decide (c = c') || g.contains c') := by
  unfold connected
  by_cases hself : c.isSelf
  · rw [if_pos hself, contains_enabled hs hself]
  · rw [if_neg hself]
    have hself := Bool.eq_false_iff.mpr hself
    split
    · rename_i hc
      rw [contains_of_skeleton_eq (skeleton_withConnection g c (f := fun d => { d with weight })
        fun _ => rfl) c']
      by_cases hcc : c = c'
      · subst hcc
        simp [contains_of_not_isSelf hself, hc]
      · simp [hcc]
    · rw [contains_attach hself]

/-- A self-connection that is not enabled is as it was made. -/
theorem Consistent.disabled_self (h : g.Consistent) {id : NeuronId} {n : Neuron}
    (hn : g.neurons.get? id = some n) (disabled : n.selfConnected = false) :
    n.selfConnection = { weight := 0 } := by
  have found : g.connection? (.loop id) = some n.selfConnection := by simp [connection?_loop, hn]
  have absent : g.contains (.loop id) = false := by simp [contains_loop, hn, disabled]
  have ungated : n.selfConnection.gater = none := by
    have gater_eq := h.gater?_eq (.loop id)
    simpa [gater?, found, active?_eq_none absent] using gater_eq
  have gain_eq := h.ungated_gain _ _ found ungated
  have weight_eq := h.disabled_weight id n hn disabled
  cases hc : n.selfConnection
  simp_all

theorem Consistent.active?_loop (h : g.Consistent) {id : NeuronId} {n : Neuron}
    (hn : g.neurons.get? id = some n) :
    (g.active? (.loop id)).getD { weight := 0 } = n.selfConnection := by
  unfold active?
  rw [contains_loop, connection?_loop, hn]
  cases enabled : n.selfConnected with
  | true => simp [enabled]
  | false => simp [enabled, h.disabled_self hn enabled]

theorem active?_connected (h : g.Consistent) (hs : g.neurons.contains c.source) (c' : ConnectionId) :
    (g.connected c weight).active? c' =
      if c = c' then some { (g.active? c').getD { weight := 0 } with weight } else g.active? c' := by
  have contains_eq : (g.connected c weight).contains c' = _ := contains_connected hs c'
  by_cases hcc : c = c'
  · subst hcc
    rw [if_pos rfl, active?_of_contains (by simp [contains_eq]), connected]
    by_cases hself : c.isSelf
    · obtain ⟨id, rfl⟩ : ∃ id, c = .loop id := ⟨_, eq_loop_of_isSelf hself⟩
      obtain ⟨n, hn⟩ := get?_of_contains hs
      have hn : g.neurons.get? id = some n := hn
      rw [if_pos hself, h.active?_loop hn]
      simp [enabled, connection?_withNeuron, ConnectionId.loop, hn]
    · have regular := Bool.eq_false_iff.mpr hself
      rw [if_neg hself, active?_of_not_isSelf regular]
      cases hd : g.connections.get? c with
      | some d =>
        rw [if_pos (by simp [SortedMap.contains_eq_isSome, hd]), withConnection_connection?,
          connection?_of_not_isSelf regular, hd]
        simp
      | none =>
        rw [if_neg (by simp [SortedMap.contains_eq_isSome, hd]), connection?_attach regular]
        simp
  · rw [if_neg hcc]
    refine active?_congr (by simp [contains_eq, hcc]) ?_
    unfold connected
    split
    · rename_i hself
      rw [enabled, connection?_withNeuron, ← eq_loop_of_isSelf hself, if_neg (Ne.symm hcc)]
    · split
      · rw [withConnection_connection?, if_neg hcc]
      · rename_i hself _
        rw [connection?_attach (Bool.eq_false_iff.mpr hself), if_neg hcc]

@[simp] theorem connected_contains_neuron (g : Graph) (c : ConnectionId) (weight : Float)
    (id : NeuronId) : (g.connected c weight).neurons.contains id = g.neurons.contains id := by
  unfold connected
  split
  · simp [enabled]
  · split <;> simp

end Connecting

section Gating

variable {g : Graph} {c : ConnectionId} {x : NeuronId}

@[simp] theorem contains_gatedBy (g : Graph) (x : NeuronId) (c c' : ConnectionId) :
    (g.gatedBy x c).contains c' = g.contains c' := by
  unfold gatedBy
  split <;> simp

@[simp] theorem gatedBy_contains_neuron (g : Graph) (x : NeuronId) (c : ConnectionId)
    (id : NeuronId) : (g.gatedBy x c).neurons.contains id = g.neurons.contains id := by
  unfold gatedBy
  split <;> simp

theorem gater?_gatedBy (hc : g.contains c) (c' : ConnectionId) :
    (g.gatedBy x c).gater? c' = if c = c' then some x else g.gater? c' := by
  unfold gatedBy
  by_cases hg : g.gater? c = some x
  · rw [if_pos hg]
    split
    · rename_i hcc
      rw [← hcc, hg]
    · rfl
  · rw [if_neg hg, gater?_setGater (by simpa using hc), gater?_ungated]
    split <;> rfl

theorem connection?_gatedBy (h : g.Consistent) (c' : ConnectionId) :
    (g.gatedBy x c).connection? c' =
      if c = c' then (g.connection? c').map fun d =>
        if d.gater = some x then d else { d with gater := some x, gain := 1 }
      else g.connection? c' := by
  unfold gatedBy
  by_cases hg : g.gater? c = some x
  · rw [if_pos hg]
    split
    · rename_i hcc
      subst hcc
      cases hd : g.connection? c with
      | none => rfl
      | some d =>
        have gater_eq : d.gater = some x := by simpa [gater?, hd] using hg
        simp [gater_eq]
    · rfl
  · rw [if_neg hg, connection?_setGater, connection?_ungated h]
    by_cases hcc : c = c'
    · subst hcc
      cases hd : g.connection? c with
      | none => simp
      | some d =>
        have gater_ne : d.gater ≠ some x := by simpa [gater?, hd] using hg
        simp [gater_ne, Connection.released]
    · simp [hcc]

theorem active?_gatedBy (h : g.Consistent) (c' : ConnectionId) :
    (g.gatedBy x c).active? c' =
      if c = c' then (g.active? c').map fun d =>
        if d.gater = some x then d else { d with gater := some x, gain := 1 }
      else g.active? c' := by
  unfold active?
  rw [contains_gatedBy, connection?_gatedBy h]
  split <;> split <;> rfl

end Gating

def gatedEach (g : Graph) (pairs : List (NeuronId × ConnectionId)) : Graph :=
  pairs.foldl (fun g p => g.gatedBy p.1 p.2) g

/-- The last of the neurons that are to gate the connection. -/
def lastGater (pairs : List (NeuronId × ConnectionId)) (c : ConnectionId) : Option NeuronId :=
  (pairs.filter (·.2 = c)).getLast?.map (·.1)

section Loops

variable {g : Graph} {pairs : List (NeuronId × ConnectionId)}

theorem gateEach_run (h : g.Consistent)
    (there : ∀ p ∈ pairs, g.neurons.contains p.1 ∧ g.contains p.2) :
    (pairs.forM fun p => gate p.1 p.2).run g = .ok () (g.gatedEach pairs) := by
  induction pairs generalizing g with
  | nil => rfl
  | cons p pairs ih =>
    obtain ⟨hx, hc⟩ := there p (by simp)
    refine (bind_of_ok (gate_run h hx hc)).trans (ih (h.gatedBy hc hx) fun q hq => ?_)
    simpa using there q (by simp [hq])

theorem gater?_gatedEach (there : ∀ p ∈ pairs, g.contains p.2) (c : ConnectionId) :
    (g.gatedEach pairs).gater? c = (lastGater pairs c).or (g.gater? c) := by
  induction pairs generalizing g with
  | nil => simp [gatedEach, lastGater]
  | cons p pairs ih =>
    have hc := there p (by simp)
    rw [gatedEach, List.foldl_cons, ← gatedEach, ih fun q hq => by simpa using there q (by simp [hq]),
      gater?_gatedBy hc, lastGater, lastGater]
    by_cases hp : p.2 = c
    · rw [if_pos hp, List.filter_cons_of_pos (by simpa using hp), List.getLast?_cons]
      cases (pairs.filter (·.2 = c)).getLast? <;> simp
    · rw [if_neg hp, List.filter_cons_of_neg (by simpa using hp)]

end Loops

end Graph

end GatedNetwork
