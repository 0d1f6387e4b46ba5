import GatedNetwork.Proofs.Graph.Frame
import GatedNetwork.Proofs.Graph.Values

/-! Where gains come from. A connection without a gater has gain 1, and that of a gated one is 1 or
the activation of its gater. Edits keep this: a connection starts from gain 1 when it is made, when
it is given to another gater and when its gater goes, and no edit but clearing changes an
activation. -/

namespace GatedNetwork

namespace Graph

/-- Gains are 1 or driven by the gater. All names of neurons and gaters are below the bound, so that
a new neuron drives nothing. -/
structure Governed (bound : NeuronId) (g : Graph) : Prop where
  known : ∀ id, g.neurons.contains id → id < bound
  gaters : ∀ c d x, g.connection? c = some d → d.gater = some x → x < bound
  ungated : ∀ c d, g.connection? c = some d → d.gater = none → d.gain = 1
  gated : ∀ c d x n, g.connection? c = some d → d.gater = some x → g.neurons.get? x = some n →
    d.gain = 1 ∨ d.gain = n.activation

/-- No gain has been driven since the graph was cleared. -/
structure Calm (bound : NeuronId) (g : Graph) : Prop where
  known : ∀ id, g.neurons.contains id → id < bound
  gaters : ∀ c d x, g.connection? c = some d → d.gater = some x → x < bound
  gains : ∀ c d, g.connection? c = some d → d.gain = 1

section Governing

variable {g g' : Graph} {bound bound' id x : NeuronId} {c : ConnectionId}

theorem Calm.governed (h : g.Calm bound) : g.Governed bound where
  known := h.known
  gaters := h.gaters
  ungated c d hd _ := h.gains c d hd
  gated c d _ _ hd _ _ := .inl (h.gains c d hd)

theorem governed_empty (bound : NeuronId) : ({} : Graph).Governed bound where
  known id h := by simp at h
  gaters c d x hd := by simp [connection?] at hd
  ungated c d hd := by simp [connection?] at hd
  gated c d x n hd := by simp [connection?] at hd

theorem Governed.mono (h : g.Governed bound) (le : bound ≤ bound') : g.Governed bound' :=
  { h with
    known id hid := Nat.lt_of_lt_of_le (h.known id hid) le
    gaters c d x hd hx := Nat.lt_of_lt_of_le (h.gaters c d x hd hx) le }

/-- A change that keeps activations keeps the law if each connection has the gater and the gain that
it had, or starts from gain 1. -/
theorem Governed.of_kept (h : g.Governed bound)
    (neurons : ∀ id n', g'.neurons.get? id = some n' →
      ∃ n, g.neurons.get? id = some n ∧ n'.activation = n.activation)
    (connections : ∀ c d', g'.connection? c = some d' →
      (∃ d, g.connection? c = some d ∧ d'.gater = d.gater ∧ d'.gain = d.gain) ∨
        d'.gain = 1 ∧ ∀ x, d'.gater = some x → x < bound) : g'.Governed bound where
  known id hid := by
    obtain ⟨n', hn'⟩ := get?_of_contains hid
    obtain ⟨n, hn, -⟩ := neurons id n' hn'
    exact h.known id (contains_of_get? hn)
  gaters c d' x hd' hx := by
    rcases connections c d' hd' with ⟨d, hd, gater_eq, -⟩ | ⟨-, below⟩
    · exact h.gaters c d x hd (gater_eq ▸ hx)
    · exact below x hx
  ungated c d' hd' hx := by
    rcases connections c d' hd' with ⟨d, hd, gater_eq, gain_eq⟩ | ⟨gain_eq, -⟩
    · exact gain_eq.trans (h.ungated c d hd (gater_eq ▸ hx))
    · exact gain_eq
  gated c d' x n' hd' hx hn' := by
    rcases connections c d' hd' with ⟨d, hd, gater_eq, gain_eq⟩ | ⟨gain_eq, -⟩
    · obtain ⟨n, hn, activation_eq⟩ := neurons x n' hn'
      rw [gain_eq, activation_eq]
      exact h.gated c d x n hd (gater_eq ▸ hx) hn
    · exact .inl gain_eq

theorem Governed.withNeuron (h : g.Governed bound) {f : Neuron → Neuron}
    (hf : ∀ n, (f n).activation = n.activation ∧ (f n).selfConnection.gater = n.selfConnection.gater ∧
      (f n).selfConnection.gain = n.selfConnection.gain) : (g.withNeuron id f).Governed bound := by
  refine h.of_kept (fun x n' hn' => ?_) fun c d' hd' => .inl ?_
  · rw [withNeuron_get?] at hn'
    split at hn'
    · obtain ⟨n, hn, rfl⟩ := Option.map_eq_some_iff.mp hn'
      exact ⟨n, hn, (hf n).1⟩
    · exact ⟨n', hn', rfl⟩
  · rw [connection?_withNeuron] at hd'
    split at hd'
    · rename_i hc
      obtain ⟨n, hn, rfl⟩ := Option.map_eq_some_iff.mp hd'
      exact ⟨n.selfConnection, by rw [hc, connection?_loop, hn]; rfl, (hf n).2⟩
    · exact ⟨d', hd', rfl, rfl⟩

theorem Governed.withConnection (h : g.Governed bound) {f : Connection → Connection}
    (hf : ∀ d, g.connection? c = some d → (f d).gater = d.gater ∧ (f d).gain = d.gain ∨
      (f d).gain = 1 ∧ ∀ x, (f d).gater = some x → x < bound) :
    (g.withConnection c f).Governed bound := by
  refine h.of_kept (fun id n' hn' => ?_) fun c' d' hd' => ?_
  · obtain ⟨n, hn, spares⟩ := spares_withConnection g c f id n' hn'
    exact ⟨n, hn, spares.activation⟩
  · rw [withConnection_connection?] at hd'
    split at hd'
    · rename_i hc
      obtain ⟨d, hd, rfl⟩ := Option.map_eq_some_iff.mp hd'
      exact (hf d (hc ▸ hd)).imp_left fun same => ⟨d, hd, same⟩
    · exact .inl ⟨d', hd', rfl, rfl⟩

theorem Governed.attach (h : g.Governed bound) (hc : c.isSelf = false) (weight : Float) :
    (g.attach c weight).Governed bound := by
  refine h.of_kept (fun id n' hn' => ?_) fun c' d' hd' => ?_
  · obtain ⟨n, hn, -, -, rfl⟩ := get?_attach hn'
    refine ⟨n, hn, ?_⟩
    split <;> split <;> rfl
  · rw [connection?_attach hc] at hd'
    split at hd'
    · obtain rfl := Option.some.inj hd'
      exact .inr ⟨rfl, by simp⟩
    · exact .inl ⟨d', hd', rfl, rfl⟩

theorem Governed.detach (h : g.Governed bound) (hc : c.isSelf = false) :
    (g.detach c).Governed bound := by
  refine h.of_kept (fun id n' hn' => ?_) fun c' d' hd' => .inl ⟨d', ?_, rfl, rfl⟩
  · obtain ⟨n, hn, spares⟩ := spares_detach g c id n' hn'
    exact ⟨n, hn, spares.activation⟩
  · rw [connection?_detach hc] at hd'
    split at hd'
    · nomatch hd'
    · exact hd'

theorem Governed.erased (h : g.Governed bound) (id : NeuronId) : (g.erased id).Governed bound := by
  refine h.of_kept (fun x n' hn' => ?_) fun c d' hd' => .inl ⟨d', ?_, rfl, rfl⟩
  · obtain ⟨n, hn, spares⟩ := spares_erased g id x n' hn'
    exact ⟨n, hn, spares.activation⟩
  · rw [connection?_erased] at hd'
    split at hd'
    · nomatch hd'
    · exact hd'

theorem Governed.addNeuron (h : g.Governed bound) (squash : Squash) (bias : Float) :
    (g.addNeuron bound squash bias).Governed (bound + 1) := by
  have lookup {c : ConnectionId} {d' : Connection}
      (hd' : (g.addNeuron bound squash bias).connection? c = some d') :
      d' = { weight := 0 } ∨ g.connection? c = some d' := by
    rw [connection?_addNeuron] at hd'
    split at hd'
    · exact .inl (Option.some.inj hd').symm
    · exact .inr hd'
  refine ⟨fun id hid => ?_, fun c d x hd hx => ?_, fun c d hd hx => ?_, fun c d x n hd hx hn => ?_⟩
  · obtain ⟨n, hn⟩ := get?_of_contains hid
    rcases addNeuron_cases hn with ⟨rfl, -⟩ | hn
    · exact Nat.lt_succ_self id
    · exact Nat.lt_succ_of_lt (h.known id (contains_of_get? hn))
  · rcases lookup hd with rfl | hd
    · nomatch hx
    · exact Nat.lt_succ_of_lt (h.gaters c d x hd hx)
  · rcases lookup hd with rfl | hd
    · rfl
    · exact h.ungated c d hd hx
  · rcases lookup hd with rfl | hd
    · nomatch hx
    · rcases addNeuron_cases hn with ⟨same, -⟩ | hn
      · exact absurd (same ▸ h.gaters c d x hd hx) (Nat.lt_irrefl bound)
      · exact h.gated c d x n hd hx hn

theorem Governed.clear (h : g.Governed bound) : g.clear.Calm bound where
  known id hid := h.known id (by simpa using hid)
  gaters c d' x hd' hx := by
    rw [connection?_clear] at hd'
    obtain ⟨d, hd, rfl⟩ := Option.map_eq_some_iff.mp hd'
    exact h.gaters c d x hd (by simpa using hx)
  gains c d' hd' := by
    rw [connection?_clear] at hd'
    obtain ⟨d, hd, rfl⟩ := Option.map_eq_some_iff.mp hd'
    unfold Connection.clear
    split
    · rfl
    · rename_i ungated
      exact h.ungated c d hd (by simpa using ungated)

end Governing

section Edits

variable {g : Graph} {bound : NeuronId}

theorem governed_modifyNeuron (id : NeuronId) {f : Neuron → Neuron}
    (hf : ∀ n, (f n).activation = n.activation ∧ (f n).selfConnection.gater = n.selfConnection.gater ∧
      (f n).selfConnection.gain = n.selfConnection.gain) :
    Keeps (Governed bound) (modifyNeuron id f) := keeps_withNeuron fun _ h _ => h.withNeuron hf

theorem governed_modifyConnection (c : ConnectionId) {f : Connection → Connection}
    (hf : ∀ d, (f d).gater = d.gater ∧ (f d).gain = d.gain ∨ (f d).gain = 1 ∧ (f d).gater = none) :
    Keeps (Governed bound) (modifyConnection c f) := by
  refine keeps_withConnection fun g _ h _ => h.withConnection fun d _ =>
    (hf d).imp_right fun fresh => ⟨fresh.1, fun x hx => ?_⟩
  nomatch fresh.2.symm.trans hx

theorem governed_setWeight (c : ConnectionId) (f : Connection → Float) :
    Keeps (Governed bound) (modifyConnection c fun d => { d with weight := f d }) :=
  governed_modifyConnection c fun _ => .inl ⟨rfl, rfl⟩

theorem governed_ungate (c : ConnectionId) : Keeps (Governed bound) (ungate c) := by
  refine Keeps.bind (keeps_ask _) fun d => ?_
  cases d.gater with
  | none => exact keeps_pure _
  | some x =>
    exact Keeps.bind (governed_modifyConnection c fun _ => .inr ⟨rfl, rfl⟩) fun _ =>
      governed_modifyNeuron x fun _ => ⟨rfl, rfl, rfl⟩

/-- Gives a connection that nothing drives to a gater. -/
def takeOver (x : NeuronId) (c : ConnectionId) : Edit Unit := do
  modifyConnection c fun conn => { conn with gater := some x }
  modifyNeuron x (·.addGated c)

theorem governed_takeOver {x : NeuronId} {c : ConnectionId} (h : g.Governed bound) (hx : x < bound)
    (free : g.gater? c = none) : (after ((takeOver x c).run g)).Governed bound := by
  cases hd : g.connection? c with
  | none =>
    rw [takeOver, bind_of_error (modifyConnection_error hd _)]
    exact h
  | some d =>
    have ungated : d.gater = none := by simpa [gater?, hd] using free
    have taken : (g.withConnection c fun conn => { conn with gater := some x }).Governed bound := by
      refine h.withConnection fun e he => .inr ?_
      obtain rfl := Option.some.inj (hd.symm.trans he)
      refine ⟨h.ungated c d hd ungated, fun y hy => ?_⟩
      obtain rfl := Option.some.inj hy
      exact hx
    rw [takeOver, bind_of_ok (modifyConnection_run (by simp [hd]) _)]
    exact governed_modifyNeuron x (f := (·.addGated c)) (fun _ => ⟨rfl, rfl, rfl⟩) _ taken

theorem gater?_of_ungate {g' : Graph} {c : ConnectionId} (run_eq : (ungate c).run g = .ok () g') :
    g'.gater? c = none := by
  cases hd : g.connection? c with
  | none =>
    rw [ungate_error hd] at run_eq
    cases run_eq
  | some d =>
    rw [ungate, bind_of_ok (ask_connection hd)] at run_eq
    cases hg : d.gater with
    | none =>
      rw [hg] at run_eq
      obtain ⟨-, rfl⟩ := EStateM.Result.ok.inj run_eq
      simp [gater?, hd, hg]
    | some y =>
      rw [hg, bind_of_ok (modifyConnection_run (by simp [hd]) _)] at run_eq
      cases hn : g.neurons.contains y with
      | false =>
        have absent : (g.withConnection c fun conn => { conn with gater := none, gain := 1 }).neurons.get?
            y = none := by
          have same := withConnection_contains_neuron g c
            (fun conn => { conn with gater := none, gain := 1 }) y
          rw [hn, SortedMap.contains_eq_isSome] at same
          simpa using same
        rw [modifyNeuron_error absent] at run_eq
        cases run_eq
      | true =>
        rw [modifyNeuron_run (by simpa using hn)] at run_eq
        obtain ⟨-, rfl⟩ := EStateM.Result.ok.inj run_eq
        exact (gater?_dropGater g c c y).trans (if_pos rfl)

theorem gate_eq {x : NeuronId} {c : ConnectionId} {n : Neuron} {d : Connection}
    (hn : g.neurons.get? x = some n) (hc : g.contains c) (hd : g.connection? c = some d) :
    (gate x c).run g =
      if d.gater = some x then .ok () g
      else if d.gater = none then (takeOver x c).run g
      else (ungate c >>= fun _ => takeOver x c).run g := by
  rw [gate, bind_of_ok (ask_neuron hn), bind_of_ok (get_run g), if_pos hc]
  refine (bind_of_ok (ask_connection hd)).trans ?_
  by_cases hx : d.gater = some x
  · rw [if_pos hx, if_pos hx]
    rfl
  · rw [if_neg hx, if_neg hx]
    cases d.gater <;> rfl

theorem governed_gate (x : NeuronId) (c : ConnectionId) : Keeps (Governed bound) (gate x c) := by
  intro g h
  cases hn : g.neurons.get? x with
  | none =>
    rw [gate_unknown_neuron hn]
    exact h
  | some n =>
    cases hc : g.contains c with
    | false =>
      rw [gate_unknown_connection (contains_of_get? hn) hc]
      exact h
    | true =>
      have hx := h.known x (contains_of_get? hn)
      obtain ⟨d, hd⟩ := Option.isSome_iff_exists.mp (connection?_isSome_of_contains hc)
      rw [gate_eq hn hc hd]
      split
      · exact h
      · split
        · rename_i free
          exact governed_takeOver h hx (by simp [gater?, hd, free])
        · have ungated := governed_ungate c g h
          rw [bind_run]
          cases hr : (ungate c).run g with
          | ok _ g' =>
            rw [hr] at ungated
            exact governed_takeOver ungated hx (gater?_of_ungate hr)
          | error e g' =>
            rw [hr] at ungated
            exact ungated

theorem governed_disconnect (source target : NeuronId) :
    Keeps (Governed bound) (disconnect source target) := by
  refine Keeps.bind keeps_get fun g => keeps_guard ?_
  refine Keeps.bind (governed_ungate _) fun _ => ?_
  split
  · exact governed_modifyNeuron source fun _ => ⟨rfl, rfl, rfl⟩
  · rename_i notSelf
    exact keeps_modify fun g h => h.detach (Bool.eq_false_iff.mpr notSelf)

theorem governed_project {σ : Type} (source target : NeuronId) (weight : Option Float)
    (draw : EStateM NetworkError σ Float) :
    Keeps (fun s : Graph × σ => s.1.Governed bound) (project source target weight draw) := by
  rintro ⟨g, r⟩ h
  rcases project_cases source target weight draw g r with
    ⟨id, -, -, heq⟩ | ⟨-, -, ⟨-, heq⟩ | ⟨-, -, heq⟩ | ⟨hne, -, heq⟩⟩
  · rw [heq]
    exact h
  · rw [heq]
    exact h.withNeuron fun _ => ⟨rfl, rfl, rfl⟩
  · rw [heq]
    cases weight with
    | none => exact h
    | some w => exact h.withConnection fun _ _ => .inl ⟨rfl, rfl⟩
  · have notSelf : (⟨source, target⟩ : ConnectionId).isSelf = false := by
      simp [ConnectionId.isSelf, hne]
    rw [heq]
    split
    · exact h.attach notSelf _
    · exact h

theorem governed_removeNeuron (id : NeuronId) : Keeps (Governed bound) (removeNeuron id) := by
  refine Keeps.bind (keeps_ask _) fun n => ?_
  refine Keeps.bind (keeps_forM fun c _ => governed_disconnect c.source c.target) fun _ => ?_
  refine Keeps.bind (keeps_forM fun c _ => governed_ungate c) fun _ => ?_
  refine Keeps.bind (governed_ungate _) fun _ => Keeps.bind (keeps_ask _) fun rest => ?_
  exact Keeps.bind (keeps_modify fun g h => h.erased id) fun _ => keeps_pure rest

theorem governed_propagate (id : NeuronId) (rate : Float) (target : Option Float) :
    Keeps (Governed bound) (propagate id rate target) := by
  refine Keeps.bind (keeps_ask _) fun n => ?_
  have learn (terms : ErrorTerms) : Keeps (Governed bound) (do
      modifyNeuron id fun n => { n with error := terms }
      (← ask (·.gradients id)).forM fun p =>
        modifyConnection p.1 fun conn => { conn with weight := conn.weight + rate * p.2 }
      modifyNeuron id fun n => { n with bias := n.bias + rate * terms.responsibility }) := by
    refine Keeps.bind (governed_modifyNeuron id fun _ => ⟨rfl, rfl, rfl⟩) fun _ => ?_
    refine Keeps.bind (keeps_ask _) fun gradients => ?_
    refine Keeps.bind (keeps_forM fun p _ => governed_setWeight p.1 _) fun _ => ?_
    exact governed_modifyNeuron id fun _ => ⟨rfl, rfl, rfl⟩
  cases target with
  | some t => exact learn (outputTerms t n)
  | none =>
    refine Keeps.bind ?_ learn
    refine Keeps.bind (keeps_ask _) fun _ => Keeps.bind (keeps_ask _) fun _ => ?_
    refine Keeps.bind (keeps_ask _) fun _ => Keeps.bind ?_ fun _ => keeps_pure _
    exact governed_modifyNeuron id fun _ => ⟨rfl, rfl, rfl⟩

end Edits

section Resets

variable {bound : NeuronId}

/-- While no gain is driven, activations may change. -/
theorem calm_modifyNeuron (id : NeuronId) {f : Neuron → Neuron}
    (hf : ∀ n, (f n).selfConnection = n.selfConnection) : Keeps (Calm bound) (modifyNeuron id f) := by
  refine keeps_withNeuron fun g h _ => ?_
  have connections_eq (c : ConnectionId) : (g.withNeuron id f).connection? c = g.connection? c :=
    withNeuron_connection? g id (fun n _ => hf n) c
  refine ⟨fun x hx => h.known x (by simpa using hx), fun c d x hd hx => ?_, fun c d hd => ?_⟩
  · rw [connections_eq] at hd
    exact h.gaters c d x hd hx
  · rw [connections_eq] at hd
    exact h.gains c d hd

theorem calm_setWeight (c : ConnectionId) (weight : Float) :
    Keeps (Calm bound) (modifyConnection c fun d => { d with weight }) := by
  refine keeps_withConnection fun g _ h _ => ?_
  have governed := h.governed.withConnection (c := c) (f := fun d => { d with weight })
    fun _ _ => .inl ⟨rfl, rfl⟩
  refine ⟨governed.known, governed.gaters, fun c' d' hd' => ?_⟩
  rw [withConnection_connection?] at hd'
  split at hd'
  · obtain ⟨e, he, rfl⟩ := Option.map_eq_some_iff.mp hd'
    exact h.gains c' e he
  · exact h.gains c' d' hd'

end Resets

end Graph

namespace Layer

open GatedNetwork.Graph

variable {bound : NeuronId}

theorem governed_propagate (l : Layer) (rate : Float) : Keeps (Governed bound) (l.propagate rate) :=
  keeps_forM fun id _ => Graph.governed_propagate id rate none

theorem governed_propagateOutput (l : Layer) (rate : Float) (targets : List Float) :
    Keeps (Governed bound) (l.propagateOutput rate targets) :=
  keeps_guard (keeps_forM fun p _ => Graph.governed_propagate p.1 rate (some p.2))

theorem calm_onFirst {α : Type} {act : Graph.Edit α} (h : Keeps (Calm bound) act) :
    Keeps (fun s : Graph × RandomStream => s.1.Calm bound) (onFirst act) :=
  keeps_focus fun s hs => h s.1 hs

theorem calm_onSecond {α : Type} (act : Draw α) :
    Keeps (fun s : Graph × RandomStream => s.1.Calm bound) (onSecond act) :=
  keeps_focus fun _ hs => hs

theorem calm_redraw (weights biases : Range) (id : NeuronId) :
    Keeps (fun s => s.1.Calm bound) (redraw weights biases id) := by
  refine Keeps.bind (calm_onFirst (keeps_ask _)) fun n => Keeps.bind (calm_onSecond _) fun bias => ?_
  refine Keeps.bind (calm_onFirst (calm_modifyNeuron id fun _ => rfl)) fun _ => ?_
  exact keeps_forM fun c _ => Keeps.bind (calm_onSecond _) fun weight =>
    calm_onFirst (calm_setWeight c weight)

theorem calm_reset (l : Layer) (weights biases : Range) :
    Keeps (fun s => s.1.Calm bound) (l.reset weights biases) := by
  have cleared : Keeps (Calm bound) l.clear :=
    keeps_forM fun id _ => calm_modifyNeuron id fun _ => rfl
  exact Keeps.bind (calm_onFirst cleared) fun _ => keeps_forM fun id _ => calm_redraw weights biases id

end Layer

end GatedNetwork
