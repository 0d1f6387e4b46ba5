import GatedNetwork.Layer.Running
import GatedNetwork.Proofs.Graph.Wiring
import GatedNetwork.Proofs.Outcome

/-! Runs of the structural edits. Where the indexes agree, an edit fails only in its first
checks, and otherwise ends in the graph of its plain function. -/

namespace GatedNetwork

namespace Graph

section Steps

variable {g : Graph} {id : NeuronId} {c : ConnectionId}

theorem ask_neuron {n : Neuron} (h : g.neurons.get? id = some n) :
    (ask (·.neuron id) : Edit Neuron).run g = .ok n g := ask_of_ok (neuron_eq_ok h)

theorem ask_neuron_error (h : g.neurons.get? id = none) :
    (ask (·.neuron id) : Edit Neuron).run g = .error (.unknownNeuron id) g :=
  ask_of_error (neuron_eq_error h)

theorem ask_connection {d : Connection} (h : g.connection? c = some d) :
    (ask (·.connection c) : Edit Connection).run g = .ok d g := ask_of_ok (connection_eq_ok h)

theorem ask_connection_error (h : g.connection? c = none) :
    (ask (·.connection c) : Edit Connection).run g = .error (absence c) g :=
  ask_of_error (connection_eq_error h)

theorem modifyNeuron_run (h : g.neurons.contains id) (f : Neuron → Neuron) :
    (modifyNeuron id f).run g = .ok () (g.withNeuron id f) := by
  obtain ⟨n, hn⟩ := get?_of_contains h
  exact bind_of_ok (ask_neuron hn)

theorem modifyNeuron_error (h : g.neurons.get? id = none) (f : Neuron → Neuron) :
    (modifyNeuron id f).run g = .error (.unknownNeuron id) g :=
  bind_of_error (ask_neuron_error h)

def withNeurons (g : Graph) (ids : List NeuronId) (f : Neuron → Neuron) : Graph :=
  ids.foldl (fun g id => g.withNeuron id f) g

theorem modifyEach_run {ids : List NeuronId} (h : ∀ id ∈ ids, g.neurons.contains id)
    (f : Neuron → Neuron) :
    (ids.forM fun id => modifyNeuron id f).run g = .ok () (g.withNeurons ids f) := by
  induction ids generalizing g with
  | nil => rfl
  | cons id ids ih =>
    refine (bind_of_ok (modifyNeuron_run (h id (by simp)) f)).trans (ih fun x hx => ?_)
    simpa using h x (by simp [hx])

theorem modifyConnection_run (h : (g.connection? c).isSome) (f : Connection → Connection) :
    (modifyConnection c f).run g = .ok () (g.withConnection c f) := by
  obtain ⟨d, hd⟩ := Option.isSome_iff_exists.mp h
  refine (bind_of_ok (ask_connection hd)).trans ?_
  simp only [modify_run, withConnection, withNeuron]

theorem modifyConnection_error (h : g.connection? c = none) (f : Connection → Connection) :
    (modifyConnection c f).run g = .error (absence c) g :=
  bind_of_error (ask_connection_error h)

theorem keeps_withNeuron {P : Graph → Prop} {f : Neuron → Neuron}
    (hf : ∀ g, P g → g.neurons.contains id → P (g.withNeuron id f)) : Keeps P (modifyNeuron id f) := by
  intro g h
  cases hn : g.neurons.get? id with
  | none =>
    rw [modifyNeuron_error hn]
    exact h
  | some n =>
    rw [modifyNeuron_run (contains_of_get? hn)]
    exact hf g h (contains_of_get? hn)

theorem keeps_withConnection {P : Graph → Prop} {f : Connection → Connection}
    (hf : ∀ g d, P g → g.connection? c = some d → P (g.withConnection c f)) :
    Keeps P (modifyConnection c f) := by
  intro g h
  cases hd : g.connection? c with
  | none =>
    rw [modifyConnection_error hd]
    exact h
  | some d =>
    rw [modifyConnection_run (by simp [hd])]
    exact hf g d h hd

theorem ungate_run (h : g.Linked) (hc : (g.connection? c).isSome) :
    (ungate c).run g = .ok () (g.ungated c) := by
  obtain ⟨d, hd⟩ := Option.isSome_iff_exists.mp hc
  have gater_eq : g.gater? c = d.gater := by rw [gater?, hd]; rfl
  rw [ungate, bind_of_ok (ask_connection hd), ungated, gater_eq]
  cases hg : d.gater with
  | none => rfl
  | some x =>
    have hx := (h.gater_mem c x (gater_eq.trans hg)).2
    rw [bind_of_ok (modifyConnection_run hc _)]
    exact modifyNeuron_run (by simpa using hx) _

theorem ungate_error (h : g.connection? c = none) : (ungate c).run g = .error (absence c) g :=
  bind_of_error (ask_connection_error h)

end Steps

section Gating

variable {g : Graph} {x : NeuronId} {c : ConnectionId}

theorem gate_run (h : g.Consistent) (hx : g.neurons.contains x) (hc : g.contains c) :
    (gate x c).run g = .ok () (g.gatedBy x c) := by
  obtain ⟨n, hn⟩ := get?_of_contains hx
  have hd := connection?_isSome_of_contains hc
  obtain ⟨d, hd'⟩ := Option.isSome_iff_exists.mp hd
  have gater_eq : g.gater? c = d.gater := by rw [gater?, hd']; rfl
  have finish (g' : Graph) (hd : (g'.connection? c).isSome) (hx : g'.neurons.contains x) :
      (do modifyConnection c fun conn => { conn with gater := some x }
          modifyNeuron x (·.addGated c) : Edit Unit).run g' = .ok () (g'.setGater c x) := by
    rw [bind_of_ok (modifyConnection_run hd _)]
    exact modifyNeuron_run (by simpa using hx) _
  rw [gate, bind_of_ok (ask_neuron hn), bind_of_ok (get_run g), if_pos hc]
  refine (bind_of_ok (ask_connection hd')).trans ?_
  rw [gatedBy, gater_eq]
  by_cases hg : d.gater = some x
  · simp [hg]
  · rw [if_neg hg, if_neg hg]
    cases hp : d.gater with
    | none =>
      have ungated_eq : g.ungated c = g := by rw [ungated, gater_eq, hp]
      rw [ungated_eq]
      simpa using finish g hd hx
    | some y =>
      rw [if_pos (by rfl), bind_of_ok (ungate_run h.toLinked hd)]
      refine finish (g.ungated c) ?_ (by simpa using hx)
      exact connection?_isSome_of_contains (by simpa using hc)

theorem gate_unknown_neuron (h : g.neurons.get? x = none) (c : ConnectionId) :
    (gate x c).run g = .error (.unknownNeuron x) g :=
  bind_of_error (ask_neuron_error h)

theorem gate_unknown_connection (hx : g.neurons.contains x) (hc : g.contains c = false) :
    (gate x c).run g = .error (.unknownConnection c) g := by
  obtain ⟨n, hn⟩ := get?_of_contains hx
  rw [gate, bind_of_ok (ask_neuron hn), bind_of_ok (get_run g), hc]
  rfl

theorem keeps_gate (x : NeuronId) (c : ConnectionId) : Keeps Consistent (gate x c) := by
  intro g h
  by_cases hx : g.neurons.contains x
  · by_cases hc : g.contains c
    · rw [gate_run h hx hc]
      exact h.gatedBy hc hx
    · rw [gate_unknown_connection hx (Bool.eq_false_iff.mpr hc)]
      exact h
  · rw [gate_unknown_neuron (by simpa [SortedMap.contains_eq_isSome] using hx)]
    exact h

theorem keeps_ungate (c : ConnectionId) : Keeps Consistent (ungate c) := by
  intro g h
  cases hd : g.connection? c with
  | none =>
    rw [ungate_error hd]
    exact h
  | some d =>
    rw [ungate_run h.toLinked (by simp [hd])]
    exact h.ungated c

end Gating

section Connecting

variable {g : Graph} {c : ConnectionId}

theorem disconnect_run (h : g.Consistent) (hc : g.contains c) :
    (disconnect c.source c.target).run g = .ok () (g.disconnected c) := by
  have hd := connection?_isSome_of_contains hc
  rw [disconnect, bind_of_ok (get_run g), if_pos hc]
  refine (bind_of_ok (ungate_run h.toLinked hd)).trans ?_
  rw [disconnected]
  by_cases hs : c.isSelf
  · rw [if_pos hs, if_pos hs]
    rw [eq_loop_of_isSelf hs, connection?_loop, Option.isSome_map] at hd
    exact modifyNeuron_run ((ungated_contains_neuron g c c.source).trans hd) _
  · rw [if_neg hs, if_neg hs]
    rfl

theorem disconnect_error (hc : g.contains c = false) :
    (disconnect c.source c.target).run g = .error (.notConnected c.source c.target) g := by
  rw [disconnect, bind_of_ok (get_run g), hc]
  rfl

theorem keeps_disconnect (source target : NeuronId) : Keeps Consistent (disconnect source target) := by
  intro g h
  by_cases hc : g.contains ⟨source, target⟩
  · rw [disconnect_run h hc]
    exact h.disconnected _
  · rw [disconnect_error (c := ⟨source, target⟩) (Bool.eq_false_iff.mpr hc)]
    exact h

theorem Consistent.withWeight (h : g.Consistent) (hc : g.contains c) (weight : Float) :
    (g.withConnection c fun d => { d with weight }).Consistent where
  toLinked := h.toLinked.of_skeleton_eq
    (skeleton_withConnection g c (f := fun d => { d with weight }) fun _ => rfl).symm
  ungated_gain c' d hd hg := by
    rw [withConnection_connection?] at hd
    split at hd
    · obtain ⟨e, he, rfl⟩ := Option.map_eq_some_iff.mp hd
      exact h.ungated_gain c' e he hg
    · exact h.ungated_gain c' d hd hg
  disabled_weight id n' hn' hoff := by
    rw [withConnection_get?] at hn'
    split at hn'
    · rename_i hloop
      obtain ⟨n, hn, rfl⟩ := Option.map_eq_some_iff.mp hn'
      rw [hloop, contains_loop, hn] at hc
      simp only [Option.any_some] at hc
      simp [hc] at hoff
    · exact h.disabled_weight id n' hn' hoff

variable {σ : Type} {r : σ} {source target : NeuronId}

theorem onFirst_of_ok {α τ : Type} {act : Edit α} {t : τ} {x : α} {g' : Graph}
    (h : act.run g = .ok x g') : (onFirst act).run (g, t) = .ok x (g', t) := focus_of_ok h

theorem onFirst_of_error {α τ : Type} {act : Edit α} {t : τ} {e : NetworkError} {g' : Graph}
    (h : act.run g = .error e g') : (onFirst act).run (g, t) = .error e (g', t) := focus_of_error h

theorem onSecond_of_ok {α τ : Type} {act : EStateM NetworkError τ α} {t t' : τ} {x : α}
    (h : act.run t = .ok x t') : (onSecond act).run (g, t) = .ok x (g, t') := focus_of_ok h

theorem onSecond_of_error {α τ : Type} {act : EStateM NetworkError τ α} {t t' : τ} {e : NetworkError}
    (h : act.run t = .error e t') : (onSecond act).run (g, t) = .error e (g, t') := focus_of_error h

/-- Everything that connecting two neurons can do. -/
theorem project_cases (source target : NeuronId) (weight : Option Float)
    (draw : EStateM NetworkError σ Float) (g : Graph) (r : σ) :
    (∃ id, (id = source ∨ id = target) ∧ g.neurons.contains id = false ∧
      (project source target weight draw).run (g, r) = .error (.unknownNeuron id) (g, r)) ∨
    g.neurons.contains source ∧ g.neurons.contains target ∧
      (source = target ∧ (project source target weight draw).run (g, r) =
        .ok ⟨source, target⟩ (g.enabled source (weight.getD 1), r) ∨
      source ≠ target ∧ g.connections.contains ⟨source, target⟩ ∧
        (project source target weight draw).run (g, r) = .ok ⟨source, target⟩
          ((match weight with
            | some w => g.withConnection ⟨source, target⟩ fun d => { d with weight := w }
            | none => g), r) ∨
      source ≠ target ∧ g.connections.contains ⟨source, target⟩ = false ∧
        (project source target weight draw).run (g, r) =
          match (match weight with
            | some w => .ok w r
            | none => draw.run r : EStateM.Result NetworkError σ Float) with
          | .ok w r => .ok ⟨source, target⟩ (g.attach ⟨source, target⟩ w, r)
          | .error e r => .error e (g, r)) := by
  cases hs : g.neurons.get? source with
  | none =>
    exact .inl ⟨source, .inl rfl, by simp [SortedMap.contains_eq_isSome, hs],
      bind_of_error (onFirst_of_error (ask_neuron_error hs))⟩
  | some ns =>
    cases ht : g.neurons.get? target with
    | none =>
      refine .inl ⟨target, .inr rfl, by simp [SortedMap.contains_eq_isSome, ht], ?_⟩
      rw [project, bind_of_ok (onFirst_of_ok (ask_neuron hs))]
      exact bind_of_error (onFirst_of_error (ask_neuron_error ht))
    | some nt =>
      refine .inr ⟨contains_of_get? hs, contains_of_get? ht, ?_⟩
      rw [project, bind_of_ok (onFirst_of_ok (ask_neuron hs)),
        bind_of_ok (onFirst_of_ok (ask_neuron ht))]
      by_cases hst : source = target
      · refine .inl ⟨hst, ?_⟩
        rw [if_pos (by simp [ConnectionId.isSelf, hst]),
          bind_of_ok (onFirst_of_ok (modifyNeuron_run (contains_of_get? hs) _))]
        rfl
      · right
        rw [if_neg (by simp [ConnectionId.isSelf, hst])]
        cases hc : g.connections.contains ⟨source, target⟩ with
        | true =>
          refine .inl ⟨hst, rfl, ?_⟩
          have hd : (g.connection? ⟨source, target⟩).isSome := by
            rw [connection?_of_not_isSelf (by simp [ConnectionId.isSelf, hst])]
            exact hc
          rw [bind_of_ok (get_run _), if_pos hc]
          cases weight with
          | none => rfl
          | some w => exact bind_of_ok (onFirst_of_ok (modifyConnection_run hd _))
        | false =>
          refine .inr ⟨hst, rfl, ?_⟩
          rw [bind_of_ok (get_run _), if_neg (by simp [hc])]
          cases weight with
          | some w => rfl
          | none =>
            cases hr : draw.run r with
            | ok w r' => exact bind_of_ok (onSecond_of_ok hr)
            | error e r' => exact bind_of_error (onSecond_of_error hr)

theorem keeps_project (source target : NeuronId) (weight : Option Float)
    (draw : EStateM NetworkError σ Float) :
    Keeps (fun s : Graph × σ => s.1.Consistent) (project source target weight draw) := by
  rintro ⟨g, r⟩ h
  have notSelf (hne : source ≠ target) : (⟨source, target⟩ : ConnectionId).isSelf = false := by
    simp [ConnectionId.isSelf, hne]
  rcases project_cases source target weight draw g r with
    ⟨id, -, -, heq⟩ | ⟨hs, ht, ⟨-, heq⟩ | ⟨hne, hc, heq⟩ | ⟨hne, hc, heq⟩⟩
  · rw [heq]
    exact h
  · rw [heq]
    exact h.enabled _ _
  · rw [heq]
    cases weight with
    | none => exact h
    | some w => exact h.withWeight (by rwa [contains_of_not_isSelf (notSelf hne)]) w
  · rw [heq]
    split
    · exact h.attach (notSelf hne) hs ht hc _
    · exact h

end Connecting

section Names

variable {ks : List NeuronId}

/-- The neurons of the graph are those of the list, in this order. -/
def Named (ks : List NeuronId) (g : Graph) : Prop := g.neurons.keys = ks

theorem named_modifyNeuron (id : NeuronId) (f : Neuron → Neuron) :
    Keeps (Named ks) (modifyNeuron id f) :=
  Keeps.bind (keeps_ask _) fun _ => keeps_modify fun g h => by simpa [Named] using h

theorem named_modifyConnection (c : ConnectionId) (f : Connection → Connection) :
    Keeps (Named ks) (modifyConnection c f) := by
  refine Keeps.bind (keeps_ask _) fun _ => keeps_modify fun g h => ?_
  split
  · simpa [Named] using h
  · exact h

theorem named_ungate (c : ConnectionId) : Keeps (Named ks) (ungate c) := by
  refine Keeps.bind (keeps_ask _) fun d => ?_
  cases d.gater with
  | none => exact keeps_pure _
  | some x =>
    exact Keeps.bind (named_modifyConnection c _) fun _ => named_modifyNeuron x _

theorem named_gate (x : NeuronId) (c : ConnectionId) : Keeps (Named ks) (gate x c) := by
  have finish : Keeps (Named ks) (do
      modifyConnection c fun conn => { conn with gater := some x }
      modifyNeuron x (·.addGated c)) :=
    Keeps.bind (named_modifyConnection c _) fun _ => named_modifyNeuron x _
  refine Keeps.bind (keeps_ask _) fun _ => Keeps.bind keeps_get fun g => keeps_guard ?_
  refine Keeps.bind (keeps_ask _) fun d => keeps_ite (keeps_pure _) (keeps_ite ?_ finish)
  exact Keeps.bind (named_ungate c) fun _ => finish

theorem named_disconnect (source target : NeuronId) :
    Keeps (Named ks) (disconnect source target) := by
  refine Keeps.bind keeps_get fun g => keeps_guard ?_
  refine Keeps.bind (named_ungate _) fun _ => keeps_ite (named_modifyNeuron source _) ?_
  exact keeps_modify fun g h => by simpa [Named, detach] using h

theorem named_project {σ : Type} (source target : NeuronId) (weight : Option Float)
    (draw : EStateM NetworkError σ Float) :
    Keeps (fun s : Graph × σ => Named ks s.1) (project source target weight draw) := by
  rintro ⟨g, r⟩ h
  rcases project_cases source target weight draw g r with
    ⟨id, -, -, heq⟩ | ⟨-, -, ⟨-, heq⟩ | ⟨-, -, heq⟩ | ⟨-, -, heq⟩⟩
  · rw [heq]
    exact h
  · rw [heq]
    simpa [Named, enabled, withNeuron] using h
  · rw [heq]
    cases weight with
    | none => exact h
    | some w =>
      have keys_eq : (g.withConnection ⟨source, target⟩ fun d => { d with weight := w }).neurons.keys =
          g.neurons.keys := by
        unfold withConnection
        split <;> simp [withNeuron]
      exact keys_eq.trans h
  · rw [heq]
    split
    · simpa [Named, attach] using h
    · exact h

/-- The indexes of the graph agree, and its neurons are those of the list. -/
def Intact (ks : List NeuronId) (g : Graph) : Prop := g.Consistent ∧ Named ks g

theorem intact_ungate (c : ConnectionId) : Keeps (Intact ks) (ungate c) :=
  (keeps_ungate c).and (named_ungate c)

theorem intact_gate (x : NeuronId) (c : ConnectionId) : Keeps (Intact ks) (gate x c) :=
  (keeps_gate x c).and (named_gate x c)

theorem intact_disconnect (source target : NeuronId) :
    Keeps (Intact ks) (disconnect source target) :=
  (keeps_disconnect source target).and (named_disconnect source target)

theorem intact_project {σ : Type} (source target : NeuronId) (weight : Option Float)
    (draw : EStateM NetworkError σ Float) :
    Keeps (fun s : Graph × σ => Intact ks s.1) (project source target weight draw) :=
  (keeps_project source target weight draw).and (named_project source target weight draw)

end Names

end Graph

end GatedNetwork
