import GatedNetwork.Proofs.Graph.Active
import GatedNetwork.Proofs.Graph.Lasting

/-! Graphs whose connections all have a property. An edit other than to connect two neurons adds no
connection, whether it succeeds or stops half-way. -/

namespace GatedNetwork

namespace Graph

/-- All connections of the graph have the property. -/
def Within (P : ConnectionId → Prop) (g : Graph) : Prop := ∀ c, g.contains c → P c

section Edits

variable {P : ConnectionId → Prop} {g g' : Graph}

theorem Within.mono {P' : ConnectionId → Prop} (h : g.Within P) (imp : ∀ c, P c → P' c) :
    g.Within P' := fun c hc => imp c (h c hc)

theorem Within.of_subset (h : g.Within P) (subset : ∀ c, g'.contains c → g.contains c) : g'.Within P :=
  fun c hc => h c (subset c hc)

theorem contains_of_loops (plain : g'.connections = g.connections)
    (loops : ∀ id, (g'.neurons.get? id).any (·.selfConnected) → (g.neurons.get? id).any (·.selfConnected))
    (c : ConnectionId) (hc : g'.contains c) : g.contains c := by
  cases self : c.isSelf with
  | false =>
    rw [contains_of_not_isSelf self] at hc ⊢
    exact plain ▸ hc
  | true =>
    rw [eq_loop_of_isSelf self, contains_loop] at hc ⊢
    exact loops _ hc

theorem contains_of_withNeuron {id : NeuronId} {f : Neuron → Neuron}
    (hf : ∀ n, (f n).selfConnected → n.selfConnected) :
    ∀ c, (g.withNeuron id f).contains c → g.contains c := by
  refine contains_of_loops rfl fun x hx => ?_
  rw [withNeuron_get?] at hx
  split at hx
  · cases hn : g.neurons.get? x with
    | none => simp [hn] at hx
    | some n => exact hf n (by simpa [hn] using hx)
  · exact hx

theorem contains_withConnection (g : Graph) (c c' : ConnectionId) (f : Connection → Connection) :
    (g.withConnection c f).contains c' = g.contains c' := by
  refine contains_eq_of (fun id => ?_) (withConnection_contains_connection g c · f) c'
  rw [withConnection_get?]
  split
  · cases g.neurons.get? id <;> rfl
  · rfl

theorem contains_of_erased {id : NeuronId} : ∀ c, (g.erased id).contains c → g.contains c := by
  refine contains_of_loops rfl fun x hx => ?_
  simp only [erased, SortedMap.get?_erase] at hx
  split at hx
  · cases hx
  · exact hx

theorem contains_of_addNeuron {id : NeuronId} {squash : Squash} {bias : Float} :
    ∀ c, (g.addNeuron id squash bias).contains c → g.contains c := by
  refine contains_of_loops rfl fun x hx => ?_
  simp only [addNeuron, SortedMap.get?_insert] at hx
  split at hx
  · cases hx
  · exact hx

theorem within_modifyNeuron (id : NeuronId) {f : Neuron → Neuron}
    (hf : ∀ n, (f n).selfConnected → n.selfConnected) : Keeps (Within P) (modifyNeuron id f) :=
  Keeps.bind (keeps_ask _) fun _ => keeps_modify fun _ h => h.of_subset (contains_of_withNeuron hf)

theorem within_modifyConnection (c : ConnectionId) (f : Connection → Connection) :
    Keeps (Within P) (modifyConnection c f) := by
  refine Keeps.bind (keeps_ask _) fun _ => keeps_modify fun g h => h.of_subset fun c' hc => ?_
  rwa [← contains_withConnection g c c' f]

theorem within_ungate (c : ConnectionId) : Keeps (Within P) (ungate c) := by
  refine Keeps.bind (keeps_ask _) fun d => ?_
  cases d.gater with
  | none => exact keeps_pure _
  | some x =>
    exact Keeps.bind (within_modifyConnection c _) fun _ => within_modifyNeuron x fun _ => id

theorem within_disconnect (source target : NeuronId) : Keeps (Within P) (disconnect source target) := by
  refine Keeps.bind keeps_get fun g => keeps_guard (Keeps.bind (within_ungate _) fun _ => ?_)
  split
  · exact within_modifyNeuron source fun _ absent => nomatch absent
  · rename_i other
    refine keeps_modify fun g h => h.of_subset fun c hc => ?_
    rw [contains_detach (Bool.eq_false_iff.mpr other)] at hc
    exact (Bool.and_eq_true_iff.mp hc).1

theorem within_removeNeuron (id : NeuronId) : Keeps (Within P) (removeNeuron id) := by
  refine Keeps.bind (keeps_ask _) fun n => ?_
  refine Keeps.bind (keeps_forM fun c _ => within_disconnect c.source c.target) fun _ => ?_
  refine Keeps.bind (keeps_forM fun c _ => within_ungate c) fun _ => ?_
  refine Keeps.bind (within_ungate _) fun _ => Keeps.bind (keeps_ask _) fun rest => ?_
  exact Keeps.bind (keeps_modify fun g h => h.of_subset contains_of_erased) fun _ => keeps_pure rest

/-- Two neurons may be connected if their connection has the property. -/
theorem within_project {σ : Type} {source target : NeuronId} (allowed : P ⟨source, target⟩)
    (weight : Option Float) (draw : EStateM NetworkError σ Float) :
    Keeps (fun s : Graph × σ => s.1.Within P) (project source target weight draw) := by
  rintro ⟨g, r⟩ h
  have joined (c : ConnectionId) (hc : (decide (⟨source, target⟩ = c) || g.contains c) = true) : P c := by
    rcases Bool.or_eq_true_iff.mp hc with same | hc
    · exact of_decide_eq_true same ▸ allowed
    · exact h c hc
  rcases project_cases source target weight draw g r with
    ⟨id, -, -, heq⟩ | ⟨hs, -, ⟨rfl, heq⟩ | ⟨-, -, heq⟩ | ⟨other, -, heq⟩⟩
  · rw [heq]
    exact h
  · rw [heq]
    intro c hc
    rw [after_ok, contains_enabled (c := ⟨source, source⟩) hs (by simp [ConnectionId.isSelf])] at hc
    exact joined c hc
  · rw [heq]
    cases weight with
    | none => exact h
    | some w => exact h.of_subset fun c hc => contains_withConnection g _ c _ ▸ hc
  · rw [heq]
    split
    · intro c hc
      rw [after_ok, contains_attach (by simpa [ConnectionId.isSelf] using other)] at hc
      exact joined c hc
    · exact h

theorem lastsTuning_within (P : ConnectionId → Prop) : LastsTuning (Within P) fun _ => True where
  recoverable _ _ := trivial
  setBias x _ := Keeps.endures (within_modifyNeuron x fun _ => id)
  setSquash x _ := Keeps.endures (within_modifyNeuron x fun _ => id)
  setWeight c _ := (within_modifyConnection c _).endures
  disconnect source target := (within_disconnect source target).endures

end Edits

end Graph

end GatedNetwork
