import GatedNetwork.Layer.Basic
import GatedNetwork.Layer.Running
import GatedNetwork.Proofs.Ending

/-! What outlasts the changes of a graph. It is asked of single edits; the operations of layers and
the choices of a random stream then follow. An error that is not fatal is a possible end of every
edit, since names may be missing. -/

namespace GatedNetwork

/-- The question fails, if it does, with an error that is not fatal. -/
def Recoverable {α : Type} (q : Except NetworkError α) : Prop := ∀ e, q = .error e → e.isFatal = false

section Questions

variable {α β : Type}

theorem recoverable_ok (x : α) : Recoverable (.ok x) := nofun

theorem Recoverable.bind {q : Except NetworkError α} {f : α → Except NetworkError β}
    (hq : Recoverable q) (hf : ∀ x, Recoverable (f x)) : Recoverable (q >>= f) := by
  intro e he
  cases q with
  | ok x => exact hf x e he
  | error e' =>
    obtain rfl := Except.error.inj he
    exact hq e' rfl

theorem recoverable_mapM {xs : List α} {f : α → Except NetworkError β}
    (hf : ∀ x ∈ xs, Recoverable (f x)) : Recoverable (xs.mapM f) := by
  induction xs with
  | nil => exact recoverable_ok _
  | cons x xs ih =>
    rw [List.mapM_cons]
    exact (hf x (by simp)).bind fun _ =>
      (ih fun y hy => hf y (by simp [hy])).bind fun _ => recoverable_ok _

theorem recoverable_forM {xs : List α} {f : α → Except NetworkError PUnit}
    (hf : ∀ x ∈ xs, Recoverable (f x)) : Recoverable (xs.forM f) := by
  induction xs with
  | nil => exact recoverable_ok _
  | cons x xs ih => exact (hf x (by simp)).bind fun _ => ih fun y hy => hf y (by simp [hy])

theorem Graph.recoverable_neuron (g : Graph) (id : NeuronId) : Recoverable (g.neuron id) := by
  intro e he
  unfold neuron at he
  split at he
  · cases he
  · obtain rfl := Except.error.inj he
    rfl

theorem Graph.recoverable_connection (g : Graph) (c : ConnectionId) :
    Recoverable (g.connection c) := by
  intro e he
  unfold connection at he
  split at he
  · cases hn : g.neuron c.source with
    | ok n => rw [hn] at he; cases he
    | error e' =>
      rw [hn] at he
      obtain rfl := Except.error.inj he
      exact g.recoverable_neuron c.source e' hn
  · split at he
    · cases he
    · obtain rfl := Except.error.inj he
      rfl

theorem Layer.recoverable_pairs (l : Layer) (target : List NeuronId) (wiring : Wiring) :
    Recoverable (l.pairs target wiring) := by
  intro e he
  cases wiring with
  | oneToOne =>
    simp only [pairs] at he
    split at he
    · cases he
    · obtain rfl := Except.error.inj he
      rfl
  | allToAll => cases he
  | allToElse => cases he

end Questions

section Choices

variable {α : Type} {E : NetworkError → Prop}

/-- A choice always comes to an end. -/
def Chooses (act : Draw α) : Prop := ∀ r, ∃ x r', act.run r = .ok x r'

theorem Chooses.bind {β : Type} {act : Draw α} {f : α → Draw β} (ha : Chooses act)
    (hf : ∀ x, Chooses (f x)) : Chooses (act >>= f) := by
  intro r
  obtain ⟨x, r', run_eq⟩ := ha r
  rw [bind_of_ok run_eq]
  exact hf x r'

theorem chooses_pure (x : α) : Chooses (pure x) := fun r => ⟨x, r, rfl⟩

theorem chooses_word32 : Chooses Draw.word32 := fun r => ⟨r.head, r.advance, rfl⟩

theorem chooses_word64 : Chooses Draw.word64 :=
  chooses_word32.bind fun _ => chooses_word32.bind fun _ => chooses_pure _

theorem chooses_scaled (bits n : Nat) {word : Draw Nat} (h : Chooses word) (attempts : Nat) :
    Chooses (Draw.scaled bits n word attempts) := by
  induction attempts with
  | zero => exact chooses_pure 0
  | succ k ih =>
    refine h.bind fun x => ?_
    dsimp only
    split
    · exact chooses_pure _
    · exact ih

theorem chooses_below32 (n : Nat) : Chooses (Draw.below32 n) :=
  chooses_scaled 32 n (chooses_word32.bind fun _ => chooses_pure _) _

theorem chooses_coin : Chooses Draw.coin := chooses_word64.bind fun _ => chooses_pure _

theorem choose_run (xs : List α) (r : RandomStream) : ∃ choice r',
    (Draw.choose xs).run r = .ok choice r' ∧ ∀ x, choice = some x → x ∈ xs := by
  cases xs with
  | nil => exact ⟨none, r, rfl, nofun⟩
  | cons x xs =>
    obtain ⟨i, r', run_eq⟩ := chooses_below32 (x :: xs).length r
    exact ⟨(x :: xs)[i]?, r', bind_of_ok run_eq, fun y hy => List.mem_of_getElem? hy⟩

theorem chooses_choosePair (n : Nat) : Chooses (Draw.choosePair n) :=
  (chooses_below32 _).bind fun _ => (chooses_below32 _).bind fun _ => chooses_pure _

/-- A draw fails, if it does, as it is allowed to. -/
def Drawn (E : NetworkError → Prop) (act : Draw α) : Prop := Endures (fun _ => True) E act

theorem Chooses.drawn {act : Draw α} (h : Chooses act) : Drawn E act := by
  intro r _
  obtain ⟨x, r', run_eq⟩ := h r
  rw [run_eq]
  trivial

theorem drawn_any (act : Draw α) : Drawn (fun _ => True) act := Keeps.endures fun _ _ => trivial

end Choices

namespace Graph

/-- What outlasts the edits that move numbers and break connections. -/
structure LastsTuning (Q : Graph → Prop) (E : NetworkError → Prop) : Prop where
  recoverable : ∀ e, e.isFatal = false → E e
  setBias : ∀ id bias, Endures Q E (modifyNeuron id fun n => { n with bias })
  setSquash : ∀ id squash, Endures Q E (modifyNeuron id fun n => { n with squash })
  setWeight : ∀ c weight, Endures Q E (modifyConnection c fun d => { d with weight })
  disconnect : ∀ source target, Endures Q E (disconnect source target)

/-- What outlasts every edit of neurons that are there. -/
structure LastsEdits (Q : Graph → Prop) (E : NetworkError → Prop) : Prop extends LastsTuning Q E where
  project : ∀ source target weight (draw : Draw Float), Drawn E draw →
    Endures (fun s : Graph × RandomStream => Q s.1) E (project source target weight draw)
  gate : ∀ gater c, Endures Q E (gate gater c)
  removeNeuron : ∀ id, Endures Q E (removeNeuron id)

end Graph

namespace Layer

variable {Q : Graph → Prop} {E : NetworkError → Prop}

theorem endures_setSquash (h : Graph.LastsTuning Q E) (l : Layer) (squash : Squash) :
    Endures Q E (l.setSquash squash) := endures_forM fun id _ => h.setSquash id squash

theorem endures_setBias (h : Graph.LastsTuning Q E) (l : Layer) (bias : Float) :
    Endures Q E (l.setBias bias) := endures_forM fun id _ => h.setBias id bias

theorem endures_projectOnto (h : Graph.LastsEdits Q E) (l : Layer) (target : List NeuronId)
    (wiring : Wiring) (weight : Option Float) {draw : Draw Float} (drawn : Drawn E draw) :
    Endures (fun s => Q s.1) E (l.projectOnto target wiring weight draw) :=
  Endures.bind (endures_ask fun _ e he => h.recoverable e (l.recoverable_pairs target wiring e he))
    fun _ => endures_mapM fun st _ => h.project st.1 st.2 weight draw drawn

end Layer

end GatedNetwork
