import Mathlib.Tactic.Tauto
import GatedNetwork.Proofs.Graph.Edits
import GatedNetwork.Proofs.Graph.Frame

/-! Removing a neuron. First its connections go, then the gates it holds; a gate on one of the
connections that have just gone is no longer found, and the removal stops there. -/

namespace GatedNetwork

def Connection.released (d : Connection) : Connection := { d with gater := none, gain := 1 }

namespace Graph

section Steps

variable {g : Graph} {c : ConnectionId}

theorem connection?_ungated (h : g.Consistent) (c c' : ConnectionId) :
    (g.ungated c).connection? c' =
      if c = c' then (g.connection? c').map (·.released) else g.connection? c' := by
  unfold ungated
  cases hg : g.gater? c with
  | some x => exact connection?_dropGater g c c' x
  | none =>
    by_cases hc : c = c'
    · subst hc
      rw [if_pos rfl]
      cases hd : g.connection? c with
      | none => rfl
      | some d =>
        simp only [gater?, hd, Option.bind_some] at hg
        have hgain := h.ungated_gain c d hd hg
        cases d
        simp_all [Connection.released]
    · simp [hc]

theorem connection?_disconnected (h : g.Consistent) (hc : c.isSelf = false) (c' : ConnectionId) :
    (g.disconnected c).connection? c' = if c = c' then none else g.connection? c' := by
  rw [disconnected, if_neg (by simp [hc]), connection?_detach hc, connection?_ungated h]
  by_cases hcc : c = c' <;> simp [hcc]

theorem contains_disabled (g : Graph) (id : NeuronId) (c : ConnectionId) :
    (g.disabled id).contains c = (g.contains c && .loop id ≠ c) := by
  by_cases hs : c.isSelf
  · rw [eq_loop_of_isSelf hs, contains_loop, contains_loop, disabled, withNeuron_get?]
    by_cases hid : id = c.source
    · subst hid
      cases g.neurons.get? c.source <;> simp
    · have hne : ConnectionId.loop id ≠ .loop c.source := fun e => hid (congrArg (·.source) e)
      simp [hid, hne]
  · have hne : ConnectionId.loop id ≠ c := by
      rintro rfl
      simp at hs
    rw [contains_of_not_isSelf (Bool.eq_false_iff.mpr hs),
      contains_of_not_isSelf (Bool.eq_false_iff.mpr hs)]
    simp [disabled, hne]

theorem contains_disconnected (g : Graph) (c c' : ConnectionId) :
    (g.disconnected c).contains c' = (g.contains c' && c ≠ c') := by
  unfold disconnected
  by_cases hs : c.isSelf
  · rw [if_pos hs, contains_disabled, contains_ungated, ← eq_loop_of_isSelf hs]
  · rw [if_neg hs, contains_detach (Bool.eq_false_iff.mpr hs), contains_ungated]

@[simp] theorem disconnected_contains_neuron (g : Graph) (c : ConnectionId) (id : NeuronId) :
    (g.disconnected c).neurons.contains id = g.neurons.contains id := by
  unfold disconnected
  split <;> simp [disabled]

theorem spares_disconnected (hc : c.isSelf = false) : g.Spares (g.disconnected c) := by
  rw [disconnected, if_neg (by simp [hc])]
  exact (spares_ungated g c).trans (spares_detach _ c)

end Steps

def stripped (g : Graph) (cs : List ConnectionId) : Graph := cs.foldl disconnected g

def released (g : Graph) (cs : List ConnectionId) : Graph := cs.foldl ungated g

section Loops

variable {g : Graph} {cs : List ConnectionId}

theorem Consistent.stripped (h : g.Consistent) (cs : List ConnectionId) :
    (g.stripped cs).Consistent := by
  induction cs generalizing g with
  | nil => exact h
  | cons c cs ih => exact ih (h.disconnected c)

theorem connection?_stripped (h : g.Consistent) (hcs : ∀ c ∈ cs, c.isSelf = false)
    (c' : ConnectionId) :
    (g.stripped cs).connection? c' = if c' ∈ cs then none else g.connection? c' := by
  induction cs generalizing g with
  | nil => simp [stripped]
  | cons c cs ih =>
    rw [stripped, List.foldl_cons, ← stripped,
      ih (h.disconnected c) fun d hd => hcs d (by simp [hd]),
      connection?_disconnected h (hcs c (by simp))]
    by_cases hc : c = c'
    · simp [hc]
    · by_cases hm : c' ∈ cs <;> simp [hc, hm, Ne.symm hc]

@[simp] theorem stripped_contains_neuron (g : Graph) (cs : List ConnectionId) (id : NeuronId) :
    (g.stripped cs).neurons.contains id = g.neurons.contains id := by
  induction cs generalizing g with
  | nil => rfl
  | cons c cs ih => exact (ih (g.disconnected c)).trans (by simp)

theorem spares_stripped (hcs : ∀ c ∈ cs, c.isSelf = false) : g.Spares (g.stripped cs) := by
  induction cs generalizing g with
  | nil => exact Spares.refl g
  | cons c cs ih =>
    exact (spares_disconnected (hcs c (by simp))).trans (ih fun d hd => hcs d (by simp [hd]))

theorem disconnectEach_run (h : g.Consistent) (nodup : cs.Nodup) (hcs : ∀ c ∈ cs, g.contains c) :
    (cs.forM fun c => disconnect c.source c.target).run g = .ok () (g.stripped cs) := by
  induction cs generalizing g with
  | nil => rfl
  | cons c cs ih =>
    obtain ⟨fresh, nodup⟩ := List.nodup_cons.mp nodup
    have hc := hcs c (by simp)
    refine (bind_of_ok (disconnect_run h hc)).trans (ih (h.disconnected c) nodup fun d hd => ?_)
    have hne : c ≠ d := fun e => fresh (e ▸ hd)
    simp [contains_disconnected, hcs d (by simp [hd]), hne]

theorem Consistent.released (h : g.Consistent) (cs : List ConnectionId) :
    (g.released cs).Consistent := by
  induction cs generalizing g with
  | nil => exact h
  | cons c cs ih => exact ih (h.ungated c)

theorem connection?_released (h : g.Consistent) (c' : ConnectionId) :
    (g.released cs).connection? c' =
      if c' ∈ cs then (g.connection? c').map (·.released) else g.connection? c' := by
  induction cs generalizing g with
  | nil => simp [released]
  | cons c cs ih =>
    rw [released, List.foldl_cons, ← released, ih (h.ungated c), connection?_ungated h]
    by_cases hc : c = c'
    · subst hc
      cases g.connection? c <;> simp [Connection.released]
    · simp [hc, Ne.symm hc]

@[simp] theorem released_contains_neuron (g : Graph) (cs : List ConnectionId) (id : NeuronId) :
    (g.released cs).neurons.contains id = g.neurons.contains id := by
  induction cs generalizing g with
  | nil => rfl
  | cons c cs ih => exact (ih (g.ungated c)).trans (by simp)

theorem spares_released (g : Graph) (cs : List ConnectionId) : g.Spares (g.released cs) := by
  induction cs generalizing g with
  | nil => exact Spares.refl g
  | cons c cs ih => exact (spares_ungated g c).trans (ih (g.ungated c))

/-- The gates of a list are dropped one by one, up to the first that is not found. -/
theorem ungateEach_cases (h : g.Consistent) (cs : List ConnectionId) :
    (∀ c ∈ cs, (g.connection? c).isSome) ∧ (cs.forM ungate).run g = .ok () (g.released cs) ∨
      ∃ c ∈ cs, g.connection? c = none ∧
        ∃ g', (cs.forM ungate).run g = .error (absence c) g' := by
  induction cs generalizing g with
  | nil => exact .inl ⟨by simp, rfl⟩
  | cons c cs ih =>
    cases hd : g.connection? c with
    | none => exact .inr ⟨c, by simp, hd, g, bind_of_error (ungate_error hd)⟩
    | some d =>
      have step := ungate_run h.toLinked (c := c) (by simp [hd])
      have isSome_eq (c' : ConnectionId) :
          ((g.ungated c).connection? c').isSome = (g.connection? c').isSome := by
        rw [connection?_ungated h]
        split <;> simp
      rcases ih (h.ungated c) with ⟨hcs, heq⟩ | ⟨c', hc', hnone, g', heq⟩
      · refine .inl ⟨fun c' hc' => ?_, (bind_of_ok step).trans heq⟩
        rcases List.mem_cons.mp hc' with rfl | hc'
        · simp [hd]
        · rw [← isSome_eq]
          exact hcs c' hc'
      · refine .inr ⟨c', by simp [hc'], ?_, g', (bind_of_ok step).trans heq⟩
        have := isSome_eq c'
        simpa [hnone] using this.symm

end Loops

/-- A graph from which a neuron has been taken, with nothing left that names it. -/
structure Removed (id : NeuronId) (g g' : Graph) : Prop where
  consistent : g'.Consistent
  neurons : ∀ x, g'.neurons.contains x = (g.neurons.contains x && decide (x ≠ id))
  connections : ∀ c, g'.connection? c =
    if c.source = id ∨ c.target = id then none
    else (g.connection? c).map fun d => if d.gater = some id then d.released else d
  spares : g.Spares g'

/-- A neuron that gates a connection which starts or ends at the neuron itself, its
self-connection apart. -/
def GatesOwn (g : Graph) (id : NeuronId) (c : ConnectionId) : Prop :=
  g.gater? c = some id ∧ c.isSelf = false ∧ (c.source = id ∨ c.target = id)

instance (g : Graph) (id : NeuronId) (c : ConnectionId) : Decidable (g.GatesOwn id c) :=
  inferInstanceAs (Decidable (_ ∧ _ ∧ _))

theorem GatesOwn.mem_keys {g : Graph} {id : NeuronId} {c : ConnectionId} (h : g.GatesOwn id c) :
    c ∈ g.connections.keys := by
  obtain ⟨gater_eq, regular, -⟩ := h
  obtain ⟨d, hd, -⟩ := Option.bind_eq_some_iff.mp gater_eq
  rw [connection?_of_not_isSelf regular] at hd
  exact SortedMap.mem_keys_iff.mpr (by simp [hd])

section Removal

variable {g : Graph} {id : NeuronId} {n : Neuron} {c : ConnectionId}

theorem mem_edges_iff (h : g.Linked) (hn : g.neurons.get? id = some n) (c : ConnectionId) :
    c ∈ n.inputs.toList ++ n.projected.toList ↔
      g.connections.contains c ∧ (c.source = id ∨ c.target = id) := by
  rw [List.mem_append, SortedSet.mem_toList_iff, SortedSet.mem_toList_iff, h.inputs_iff id n hn,
    h.projected_iff id n hn]
  tauto

theorem nodup_edges (h : g.Linked) (hn : g.neurons.get? id = some n) :
    (n.inputs.toList ++ n.projected.toList).Nodup := by
  refine List.nodup_append.mpr ⟨n.inputs.nodup_toList, n.projected.nodup_toList, ?_⟩
  rintro c hi _ hp rfl
  obtain ⟨htarget, hc⟩ := (h.inputs_iff id n hn c).mp (SortedSet.mem_toList_iff.mp hi)
  obtain ⟨hsource, -⟩ := (h.projected_iff id n hn c).mp (SortedSet.mem_toList_iff.mp hp)
  have hself := (h.joined c hc).1
  simp [ConnectionId.isSelf, hsource, htarget] at hself

theorem connection?_stripped_edges (h : g.Consistent) (hn : g.neurons.get? id = some n)
    (c : ConnectionId) :
    (g.stripped (n.inputs.toList ++ n.projected.toList)).connection? c =
      if c.isSelf = false ∧ (c.source = id ∨ c.target = id) then none else g.connection? c := by
  have regular (c : ConnectionId) (hc : c ∈ n.inputs.toList ++ n.projected.toList) :
      c.isSelf = false := (h.joined c ((mem_edges_iff h.toLinked hn c).mp hc).1).1
  rw [connection?_stripped h regular]
  by_cases hc : c ∈ n.inputs.toList ++ n.projected.toList
  · rw [if_pos hc, if_pos ⟨regular c hc, ((mem_edges_iff h.toLinked hn c).mp hc).2⟩]
  · rw [if_neg hc]
    split
    · rename_i htouch
      have habsent : ¬ g.connections.contains c :=
        fun hcon => hc ((mem_edges_iff h.toLinked hn c).mpr ⟨hcon, htouch.2⟩)
      rw [connection?_of_not_isSelf htouch.1]
      simpa [SortedMap.contains_eq_isSome] using habsent
    · rfl

/-- The graph once the connections of a neuron, its gates, its own gater and the neuron have
gone. -/
def removed (g : Graph) (id : NeuronId) (n : Neuron) : Graph :=
  (((g.stripped (n.inputs.toList ++ n.projected.toList)).released n.gated.toList).ungated
    (.loop id)).erased id

/-- The graph before the neuron itself goes. -/
def unhooked (g : Graph) (id : NeuronId) (n : Neuron) : Graph :=
  ((g.stripped (n.inputs.toList ++ n.projected.toList)).released n.gated.toList).ungated (.loop id)

theorem removed_eq (g : Graph) (id : NeuronId) (n : Neuron) :
    g.removed id n = (g.unhooked id n).erased id := rfl

theorem Consistent.unhooked (h : g.Consistent) : (g.unhooked id n).Consistent :=
  ((h.stripped (n.inputs.toList ++ n.projected.toList)).released n.gated.toList).ungated (.loop id)

@[simp] theorem unhooked_contains_neuron (g : Graph) (id x : NeuronId) (n : Neuron) :
    (g.unhooked id n).neurons.contains x = g.neurons.contains x := by
  simp [unhooked]

theorem connection?_unhooked (h : g.Consistent) (hn : g.neurons.get? id = some n)
    (c : ConnectionId) : (g.unhooked id n).connection? c =
      if c = .loop id then (g.connection? c).map (·.released)
      else if c.isSelf = false ∧ (c.source = id ∨ c.target = id) then none
      else (g.connection? c).map fun d => if d.gater = some id then d.released else d := by
  have h₁ := h.stripped (n.inputs.toList ++ n.projected.toList)
  rw [Graph.unhooked, connection?_ungated (h₁.released n.gated.toList), connection?_released h₁,
    connection?_stripped_edges h hn]
  have gated_iff : c ∈ n.gated.toList ↔ g.gater? c = some id :=
    SortedSet.mem_toList_iff.trans (h.gated_iff id n hn c)
  by_cases hloop : .loop id = c
  · subst hloop
    simp only [isSelf_loop, Bool.true_eq_false, false_and, ↓reduceIte]
    cases g.connection? (.loop id) <;>
      by_cases hm : .loop id ∈ n.gated.toList <;> simp only [hm, ↓reduceIte] <;> rfl
  · rw [if_neg hloop, if_neg (Ne.symm hloop)]
    by_cases htouch : c.isSelf = false ∧ (c.source = id ∨ c.target = id)
    · simp [htouch]
    · rw [if_neg htouch, if_neg htouch]
      simp only [gated_iff, gater?]
      cases hd : g.connection? c with
      | none => simp
      | some d => by_cases hg : d.gater = some id <;> simp [hg]

/-- A connection that touches a neuron is its self-connection or a regular one. -/
theorem eq_loop_of_touches (hself : c.isSelf) (htouch : c.source = id ∨ c.target = id) :
    c = .loop id := by
  have hst : c.source = c.target := by simpa [ConnectionId.isSelf] using hself
  rw [eq_loop_of_isSelf hself]
  rcases htouch with htouch | htouch
  · rw [htouch]
  · rw [hst, htouch]

theorem connection?_removed (h : g.Consistent) (hn : g.neurons.get? id = some n)
    (c : ConnectionId) : (g.removed id n).connection? c =
      if c.source = id ∨ c.target = id then none
      else (g.connection? c).map fun d => if d.gater = some id then d.released else d := by
  rw [removed_eq, connection?_erased, connection?_unhooked h hn]
  by_cases hloop : c = .loop id
  · simp [hloop, ConnectionId.loop]
  · rw [if_neg hloop, if_neg hloop]
    by_cases htouch : c.source = id ∨ c.target = id
    · have regular : c.isSelf = false :=
        Bool.eq_false_iff.mpr fun hself => hloop (eq_loop_of_touches hself htouch)
      rw [if_pos htouch, if_pos ⟨regular, htouch⟩]
    · rw [if_neg htouch, if_neg fun hc => htouch hc.2]

theorem Consistent.removed (h : g.Consistent) (hn : g.neurons.get? id = some n) :
    Removed id g (g.removed id n) := by
  have h₃ : (g.unhooked id n).Consistent := h.unhooked
  have lookup := connection?_unhooked h hn
  refine ⟨h₃.erased (fun c hc => ?_) (fun c hc => ?_) (by simp [Graph.unhooked]), fun x => ?_,
    connection?_removed h hn, ?_⟩
  · have hself := (h₃.joined c hc).1
    have hsome : (g.unhooked id n).connection? c ≠ none := by
      rw [connection?_of_not_isSelf hself]
      simpa [SortedMap.contains_eq_isSome, Option.isSome_iff_ne_none] using hc
    rw [lookup, if_neg (by rintro rfl; simp at hself)] at hsome
    have huntouched : ¬ (c.source = id ∨ c.target = id) := fun ht => hsome (if_pos ⟨hself, ht⟩)
    exact ⟨fun e => huntouched (.inl e), fun e => huntouched (.inr e)⟩
  · rw [gater?, lookup] at hc
    split at hc
    · cases hd : g.connection? c <;> simp [hd, Connection.released] at hc
    · split at hc
      · simp at hc
      · cases hd : g.connection? c with
        | none => simp [hd] at hc
        | some d =>
          by_cases hg : d.gater = some id
          · simp [hd, hg, Connection.released] at hc
          · simp [hd, hg] at hc
  · simp [removed_eq, Graph.erased, eq_comm]
  · refine (((spares_stripped fun c hc => ?_).trans (spares_released _ _)).trans
      (spares_ungated _ _)).trans (spares_erased _ _)
    exact (h.joined c ((mem_edges_iff h.toLinked hn c).mp hc).1).1

/-- Removing a neuron either takes it out completely, or stops at a gate that the neuron held
on one of its own connections: ungating fails only for a connection that is broken already. -/
theorem removeNeuron_cases (h : g.Consistent) (hn : g.neurons.get? id = some n) :
    (∀ c, ¬ g.GatesOwn id c) ∧ (∃ rest, (removeNeuron id).run g = .ok rest (g.removed id n)) ∨
      ∃ c, g.GatesOwn id c ∧
        ∃ g', (removeNeuron id).run g = .error (.unknownConnection c) g' ∧
          g'.Intact g.neurons.keys := by
  have h₁ := h.stripped (n.inputs.toList ++ n.projected.toList)
  have strip := disconnectEach_run h (nodup_edges h.toLinked hn) fun c hc => by
    have hcon := ((mem_edges_iff h.toLinked hn c).mp hc).1
    rwa [contains_of_not_isSelf (h.joined c hcon).1]
  have start {α : Type} (k : Graph.Edit α) : (do
      let _ ← (n.inputs.toList ++ n.projected.toList).forM fun c => disconnect c.source c.target
      k).run g = k.run (g.stripped (n.inputs.toList ++ n.projected.toList)) := bind_of_ok strip
  have present (c : ConnectionId) (hc : c ∈ n.gated.toList) : (g.connection? c).isSome := by
    have hg := (h.gated_iff id n hn c).mp (SortedSet.mem_toList_iff.mp hc)
    exact connection?_isSome_of_contains (h.gater_mem c id hg).1
  rw [removeNeuron, bind_of_ok (ask_neuron hn)]
  rcases ungateEach_cases h₁ n.gated.toList with ⟨hsome, heq⟩ | ⟨c, hc, hnone, g', heq⟩
  · refine .inl ⟨fun c hown => ?_, ?_⟩
    · have hc := SortedSet.mem_toList_iff.mpr ((h.gated_iff id n hn c).mpr hown.1)
      have := hsome c hc
      rw [connection?_stripped_edges h hn, if_pos hown.2] at this
      simp at this
    · have h₂ := h₁.released n.gated.toList
      have hid : ((g.stripped (n.inputs.toList ++ n.projected.toList)).released
          n.gated.toList).neurons.contains id := by simpa using contains_of_get? hn
      obtain ⟨m, hm⟩ := get?_of_contains hid
      have hloop : (ungate (.loop id)).run ((g.stripped (n.inputs.toList ++
          n.projected.toList)).released n.gated.toList) = .ok () (g.unhooked id n) :=
        ungate_run h₂.toLinked (by simp [connection?_loop, hm])
      obtain ⟨rest, hrest⟩ := get?_of_contains (g := g.unhooked id n)
        (by simpa using hid : _ = true)
      refine ⟨rest, (start _).trans ?_⟩
      rw [bind_of_ok heq, bind_of_ok hloop, bind_of_ok (ask_neuron hrest)]
      rfl
  · have hstripped := connection?_stripped_edges h hn c
    have htouch : c.isSelf = false ∧ (c.source = id ∨ c.target = id) := by
      refine Classical.byContradiction fun hcontra => ?_
      rw [if_neg hcontra, hnone] at hstripped
      have := present c hc
      simp [← hstripped] at this
    refine .inr ⟨c, ⟨(h.gated_iff id n hn c).mp (SortedSet.mem_toList_iff.mp hc), htouch⟩, g', ?_, ?_⟩
    · refine (start _).trans ?_
      rw [bind_of_error heq, absence, if_neg (by simp [htouch.1])]
    · have stripped := keeps_forM (fun c (_ : c ∈ n.inputs.toList ++ n.projected.toList) =>
        intact_disconnect c.source c.target) g ⟨h, rfl⟩
      rw [strip] at stripped
      have kept := keeps_forM (fun c (_ : c ∈ n.gated.toList) => intact_ungate c) _ stripped
      rwa [after_ok, heq] at kept

end Removal

end Graph

end GatedNetwork
