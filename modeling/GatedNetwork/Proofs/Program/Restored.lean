import GatedNetwork.Program.Restore
import GatedNetwork.Proofs.Graph.Entries
import GatedNetwork.Proofs.Program.Compiled

/-! Writing the memory of a program back into a graph. Whatever the graph is, either all that the
program covers is written or nothing is. -/

namespace GatedNetwork

def idsOf (input : Layer) (hidden : List Layer) (output : Layer) : List NeuronId :=
  input.neurons ++ (hidden.flatMap (·.neurons) ++ output.neurons)

theorem rolesOf_ids (input : Layer) (hidden : List Layer) (output : Layer) :
    (rolesOf input hidden output).flatten.map (·.1) = idsOf input hidden output := by
  rw [rolesOf_flatten, List.map_append, workers_ids, idsOf, List.map_map]
  simp [Function.comp_def]

namespace Graph

/-- The neuron is there, and so is every connection that it projects. -/
def Resolves (g : Graph) (id : NeuronId) : Prop :=
  ∃ n, g.neurons.get? id = some n ∧ ∀ c, n.projected.contains c → (g.connection? c).isSome

/-- The keys of the numbers of a neuron and of the connections that it projects. -/
def Reaches (g : Graph) (id : NeuronId) (k : Key) : Prop :=
  k.IsOf id ∨ ∃ n c, g.neurons.get? id = some n ∧ n.projected.contains c ∧
    (k = .weight c ∨ k = .gain c)

theorem resolves_iff {g : Graph} {id : NeuronId} : g.Resolves id ↔
    ∃ n ∈ g.neurons.get? id, ∀ c ∈ n.projected.toList, (g.connection? c).isSome := by
  simp only [Resolves, SortedSet.mem_toList_iff, Option.mem_def]

instance (g : Graph) (id : NeuronId) : Decidable (g.Resolves id) := decidable_of_iff _ resolves_iff.symm

section Skeletons

variable {g g' : Graph} {id : NeuronId} {k : Key}

theorem Resolves.of_skeleton_eq (h : g.Resolves id) (hs : g.skeleton = g'.skeleton) : g'.Resolves id := by
  obtain ⟨n, hn, there⟩ := h
  obtain ⟨n', hn', skeleton_eq⟩ := get?_of_skeleton_eq hs hn
  obtain ⟨-, -, projected_eq, -⟩ := Neuron.of_skeleton_eq skeleton_eq
  exact ⟨n', hn', fun c hc => isSome_of_skeleton_eq hs (there c (projected_eq ▸ hc))⟩

theorem Reaches.of_skeleton_eq (h : g.Reaches id k) (hs : g.skeleton = g'.skeleton) :
    g'.Reaches id k := by
  rcases h with own | ⟨n, c, hn, hc, hk⟩
  · exact .inl own
  · obtain ⟨n', hn', skeleton_eq⟩ := get?_of_skeleton_eq hs hn
    obtain ⟨-, -, projected_eq, -⟩ := Neuron.of_skeleton_eq skeleton_eq
    exact .inr ⟨n', c, hn', projected_eq ▸ hc, hk⟩

end Skeletons

end Graph

namespace Program

variable {p : Program} {g g' g'' : Graph} {S T : Key → Prop} {id : NeuronId} {k : Key}

@[simp] theorem live_live (p : Program) (k : Key) (x : Float) :
    p.live k (p.live k x) = p.live k x := by
  unfold live
  cases p.value? k <;> rfl

theorem live_eq_view {x : Float} (h : g.reading k = x) :
    p.live k x = p.table.view g.reading p.memory k := by
  rw [← h]
  rfl

theorem liveNeuron_skeleton (p : Program) (id : NeuronId) (n : Neuron) :
    (p.liveNeuron id n).skeleton = n.skeleton := by
  simp [Neuron.skeleton, Neuron.clear, liveNeuron, liveTrace, liveConnection, Trace.clear,
    Connection.skeleton, SortedMap.mapValues_mapValues]

theorem held?_liveNeuron (p : Program) (n : Neuron) (hk : k.IsOf id) :
    (p.liveNeuron id n).held? k = (n.held? k).map (p.live k) := by
  cases k with
  | rate | target | error | gradient => exact hk.elim
  | eligibility | influence =>
    obtain rfl := hk
    simp [Neuron.held?, liveNeuron, liveTrace]
  | extended _ k c =>
    obtain rfl := hk
    simp only [Neuron.held?, liveNeuron, liveTrace, SortedMap.get?_mapValues]
    cases n.trace.extended.get? k <;> simp
  | _ =>
    obtain rfl := hk
    rfl

/-- The second graph has the numbers of the program under these keys, as far as the program has one
and the graph an entry, and is the first one in everything else. -/
structure Overwrites (p : Program) (S : Key → Prop) (g g' : Graph) : Prop where
  skeleton : g.skeleton = g'.skeleton
  written : ∀ k, S k → g'.held? k = (g.held? k).map (p.live k)
  kept : ∀ k, ¬ S k → g'.held? k = g.held? k
  stray : ∀ c : ConnectionId, c.isSelf → g'.connections.get? c = g.connections.get? c

section Overwriting

theorem overwrites_nothing (p : Program) (g : Graph) : p.Overwrites (fun _ => False) g g where
  skeleton := rfl
  written _ h := h.elim
  kept _ _ := rfl
  stray _ _ := rfl

theorem Overwrites.trans (h : p.Overwrites S g g') (h' : p.Overwrites T g' g'') :
    p.Overwrites (fun k => S k ∨ T k) g g'' where
  skeleton := h.skeleton.trans h'.skeleton
  written k hk := by
    by_cases hT : T k
    · rw [h'.written k hT]
      by_cases hS : S k
      · rw [h.written k hS, Option.map_map]
        congr 1
        funext x
        exact p.live_live k x
      · rw [h.kept k hS]
    · rw [h'.kept k hT, h.written k (hk.resolve_right hT)]
  kept k hk := by
    rw [not_or] at hk
    rw [h'.kept k hk.2, h.kept k hk.1]
  stray c hc := (h'.stray c hc).trans (h.stray c hc)

theorem Overwrites.congr (h : p.Overwrites S g g') (same : ∀ k, T k ↔ S k) : p.Overwrites T g g' := by
  rwa [show T = S from funext fun k => propext (same k)]

theorem overwrites_withNeuron (p : Program) (g : Graph) (id : NeuronId) :
    p.Overwrites (·.IsOf id) g (g.withNeuron id (p.liveNeuron id)) where
  skeleton := (Graph.skeleton_withNeuron g id fun n _ => p.liveNeuron_skeleton id n).symm
  written k hk := by
    rw [Graph.held?_of_isOf hk, Graph.held?_of_isOf hk, Graph.withNeuron_get?, if_pos rfl]
    cases g.neurons.get? id with
    | none => rfl
    | some n => exact p.held?_liveNeuron n hk
  kept _ hk := g.withNeuron_held?_of_not_isOf id _ hk
  stray _ _ := rfl

theorem overwrites_withConnection (p : Program) (g : Graph) (c : ConnectionId) :
    p.Overwrites (fun k => k = .weight c ∨ k = .gain c) g
      (g.withConnection c (p.liveConnection c)) where
  skeleton := (Graph.skeleton_withConnection g c (f := p.liveConnection c) fun _ => rfl).symm
  written k hk := by
    rcases hk with rfl | rfl <;>
      simp [Graph.held?, Function.comp_def, liveConnection]
  kept k hk := by
    rw [not_or] at hk
    exact g.withConnection_held?_of_ne _ hk.1 hk.2
  stray d hd := by
    unfold Graph.withConnection
    split
    · rfl
    · rename_i regular
      have hne : c ≠ d := fun e => regular (e ▸ hd)
      simp [hne]

end Overwriting

section Writing

theorem writeEach_run (cs : List ConnectionId) (h : ∀ c ∈ cs, (g.connection? c).isSome) :
    ∃ g', (cs.forM fun c => Graph.modifyConnection c (p.liveConnection c)).run g = .ok () g' ∧
      p.Overwrites (fun k => ∃ c ∈ cs, k = .weight c ∨ k = .gain c) g g' := by
  induction cs generalizing g with
  | nil => exact ⟨g, rfl, (overwrites_nothing p g).congr (by simp)⟩
  | cons c cs ih =>
    have first := p.overwrites_withConnection g c
    obtain ⟨g', run_eq, rest⟩ := ih fun d hd =>
      Graph.isSome_of_skeleton_eq first.skeleton (h d (by simp [hd]))
    refine ⟨g', ?_, (first.trans rest).congr (by simp)⟩
    exact (bind_of_ok (Graph.modifyConnection_run (h c (by simp)) _)).trans run_eq

theorem writeNeuron_run (h : g.Resolves id) :
    ∃ g', (p.writeNeuron id).run g = .ok () g' ∧ p.Overwrites (g.Reaches id) g g' := by
  obtain ⟨n, hn, there⟩ := h
  have first := p.overwrites_withNeuron g id
  have hn' : (g.withNeuron id (p.liveNeuron id)).neurons.get? id = some (p.liveNeuron id n) := by
    simp [hn]
  obtain ⟨g', run_eq, rest⟩ := p.writeEach_run n.projected.toList fun c hc =>
    Graph.isSome_of_skeleton_eq first.skeleton (there c (SortedSet.mem_toList_iff.mp hc))
  refine ⟨g', ?_, (first.trans rest).congr fun k => ?_⟩
  · rw [writeNeuron, bind_of_ok (Graph.modifyNeuron_run (Graph.contains_of_get? hn) _)]
    exact (bind_of_ok (Graph.ask_neuron hn')).trans run_eq
  · simp [Graph.Reaches, hn]

/-- What can be written is not lost while other neurons are written. -/
theorem writeNeurons_run {ids : List NeuronId} (h : ∀ id ∈ ids, g.Resolves id) :
    ∃ g', (ids.forM p.writeNeuron).run g = .ok () g' ∧
      p.Overwrites (fun k => ∃ id ∈ ids, g.Reaches id k) g g' := by
  induction ids generalizing g with
  | nil => exact ⟨g, rfl, (overwrites_nothing p g).congr (by simp)⟩
  | cons id ids ih =>
    obtain ⟨g₁, run₁, first⟩ := p.writeNeuron_run (h id (by simp))
    obtain ⟨g₂, run₂, rest⟩ := ih fun x hx => (h x (by simp [hx])).of_skeleton_eq first.skeleton
    refine ⟨g₂, (bind_of_ok run₁).trans run₂, (first.trans rest).congr fun k => ?_⟩
    have same (x : NeuronId) : g₁.Reaches x k ↔ g.Reaches x k :=
      ⟨(·.of_skeleton_eq first.skeleton.symm), (·.of_skeleton_eq first.skeleton)⟩
    simp [same]

end Writing

/-- Everything that would be written is there. -/
def Resolves (p : Program) (g : Graph) : Prop := ∀ id ∈ p.neurons, g.Resolves id

instance (p : Program) (g : Graph) : Decidable (p.Resolves g) :=
  inferInstanceAs (Decidable (∀ id ∈ p.neurons, g.Resolves id))

/-- The keys of what is written. -/
def Covers (p : Program) (g : Graph) (k : Key) : Prop := ∃ id ∈ p.neurons, g.Reaches id k

section Restoring

theorem lookUp_cases (g : Graph) (id : NeuronId) :
    let lookUp : Except NetworkError Unit := do
      let n ← g.neuron id
      n.projected.toList.forM fun c => do
        let _ ← g.connection c
    g.Resolves id ∧ lookUp = .ok () ∨ ¬ g.Resolves id ∧ ∃ e, lookUp = .error e := by
  cases hn : g.neurons.get? id with
  | none =>
    refine .inr ⟨fun ⟨n, hn', _⟩ => by simp [hn] at hn', .unknownNeuron id, ?_⟩
    rw [Graph.neuron_eq_error hn]
    rfl
  | some n =>
    rw [Graph.neuron_eq_ok hn]
    rcases forM_cases n.projected.toList fun c => (do let _ ← g.connection c : Except NetworkError Unit)
      with ⟨all, run_eq⟩ | ⟨c, hc, e, fails, run_eq⟩
    · refine .inl ⟨⟨n, hn, fun c hc => ?_⟩, run_eq⟩
      cases hd : g.connection? c with
      | some d => rfl
      | none =>
        have found := all c (SortedSet.mem_toList_iff.mpr hc)
        rw [Graph.connection_eq_error hd] at found
        nomatch found
    · refine .inr ⟨fun ⟨n', hn', there⟩ => ?_, e, run_eq⟩
      obtain rfl : n = n' := Option.some.inj (hn.symm.trans hn')
      obtain ⟨d, hd⟩ := Option.isSome_iff_exists.mp (there c (SortedSet.mem_toList_iff.mp hc))
      rw [Graph.connection_eq_ok hd] at fails
      nomatch fails

theorem resolves_cases (p : Program) (g : Graph) :
    p.Resolves g ∧ p.resolves g = .ok () ∨ ¬ p.Resolves g ∧ ∃ e, p.resolves g = .error e := by
  rcases forM_cases p.neurons fun id => (do
      let n ← g.neuron id
      n.projected.toList.forM fun c => do
        let _ ← g.connection c : Except NetworkError Unit)
    with ⟨all, run_eq⟩ | ⟨id, hid, e, fails, run_eq⟩
  · refine .inl ⟨fun id hid => ?_, run_eq⟩
    rcases lookUp_cases g id with ⟨there, -⟩ | ⟨-, e, fails⟩
    · exact there
    · nomatch (all id hid).symm.trans fails
  · refine .inr ⟨fun resolves => ?_, e, run_eq⟩
    rcases lookUp_cases g id with ⟨-, found⟩ | ⟨absent, -⟩
    · nomatch found.symm.trans fails
    · exact absent (resolves id hid)

/-- Either everything is written, or something is missing and nothing is written. -/
theorem writeBack_cases (p : Program) (g : Graph) :
    (p.Resolves g ∧ ∃ g', p.writeBack.run g = .ok () g' ∧ p.Overwrites (p.Covers g) g g') ∨
      ¬ p.Resolves g ∧ ∃ e, p.writeBack.run g = .error e g := by
  rcases p.resolves_cases g with ⟨there, found⟩ | ⟨missing, e, fails⟩
  · obtain ⟨g', run_eq, written⟩ := p.writeNeurons_run there
    exact .inl ⟨there, g', (bind_of_ok (ask_of_ok found)).trans run_eq, written⟩
  · exact .inr ⟨missing, e, bind_of_error (ask_of_error fails)⟩

theorem restoreInto_of_ok (h : p.writeBack.run g = .ok () g') : p.restoreInto g = .ok g' := by
  rw [restoreInto, h]

theorem Overwrites.resolves (h : p.Overwrites S g g') (there : p.Resolves g) : p.Resolves g' :=
  fun id hid => (there id hid).of_skeleton_eq h.skeleton

theorem Overwrites.covers_iff (h : p.Overwrites S g g') (k : Key) : p.Covers g' k ↔ p.Covers g k :=
  ⟨fun ⟨id, hid, reached⟩ => ⟨id, hid, reached.of_skeleton_eq h.skeleton.symm⟩,
    fun ⟨id, hid, reached⟩ => ⟨id, hid, reached.of_skeleton_eq h.skeleton⟩⟩

theorem Overwrites.eq_of_held? (h : p.Overwrites S g g')
    (same : ∀ k, g'.held? k = g.held? k) : g' = g :=
  Graph.eq_of_skeleton_of_stray h.skeleton.symm
    (fun k _ => by rw [Graph.reading_eq_getD, Graph.reading_eq_getD, same]) h.stray

theorem Overwrites.again (h : p.Overwrites (p.Covers g) g g') (there : p.Resolves g) :
    p.writeBack.run g' = .ok () g' := by
  rcases p.writeBack_cases g' with ⟨-, g'', run_eq, h'⟩ | ⟨missing, -⟩
  · rw [run_eq, h'.eq_of_held? fun k => ?_]
    by_cases hk : p.Covers g k
    · rw [h'.written k ((h.covers_iff k).mpr hk), h.written k hk, Option.map_map]
      congr 1
      funext x
      exact p.live_live k x
    · rw [h'.kept k fun hk' => hk ((h.covers_iff k).mp hk')]
  · exact absurd (h.resolves there) missing

end Restoring

section Complete

theorem covers_of_linked (h : g.Linked) (hids : ∀ id, g.neurons.contains id → id ∈ p.neurons)
    (hk : (g.held? k).isSome) : p.Covers g k := by
  obtain ⟨x, hx⟩ := Option.isSome_iff_exists.mp hk
  rcases Graph.isOf_or_of_held? hx with ⟨id, n, hn, own⟩ | ⟨c, d, regular, hd, hk⟩
  · exact ⟨id, hids id (Graph.contains_of_get? hn), .inl own⟩
  · obtain ⟨n, hn⟩ := Graph.get?_of_contains (h.ends hd).1
    refine ⟨c.source, hids _ (Graph.contains_of_get? hn), .inr ⟨n, c, hn, ?_, hk⟩⟩
    rw [h.projected_iff _ n hn, SortedMap.contains_eq_isSome, ← Graph.connection?_of_not_isSelf regular,
      hd]
    exact ⟨rfl, rfl⟩

theorem resolves_of_linked (h : g.Linked) (hids : ∀ id ∈ p.neurons, g.neurons.contains id) :
    p.Resolves g := by
  intro id hid
  obtain ⟨n, hn⟩ := Graph.get?_of_contains (hids id hid)
  refine ⟨n, hn, fun c hc => ?_⟩
  obtain ⟨-, -, ⟨d, hd⟩, -⟩ := h.projection hn hc
  simp [hd]

/-- Every number of a graph of this skeleton whose numbers the memory shows is written back. -/
theorem Overwrites.eq_live {live : Graph} (h : p.Overwrites (p.Covers g) g g') (linked : g.Linked)
    (hids : ∀ id, g.neurons.contains id → id ∈ p.neurons) (hs : g.skeleton = live.skeleton)
    (ha : live.Agrees (p.table.view g.reading p.memory)) : g' = live := by
  have joined (c : ConnectionId) (hc : g'.connections.contains c) : c.isSelf = false :=
    ((linked.of_skeleton_eq h.skeleton).joined c hc).1
  refine Graph.eq_of_skeleton_of_reading (h.skeleton.symm.trans hs) joined fun k hk => ?_
  rw [← ha k hk, ← live_eq_view rfl, g.reading_eq_getD, g'.reading_eq_getD]
  cases hx : g.held? k with
  | some x => rw [h.written k (covers_of_linked linked hids (by simp [hx])), hx, Option.map_some,
      Option.getD_some, Option.getD_some]
  | none =>
    have absent : g'.held? k = none := by
      simpa [hx] using Graph.isSome_held?_of_skeleton_eq h.skeleton k
    have absent' : live.held? k = none := by
      simpa [hx] using Graph.isSome_held?_of_skeleton_eq hs k
    have shown := ha k hk
    rw [live.reading_eq_getD, absent', ← live_eq_view rfl, g.reading_eq_getD, hx] at shown
    rw [absent, shown]

end Complete

end Program

end GatedNetwork
