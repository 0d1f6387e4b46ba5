import GatedNetwork.Proofs.Graph.Consistent

/-! Giving connections to gaters and taking them away, as plain functions of the graph. The
lists of gated connections and the keys of the traces stay in step. -/

namespace GatedNetwork

namespace Neuron

theorem Traced.addInput {n : Neuron} (h : n.Traced) (c : ConnectionId) : (n.addInput c).Traced := by
  refine ⟨fun c' => ?_, fun k => ?_, fun k => ?_, fun k row hr c' => ?_⟩
  · simp [Neuron.addInput, h.eligibility]
  · simpa [Neuron.addInput] using h.extended k
  · simpa [Neuron.addInput] using h.influences k
  · simp only [Neuron.addInput, SortedMap.get?_mapValues, Option.map_eq_some_iff] at hr
    obtain ⟨row, hr, rfl⟩ := hr
    simp [Neuron.addInput, h.rows k row hr]

theorem Traced.removeInput {n : Neuron} (h : n.Traced) (c : ConnectionId) :
    (n.removeInput c).Traced := by
  refine ⟨fun c' => ?_, fun k => ?_, fun k => ?_, fun k row hr c' => ?_⟩
  · simp [Neuron.removeInput, h.eligibility]
  · simpa [Neuron.removeInput] using h.extended k
  · simpa [Neuron.removeInput] using h.influences k
  · simp only [Neuron.removeInput, SortedMap.get?_mapValues, Option.map_eq_some_iff] at hr
    obtain ⟨row, hr, rfl⟩ := hr
    simp [Neuron.removeInput, h.rows k row hr]

theorem Traced.addGated {n : Neuron} (h : n.Traced) (c : ConnectionId) : (n.addGated c).Traced := by
  by_cases hc : n.trace.extended.contains c.target
  · refine ⟨fun c' => ?_, fun k => ?_, fun k => ?_, fun k row hr c' => ?_⟩
    · simp [Neuron.addGated, hc, h.eligibility]
    · have hk := h.extended k
      simp only [Neuron.addGated, hc, ↓reduceIte, SortedSet.contains_insert, Bool.or_eq_true,
        decide_eq_true_eq]
      constructor
      · intro hek
        obtain ⟨c', hc', ht⟩ := hk.mp hek
        exact ⟨c', .inr hc', ht⟩
      · rintro ⟨c', rfl | hc', rfl⟩
        · exact hc
        · exact hk.mpr ⟨c', hc', rfl⟩
    · simpa [Neuron.addGated, hc] using h.influences k
    · simp only [Neuron.addGated, hc, ↓reduceIte] at hr
      simp [Neuron.addGated, h.rows k row hr]
  · refine ⟨fun c' => ?_, fun k => ?_, fun k => ?_, fun k row hr c' => ?_⟩
    · simp [Neuron.addGated, hc, h.eligibility]
    · have hk := h.extended k
      simp only [Neuron.addGated, hc, ↓reduceIte, SortedSet.contains_insert, Bool.or_eq_true,
        decide_eq_true_eq, SortedMap.contains_insert, Bool.false_eq_true]
      constructor
      · rintro (rfl | hek)
        · exact ⟨c, .inl rfl, rfl⟩
        · obtain ⟨c', hc', ht⟩ := hk.mp hek
          exact ⟨c', .inr hc', ht⟩
      · rintro ⟨c', rfl | hc', rfl⟩
        · exact .inl rfl
        · exact .inr (hk.mpr ⟨c', hc', rfl⟩)
    · simp [Neuron.addGated, hc, h.influences k]
    · simp only [Neuron.addGated, hc, Bool.false_eq_true, ↓reduceIte, SortedMap.get?_insert] at hr
      split at hr
      · obtain rfl := Option.some.inj hr
        simp only [Neuron.addGated, SortedMap.contains_eq_isSome, SortedSet.get?_toMap]
        split <;> simp_all
      · simp [Neuron.addGated, h.rows k row hr]

theorem any_target_iff {s : SortedSet ConnectionId} {k : NeuronId} :
    (s.toList.any (·.target == k)) = true ↔ ∃ c, s.contains c ∧ c.target = k := by
  simp [List.any_eq_true]

theorem Traced.removeGated {n : Neuron} (h : n.Traced) (c : ConnectionId) :
    (n.removeGated c).Traced := by
  by_cases hc : (n.gated.erase c).toList.any (·.target == c.target)
  · refine ⟨fun c' => ?_, fun k => ?_, fun k => ?_, fun k row hr c' => ?_⟩
    · simp [Neuron.removeGated, hc, h.eligibility]
    · have hk := h.extended k
      obtain ⟨d, hd, htd⟩ := any_target_iff.mp hc
      simp only [Neuron.removeGated, hc, ↓reduceIte]
      constructor
      · intro hek
        obtain ⟨c', hc', ht⟩ := hk.mp hek
        by_cases hcc : c = c'
        · exact ⟨d, hd, by rw [htd, hcc, ht]⟩
        · exact ⟨c', by simp [hc', hcc], ht⟩
      · rintro ⟨c', hc', ht⟩
        exact hk.mpr ⟨c', by simp at hc'; exact hc'.1, ht⟩
    · simpa [Neuron.removeGated, hc] using h.influences k
    · simp only [Neuron.removeGated, hc, ↓reduceIte] at hr
      simp [Neuron.removeGated, h.rows k row hr]
  · have none_left (c' : ConnectionId) (hc' : (n.gated.erase c).contains c') :
        c'.target ≠ c.target := fun ht => hc (any_target_iff.mpr ⟨c', hc', ht⟩)
    refine ⟨fun c' => ?_, fun k => ?_, fun k => ?_, fun k row hr c' => ?_⟩
    · simp [Neuron.removeGated, hc, h.eligibility]
    · have hk := h.extended k
      simp only [Neuron.removeGated, hc, Bool.false_eq_true, ↓reduceIte, SortedMap.contains_erase,
        Bool.and_eq_true, decide_eq_true_eq]
      constructor
      · rintro ⟨hek, hne⟩
        obtain ⟨c', hc', ht⟩ := hk.mp hek
        have hcc : c ≠ c' := fun e => hne (e ▸ ht)
        exact ⟨c', by simp [hc', hcc], ht⟩
      · rintro ⟨c', hc', rfl⟩
        refine ⟨hk.mpr ⟨c', ?_, rfl⟩, (none_left c' hc').symm⟩
        simp at hc'
        exact hc'.1
    · simp [Neuron.removeGated, hc, h.influences k]
    · simp only [Neuron.removeGated, hc, Bool.false_eq_true, ↓reduceIte, SortedMap.get?_erase] at hr
      split at hr
      · simp at hr
      · simp [Neuron.removeGated, h.rows k row hr]

end Neuron

namespace Graph

def setGater (g : Graph) (c : ConnectionId) (x : NeuronId) : Graph :=
  (g.withConnection c fun d => { d with gater := some x }).withNeuron x (·.addGated c)

def dropGater (g : Graph) (c : ConnectionId) (x : NeuronId) : Graph :=
  (g.withConnection c fun d => { d with gater := none, gain := 1 }).withNeuron x (·.removeGated c)

def ungated (g : Graph) (c : ConnectionId) : Graph :=
  match g.gater? c with
  | none => g
  | some x => g.dropGater c x

def gatedBy (g : Graph) (x : NeuronId) (c : ConnectionId) : Graph :=
  if g.gater? c = some x then g else (g.ungated c).setGater c x

section Gaters

variable {g : Graph} {c : ConnectionId} {x : NeuronId}

/-- What a change of gaters does to a neuron, when `f` is what it does to the gater. -/
theorem get?_regated {u : Connection → Connection} {f : Neuron → Neuron}
    (hf : ∀ n, (f n).inputs = n.inputs ∧ (f n).projected = n.projected ∧
      (f n).selfConnected = n.selfConnected ∧ (f n).selfConnection = n.selfConnection)
    {id : NeuronId} {n' : Neuron}
    (h : ((g.withConnection c u).withNeuron x f).neurons.get? id = some n') :
    ∃ n m, g.neurons.get? id = some n ∧ m = { n with selfConnection := m.selfConnection } ∧
      n' = (if x = id then f m else m) ∧ n'.inputs = n.inputs ∧ n'.projected = n.projected ∧
      n'.selfConnected = n.selfConnected ∧
      n'.selfConnection = (if c = .loop id then u n.selfConnection else n.selfConnection) := by
  rw [withNeuron_get?, withConnection_get?] at h
  cases hn : g.neurons.get? id with
  | none =>
    simp only [hn] at h
    split at h <;> split at h <;> simp at h
  | some n =>
    refine ⟨n, if c = .loop id then { n with selfConnection := u n.selfConnection } else n, rfl, ?_⟩
    by_cases hx : x = id <;> by_cases hc : c = .loop id <;>
      simp only [hn, hx, hc, if_true, if_false, Option.map_some, Option.some.injEq] at h ⊢ <;>
      subst h <;> simp [hf]

theorem connection?_setGater (g : Graph) (c c' : ConnectionId) (x : NeuronId) :
    (g.setGater c x).connection? c' =
      if c = c' then (g.connection? c').map fun d => { d with gater := some x }
      else g.connection? c' := by
  rw [setGater, withNeuron_connection? _ _ (f := (·.addGated c)) fun n _ => rfl,
    withConnection_connection?]

theorem connection?_dropGater (g : Graph) (c c' : ConnectionId) (x : NeuronId) :
    (g.dropGater c x).connection? c' =
      if c = c' then (g.connection? c').map fun d => { d with gater := none, gain := 1 }
      else g.connection? c' := by
  rw [dropGater, withNeuron_connection? _ _ (f := (·.removeGated c)) fun n _ => rfl,
    withConnection_connection?]

theorem gater?_setGater (hc : g.contains c) (c' : ConnectionId) :
    (g.setGater c x).gater? c' = if c = c' then some x else g.gater? c' := by
  obtain ⟨d, hd⟩ := Option.isSome_iff_exists.mp (connection?_isSome_of_contains hc)
  rw [gater?, connection?_setGater]
  by_cases h : c = c'
  · simp [← h, hd]
  · simp [h, gater?]

theorem gater?_dropGater (g : Graph) (c c' : ConnectionId) (x : NeuronId) :
    (g.dropGater c x).gater? c' = if c = c' then none else g.gater? c' := by
  rw [gater?, connection?_dropGater]
  by_cases h : c = c'
  · cases g.connection? c' <;> simp [h]
  · simp [h, gater?]

theorem contains_regated {u : Connection → Connection} {f : Neuron → Neuron}
    (hf : ∀ n, (f n).selfConnected = n.selfConnected) (c' : ConnectionId) :
    ((g.withConnection c u).withNeuron x f).contains c' = g.contains c' := by
  refine contains_eq_of (fun id => ?_) (fun d => by simp) c'
  rw [withNeuron_get?, withConnection_get?]
  cases g.neurons.get? id with
  | none => split <;> split <;> rfl
  | some n => split <;> split <;> simp [hf]

@[simp] theorem contains_setGater (g : Graph) (c c' : ConnectionId) (x : NeuronId) :
    (g.setGater c x).contains c' = g.contains c' :=
  contains_regated (f := (·.addGated c)) (fun _ => rfl) c'

@[simp] theorem contains_dropGater (g : Graph) (c c' : ConnectionId) (x : NeuronId) :
    (g.dropGater c x).contains c' = g.contains c' :=
  contains_regated (f := (·.removeGated c)) (fun _ => rfl) c'

@[simp] theorem setGater_contains_neuron (g : Graph) (c : ConnectionId) (x id : NeuronId) :
    (g.setGater c x).neurons.contains id = g.neurons.contains id := by
  simp [setGater]

@[simp] theorem dropGater_contains_neuron (g : Graph) (c : ConnectionId) (x id : NeuronId) :
    (g.dropGater c x).neurons.contains id = g.neurons.contains id := by
  simp [dropGater]

/-- A change of gaters leaves what neurons take in and project, so that only the gated lists are
left to compare with the gaters. -/
theorem Linked.regated (h : g.Linked) {u : Connection → Connection} {f : Neuron → Neuron}
    (hf : ∀ n, (f n).inputs = n.inputs ∧ (f n).projected = n.projected ∧
      (f n).selfConnected = n.selfConnected ∧ (f n).selfConnection = n.selfConnection)
    (hft : ∀ n, n.Traced → (f n).Traced)
    (gater_mem : ∀ c' id, ((g.withConnection c u).withNeuron x f).gater? c' = some id →
      g.contains c' ∧ g.neurons.contains id)
    (gated_iff : ∀ id n m, g.neurons.get? id = some n → m.gated = n.gated → ∀ c',
      (if x = id then f m else m).gated.contains c' ↔
        ((g.withConnection c u).withNeuron x f).gater? c' = some id) :
    ((g.withConnection c u).withNeuron x f).Linked where
  joined c' hc' := by simpa using h.joined c' (by simpa using hc')
  gater_mem c' id hg := by
    rw [contains_regated fun n => (hf n).2.2.1]
    simpa using gater_mem c' id hg
  projected_iff id n' hn' c' := by
    obtain ⟨n, m, hn, -, -, -, projected_eq, -⟩ := get?_regated hf hn'
    simpa [projected_eq] using h.projected_iff id n hn c'
  inputs_iff id n' hn' c' := by
    obtain ⟨n, m, hn, -, -, inputs_eq, -⟩ := get?_regated hf hn'
    simpa [inputs_eq] using h.inputs_iff id n hn c'
  gated_iff id n' hn' c' := by
    obtain ⟨n, m, hn, hm, hmn, -⟩ := get?_regated hf hn'
    rw [hmn]
    exact gated_iff id n m hn (by rw [hm]) c'
  traced id n' hn' := by
    obtain ⟨n, m, hn, hm, hmn, -⟩ := get?_regated hf hn'
    have ht := h.traced id n hn
    have htm : m.Traced := by
      rw [hm]
      exact ⟨ht.eligibility, ht.extended, ht.influences, ht.rows⟩
    rw [hmn]
    split
    · exact hft m htm
    · exact htm

theorem Linked.setGater (h : g.Linked) (hc : g.contains c) (hx : g.neurons.contains x)
    (hfree : g.gater? c = none) : (g.setGater c x).Linked := by
  refine h.regated (by simp [Neuron.addGated]) (fun _ ht => ht.addGated c) (fun c' id hg => ?_)
    fun id n m hn gated_eq c' => ?_
  · rw [← Graph.setGater, gater?_setGater hc] at hg
    by_cases hcc : c = c'
    · subst hcc
      simp only [if_true, Option.some.injEq] at hg
      subst hg
      exact ⟨hc, hx⟩
    · exact h.gater_mem c' id (by simpa [hcc] using hg)
  · have hg := h.gated_iff id n hn c'
    rw [← Graph.setGater, gater?_setGater hc]
    by_cases hxid : x = id <;> by_cases hcc : c = c'
    · simp [hxid, hcc, Neuron.addGated]
    · simp [hxid, hcc, Neuron.addGated, gated_eq, hg]
    · subst hcc
      simp [hxid, gated_eq, hg, hfree]
    · simp [hxid, hcc, gated_eq, hg]

theorem Linked.dropGater (h : g.Linked) (hx : g.gater? c = some x) : (g.dropGater c x).Linked := by
  refine h.regated (by simp [Neuron.removeGated]) (fun _ ht => ht.removeGated c) (fun c' id hg => ?_)
    fun id n m hn gated_eq c' => ?_
  · rw [← Graph.dropGater, gater?_dropGater] at hg
    by_cases hcc : c = c'
    · simp [hcc] at hg
    · exact h.gater_mem c' id (by simpa [hcc] using hg)
  · have hg := h.gated_iff id n hn c'
    rw [← Graph.dropGater, gater?_dropGater]
    by_cases hxid : x = id <;> by_cases hcc : c = c'
    · simp [hxid, hcc, Neuron.removeGated]
    · simp [hxid, hcc, Neuron.removeGated, gated_eq, hg]
    · subst hcc
      simp [hxid, gated_eq, hg, hx]
    · simp [hxid, hcc, gated_eq, hg]

theorem Consistent.disabled_weight_regated (h : g.Consistent) {u : Connection → Connection}
    {f : Neuron → Neuron}
    (hf : ∀ n, (f n).inputs = n.inputs ∧ (f n).projected = n.projected ∧
      (f n).selfConnected = n.selfConnected ∧ (f n).selfConnection = n.selfConnection)
    (hu : ∀ d, (u d).weight = d.weight) {id : NeuronId} {n' : Neuron}
    (hn' : ((g.withConnection c u).withNeuron x f).neurons.get? id = some n')
    (hoff : n'.selfConnected = false) : n'.selfConnection.weight = 0 := by
  obtain ⟨n, -, hn, -, -, -, -, selfConnected_eq, self_eq⟩ := get?_regated hf hn'
  have weight_eq : n'.selfConnection.weight = n.selfConnection.weight := by
    rw [self_eq]
    split
    · exact hu _
    · rfl
  rw [weight_eq]
  exact h.disabled_weight id n hn (by rw [← selfConnected_eq, hoff])

theorem Consistent.setGater (h : g.Consistent) (hc : g.contains c) (hx : g.neurons.contains x)
    (hfree : g.gater? c = none) : (g.setGater c x).Consistent where
  toLinked := h.toLinked.setGater hc hx hfree
  ungated_gain c' d hd hg := by
    rw [connection?_setGater] at hd
    split at hd
    · obtain ⟨d, -, rfl⟩ := Option.map_eq_some_iff.mp hd
      simp at hg
    · exact h.ungated_gain c' d hd hg
  disabled_weight _ _ hn' hoff :=
    h.disabled_weight_regated (u := fun d => { d with gater := some x }) (f := (·.addGated c))
      (by simp [Neuron.addGated]) (fun _ => rfl) hn' hoff

theorem Consistent.dropGater (h : g.Consistent) (hx : g.gater? c = some x) :
    (g.dropGater c x).Consistent where
  toLinked := h.toLinked.dropGater hx
  ungated_gain c' d hd hg := by
    rw [connection?_dropGater] at hd
    split at hd
    · obtain ⟨d, -, rfl⟩ := Option.map_eq_some_iff.mp hd
      rfl
    · exact h.ungated_gain c' d hd hg
  disabled_weight _ _ hn' hoff :=
    h.disabled_weight_regated (u := fun d => { d with gater := none, gain := 1 }) (f := (·.removeGated c))
      (by simp [Neuron.removeGated]) (fun _ => rfl) hn' hoff

end Gaters

section Ungating

variable {g : Graph} {c : ConnectionId} {x : NeuronId}

theorem Consistent.ungated (h : g.Consistent) (c : ConnectionId) : (g.ungated c).Consistent := by
  unfold Graph.ungated
  split
  · exact h
  · exact h.dropGater ‹_›

@[simp] theorem gater?_ungated (g : Graph) (c c' : ConnectionId) :
    (g.ungated c).gater? c' = if c = c' then none else g.gater? c' := by
  unfold ungated
  split
  · rename_i hg
    split
    · rename_i hcc
      rw [← hcc, hg]
    · rfl
  · exact gater?_dropGater g c c' _

@[simp] theorem contains_ungated (g : Graph) (c c' : ConnectionId) :
    (g.ungated c).contains c' = g.contains c' := by
  unfold ungated
  split <;> simp

@[simp] theorem ungated_contains_neuron (g : Graph) (c : ConnectionId) (id : NeuronId) :
    (g.ungated c).neurons.contains id = g.neurons.contains id := by
  unfold ungated
  split <;> simp

theorem Consistent.gatedBy (h : g.Consistent) (hc : g.contains c) (hx : g.neurons.contains x) :
    (g.gatedBy x c).Consistent := by
  unfold Graph.gatedBy
  split
  · exact h
  · exact (h.ungated c).setGater (by simpa using hc) (by simpa using hx) (by simp)

end Ungating

end Graph

end GatedNetwork
