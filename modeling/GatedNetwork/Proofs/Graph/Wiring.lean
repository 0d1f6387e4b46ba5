import GatedNetwork.Proofs.Graph.Gating

/-! Making and breaking connections, as plain functions of the graph. The lists of inputs and
projections stay in step with the table of connections. -/

namespace GatedNetwork

theorem Neuron.Traced.congr {n n' : Neuron} (h : n.Traced) (inputs_eq : n'.inputs = n.inputs)
    (gated_eq : n'.gated = n.gated) (trace_eq : n'.trace = n.trace) : n'.Traced := by
  refine ⟨?_, ?_, ?_, ?_⟩
  · simpa [inputs_eq, trace_eq] using h.eligibility
  · simpa [gated_eq, trace_eq] using h.extended
  · simpa [trace_eq] using h.influences
  · simpa [inputs_eq, trace_eq] using h.rows

namespace Graph

def enabled (g : Graph) (id : NeuronId) (weight : Float) : Graph :=
  g.withNeuron id fun n =>
    { n with selfConnection := { n.selfConnection with weight }, selfConnected := true }

def disabled (g : Graph) (id : NeuronId) : Graph :=
  g.withNeuron id fun n =>
    { n with selfConnection := { n.selfConnection with weight := 0 }, selfConnected := false }

def disconnected (g : Graph) (c : ConnectionId) : Graph :=
  if c.isSelf then (g.ungated c).disabled c.source else (g.ungated c).detach c

section Selves

variable {g : Graph} {id : NeuronId}

theorem Linked.withNeuron (h : g.Linked) {f : Neuron → Neuron}
    (hf : ∀ n, (f n).inputs = n.inputs ∧ (f n).projected = n.projected ∧ (f n).gated = n.gated ∧
      (f n).selfConnection.gater = n.selfConnection.gater)
    (ht : ∀ n, n.Traced → (f n).Traced)
    (hs : ∀ n, g.neurons.get? id = some n → n.selfConnection.gater.isSome → (f n).selfConnected) :
    (g.withNeuron id f).Linked := by
  have gater_eq (c : ConnectionId) : (g.withNeuron id f).gater? c = g.gater? c := by
    unfold gater? connection?
    split
    · rw [withNeuron_get?]
      by_cases hid : id = c.source
      · cases hn : g.neurons.get? c.source with
        | none => simp
        | some n => simp [hid, hf]
      · simp [hid]
    · rfl
  have lookup {x : NeuronId} {n' : Neuron} (hn' : (g.withNeuron id f).neurons.get? x = some n') :
      ∃ n, g.neurons.get? x = some n ∧ n'.inputs = n.inputs ∧ n'.projected = n.projected ∧
        n'.gated = n.gated ∧ (n.Traced → n'.Traced) := by
    rw [withNeuron_get?] at hn'
    split at hn'
    · obtain ⟨n, hn, rfl⟩ := Option.map_eq_some_iff.mp hn'
      exact ⟨n, hn, (hf n).1, (hf n).2.1, (hf n).2.2.1, ht n⟩
    · exact ⟨n', hn', rfl, rfl, rfl, fun traced => traced⟩
  refine ⟨fun c hc => ?_, fun c x hg => ?_, fun x n' hn' c => ?_, fun x n' hn' c => ?_,
    fun x n' hn' c => ?_, fun x n' hn' => ?_⟩
  · simpa using h.joined c hc
  · rw [gater_eq] at hg
    obtain ⟨hc, hx⟩ := h.gater_mem c x hg
    refine ⟨?_, by simpa using hx⟩
    by_cases hself : c.isSelf
    · rw [eq_loop_of_isSelf hself] at hc hg ⊢
      rw [contains_loop] at hc ⊢
      by_cases hid : id = c.source
      · subst hid
        cases hn : g.neurons.get? c.source with
        | none => simp [hn] at hc
        | some n =>
          simp only [gater?, connection?_loop, hn, Option.map_some, Option.bind_some] at hg
          simp [hn, hs n hn (by simp [hg])]
      · simpa [hid] using hc
    · rw [contains_of_not_isSelf (Bool.eq_false_iff.mpr hself)] at hc ⊢
      exact hc
  · obtain ⟨n, hn, -, projected_eq, -⟩ := lookup hn'
    rw [projected_eq]
    exact h.projected_iff x n hn c
  · obtain ⟨n, hn, inputs_eq, -⟩ := lookup hn'
    rw [inputs_eq]
    exact h.inputs_iff x n hn c
  · obtain ⟨n, hn, -, -, gated_eq, -⟩ := lookup hn'
    rw [gated_eq, gater_eq]
    exact h.gated_iff x n hn c
  · obtain ⟨n, hn, -, -, -, traced⟩ := lookup hn'
    exact traced (h.traced x n hn)

theorem Linked.withSelf (h : g.Linked) {f : Neuron → Neuron}
    (hf : ∀ n, (f n).inputs = n.inputs ∧ (f n).projected = n.projected ∧ (f n).gated = n.gated ∧
      (f n).trace = n.trace ∧ (f n).selfConnection.gater = n.selfConnection.gater)
    (hs : ∀ n, g.neurons.get? id = some n → n.selfConnection.gater.isSome → (f n).selfConnected) :
    (g.withNeuron id f).Linked := by
  refine h.withNeuron (fun n => ?_) (fun n traced => ?_) hs
  · obtain ⟨inputs_eq, projected_eq, gated_eq, -, gater_eq⟩ := hf n
    exact ⟨inputs_eq, projected_eq, gated_eq, gater_eq⟩
  · obtain ⟨inputs_eq, -, gated_eq, trace_eq, -⟩ := hf n
    exact traced.congr inputs_eq gated_eq trace_eq

theorem connection?_withNeuron (g : Graph) (id : NeuronId) (f : Neuron → Neuron) (c : ConnectionId) :
    (g.withNeuron id f).connection? c =
      if c = .loop id then (g.neurons.get? id).map fun n => (f n).selfConnection
      else g.connection? c := by
  by_cases hc : c = .loop id
  · subst hc
    rw [connection?_loop, withNeuron_get?]
    cases g.neurons.get? id <;> simp
  · rw [if_neg hc]
    unfold connection?
    split
    · rename_i hs
      have hid : id ≠ c.source := fun e => hc (by rw [e]; exact eq_loop_of_isSelf hs)
      simp [hid]
    · rfl

theorem Consistent.withNeuron (h : g.Consistent) {f : Neuron → Neuron}
    (hf : ∀ n, (f n).inputs = n.inputs ∧ (f n).projected = n.projected ∧ (f n).gated = n.gated ∧
      (f n).selfConnection = n.selfConnection ∧ (f n).selfConnected = n.selfConnected)
    (ht : ∀ n, n.Traced → (f n).Traced) : (g.withNeuron id f).Consistent where
  toLinked := by
    refine h.toLinked.withNeuron (fun n => ?_) ht fun n hn hg => ?_
    · obtain ⟨inputs_eq, projected_eq, gated_eq, self_eq, -⟩ := hf n
      exact ⟨inputs_eq, projected_eq, gated_eq, congrArg Connection.gater self_eq⟩
    · obtain ⟨x, hx⟩ := Option.isSome_iff_exists.mp hg
      have hc := (h.gater_mem (.loop id) x (by simp [gater?, connection?_loop, hn, hx])).1
      rw [contains_loop, hn] at hc
      rw [(hf n).2.2.2.2]
      exact hc
  ungated_gain c d hd hg := by
    rw [Graph.withNeuron_connection? g id (f := f) fun n _ => (hf n).2.2.2.1] at hd
    exact h.ungated_gain c d hd hg
  disabled_weight x n' hn' hoff := by
    rw [withNeuron_get?] at hn'
    split at hn'
    · obtain ⟨n, hn, rfl⟩ := Option.map_eq_some_iff.mp hn'
      rw [(hf n).2.2.2.1]
      rw [(hf n).2.2.2.2] at hoff
      exact h.disabled_weight x n hn hoff
    · exact h.disabled_weight x n' hn' hoff

theorem Consistent.enabled (h : g.Consistent) (id : NeuronId) (weight : Float) :
    (g.enabled id weight).Consistent where
  toLinked := h.toLinked.withSelf (by simp) (by simp)
  ungated_gain c d hd hg := by
    rw [Graph.enabled, connection?_withNeuron] at hd
    split at hd
    · obtain ⟨n, hn, rfl⟩ := Option.map_eq_some_iff.mp hd
      exact h.ungated_gain (.loop id) n.selfConnection (by rw [connection?_loop, hn]; rfl) hg
    · exact h.ungated_gain c d hd hg
  disabled_weight x n' hn' hoff := by
    rw [Graph.enabled, withNeuron_get?] at hn'
    split at hn'
    · obtain ⟨n, -, rfl⟩ := Option.map_eq_some_iff.mp hn'
      simp at hoff
    · exact h.disabled_weight x n' hn' hoff

theorem Consistent.disabled (h : g.Consistent) (hfree : g.gater? (.loop id) = none) :
    (g.disabled id).Consistent where
  toLinked := by
    refine h.toLinked.withSelf (by simp) fun n hn hg => ?_
    simp only [gater?, connection?_loop, hn, Option.map_some, Option.bind_some] at hfree
    simp [hfree] at hg
  ungated_gain c d hd hg := by
    rw [Graph.disabled, connection?_withNeuron] at hd
    split at hd
    · obtain ⟨n, hn, rfl⟩ := Option.map_eq_some_iff.mp hd
      exact h.ungated_gain (.loop id) n.selfConnection (by rw [connection?_loop, hn]; rfl) hg
    · exact h.ungated_gain c d hd hg
  disabled_weight x n' hn' hoff := by
    rw [Graph.disabled, withNeuron_get?] at hn'
    split at hn'
    · obtain ⟨n, -, rfl⟩ := Option.map_eq_some_iff.mp hn'
      rfl
    · exact h.disabled_weight x n' hn' hoff

end Selves

section Edges

variable {g : Graph} {c : ConnectionId}

theorem get?_rewired {ns : SortedMap NeuronId Neuron} {u v : Neuron → Neuron}
    (hu : ∀ n, (u n).gated = n.gated ∧ (n.Traced → (u n).Traced))
    (hv : ∀ n, (v n).gated = n.gated ∧ (n.Traced → (v n).Traced)) {id : NeuronId}
    {n' : Neuron} (h : ((ns.modify c.source u).modify c.target v).get? id = some n') :
    ∃ n, ns.get? id = some n ∧ n'.gated = n.gated ∧ (n.Traced → n'.Traced) ∧
      n' = if c.target = id then v (if c.source = id then u n else n)
        else if c.source = id then u n else n := by
  simp only [SortedMap.get?_modify] at h
  cases hn : ns.get? id with
  | none =>
    simp only [hn] at h
    split at h <;> split at h <;> simp at h
  | some n =>
    have source_kept : (if c.source = id then u n else n).gated = n.gated ∧
        (n.Traced → (if c.source = id then u n else n).Traced) := by
      split
      · exact hu n
      · exact ⟨rfl, fun ht => ht⟩
    have n'_eq : n' = if c.target = id then v (if c.source = id then u n else n)
        else if c.source = id then u n else n := by
      by_cases hs : c.source = id <;> by_cases ht : c.target = id <;>
        simp only [hn, hs, ht, if_true, if_false, Option.map_some, Option.some.injEq] at h ⊢ <;>
        exact h.symm
    refine ⟨n, rfl, ?_, ?_, n'_eq⟩
    · rw [n'_eq]
      split
      · exact (hv _).1.trans source_kept.1
      · exact source_kept.1
    · rw [n'_eq]
      split
      · exact fun ht => (hv _).2 (source_kept.2 ht)
      · exact source_kept.2

theorem get?_attach {weight : Float} {id : NeuronId} {n' : Neuron}
    (h : (g.attach c weight).neurons.get? id = some n') :
    ∃ n, g.neurons.get? id = some n ∧ n'.gated = n.gated ∧ (n.Traced → n'.Traced) ∧
      n' = if c.target = id then
        (if c.source = id then { n with projected := n.projected.insert c } else n).addInput c
        else if c.source = id then { n with projected := n.projected.insert c } else n :=
  get?_rewired (u := fun n => { n with projected := n.projected.insert c }) (v := (·.addInput c))
    (fun _ => ⟨rfl, fun ht => ht.congr rfl rfl rfl⟩) (fun _ => ⟨rfl, fun ht => ht.addInput c⟩) h

theorem get?_detach {id : NeuronId} {n' : Neuron} (h : (g.detach c).neurons.get? id = some n') :
    ∃ n, g.neurons.get? id = some n ∧ n'.gated = n.gated ∧ (n.Traced → n'.Traced) ∧
      n' = if c.target = id then
        (if c.source = id then { n with projected := n.projected.erase c } else n).removeInput c
        else if c.source = id then { n with projected := n.projected.erase c } else n :=
  get?_rewired (u := fun n => { n with projected := n.projected.erase c }) (v := (·.removeInput c))
    (fun _ => ⟨rfl, fun ht => ht.congr rfl rfl rfl⟩) (fun _ => ⟨rfl, fun ht => ht.removeInput c⟩) h

@[simp] theorem attach_contains_neuron (g : Graph) (c : ConnectionId) (weight : Float)
    (id : NeuronId) : (g.attach c weight).neurons.contains id = g.neurons.contains id := by
  simp [attach]

@[simp] theorem detach_contains_neuron (g : Graph) (c : ConnectionId) (id : NeuronId) :
    (g.detach c).neurons.contains id = g.neurons.contains id := by
  simp [detach]

/-- A neuron's own view of its self-connection survives changes of its other connections. -/
theorem get?_attach_self (g : Graph) (c : ConnectionId) (weight : Float) (id : NeuronId) :
    ((g.attach c weight).neurons.get? id).map (fun n => (n.selfConnection, n.selfConnected)) =
      (g.neurons.get? id).map fun n => (n.selfConnection, n.selfConnected) := by
  simp only [attach, SortedMap.get?_modify]
  cases g.neurons.get? id with
  | none => split <;> split <;> rfl
  | some n => split <;> split <;> simp [Neuron.addInput]

theorem get?_detach_self (g : Graph) (c : ConnectionId) (id : NeuronId) :
    ((g.detach c).neurons.get? id).map (fun n => (n.selfConnection, n.selfConnected)) =
      (g.neurons.get? id).map fun n => (n.selfConnection, n.selfConnected) := by
  simp only [detach, SortedMap.get?_modify]
  cases g.neurons.get? id with
  | none => split <;> split <;> rfl
  | some n => split <;> split <;> simp [Neuron.removeInput]

theorem connection?_of_self_eq {g' : Graph} {f : ConnectionId → Option Connection}
    (hn : ∀ id, (g'.neurons.get? id).map (fun n => (n.selfConnection, n.selfConnected)) =
      (g.neurons.get? id).map fun n => (n.selfConnection, n.selfConnected))
    (hc : ∀ c, c.isSelf = false → g'.connections.get? c = f c)
    (hs : ∀ c, c.isSelf = true → g.connection? c = f c) (c : ConnectionId) :
    g'.connection? c = f c := by
  by_cases h : c.isSelf
  · rw [← hs c h]
    have hid := congrArg (Option.map Prod.fst) (hn c.source)
    simpa [connection?, h, Function.comp_def] using hid
  · rw [connection?_of_not_isSelf (Bool.eq_false_iff.mpr h)]
    exact hc c (Bool.eq_false_iff.mpr h)

theorem any_selfConnected (o : Option Neuron) :
    o.any (·.selfConnected) =
      (o.map fun n => (n.selfConnection, n.selfConnected)).any Prod.snd := by
  cases o <;> rfl

theorem connection?_attach (hc : c.isSelf = false) (weight : Float) (c' : ConnectionId) :
    (g.attach c weight).connection? c' =
      if c = c' then some { weight } else g.connection? c' := by
  refine connection?_of_self_eq (g := g) (f := fun d => if c = d then some { weight }
    else g.connection? d) (get?_attach_self g c weight) (fun d hd => ?_) (fun d hd => ?_) c'
  · rw [connection?_of_not_isSelf hd]
    simp [attach]
  · rw [if_neg]
    rintro rfl
    simp [hc] at hd

theorem connection?_detach (hc : c.isSelf = false) (c' : ConnectionId) :
    (g.detach c).connection? c' = if c = c' then none else g.connection? c' := by
  refine connection?_of_self_eq (g := g) (f := fun d => if c = d then none else g.connection? d)
    (get?_detach_self g c) (fun d hd => ?_) (fun d hd => ?_) c'
  · rw [connection?_of_not_isSelf hd]
    simp [detach]
  · rw [if_neg]
    rintro rfl
    simp [hc] at hd

theorem gater?_attach (hc : c.isSelf = false) (hfree : g.connections.contains c = false)
    (weight : Float) (c' : ConnectionId) : (g.attach c weight).gater? c' = g.gater? c' := by
  rw [gater?, gater?, connection?_attach hc]
  split
  · rename_i hcc
    subst hcc
    have hnone : g.connection? c = none := by
      rw [connection?_of_not_isSelf hc]
      simpa [SortedMap.contains_eq_isSome] using hfree
    simp [hnone]
  · rfl

theorem gater?_detach (hc : c.isSelf = false) (c' : ConnectionId) :
    (g.detach c).gater? c' = if c = c' then none else g.gater? c' := by
  rw [gater?, connection?_detach hc]
  split <;> rfl

theorem contains_attach (hc : c.isSelf = false) (weight : Float) (c' : ConnectionId) :
    (g.attach c weight).contains c' = (decide (c = c') || g.contains c') := by
  by_cases hs : c'.isSelf
  · have hne : c ≠ c' := by
      rintro rfl
      simp [hc] at hs
    rw [eq_loop_of_isSelf hs, contains_loop, contains_loop, any_selfConnected, get?_attach_self,
      ← any_selfConnected, ← eq_loop_of_isSelf hs]
    simp [hne]
  · rw [contains_of_not_isSelf (Bool.eq_false_iff.mpr hs),
      contains_of_not_isSelf (Bool.eq_false_iff.mpr hs)]
    simp [attach]

theorem contains_detach (hc : c.isSelf = false) (c' : ConnectionId) :
    (g.detach c).contains c' = (g.contains c' && c ≠ c') := by
  by_cases hs : c'.isSelf
  · have hne : c ≠ c' := by
      rintro rfl
      simp [hc] at hs
    rw [eq_loop_of_isSelf hs, contains_loop, contains_loop, any_selfConnected, get?_detach_self,
      ← any_selfConnected, ← eq_loop_of_isSelf hs]
    simp [hne]
  · rw [contains_of_not_isSelf (Bool.eq_false_iff.mpr hs),
      contains_of_not_isSelf (Bool.eq_false_iff.mpr hs)]
    simp [detach]

theorem Linked.attach (h : g.Linked) (hc : c.isSelf = false) (hs : g.neurons.contains c.source)
    (ht : g.neurons.contains c.target) (hfree : g.connections.contains c = false) (weight : Float) :
    (g.attach c weight).Linked where
  joined c' hc' := by
    simp only [Graph.attach, SortedMap.contains_insert, Bool.or_eq_true, decide_eq_true_eq] at hc'
    rcases hc' with rfl | hc'
    · simp [hc, hs, ht]
    · simpa using h.joined c' hc'
  gater_mem c' x hg := by
    rw [gater?_attach hc hfree] at hg
    obtain ⟨hc', hx⟩ := h.gater_mem c' x hg
    exact ⟨by simp [contains_attach hc, hc'], by simpa using hx⟩
  projected_iff id n' hn' c' := by
    obtain ⟨n, hn, -, -, rfl⟩ := get?_attach hn'
    have hp := h.projected_iff id n hn c'
    by_cases hcc : c = c'
    · subst hcc
      split <;> split <;> simp_all [Graph.attach, Neuron.addInput]
    · split <;> split <;> simp_all [Graph.attach, Neuron.addInput]
  inputs_iff id n' hn' c' := by
    obtain ⟨n, hn, -, -, rfl⟩ := get?_attach hn'
    have hi := h.inputs_iff id n hn c'
    by_cases hcc : c = c'
    · subst hcc
      split <;> split <;> simp_all [Graph.attach, Neuron.addInput]
    · split <;> split <;> simp_all [Graph.attach, Neuron.addInput]
  gated_iff id n' hn' c' := by
    obtain ⟨n, hn, gated_eq, -⟩ := get?_attach hn'
    rw [gated_eq, h.gated_iff id n hn c', gater?_attach hc hfree]
  traced id n' hn' := by
    obtain ⟨n, hn, -, traced, -⟩ := get?_attach hn'
    exact traced (h.traced id n hn)

theorem Linked.detach (h : g.Linked) (hc : c.isSelf = false) (hfree : g.gater? c = none) :
    (g.detach c).Linked where
  joined c' hc' := by
    simp only [Graph.detach, SortedMap.contains_erase, Bool.and_eq_true, decide_eq_true_eq] at hc'
    simpa using h.joined c' hc'.1
  gater_mem c' x hg := by
    rw [gater?_detach hc] at hg
    split at hg
    · simp at hg
    · rename_i hcc
      simpa [contains_detach hc, hcc] using h.gater_mem c' x hg
  projected_iff id n' hn' c' := by
    obtain ⟨n, hn, -, -, rfl⟩ := get?_detach hn'
    have hp := h.projected_iff id n hn c'
    by_cases hcc : c = c'
    · subst hcc
      split <;> split <;> simp_all [Graph.detach, Neuron.removeInput]
    · split <;> split <;> simp_all [Graph.detach, Neuron.removeInput]
  inputs_iff id n' hn' c' := by
    obtain ⟨n, hn, -, -, rfl⟩ := get?_detach hn'
    have hi := h.inputs_iff id n hn c'
    by_cases hcc : c = c'
    · subst hcc
      split <;> split <;> simp_all [Graph.detach, Neuron.removeInput]
    · split <;> split <;> simp_all [Graph.detach, Neuron.removeInput]
  gated_iff id n' hn' c' := by
    obtain ⟨n, hn, gated_eq, -⟩ := get?_detach hn'
    rw [gated_eq, h.gated_iff id n hn c', gater?_detach hc]
    split
    · rename_i hcc
      subst hcc
      simp [hfree]
    · rfl
  traced id n' hn' := by
    obtain ⟨n, hn, -, traced, -⟩ := get?_detach hn'
    exact traced (h.traced id n hn)

theorem Consistent.disabled_weight_of_self_eq (h : g.Consistent) {g' : Graph} {id : NeuronId}
    {n' : Neuron}
    (self_eq : (g'.neurons.get? id).map (fun n => (n.selfConnection, n.selfConnected)) =
      (g.neurons.get? id).map fun n => (n.selfConnection, n.selfConnected))
    (hn' : g'.neurons.get? id = some n') (hoff : n'.selfConnected = false) :
    n'.selfConnection.weight = 0 := by
  rw [hn', Option.map_some] at self_eq
  obtain ⟨n, hn, heq⟩ := Option.map_eq_some_iff.mp self_eq.symm
  obtain ⟨connection_eq, enabled_eq⟩ := Prod.mk.inj heq
  rw [← connection_eq]
  exact h.disabled_weight id n hn (by rw [enabled_eq, hoff])

theorem Consistent.attach (h : g.Consistent) (hc : c.isSelf = false)
    (hs : g.neurons.contains c.source) (ht : g.neurons.contains c.target)
    (hfree : g.connections.contains c = false) (weight : Float) :
    (g.attach c weight).Consistent where
  toLinked := h.toLinked.attach hc hs ht hfree weight
  ungated_gain c' d hd hg := by
    rw [connection?_attach hc] at hd
    split at hd
    · obtain rfl := Option.some.inj hd
      rfl
    · exact h.ungated_gain c' d hd hg
  disabled_weight id _ hn' hoff :=
    h.disabled_weight_of_self_eq (get?_attach_self g c weight id) hn' hoff

theorem Consistent.detach (h : g.Consistent) (hc : c.isSelf = false) (hfree : g.gater? c = none) :
    (g.detach c).Consistent where
  toLinked := h.toLinked.detach hc hfree
  ungated_gain c' d hd hg := by
    rw [connection?_detach hc] at hd
    split at hd
    · simp at hd
    · exact h.ungated_gain c' d hd hg
  disabled_weight id _ hn' hoff :=
    h.disabled_weight_of_self_eq (get?_detach_self g c id) hn' hoff

theorem Consistent.disconnected (h : g.Consistent) (c : ConnectionId) :
    (g.disconnected c).Consistent := by
  unfold Graph.disconnected
  split
  · rename_i hs
    refine (h.ungated c).disabled ?_
    rw [← eq_loop_of_isSelf hs]
    simp
  · rename_i hs
    exact (h.ungated c).detach (Bool.eq_false_iff.mpr hs) (by simp)

end Edges

section Members

variable {g : Graph} {id : NeuronId}

theorem consistent_empty : ({} : Graph).Consistent := by
  refine ⟨⟨?_, ?_, ?_, ?_, ?_, ?_⟩, ?_, ?_⟩ <;>
    simp [gater?, connection?]

theorem addNeuron_get? (g : Graph) (id x : NeuronId) (squash : Squash) (bias : Float) :
    (g.addNeuron id squash bias).neurons.get? x =
      if id = x then some { squash, bias } else g.neurons.get? x := by
  simp [addNeuron]

/-- A neuron of the graph is the new one, as it was made, or was there before. -/
theorem addNeuron_cases {g : Graph} {id x : NeuronId} {squash : Squash} {bias : Float} {n : Neuron}
    (hn : (g.addNeuron id squash bias).neurons.get? x = some n) :
    x = id ∧ n = { squash, bias } ∨ g.neurons.get? x = some n := by
  rw [addNeuron_get?] at hn
  split at hn
  · rename_i hx
    exact .inl ⟨hx.symm, (Option.some.inj hn).symm⟩
  · exact .inr hn

theorem connection?_addNeuron (g : Graph) (id : NeuronId) (squash : Squash) (bias : Float)
    (c : ConnectionId) :
    (g.addNeuron id squash bias).connection? c =
      if c = .loop id then some { weight := 0 } else g.connection? c := by
  by_cases hc : c = .loop id
  · subst hc
    simp [connection?_loop, addNeuron_get?]
  · rw [if_neg hc]
    unfold connection?
    split
    · rename_i hs
      have hid : id ≠ c.source := fun e => hc (by rw [e]; exact eq_loop_of_isSelf hs)
      simp [addNeuron_get?, hid]
    · rfl

/-- A neuron under a new name has nothing to agree with. -/
theorem Consistent.addNeuron (h : g.Consistent) (hid : g.neurons.contains id = false)
    (squash : Squash) (bias : Float) : (g.addNeuron id squash bias).Consistent := by
  have hnone : g.neurons.get? id = none := by
    simpa [SortedMap.contains_eq_isSome] using hid
  have gater_eq (c : ConnectionId) : (g.addNeuron id squash bias).gater? c = g.gater? c := by
    rw [gater?, gater?, connection?_addNeuron]
    split
    · rename_i hc
      simp [hc, connection?_loop, hnone]
    · rfl
  have mem (x : NeuronId) (hx : g.neurons.contains x) :
      (g.addNeuron id squash bias).neurons.contains x := by
    simp [Graph.addNeuron, hx]
  have free (c : ConnectionId) : ¬ g.gater? c = some id := fun hc => by
    have := (h.gater_mem c id hc).2
    simp [hid] at this
  have apart (c : ConnectionId) (hc : g.connections.contains c) : c.source ≠ id ∧ c.target ≠ id := by
    obtain ⟨-, hsource, htarget⟩ := h.joined c hc
    exact ⟨fun e => by simp [e, hid] at hsource, fun e => by simp [e, hid] at htarget⟩
  refine ⟨⟨fun c hc => ?_, fun c x hg => ?_, fun x n hn c => ?_, fun x n hn c => ?_,
    fun x n hn c => ?_, fun x n hn => ?_⟩, fun c d hd hg => ?_, fun x n hn hoff => ?_⟩
  · obtain ⟨hs, hsource, htarget⟩ := h.joined c hc
    exact ⟨hs, mem _ hsource, mem _ htarget⟩
  · rw [gater_eq] at hg
    obtain ⟨hc, hx⟩ := h.gater_mem c x hg
    refine ⟨?_, mem x hx⟩
    by_cases hs : c.isSelf
    · rw [eq_loop_of_isSelf hs, contains_loop] at hc ⊢
      rw [addNeuron_get?, if_neg]
      · exact hc
      · rintro rfl
        simp [hnone] at hc
    · rw [contains_of_not_isSelf (Bool.eq_false_iff.mpr hs)] at hc ⊢
      exact hc
  · rcases addNeuron_cases hn with ⟨rfl, rfl⟩ | hn
    · exact iff_of_false (by simp) fun hc => (apart c hc.2).1 hc.1
    · exact h.projected_iff x n hn c
  · rcases addNeuron_cases hn with ⟨rfl, rfl⟩ | hn
    · exact iff_of_false (by simp) fun hc => (apart c hc.2).2 hc.1
    · exact h.inputs_iff x n hn c
  · rw [gater_eq]
    rcases addNeuron_cases hn with ⟨rfl, rfl⟩ | hn
    · simp [free c]
    · exact h.gated_iff x n hn c
  · rcases addNeuron_cases hn with ⟨rfl, rfl⟩ | hn
    · refine ⟨?_, ?_, ?_, ?_⟩ <;> simp
    · exact h.traced x n hn
  · rw [connection?_addNeuron] at hd
    split at hd
    · obtain rfl := Option.some.inj hd
      rfl
    · exact h.ungated_gain c d hd hg
  · rcases addNeuron_cases hn with ⟨rfl, rfl⟩ | hn
    · rfl
    · exact h.disabled_weight x n hn hoff

def erased (g : Graph) (id : NeuronId) : Graph := { g with neurons := g.neurons.erase id }

theorem connection?_erased (g : Graph) (id : NeuronId) (c : ConnectionId) :
    (g.erased id).connection? c = if c = .loop id then none else g.connection? c := by
  by_cases hc : c = .loop id
  · subst hc
    simp [connection?_loop, erased]
  · rw [if_neg hc]
    unfold connection?
    split
    · rename_i hs
      have hid : id ≠ c.source := fun e => hc (by rw [e]; exact eq_loop_of_isSelf hs)
      simp [erased, hid]
    · rfl

/-- A neuron that nothing speaks of can be left out. -/
theorem Consistent.erased (h : g.Consistent)
    (hedges : ∀ c, g.connections.contains c → c.source ≠ id ∧ c.target ≠ id)
    (hgater : ∀ c, g.gater? c ≠ some id) (hself : g.gater? (.loop id) = none) :
    (g.erased id).Consistent := by
  have gater_eq (c : ConnectionId) : (g.erased id).gater? c = g.gater? c := by
    rw [gater?, connection?_erased]
    split
    · rename_i hc
      rw [hc, hself]
      rfl
    · rfl
  have lookup {x : NeuronId} {n : Neuron} (hn : (g.erased id).neurons.get? x = some n) :
      id ≠ x ∧ g.neurons.get? x = some n := by
    simp only [Graph.erased, SortedMap.get?_erase] at hn
    split at hn
    · simp at hn
    · exact ⟨‹_›, hn⟩
  refine ⟨⟨fun c hc => ?_, fun c x hg => ?_, fun x n hn c => ?_, fun x n hn c => ?_,
    fun x n hn c => ?_, fun x n hn => ?_⟩, fun c d hd hg => ?_, fun x n hn hoff => ?_⟩
  · obtain ⟨hs, hsource, htarget⟩ := h.joined c hc
    obtain ⟨hne, hne'⟩ := hedges c hc
    exact ⟨hs, by simp [Graph.erased, hsource, hne.symm], by simp [Graph.erased, htarget, hne'.symm]⟩
  · rw [gater_eq] at hg
    obtain ⟨hc, hx⟩ := h.gater_mem c x hg
    have hxid : id ≠ x := by
      rintro rfl
      exact hgater c hg
    refine ⟨?_, by simp [Graph.erased, hx, hxid]⟩
    by_cases hs : c.isSelf
    · rw [eq_loop_of_isSelf hs, contains_loop] at hc ⊢
      have hid : id ≠ c.source := by
        intro e
        rw [eq_loop_of_isSelf hs, ← e, hself] at hg
        simp at hg
      simpa [Graph.erased, hid] using hc
    · rw [contains_of_not_isSelf (Bool.eq_false_iff.mpr hs)] at hc ⊢
      exact hc
  · exact h.projected_iff x n (lookup hn).2 c
  · exact h.inputs_iff x n (lookup hn).2 c
  · rw [gater_eq]
    exact h.gated_iff x n (lookup hn).2 c
  · exact h.traced x n (lookup hn).2
  · rw [connection?_erased] at hd
    split at hd
    · simp at hd
    · exact h.ungated_gain c d hd hg
  · exact h.disabled_weight x n (lookup hn).2 hoff

end Members

end Graph

end GatedNetwork
