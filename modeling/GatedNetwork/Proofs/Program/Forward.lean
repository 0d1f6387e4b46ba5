import GatedNetwork.Graph.Activation
import GatedNetwork.Proofs.Graph.Follow
import GatedNetwork.Proofs.Program.Blocks

/-! The forward pass over one neuron, on the graph and by its blocks. The graph reads
everything before it writes; the blocks write as they go, and never over a number that they
still need. -/

namespace GatedNetwork

open Listing

def Trace.withEntries (t : Trace) (e : ConnectionId → Float) (x : NeuronId → ConnectionId → Float)
    (i : NeuronId → Float) : Trace where
  eligibility := t.eligibility.mapValues fun c _ => e c
  extended := t.extended.mapValues fun k row => row.mapValues fun c _ => x k c
  influences := t.influences.mapValues fun k _ => i k

theorem Trace.clear_withEntries (t : Trace) (e : ConnectionId → Float)
    (x : NeuronId → ConnectionId → Float) (i : NeuronId → Float) :
    (t.withEntries e x i).clear = t.clear := by
  simp only [clear, withEntries, SortedMap.mapValues_mapValues]

theorem Trace.recordInfluences_eq {t : Trace} {ks : List NeuronId} (nodup : ks.Nodup)
    (h : ∀ k, k ∈ ks ↔ t.influences.contains k) (i : NeuronId → Float) :
    t.recordInfluences (ks.map fun k => (k, i k)) =
      { t with influences := t.influences.mapValues fun k _ => i k } := by
  rw [recordInfluences, List.foldl_map]
  exact congrArg (fun m => { t with influences := m })
    (SortedMap.foldl_insert_eq_mapValues (fun k _ => i k) nodup h)

theorem Trace.recordRow_eq {t : Trace} {ks : List NeuronId} (nodup : ks.Nodup)
    (h : ∀ k, k ∈ ks ↔ t.extended.contains k) (c : ConnectionId) (e : Float) (x : NeuronId → Float) :
    t.recordRow ⟨c, e, ks.map fun k => (k, x k)⟩ =
      { t with
        eligibility := t.eligibility.insert c e
        extended := t.extended.mapValues fun k row => row.insert c (x k) } := by
  rw [recordRow, List.foldl_map]
  exact congrArg (fun m => { t with eligibility := t.eligibility.insert c e, extended := m })
    (SortedMap.foldl_insert_eq_mapValues (fun k row => (row.getD ∅).insert c (x k)) nodup h)

theorem Trace.record_eq {n : Neuron} (h : n.Traced) (e : ConnectionId → Float)
    (x : NeuronId → ConnectionId → Float) (i : NeuronId → Float) :
    ((n.inputs.toList.map fun c =>
        (⟨c, e c, n.trace.extended.keys.map fun k => (k, x k c)⟩ : TraceRow)).foldl
      Trace.recordRow n.trace).recordInfluences (n.trace.extended.keys.map fun k => (k, i k)) =
      n.trace.withEntries e x i := by
  have mem_inputs (c : ConnectionId) : c ∈ n.inputs.toList ↔ n.inputs.contains c :=
    SortedSet.mem_toList_iff
  have rows_eq (cs : List ConnectionId) (t : Trace)
      (ht : ∀ k, t.extended.contains k = n.trace.extended.contains k) :
      (cs.map fun c => (⟨c, e c, n.trace.extended.keys.map fun k => (k, x k c)⟩ : TraceRow)).foldl
        Trace.recordRow t =
      { t with
        eligibility := cs.foldl (fun m c => m.insert c (e c)) t.eligibility
        extended := t.extended.mapValues fun k row =>
          cs.foldl (fun row c => row.insert c (x k c)) row } := by
    induction cs generalizing t with
    | nil =>
      have id_eq : (t.extended.mapValues fun _ row => row) = t.extended :=
        SortedMap.eq_of_get?_eq fun k => by simp
      simp [id_eq]
    | cons c cs ih =>
      have step := Trace.recordRow_eq (SortedMap.nodup_keys n.trace.extended)
        (fun k => by rw [SortedMap.mem_keys, ht]) c (e c) fun k => x k c
      rw [List.map_cons, List.foldl_cons, step, ih _ fun k => by simp [ht],
        SortedMap.mapValues_mapValues]
      rfl
  have eligibility_eq : n.inputs.toList.foldl (fun m c => m.insert c (e c)) n.trace.eligibility =
      n.trace.eligibility.mapValues fun c _ => e c :=
    SortedMap.foldl_insert_eq_mapValues (fun c _ => e c) n.inputs.nodup_toList fun c => by
      rw [mem_inputs, h.eligibility]
  have extended_eq : (n.trace.extended.mapValues fun k row =>
      n.inputs.toList.foldl (fun row c => row.insert c (x k c)) row) =
      n.trace.extended.mapValues fun k row => row.mapValues fun c _ => x k c :=
    SortedMap.mapValues_congr fun k row hr =>
      SortedMap.foldl_insert_eq_mapValues (fun c _ => x k c) n.inputs.nodup_toList fun c => by
        rw [mem_inputs, h.rows k row hr]
  rw [rows_eq _ _ fun _ => rfl, eligibility_eq, extended_eq,
    Trace.recordInfluences_eq (SortedMap.nodup_keys _) fun k => by rw [SortedMap.mem_keys, h.influences]]
  rfl

section Entries

variable {n : Neuron} (h : n.Traced) (e : ConnectionId → Float)
  (x : NeuronId → ConnectionId → Float) (i : NeuronId → Float)
include h

theorem eligibilityOf_withEntries (c : ConnectionId) :
    (n.trace.withEntries e x i).eligibilityOf c = if n.inputs.contains c then e c else 0 := by
  have hc := h.eligibility c
  rw [SortedMap.contains_eq_isSome] at hc
  rw [Trace.eligibilityOf, Trace.withEntries, SortedMap.get?_mapValues, ← hc]
  cases n.trace.eligibility.get? c <;> simp

theorem extendedOf_withEntries (k : NeuronId) (c : ConnectionId) :
    (n.trace.withEntries e x i).extendedOf k c =
      if n.trace.extended.contains k ∧ n.inputs.contains c then x k c else 0 := by
  rw [Trace.extendedOf, Trace.withEntries, SortedMap.get?_mapValues, SortedMap.contains_eq_isSome]
  cases hr : n.trace.extended.get? k with
  | none => simp
  | some row =>
    have hc := h.rows k row hr c
    rw [SortedMap.contains_eq_isSome] at hc
    simp only [Option.map_some, Option.bind_some, SortedMap.get?_mapValues, ← hc]
    cases row.get? c <;> simp

theorem influenceOf_of_mapValues {t : Trace}
    (ht : t.influences = n.trace.influences.mapValues fun k _ => i k) (k : NeuronId) :
    t.influenceOf k = if n.trace.extended.contains k then i k else 0 := by
  have hk := h.influences k
  rw [SortedMap.contains_eq_isSome] at hk
  rw [Trace.influenceOf, ht, SortedMap.get?_mapValues, ← hk]
  cases n.trace.influences.get? k <;> simp

theorem influenceOf_withEntries (k : NeuronId) :
    (n.trace.withEntries e x i).influenceOf k = if n.trace.extended.contains k then i k else 0 :=
  influenceOf_of_mapValues h i rfl k

end Entries

section Absent

variable {n : Neuron} (h : n.Traced)
include h

theorem eligibilityOf_of_not_input {c : ConnectionId} (hc : ¬ n.inputs.contains c) :
    n.trace.eligibilityOf c = 0 := by
  rw [← h.eligibility, SortedMap.contains_eq_isSome, Option.not_isSome_iff_eq_none] at hc
  simp [Trace.eligibilityOf, hc]

theorem extendedOf_of_not_traced {k : NeuronId} {c : ConnectionId}
    (hkc : ¬ (n.trace.extended.contains k ∧ n.inputs.contains c)) : n.trace.extendedOf k c = 0 := by
  cases hr : n.trace.extended.get? k with
  | none => simp [Trace.extendedOf, hr]
  | some row =>
    have hc : ¬ row.contains c := fun hc =>
      hkc ⟨by simp [SortedMap.contains_eq_isSome, hr], by rwa [← h.rows k row hr]⟩
    rw [SortedMap.contains_eq_isSome, Option.not_isSome_iff_eq_none] at hc
    simp [Trace.extendedOf, hr, hc]

theorem influenceOf_of_not_traced {k : NeuronId} (hk : ¬ n.trace.extended.contains k) :
    n.trace.influenceOf k = 0 := by
  rw [← h.influences, SortedMap.contains_eq_isSome, Option.not_isSome_iff_eq_none] at hk
  simp [Trace.influenceOf, hk]

end Absent

namespace Graph

section Questions

variable {g : Graph} {id : NeuronId} {n : Neuron} {σ : Reading}

theorem Agrees.own (ha : g.Agrees σ) (hn : g.neurons.get? id = some n) {k : Key} (hk : k.IsOf id) :
    σ k = n.reading k := by
  have hfield : k.isField := by cases k <;> first | rfl | exact hk.elim
  rw [ha k hfield, reading_of_isOf hn hk]

theorem Agrees.connection (ha : g.Agrees σ) {c : ConnectionId} {d : Connection}
    (hd : g.connection? c = some d) : d.weight = σ (.weight c) ∧ d.gain = σ (.gain c) := by
  simp [ha (.weight c) rfl, ha (.gain c) rfl, hd]

theorem nextState_eq (h : g.Linked) (ha : g.Agrees σ) (hn : g.neurons.get? id = some n) :
    g.nextState id = .ok (σ.nextState id n) := by
  have own {k : Key} (hk : k.IsOf id) : σ k = n.reading k := ha.own hn hk
  rw [nextState, neuron_eq_ok hn]
  refine (foldlM_eq_ok (v := fun sum c =>
    sum + σ (.activation c.source) * σ (.weight c) * σ (.gain c)) (fun sum c hc => ?_) _).trans ?_
  · obtain ⟨-, -, ⟨d, hd⟩, s, hs⟩ := h.input hn (SortedSet.mem_toList_iff.mp hc)
    obtain ⟨hw, hg⟩ := ha.connection hd
    have hact : σ (.activation c.source) = s.activation := ha.own hs rfl
    rw [connection_eq_ok hd, neuron_eq_ok hs, ← hw, ← hg, hact]
    rfl
  · rw [Reading.nextState, own (k := .gain (.loop id)) rfl, own (k := .weight (.loop id)) rfl,
      own (k := .state id) rfl, own (k := .bias id) rfl]
    rfl

theorem influence_eq (h : g.Linked) (ha : g.Agrees σ) (hn : g.neurons.get? id = some n)
    {k : NeuronId} (hk : n.trace.extended.contains k) :
    g.influence id n k = .ok (σ.influenceOn g id n k) := by
  obtain ⟨m, hm⟩ := h.extended hn hk
  rw [influence, neuron_eq_ok hm]
  refine (foldlM_eq_ok (v := fun sum c => sum + σ (.weight c) * σ (.activation c.source))
    (fun sum c hc => ?_) _).trans ?_
  · obtain ⟨⟨d, hd⟩, ⟨s, hs⟩, -⟩ :=
      h.gate hn (SortedSet.mem_toList_iff.mp (List.mem_filter.mp hc).1)
    have hact : σ (.activation c.source) = s.activation := ha.own hs rfl
    rw [connection_eq_ok hd, neuron_eq_ok hs, ← (ha.connection hd).1, hact]
    rfl
  · have hgater : g.gater? (.loop k) = m.selfConnection.gater := by
      simp [gater?, connection?_loop, hm]
    rw [Reading.influenceOn, hgater, ha.own hm (k := .weight (.loop k)) rfl,
      ha.own hm (k := .old k) rfl]
    rfl

theorem influences_eq (h : g.Linked) (ha : g.Agrees σ) (hn : g.neurons.get? id = some n) :
    g.influences id = .ok (n.trace.extended.keys.map fun k => (k, σ.influenceOn g id n k)) := by
  rw [influences, neuron_eq_ok hn]
  refine mapM_eq_ok fun k hk => ?_
  rw [influence_eq h ha hn (SortedMap.mem_keys.mp hk)]
  rfl

theorem influenced_of_ne {r : Key} (hr : ∀ k, r ≠ .influence id k) :
    σ.influenced g id n r = σ r := by
  cases r with
  | influence i k =>
    have hi : i ≠ id := fun e => hr k (by rw [e])
    simp [Reading.influenced, hi]
  | _ => rfl

theorem traceRows_eq (h : g.Linked) (ha : g.Agrees σ) (hn : g.neurons.get? id = some n) :
    g.traceRows id (n.trace.extended.keys.map fun k => (k, σ.influenceOn g id n k)) =
      .ok (n.inputs.toList.map fun c => ⟨c, (σ.influenced g id n).nextEligibility id c,
        n.trace.extended.keys.map fun k => (k, (σ.influenced g id n).nextExtended id k c)⟩) := by
  have own {k : Key} (hk : k.IsOf id) : σ k = n.reading k := ha.own hn hk
  rw [traceRows, neuron_eq_ok hn]
  refine mapM_eq_ok fun c hc => ?_
  obtain ⟨-, -, ⟨d, hd⟩, s, hs⟩ := h.input hn (SortedSet.mem_toList_iff.mp hc)
  obtain ⟨hw, hg⟩ := ha.connection hd
  have hact : σ (.activation c.source) = s.activation := ha.own hs rfl
  have eligibility : n.selfConnection.gain * n.selfConnection.weight * n.trace.eligibilityOf c +
      d.gain * s.activation = (σ.influenced g id n).nextEligibility id c := by
    rw [Reading.nextEligibility, influenced_of_ne (r := .gain (.loop id)) (by simp),
      influenced_of_ne (r := .weight (.loop id)) (by simp),
      influenced_of_ne (r := .eligibility id c) (by simp), influenced_of_ne (r := .gain c) (by simp),
      influenced_of_ne (r := .activation c.source) (by simp), own (k := .gain (.loop id)) rfl,
      own (k := .weight (.loop id)) rfl, own (k := .eligibility id c) rfl, hg, hact]
    rfl
  have extended : (n.trace.extended.keys.map fun k => (k, σ.influenceOn g id n k)).mapM (fun ki => do
      let gated := (← g.neuron ki.1).selfConnection
      return (ki.1, gated.gain * gated.weight * n.trace.extendedOf ki.1 c +
        n.derivative * (σ.influenced g id n).nextEligibility id c * ki.2)) =
      .ok (n.trace.extended.keys.map fun k => (k, (σ.influenced g id n).nextExtended id k c)) := by
    rw [List.mapM_map]
    refine mapM_eq_ok fun k hk => ?_
    have hk := SortedMap.mem_keys.mp hk
    obtain ⟨m, hm⟩ := h.extended hn hk
    have hi : σ.influenced g id n (.influence id k) = σ.influenceOn g id n k := by
      simp [Reading.influenced, hk]
    rw [Reading.nextExtended, hi, influenced_of_ne (r := .gain (.loop k)) (by simp),
      influenced_of_ne (r := .weight (.loop k)) (by simp), influenced_of_ne (r := .extended id k c) (by simp),
      influenced_of_ne (r := .derivative id) (by simp), ha.own hm (k := .gain (.loop k)) rfl,
      ha.own hm (k := .weight (.loop k)) rfl, own (k := .extended id k c) rfl,
      own (k := .derivative id) rfl]
    simp only [Function.comp_apply, neuron_eq_ok hm]
    rfl
  rw [traceRow, connection_eq_ok hd, neuron_eq_ok hs]
  refine Eq.trans ?_ (congrArg (fun x => x.map
    (TraceRow.mk c ((σ.influenced g id n).nextEligibility id c))) extended)
  rw [← eligibility]
  rfl

end Questions

section Steps

variable {g : Graph} {id : NeuronId} {n : Neuron} {σ : Reading}

theorem follows_setGains (ha : g.Agrees σ) {cs : List ConnectionId}
    (hcs : ∀ c ∈ cs, (g.connection? c).isSome) :
    g.Follows (cs.forM fun c => modifyConnection c fun d => { d with gain := σ (.activation id) }) ()
      (σ.run (cs.map fun c => .copy (.gain c) (.activation id))) := by
  induction cs generalizing g σ with
  | nil => exact follows_pure ha ()
  | cons c cs ih =>
    refine Follows.bind (x := ⟨⟩) (σ := Function.update σ (.gain c) (σ (.activation id))) ?_ fun g' hs ha' => ?_
    · refine follows_modifyConnection ha (hcs c (by simp)) (fun _ => rfl)
        (fun k _ _ hk => Function.update_of_ne hk _ _) (fun d hw _ => ?_) fun d _ _ => ?_
      · simpa using hw.symm
      · simp
    · have := ih ha' fun d hd => isSome_of_skeleton_eq hs (hcs d (by simp [hd]))
      simpa [Reading.step, Instruction.effect] using this

theorem follows_updateGains (h : g.Linked) (ha : g.Agrees σ) (hn : g.neurons.get? id = some n) :
    g.Follows (updateGains id (σ (.activation id))) () (σ.run (gainBlock id n)) := by
  refine Follows.ask (neuron_eq_ok hn) (follows_setGains ha fun c hc => ?_)
  obtain ⟨⟨d, hd⟩, -⟩ := h.gate hn (SortedSet.mem_toList_iff.mp hc)
  simp [hd]

theorem exists_of_skeleton_eq {g' : Graph} (hs : g.skeleton = g'.skeleton)
    (hn : g.neurons.get? id = some n) : ∃ n', g'.neurons.get? id = some n' ∧
      n'.squash = n.squash ∧ n'.inputs = n.inputs ∧ n'.projected = n.projected ∧
      n'.gated = n.gated ∧ n'.trace.extended.keys = n.trace.extended.keys := by
  obtain ⟨n', hn', heq⟩ := get?_of_skeleton_eq hs hn
  obtain ⟨squash_eq, inputs_eq, projected_eq, gated_eq, -, -, clear_eq⟩ := Neuron.of_skeleton_eq heq
  refine ⟨n', hn', squash_eq.symm, inputs_eq.symm, projected_eq.symm, gated_eq.symm, ?_⟩
  have := congrArg (fun t => t.extended.keys) clear_eq
  simpa [Trace.clear] using this.symm

theorem influenced_congr {g' : Graph} {n' : Neuron} (hs : g.skeleton = g'.skeleton)
    (gated_eq : n'.gated = n.gated) (keys_eq : n'.trace.extended.keys = n.trace.extended.keys) :
    σ.influenced g' id n' = σ.influenced g id n := by
  funext r
  cases r with
  | influence i k =>
    simp only [Reading.influenced, Reading.influenceOn, gated_eq, ← SortedMap.mem_keys, keys_eq,
      gater?_of_skeleton_eq hs]
  | _ => rfl

theorem traced_congr {n' : Neuron} (inputs_eq : n'.inputs = n.inputs)
    (keys_eq : n'.trace.extended.keys = n.trace.extended.keys) :
    σ.traced id n' = σ.traced id n := by
  funext r
  cases r <;> simp only [Reading.traced, inputs_eq, ← SortedMap.mem_keys, keys_eq]

theorem follows_fire (ha : g.Agrees σ) (hn : g.neurons.get? id = some n) (s : Float) :
    g.Follows (modifyNeuron id (·.fire s)) () (σ.fired id n s) := by
  refine follows_modifyNeuron ha hn ?_ (fun k _ hof => ?_) fun k hof => ?_
  · rfl
  · cases k <;> simp_all [Reading.fired, Key.IsOf]
  · have own := ha.own hn hof
    have hstate : σ (.state id) = n.state := ha.own hn rfl
    cases k with
    | rate | target | error | gradient => exact hof.elim
    | state | old | activation | derivative =>
      obtain rfl := hof
      simp [Reading.fired, Neuron.reading, Neuron.fire, Squash.eval, hstate]
    | _ => simpa [Reading.fired, Neuron.reading, Neuron.fire] using own

theorem follows_record (h : g.Linked) (ha : g.Agrees σ) (hn : g.neurons.get? id = some n) :
    g.Follows (modifyNeuron id fun n' => { n' with
        trace := ((n.inputs.toList.map fun c =>
          (⟨c, (σ.influenced g id n).nextEligibility id c, n.trace.extended.keys.map fun k =>
            (k, (σ.influenced g id n).nextExtended id k c)⟩ : TraceRow)).foldl
              Trace.recordRow n'.trace).recordInfluences
                (n.trace.extended.keys.map fun k => (k, σ.influenceOn g id n k)) }) ()
      ((σ.influenced g id n).traced id n) := by
  have traced := h.traced id n hn
  refine follows_modifyNeuron ha hn ?_ (fun r _ hof => ?_) fun r hof => ?_
  · simp only [Trace.record_eq traced, Neuron.skeleton, Neuron.clear, Trace.clear_withEntries]
  · have outside : σ.influenced g id n r = σ r := influenced_of_ne fun j => by
      rintro rfl
      exact hof rfl
    rw [← outside]
    cases r <;> simp_all [Reading.traced, Key.IsOf]
  · rw [Trace.record_eq traced]
    have own := ha.own hn hof
    cases r with
    | rate | target | error | gradient => exact hof.elim
    | eligibility j c =>
      obtain rfl := hof
      by_cases hc : n.inputs.contains c
      · simp [Reading.traced, Neuron.reading, eligibilityOf_withEntries traced, hc]
      · have := own.trans (eligibilityOf_of_not_input traced hc)
        simpa [Reading.traced, Reading.influenced, Neuron.reading,
          eligibilityOf_withEntries traced, hc] using this
    | extended j k c =>
      obtain rfl := hof
      by_cases hc : n.trace.extended.contains k ∧ n.inputs.contains c
      · simp [Reading.traced, Neuron.reading, extendedOf_withEntries traced, hc]
      · have := own.trans (extendedOf_of_not_traced traced hc)
        simp only [Reading.traced, Neuron.reading, extendedOf_withEntries traced, true_and, if_neg hc]
        exact this
    | influence j k =>
      obtain rfl := hof
      by_cases hk : n.trace.extended.contains k
      · simp [Reading.traced, Reading.influenced, Neuron.reading, influenceOf_withEntries traced, hk]
      · have := own.trans (influenceOf_of_not_traced traced hk)
        simpa [Reading.traced, Reading.influenced, Neuron.reading, influenceOf_withEntries traced,
          hk] using this
    | _ => exact own

/-- The forward pass over a neuron is what its two blocks do. -/
theorem follows_activate (h : g.Linked) (ha : g.Agrees σ) (hn : g.neurons.get? id = some n) :
    g.Follows (activate id) ((σ.run (activationBlock id n)) (.activation id))
      ((σ.run (activationBlock id n)).run (traceBlock id n (influencesCode g id n))) := by
  rw [traceBlock_eq, Reading.run_append, Reading.run_append, run_activationBlock,
    run_influencesCode, run_rows]
  refine Follows.ask (nextState_eq h ha hn) ?_
  refine Follows.bind (follows_fire ha hn _) fun g₁ hs₁ ha₁ => ?_
  obtain ⟨n₁, hn₁, -, inputs_eq, -, gated_eq, keys_eq⟩ := exists_of_skeleton_eq hs₁ hn
  have h₁ := h.of_skeleton_eq hs₁
  refine Follows.ask (influences_eq h₁ ha₁ hn₁) (Follows.ask (traceRows_eq h₁ ha₁ hn₁) ?_)
  refine Follows.bind (follows_record h₁ ha₁ hn₁) fun g₂ hs₂ ha₂ => ?_
  obtain ⟨n₂, hn₂, -, -, -, gated_eq', -⟩ := exists_of_skeleton_eq hs₂ hn₁
  rw [influenced_congr hs₁ gated_eq keys_eq, traced_congr inputs_eq keys_eq] at ha₂
  have activation_eq : n₂.activation = (σ.fired id n (σ.nextState id n)) (.activation id) :=
    (ha₂.own hn₂ (k := .activation id) rfl).symm
  have gains := follows_updateGains (h₁.of_skeleton_eq hs₂) ha₂ hn₂
  have gainBlock_eq : gainBlock id n₂ = gainBlock id n := by
    rw [gainBlock, gainBlock, gated_eq', gated_eq]
  refine Follows.ask (neuron_eq_ok hn₂) ?_
  rw [activation_eq]
  rw [gainBlock_eq] at gains
  exact Follows.bind gains fun g₃ _ ha₃ => follows_pure ha₃ _

theorem follows_activateInput (h : g.Linked) (ha : g.Agrees σ) (hn : g.neurons.get? id = some n)
    (value : Float) : g.Follows (activateInput id value) value
      (Reading.run (Function.update σ (.activation id) value) (inputBlock id n)) := by
  have traced := h.traced id n hn
  rw [inputBlock, Reading.run_append, ← Block.zeros_cons]
  refine Follows.bind (x := ⟨⟩) (σ := Reading.run (Function.update σ (.activation id) value)
    (Block.zeros (.derivative id :: n.inputs.toList.map (.eligibility id)))) ?_ fun g₁ hs₁ ha₁ => ?_
  · refine follows_modifyNeuron ha hn ?_ (fun r _ hof => ?_) fun r hof => ?_
    · simp only [Neuron.skeleton, Neuron.clear, Trace.clear, SortedMap.mapValues_mapValues]
    · rw [Reading.run_zeros, if_neg ?_, Function.update_of_ne ?_]
      · rintro rfl
        exact hof rfl
      · simp only [List.mem_cons, List.mem_map, not_or, not_exists, not_and]
        refine ⟨?_, fun c _ => ?_⟩ <;> rintro rfl <;> exact hof rfl
    · have own := ha.own hn hof
      rw [Reading.run_zeros]
      cases r with
      | rate | target | error | gradient => exact hof.elim
      | derivative j =>
        obtain rfl := hof
        simp [Neuron.reading]
      | activation j =>
        obtain rfl := hof
        simp [Neuron.reading]
      | eligibility j c =>
        obtain rfl := hof
        have zero : ({ n.trace with
            eligibility := n.trace.eligibility.mapValues fun _ _ => 0 } : Trace).eligibilityOf c = 0 := by
          rw [Trace.eligibilityOf, SortedMap.get?_mapValues]
          cases n.trace.eligibility.get? c <;> rfl
        by_cases hc : n.inputs.contains c
        · simp [Neuron.reading, hc, zero]
        · have := own.trans (eligibilityOf_of_not_input traced hc)
          simpa [Neuron.reading, hc, zero] using this
      | _ => simpa [Neuron.reading, Trace.extendedOf, Trace.influenceOf] using own
  · obtain ⟨n₁, hn₁, -, -, -, gated_eq, -⟩ := exists_of_skeleton_eq hs₁ hn
    have stored : Reading.run (Function.update σ (.activation id) value)
        (Block.zeros (.derivative id :: n.inputs.toList.map (.eligibility id))) (.activation id) =
        value := by
      simp [Reading.run_zeros]
    have gains := follows_updateGains (h.of_skeleton_eq hs₁) ha₁ hn₁
    have gainBlock_eq : gainBlock id n₁ = gainBlock id n := by
      rw [gainBlock, gainBlock, gated_eq]
    rw [stored, gainBlock_eq] at gains
    exact Follows.bind gains fun g₂ _ ha₂ => follows_pure ha₂ value

end Steps

end Graph

end GatedNetwork
