import GatedNetwork.Program.Key
import GatedNetwork.Proofs.Graph.Reading
import GatedNetwork.Proofs.Graph.Resting
import GatedNetwork.Proofs.Graph.Tuning
import GatedNetwork.Proofs.Random.Ranges

/-! What a reset of a layer draws. In a graph that rests nothing is left to clear, so that a reset is
a list of draws, and it tunes the graph by what they give. -/

namespace GatedNetwork

theorem SortedMap.Zero.mapValues_zero {κ : Type} [Ord κ] [Std.TransOrd κ] [Std.LawfulEqOrd κ]
    {m : SortedMap κ Float} (h : m.Zero) : (m.mapValues fun _ _ => 0) = m := by
  refine eq_of_get?_eq fun k => ?_
  rw [get?_mapValues]
  cases hk : m.get? k with
  | none => rfl
  | some x =>
    rw [h k x hk]
    rfl

theorem Neuron.Resting.clear_eq {n : Neuron} (h : n.Resting) : n.clear = n := by
  have rows_eq : (n.trace.extended.mapValues fun _ row => row.mapValues fun _ _ => 0) =
      n.trace.extended := by
    refine SortedMap.eq_of_get?_eq fun k => ?_
    rw [SortedMap.get?_mapValues]
    cases hk : n.trace.extended.get? k with
    | none => rfl
    | some row => exact congrArg some (h.rows k row hk).mapValues_zero
  have trace_eq : n.trace.clear = n.trace := by
    rw [Trace.clear, h.eligibility.mapValues_zero, rows_eq, h.influences.mapValues_zero]
  obtain ⟨activation, state, old, derivative, error, -, -, -⟩ := h
  rw [clear, trace_eq]
  cases n
  simp_all

/-- Where the number under a key is drawn from. -/
def Key.drawRange (weights biases : Range) : Key → Range
  | .weight _ => weights
  | _ => biases

/-- The listed biases and weights take new values. -/
def Tuning.drawn (ks : List Key) (values : Reading) : Tuning where
  bias id old := if .bias id ∈ ks then values (.bias id) else old
  weight c old := if .weight c ∈ ks then values (.weight c) else old

namespace Graph

/-- What a reset draws for a neuron: its bias, then the weights of its inputs. -/
def drawnAt (g : Graph) (id : NeuronId) : List Key :=
  match g.neurons.get? id with
  | some n => .bias id :: n.inputs.toList.map .weight
  | none => []

/-- The numbers under the keys have been drawn one after the other, and nothing else has changed. -/
def Redrawn (range : Key → Range) (g : Graph) (r : RandomStream) (ks : List Key)
    (s : Graph × RandomStream) : Prop :=
  ∃ values : Reading, s.1 = g.tuned (.drawn ks values) ∧
    (ks.mapM fun k => (range k).draw).run r = .ok (ks.map values) s.2

section Tuned

variable {g : Graph} {t : Tuning} {id : NeuronId} {c : ConnectionId} {ks : List Key} {values : Reading}

theorem skeleton_tuned (kept : ∀ id squash, t.squash id squash = squash) :
    (g.tuned t).skeleton = g.skeleton := by
  refine eq_of_get?_eq (fun id => ?_) fun c => ?_
  · rw [skeleton_neurons_get?, skeleton_neurons_get?, tuned, SortedMap.get?_mapValues, Option.map_map]
    congr 1
    funext n
    simp only [Function.comp_def, Neuron.skeleton, Neuron.clear, kept]
    rfl
  · rw [skeleton_connections_get?, skeleton_connections_get?, tuned, SortedMap.get?_mapValues,
      Option.map_map]
    rfl

theorem Resting.tuned (h : g.Resting) (t : Tuning) : (g.tuned t).Resting where
  neurons id n' hn' := by
    rw [Graph.tuned, SortedMap.get?_mapValues] at hn'
    obtain ⟨n, hn, rfl⟩ := Option.map_eq_some_iff.mp hn'
    exact { h.neurons id n hn with }
  gains c d' hd' := by
    rw [tuned_connection?] at hd'
    obtain ⟨d, hd, rfl⟩ := Option.map_eq_some_iff.mp hd'
    exact h.gains c d hd

theorem tuned_drawn_nil (g : Graph) (values : Reading) : g.tuned (.drawn [] values) = g := by
  refine eq_of_get?_eq (fun id => ?_) fun c => ?_
  · rw [tuned, SortedMap.get?_mapValues]
    cases g.neurons.get? id <;> rfl
  · rw [tuned, SortedMap.get?_mapValues]
    cases g.connections.get? c <;> rfl

theorem andThen_drawn (ks ks' : List Key) (values values' : Reading) :
    (Tuning.drawn ks values).andThen (.drawn ks' values') =
      .drawn (ks ++ ks') fun k => if k ∈ ks' then values' k else values k := by
  have pick (k : Key) (old : Float) :
      (if k ∈ ks' then values' k else if k ∈ ks then values k else old) =
        if k ∈ ks ++ ks' then (if k ∈ ks' then values' k else values k) else old := by
    by_cases later : k ∈ ks'
    · simp [later]
    · simp [later]
  simp only [Tuning.andThen, Tuning.drawn, pick]

theorem setBias_eq_drawn (id : NeuronId) (x : Float) :
    Tuning.setBias id x = .drawn [.bias id] fun _ => x := by
  simp [Tuning.setBias, Tuning.drawn]

theorem setWeight_eq_drawn (c : ConnectionId) (x : Float) :
    Tuning.setWeight c x = .drawn [.weight c] fun _ => x := by
  simp [Tuning.setWeight, Tuning.drawn]

theorem reading_drawn_bias (h : g.neurons.contains id) (listed : .bias id ∈ ks) :
    (g.tuned (.drawn ks values)).reading (.bias id) = values (.bias id) := by
  obtain ⟨n, hn⟩ := get?_of_contains h
  simp [tuned, Tuning.drawn, SortedMap.get?_mapValues, hn, listed]

theorem reading_drawn_weight (h : (g.connection? c).isSome) (listed : .weight c ∈ ks) :
    (g.tuned (.drawn ks values)).reading (.weight c) = values (.weight c) := by
  obtain ⟨d, hd⟩ := Option.isSome_iff_exists.mp h
  simp [tuned_connection?, Tuning.drawn, hd, listed]

theorem reading_undrawn_weight (unlisted : .weight c ∉ ks) :
    (g.tuned (.drawn ks values)).reading (.weight c) = g.reading (.weight c) := by
  simp [tuned_connection?, Tuning.drawn, unlisted]

theorem reading_clear_weight (g : Graph) (c : ConnectionId) :
    g.clear.reading (.weight c) = g.reading (.weight c) := by
  simp [connection?_clear, Function.comp_def]

end Tuned

section Listing

variable {g : Graph} {id x : NeuronId} {c : ConnectionId} {k : Key} {ids : List NeuronId}

theorem mem_drawnAt_iff (h : g.Linked) : k ∈ g.drawnAt id ↔
    k = .bias id ∧ g.neurons.contains id ∨
      ∃ c : ConnectionId, k = .weight c ∧ c.target = id ∧ g.connections.contains c := by
  unfold drawnAt
  cases hn : g.neurons.get? id with
  | none =>
    have absent : ¬ g.neurons.contains id := by simp [SortedMap.contains_eq_isSome, hn]
    refine iff_of_false List.not_mem_nil ?_
    rintro (⟨-, there⟩ | ⟨c, -, rfl, hc⟩)
    · exact absent there
    · exact absent (h.joined c hc).2.2
  | some n =>
    simp only [List.mem_cons, List.mem_map, SortedSet.mem_toList_iff, h.inputs_iff id n hn,
      contains_of_get? hn, and_true]
    refine or_congr_right ⟨?_, ?_⟩
    · rintro ⟨c, hc, rfl⟩
      exact ⟨c, rfl, hc⟩
    · rintro ⟨c, rfl, hc⟩
      exact ⟨c, hc, rfl⟩

theorem drawnAt_of_skeleton_eq {g' : Graph} (h : g.skeleton = g'.skeleton) (id : NeuronId) :
    g.drawnAt id = g'.drawnAt id := by
  unfold drawnAt
  cases hn : g.neurons.get? id with
  | none => rw [get?_eq_none_of_skeleton_eq h hn]
  | some n =>
    obtain ⟨n', hn', neuron_eq⟩ := get?_of_skeleton_eq h hn
    rw [hn']
    simp only [(Neuron.of_skeleton_eq neuron_eq).2.1]

theorem nodup_drawnAt (g : Graph) (id : NeuronId) : (g.drawnAt id).Nodup := by
  unfold drawnAt
  split
  · rename_i n _
    refine List.nodup_cons.mpr ⟨by simp, ?_⟩
    exact n.inputs.nodup_toList.map fun c d same => Key.weight.inj same
  · exact List.nodup_nil

/-- Every number is drawn once: the weight of a connection is drawn where it ends. -/
theorem nodup_drawn (h : g.Linked) (nodup : ids.Nodup) : (ids.flatMap g.drawnAt).Nodup := by
  refine List.nodup_flatMap.mpr ⟨fun id _ => g.nodup_drawnAt id, ?_⟩
  refine nodup.imp fun {a b} differ k ha hb => differ ?_
  rcases (mem_drawnAt_iff h).mp ha with ⟨rfl, -⟩ | ⟨c, rfl, rfl, -⟩
  · rcases (mem_drawnAt_iff h).mp hb with ⟨same, -⟩ | ⟨c, same, -⟩
    · exact Key.bias.inj same
    · nomatch same
  · rcases (mem_drawnAt_iff h).mp hb with ⟨same, -⟩ | ⟨d, same, rfl, -⟩
    · nomatch same
    · rw [Key.weight.inj same]

end Listing

section Draws

variable {g : Graph} {r : RandomStream} {range : Key → Range} {ks : List Key} {k : Key}
  {s : Graph × RandomStream}

theorem drawn_nil (range : Key → Range) (g : Graph) (r : RandomStream) : Redrawn range g r [] (g, r) :=
  ⟨fun _ => 0, (tuned_drawn_nil g _).symm, rfl⟩

theorem Redrawn.skeleton (h : Redrawn range g r ks s) : s.1.skeleton = g.skeleton := by
  obtain ⟨values, tuned_eq, -⟩ := h
  rw [tuned_eq, skeleton_tuned fun _ _ => rfl]

theorem Redrawn.resting (h : Redrawn range g r ks s) (resting : g.Resting) : s.1.Resting := by
  obtain ⟨values, tuned_eq, -⟩ := h
  exact tuned_eq ▸ resting.tuned _

theorem Redrawn.next (h : Redrawn range g r ks s) (fresh : k ∉ ks) {x : Float} {r' : RandomStream}
    (draw_eq : (range k).draw.run s.2 = .ok x r') :
    Redrawn range g r (ks ++ [k]) (s.1.tuned (.drawn [k] fun _ => x), r') := by
  obtain ⟨values, tuned_eq, draws⟩ := h
  refine ⟨fun k' => if k' ∈ [k] then x else values k', ?_, ?_⟩
  · rw [tuned_eq, tuned_tuned, andThen_drawn]
  · have before : ks.map (fun k' => if k' ∈ [k] then x else values k') = ks.map values := by
      refine List.map_congr_left fun k' hk' => if_neg fun same => fresh ?_
      rwa [← List.mem_singleton.mp same]
    have one : ([k].mapM fun k => (range k).draw).run s.2 = .ok [x] r' := by
      rw [List.mapM_cons]
      exact (bind_of_ok draw_eq).trans rfl
    rw [List.mapM_append, bind_of_ok draws, bind_of_ok one, List.map_append, before]
    simp

theorem yields_of_mapM {values : Reading} {r' : RandomStream} (valid : ∀ k, (range k).isValid)
    (draws : (ks.mapM fun k => (range k).draw).run r = .ok (ks.map values) r') :
    ∀ k ∈ ks, (range k).Yields (values k) := by
  induction ks generalizing r with
  | nil => exact nofun
  | cons k ks ih =>
    rw [List.mapM_cons, List.map_cons] at draws
    cases hr : (range k).draw.run r with
    | error e r₁ => nomatch (bind_of_error hr).symm.trans draws
    | ok x r₁ =>
      rw [bind_of_ok hr] at draws
      cases hrs : (ks.mapM fun k => (range k).draw).run r₁ with
      | error e r₂ => nomatch (bind_of_error hrs).symm.trans draws
      | ok xs r₂ =>
        rw [bind_of_ok hrs] at draws
        simp only [pure_run, EStateM.Result.ok.injEq, List.cons.injEq] at draws
        obtain ⟨⟨x_eq, rfl⟩, rfl⟩ := draws
        refine List.forall_mem_cons.mpr ⟨?_, ih hrs⟩
        exact x_eq ▸ Range.draw_yields (valid k) hr

theorem ends_draw (range : Key → Range) (fresh : k ∉ ks) (put : Float → Graph.Edit Unit)
    (puts : ∀ (g' : Graph) x, g'.skeleton = g.skeleton →
      (put x).run g' = .ok () (g'.tuned (.drawn [k] fun _ => x))) :
    Ends (Redrawn range g r ks) (onSecond (range k).draw >>= fun x => onFirst (put x))
      (fun _ => Redrawn range g r (ks ++ [k]))
      (fun e _ => e = .unboundedRange ∧ (range k).isBounded = false) := by
  intro s drawn
  cases hr : (range k).draw.run s.2 with
  | error e r' =>
    have stopped := (draw_ends (range k) (Q := fun _ _ => True) (fun _ _ => trivial) s.2).of_eq_error hr
    rw [onSecond, bind_of_error (focus_of_error hr)]
    exact stopped
  | ok x r' =>
    have placed := puts s.1 x drawn.skeleton
    rw [bind_of_ok (onSecond_of_ok (g := s.1) hr), onFirst_of_ok placed]
    exact drawn.next fresh hr

end Draws

end Graph

namespace Layer

open GatedNetwork.Graph

variable {g : Graph} {r : RandomStream} {weights biases : Range} {ks : List Key} {id : NeuronId}

def drawnIn (l : Layer) (g : Graph) : List Key := l.neurons.flatMap g.drawnAt

/-- Some of the numbers cannot be drawn. -/
def Dry (weights biases : Range) (ks : List Key) (e : NetworkError) : Prop :=
  e = .unboundedRange ∧ ∃ k ∈ ks, (k.drawRange weights biases).isBounded = false

theorem ends_redraw_drawn (h : g.Linked) (hid : g.neurons.contains id)
    (fresh : (ks ++ g.drawnAt id).Nodup) :
    Ends (Redrawn (Key.drawRange weights biases) g r ks) (redraw weights biases id)
      (fun _ => Redrawn (Key.drawRange weights biases) g r (ks ++ g.drawnAt id))
      (fun e _ => Dry weights biases (g.drawnAt id) e) := by
  obtain ⟨n, hn⟩ := get?_of_contains hid
  rintro ⟨g₁, r₁⟩ drawn
  obtain ⟨n₁, hn₁, neuron_eq⟩ := get?_of_skeleton_eq drawn.skeleton.symm hn
  have inputs_eq : n₁.inputs = n.inputs := (Neuron.of_skeleton_eq neuron_eq).2.1.symm
  have keys_eq : g.drawnAt id = .bias id :: n.inputs.toList.map .weight := by rw [drawnAt, hn]
  rw [keys_eq] at fresh ⊢
  rw [redraw, bind_of_ok (onFirst_of_ok (ask_neuron hn₁)), inputs_eq, ← bind_assoc]
  have bias_fresh : .bias id ∉ ks := fun old =>
    (List.nodup_append.mp fresh).2.2 _ old _ List.mem_cons_self rfl
  have biased := ends_draw (g := g) (r := r) (Key.drawRange weights biases) bias_fresh
    (fun bias => modifyNeuron id fun n => { n with bias }) fun g' x hs => by
      rw [modifyNeuron_run ((contains_neuron_of_skeleton_eq hs id).trans hid), withNeuron_bias,
        setBias_eq_drawn]
  refine Ends.bind (biased.mono (fun _ h => h) (fun _ _ h => h) fun e _ dry =>
    ⟨dry.1, .bias id, List.mem_cons_self, dry.2⟩) (fun _ => ?_) (g₁, r₁) drawn
  refine (ends_forM (I := fun before => Redrawn (Key.drawRange weights biases) g r
    (ks ++ .bias id :: before.map .weight)) fun before c later split => ?_).mono
    (fun _ h => h) (fun _ _ h => h) fun _ _ h => h
  have listed : n.inputs.contains c := SortedSet.mem_toList_iff.mp (by simp [split])
  have weight_fresh : .weight c ∉ ks ++ .bias id :: before.map .weight := by
    rw [split, List.map_append, List.map_cons, ← List.cons_append, ← List.append_assoc,
      List.nodup_middle] at fresh
    exact fun old => (List.nodup_cons.mp fresh).1 (List.mem_append_left _ old)
  obtain ⟨-, -, ⟨d, hd⟩, -⟩ := h.input hn listed
  have weighted := ends_draw (g := g) (r := r) (Key.drawRange weights biases) weight_fresh
    (fun weight => modifyConnection c fun d => { d with weight }) fun g' x hs => by
      obtain ⟨d', hd', -⟩ := connection?_of_skeleton_eq hs.symm hd
      rw [modifyConnection_run (by simp [hd']), withConnection_weight (h.of_skeleton_eq hs.symm),
        setWeight_eq_drawn]
  refine weighted.mono (fun _ h => h) (fun _ s h => ?_) fun e _ dry => ⟨dry.1, .weight c, ?_, dry.2⟩
  · rw [List.map_append, List.map_singleton, ← List.cons_append, ← List.append_assoc]
    exact h
  · rw [split, List.map_append]
    simp

theorem clear_of_resting {l : Layer} (resting : g.Resting)
    (hl : ∀ id ∈ l.neurons, g.neurons.contains id) : l.clear.run g = .ok () g := by
  have unchanged (ids : List NeuronId) : g.withNeurons ids (·.clear) = g := by
    induction ids with
    | nil => rfl
    | cons id ids ih =>
      have same : g.withNeuron id (·.clear) = g := by
        refine eq_of_get?_eq (fun x => ?_) fun c => rfl
        rw [withNeuron_get?]
        split
        · cases hn : g.neurons.get? x with
          | none => rfl
          | some n => exact congrArg some (resting.neurons x n hn).clear_eq
        · rfl
      rw [withNeurons, List.foldl_cons, same]
      exact ih
  rw [clear, modifyEach_run hl, unchanged]

/-- A reset draws the numbers of its neurons, one neuron after the other. -/
theorem ends_reset_drawn {l : Layer} (h : g.Linked) (resting : g.Resting)
    (hl : ∀ id ∈ l.neurons, g.neurons.contains id) (fresh : (ks ++ l.drawnIn g).Nodup) :
    Ends (Redrawn (Key.drawRange weights biases) g r ks) (l.reset weights biases)
      (fun _ => Redrawn (Key.drawRange weights biases) g r (ks ++ l.drawnIn g))
      (fun e _ => Dry weights biases (l.drawnIn g) e) := by
  rintro ⟨g₁, r₁⟩ drawn
  have there (id : NeuronId) (hid : id ∈ l.neurons) : g₁.neurons.contains id :=
    (contains_neuron_of_skeleton_eq drawn.skeleton id).trans (hl id hid)
  rw [reset, bind_of_ok (onFirst_of_ok (clear_of_resting (drawn.resting resting) there))]
  refine (ends_forM (I := fun before => Redrawn (Key.drawRange weights biases) g r
    (ks ++ before.flatMap g.drawnAt)) fun before id later split => ?_) (g₁, r₁)
    (by simpa using drawn)
  have split_keys : l.drawnIn g =
      before.flatMap g.drawnAt ++ (g.drawnAt id ++ later.flatMap g.drawnAt) := by
    rw [drawnIn, split, List.flatMap_append, List.flatMap_cons]
  have id_fresh : (ks ++ before.flatMap g.drawnAt ++ g.drawnAt id).Nodup := by
    rw [split_keys, ← List.append_assoc, ← List.append_assoc] at fresh
    exact (List.nodup_append.mp fresh).1
  refine (ends_redraw_drawn h (hl id (by simp [split])) id_fresh).mono (fun _ h => h) (fun _ s h => ?_)
    fun e _ dry => ⟨dry.1, ?_⟩
  · rw [List.flatMap_append, List.flatMap_singleton, ← List.append_assoc]
    exact h
  · obtain ⟨k, hk, unbounded⟩ := dry.2
    exact ⟨k, by simp [split_keys, hk], unbounded⟩

end Layer

end GatedNetwork
