import GatedNetwork.Network.Growth
import GatedNetwork.Proofs.Graph.Drawing
import GatedNetwork.Proofs.Network.Standing

/-! Making neurons. A neuron is in the graph before a layer lists it; until then it is pending. A
draw from a range fails on every stream or on none, so no failure leaves a neuron pending. -/

namespace GatedNetwork

namespace Network

/-- Related networks with one supply of ids, from which no id below the floor comes. -/
def Supplied (floor : NeuronId) (R : NeuronId → Network → Network → Prop)
    (s t : IdSupply × Network) : Prop :=
  s.1 = t.1 ∧ floor ≤ s.1.next ∧ R s.1.next s.2 t.2

/-- The supply of ids is all that the states share. -/
def Spent (floor : NeuronId) (s t : IdSupply × Network) : Prop := s.1 = t.1 ∧ floor ≤ s.1.next

/-- What is chosen when a network is made: its settings and its layers. -/
def frame (net : Network) : Config × Layer × Array Layer × Layer :=
  (net.config, net.input, net.hidden, net.output)

/-- Paired networks with the given settings and layers. -/
def Staged (frame : Config × Layer × Array Layer × Layer) (pending : List NeuronId)
    (bound : NeuronId) (a b : Network) : Prop := Paired bound pending a b ∧ a.frame = frame

/-- Twins answer alike and stay twins while they make neurons under the same ids. -/
def Thriving {α : Type} (floor : NeuronId) (act : Growth α) : Prop :=
  Relates (Supplied floor Twins) (fun _ => Supplied floor Twins) (Supplied floor Twins) act

section Lifting

variable {α : Type} {floor : NeuronId} {R E : NeuronId → Network → Network → Prop}
  {S : α → NeuronId → Network → Network → Prop}

theorem lift_of_ok {act : Edit α} {ids : IdSupply} {net net' : Network} {x : α}
    (h : act.run net = .ok x net') : (lift act).run (ids, net) = .ok x (ids, net') :=
  focus_of_ok (s := (ids, net)) h

theorem lift_of_error {act : Edit α} {ids : IdSupply} {net net' : Network} {e : NetworkError}
    (h : act.run net = .error e net') : (lift act).run (ids, net) = .error e (ids, net') :=
  focus_of_error (s := (ids, net)) h

theorem onRandom_of_ok {act : Draw α} {net : Network} {x : α} {r : RandomStream}
    (h : act.run net.random = .ok x r) : (onRandom act).run net = .ok x { net with random := r } :=
  focus_of_ok h

theorem onRandom_of_error {act : Draw α} {net : Network} {e : NetworkError} {r : RandomStream}
    (h : act.run net.random = .error e r) :
    (onRandom act).run net = .error e { net with random := r } := focus_of_error h

theorem relates_lift {act : Edit α} (h : ∀ n, Relates (R n) (fun x => S x n) (E n) act) :
    Relates (Supplied floor R) (fun x => Supplied floor (S x)) (Supplied floor E) (lift act) := by
  rintro ⟨ids, a⟩ ⟨_, b⟩ ⟨rfl, le, hab⟩
  rcases (h ids.next a b hab).cases with ⟨x, a', b', ha, hb, hab'⟩ | ⟨e, a', b', ha, hb, hab'⟩
  · rw [lift_of_ok ha, lift_of_ok hb]
    exact ⟨rfl, rfl, le, hab'⟩
  · rw [lift_of_error ha, lift_of_error hb]
    exact ⟨rfl, rfl, le, hab'⟩

theorem Supplied.mono {R' : NeuronId → Network → Network → Prop} {s t : IdSupply × Network}
    (h : Supplied floor R s t) (hR : ∀ n a b, R n a b → R' n a b) : Supplied floor R' s t :=
  ⟨h.1, h.2.1, hR _ _ _ h.2.2⟩

theorem Supplied.spent {s t : IdSupply × Network} (h : Supplied floor R s t) : Spent floor s t :=
  ⟨h.1, h.2.1⟩

theorem thriving_lift {act : Edit α} (h : ∀ n, Oblivious n act) : Thriving floor (lift act) :=
  relates_lift h

/-- The frame may be named before an action is looked at. -/
theorem relates_of_frame {act : Growth α} {T : α → IdSupply × Network → IdSupply × Network → Prop}
    {Q F : IdSupply × Network → IdSupply × Network → Prop}
    (h : ∀ frame, Relates (fun s t => Q s t ∧ s.2.frame = frame) T F act) : Relates Q T F act :=
  fun s t hst => h s.2.frame s t ⟨hst, rfl⟩

end Lifting

section Making

variable {floor : NeuronId} {frame : Config × Layer × Array Layer × Layer} {pending : List NeuronId}
  {F : IdSupply × Network → IdSupply × Network → Prop}

theorem Sound.addNeuron {net : Network} {bound : NeuronId} (h : net.Sound bound pending)
    (squash : Squash) (bias : Float) :
    { net with graph := net.graph.addNeuron bound squash bias }.Sound (bound + 1)
      (pending ++ [bound]) := by
  have absent : ¬ net.graph.neurons.contains bound := fun hb => Nat.lt_irrefl _ (h.fresh bound hb)
  have contains_eq (id : NeuronId) : (net.graph.addNeuron bound squash bias).neurons.contains id ↔
      bound = id ∨ net.graph.neurons.contains id := by simp [Graph.addNeuron]
  refine ⟨h.bare, h.consistent.addNeuron (Bool.eq_false_iff.mpr absent) squash bias, ?_,
    fun id => ?_, fun id hid => ?_, h.valid⟩
  · rw [← List.append_assoc]
    refine List.nodup_append.mpr ⟨h.nodup, by simp, fun x hx y hy => ?_⟩
    obtain rfl := List.mem_singleton.mp hy
    rintro rfl
    exact absent ((h.mem_iff _).mp hx)
  · rw [contains_eq, ← h.mem_iff, ← List.append_assoc, List.mem_append, List.mem_singleton, or_comm,
      eq_comm (a := bound)]
    rfl
  · rcases (contains_eq id).mp hid with rfl | hid
    · exact Nat.lt_succ_self _
    · exact Nat.lt_succ_of_lt (h.fresh id hid)

theorem relates_addNeuronToGraph (frame : Config × Layer × Array Layer × Layer)
    (pending : List NeuronId) (squash : Squash) (bias : Float) :
    Relates (Supplied floor (Staged frame pending))
      (fun id => Supplied floor (Staged frame (pending ++ [id]))) F
      (addNeuronToGraph squash bias) := by
  rintro ⟨ids, a⟩ ⟨_, _⟩ ⟨rfl, le, ⟨sound, mode, rfl⟩, frame_eq⟩
  exact ⟨rfl, rfl, Nat.le_succ_of_le le, ⟨sound.addNeuron squash bias, mode, rfl⟩, frame_eq⟩

theorem freshNeuron_of_ok {ids : IdSupply} {a : Network} {bias : Float} {r : RandomStream}
    (h : a.config.biasInit.draw.run a.random = .ok bias r) :
    freshNeuron.run (ids, a) =
      (addNeuronToGraph a.config.squash bias).run (ids, { a with random := r }) := by
  rw [freshNeuron, bind_of_ok (get_run _)]
  exact bind_of_ok (lift_of_ok (focus_of_ok h))

theorem freshNeuron_of_error {ids : IdSupply} {a : Network} {e : NetworkError} {r : RandomStream}
    (h : a.config.biasInit.draw.run a.random = .error e r) :
    freshNeuron.run (ids, a) = .error e (ids, { a with random := r }) := by
  rw [freshNeuron, bind_of_ok (get_run _)]
  exact bind_of_error (lift_of_error (focus_of_error h))

theorem relates_freshNeuron (pending : List NeuronId)
    (drawn : ∀ r, ∃ x r', frame.1.biasInit.draw.run r = .ok x r') :
    Relates (Supplied floor (Staged frame pending))
      (fun id => Supplied floor (Staged frame (pending ++ [id]))) F freshNeuron := by
  rintro ⟨ids, a⟩ ⟨_, _⟩ ⟨rfl, le, ⟨sound, mode, rfl⟩, rfl⟩
  obtain ⟨bias, r, draw_eq⟩ := drawn a.random
  rw [freshNeuron_of_ok draw_eq, freshNeuron_of_ok (a := a.withMode mode) draw_eq]
  exact relates_addNeuronToGraph a.frame pending a.config.squash bias _ _
    ⟨rfl, le, ⟨sound.withRandom r, mode, rfl⟩, rfl⟩

theorem relates_freshNeuron_fails {α : Type} {S : α → IdSupply × Network → IdSupply × Network → Prop}
    (failing : ∀ r, frame.1.biasInit.draw.run r = .error .unboundedRange r)
    (f : NeuronId → Growth α) :
    Relates (Supplied floor (Staged frame pending)) S (Supplied floor (Staged frame pending))
      (freshNeuron >>= f) := by
  rintro ⟨ids, a⟩ ⟨_, _⟩ ⟨rfl, le, ⟨sound, mode, rfl⟩, rfl⟩
  rw [bind_of_error (freshNeuron_of_error (failing a.random)),
    bind_of_error (freshNeuron_of_error (a := a.withMode mode) (failing a.random))]
  exact ⟨rfl, rfl, le, ⟨sound, mode, rfl⟩, rfl⟩

theorem relates_freshLayer (frame : Config × Layer × Array Layer × Layer) (size : Nat) :
    Relates (Supplied floor (Staged frame [])) (fun l => Supplied floor (Staged frame l.neurons))
      (Supplied floor (Staged frame [])) (freshLayer size) := by
  rcases draw_cases frame.1.biasInit with drawn | failing
  · refine Relates.bind (relates_mapM (fun _ _ ys => relates_freshNeuron ys drawn) [])
      fun ids => relates_pure fun s t h => h
  · cases size with
    | zero => exact relates_pure fun s t h => h
    | succ size =>
      rw [freshLayer, List.replicate_succ, List.mapM_cons, bind_assoc]
      exact relates_freshNeuron_fails failing _

end Making

section Listing

variable {floor : NeuronId}

theorem Sound.add {bound : NeuronId} {pending : List NeuronId} {id : NeuronId} {net : Network}
    (h : net.Sound bound (id :: pending)) {ref : LayerRef} {l : Layer} (hl : net.layer ref = .ok l) :
    (net.mapLayer (·.add id) ref).Sound bound pending := by
  refine h.withLayers ?_ ?_ ?_ ?_
  · cases ref <;> exact h.bare
  · cases ref <;> rfl
  · cases ref <;> rfl
  · simpa using (ids_add hl id).append_right pending

theorem layer_of_frame {a b : Network} (h : a.frame = b.frame) (ref : LayerRef) :
    a.layer ref = b.layer ref := by
  simp only [frame, Prod.mk.injEq] at h
  obtain ⟨-, input_eq, hidden_eq, output_eq⟩ := h
  cases ref <;> simp only [layer, input_eq, hidden_eq, output_eq]

/-- A new member of a layer draws its bias. It comes last in the layer, and nothing else changes. -/
theorem Sound.addNeuron_cases {ids : IdSupply} {net : Network} (h : net.Sound ids.next [])
    {ref : LayerRef} {l : Layer} (hl : net.layer ref = .ok l) :
    (∃ (grown : Network) (bias : Float) (r : RandomStream), grown = { net with
          random := r, graph := net.graph.addNeuron ids.next net.config.squash bias } ∧
        grown.Sound (ids.next + 1) [ids.next] ∧ grown.layer ref = .ok l ∧
        (Network.addNeuron ref).run (ids, net) =
          .ok ids.next (⟨ids.next + 1⟩, grown.mapLayer (·.add ids.next) ref)) ∨
    ∃ e r, net.config.biasInit.draw.run net.random = .error e r ∧
      (Network.addNeuron ref).run (ids, net) = .error e (ids, { net with random := r }) := by
  have restored := StandsFor.plain.restore_run h
  rw [Network.addNeuron, bind_of_ok (lift_of_ok (ask_layer hl)), bind_of_ok (lift_of_ok restored)]
  cases hr : net.config.biasInit.draw.run net.random with
  | error e r => exact .inr ⟨e, r, rfl, bind_of_error (freshNeuron_of_error hr)⟩
  | ok bias r =>
    let grown : Network :=
      { net with random := r, graph := net.graph.addNeuron ids.next net.config.squash bias }
    have made : freshNeuron.run (ids, net) = .ok ids.next (⟨ids.next + 1⟩, grown) :=
      freshNeuron_of_ok hr
    have sound' : grown.Sound (ids.next + 1) [ids.next] :=
      (h.withRandom r).addNeuron net.config.squash bias
    have hl' : grown.layer ref = .ok l := (layer_of_frame (b := net) rfl ref).trans hl
    refine .inl ⟨grown, bias, r, rfl, sound', hl', ?_⟩
    rw [bind_of_ok made, bind_of_ok (lift_of_ok (modifyLayer_of_ok hl' _))]
    rfl

theorem Paired.add {bound : NeuronId} {id : NeuronId} {a b : Network} (h : Paired bound [id] a b)
    {ref : LayerRef} {l : Layer} (hl : a.layer ref = .ok l) :
    Paired bound [] (a.mapLayer (·.add id) ref) (b.mapLayer (·.add id) ref) := by
  obtain ⟨sound, mode, rfl⟩ := h
  refine ⟨sound.add hl, mode, ?_⟩
  cases ref <;> rfl

theorem relates_list (ref : LayerRef) (id : NeuronId) :
    Relates (Supplied floor fun n => Paired n [id]) (fun _ => Supplied floor fun n => Paired n [])
      (Spent floor) (lift (modifyLayer ref (·.add id))) := by
  rintro ⟨ids, a⟩ ⟨_, b⟩ ⟨rfl, le, h⟩
  have layer_eq : b.layer ref = a.layer ref := by
    obtain ⟨-, mode, rfl⟩ := h
    cases ref <;> rfl
  cases hl : a.layer ref with
  | ok l =>
    rw [lift_of_ok (modifyLayer_of_ok hl _), lift_of_ok (modifyLayer_of_ok (layer_eq.trans hl) _)]
    exact ⟨rfl, rfl, le, h.add hl⟩
  | error e =>
    rw [lift_of_error (modifyLayer_of_error hl _),
      lift_of_error (modifyLayer_of_error (layer_eq.trans hl) _)]
    exact ⟨rfl, rfl, le⟩

theorem relates_member {frame : Config × Layer × Array Layer × Layer} {ref : LayerRef}
    (there : ∀ net : Network, net.frame = frame → ∃ l, net.layer ref = .ok l) :
    Relates (Supplied floor (Staged frame []))
      (fun _ => Supplied floor fun n => Paired n []) (Supplied floor fun n => Paired n []) (do
        let id ← freshNeuron
        lift (modifyLayer ref (·.add id))
        return id) := by
  rcases draw_cases frame.1.biasInit with drawn | failing
  · refine Relates.bind (relates_freshNeuron [] drawn) fun id => Relates.bind
      (S := fun _ => Supplied floor fun n => Paired n []) ?_ fun _ => relates_pure fun _ _ h => h
    rintro ⟨ids, a⟩ ⟨_, b⟩ ⟨rfl, le, h, frame_eq⟩
    obtain ⟨l, hl⟩ := there a frame_eq
    have hl' : b.layer ref = .ok l := by
      obtain ⟨-, mode, rfl⟩ := h
      cases ref <;> exact hl
    rw [lift_of_ok (modifyLayer_of_ok hl _), lift_of_ok (modifyLayer_of_ok hl' _)]
    exact ⟨rfl, rfl, le, h.add hl⟩
  · exact (relates_freshNeuron_fails failing _).mono (fun _ _ h => h) (fun _ _ _ h => h)
      fun _ _ h => h.mono fun _ _ _ h => h.1

theorem thriving_addNeuron (ref : LayerRef) : Thriving floor (addNeuron ref) := by
  rintro ⟨ids, a⟩ ⟨_, b⟩ ⟨rfl, le, twins⟩
  have layer_eq := twins.layer ref
  cases hl : a.layer ref with
  | error e =>
    rw [addNeuron, bind_of_error (lift_of_error (ask_layer_error hl)),
      bind_of_error (lift_of_error (ask_layer_error (layer_eq.symm.trans hl)))]
    exact ⟨rfl, rfl, le, twins⟩
  | ok l =>
    obtain ⟨net, mode, sound, ha, hb⟩ := twins
    have hnet : net.layer ref = .ok l := by cases ha <;> cases ref <;> exact hl
    rw [addNeuron, bind_of_ok (lift_of_ok (ask_layer hl)),
      bind_of_ok (lift_of_ok (ask_layer (layer_eq.symm.trans hl))),
      bind_of_ok (lift_of_ok (ha.restore_run sound)),
      bind_of_ok (lift_of_ok (hb.restore_run (sound.withMode mode)))]
    have there (n : Network) (hn : n.frame = net.frame) : ∃ l, n.layer ref = .ok l :=
      ⟨l, (layer_of_frame hn ref).trans hnet⟩
    exact (relates_member there (ids, net) (ids, net.withMode mode)
      ⟨rfl, le, ⟨sound, mode, rfl⟩, rfl⟩).mono
      (fun _ _ _ h => h.mono fun _ _ _ h => h.twins) fun _ _ h => h.mono fun _ _ _ h => h.twins

theorem Paired.push {bound : NeuronId} {l : Layer} {a b : Network} (h : Paired bound l.neurons a b) :
    Paired bound [] { a with hidden := a.hidden.push l } { b with hidden := b.hidden.push l } := by
  obtain ⟨sound, mode, rfl⟩ := h
  refine ⟨sound.withLayers sound.bare rfl rfl ?_, mode, rfl⟩
  simp only [ids, idsOf, Array.toList_push, List.flatMap_append, List.flatMap_cons, List.flatMap_nil,
    List.append_nil, List.append_assoc]
  exact List.Perm.append_left _ (List.Perm.append_left _ List.perm_append_comm)

theorem thriving_addHiddenLayer (size : Nat) : Thriving floor (addHiddenLayer size) := by
  refine Relates.bind (relates_lift fun n => relates_restore) fun _ =>
    relates_of_frame fun frame => Relates.bind (S := fun l => Supplied floor fun n =>
      Paired n l.neurons) ?_ fun l => ?_
  · refine (relates_freshLayer frame size).mono (fun s t h => ?_)
      (fun l s t h => h.mono fun _ _ _ h => h.1) fun s t h => h.mono fun _ _ _ h => h.1.twins
    exact ⟨h.1.1, h.1.2.1, h.1.2.2, h.2⟩
  · refine Relates.bind (R := Supplied floor fun n => Paired n l.neurons)
      (S := fun _ => Supplied floor fun n => Paired n [])
      (relates_modify fun s t h => h.elim fun ids_eq h => ⟨ids_eq, h.1, h.2.push⟩) fun _ => ?_
    refine relates_get (fun s t h => ?_) fun s => relates_pure fun s t h =>
      h.1.mono fun _ _ _ h => h.twins
    obtain ⟨-, -, -, mode, network_eq⟩ := h
    rw [network_eq]
    rfl

theorem relates_freshLayer_unfinished (size : Nat) :
    Relates (Supplied floor fun n a b => Paired n [] a b ∧ a.output = {})
      (fun l => Supplied floor fun n a b => Paired n l.neurons a b ∧ a.output = {})
      (Supplied floor fun n => Paired n []) (freshLayer size) := by
  refine relates_of_frame fun frame => ?_
  by_cases unfinished : frame.2.2.2 = {}
  · refine (relates_freshLayer frame size).mono (fun s t h => ?_) (fun l s t h => ?_)
      fun s t h => h.mono fun _ _ _ h => h.1
    · exact ⟨h.1.1, h.1.2.1, h.1.2.2.1, h.2⟩
    · refine h.mono fun n a b staged => ⟨staged.1, ?_⟩
      rw [← staged.2] at unfinished
      exact unfinished
  · intro s t h
    refine absurd ?_ unfinished
    rw [← h.2]
    exact h.1.2.2.2

theorem relates_pushLayer (size : Nat) :
    Relates (Supplied floor fun n a b => Paired n [] a b ∧ a.output = {})
      (fun _ => Supplied floor fun n a b => Paired n [] a b ∧ a.output = {})
      (Supplied floor fun n => Paired n []) (do
        let l ← freshLayer size
        modify fun (s, net) => (s, { net with hidden := net.hidden.push l })) :=
  Relates.bind (relates_freshLayer_unfinished size) fun _ => relates_modify fun _ _ h =>
    h.elim fun ids_eq h => ⟨ids_eq, h.1, h.2.1.push, h.2.2⟩

end Listing

end Network

end GatedNetwork
