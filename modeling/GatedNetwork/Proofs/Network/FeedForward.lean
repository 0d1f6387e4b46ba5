import GatedNetwork.Proofs.Binary64
import GatedNetwork.Proofs.Network.Composing
import GatedNetwork.Proofs.Network.Founding

/-! Networks in which everything goes forward. A pass over such a network reads what it has computed
before, the weights, and what each neuron starts from: its bias, and what its disabled self-connection
leaves of its state. -/

namespace GatedNetwork

namespace Reading

/-- What a neuron starts from before it takes in anything. -/
def start (σ : Reading) (id : NeuronId) : Float :=
  σ (.gain (.loop id)) * σ (.weight (.loop id)) * σ (.state id) + σ (.bias id)

theorem nextState_eq (σ : Reading) (id : NeuronId) (n : Neuron) :
    σ.nextState id n = n.inputs.toList.foldl
      (fun sum c => sum + σ (.activation c.source) * σ (.weight c) * σ (.gain c)) (σ.start id) := rfl

/-- Two readings in the course of a pass, with the same values at the inputs. What has been computed so
far is the same, and so is what the neurons to come start from. -/
structure Accords (g : Graph) (given done : List NeuronId) (σ τ : Reading) : Prop where
  weight : ∀ c, τ (.weight c) = σ (.weight c)
  activation : ∀ x, x ∈ given ∨ x ∈ done → τ (.activation x) = σ (.activation x)
  gain : ∀ c, (∀ x, g.gater? c = some x → x ∈ done) → τ (.gain c) = σ (.gain c)
  start : ∀ x, g.neurons.contains x → x ∉ given → x ∉ done → τ.start x = σ.start x

end Reading

namespace Graph

/-- No gater drives a self-connection. -/
def Unlooped (g : Graph) : Prop := ∀ x, g.gater? (.loop x) = none

/-- Whatever a neuron listens to has had its turn. -/
structure Ready (g : Graph) (given done : List NeuronId) (r : NeuronId × Role) : Prop where
  present : g.neurons.contains r.1
  given_iff : r.1 ∈ given ↔ r.2 = .input
  fresh : r.1 ∉ done
  sources : ∀ c, g.connections.contains c → c.target = r.1 → c.source ∈ done
  gaters : ∀ c, g.connections.contains c → c.target = r.1 → ∀ x, g.gater? c = some x → x ∈ done

end Graph

open GatedNetwork.Graph

section Turns

variable {g : Graph} {given done : List NeuronId} {σ τ : Reading} {r : NeuronId × Role} {x : NeuronId}
  {rs : List (NeuronId × Role)}

theorem foldl_fire_start (linked : g.Linked) (unlooped : g.Unlooped)
    (present : ∀ r ∈ rs, g.neurons.contains r.1) (aside : x ∉ rs.map (·.1)) (σ : Reading) :
    ((rs.map g.listing).foldl Reading.fire σ).start x = σ.start x := by
  obtain ⟨-, state_eq, bias_eq⟩ := foldl_fire_aside present aside σ
  have ungated : ∀ r ∈ rs, g.gater? (.loop x) ≠ some r.1 := by simp [unlooped x]
  rw [Reading.start, Reading.start, state_eq, bias_eq, foldl_fire_gain_of_notMem linked present ungated,
    foldl_fire_of_not_isFired present rfl]

namespace Reading.Accords

theorem turn (a : Accords g given done σ τ) (linked : g.Linked) (ready : g.Ready given done r) :
    τ.fire (g.listing r) (.activation r.1) = σ.fire (g.listing r) (.activation r.1) := by
  obtain ⟨n, hn⟩ := get?_of_contains ready.present
  by_cases input : r.2 = .input
  · rw [(fire_input hn input τ).1, (fire_input hn input σ).1,
      a.activation r.1 (.inl (ready.given_iff.mpr input))]
  · have start_eq := a.start r.1 ready.present (mt ready.given_iff.mp input) ready.fresh
    have next_eq : τ.nextState r.1 n = σ.nextState r.1 n := by
      rw [nextState_eq, nextState_eq, start_eq]
      refine List.foldl_ext _ _ _ fun sum c hc => ?_
      obtain ⟨target_eq, hcon⟩ := (linked.inputs_iff r.1 n hn c).mp (SortedSet.mem_toList_iff.mp hc)
      rw [a.weight, a.activation _ (.inr (ready.sources c hcon target_eq)),
        a.gain c (ready.gaters c hcon target_eq)]
    rw [(fire_worker hn input τ).1, (fire_worker hn input σ).1, next_eq]

theorem fire (a : Accords g given done σ τ) (linked : g.Linked) (unlooped : g.Unlooped)
    (ready : g.Ready given done r) :
    Accords g given (done ++ [r.1]) (σ.fire (g.listing r)) (τ.fire (g.listing r)) := by
  obtain ⟨n, hn⟩ := get?_of_contains ready.present
  have turn_eq := a.turn linked ready
  have present : ∀ q ∈ [r], g.neurons.contains q.1 := by simpa using ready.present
  refine ⟨fun c => ?_, fun x hx => ?_, fun c gated => ?_, fun x hx unasked later => ?_⟩
  · have kept (υ : Reading) : υ.fire (g.listing r) (.weight c) = υ (.weight c) :=
      foldl_fire_of_not_isFired present rfl υ
    rw [kept, kept, a.weight]
  · by_cases own : x = r.1
    · rw [own, turn_eq]
    · have kept (υ : Reading) : υ.fire (g.listing r) (.activation x) = υ (.activation x) :=
        (foldl_fire_aside present (by simpa using own) υ).1
      rw [kept, kept, a.activation x (by simpa [own] using hx)]
  · by_cases own : g.gater? c = some r.1
    · have gates : n.gated.contains c := (linked.gated_iff r.1 n hn c).mpr own
      rw [fire_gain hn gates, fire_gain hn gates, turn_eq]
    · have kept (υ : Reading) : υ.fire (g.listing r) (.gain c) = υ (.gain c) :=
        foldl_fire_gain_of_notMem linked present (by simpa using own) υ
      rw [kept, kept]
      refine a.gain c fun x hx => ?_
      have other : x ≠ r.1 := fun same => own (same ▸ hx)
      simpa [other] using gated x hx
  · obtain ⟨undone, other⟩ : x ∉ done ∧ x ≠ r.1 := by simpa using later
    have kept (υ : Reading) : (υ.fire (g.listing r)).start x = υ.start x :=
      foldl_fire_start linked unlooped present (by simpa using other) υ
    rw [kept, kept, a.start x hx unasked undone]

/-- All turns, in an order in which everybody is ready. -/
theorem foldl (a : Accords g given done σ τ) (linked : g.Linked) (unlooped : g.Unlooped)
    (ready : ∀ before r later, rs = before ++ r :: later →
      g.Ready given (done ++ before.map (·.1)) r) :
    Accords g given (done ++ rs.map (·.1)) ((rs.map g.listing).foldl Reading.fire σ)
      ((rs.map g.listing).foldl Reading.fire τ) := by
  induction rs generalizing done σ τ with
  | nil => simpa using a
  | cons r rs ih =>
    have first := a.fire linked unlooped (by simpa using ready [] r rs rfl)
    have rest := ih first fun before q later split => by
      simpa using ready (r :: before) q later (by rw [split, List.cons_append])
    simpa using rest

end Reading.Accords

end Turns

namespace Network

/-- Every connection goes from an earlier to a later neuron, none enters an input, and a gater comes
before the targets of the connections that it gates. -/
@[mk_iff]
structure FeedForward (net : Network) : Prop where
  forward : ∀ c ∈ net.connections, net.place c.source < net.place c.target
  sealed : ∀ c ∈ net.connections, c.target ∉ net.input.neurons
  gates : ∀ c ∈ net.connections, ∀ x ∈ net.graph.gater? c, net.place x < net.place c.target

instance (net : Network) : Decidable net.FeedForward :=
  decidable_of_iff' _ (feedForward_iff net)

section Passes

variable {bound : NeuronId} {net bare : Network} {values : List Float} {x : NeuronId} {n : Neuron}
  {r : NeuronId × Role} {before later : List (NeuronId × Role)}

theorem FeedForward.isSelf_eq (h : net.FeedForward) {c : ConnectionId} (hc : c ∈ net.connections) :
    c.isSelf = false := by
  refine Bool.eq_false_iff.mpr fun self => ?_
  have ends_eq : c.source = c.target := by simpa [ConnectionId.isSelf] using self
  exact Nat.lt_irrefl _ (ends_eq ▸ h.forward c hc)

theorem FeedForward.unlooped (h : net.FeedForward) (sound : net.Sound bound []) :
    net.graph.Unlooped := by
  intro x
  refine Option.eq_none_iff_forall_ne_some.mpr fun y gates => ?_
  have enabled := (sound.consistent.gater_mem _ y gates).1
  have listed := h.isSelf_eq ((mem_connections_iff sound _).mpr enabled)
  simp at listed

theorem FeedForward.selfConnected_eq (h : net.FeedForward) (sound : net.Sound bound [])
    (hn : net.graph.neurons.get? x = some n) : n.selfConnected = false := by
  refine Bool.eq_false_iff.mpr fun enabled => ?_
  have there : net.graph.contains (.loop x) := by simp [contains_loop, hn, enabled]
  have listed := h.isSelf_eq ((mem_connections_iff sound _).mpr there)
  simp at listed

theorem Sound.one_turn (sound : net.Sound bound []) (split : net.roles = before ++ r :: later) :
    net.ids = before.map (·.1) ++ r.1 :: later.map (·.1) ∧ r.1 ∉ before.map (·.1) ∧
      r.1 ∉ later.map (·.1) := by
  have ids_eq : net.ids = before.map (·.1) ++ r.1 :: later.map (·.1) := by
    rw [← roles_ids, split, List.map_append, List.map_cons]
  obtain ⟨-, nodup, apart⟩ := List.nodup_append.mp (ids_eq ▸ sound.nodup_ids)
  exact ⟨ids_eq, fun again => apart _ again _ List.mem_cons_self rfl, (List.nodup_cons.mp nodup).1⟩

theorem Sound.mem_before_iff (sound : net.Sound bound []) (split : net.roles = before ++ r :: later) :
    x ∈ before.map (·.1) ↔ net.place x < net.place r.1 := by
  obtain ⟨ids_eq, fresh, -⟩ := sound.one_turn split
  have place_eq : net.place r.1 = (before.map (·.1)).length := by
    rw [place, ids_eq, List.idxOf_append_of_notMem fresh, List.idxOf_cons_self, Nat.add_zero]
  rw [place_eq, place, ids_eq]
  exact List.IsPrefix.mem_iff_idxOf_lt_length (List.prefix_append _ _) x

theorem Sound.mem_workerIds_iff (sound : net.Sound bound []) :
    x ∈ net.workerIds ↔ net.graph.neurons.contains x ∧ x ∉ net.input.neurons := by
  have apart := (List.nodup_append.mp (net.ids_eq ▸ sound.nodup_ids)).2.2
  rw [← sound.mem_ids, Network.ids_eq, List.mem_append]
  constructor
  · exact fun worker => ⟨.inr worker, fun given => apart x given x worker rfl⟩
  · exact fun ⟨listed, other⟩ => listed.resolve_left other

theorem Sound.given_iff (sound : net.Sound bound []) (hr : r ∈ net.roles) :
    r.1 ∈ net.input.neurons ↔ r.2 = .input := by
  rcases List.mem_append.mp hr with inputs | worker
  · obtain ⟨id, hid, rfl⟩ := List.mem_map.mp inputs
    exact iff_of_true hid rfl
  · have listed : r.1 ∈ net.workerIds := by
      rw [workerIds, ← workers_ids]
      exact List.mem_map_of_mem worker
    exact iff_of_false (sound.mem_workerIds_iff.mp listed).2 (workers_role worker)

/-- In the order of the places everybody is ready in turn. -/
theorem FeedForward.ready (h : net.FeedForward) (sound : net.Sound bound [])
    (split : net.roles = before ++ r :: later) :
    net.graph.Ready net.input.neurons (before.map (·.1)) r := by
  have hr : r ∈ net.roles := by simp [split]
  obtain ⟨-, fresh, -⟩ := sound.one_turn split
  have listed (c : ConnectionId) (hc : net.graph.connections.contains c) : c ∈ net.connections := by
    rw [mem_connections_iff sound, contains_of_not_isSelf (sound.consistent.joined c hc).1]
    exact hc
  refine ⟨sound.present hr, sound.given_iff hr, fresh, fun c hc target_eq => ?_,
    fun c hc target_eq x gates => ?_⟩
  · exact (sound.mem_before_iff split).mpr (target_eq ▸ h.forward c (listed c hc))
  · exact (sound.mem_before_iff split).mpr (target_eq ▸ h.gates c (listed c hc) x gates)

end Passes

end Network

namespace Graph

/-- The graphs differ in nothing but what a run leaves in them. -/
structure Akin (g g' : Graph) : Prop where
  skeleton : g.skeleton = g'.skeleton
  weight : ∀ c, g'.reading (.weight c) = g.reading (.weight c)
  bias : ∀ x, g'.reading (.bias x) = g.reading (.bias x)

theorem Akin.refl (g : Graph) : g.Akin g := ⟨rfl, fun _ => rfl, fun _ => rfl⟩

theorem Akin.symm {g g' : Graph} (h : g.Akin g') : g'.Akin g :=
  ⟨h.skeleton.symm, fun c => (h.weight c).symm, fun x => (h.bias x).symm⟩

theorem Akin.trans {g₁ g₂ g₃ : Graph} (h : g₁.Akin g₂) (h' : g₂.Akin g₃) : g₁.Akin g₃ :=
  ⟨h.skeleton.trans h'.skeleton, fun c => (h'.weight c).trans (h.weight c),
    fun x => (h'.bias x).trans (h.bias x)⟩

section Resting

variable {g g' : Graph} {id : NeuronId} {n : Neuron}

theorem akin_clear (g : Graph) : g.Akin g.clear := by
  refine ⟨g.skeleton_clear.symm, fun c => ?_, fun x => ?_⟩
  · rw [reading_weight, reading_weight, connection?_clear, Option.map_map]
    simp [Function.comp_def]
  · rw [reading_bias, reading_bias, clear_get?, Option.map_map]
    rfl

theorem Consistent.gain_eq (h : g.Consistent) (h' : g'.Consistent) (skeleton_eq : g.skeleton = g'.skeleton)
    {c : ConnectionId} (ungated : g.gater? c = none) : g'.reading (.gain c) = g.reading (.gain c) := by
  rw [reading_gain, reading_gain]
  cases hd : g.connection? c with
  | none => rw [connection?_eq_none_of_skeleton_eq skeleton_eq hd]
  | some d =>
    obtain ⟨d', hd', gater_eq⟩ := connection?_of_skeleton_eq skeleton_eq hd
    have free : d.gater = none := by simpa [gater?, hd] using ungated
    rw [hd', Option.map_some, Option.map_some, h.ungated_gain c d hd free,
      h'.ungated_gain c d' hd' (gater_eq ▸ free)]

/-- A disabled self-connection multiplies the state of its neuron with zero. -/
theorem Consistent.start_eq (h : g.Consistent) (hn : g.neurons.get? id = some n)
    (disabled : n.selfConnected = false) : g.reading.start id = 1 * 0 * n.state + n.bias := by
  have found : g.connection? (.loop id) = some n.selfConnection := by simp [connection?_loop, hn]
  have free : n.selfConnection.gater = none := by
    refine Option.eq_none_iff_forall_ne_some.mpr fun x gates => ?_
    have enabled := (h.gater_mem (.loop id) x (by simp [gater?, found, gates])).1
    simp [contains_loop, hn, disabled] at enabled
  simp [Reading.start, found, hn, h.ungated_gain _ _ found free, h.disabled_weight id n hn disabled]

end Resting

end Graph

namespace Network

section Answers

variable {bound : NeuronId} {net : Network} {values : List Float} {g : Graph}

theorem Sound.accords_fed (sound : net.Sound bound []) (akin : net.graph.Akin g)
    (sound' : { net with graph := g }.Sound bound [])
    (starts : ∀ x ∈ net.workerIds, g.reading.start x = net.graph.reading.start x)
    (length_eq : values.length = net.input.size) :
    Reading.Accords net.graph net.input.neurons [] (net.fed values)
      (fed { net with graph := g } values) := by
  have shown (k : Key) (hk : ∀ x ∈ net.input.neurons, k ≠ .activation x) :
      net.fed values k = net.graph.reading k ∧ fed { net with graph := g } values k = g.reading k :=
    ⟨fed_of_notMem hk, fed_of_notMem hk⟩
  refine ⟨fun c => ?_, fun x hx => ?_, fun c gated => ?_, fun x hx unasked _ => ?_⟩
  · obtain ⟨shown₁, shown₂⟩ := shown (.weight c) (by simp)
    rw [shown₁, shown₂, akin.weight]
  · obtain ⟨i, hi, rfl⟩ := List.getElem_of_mem (show x ∈ net.input.neurons by simpa using hx)
    rw [sound.fed_input length_eq hi]
    exact sound'.fed_input length_eq hi
  · obtain ⟨shown₁, shown₂⟩ := shown (.gain c) (by simp)
    have ungated : net.graph.gater? c = none :=
      Option.eq_none_iff_forall_ne_some.mpr fun x gates => List.not_mem_nil (gated x gates)
    rw [shown₁, shown₂, sound.consistent.gain_eq sound'.consistent akin.skeleton ungated]
  · have same := starts x (sound.mem_workerIds_iff.mpr ⟨hx, unasked⟩)
    simp only [Reading.start] at same ⊢
    simpa [fed_of_notMem] using same

/-- Two networks that are akin give one answer, as long as their neurons start from the same. -/
theorem FeedForward.answer_eq (h : net.FeedForward) (sound : net.Sound bound [])
    (akin : net.graph.Akin g) (sound' : { net with graph := g }.Sound bound [])
    (starts : ∀ x ∈ net.workerIds, g.reading.start x = net.graph.reading.start x)
    (length_eq : values.length = net.input.size) :
    answer { net with graph := g } values = net.answer values := by
  have swept_eq : swept { net with graph := g } values =
      (net.roles.map net.graph.listing).foldl Reading.fire (fed { net with graph := g } values) :=
    foldl_fire_of_skeleton_eq akin.skeleton (fun _ => sound.present) _
  have accords := (sound.accords_fed akin sound' starts length_eq).foldl sound.consistent.toLinked
    (h.unlooped sound) fun before r later (split : net.roles = before ++ r :: later) => by
      simpa using h.ready sound split
  rw [List.nil_append, roles_ids, ← swept_eq] at accords
  refine List.map_congr_left fun id hid => accords.activation id (.inr ?_)
  rw [Network.ids_eq]
  exact List.mem_append_right _ (List.mem_append_right _ hid)

theorem Sound.akin_of_agrees (sound : net.Sound bound []) (skeleton_eq : net.graph.skeleton = g.skeleton)
    (agrees : g.Agrees (net.swept values)) : net.graph.Akin g := by
  refine ⟨skeleton_eq, fun c => ?_, fun x => ?_⟩
  · rw [← agrees _ rfl, sound.swept_of_not_isFired rfl]
  · rw [← agrees _ rfl, sound.swept_of_not_isFired rfl]

/-- A state that is not finite makes the next state of its neuron no number. -/
theorem FeedForward.isNaN_swept (h : net.FeedForward) (sound : net.Sound bound []) {x : NeuronId}
    {n : Neuron} (hn : net.graph.neurons.get? x = some n) (worker : x ∈ net.workerIds)
    (endless : ¬ n.state.isFinite) : (net.swept values (.state x)).isNaN := by
  have linked := sound.consistent.toLinked
  obtain ⟨r, hr, rfl⟩ : ∃ r ∈ net.roles, r.1 = x := by
    rw [← List.mem_map, roles_ids, sound.mem_ids]
    exact contains_of_get? hn
  obtain ⟨before, later, split⟩ := List.append_of_mem hr
  have present (q : NeuronId × Role) (hq : q ∈ before ++ r :: later) :
      net.graph.neurons.contains q.1 := sound.present (split ▸ hq)
  obtain ⟨-, unsaid, said⟩ := sound.one_turn split
  have hidden : r.2 ≠ .input :=
    mt (sound.given_iff hr).mpr (sound.mem_workerIds_iff.mp worker).2
  have start_eq : (net.fed values).start r.1 = 1 * 0 * n.state + n.bias := by
    rw [← sound.consistent.start_eq hn (h.selfConnected_eq sound hn)]
    simp only [Reading.start]
    simp [fed_of_notMem]
  have there : ∀ q ∈ before, net.graph.neurons.contains q.1 := fun q hq => present q (by simp [hq])
  have there' : ∀ q ∈ later, net.graph.neurons.contains q.1 := fun q hq => present q (by simp [hq])
  rw [swept, split, List.map_append, List.foldl_append, List.map_cons, List.foldl_cons,
    (foldl_fire_aside there' said _).2.1, (fire_worker hn hidden _).2, Reading.nextState_eq,
    foldl_fire_start linked (h.unlooped sound) there unsaid, start_eq]
  exact Binary64.isNaN_foldl (Binary64.isNaN_add (Binary64.isNaN_zero_mul endless) n.bias) _ _

end Answers

section Standing

variable {bound : NeuronId} {net bare : Network} {g : Graph}

theorem FeedForward.withGraph (h : net.FeedForward) (sound : net.Sound bound [])
    (sound' : { net with graph := g }.Sound bound []) (skeleton_eq : net.graph.skeleton = g.skeleton) :
    FeedForward { net with graph := g } := by
  have listed (c : ConnectionId) (hc : c ∈ connections { net with graph := g }) :
      c ∈ net.connections := by
    rw [mem_connections_iff sound, contains_of_skeleton_eq skeleton_eq]
    exact (mem_connections_iff sound' c).mp hc
  refine ⟨fun c hc => h.forward c (listed c hc), fun c hc => h.sealed c (listed c hc),
    fun c hc x gates => h.gates c (listed c hc) x ?_⟩
  rwa [gater?_of_skeleton_eq skeleton_eq]

theorem StandsFor.feedForward (stands : bare.StandsFor net) (h : net.FeedForward) :
    bare.FeedForward := by
  have gater_eq (c : ConnectionId) : net.graph.gater? c = bare.graph.gater? c :=
    gater?_of_skeleton_eq stands.skeleton c
  have place_eq (x : NeuronId) : net.place x = bare.place x := by cases stands <;> rfl
  obtain ⟨forward, sealed, gates⟩ := h
  simp only [stands.connections_eq, place_eq, stands.layers_eq.1, gater_eq] at forward sealed gates
  exact ⟨forward, sealed, gates⟩

end Standing

end Network

end GatedNetwork
