import GatedNetwork.Proofs.Graph.Drawing
import GatedNetwork.Proofs.Network.Enumeration
import GatedNetwork.Proofs.Network.Growing
import GatedNetwork.Proofs.Network.Running

/-! Calls that fail. Names and sizes are checked before anything is changed, and once the checks
are passed nothing can fail but the draw of a number. So a refused call has changed nothing. -/

namespace GatedNetwork

namespace Program

open Float.Model

/-- A finite number is positive or at most 0: only what is not a number is neither. -/
theorem not_le_zero_iff {rate : Float} (finite : rate.isFinite) : ¬ rate ≤ 0 ↔ 0 < rate := by
  have le_iff : rate ≤ 0 ↔ (rate.toModel.unpack.compare (.zero .positive)).any (·.isLE) = true := by
    change decide ((rate.toModel.unpack.compare (.zero .positive)).any (·.isLE) = true) = true ↔ _
    exact decide_eq_true_iff
  have lt_iff : 0 < rate ↔
      ((UnpackedFloat.zero .positive).compare rate.toModel.unpack == some .lt) = true := by
    change decide (((UnpackedFloat.zero .positive).compare rate.toModel.unpack == some .lt) = true) =
      true ↔ _
    exact decide_eq_true_iff
  have finite : rate.toModel.unpack.isFinite = true := finite
  rw [le_iff, lt_iff]
  cases h : rate.toModel.unpack with
  | notANumber =>
    rw [h] at finite
    nomatch finite
  | infinity sign =>
    rw [h] at finite
    nomatch finite
  | zero sign =>
    show ¬ true = true ↔ false = true
    simp
  | finite sign mantissa exponent pos =>
    cases sign with
    | positive =>
      show ¬ false = true ↔ true = true
      simp
    | negative =>
      show ¬ true = true ↔ false = true
      simp

theorem validRate_iff (rate : Float) : validRate rate ↔ rate.isFinite ∧ 0 < rate := by
  by_cases finite : rate.isFinite
  · have positive_iff := not_le_zero_iff finite
    simp [validRate, finite, ← positive_iff]
  · simp [validRate, finite]

end Program

namespace Network

/-- The action succeeds where the condition holds; elsewhere it is refused, and the network is what
it was. -/
structure Guarded {α : Type} (net : Network) (condition : Prop) (act : Edit α) : Prop where
  passes : condition → ∃ x net', act.run net = .ok x net'
  refuses : ¬ condition → ∃ e, act.run net = .error e net

section Guards

variable {α : Type} {bound : NeuronId} {net bare : Network} {condition : Prop}

theorem Guarded.iff_passes {act : Edit α} (h : Guarded net condition act) :
    (∃ x net', act.run net = .ok x net') ↔ condition := by
  refine ⟨fun ⟨x, net', run_eq⟩ => Classical.byContradiction fun failed => ?_, h.passes⟩
  obtain ⟨e, error_eq⟩ := h.refuses failed
  nomatch run_eq.symm.trans error_eq

theorem Guarded.unchanged {act : Edit α} (h : Guarded net condition act) {e : NetworkError}
    {net' : Network} (run_eq : act.run net = .error e net') : net' = net := by
  have failed : ¬ condition := fun holds => by
    obtain ⟨x, net'', ok_eq⟩ := h.passes holds
    nomatch run_eq.symm.trans ok_eq
  obtain ⟨e', error_eq⟩ := h.refuses failed
  rw [run_eq] at error_eq
  exact (EStateM.Result.error.inj error_eq).2

theorem ask_graph_neuron {id : NeuronId} {n : Neuron} (hn : net.graph.neurons.get? id = some n) :
    (ask (·.graph.neuron id) : Edit Neuron).run net = .ok n net := ask_of_ok (Graph.neuron_eq_ok hn)

theorem ask_graph_neuron_error {id : NeuronId} (hn : net.graph.neurons.get? id = none) :
    (ask (·.graph.neuron id) : Edit Neuron).run net = .error (.unknownNeuron id) net :=
  ask_of_error (Graph.neuron_eq_error hn)

theorem guarded_neuron_and {id : NeuronId} {act : Edit α}
    (rest : net.graph.neurons.contains id → Guarded net condition act) :
    Guarded net (net.graph.neurons.contains id ∧ condition)
      (ask (·.graph.neuron id) >>= fun _ => act) where
  passes holds := by
    obtain ⟨n, hn⟩ := Graph.get?_of_contains holds.1
    rw [bind_of_ok (ask_graph_neuron hn)]
    exact (rest holds.1).passes holds.2
  refuses failed := by
    cases hn : net.graph.neurons.get? id with
    | none => exact ⟨_, bind_of_error (ask_graph_neuron_error hn)⟩
    | some n =>
      have hid := Graph.contains_of_get? hn
      rw [bind_of_ok (ask_graph_neuron hn)]
      exact (rest hid).refuses fun holds => failed ⟨hid, holds⟩

theorem guarded_neuron {id : NeuronId} {act : Edit α}
    (passes : net.graph.neurons.contains id → ∃ x net', act.run net = .ok x net') :
    Guarded net (net.graph.neurons.contains id) (ask (·.graph.neuron id) >>= fun _ => act) := by
  have guard : Guarded net (net.graph.neurons.contains id ∧ True)
      (ask (·.graph.neuron id) >>= fun _ => act) :=
    guarded_neuron_and fun hid => ⟨fun _ => passes hid, fun failed => absurd trivial failed⟩
  rwa [and_true] at guard

theorem guarded_connection {c : ConnectionId} {e : NetworkError} {act : PUnit → Edit α}
    (passes : net.graph.contains c → ∃ x net', (act ⟨⟩).run net = .ok x net') :
    Guarded net (net.graph.contains c)
      (get >>= fun n => if n.graph.contains c then act ⟨⟩ else throw e >>= act) where
  passes hc := by
    rw [bind_of_ok (get_run net), if_pos hc]
    exact passes hc
  refuses hc := by
    rw [bind_of_ok (get_run net), if_neg hc]
    exact ⟨e, rfl⟩

theorem guarded_layer {ref : LayerRef} {act : Layer → Edit α}
    (passes : ∀ l, net.layer ref = .ok l → ∃ x net', (act l).run net = .ok x net') :
    Guarded net (ref ∈ net.refs) (ask (·.layer ref) >>= act) where
  passes there := by
    obtain ⟨l, hl⟩ := mem_refs_iff.mp there
    rw [bind_of_ok (ask_layer hl)]
    exact passes l hl
  refuses missing := by
    cases hl : net.layer ref with
    | ok l => exact absurd (mem_refs_iff.mpr ⟨l, hl⟩) missing
    | error e => exact ⟨e, bind_of_error (ask_layer_error hl)⟩

/-- Once the numbers are taken back, a change of the graph that cannot fail does not fail. -/
theorem StandsFor.changes (h : bare.StandsFor net) (sound : bare.Sound bound [])
    {act : Graph.Edit α} {x : α} {g : Graph} (run_eq : act.run bare.graph = .ok x g) :
    ∃ x net', (restore >>= fun _ => onGraph act).run net = .ok x net' :=
  ⟨x, _, (bind_of_ok (h.restore_run sound)).trans (onGraph_of_ok run_eq)⟩

theorem StandsFor.contains_neuron (h : bare.StandsFor net) (id : NeuronId) :
    net.graph.neurons.contains id = bare.graph.neurons.contains id :=
  Graph.contains_neuron_of_skeleton_eq h.skeleton id

theorem StandsFor.contains (h : bare.StandsFor net) (c : ConnectionId) :
    net.graph.contains c = bare.graph.contains c := Graph.contains_of_skeleton_eq h.skeleton c

theorem StandsFor.layer_eq (h : bare.StandsFor net) (ref : LayerRef) : net.layer ref = bare.layer ref := by
  cases h <;> cases ref <;> rfl

theorem Sound.contains_member (sound : bare.Sound bound []) {ref : LayerRef} {l : Layer}
    (hl : bare.layer ref = .ok l) {id : NeuronId} (hid : id ∈ l.neurons) :
    bare.graph.neurons.contains id := by
  obtain ⟨before, later, ids_eq, -⟩ := exists_ids_mapLayer hl (fun l => l)
  exact (sound.mem_iff id).mp (by simp [ids_eq, hid])

end Guards

section Edits

variable {bound : NeuronId} {net bare : Network}

theorem StandsFor.guarded_setBias (h : bare.StandsFor net) (sound : bare.Sound bound [])
    (id : NeuronId) (bias : Float) :
    Guarded net (net.graph.neurons.contains id) (setBias id bias) :=
  guarded_neuron fun hid => h.changes sound (Graph.modifyNeuron_run (h.contains_neuron id ▸ hid) _)

theorem StandsFor.guarded_setSquash (h : bare.StandsFor net) (sound : bare.Sound bound [])
    (id : NeuronId) (squash : Squash) :
    Guarded net (net.graph.neurons.contains id) (setSquash id squash) :=
  guarded_neuron fun hid => h.changes sound (Graph.modifyNeuron_run (h.contains_neuron id ▸ hid) _)

theorem StandsFor.guarded_setWeight (h : bare.StandsFor net) (sound : bare.Sound bound [])
    (c : ConnectionId) (weight : Float) :
    Guarded net (net.graph.contains c) (setWeight c weight) :=
  guarded_connection fun hc => h.changes sound
    (Graph.modifyConnection_run (Graph.connection?_isSome_of_contains (h.contains c ▸ hc)) _)

theorem StandsFor.guarded_setLayerBias (h : bare.StandsFor net) (sound : bare.Sound bound [])
    (ref : LayerRef) (bias : Float) : Guarded net (ref ∈ net.refs) (setLayerBias ref bias) :=
  guarded_layer fun _ hl => h.changes sound (Graph.modifyEach_run (fun _ hid =>
    sound.contains_member (h.layer_eq ref ▸ hl) hid) _)

theorem StandsFor.guarded_setLayerSquash (h : bare.StandsFor net) (sound : bare.Sound bound [])
    (ref : LayerRef) (squash : Squash) : Guarded net (ref ∈ net.refs) (setLayerSquash ref squash) :=
  guarded_layer fun _ hl => h.changes sound (Graph.modifyEach_run (fun _ hid =>
    sound.contains_member (h.layer_eq ref ▸ hl) hid) _)

theorem StandsFor.guarded_disconnect (h : bare.StandsFor net) (sound : bare.Sound bound [])
    (source target : NeuronId) :
    Guarded net (net.graph.contains ⟨source, target⟩) (disconnect source target) :=
  guarded_connection fun hc => h.changes sound
    (Graph.disconnect_run sound.consistent (c := ⟨source, target⟩) (h.contains _ ▸ hc))

theorem StandsFor.guarded_gateConnection (h : bare.StandsFor net) (sound : bare.Sound bound [])
    (gater : NeuronId) (c : ConnectionId) :
    Guarded net (net.graph.neurons.contains gater ∧ net.graph.contains c) (gateConnection gater c) := by
  refine guarded_neuron_and fun hx => guarded_connection fun hc => ?_
  exact h.changes sound (Graph.gate_run sound.consistent (h.contains_neuron gater ▸ hx)
    (h.contains c ▸ hc))

end Edits

section Steps

variable {bound : NeuronId} {net bare : Network}

theorem StandsFor.guarded_activate (h : bare.StandsFor net) (sound : bare.Sound bound [])
    (values : List Float) : Guarded net (values.length = net.input.size) (activate values) where
  passes length_eq := by
    have length_eq : values.length = bare.input.size := by cases h <;> exact length_eq
    obtain ⟨x, live, net', run_eq, -⟩ := h.walks_activate sound length_eq
    exact ⟨x, net', run_eq⟩
  refuses differ := by
    rw [activate, bind_of_ok (get_run net), if_neg differ]
    exact ⟨_, rfl⟩

theorem StandsFor.guarded_propagate (h : bare.StandsFor net) (sound : bare.Sound bound [])
    (rate : Float) (targets : List Float) :
    Guarded net (Program.validRate rate ∧ targets.length = net.output.size)
      (propagate rate targets) where
  passes holds := by
    have length_eq : targets.length = bare.output.size := by cases h <;> exact holds.2
    obtain ⟨x, live, net', run_eq, -⟩ := h.walks_propagate sound holds.1 length_eq
    exact ⟨x, net', run_eq⟩
  refuses failed := by
    rw [propagate, bind_of_ok (get_run net)]
    by_cases valid : Program.validRate rate
    · have differ : ¬ targets.length = net.output.size := fun same => failed ⟨valid, same⟩
      simp only [valid, differ, ↓reduceIte]
      exact ⟨_, rfl⟩
    · rw [if_neg valid]
      exact ⟨_, rfl⟩

theorem StandsFor.length_activate (h : bare.StandsFor net) (sound : bare.Sound bound [])
    {values output : List Float} {net' : Network}
    (run_eq : (activate values).run net = .ok output net') : output.length = net.output.size := by
  have length_eq := (h.guarded_activate sound values).iff_passes.mp ⟨output, net', run_eq⟩
  have length_eq : values.length = bare.input.size := by cases h <;> exact length_eq
  obtain ⟨x, live, net'', run_eq', walk_run, -⟩ := h.walks_activate sound length_eq
  obtain rfl : output = x := by
    rw [run_eq] at run_eq'
    exact (EStateM.Result.ok.inj run_eq').1
  have counted : Ends (fun _ => True) (walkForward bare.input bare.hidden.toList bare.output values)
      (fun x _ => x.length = bare.output.size) (fun _ _ => True) := by
    refine Ends.bind (ends_any _) fun _ => Ends.bind (ends_any _) fun _ => ?_
    exact (ends_mapM (I := fun before ys _ => ys.length = before.length)
      fun before id later ys _ g hg => by
        cases (Graph.activate id).run g <;> simp_all [Ending]).mono (fun _ _ => rfl) (fun _ _ h => h)
      fun _ _ h => h
  have size_eq : bare.output.size = net.output.size := by cases h <;> rfl
  rw [← size_eq]
  exact (counted bare.graph trivial).of_eq_ok walk_run

end Steps

section Gating

variable {bound : NeuronId} {net bare : Network} {link : Link} {gating : Gating}

/-- What each gater is to drive is found neuron by neuron, when the sizes agree. -/
theorem mem_found_iff {gaters : List NeuronId} (ref : LayerRef)
    (select : NeuronId → Neuron → List ConnectionId) {pairs : List (NeuronId × ConnectionId)}
    (h : (do
      let layer ← net.layer ref
      unless layer.size = gaters.length do
        throw (.layerSizeMismatch layer.size gaters.length)
      let found ← (layer.neurons.zip gaters).mapM fun (id, gater) => do
        let n ← net.graph.neuron id
        return (select id n).map (gater, ·)
      return found.flatten : Except NetworkError _) = .ok pairs) :
    (net.members ref).length = gaters.length ∧
    ∀ x c, (x, c) ∈ pairs ↔ ∃ id n, (id, x) ∈ (net.members ref).zip gaters ∧
      net.graph.neurons.get? id = some n ∧ c ∈ select id n := by
  obtain ⟨l, hl, h⟩ := exists_of_bind_eq_ok h
  rw [members_of_layer hl]
  by_cases sizes : l.size = gaters.length
  · rw [if_pos sizes] at h
    obtain ⟨found, found_eq, h⟩ := exists_of_bind_eq_ok h
    obtain rfl := Except.ok.inj h
    refine ⟨sizes, fun x c => List.mem_flatten.trans ?_⟩
    constructor
    · rintro ⟨ps, hps, hp⟩
      obtain ⟨⟨id, y⟩, there, answer⟩ := (mem_mapM_iff found_eq).mp hps
      obtain ⟨n, hn, answer⟩ := exists_of_bind_eq_ok answer
      obtain rfl := Except.ok.inj answer
      obtain ⟨c', hc, same⟩ := List.mem_map.mp hp
      obtain ⟨rfl, rfl⟩ := Prod.mk.inj same
      exact ⟨id, n, there, Graph.neuron_eq_ok_iff.mp hn, hc⟩
    · rintro ⟨id, n, there, hn, hc⟩
      refine ⟨_, (mem_mapM_iff found_eq).mpr ⟨(id, x), there, ?_⟩, List.mem_map_of_mem hc⟩
      simp only [Graph.neuron_eq_ok hn]
      rfl
  · rw [if_neg sizes] at h
    nomatch h

theorem mem_of_gatePairs {gaters : List NeuronId} {pairs : List (NeuronId × ConnectionId)}
    (h : net.gatePairs gaters link gating = .ok pairs) {p : NeuronId × ConnectionId} (hp : p ∈ pairs) :
    p.1 ∈ gaters := by
  cases gating with
  | input =>
    obtain ⟨-, found⟩ := mem_found_iff link.target
      (fun _ n => n.inputs.toList.filter (link.connections.contains ·)) h
    obtain ⟨id, n, there, -⟩ := (found p.1 p.2).mp hp
    exact (List.of_mem_zip there).2
  | output =>
    obtain ⟨-, found⟩ := mem_found_iff link.source (fun id n =>
      (n.projected.toList ++ [ConnectionId.loop id]).filter (link.connections.contains ·)) h
    obtain ⟨id, n, there, -⟩ := (found p.1 p.2).mp hp
    exact (List.of_mem_zip there).2
  | oneToOne =>
    simp only [gatePairs] at h
    split at h
    · obtain rfl := Except.ok.inj h
      exact (List.of_mem_zip hp).1
    · nomatch h

theorem ask_gatePairs {gaters : List NeuronId} {pairs : List (NeuronId × ConnectionId)}
    (h : net.gatePairs gaters link gating = .ok pairs) :
    (ask fun net : Network => net.gatePairs gaters link gating).run net = .ok pairs net := ask_of_ok h

theorem ask_gatePairs_error {gaters : List NeuronId} {e : NetworkError}
    (h : net.gatePairs gaters link gating = .error e) :
    (ask fun net : Network => net.gatePairs gaters link gating).run net = .error e net :=
  ask_of_error h

/-- Every pair of a gater and a connection names what is there. -/
def Gateable (net : Network) (gater : LayerRef) (link : Link) (gating : Gating) : Prop :=
  ∃ l pairs, net.layer gater = .ok l ∧ net.gatePairs l.neurons link gating = .ok pairs ∧
    ∀ p ∈ pairs, net.graph.contains p.2

/-- A layer is made to gate a link as a whole or not at all. -/
theorem StandsFor.gate_cases (h : bare.StandsFor net) (sound : bare.Sound bound [])
    (gater : LayerRef) (link : Link) (gating : Gating) :
    (∃ l pairs, net.layer gater = .ok l ∧ net.gatePairs l.neurons link gating = .ok pairs ∧
      (∀ p ∈ pairs, net.graph.contains p.2) ∧
      (gate gater link gating).run net = .ok () { bare with graph := bare.graph.gatedEach pairs }) ∨
    ¬ Gateable net gater link gating ∧ ∃ e, (gate gater link gating).run net = .error e net := by
  cases hl : net.layer gater with
  | error e =>
    refine .inr ⟨?_, e, bind_of_error (ask_layer_error hl)⟩
    rintro ⟨l, pairs, hl', -⟩
    nomatch hl.symm.trans hl'
  | ok l =>
    cases hp : net.gatePairs l.neurons link gating with
    | error e =>
      refine .inr ⟨?_, e, (bind_of_ok (ask_layer hl)).trans (bind_of_error (ask_gatePairs_error hp))⟩
      rintro ⟨l', pairs, hl', hp', -⟩
      obtain rfl := Except.ok.inj (hl.symm.trans hl')
      nomatch hp.symm.trans hp'
    | ok pairs =>
      have start : (gate gater link gating).run net = (do
          pairs.forM fun p => do
            unless net.graph.contains p.2 do
              throw (.unknownConnection p.2)
          restore
          pairs.forM fun p => onGraph (Graph.gate p.1 p.2) : Edit Unit).run net :=
        (bind_of_ok (ask_layer hl)).trans
          ((bind_of_ok (ask_gatePairs hp)).trans (bind_of_ok (get_run net)))
      let check (p : NeuronId × ConnectionId) : Edit Unit :=
        if net.graph.contains p.2 then pure () else throw (.unknownConnection p.2)
      have checks := checkEach_cases (s := net) (P := fun p => net.graph.contains p.2) (f := check)
        pairs (fun p hc => congrArg (EStateM.run · net) (if_pos hc)) fun p hc =>
          ⟨.unknownConnection p.2, congrArg (EStateM.run · net) (if_neg hc)⟩
      rcases checks with ⟨there, check_run⟩ | ⟨missing, e, check_run⟩
      · have gates : (pairs.forM fun p => Graph.gate p.1 p.2).run bare.graph =
            .ok () (bare.graph.gatedEach pairs) := Graph.gateEach_run sound.consistent fun p hp' =>
          ⟨sound.contains_member (h.layer_eq gater ▸ hl) (mem_of_gatePairs hp hp'),
            h.contains p.2 ▸ there p hp'⟩
        refine .inl ⟨l, pairs, rfl, hp, there, start.trans ((bind_of_ok check_run).trans ?_)⟩
        rw [bind_of_ok (h.restore_run sound)]
        exact (congrArg (EStateM.run · bare) (onGraph_forM pairs fun p => Graph.gate p.1 p.2)).symm.trans
          (onGraph_of_ok gates)
      · refine .inr ⟨?_, e, start.trans (bind_of_error check_run)⟩
        rintro ⟨l', pairs', hl', hp', there⟩
        obtain rfl := Except.ok.inj (hl.symm.trans hl')
        obtain rfl := Except.ok.inj (hp.symm.trans hp')
        exact missing there

theorem StandsFor.guarded_gate (h : bare.StandsFor net) (sound : bare.Sound bound [])
    (gater : LayerRef) (link : Link) (gating : Gating) :
    Guarded net (Gateable net gater link gating) (gate gater link gating) := by
  rcases h.gate_cases sound gater link gating with
    ⟨l, pairs, hl, hp, there, run_eq⟩ | ⟨failed, e, run_eq⟩
  · exact ⟨fun _ => ⟨_, _, run_eq⟩, fun failed => absurd ⟨l, pairs, hl, hp, there⟩ failed⟩
  · exact ⟨fun holds => absurd holds failed, fun _ => ⟨e, run_eq⟩⟩

end Gating

end Network

end GatedNetwork
