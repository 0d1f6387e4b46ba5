import GatedNetwork.Network.Running
import GatedNetwork.Proofs.Network.Layers
import GatedNetwork.Proofs.Program.Mirror
import GatedNetwork.Proofs.Relating

/-! Networks that differ only in where their numbers are. A bare network has all of them in its
graph; another one stands for it if it is the same, or if it holds a program whose memory shows
the numbers of the bare one. Twins stand for one bare network, apart from the way it is run. -/

namespace GatedNetwork

def Config.withMode (c : Config) (mode : ExecutionMode) : Config := { c with mode }

namespace Network

def withMode (net : Network) (mode : ExecutionMode) : Network :=
  { net with config := net.config.withMode mode }

/-- A network without a program, with valid settings, whose indexes agree. Every neuron is listed
by a layer, or it is one of those that have just been made; all ids are below the bound. -/
structure Sound (bound : NeuronId) (pending : List NeuronId) (net : Network) : Prop where
  bare : net.program = none
  consistent : net.graph.Consistent
  nodup : (net.ids ++ pending).Nodup
  mem_iff : ∀ id, id ∈ net.ids ++ pending ↔ net.graph.neurons.contains id
  fresh : ∀ id, net.graph.neurons.contains id → id < bound
  valid : net.config.validate = .ok ()

/-- The network holds the numbers of the bare one, in its graph or in a program. -/
inductive StandsFor (bare : Network) : Network → Prop where
  | plain : StandsFor bare bare
  | compiled (p : Program) (g : Graph) (consistent : g.Consistent)
      (mirrors : p.Mirrors g bare.graph bare.input bare.hidden.toList bare.output) :
      StandsFor bare { bare with graph := g, program := some p }

/-- The networks stand for one sound network that each of them runs in its own way. -/
def Twins (bound : NeuronId) (a b : Network) : Prop :=
  ∃ (net : Network) (mode : ExecutionMode), net.Sound bound [] ∧ net.StandsFor a ∧
    (net.withMode mode).StandsFor b

/-- Two networks without programs that differ at most in how they are run. -/
def Paired (bound : NeuronId) (pending : List NeuronId) (a b : Network) : Prop :=
  a.Sound bound pending ∧ ∃ mode, b = a.withMode mode

section Soundness

variable {bound : NeuronId} {pending : List NeuronId} {net : Network}

theorem Sound.layered (h : net.Sound bound []) :
    net.graph.Layered net.input net.hidden.toList net.output where
  nodup := by simpa [ids] using h.nodup
  mem_iff id := by simpa [ids] using h.mem_iff id

theorem Sound.withMode (h : net.Sound bound pending) (mode : ExecutionMode) :
    (net.withMode mode).Sound bound pending := ⟨h.bare, h.consistent, h.nodup, h.mem_iff, h.fresh, h.valid⟩

theorem Sound.mono (h : net.Sound bound pending) {bound' : NeuronId} (le : bound ≤ bound') :
    net.Sound bound' pending := { h with fresh := fun id hid => Nat.lt_of_lt_of_le (h.fresh id hid) le }

theorem Sound.withGraph (h : net.Sound bound pending) {g : Graph}
    (intact : g.Intact net.graph.neurons.keys) (random : RandomStream) :
    { net with graph := g, random }.Sound bound pending := by
  have contains_eq (id : NeuronId) : g.neurons.contains id ↔ net.graph.neurons.contains id := by
    rw [← SortedMap.mem_keys, intact.2, SortedMap.mem_keys]
  exact ⟨h.bare, intact.1, h.nodup, fun id => (h.mem_iff id).trans (contains_eq id).symm,
    fun id hid => h.fresh id ((contains_eq id).mp hid), h.valid⟩

theorem Sound.withRandom (h : net.Sound bound pending) (random : RandomStream) :
    { net with random }.Sound bound pending := h.withGraph ⟨h.consistent, rfl⟩ random

/-- Layers may change as long as the neurons that they list stay. -/
theorem Sound.withLayers (h : net.Sound bound pending) {net' : Network}
    {pending' : List NeuronId} (bare : net'.program = none) (graph_eq : net'.graph = net.graph)
    (config_eq : net'.config = net.config)
    (ids_perm : (net'.ids ++ pending').Perm (net.ids ++ pending)) : net'.Sound bound pending' :=
  ⟨bare, graph_eq ▸ h.consistent, (ids_perm.nodup_iff).mpr h.nodup,
    fun id => by rw [ids_perm.mem_iff, h.mem_iff, graph_eq], graph_eq ▸ h.fresh, config_eq ▸ h.valid⟩

theorem Sound.noteWiring (h : net.Sound bound pending) {ref : LayerRef} {l : Layer}
    (hl : net.layer ref = .ok l) (target : LayerRef) :
    (net.mapLayer (·.noteWiring target) ref).Sound bound pending := by
  refine h.withLayers ?_ ?_ ?_ ?_
  · cases ref <;> exact h.bare
  · cases ref <;> rfl
  · cases ref <;> rfl
  · rw [ids_noteWiring hl]

theorem keys_of_skeleton_eq {g g' : Graph} (h : g.skeleton = g'.skeleton) :
    g.neurons.keys = g'.neurons.keys := by
  have keys_eq := congrArg (fun g : Graph => g.neurons.keys) h
  simpa [Graph.skeleton] using keys_eq

end Soundness

section Standing

variable {bound : NeuronId} {net bare a b : Network}

theorem StandsFor.withRandom (h : bare.StandsFor net) (random : RandomStream) :
    { bare with random }.StandsFor { net with random } := by
  cases h with
  | plain => exact .plain
  | compiled p g consistent mirrors => exact .compiled p g consistent mirrors

theorem StandsFor.layers_eq (h : bare.StandsFor net) :
    net.input = bare.input ∧ net.hidden = bare.hidden ∧ net.output = bare.output := by
  cases h <;> exact ⟨rfl, rfl, rfl⟩

theorem StandsFor.skeleton (h : bare.StandsFor net) : net.graph.skeleton = bare.graph.skeleton := by
  cases h with
  | plain => rfl
  | compiled p g consistent mirrors => exact mirrors.skeleton

theorem StandsFor.consistent (h : bare.StandsFor net) (sound : bare.Sound bound []) :
    net.graph.Consistent := by
  cases h with
  | plain => exact sound.consistent
  | compiled p g consistent mirrors => exact consistent

theorem StandsFor.config_eq (h : bare.StandsFor net) : net.config = bare.config := by
  cases h <;> rfl

theorem ask_layer {ref : LayerRef} {l : Layer} (h : net.layer ref = .ok l) :
    (ask (·.layer ref) : Edit Layer).run net = .ok l net := ask_of_ok h

theorem ask_layer_error {ref : LayerRef} {e : NetworkError} (h : net.layer ref = .error e) :
    (ask (·.layer ref) : Edit Layer).run net = .error e net := ask_of_error h

theorem modifyLayer_of_ok {ref : LayerRef} {l : Layer} (h : a.layer ref = .ok l)
    (f : Layer → Layer) : (modifyLayer ref f).run a = .ok () (a.mapLayer f ref) :=
  bind_of_ok (ask_layer h)

theorem modifyLayer_of_error {ref : LayerRef} {e : NetworkError} (h : a.layer ref = .error e)
    (f : Layer → Layer) : (modifyLayer ref f).run a = .error e a :=
  bind_of_error (ask_layer_error h)

theorem onGraph_of_ok {α : Type} {act : Graph.Edit α} {x : α} {g : Graph}
    (h : act.run a.graph = .ok x g) : (onGraph act).run a = .ok x { a with graph := g } :=
  focus_of_ok h

theorem onGraph_of_error {α : Type} {act : Graph.Edit α} {e : NetworkError} {g : Graph}
    (h : act.run a.graph = .error e g) : (onGraph act).run a = .error e { a with graph := g } :=
  focus_of_error h

theorem StandsFor.restore_run (h : bare.StandsFor net) (sound : bare.Sound bound []) :
    restore.run net = .ok () bare := by
  cases h with
  | plain =>
    rw [restore, bind_of_ok (get_run _), sound.bare]
    rfl
  | compiled p g consistent mirrors =>
    have written := mirrors.writeBack_run consistent.toLinked
      (sound.layered.of_skeleton_eq mirrors.skeleton.symm)
    rw [restore, bind_of_ok (get_run _)]
    refine (bind_of_ok (onGraph_of_ok written)).trans ?_
    rw [modify_run, ← sound.bare]

theorem Paired.twins (h : Paired bound [] a b) : Twins bound a b := by
  obtain ⟨sound, mode, rfl⟩ := h
  exact ⟨a, mode, sound, .plain, .plain⟩

theorem Twins.mono (h : Twins bound a b) {bound' : NeuronId} (le : bound ≤ bound') :
    Twins bound' a b := by
  obtain ⟨net, mode, sound, ha, hb⟩ := h
  exact ⟨net, mode, sound.mono le, ha, hb⟩

theorem StandsFor.eq_of_bare (h : a.StandsFor b) (bare : b.program = none) : b = a := by
  cases h with
  | plain => rfl
  | compiled p g consistent mirrors => nomatch bare

theorem Twins.same (h : Twins bound a b) :
    a.graph.skeleton = b.graph.skeleton ∧ a.input = b.input ∧ a.hidden = b.hidden ∧
      a.output = b.output ∧ a.random = b.random ∧
      ∃ mode, b.config = a.config.withMode mode := by
  obtain ⟨net, mode, sound, ha, hb⟩ := h
  refine ⟨ha.skeleton.trans hb.skeleton.symm, ?_⟩
  cases ha <;> cases hb <;> exact ⟨rfl, rfl, rfl, rfl, mode, rfl⟩

theorem Twins.layer (h : Twins bound a b) (ref : LayerRef) : a.layer ref = b.layer ref := by
  obtain ⟨-, input_eq, hidden_eq, output_eq, -⟩ := h.same
  cases ref <;> simp only [Network.layer, input_eq, hidden_eq, output_eq]

theorem Twins.contains (h : Twins bound a b) (c : ConnectionId) :
    a.graph.contains c = b.graph.contains c := Graph.contains_of_skeleton_eq h.same.1 c

theorem Twins.neuron {β : Type} (h : Twins bound a b) (id : NeuronId) {f : Neuron → β}
    (hf : ∀ n n', n.skeleton = n'.skeleton → f n = f n') :
    (a.graph.neuron id).map f = (b.graph.neuron id).map f := by
  cases hn : a.graph.neurons.get? id with
  | some n =>
    obtain ⟨n', hn', skeleton_eq⟩ := Graph.get?_of_skeleton_eq h.same.1 hn
    rw [Graph.neuron_eq_ok hn, Graph.neuron_eq_ok hn']
    exact congrArg Except.ok (hf n n' skeleton_eq)
  | none =>
    have hn' := Graph.get?_eq_none_of_skeleton_eq h.same.1 hn
    rw [Graph.neuron_eq_error hn, Graph.neuron_eq_error hn']

end Standing

section Actions

variable {bound : NeuronId} {pending : List NeuronId} {α β : Type}

/-- Twins answer alike and stay twins, whether the action succeeds or fails. -/
def Oblivious (bound : NeuronId) (act : Edit α) : Prop :=
  Relates (Twins bound) (fun _ => Twins bound) (Twins bound) act

/-- The same for networks without programs, which get none. -/
def Steady (bound : NeuronId) (act : Edit α) : Prop :=
  Relates (Paired bound []) (fun _ => Paired bound []) (Twins bound) act

theorem Paired.twins_of (a b : Network) (h : Paired bound [] a b) : Twins bound a b := h.twins

theorem relates_restore {E : Network → Network → Prop} :
    Relates (Twins bound) (fun _ => Paired bound []) E restore := by
  rintro a b ⟨net, mode, sound, ha, hb⟩
  rw [ha.restore_run sound, hb.restore_run (sound.withMode mode)]
  exact ⟨rfl, sound, mode, rfl⟩

theorem Steady.afterRestore {act : Edit α} (h : Steady bound act) :
    Oblivious bound (restore >>= fun _ => act) :=
  Relates.bind relates_restore fun _ => h.mono (fun _ _ h => h) (fun _ _ _ h => h.twins) fun _ _ h => h

theorem steady_get {f : Network → Edit α} (blind : ∀ net mode, f (net.withMode mode) = f net)
    (hf : ∀ net : Network, Relates (fun a b => Paired bound [] a b ∧ a = net)
      (fun _ => Paired bound []) (Twins bound) (f net)) :
    Steady bound (get >>= f) := by
  refine relates_get (fun a b h => ?_) hf
  obtain ⟨-, mode, rfl⟩ := h
  exact (blind a mode).symm

theorem Steady.given {act : Edit α} (h : Steady bound act) (net : Network) :
    Relates (fun a b => Paired bound [] a b ∧ a = net) (fun _ => Paired bound []) (Twins bound) act :=
  h.mono (fun _ _ h => h.1) (fun _ _ _ h => h) fun _ _ h => h

theorem steady_ask {q : Network → Except NetworkError α}
    (blind : ∀ net mode, q (net.withMode mode) = q net) : Steady bound (ask q) := by
  refine relates_ask (fun a b h => ?_) (fun _ _ _ _ h => h) Paired.twins_of
  obtain ⟨-, mode, rfl⟩ := h
  exact (blind a mode).symm

theorem steady_pure (x : α) : Steady bound (pure x) := relates_pure fun _ _ h => h

theorem steady_throw (e : NetworkError) : Steady bound (throw e : Edit α) :=
  relates_throw e Paired.twins_of

theorem oblivious_throw (e : NetworkError) : Oblivious bound (throw e : Edit α) :=
  relates_throw e fun _ _ h => h

theorem oblivious_pure (x : α) : Oblivious bound (pure x) := relates_pure fun _ _ h => h

theorem onGraphAndRandom_of_ok {a : Network} {act : EStateM NetworkError (Graph × RandomStream) α}
    {x : α} {g : Graph} {r : RandomStream} (h : act.run (a.graph, a.random) = .ok x (g, r)) :
    (onGraphAndRandom act).run a = .ok x { a with graph := g, random := r } := by
  rw [onGraphAndRandom, focus_of_ok (s := a) h]

/-- A change of the graph that leaves its neurons and its indexes in place. -/
theorem relates_onGraph {act : Graph.Edit α} (intact : ∀ ks, Keeps (Graph.Intact ks) act) :
    Relates (Paired bound pending) (fun _ => Paired bound pending) (Paired bound pending)
      (onGraph act) := by
  rintro a _ ⟨sound, mode, rfl⟩
  have kept := intact _ a.graph ⟨sound.consistent, rfl⟩
  cases hr : act.run a.graph with
  | ok x g =>
    rw [hr] at kept
    rw [onGraph_of_ok hr, onGraph_of_ok (a := a.withMode mode) hr]
    exact ⟨rfl, sound.withGraph kept a.random, mode, rfl⟩
  | error e g =>
    rw [hr] at kept
    rw [onGraph_of_error hr, onGraph_of_error (a := a.withMode mode) hr]
    exact ⟨rfl, sound.withGraph kept a.random, mode, rfl⟩

theorem relates_onGraphAndRandom {act : EStateM NetworkError (Graph × RandomStream) α}
    (intact : ∀ ks, Keeps (fun s => Graph.Intact ks s.1) act) :
    Relates (Paired bound pending) (fun _ => Paired bound pending) (Paired bound pending)
      (onGraphAndRandom act) := by
  rintro a _ ⟨sound, mode, rfl⟩
  have kept := intact _ (a.graph, a.random) ⟨sound.consistent, rfl⟩
  cases hr : act.run (a.graph, a.random) with
  | ok x s =>
    rw [hr] at kept
    rw [onGraphAndRandom, focus_of_ok (s := a) hr, focus_of_ok (s := a.withMode mode) hr]
    exact ⟨rfl, sound.withGraph kept s.2, mode, rfl⟩
  | error e s =>
    rw [hr] at kept
    rw [onGraphAndRandom, focus_of_error (s := a) hr, focus_of_error (s := a.withMode mode) hr]
    exact ⟨rfl, sound.withGraph kept s.2, mode, rfl⟩

theorem relates_onRandom (act : Draw α) :
    Relates (Paired bound pending) (fun _ => Paired bound pending) (Paired bound pending)
      (onRandom act) := by
  rintro a _ ⟨sound, mode, rfl⟩
  cases hr : act.run a.random with
  | ok x r =>
    rw [onRandom, focus_of_ok (s := a) hr, focus_of_ok (s := a.withMode mode) hr]
    exact ⟨rfl, sound.withRandom r, mode, rfl⟩
  | error e r =>
    rw [onRandom, focus_of_error (s := a) hr, focus_of_error (s := a.withMode mode) hr]
    exact ⟨rfl, sound.withRandom r, mode, rfl⟩

theorem steady_onGraph {act : Graph.Edit α} (intact : ∀ ks, Keeps (Graph.Intact ks) act) :
    Steady bound (onGraph act) :=
  (relates_onGraph intact).mono (fun _ _ h => h) (fun _ _ _ h => h) Paired.twins_of

theorem steady_onGraphAndRandom {act : EStateM NetworkError (Graph × RandomStream) α}
    (intact : ∀ ks, Keeps (fun s => Graph.Intact ks s.1) act) : Steady bound (onGraphAndRandom act) :=
  (relates_onGraphAndRandom intact).mono (fun _ _ h => h) (fun _ _ _ h => h) Paired.twins_of

theorem steady_onRandom (act : Draw α) : Steady bound (onRandom act) :=
  (relates_onRandom act).mono (fun _ _ h => h) (fun _ _ _ h => h) Paired.twins_of

theorem steady_noteWiring (ref target : LayerRef) :
    Steady bound (modifyLayer ref (·.noteWiring target)) := by
  rintro a _ ⟨sound, mode, rfl⟩
  cases hl : a.layer ref with
  | error e =>
    rw [modifyLayer_of_error hl, modifyLayer_of_error (a := a.withMode mode) hl]
    exact ⟨rfl, Paired.twins ⟨sound, mode, rfl⟩⟩
  | ok l =>
    rw [modifyLayer_of_ok hl, modifyLayer_of_ok (a := a.withMode mode) hl]
    refine ⟨rfl, sound.noteWiring hl target, mode, ?_⟩
    cases ref <;> rfl

end Actions

end Network

end GatedNetwork
