import GatedNetwork.Graph.Structure
import GatedNetwork.SortedSet.Lemmas

/-! The skeleton of a graph: the graph with every number set to 0. Two graphs with one
skeleton have the same neurons, connections, gaters and trace keys. -/

namespace GatedNetwork

def Connection.skeleton (c : Connection) : Connection := { weight := 0, gain := 0, gater := c.gater }

def Neuron.skeleton (n : Neuron) : Neuron :=
  { n.clear with bias := 0, selfConnection := n.selfConnection.skeleton }

theorem Connection.skeleton_eq {c d : Connection} (h : c.gater = d.gater) :
    c.skeleton = d.skeleton := by
  simp [skeleton, h]

theorem Neuron.of_skeleton_eq {n n' : Neuron} (h : n.skeleton = n'.skeleton) :
    n.squash = n'.squash ∧ n.inputs = n'.inputs ∧ n.projected = n'.projected ∧
      n.gated = n'.gated ∧ n.selfConnected = n'.selfConnected ∧
      n.selfConnection.gater = n'.selfConnection.gater ∧ n.trace.clear = n'.trace.clear := by
  simp only [skeleton, clear, Connection.skeleton, Neuron.mk.injEq, Connection.mk.injEq] at h
  simp [h]

namespace Graph

def skeleton (g : Graph) : Graph where
  neurons := g.neurons.mapValues fun _ n => n.skeleton
  connections := g.connections.mapValues fun _ c => c.skeleton

/-- A connection by its name; a self-connection is there as soon as its neuron is. -/
def connection? (g : Graph) (c : ConnectionId) : Option Connection :=
  if c.isSelf then (g.neurons.get? c.source).map (·.selfConnection) else g.connections.get? c

def gater? (g : Graph) (c : ConnectionId) : Option NeuronId := (g.connection? c).bind (·.gater)

def withNeuron (g : Graph) (id : NeuronId) (f : Neuron → Neuron) : Graph :=
  { g with neurons := g.neurons.modify id f }

def withConnection (g : Graph) (c : ConnectionId) (f : Connection → Connection) : Graph :=
  if c.isSelf then g.withNeuron c.source fun n => { n with selfConnection := f n.selfConnection }
  else { g with connections := g.connections.modify c f }

theorem skeleton_neurons_get? (g : Graph) (id : NeuronId) :
    g.skeleton.neurons.get? id = (g.neurons.get? id).map Neuron.skeleton := by
  simp [skeleton]

theorem skeleton_connections_get? (g : Graph) (c : ConnectionId) :
    g.skeleton.connections.get? c = (g.connections.get? c).map Connection.skeleton := by
  simp [skeleton]

theorem skeleton_connection? (g : Graph) (c : ConnectionId) :
    g.skeleton.connection? c = (g.connection? c).map Connection.skeleton := by
  unfold connection?
  split
  · rw [skeleton_neurons_get?]
    cases g.neurons.get? c.source <;> rfl
  · exact skeleton_connections_get? g c

@[simp] theorem skeleton_contains_neuron (g : Graph) (id : NeuronId) :
    g.skeleton.neurons.contains id = g.neurons.contains id := by
  simp [skeleton]

@[simp] theorem skeleton_contains_connection (g : Graph) (c : ConnectionId) :
    g.skeleton.connections.contains c = g.connections.contains c := by
  simp [skeleton]

@[simp] theorem skeleton_contains (g : Graph) (c : ConnectionId) :
    g.skeleton.contains c = g.contains c := by
  unfold contains
  split
  · rw [skeleton_neurons_get?]
    cases g.neurons.get? c.source <;> rfl
  · simp

@[simp] theorem skeleton_gater? (g : Graph) (c : ConnectionId) : g.skeleton.gater? c = g.gater? c := by
  rw [gater?, gater?, skeleton_connection?]
  cases g.connection? c <;> rfl

@[simp] theorem withNeuron_get? (g : Graph) (id id' : NeuronId) (f : Neuron → Neuron) :
    (g.withNeuron id f).neurons.get? id' =
      if id = id' then (g.neurons.get? id').map f else g.neurons.get? id' := by
  simp [withNeuron]

@[simp] theorem withNeuron_connections (g : Graph) (id : NeuronId) (f : Neuron → Neuron) :
    (g.withNeuron id f).connections = g.connections := rfl

@[simp] theorem withNeuron_contains (g : Graph) (id id' : NeuronId) (f : Neuron → Neuron) :
    (g.withNeuron id f).neurons.contains id' = g.neurons.contains id' := by
  simp [withNeuron]

theorem withNeuron_connection? (g : Graph) (id : NeuronId) {f : Neuron → Neuron}
    (hf : ∀ n, g.neurons.get? id = some n → (f n).selfConnection = n.selfConnection)
    (c : ConnectionId) : (g.withNeuron id f).connection? c = g.connection? c := by
  unfold connection?
  by_cases hs : c.isSelf
  · by_cases h : id = c.source
    · subst h
      cases hn : g.neurons.get? c.source with
      | none => simp [hn]
      | some n => simp [hs, hn, hf n hn]
    · simp [hs, h]
  · simp [hs]

theorem eq_of_isSelf {c d : ConnectionId} (hc : c.isSelf) (hd : d.isSelf)
    (h : c.source = d.source) : c = d := by
  cases c
  cases d
  simp_all [ConnectionId.isSelf]

@[simp] theorem withConnection_connection? (g : Graph) (c c' : ConnectionId)
    (f : Connection → Connection) :
    (g.withConnection c f).connection? c' =
      if c = c' then (g.connection? c').map f else g.connection? c' := by
  unfold withConnection connection?
  by_cases hs : c.isSelf <;> by_cases hs' : c'.isSelf
  · by_cases h : c.source = c'.source
    · have hc := eq_of_isSelf hs hs' h
      subst hc
      cases hn : g.neurons.get? c.source <;> simp [hs, hn]
    · have hc : c ≠ c' := fun e => h (e ▸ rfl)
      simp [hs, hs', h, hc]
  · have hc : c ≠ c' := fun e => hs' (e ▸ hs)
    simp [hs, hs', hc]
  · have hc : c ≠ c' := fun e => hs (e ▸ hs')
    simp [hs, hs', hc]
  · simp [hs, hs']

@[simp] theorem withConnection_contains_neuron (g : Graph) (c : ConnectionId)
    (f : Connection → Connection) (id : NeuronId) :
    (g.withConnection c f).neurons.contains id = g.neurons.contains id := by
  unfold withConnection
  split <;> simp

@[simp] theorem withConnection_contains_connection (g : Graph) (c c' : ConnectionId)
    (f : Connection → Connection) :
    (g.withConnection c f).connections.contains c' = g.connections.contains c' := by
  unfold withConnection
  split <;> simp

theorem withConnection_get? (g : Graph) (c : ConnectionId) (f : Connection → Connection)
    (id : NeuronId) :
    (g.withConnection c f).neurons.get? id =
      if c = .loop id then
        (g.neurons.get? id).map fun n => { n with selfConnection := f n.selfConnection }
      else g.neurons.get? id := by
  unfold withConnection
  by_cases hs : c.isSelf
  · by_cases h : c.source = id
    · have hc : c = .loop id := eq_of_isSelf hs (by simp [ConnectionId.isSelf, ConnectionId.loop]) h
      simp [hc, ConnectionId.isSelf, ConnectionId.loop]
    · have hc : c ≠ .loop id := fun e => h (by simp [e, ConnectionId.loop])
      simp [hs, h, hc]
  · have hc : c ≠ .loop id := fun e => hs (by simp [e, ConnectionId.isSelf, ConnectionId.loop])
    simp [hs, hc]

theorem skeleton_withNeuron (g : Graph) (id : NeuronId) {f : Neuron → Neuron}
    (hf : ∀ n, g.neurons.get? id = some n → (f n).skeleton = n.skeleton) :
    (g.withNeuron id f).skeleton = g.skeleton := by
  have hn : (g.withNeuron id f).skeleton.neurons = g.skeleton.neurons :=
    SortedMap.eq_of_get?_eq fun id' => by
      simp only [skeleton_neurons_get?, withNeuron_get?]
      by_cases h : id = id'
      · subst h
        cases hn : g.neurons.get? id with
        | none => simp
        | some n => simp [hf n hn]
      · simp [h]
  simp only [skeleton, withNeuron_connections] at hn ⊢
  rw [hn]

theorem skeleton_withConnection (g : Graph) (c : ConnectionId) {f : Connection → Connection}
    (hf : ∀ d, (f d).gater = d.gater) : (g.withConnection c f).skeleton = g.skeleton := by
  unfold withConnection
  split
  · refine skeleton_withNeuron g c.source fun n _ => ?_
    simp [Neuron.skeleton, Neuron.clear, Connection.skeleton_eq (hf _)]
  · have hc : ({ g with connections := g.connections.modify c f } : Graph).skeleton.connections =
        g.skeleton.connections := SortedMap.eq_of_get?_eq fun c' => by
      simp only [skeleton_connections_get?, SortedMap.get?_modify]
      by_cases h : c = c'
      · subst h
        cases g.connections.get? c <;> simp [Connection.skeleton_eq (hf _)]
      · simp [h]
    simp only [skeleton] at hc ⊢
    rw [hc]

section Lookups

variable {g : Graph}

theorem neuron_eq_ok {id : NeuronId} {n : Neuron} (h : g.neurons.get? id = some n) :
    g.neuron id = .ok n := by
  rw [neuron, h]

theorem neuron_eq_error {id : NeuronId} (h : g.neurons.get? id = none) :
    g.neuron id = .error (.unknownNeuron id) := by
  rw [neuron, h]

theorem neuron_eq_ok_iff {id : NeuronId} {n : Neuron} :
    g.neuron id = .ok n ↔ g.neurons.get? id = some n := by
  refine ⟨fun h => ?_, neuron_eq_ok⟩
  cases hn : g.neurons.get? id with
  | some m => rw [Except.ok.inj ((neuron_eq_ok hn).symm.trans h)]
  | none => cases (neuron_eq_error hn).symm.trans h

theorem get?_of_contains {id : NeuronId} (h : g.neurons.contains id) :
    ∃ n, g.neurons.get? id = some n := Option.isSome_iff_exists.mp h

theorem contains_of_get? {id : NeuronId} {n : Neuron} (h : g.neurons.get? id = some n) :
    g.neurons.contains id := Option.isSome_iff_exists.mpr ⟨n, h⟩

theorem connection_eq_ok {c : ConnectionId} {d : Connection} (h : g.connection? c = some d) :
    g.connection c = .ok d := by
  unfold connection? at h
  unfold connection
  split at h
  · rename_i hs
    obtain ⟨n, hn, rfl⟩ := Option.map_eq_some_iff.mp h
    rw [if_pos hs, neuron_eq_ok hn]
    rfl
  · rename_i hs
    rw [if_neg hs, h]

def absence (c : ConnectionId) : NetworkError :=
  if c.isSelf then .unknownNeuron c.source else .unknownConnection c

theorem connection_eq_error {c : ConnectionId} (h : g.connection? c = none) :
    g.connection c = .error (absence c) := by
  unfold connection? at h
  unfold connection absence
  split at h
  · rename_i hs
    rw [if_pos hs, neuron_eq_error (Option.map_eq_none_iff.mp h), if_pos hs]
    rfl
  · rename_i hs
    rw [if_neg hs, h, if_neg hs]

@[simp] theorem isSelf_loop (id : NeuronId) : (ConnectionId.loop id).isSelf = true := by
  simp [ConnectionId.isSelf, ConnectionId.loop]

theorem eq_loop_of_isSelf {c : ConnectionId} (h : c.isSelf) : c = .loop c.source :=
  eq_of_isSelf h (isSelf_loop _) rfl

theorem connection?_loop (g : Graph) (id : NeuronId) :
    g.connection? (.loop id) = (g.neurons.get? id).map (·.selfConnection) := by
  simp [connection?, ConnectionId.loop, ConnectionId.isSelf]

theorem contains_loop (g : Graph) (id : NeuronId) :
    g.contains (.loop id) = (g.neurons.get? id).any (·.selfConnected) := by
  simp [contains, ConnectionId.loop, ConnectionId.isSelf]

theorem connection?_of_not_isSelf {c : ConnectionId} (h : c.isSelf = false) :
    g.connection? c = g.connections.get? c := by
  simp [connection?, h]

theorem contains_of_not_isSelf {c : ConnectionId} (h : c.isSelf = false) :
    g.contains c = g.connections.contains c := by
  simp [contains, h]

theorem connection?_isSome_of_contains {c : ConnectionId} (h : g.contains c) :
    (g.connection? c).isSome := by
  by_cases hs : c.isSelf
  · rw [eq_loop_of_isSelf hs] at h ⊢
    rw [contains_loop] at h
    rw [connection?_loop]
    cases hn : g.neurons.get? c.source with
    | none => simp [hn] at h
    | some n => simp
  · rw [contains_of_not_isSelf (Bool.eq_false_iff.mpr hs)] at h
    rwa [connection?_of_not_isSelf (Bool.eq_false_iff.mpr hs)]

/-- Which connections are there depends on the table and on what neurons say of themselves. -/
theorem contains_eq_of {g' : Graph}
    (hn : ∀ id, (g'.neurons.get? id).any (·.selfConnected) = (g.neurons.get? id).any (·.selfConnected))
    (hc : ∀ c, g'.connections.contains c = g.connections.contains c) (c : ConnectionId) :
    g'.contains c = g.contains c := by
  simp only [contains, hn, hc]

end Lookups

end Graph

end GatedNetwork
