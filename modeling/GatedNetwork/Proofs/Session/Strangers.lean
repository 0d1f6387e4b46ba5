import GatedNetwork.Proofs.Session.Owning

/-! Neurons that a network does not have. Whoever names one is told that it is unknown, or that nothing
connects it, and nothing has happened: not to the network and not to another one that may have a neuron
of that id. Links are named as a whole, and of a link of strangers nothing is gated. -/

namespace GatedNetwork

open Network

def Call.names : Call → List NeuronId
  | projectNeuron source target _ | disconnect source target => [source, target]
  | gateConnection gater c => [gater, c.source, c.target]
  | setWeight c _ => [c.source, c.target]
  | removeNeuron id | setBias id _ | setSquash id _ => [id]
  | _ => []

def NetworkError.missing : NetworkError → List NeuronId
  | unknownNeuron id => [id]
  | unknownConnection c => [c.source, c.target]
  | notConnected source target => [source, target]
  | _ => []

namespace Network

def Denies (net : Network) (e : NetworkError) : Prop :=
  ∃ lost ∈ e.missing, ¬ net.graph.neurons.contains lost

/-- The action fails at a neuron that the network does not have, and changes nothing. -/
def Rejects {α : Type} (net : Network) (act : Edit α) : Prop :=
  ∃ e, net.Denies e ∧ act.run net = .error e net

section Naming

variable {α : Type} {net : Network} {id : NeuronId} {c : ConnectionId} {act : Edit α}

theorem denies_unknownNeuron (lost : ¬ net.graph.neurons.contains id) : net.Denies (.unknownNeuron id) :=
  ⟨id, List.mem_singleton_self id, lost⟩

theorem get?_of_lost (lost : ¬ net.graph.neurons.contains id) : net.graph.neurons.get? id = none :=
  Option.not_isSome_iff_eq_none.mp lost

theorem connection?_of_lost (linked : net.graph.Linked) (named : id = c.source ∨ id = c.target)
    (lost : ¬ net.graph.neurons.contains id) : net.graph.connection? c = none := by
  cases held : net.graph.connection? c with
  | none => rfl
  | some d =>
    obtain ⟨source, target⟩ := linked.ends held
    rcases named with rfl | rfl
    · exact absurd source lost
    · exact absurd target lost

theorem not_contains_of_lost (linked : net.graph.Linked) (named : id = c.source ∨ id = c.target)
    (lost : ¬ net.graph.neurons.contains id) : ¬ net.graph.contains c := fun there => by
  have held := Graph.connection?_isSome_of_contains there
  rw [connection?_of_lost linked named lost] at held
  cases held

theorem denies_absence (named : id = c.source ∨ id = c.target)
    (lost : ¬ net.graph.neurons.contains id) : net.Denies (Graph.absence c) := by
  refine ⟨id, ?_, lost⟩
  unfold Graph.absence
  split
  · rename_i loop
    have same : c.source = c.target := beq_iff_eq.mp loop
    rcases named with rfl | rfl
    · exact List.mem_singleton_self _
    · exact same ▸ List.mem_singleton_self _
  · simpa [NetworkError.missing] using named

theorem rejects_neuron {f : Neuron → Edit α} (lost : ¬ net.graph.neurons.contains id) :
    net.Rejects (ask (·.graph.neuron id) >>= f) :=
  ⟨_, denies_unknownNeuron lost, bind_of_error (ask_graph_neuron_error (get?_of_lost lost))⟩

theorem Rejects.behind (rejects : net.Rejects act) :
    net.Rejects (ask (·.graph.neuron id) >>= fun _ => act) := by
  by_cases there : net.graph.neurons.contains id
  · obtain ⟨n, hn⟩ := Graph.get?_of_contains there
    obtain ⟨e, denies, run_eq⟩ := rejects
    exact ⟨e, denies, (bind_of_ok (ask_graph_neuron hn)).trans run_eq⟩
  · exact rejects_neuron there

theorem rejects_connection {e : NetworkError} {f : PUnit → Edit α} (absent : ¬ net.graph.contains c)
    (denies : net.Denies e) :
    net.Rejects (get >>= fun n => if n.graph.contains c then f ⟨⟩ else throw e >>= f) :=
  ⟨e, denies, by rw [bind_of_ok (get_run net), if_neg absent]; rfl⟩

theorem rejects_removeNeuron (nowhere : net.layerOf id = none) (lost : ¬ net.graph.neurons.contains id) :
    net.Rejects (removeNeuron id) := by
  refine ⟨_, denies_unknownNeuron lost, ?_⟩
  rw [removeNeuron, bind_of_ok (get_run net), nowhere]
  rfl

theorem Rejects.reply (rejects : net.Rejects act) (f : α → Reply) (ids : IdSupply) :
    ∃ e, net.Denies e ∧
      (do let x ← lift act; return f x : Growth Reply).run (ids, net) = .error e (ids, net) := by
  obtain ⟨e, denies, run_eq⟩ := rejects
  exact ⟨e, denies, bind_of_error (lift_of_error run_eq)⟩

/-- A call is not carried out if one of the neurons that it names is not there. -/
theorem rejects_perform (linked : net.graph.Linked) (nowhere : net.layerOf id = none)
    (lost : ¬ net.graph.neurons.contains id) {call : Call} (named : id ∈ call.names) (ids : IdSupply) :
    ∃ e, net.Denies e ∧ call.perform.run (ids, net) = .error e (ids, net) := by
  have unknown {c : ConnectionId} (named : id = c.source ∨ id = c.target) :
      net.Denies (.unknownConnection c) := ⟨id, by simpa [NetworkError.missing] using named, lost⟩
  cases call with
  | projectNeuron source target weight =>
    refine Rejects.reply ?_ .connection ids
    rcases List.mem_cons.mp named with rfl | named
    · exact rejects_neuron lost
    · obtain rfl := List.mem_singleton.mp named
      exact (rejects_neuron lost).behind
  | gateConnection gater c =>
    refine Rejects.reply ?_ (fun _ => .done) ids
    rcases List.mem_cons.mp named with rfl | named
    · exact rejects_neuron lost
    · have named : id = c.source ∨ id = c.target := by simpa using named
      exact (rejects_connection (not_contains_of_lost linked named lost) (unknown named)).behind
  | disconnect source target =>
    have named : id = source ∨ id = target := by simpa [Call.names] using named
    have absent := not_contains_of_lost (c := ⟨source, target⟩) linked named lost
    exact Rejects.reply (rejects_connection absent ⟨id, by simpa [NetworkError.missing] using named, lost⟩)
      (fun _ => .done) ids
  | setWeight c weight =>
    have named : id = c.source ∨ id = c.target := by simpa [Call.names] using named
    exact Rejects.reply (rejects_connection (not_contains_of_lost linked named lost) (unknown named))
      (fun _ => .done) ids
  | removeNeuron x =>
    obtain rfl := List.mem_singleton.mp named
    exact (rejects_removeNeuron nowhere lost).reply (fun _ => .done) ids
  | setBias x bias =>
    obtain rfl := List.mem_singleton.mp named
    exact Rejects.reply (rejects_neuron lost) (fun _ => .done) ids
  | setSquash x squash =>
    obtain rfl := List.mem_singleton.mp named
    exact Rejects.reply (rejects_neuron lost) (fun _ => .done) ids
  | _ => cases named

end Naming

section Linking

variable {bound : NeuronId} {net bare : Network} {link : Link} {gating : Gating}

theorem mem_link_of_gatePairs {gaters : List NeuronId} {pairs : List (NeuronId × ConnectionId)}
    (h : net.gatePairs gaters link gating = .ok pairs) {p : NeuronId × ConnectionId} (hp : p ∈ pairs) :
    p.2 ∈ link.connections := by
  cases gating with
  | input =>
    obtain ⟨-, found⟩ := mem_found_iff link.target
      (fun _ n => n.inputs.toList.filter (link.connections.contains ·)) h
    obtain ⟨id, n, -, -, listed⟩ := (found p.1 p.2).mp hp
    simpa using (List.mem_filter.mp listed).2
  | output =>
    obtain ⟨-, found⟩ := mem_found_iff link.source (fun id n =>
      (n.projected.toList ++ [ConnectionId.loop id]).filter (link.connections.contains ·)) h
    obtain ⟨id, n, -, -, listed⟩ := (found p.1 p.2).mp hp
    simpa using (List.mem_filter.mp listed).2
  | oneToOne =>
    simp only [gatePairs] at h
    split at h
    · obtain rfl := Except.ok.inj h
      exact (List.of_mem_zip hp).2
    · cases h

theorem StandsFor.gate_strangers (h : bare.StandsFor net) (sound : bare.Sound bound []) (gater : LayerRef)
    (absent : ∀ c ∈ link.connections, ¬ net.graph.contains c) :
    (gate gater link gating).run net = .ok () net.settled ∨
      ∃ e, (gate gater link gating).run net = .error e net := by
  rcases h.gate_cases sound gater link gating with ⟨l, pairs, -, found, there, run_eq⟩ | ⟨-, fails⟩
  · obtain rfl : pairs = [] := List.eq_nil_iff_forall_not_mem.mpr fun p hp =>
      absent p.2 (mem_link_of_gatePairs found hp) (there p hp)
    rw [h.settled_eq sound]
    exact .inl run_eq
  · exact .inr fails

end Linking

end Network

namespace World

/-- What comes of naming a neuron to a network that does not have it. -/
structure Disowns (w : World) (i : Nat) (net : Network) (id : NeuronId) : Prop where
  neuron : net.graph.neuron id = .error (.unknownNeuron id)
  layer : net.layerOf id = none
  connection : ∀ c : ConnectionId, id = c.source ∨ id = c.target →
    ∃ e, net.Denies e ∧ net.graph.connection c = .error e
  call : ∀ c : Call, id ∈ c.names → ∃ e, net.Denies e ∧ w.step (.call i c) = (.error e, w)

/-- What comes of a link between neurons of which the network does not have both. -/
def DisownsLinks (w : World) (i : Nat) (net : Network) : Prop :=
  ∀ gater link gating,
    (∀ c ∈ link.connections, ¬ (w.Denotes i c.source ∧ w.Denotes i c.target)) →
      w.step (.call i (.gate gater link gating)) =
          (.ok .done, { w with networks := w.networks.set i net.settled }) ∨
        ∃ e, w.step (.call i (.gate gater link gating)) = (.error e, w)

section Calls

variable {w w' : World} {i : Nat} {id : NeuronId} {net : Network}

theorem denotes_iff (hi : w.networks[i]? = some net) :
    w.Denotes i id ↔ net.graph.neurons.contains id := by
  constructor
  · rintro ⟨_, same, there⟩
    obtain rfl := Option.some.inj (hi.symm.trans same)
    exact there
  · exact fun there => ⟨net, hi, there⟩

theorem step_of_error (hi : w.networks[i]? = some net) {c : Call} {e : NetworkError}
    (run_eq : c.perform.run (w.ids, net) = .error e (w.ids, net)) : w.step (.call i c) = (.error e, w) := by
  obtain ⟨bounded, rfl⟩ := List.getElem?_eq_some_iff.mp hi
  simp only [step, hi, act, run_eq, List.set_getElem_self]

theorem Twins.linked (h : w.Twins w') (hi : w.networks[i]? = some net) : net.graph.Linked := by
  obtain ⟨bare, sound, stands⟩ := h.stands_at hi
  exact (stands.consistent sound).toLinked

theorem Twins.disowns (h : w.Twins w') (hi : w.networks[i]? = some net) (lost : ¬ w.Denotes i id) :
    w.Disowns i net id := by
  have lost := mt (denotes_iff hi).mpr lost
  have linked := h.linked hi
  have nowhere : net.layerOf id = none := by
    cases found : net.layerOf id with
    | none => rfl
    | some ref =>
      obtain ⟨l, hl, member⟩ := exists_layer_of_layerOf found
      exact absurd ((h.contains_iff hi).mpr ⟨ref, members_of_layer hl ▸ member⟩) lost
  refine ⟨Graph.neuron_eq_error (get?_of_lost lost), nowhere, fun c named => ?_, fun c named => ?_⟩
  · exact ⟨_, denies_absence named lost, Graph.connection_eq_error (connection?_of_lost linked named lost)⟩
  · obtain ⟨e, denies, run_eq⟩ := rejects_perform linked nowhere lost named w.ids
    exact ⟨e, denies, step_of_error hi run_eq⟩

theorem Twins.disownsLinks (h : w.Twins w') (hi : w.networks[i]? = some net) : w.DisownsLinks i net := by
  intro gater link gating strange
  obtain ⟨bare, sound, stands⟩ := h.stands_at hi
  have absent (c : ConnectionId) (hc : c ∈ link.connections) : ¬ net.graph.contains c := fun there => by
    obtain ⟨source, target⟩ := (h.linked hi).ends_of_contains there
    exact strange c hc ⟨(denotes_iff hi).mpr source, (denotes_iff hi).mpr target⟩
  rcases stands.gate_strangers sound gater absent with run_eq | ⟨e, run_eq⟩
  · have done : (Call.gate gater link gating).perform.run (w.ids, net) = .ok .done (w.ids, net.settled) :=
      bind_of_ok (lift_of_ok run_eq)
    refine .inl ?_
    simp only [World.step, hi, World.act, done]
  · exact .inr ⟨e, step_of_error hi (bind_of_error (lift_of_error run_eq))⟩

end Calls

end World

end GatedNetwork
