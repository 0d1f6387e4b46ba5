import GatedNetwork.Network.Mutate
import GatedNetwork.Network.Copying
import GatedNetwork.Proofs.Graph.Lasting
import GatedNetwork.Proofs.Network.Founding
import GatedNetwork.Proofs.Network.Regrowing

/-! What outlasts the changes of a network. A change is made of edits of the graph, of new lists of
neurons and of draws. What outlasts those outlasts the change, and a change fails only as one of its
parts can fail or at a name that is not there. -/

namespace GatedNetwork

def Mutation.noise? : Mutation → Option Range
  | modifyRandomBias noise | modifyRandomWeight noise => some noise
  | _ => none

namespace Network

/-- The property of the network lasts as long as that of the graph does. -/
structure LastsWith (P : Network → Prop) (Q : Graph → Prop) (E : NetworkError → Prop) : Prop where
  tuning : Graph.LastsTuning Q E
  graph : ∀ net, P net → Q net.graph
  withGraph : ∀ net g random, P net → Q g → P { net with graph := g, random }
  restores : Endures P E restore

/-- It lasts when a layer is changed without getting neurons too, and a new weight may be drawn. -/
structure LastsEdits (P : Network → Prop) (Q : Graph → Prop) (E : NetworkError → Prop) : Prop
    extends LastsWith P Q E where
  edits : Graph.LastsEdits Q E
  mapLayer : ∀ net f ref, (∀ l : Layer, (f l).neurons ⊆ l.neurons) → P net → P (net.mapLayer f ref)
  weight : ∀ net, P net → Drawn E (drawWeight net.config)

section Questions

variable {net : Network}

theorem recoverable_layer (net : Network) (ref : LayerRef) : Recoverable (net.layer ref) := by
  intro e he
  cases ref with
  | input => cases he
  | output => cases he
  | hidden i =>
    simp only [layer] at he
    split at he
    · cases he
    · obtain rfl := Except.error.inj he
      rfl

theorem recoverable_gatePairs (net : Network) (gaters : List NeuronId) (link : Link)
    (gating : Gating) : Recoverable (net.gatePairs gaters link gating) := by
  have sized {α : Type} {n : Nat} {q : Except NetworkError α} (hq : Recoverable q) :
      Recoverable (if n = gaters.length then q else .error (.layerSizeMismatch n gaters.length)) := by
    intro e he
    split at he
    · exact hq e he
    · obtain rfl := Except.error.inj he
      rfl
  have found (l : Layer) (f : NeuronId → Neuron → List ConnectionId) : Recoverable (do
      let found ← (l.neurons.zip gaters).mapM fun p => do
        let n ← net.graph.neuron p.1
        return (f p.1 n).map (p.2, ·)
      return found.flatten) :=
    (recoverable_mapM fun p _ => (net.graph.recoverable_neuron p.1).bind fun _ =>
      recoverable_ok _).bind fun _ => recoverable_ok _
  cases gating with
  | input =>
    exact (net.recoverable_layer link.target).bind fun l =>
      sized (found l fun _ n => n.inputs.toList.filter (link.connections.contains ·))
  | output =>
    exact (net.recoverable_layer link.source).bind fun l =>
      sized (found l fun id n => (n.projected.toList ++ [ConnectionId.loop id]).filter
        (link.connections.contains ·))
  | oneToOne => exact sized (recoverable_ok _)

end Questions

section Tuning

variable {P : Network → Prop} {Q : Graph → Prop} {E : NetworkError → Prop} {α : Type}

theorem LastsWith.asks (h : LastsWith P Q E) {q : Network → Except NetworkError α}
    (hq : ∀ net, Recoverable (q net)) : Endures P E (ask q) :=
  endures_ask fun net e he => h.tuning.recoverable e (hq net e he)

theorem LastsWith.throws (h : LastsWith P Q E) {e : NetworkError} (he : e.isFatal = false) :
    Endures P E (throw e : Edit α) := endures_throw (h.tuning.recoverable e he)

theorem LastsWith.endures_onGraph (h : LastsWith P Q E) {act : Graph.Edit α} (ha : Endures Q E act) :
    Endures P E (onGraph act) :=
  endures_focus ha h.graph fun net g hnet hg => h.withGraph net g net.random hnet hg

theorem LastsWith.endures_onRandom (h : LastsWith P Q E) {act : Draw α} (drawn : Drawn E act) :
    Endures P E (onRandom act) :=
  endures_focus drawn (fun _ _ => trivial) fun net r hnet _ =>
    h.withGraph net net.graph r hnet (h.graph net hnet)

theorem LastsWith.endures_onGraphAndRandom (h : LastsWith P Q E)
    {act : EStateM NetworkError (Graph × RandomStream) α} (ha : Endures (fun s => Q s.1) E act) :
    Endures P E (onGraphAndRandom act) :=
  endures_focus ha h.graph fun net s hnet hs => h.withGraph net s.1 s.2 hnet hs

theorem LastsWith.restoring (h : LastsWith P Q E) {act : Edit α} (ha : Endures P E act) :
    Endures P E (do restore; act) := Endures.bind h.restores fun _ => ha

theorem LastsWith.naming (h : LastsWith P Q E) (id : NeuronId) {act : Neuron → Edit α}
    (ha : ∀ n, Endures P E (act n)) : Endures P E (ask (·.graph.neuron id) >>= act) :=
  Endures.bind (h.asks fun net => net.graph.recoverable_neuron id) ha

theorem LastsWith.linking (h : LastsWith P Q E) (c : ConnectionId) {act : Connection → Edit α}
    (ha : ∀ d, Endures P E (act d)) : Endures P E (ask (·.graph.connection c) >>= act) :=
  Endures.bind (h.asks fun net => net.graph.recoverable_connection c) ha

theorem LastsWith.layering (h : LastsWith P Q E) (ref : LayerRef) {act : Layer → Edit α}
    (ha : ∀ l, Endures P E (act l)) : Endures P E (ask (·.layer ref) >>= act) :=
  Endures.bind (h.asks fun net => net.recoverable_layer ref) ha

theorem LastsWith.endures_setBias (h : LastsWith P Q E) (id : NeuronId) (bias : Float) :
    Endures P E (setBias id bias) :=
  h.naming id fun _ => h.restoring (h.endures_onGraph (h.tuning.setBias id bias))

theorem LastsWith.endures_setSquash (h : LastsWith P Q E) (id : NeuronId) (squash : Squash) :
    Endures P E (setSquash id squash) :=
  h.naming id fun _ => h.restoring (h.endures_onGraph (h.tuning.setSquash id squash))

theorem LastsWith.endures_setWeight (h : LastsWith P Q E) (c : ConnectionId) (weight : Float) :
    Endures P E (setWeight c weight) := by
  refine endures_get fun net _ => endures_guard (h.tuning.recoverable _ rfl) ?_
  exact h.restoring (h.endures_onGraph (h.tuning.setWeight c weight))

theorem LastsWith.endures_disconnect (h : LastsWith P Q E) (source target : NeuronId) :
    Endures P E (disconnect source target) := by
  refine endures_get fun net _ => endures_guard (h.tuning.recoverable _ rfl) ?_
  exact h.restoring (h.endures_onGraph (h.tuning.disconnect source target))

theorem LastsWith.joining (h : LastsWith P Q E) {source target : NeuronId} {weight : Option Float}
    (ha : ∀ net, P net → Endures (fun s : Graph × RandomStream => Q s.1) E
      (Graph.project source target weight (drawWeight net.config))) :
    Endures P E (projectNeuron source target weight) := by
  refine h.naming source fun _ => h.naming target fun _ => ?_
  exact h.restoring (endures_get fun net hnet => h.endures_onGraphAndRandom (ha net hnet))

theorem LastsWith.endures_disconnectAll (h : LastsWith P Q E) : Endures P E disconnectAll :=
  h.restoring (endures_get fun _ _ => endures_forM fun c _ =>
    h.endures_onGraph (h.tuning.disconnect c.source c.target))

theorem LastsWith.endures_setLayerSquash (h : LastsWith P Q E) (ref : LayerRef) (squash : Squash) :
    Endures P E (setLayerSquash ref squash) :=
  h.layering ref fun l => h.restoring (h.endures_onGraph (l.endures_setSquash h.tuning squash))

theorem LastsWith.endures_setLayerBias (h : LastsWith P Q E) (ref : LayerRef) (bias : Float) :
    Endures P E (setLayerBias ref bias) :=
  h.layering ref fun l => h.restoring (h.endures_onGraph (l.endures_setBias h.tuning bias))

theorem LastsWith.picking (h : LastsWith P Q E) {β : Type} {xs : List α} {reason : Unavailability}
    {act : α → Edit β} (ha : ∀ x ∈ xs, Endures P E (act x)) : Endures P E (pick xs reason >>= act) := by
  intro net hnet
  obtain ⟨choice, r, run_eq, mem⟩ := choose_run xs net.random
  have drawn : (onRandom (Draw.choose xs)).run net = .ok choice { net with random := r } :=
    focus_of_ok run_eq
  have hnet' := h.withGraph net net.graph r hnet (h.graph net hnet)
  rw [pick, bind_assoc, bind_of_ok drawn]
  cases choice with
  | some x => exact ha x (mem x rfl) _ hnet'
  | none => exact h.throws rfl _ hnet'

theorem LastsWith.endures_pickPair (h : LastsWith P Q E) (xs : List α) (reason : Unavailability) :
    Endures P E (pickPair xs reason) := by
  refine endures_ite (h.throws rfl) ?_
  refine Endures.bind (h.endures_onRandom (chooses_choosePair _).drawn) fun places => ?_
  obtain ⟨i, j⟩ := places
  dsimp only
  split
  · exact endures_pure _
  · exact h.throws rfl

theorem LastsWith.validating (h : LastsWith P Q E) {noise : Range} {act : Edit α}
    (ha : noise.isValid → Endures P E act) : Endures P E (do validateNoise noise; act) := by
  unfold validateNoise Mutation.noiseFault?
  cases valid : noise.isValid with
  | true => exact ha valid
  | false => exact fun net hnet => h.throws rfl net hnet

theorem LastsWith.endures_swapWeight (h : LastsWith P Q E) : Endures P E swapWeight := by
  refine endures_get fun _ _ => Endures.bind (h.endures_pickPair _ _) fun ab => ?_
  refine h.linking ab.1 fun _ => h.linking ab.2 fun _ => ?_
  exact Endures.bind (h.endures_setWeight _ _) fun _ => h.endures_setWeight _ _

theorem LastsWith.endures_swapBias (h : LastsWith P Q E) : Endures P E swapBias := by
  refine endures_get fun _ _ => Endures.bind (h.endures_pickPair _ _) fun ab => ?_
  refine h.naming ab.1 fun _ => h.naming ab.2 fun _ => ?_
  exact Endures.bind (h.endures_setBias _ _) fun _ => h.endures_setBias _ _

theorem LastsWith.endures_modifyRandomBias (h : LastsWith P Q E) {noise : Range}
    (drawn : noise.isValid → Drawn E noise.draw) : Endures P E (modifyRandomBias noise) := by
  refine h.validating fun valid => endures_get fun _ _ => h.picking fun id _ => ?_
  refine Endures.bind (h.endures_onRandom (drawn valid)) fun _ => ?_
  exact h.naming id fun _ => h.endures_setBias _ _

theorem LastsWith.endures_modifyRandomWeight (h : LastsWith P Q E) {noise : Range}
    (drawn : noise.isValid → Drawn E noise.draw) : Endures P E (modifyRandomWeight noise) := by
  refine h.validating fun valid => endures_get fun _ _ => h.picking fun c _ => ?_
  refine Endures.bind (h.endures_onRandom (drawn valid)) fun _ => ?_
  exact h.linking c fun _ => h.endures_setWeight _ _

theorem LastsWith.endures_modifySquash (h : LastsWith P Q E) (allowed : List Squash) :
    Endures P E (modifySquash allowed) := by
  refine endures_get fun _ _ => h.picking fun id _ => h.naming id fun _ => ?_
  exact h.picking fun squash _ => h.endures_setSquash id squash

theorem LastsWith.endures_modifyConnections (h : LastsWith P Q E)
    (joins : ∀ net, P net → ∀ gap ∈ net.forwardGaps, Endures P E (projectNeuron gap.1 gap.2 none)) :
    Endures P E modifyConnections := by
  refine endures_get fun net hnet => ?_
  have change (remove : Bool) : Endures P E (if remove = true then do
        let c ← pick (net.connections.filter (!·.isSelf)) .noConnectionToChange
        disconnect c.source c.target
      else do
        let gap ← pick net.forwardGaps .noConnectionToChange
        let _ ← projectNeuron gap.1 gap.2 none) := by
    refine endures_ite ?_ ?_
    · exact h.picking fun c _ => h.endures_disconnect _ _
    · exact h.picking fun gap there =>
        Endures.bind (joins net hnet gap there) fun _ => endures_pure _
  dsimp only
  split
  · exact Endures.bind (h.throws rfl) change
  · exact Endures.bind (endures_pure _) change
  · exact Endures.bind (endures_pure _) change
  · exact Endures.bind (h.endures_onRandom chooses_coin.drawn) change

end Tuning

section Editing

variable {P : Network → Prop} {Q : Graph → Prop} {E : NetworkError → Prop} {α : Type}

theorem LastsEdits.endures_modifyLayer (h : LastsEdits P Q E) (ref : LayerRef) {f : Layer → Layer}
    (fewer : ∀ l, (f l).neurons ⊆ l.neurons) : Endures P E (modifyLayer ref f) :=
  h.layering ref fun _ => endures_modify fun net hnet => h.mapLayer net f ref fewer hnet

theorem LastsEdits.endures_noteWiring (h : LastsEdits P Q E) (ref target : LayerRef) :
    Endures P E (modifyLayer ref (·.noteWiring target)) :=
  h.endures_modifyLayer ref fun l => by rw [l.neurons_noteWiring]; exact List.Subset.refl _

theorem LastsEdits.endures_project (h : LastsEdits P Q E) (source target : LayerRef)
    (wiring : Option Wiring) (weight : Option Float) :
    Endures P E (project source target wiring weight) := by
  refine h.layering source fun sourceLayer => h.layering target fun targetLayer => ?_
  refine h.restoring (endures_get fun net hnet => ?_)
  refine Endures.bind (h.endures_onGraphAndRandom
    (sourceLayer.endures_projectOnto h.edits _ _ _ (h.weight net hnet))) fun _ => ?_
  exact Endures.bind (h.endures_noteWiring _ _) fun _ => endures_pure _

theorem LastsEdits.endures_projectNeuron (h : LastsEdits P Q E) (source target : NeuronId)
    (weight : Option Float) : Endures P E (projectNeuron source target weight) :=
  h.joining fun net hnet => h.edits.project source target weight _ (h.weight net hnet)

theorem LastsEdits.endures_gate (h : LastsEdits P Q E) (gater : LayerRef) (link : Link)
    (gating : Gating) : Endures P E (gate gater link gating) := by
  refine h.layering gater fun l => ?_
  refine Endures.bind (h.asks fun net => net.recoverable_gatePairs _ link gating) fun pairs => ?_
  refine endures_get fun net _ => Endures.bind (endures_forM fun p _ => ?_) fun _ => ?_
  · exact endures_ite (endures_pure _) (h.throws rfl)
  · exact h.restoring (endures_forM fun p _ => h.endures_onGraph (h.edits.gate p.1 p.2))

theorem LastsEdits.endures_gateConnection (h : LastsEdits P Q E) (gater : NeuronId)
    (c : ConnectionId) : Endures P E (gateConnection gater c) := by
  refine h.naming gater fun _ => endures_get fun _ _ =>
    endures_guard (h.tuning.recoverable _ rfl) ?_
  exact h.restoring (h.endures_onGraph (h.edits.gate gater c))

theorem LastsEdits.endures_connect (h : LastsEdits P Q E) : Endures P E connect :=
  endures_get fun _ _ => endures_forM fun p _ =>
    Endures.bind (h.endures_project p.1 p.2 _ _) fun _ => endures_pure _

theorem LastsEdits.endures_removeNeuron (h : LastsEdits P Q E) (id : NeuronId) :
    Endures P E (removeNeuron id) := by
  refine endures_get fun net _ => ?_
  split
  · exact h.throws rfl
  · refine h.restoring (Endures.bind (h.endures_onGraph (h.edits.removeNeuron id)) fun _ => ?_)
    exact h.endures_modifyLayer _ fun _ => List.erase_subset

end Editing

section Growing

variable {P : NeuronId → Network → Prop} {Q : NeuronId → Graph → Prop} {E : NetworkError → Prop}
  {floor : NeuronId} {α : Type}

/-- The property may speak of the ids that have been given away. It lasts when the next of them is
given to a new neuron and when layers get neurons with ids from the floor on, and a new bias may be
drawn. -/
structure LastsGrowth (P : NeuronId → Network → Prop) (Q : NeuronId → Graph → Prop)
    (E : NetworkError → Prop) (floor : NeuronId) : Prop where
  edits : ∀ bound, LastsEdits (P bound) (Q bound) E
  withLayers : ∀ bound net input hidden output,
    (∀ ref, ∀ id ∈ ({ net with input, hidden, output } : Network).members ref,
      id ∈ net.members ref ∨ floor ≤ id) →
    P bound net → P bound { net with input, hidden, output }
  withNeuron : ∀ bound net squash bias, P bound net →
    P (bound + 1) { net with graph := net.graph.addNeuron bound squash bias }
  bias : ∀ bound net, P bound net → Drawn E net.config.biasInit.draw

/-- The property holds for the ids that have been given away so far. -/
def Grown (P : NeuronId → Network → Prop) (floor : NeuronId) (s : IdSupply × Network) : Prop :=
  floor ≤ s.1.next ∧ P s.1.next s.2

theorem endures_lift {act : Edit α} (ha : ∀ bound, Endures (P bound) E act) :
    Endures (Grown P floor) E (lift act) := fun s hs =>
  ends_focus ((ha s.1.next s.2 hs.2).mono (fun _ _ kept => ⟨hs.1, kept⟩)
    fun _ _ kept => ⟨kept.1, hs.1, kept.2⟩)

theorem LastsGrowth.addNeuronToGraph_ends (h : LastsGrowth P Q E floor) (squash : Squash) (bias : Float) :
    Ends (Grown P floor) (addNeuronToGraph squash bias) (fun id s => floor ≤ id ∧ Grown P floor s)
      (fun e s => E e ∧ Grown P floor s) := fun s hs =>
  ⟨hs.1, Nat.le_succ_of_le hs.1, h.withNeuron s.1.next s.2 squash bias hs.2⟩

theorem LastsGrowth.freshNeuron_ends (h : LastsGrowth P Q E floor) :
    Ends (Grown P floor) freshNeuron (fun id s => floor ≤ id ∧ Grown P floor s)
      (fun e s => E e ∧ Grown P floor s) := by
  intro s hs
  rw [freshNeuron, bind_of_ok (get_run s)]
  refine Ends.bind (endures_lift fun bound => ?_) (fun _ => h.addNeuronToGraph_ends _ _) s hs
  exact (h.edits bound).endures_onRandom (h.bias s.1.next s.2 hs.2)

theorem LastsGrowth.freshLayer_ends (h : LastsGrowth P Q E floor) (size : Nat) :
    Ends (Grown P floor) (freshLayer size) (fun l s => (∀ id ∈ l.neurons, floor ≤ id) ∧ Grown P floor s)
      (fun e s => E e ∧ Grown P floor s) :=
  Ends.bind (ends_mapM_all fun _ _ => h.freshNeuron_ends) fun _ => ends_pure fun _ hs => hs

theorem LastsGrowth.endures_relayer (h : LastsGrowth P Q E floor)
    (f : Network → Layer × Array Layer × Layer)
    (fresh : ∀ (net : Network) ref, ∀ id ∈ ({ net with
      input := (f net).1, hidden := (f net).2.1, output := (f net).2.2 } : Network).members ref,
      id ∈ net.members ref ∨ floor ≤ id) :
    Endures (Grown P floor) E (modify fun (s, net) =>
      (s, { net with input := (f net).1, hidden := (f net).2.1, output := (f net).2.2 })) :=
  endures_modify fun s hs => ⟨hs.1, h.withLayers _ _ _ _ _ (fresh s.2) hs.2⟩

theorem Endures.growing {β : Type} {act : Growth α} {S : α → Prop} {f : α → Growth β}
    (ha : Ends (Grown P floor) act (fun x s => S x ∧ Grown P floor s) (fun e s => E e ∧ Grown P floor s))
    (hf : ∀ x, S x → Endures (Grown P floor) E (f x)) : Endures (Grown P floor) E (act >>= f) :=
  Ends.bind ha fun x s hs => hf x hs.1 s hs.2

theorem LastsGrowth.endures_push (h : LastsGrowth P Q E floor) {l : Layer}
    (fresh : ∀ id ∈ l.neurons, floor ≤ id) : Endures (Grown P floor) E
      (modify fun (s, net) => (s, { net with hidden := net.hidden.push l })) :=
  h.endures_relayer (fun net => (net.input, net.hidden.push l, net.output)) fun _ _ id hid =>
    (mem_members_push hid).imp_right (fresh id)

theorem LastsGrowth.endures_lay (h : LastsGrowth P Q E floor) (input : Nat) (hidden : List Nat)
    (output : Nat) : Endures (Grown P floor) E (lay input hidden output) := by
  refine endures_get fun _ _ =>
    Endures.growing (ends_mapM_all fun _ _ => h.addNeuronToGraph_ends _ _) fun ids fresh => ?_
  refine Endures.bind (h.endures_relayer (fun net => ({ neurons := ids }, net.hidden, net.output))
    fun _ ref id hid => ?_) fun _ => ?_
  · cases ref with
    | input => exact .inr (fresh id hid)
    | _ => exact .inl hid
  refine Endures.bind (endures_forM fun size _ =>
    Endures.growing (h.freshLayer_ends size) fun l fresh => h.endures_push fresh) fun _ => ?_
  refine Endures.growing (h.freshLayer_ends output) fun l fresh =>
    h.endures_relayer (fun net => (net.input, net.hidden, l)) fun _ ref id hid => ?_
  cases ref with
  | output => exact .inr (fresh id hid)
  | _ => exact .inl hid

theorem LastsGrowth.endures_addHiddenLayer (h : LastsGrowth P Q E floor) (size : Nat) :
    Endures (Grown P floor) E (addHiddenLayer size) := by
  refine Endures.bind (endures_lift fun bound => (h.edits bound).restores) fun _ => ?_
  exact Endures.growing (h.freshLayer_ends size) fun l fresh => Endures.bind (h.endures_push fresh)
    fun _ => endures_get fun _ _ => endures_pure _

theorem LastsGrowth.endures_add (h : LastsGrowth P Q E floor) (ref : LayerRef) {id : NeuronId}
    (fresh : floor ≤ id) : Endures (Grown P floor) E (lift (modifyLayer ref (·.add id))) :=
  endures_lift fun bound => (h.edits bound).layering ref fun _ => endures_modify fun net hnet => by
    have grown (ref' : LayerRef) : ∀ x ∈ (net.mapLayer (·.add id) ref).members ref',
        x ∈ net.members ref' ∨ floor ≤ x := fun x hx => mem_members_mapLayer (fun l y hy => by
      rcases List.mem_append.mp hy with old | new
      · exact .inl old
      · exact .inr (List.mem_singleton.mp new ▸ fresh)) hx
    cases ref <;> exact h.withLayers bound net _ _ _ grown hnet

theorem LastsGrowth.endures_layer (h : LastsGrowth P Q E floor) (ref : LayerRef) :
    Endures (Grown P floor) E (lift (ask (·.layer ref))) :=
  endures_lift fun bound => (h.edits bound).asks fun net => net.recoverable_layer ref

theorem LastsGrowth.endures_addNeuron (h : LastsGrowth P Q E floor) (ref : LayerRef) :
    Endures (Grown P floor) E (addNeuron ref) := by
  refine Endures.bind (h.endures_layer ref) fun _ => ?_
  refine Endures.bind (endures_lift fun bound => (h.edits bound).restores) fun _ => ?_
  exact Endures.growing h.freshNeuron_ends fun id fresh => Endures.bind (h.endures_add ref fresh)
    fun _ => endures_pure _

theorem LastsGrowth.endures_addHiddenNeuron (h : LastsGrowth P Q E floor) (i : Nat) :
    Endures (Grown P floor) E (addHiddenNeuron i) := by
  refine endures_get fun _ _ => Endures.bind (h.endures_addNeuron _) fun id => ?_
  have wires (f : NeuronId → NeuronId × NeuronId) (xs : List NeuronId) :
      Endures (Grown P floor) E (lift (xs.forM fun x => do
        let _ ← projectNeuron (f x).1 (f x).2 none)) :=
    endures_lift fun bound => endures_forM fun x _ =>
      Endures.bind ((h.edits bound).endures_projectNeuron _ _ _) fun _ => endures_pure _
  refine Endures.bind (h.endures_layer _) fun before => Endures.bind (wires (·, id) _) fun _ => ?_
  exact Endures.bind (h.endures_layer _) fun after => wires (id, ·) _

theorem LastsGrowth.endures_modifyNeurons (h : LastsGrowth P Q E floor) :
    Endures (Grown P floor) E modifyNeurons := by
  rintro ⟨ids, net⟩ hs
  have redrawn (r : RandomStream) : Grown P floor (ids, { net with random := r }) :=
    ⟨hs.1, (h.edits ids.next).withGraph net net.graph r hs.2 ((h.edits ids.next).graph net hs.2)⟩
  rcases modifyNeurons_cases ids net with ⟨-, run_eq⟩ | ⟨i, -, r, -, run_eq | ⟨-, id, -, run_eq⟩⟩
  · rw [run_eq]
    exact ⟨(h.edits ids.next).tuning.recoverable _ rfl, hs⟩
  · rw [run_eq]
    exact h.endures_addHiddenNeuron i _ (redrawn r)
  · rw [run_eq]
    exact endures_lift (fun bound => (h.edits bound).endures_removeNeuron id) _ (redrawn r)

theorem LastsGrowth.endures_mutate (h : LastsGrowth P Q E floor) {m : Mutation}
    (drawn : ∀ noise, m.noise? = some noise → noise.isValid → Drawn E noise.draw) :
    Endures (Grown P floor) E (mutate m) := by
  refine Endures.bind (endures_lift fun bound => (h.edits bound).restores) fun _ => ?_
  cases m with
  | swapWeight => exact endures_lift fun bound => (h.edits bound).endures_swapWeight
  | swapBias => exact endures_lift fun bound => (h.edits bound).endures_swapBias
  | modifyRandomBias noise =>
    exact endures_lift fun bound => (h.edits bound).endures_modifyRandomBias (drawn noise rfl)
  | modifyRandomWeight noise =>
    exact endures_lift fun bound => (h.edits bound).endures_modifyRandomWeight (drawn noise rfl)
  | modifyNeurons => exact h.endures_modifyNeurons
  | modifyConnections =>
    exact endures_lift fun bound => (h.edits bound).endures_modifyConnections fun _ _ gap _ =>
      (h.edits bound).endures_projectNeuron gap.1 gap.2 none
  | modifySquash allowed =>
    exact endures_lift fun bound => (h.edits bound).endures_modifySquash allowed

theorem LastsEdits.endures_addRecord {P : Network → Prop} {Q : Graph → Prop} (h : LastsEdits P Q E)
    (made : Array (NeuronId × LayerRef)) (r : ConnectionRecord) :
    Endures P E (addRecord made r) := by
  refine Endures.bind (h.endures_onGraphAndRandom
    (h.edits.project _ _ _ _ (chooses_pure r.weight).drawn)) fun c => ?_
  cases r.gater with
  | none => exact h.endures_noteWiring _ _
  | some i =>
    exact Endures.bind (h.endures_onGraph (h.edits.gate _ _)) fun _ => h.endures_noteWiring _ _

theorem LastsGrowth.endures_rebuild (h : LastsGrowth P Q E floor) (s : Snapshot) :
    Endures (Grown P floor) E (rebuild s) := by
  refine Endures.bind (h.endures_relayer (fun net =>
    (net.input, Array.replicate s.hiddenCount {}, net.output)) fun _ ref id hid => ?_) fun _ => ?_
  · cases ref with
    | hidden i =>
      simp only [members, Array.getElem?_replicate] at hid
      split at hid <;> cases hid
    | _ => exact .inl hid
  refine Endures.bind (endures_mapM fun r _ => ?_) fun made => ?_
  · exact Endures.growing (h.addNeuronToGraph_ends _ _) fun id fresh =>
      Endures.bind (h.endures_add _ fresh) fun _ => endures_pure _
  · exact endures_forM fun r _ => endures_lift fun bound =>
      (h.edits bound).endures_addRecord made.toArray r

end Growing

section Describing

variable {net : Network}

theorem recoverable_placeOf (ids : List NeuronId) (id : NeuronId) : Recoverable (placeOf ids id) := by
  intro e he
  unfold placeOf at he
  split at he
  · cases he
  · obtain rfl := Except.error.inj he
    rfl

theorem recoverable_toSnapshot (net : Network) : Recoverable net.toSnapshot := by
  refine (recoverable_mapM fun p _ => ?_).bind fun _ => (recoverable_mapM fun c _ => ?_).bind fun _ =>
    recoverable_ok _
  · exact (net.graph.recoverable_neuron p.1).bind fun _ => recoverable_ok _
  · refine (net.graph.recoverable_connection c).bind fun d => ?_
    refine (recoverable_placeOf _ _).bind fun _ => (recoverable_placeOf _ _).bind fun _ => ?_
    refine Recoverable.bind ?_ fun _ => recoverable_ok _
    cases d.gater with
    | none => exact recoverable_ok _
    | some x => exact (recoverable_placeOf _ x).bind fun _ => recoverable_ok _

end Describing

section Founding

variable {P : NeuronId → Network → Prop} {Q : NeuronId → Graph → Prop} {E : NetworkError → Prop}
  {config : Config} {ids : IdSupply}

/-- Ids are only taken, the new network has the property, and a failure is one of those. -/
def Founded (P : NeuronId → Network → Prop) (E : NetworkError → Prop) (ids : IdSupply)
    (r : EStateM.Result NetworkError IdSupply Network) : Prop :=
  Ending (fun net ids' => Grown P ids.next (ids', net)) (fun e ids' => E e ∧ ids.next ≤ ids'.next) r

theorem recoverable_validate (config : Config) : Recoverable config.validate := by
  intro e he
  unfold Config.validate at he
  split at he
  · obtain rfl := Except.error.inj he
    rfl
  · cases he

theorem recoverable_valid (s : Snapshot) : Recoverable s.validate := by
  intro e he
  unfold Snapshot.validate at he
  split at he
  · obtain rfl := Except.error.inj he
    rfl
  · cases he

theorem LastsGrowth.founded_grow (h : LastsGrowth P Q E ids.next) {act : Growth Unit}
    (endures : Endures (Grown P ids.next) E act)
    (start : config.validate = .ok () → P ids.next (blank config)) :
    Founded P E ids ((grow config act).run ids) := by
  cases hv : config.validate with
  | error e =>
    rw [grow_of_invalid hv]
    exact ⟨(h.edits 0).tuning.recoverable e (recoverable_validate config e hv), Nat.le_refl ids.next⟩
  | ok =>
    have ending := endures (ids, blank config) ⟨Nat.le_refl _, start hv⟩
    cases hr : act.run (ids, blank config) with
    | ok _ s =>
      rw [grow_of_ok hv hr]
      exact ending.of_eq_ok hr
    | error e s =>
      rw [grow_of_error hv hr]
      exact ⟨(ending.of_eq_error hr).1, (ending.of_eq_error hr).2.1⟩

theorem LastsGrowth.asking (h : LastsGrowth P Q E ids.next) {α : Type} {q : Except NetworkError α}
    (hq : Recoverable q) {act : α → EStateM NetworkError IdSupply Network}
    (ha : ∀ x, Founded P E ids ((act x).run ids)) :
    Founded P E ids ((ask (fun _ => q) >>= act).run ids) := by
  cases hq' : q with
  | error e =>
    rw [bind_of_error (ask_fixed_of_error rfl ids)]
    exact ⟨(h.edits 0).tuning.recoverable e (hq e hq'), Nat.le_refl ids.next⟩
  | ok x =>
    rw [bind_of_ok (ask_fixed_of_ok rfl ids)]
    exact ha x

theorem LastsGrowth.founded_ofSnapshot (h : LastsGrowth P Q E ids.next) (s : Snapshot)
    (start : config.validate = .ok () → P ids.next (blank config)) :
    Founded P E ids ((ofSnapshot s config).run ids) :=
  h.asking (recoverable_valid s) fun _ => h.founded_grow (h.endures_rebuild s) start

theorem LastsGrowth.founded_copy (h : LastsGrowth P Q E ids.next) {net : Network}
    (start : net.config.validate = .ok () → P ids.next (blank net.config)) :
    Founded P E ids (net.copy.run ids) :=
  h.asking net.recoverable_toSnapshot fun s => h.founded_ofSnapshot s start

theorem LastsGrowth.founded_merge (h : LastsGrowth P Q E ids.next) (first second : Network)
    (start : config.validate = .ok () → P ids.next (blank config)) :
    Founded P E ids ((first.merge second config).run ids) := by
  by_cases sizes : first.output.size = second.input.size
  · rw [merge_run sizes]
    exact h.asking first.recoverable_toSnapshot fun a =>
      h.asking second.recoverable_toSnapshot fun b => h.founded_ofSnapshot _ start
  · rw [merge, if_neg sizes]
    exact ⟨(h.edits 0).tuning.recoverable _ rfl, Nat.le_refl ids.next⟩

end Founding

end Network

end GatedNetwork
