import GatedNetwork.Network.Mutate
import GatedNetwork.Proofs.Network.Editing
import GatedNetwork.Proofs.Network.Growing

/-! Mutations. A mutation takes the numbers back before it chooses, so its choices and the
numbers it moves are those of the bare network. -/

namespace GatedNetwork

namespace Network

section Choices

variable {bound : NeuronId} {α β : Type}

/-- Networks without programs answer alike and end as twins. -/
def Settled (bound : NeuronId) (act : Edit α) : Prop :=
  Relates (Paired bound []) (fun _ => Twins bound) (Twins bound) act

theorem Oblivious.settled {act : Edit α} (h : Oblivious bound act) : Settled bound act :=
  h.mono Paired.twins_of (fun _ _ _ h => h) fun _ _ h => h

theorem Steady.bind_settled {a : Edit α} {f : α → Edit β} (ha : Steady bound a)
    (hf : ∀ x, Settled bound (f x)) : Settled bound (a >>= f) := Relates.bind ha hf

theorem settled_get {f : Network → Edit α} (blind : ∀ net mode, f (net.withMode mode) = f net)
    (hf : ∀ net : Network, Settled bound (f net)) : Settled bound (get >>= f) := by
  refine relates_get (fun a b h => ?_) fun net => (hf net).mono (fun _ _ h => h.1)
    (fun _ _ _ h => h) fun _ _ h => h
  obtain ⟨-, mode, rfl⟩ := h
  exact (blind a mode).symm

theorem steady_pick (xs : List α) (reason : Unavailability) : Steady bound (pick xs reason) := by
  refine Relates.bind (steady_onRandom _) fun choice => ?_
  cases choice with
  | some x => exact steady_pure x
  | none => exact steady_throw _

theorem steady_pickPair (xs : List α) (reason : Unavailability) :
    Steady bound (pickPair xs reason) := by
  refine relates_ite (steady_throw _) (Relates.bind (steady_onRandom _) fun places => ?_)
  obtain ⟨i, j⟩ := places
  simp only
  cases xs[i]? with
  | none => exact steady_throw _
  | some x =>
    cases xs[j]? with
    | none => exact steady_throw _
    | some y => exact steady_pure _

theorem steady_validateNoise (noise : Range) : Steady bound (validateNoise noise) := by
  unfold validateNoise
  split
  · exact steady_throw _
  · exact steady_pure _

theorem settled_swapWeight : Settled bound swapWeight :=
  settled_get (fun _ _ => rfl) fun _ => (steady_pickPair _ _).bind_settled fun _ =>
    (steady_ask fun _ _ => rfl).bind_settled fun _ => (steady_ask fun _ _ => rfl).bind_settled fun _ =>
      Relates.bind (oblivious_setWeight _ _).settled fun _ => oblivious_setWeight _ _

theorem settled_swapBias : Settled bound swapBias :=
  settled_get (fun _ _ => rfl) fun _ => (steady_pickPair _ _).bind_settled fun _ =>
    (steady_ask fun _ _ => rfl).bind_settled fun _ => (steady_ask fun _ _ => rfl).bind_settled fun _ =>
      Relates.bind (oblivious_setBias _ _).settled fun _ => oblivious_setBias _ _

theorem settled_modifyRandomBias (noise : Range) : Settled bound (modifyRandomBias noise) :=
  (steady_validateNoise noise).bind_settled fun _ => settled_get (fun _ _ => rfl) fun _ =>
    (steady_pick _ _).bind_settled fun id => (steady_onRandom _).bind_settled fun _ =>
      (steady_ask fun _ _ => rfl).bind_settled fun _ => (oblivious_setBias id _).settled

theorem settled_modifyRandomWeight (noise : Range) : Settled bound (modifyRandomWeight noise) :=
  (steady_validateNoise noise).bind_settled fun _ => settled_get (fun _ _ => rfl) fun _ =>
    (steady_pick _ _).bind_settled fun c => (steady_onRandom _).bind_settled fun _ =>
      (steady_ask fun _ _ => rfl).bind_settled fun _ => (oblivious_setWeight c _).settled

theorem settled_modifySquash (allowed : List Squash) : Settled bound (modifySquash allowed) :=
  settled_get (fun _ _ => rfl) fun _ => (steady_pick _ _).bind_settled fun id =>
    (steady_ask fun _ _ => rfl).bind_settled fun _ => (steady_pick _ _).bind_settled fun squash =>
      (oblivious_setSquash id squash).settled

theorem forwardGaps_withMode (net : Network) (mode : ExecutionMode) :
    (net.withMode mode).forwardGaps = net.forwardGaps := by
  have gaps_eq (listed : List (NeuronId × LayerRef)) :
      forwardGaps.gaps (net.withMode mode) listed = forwardGaps.gaps net listed := by
    induction listed with
    | nil => rfl
    | cons first later ih =>
      rw [forwardGaps.gaps, forwardGaps.gaps, ih]
      rfl
  exact gaps_eq net.neurons

theorem settled_modifyConnections : Settled bound modifyConnections := by
  refine settled_get (fun net mode => ?_) fun net => ?_
  · simp only [forwardGaps_withMode]
    rfl
  have change (remove : Bool) : Settled bound (if remove = true then do
        let c ← pick (net.connections.filter (!·.isSelf)) .noConnectionToChange
        disconnect c.source c.target
      else do
        let gap ← pick net.forwardGaps .noConnectionToChange
        let _ ← projectNeuron gap.1 gap.2 none) := by
    refine relates_ite ?_ ?_
    · exact (steady_pick _ _).bind_settled fun c => (oblivious_disconnect _ _).settled
    · exact (steady_pick _ _).bind_settled fun gap =>
        Relates.bind (oblivious_projectNeuron _ _ _).settled fun _ => oblivious_pure _
  simp only
  split
  · exact (steady_throw _).bind_settled change
  · exact (steady_pure _).bind_settled change
  · exact (steady_pure _).bind_settled change
  · exact (steady_onRandom _).bind_settled change

end Choices

section Operators

variable {floor : NeuronId} {α β : Type}

/-- Networks without programs answer alike and end as twins, with the same ids left. -/
def Thrives (floor : NeuronId) (act : Growth α) : Prop :=
  Relates (Supplied floor fun n => Paired n []) (fun _ => Supplied floor Twins)
    (Supplied floor Twins) act

theorem Thriving.thrives {act : Growth α} (h : Thriving floor act) : Thrives floor act :=
  h.mono (fun _ _ h => h.mono fun _ _ _ h => h.twins) (fun _ _ _ h => h) fun _ _ h => h

theorem Steady.bind_thrives {a : Edit α} {f : α → Growth β} (ha : ∀ n, Steady n a)
    (hf : ∀ x, Thrives floor (f x)) : Thrives floor (lift a >>= f) :=
  Relates.bind (relates_lift ha) hf

theorem thrives_throw (e : NetworkError) : Thrives floor (throw e : Growth α) :=
  relates_throw e fun _ _ h => h.mono fun _ _ _ h => h.twins

theorem thriving_members (ref : LayerRef) : Thriving floor (lift (ask (·.layer ref))) :=
  thriving_lift fun _ => relates_ask (fun _ _ h => h.layer ref) (fun _ _ _ _ h => h) fun _ _ h => h

theorem oblivious_projectEach {bound : NeuronId} (xs : List NeuronId)
    (ends : NeuronId → NeuronId × NeuronId) : Oblivious bound (xs.forM fun x => do
      let _ ← projectNeuron (ends x).1 (ends x).2 none) :=
  relates_forM fun _ _ => Relates.bind (oblivious_projectNeuron _ _ _) fun _ => oblivious_pure _

theorem thriving_addHiddenNeuron (i : Nat) : Thriving floor (addHiddenNeuron i) := by
  refine relates_get (fun s t h => ?_) fun s => Relates.mono (R := Supplied floor Twins) ?_
    (fun _ _ h => h.1) (fun _ _ _ h => h) fun _ _ h => h
  · obtain ⟨-, -, hidden_eq, -⟩ := h.2.2.same
    simp only [neighbours, hidden_eq]
  · refine Relates.bind (thriving_addNeuron _) fun id => ?_
    refine Relates.bind (thriving_members _) fun before => ?_
    refine Relates.bind (thriving_lift fun _ => oblivious_projectEach _ fun s => (s, id)) fun _ => ?_
    refine Relates.bind (thriving_members _) fun after => ?_
    exact thriving_lift fun _ => oblivious_projectEach _ fun t => (id, t)

theorem thrives_modifyNeurons : Thrives floor modifyNeurons := by
  refine relates_get (fun s t h => ?_) fun s => Relates.mono
    (R := Supplied floor fun n => Paired n []) ?_ (fun _ _ h => h.1) (fun _ _ _ h => h) fun _ _ h => h
  · obtain ⟨-, -, -, mode, network_eq⟩ := h
    rw [network_eq]
    rfl
  · refine relates_ite (thrives_throw _) (Steady.bind_thrives (fun n => steady_onRandom _) fun i => ?_)
    refine Steady.bind_thrives (fun n => steady_ask fun net mode => ?_) fun l => ?_
    · rfl
    have add : Thrives floor (addHiddenNeuron i) := (thriving_addHiddenNeuron i).thrives
    refine relates_ite (Steady.bind_thrives (fun n => steady_onRandom _) fun remove =>
      relates_ite (Steady.bind_thrives (fun n => steady_onRandom _) fun j => ?_) add) add
    cases l.neurons[j]? with
    | some id => exact (thriving_lift fun _ => oblivious_removeNeuron id).thrives
    | none => exact thrives_throw _

theorem thriving_mutate (m : Mutation) : Thriving floor (mutate m) := by
  refine Relates.bind (relates_lift fun _ => relates_restore) fun _ => ?_
  cases m with
  | swapWeight => exact relates_lift fun _ => settled_swapWeight
  | swapBias => exact relates_lift fun _ => settled_swapBias
  | modifyRandomBias noise => exact relates_lift fun _ => settled_modifyRandomBias noise
  | modifyRandomWeight noise => exact relates_lift fun _ => settled_modifyRandomWeight noise
  | modifyNeurons => exact thrives_modifyNeurons
  | modifyConnections => exact relates_lift fun _ => settled_modifyConnections
  | modifySquash allowed => exact relates_lift fun _ => settled_modifySquash allowed

end Operators

end Network

end GatedNetwork
