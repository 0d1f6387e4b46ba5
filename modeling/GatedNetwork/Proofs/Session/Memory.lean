import GatedNetwork.Proofs.Network.FeedForward
import GatedNetwork.Proofs.Session.Gains
import GatedNetwork.Proofs.Session.Merging

/-! What a feed-forward network remembers of the inputs before. Self-connections that are disabled
still multiply the states that are kept with zero, and that shows nothing of a state only if it is
finite. -/

namespace GatedNetwork

/-- The state is finite, and not negative where the bias is the negative zero. -/
def Neuron.Settles (n : Neuron) : Prop :=
  n.state.isFinite ∧ (n.bias = -0 → Decimal.isNegative n.state = false)

instance (n : Neuron) : Decidable n.Settles := inferInstanceAs (Decidable (_ ∧ (_ → _)))

namespace Network

open GatedNetwork.Graph

/-- The network after one input after the other. An input that is refused changes nothing. -/
def exposed (net : Network) (history : List (List Float)) : Network :=
  history.foldl (fun net x => after ((activate x).run net)) net

def Quiet (net : Network) : Prop := ∀ id ∈ net.workerIds, ∀ n ∈ net.graph.neurons.get? id, n.Settles

instance (net : Network) : Decidable net.Quiet :=
  inferInstanceAs (Decidable (∀ id ∈ net.workerIds, ∀ n ∈ net.graph.neurons.get? id, n.Settles))

section Exposure

variable {bound : NeuronId} {net bare : Network} {values : List Float} {g : Graph}

theorem StandsFor.exposed (h : bare.StandsFor net) (sound : bare.Sound bound [])
    (history : List (List Float)) : ∃ live, bare.graph.Akin live ∧
      { bare with graph := live }.Sound bound [] ∧
      { bare with graph := live }.StandsFor (net.exposed history) := by
  induction history generalizing bare net with
  | nil => exact ⟨bare.graph, .refl _, sound, h⟩
  | cons x history ih =>
    by_cases length_eq : x.length = bare.input.size
    · obtain ⟨live, net', run_eq, skeleton_eq, agrees, sound', stands⟩ := h.sweeps sound length_eq
      obtain ⟨live', akin, rest⟩ := ih stands sound'
      rw [Network.exposed, List.foldl_cons, run_eq]
      exact ⟨live', (sound.akin_of_agrees skeleton_eq agrees).trans akin, rest⟩
    · have refused := activate_of_length_ne (h.layers_eq.1 ▸ length_eq)
      rw [Network.exposed, List.foldl_cons, refused]
      exact ih h sound

theorem state_of_clear {id : NeuronId} {n : Neuron} (hn : g.clear.neurons.get? id = some n) :
    n.state = 0 := by
  rw [clear_get?] at hn
  obtain ⟨m, -, rfl⟩ := Option.map_eq_some_iff.mp hn
  rfl

theorem quiet_clear (bare : Network) (g : Graph) : Quiet { bare with graph := g.clear } := by
  intro id _ n hn
  rw [Neuron.Settles, state_of_clear hn]
  exact ⟨rfl, fun _ => rfl⟩

/-- With settled neurons a feed-forward network gives the answer of the cleared one. -/
theorem FeedForward.answer_quiet (h : bare.FeedForward) (sound : bare.Sound bound [])
    (akin : bare.graph.Akin g) (sound' : { bare with graph := g }.Sound bound [])
    (quiet : Quiet { bare with graph := g }) (length_eq : values.length = bare.input.size) :
    answer { bare with graph := g } values = answer { bare with graph := bare.graph.clear } values := by
  have rested := h.withGraph sound sound.clear bare.graph.skeleton_clear.symm
  have later := h.withGraph sound sound' akin.skeleton
  have akin' := (akin_clear bare.graph).symm.trans akin
  refine rested.answer_eq sound.clear akin' sound' (fun x worker => ?_) length_eq
  obtain ⟨n, hn⟩ := get?_of_contains (sound'.mem_workerIds_iff.mp worker).1
  obtain ⟨m, hm⟩ := get?_of_contains (sound.clear.mem_workerIds_iff.mp worker).1
  have bias_eq : n.bias = m.bias := by simpa [hn, hm] using akin'.bias x
  obtain ⟨finite, sign⟩ := quiet x worker n hn
  rw [sound'.consistent.start_eq hn (later.selfConnected_eq sound' hn),
    sound.clear.consistent.start_eq hm (rested.selfConnected_eq sound.clear hm), state_of_clear hm, ← bias_eq]
  exact Binary64.zero_mul_add finite sign

/-- A neuron whose state is not finite gets a state that is no number. -/
theorem FeedForward.spreads (h : bare.FeedForward) (sound : bare.Sound bound [])
    (skeleton_eq : bare.graph.skeleton = g.skeleton) (agrees : g.Agrees (bare.swept values))
    {id : NeuronId} {n : Neuron} (worker : id ∈ bare.workerIds)
    (hn : bare.graph.neurons.get? id = some n) (endless : ¬ n.state.isFinite) :
    ∃ m, g.neurons.get? id = some m ∧ m.state.isNaN := by
  obtain ⟨m, hm, -⟩ := get?_of_skeleton_eq skeleton_eq hn
  have state_eq : bare.swept values (.state id) = m.state := by
    rw [agrees _ rfl, reading_state, hm]
    rfl
  exact ⟨m, hm, state_eq ▸ h.isNaN_swept sound hn worker endless⟩

end Exposure

section Memory

variable {net : Network} {x : List Float}

/-- A feed-forward network forgets all inputs before, whatever they were, if they leave it quiet: it
then gives the answer of the cleared network. If it is cleared after them it gives that answer in any
case. A state that they leave and that is not finite makes the next state of its neuron no number. -/
theorem Reachable.forgets_history (h : net.Reachable) (forward : net.FeedForward)
    (length_eq : x.length = net.input.size) :
    ∃ cleared fresh cleared', clear.run net = .ok () cleared ∧
      (activate x).run cleared = .ok fresh cleared' ∧
      ∀ history, ∃ answer later, (activate x).run (net.exposed history) = .ok answer later ∧
        ((net.exposed history).settled.Quiet → answer = fresh) ∧
        (∃ rested rested', clear.run (net.exposed history) = .ok () rested ∧
          (activate x).run rested = .ok fresh rested') ∧
        ∀ id ∈ net.workerIds, ∀ n ∈ (net.exposed history).settled.graph.neurons.get? id,
          ¬ n.state.isFinite → ∃ m, later.settled.graph.neurons.get? id = some m ∧ m.state.isNaN := by
  obtain ⟨bound, bare, sound, stands⟩ := h.stands
  have forward := stands.feedForward forward
  have length_eq : x.length = bare.input.size := stands.layers_eq.1 ▸ length_eq
  have workers_eq : net.workerIds = bare.workerIds := by cases stands <;> rfl
  obtain ⟨rested, cleared', fresh_run, -⟩ := StandsFor.plain.sweeps sound.clear length_eq
  refine ⟨_, _, cleared', stands.clear_run sound, fresh_run, fun history => ?_⟩
  obtain ⟨live, akin, sound', stands'⟩ := stands.exposed sound history
  obtain ⟨live', later, run_eq, skeleton_eq, agrees, sound'', stands''⟩ :=
    stands'.sweeps sound' length_eq
  rw [stands'.settled_eq sound', workers_eq]
  have forward' := forward.withGraph sound sound' akin.skeleton
  obtain ⟨-, rested', rested_run, -⟩ := StandsFor.plain.sweeps sound'.clear length_eq
  rw [forward.answer_quiet sound (akin.trans (akin_clear live)) sound'.clear (quiet_clear _ live)
    length_eq] at rested_run
  refine ⟨_, later, run_eq, fun quiet => forward.answer_quiet sound akin sound' quiet length_eq,
    ⟨_, rested', stands'.clear_run sound', rested_run⟩, fun id worker n hn endless => ?_⟩
  rw [stands''.settled_eq sound'']
  exact forward'.spreads sound' skeleton_eq agrees worker hn endless

theorem exists_gatedRow : ∃ net : Network, net.Reachable ∧ net.FeedForward ∧ net.input.size = 1 ∧
    net.graph.gater? ⟨2, 3⟩ = some 1 ∧ (net.exposed [[2], [-0.5]]).settled.Quiet :=
  exists_reachable [.new 1 [1] 1 { biasInit := ⟨0, 0⟩, squash := .identity, mode := .graph },
    .call 0 (.projectNeuron 1 2 (some 2)), .call 0 (.projectNeuron 2 3 (some 0.5)),
    .call 0 (.gateConnection 1 ⟨2, 3⟩)] (by decide +kernel)

theorem forgets_history_gatedRow : ∃ net : Network, net.Reachable ∧ net.FeedForward ∧
    net.graph.gater? ⟨2, 3⟩ = some 1 ∧ (net.exposed [[2], [-0.5]]).settled.Quiet ∧
    ∃ cleared fresh cleared' later, clear.run net = .ok () cleared ∧
      (activate [3]).run cleared = .ok fresh cleared' ∧
      (activate [3]).run (net.exposed [[2], [-0.5]]) = .ok fresh later := by
  obtain ⟨net, reachable, forward, size_eq, gater_eq, quiet⟩ := exists_gatedRow
  obtain ⟨cleared, fresh, cleared', clear_run, fresh_run, forgets⟩ :=
    Reachable.forgets_history reachable forward (x := [3]) size_eq.symm
  obtain ⟨answer, later, run_eq, same, -⟩ := forgets [[2], [-0.5]]
  exact ⟨net, reachable, forward, gater_eq, quiet, cleared, fresh, cleared', later, clear_run, fresh_run,
    same quiet ▸ run_eq⟩

/-- A state that overflows is remembered: zero times infinity is no number. -/
theorem remembers_overflow : ∃ net : Network, net.Reachable ∧ net.FeedForward ∧
    (net.feed [[1e308], [1]]).map (fun answer => answer.toOption.map fun ys => ys.map (·.isNaN)) =
      [some [false], some [true]] ∧
    ((after (clear.run net)).feed [[1]]).map Except.toOption = [some [10]] :=
  exists_reachable [.new 1 [] 1 { biasInit := ⟨0, 0⟩, squash := .identity, mode := .graph },
    .call 0 (.projectNeuron 1 2 (some 10))] (by decide +kernel)

end Memory

end Network

end GatedNetwork
