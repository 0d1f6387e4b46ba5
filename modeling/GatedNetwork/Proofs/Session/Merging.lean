import GatedNetwork.Proofs.Network.Merging
import GatedNetwork.Proofs.Session.Twins

/-! Merging is composition. A merged network answers, step after step, as copies of its two parts do
that are run one behind the other. -/

namespace GatedNetwork

namespace Network

def feed (net : Network) : List (List Float) → List (Except NetworkError (List Float))
  | [] => []
  | x :: xs =>
    match (activate x).run net with
    | .ok z net => .ok z :: net.feed xs
    | .error e net => .error e :: net.feed xs

def feedThrough (first second : Network) : List (List Float) → List (Except NetworkError (List Float))
  | [] => []
  | x :: xs =>
    match (activate x).run first with
    | .error e first => .error e :: first.feedThrough second xs
    | .ok y first =>
      match (activate y).run second with
      | .ok z second => .ok z :: first.feedThrough second xs
      | .error e second => .error e :: first.feedThrough second xs

section Feeding

variable {size : Nat} {a b c : Network}

theorem activate_of_length_ne {net : Network} {values : List Float}
    (length_ne : values.length ≠ net.input.size) :
    (activate values).run net = .error (.inputSize net.input.size values.length) net := by
  rw [activate, bind_of_ok (get_run net), if_neg length_ne]
  rfl

theorem Composed.feed (h : Composed size a b c) (xs : List (List Float)) :
    c.feed xs = a.feedThrough b xs := by
  induction xs generalizing a b c with
  | nil => rfl
  | cons x xs ih =>
    by_cases length_eq : x.length = size
    · obtain ⟨between, answer, a', b', c', run₁, run₂, run, composed⟩ := h.step length_eq
      simp only [Network.feed, feedThrough, run₁, run₂, run]
      rw [ih composed]
    · obtain ⟨size₁, size_eq⟩ := h.input_size
      have run₁ := activate_of_length_ne (size₁.symm ▸ length_eq)
      have run := activate_of_length_ne (size_eq.symm ▸ length_eq)
      simp only [Network.feed, feedThrough, run₁, run, size₁, size_eq]
      rw [ih h]

theorem Composed.feed_ok (h : Composed size a b c) {xs : List (List Float)}
    (lengths : ∀ x ∈ xs, x.length = size) : ∃ answers : List (List Float), c.feed xs = answers.map .ok := by
  induction xs generalizing a b c with
  | nil => exact ⟨[], rfl⟩
  | cons x xs ih =>
    obtain ⟨first_length, later⟩ := List.forall_mem_cons.mp lengths
    obtain ⟨between, answer, a', b', c', -, -, run, composed⟩ := h.step first_length
    obtain ⟨answers, feed_eq⟩ := ih composed later
    refine ⟨answer :: answers, ?_⟩
    simp only [Network.feed, run, feed_eq, List.map_cons]

end Feeding

section Merging

variable {first second bare₁ bare₂ : Network} {bound₁ bound₂ : NeuronId} {config : Config}

theorem StandsFor.merge_composed (stands₁ : bare₁.StandsFor first) (sound₁ : bare₁.Sound bound₁ [])
    (stands₂ : bare₂.StandsFor second) (sound₂ : bare₂.Sound bound₂ [])
    (sizes : first.output.size = second.input.size)
    (sealed : ∀ c, second.graph.contains c → c.target ∉ second.input.neurons)
    (settings : config.validate = .ok ()) (ids ids₁ ids₂ : IdSupply) :
    ∃ merged copy₁ copy₂ ids' ids₁' ids₂', (first.merge second config).run ids = .ok merged ids' ∧
      first.copy.run ids₁ = .ok copy₁ ids₁' ∧ second.copy.run ids₂ = .ok copy₂ ids₂' ∧
      Composed first.input.size copy₁ copy₂ merged := by
  obtain ⟨input_eq₁, -, output_eq₁⟩ := stands₁.layers_eq
  obtain ⟨input_eq₂, -, -⟩ := stands₂.layers_eq
  have sealed' (c : ConnectionId) (hc : bare₂.graph.contains c) : c.target ∉ bare₂.input.neurons := by
    rw [← input_eq₂]
    exact sealed c ((Graph.contains_of_skeleton_eq stands₂.skeleton c).trans hc)
  have meets := sound₁.meets_described sound₂ (output_eq₁ ▸ input_eq₂ ▸ sizes) sealed'
  obtain ⟨copy₁, copy_run₁, realizes₁⟩ := stands₁.copy_ok sound₁ ids₁
  obtain ⟨copy₂, copy_run₂, realizes₂⟩ := stands₂.copy_ok sound₂ ids₂
  obtain ⟨merged, made, realizes⟩ := ofSnapshot_ok meets.valid_chain settings ids
  have run_eq := stands₁.merge_chains sound₁ stands₂ sound₂ sizes config ids
  have count_eq : bare₁.described.count .input = bare₁.input.size := count_described (by simp [refs])
  have size_eq : copy₁.input.size = first.input.size :=
    realizes₁.sizes.1.trans (count_eq.trans (congrArg Layer.size input_eq₁.symm))
  exact ⟨merged, copy₁, copy₂, _, _, _, run_eq.trans made, copy_run₁, copy_run₂, _, _, _, _, _,
    copy₁, copy₂, merged, realizes₁.chained realizes₂ realizes meets, ⟨realizes₁.sound, .plain⟩,
    ⟨realizes₂.sound, .plain⟩, ⟨realizes.sound, .plain⟩, size_eq⟩

/-- Merging is composition: if the sizes fit and nothing enters the inputs of the second network, the
two are merged, and on every sequence of inputs the merged network says what a copy of the second
says to the answers of a copy of the first. -/
theorem Reachable.merge_composes (h₁ : first.Reachable) (h₂ : second.Reachable)
    (sizes : first.output.size = second.input.size)
    (sealed : ∀ c, second.graph.contains c → c.target ∉ second.input.neurons)
    (settings : config.validate = .ok ()) (ids ids₁ ids₂ : IdSupply) :
    ∃ merged copy₁ copy₂ ids' ids₁' ids₂', (first.merge second config).run ids = .ok merged ids' ∧
      first.copy.run ids₁ = .ok copy₁ ids₁' ∧ second.copy.run ids₂ = .ok copy₂ ids₂' ∧
      ∀ xs, merged.feed xs = copy₁.feedThrough copy₂ xs ∧
        ((∀ x ∈ xs, x.length = first.input.size) →
          ∃ answers : List (List Float), merged.feed xs = answers.map .ok) := by
  obtain ⟨bound₁, bare₁, sound₁, stands₁⟩ := h₁.stands
  obtain ⟨bound₂, bare₂, sound₂, stands₂⟩ := h₂.stands
  obtain ⟨merged, copy₁, copy₂, ids', ids₁', ids₂', merge_run, copy_run₁, copy_run₂, composed⟩ :=
    stands₁.merge_composed sound₁ stands₂ sound₂ sizes sealed settings ids ids₁ ids₂
  exact ⟨merged, copy₁, copy₂, ids', ids₁', ids₂', merge_run, copy_run₁, copy_run₂, fun xs =>
    ⟨composed.feed xs, composed.feed_ok⟩⟩

theorem exists_recurrent : ∃ net : Network, net.Reachable ∧ net.input.size = 1 ∧ net.output.size = 1 ∧
    net.settled.graph.gater? ⟨2, 2⟩ = some 1 ∧
    ∀ c, net.graph.contains c → c.target ∉ net.input.neurons := by
  obtain ⟨net, reachable, inputs, output_size, gater_eq, keys_eq, alone⟩ : ∃ net : Network,
      net.Reachable ∧ net.input.neurons = [1] ∧ net.output.size = 1 ∧ net.settled.graph.gater? ⟨2, 2⟩ = some 1 ∧
      net.graph.connections.keys = [⟨1, 2⟩] ∧
      (net.graph.neurons.get? 1).any (·.selfConnected) = false :=
    exists_reachable [.new 1 [] 1 { biasInit := ⟨0, 0⟩ }, .call 0 (.projectNeuron 1 2 (some 1)),
      .call 0 (.projectNeuron 2 2 (some 0.5)), .call 0 (.gateConnection 1 ⟨2, 2⟩)]
      ⟨_, rfl, rfl, rfl, rfl, rfl, rfl⟩
  refine ⟨net, reachable, by rw [Layer.size, inputs]; rfl, output_size, gater_eq,
    fun c hc entering => ?_⟩
  have target_eq : c.target = 1 := by simpa [inputs] using entering
  unfold Graph.contains at hc
  split at hc
  · rename_i self
    have source_eq : c.source = 1 := (of_decide_eq_true self).trans target_eq
    rw [source_eq, alone] at hc
    cases hc
  · rw [← SortedMap.mem_keys, keys_eq, List.mem_singleton] at hc
    rw [hc] at target_eq
    cases target_eq

theorem merge_composes_recurrent : ∃ net : Network, net.Reachable ∧
    net.settled.graph.gater? ⟨2, 2⟩ = some 1 ∧
    ∃ merged copy₁ copy₂ ids' ids₁' ids₂',
      (net.merge net { biasInit := ⟨0, 0⟩ }).run ⟨3⟩ = .ok merged ids' ∧
      net.copy.run ⟨6⟩ = .ok copy₁ ids₁' ∧ net.copy.run ⟨8⟩ = .ok copy₂ ids₂' ∧
      ∃ answers : List (List Float), merged.feed [[1], [0.5], [1]] = answers.map .ok ∧
        copy₁.feedThrough copy₂ [[1], [0.5], [1]] = answers.map .ok := by
  obtain ⟨net, reachable, input_size, output_size, gater_eq, sealed⟩ := exists_recurrent
  have sizes : net.output.size = net.input.size := output_size.trans input_size.symm
  have settings : ({ biasInit := ⟨0, 0⟩ } : Config).validate = .ok () := by rfl
  obtain ⟨merged, copy₁, copy₂, ids', ids₁', ids₂', merge_run, copy_run₁, copy_run₂, composes⟩ :=
    Reachable.merge_composes reachable reachable sizes sealed settings ⟨3⟩ ⟨6⟩ ⟨8⟩
  obtain ⟨feed_eq, answered⟩ := composes [[1], [0.5], [1]]
  obtain ⟨answers, answers_eq⟩ := answered (by simp [input_size])
  exact ⟨net, reachable, gater_eq, merged, copy₁, copy₂, ids', ids₁', ids₂', merge_run, copy_run₁,
    copy_run₂, answers, answers_eq, feed_eq.symm.trans answers_eq⟩

end Merging

end Network

end GatedNetwork
