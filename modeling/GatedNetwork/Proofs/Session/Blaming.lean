import GatedNetwork.Proofs.Network.Learning
import GatedNetwork.Proofs.Network.Refusing
import GatedNetwork.Proofs.Session.Twins

/-! The error terms that a backward pass leaves in a reachable network. What an output neuron is to
blame for depends on its target alone. A hidden neuron is asked after the neurons listed behind it have
moved their incoming weights, so the rate has a say in its terms, through these weights only. -/

namespace GatedNetwork

namespace Network

open GatedNetwork.Graph

def terms (net : Network) (id : NeuronId) : ErrorTerms := net.settled.graph.reading.terms id

/-- What a hidden neuron reads in a backward pass from the first network to the second: the neurons
listed behind it have had their turns. -/
def midway (net net' : Network) (id : NeuronId) : Reading :=
  net.settled.graph.reading.midway net'.settled.graph.reading (net.place id < net.place ·)

/-- A backward pass has made the second network of the first one: these are its error terms. -/
structure Blames (net : Network) (targets : List Float) (net' : Network) : Prop where
  input : ∀ id ∈ net.input.neurons, net'.terms id = net.terms id
  hidden : ∀ id ∈ net.hiddenIds, ∃ n, net.settled.graph.neurons.get? id = some n ∧
    net'.terms id = (net.midway net' id).hiddenTerms net.settled.graph id n
  output : ∀ i (hi : i < net.output.neurons.length) (hi' : i < targets.length),
    net'.terms net.output.neurons[i] =
      { responsibility :=
          targets[i] - net.settled.graph.reading (.activation net.output.neurons[i])
        projected := targets[i] - net.settled.graph.reading (.activation net.output.neurons[i])
        gated := (net.terms net.output.neurons[i]).gated }

/-- The connections whose moved weights have a say in the error terms of a hidden neuron: it projects or
gates them towards a neuron listed behind it, or a hidden neuron behind it does so. -/
def Hears (net : Network) (id : NeuronId) (c : ConnectionId) : Prop :=
  id ∈ net.hiddenIds ∧ c ∈ net.connections ∧ c.isSelf = false ∧
    ∃ x ∈ net.hiddenIds, net.place id ≤ net.place x ∧
      (c.source = x ∨ net.settled.graph.gater? c = some x) ∧ net.place x < net.place c.target

section Passes

variable {bound : NeuronId} {net net₁ net₂ net' bare : Network} {targets : List Float} {rate : Float}
  {id x : NeuronId} {c : ConnectionId}

theorem Hears.of_behind (hears : net.Hears x c) (hidden : id ∈ net.hiddenIds)
    (behind : net.place id < net.place x) : net.Hears id c := by
  obtain ⟨-, listed, regular, y, hy, after, ends⟩ := hears
  exact ⟨hidden, listed, regular, y, hy, Nat.le_trans (Nat.le_of_lt behind) after, ends⟩

theorem StandsFor.blames (h : bare.StandsFor net) (sound : bare.Sound bound [])
    (valid : Program.validRate rate) (length_eq : targets.length = net.output.size) :
    ∃ net', (propagate rate targets).run net = .ok () net' ∧ net.Blames targets net' := by
  have length_eq' : targets.length = bare.output.size := by cases h <;> exact length_eq
  obtain ⟨live, net', run_eq, -, agrees, sound', stands⟩ := h.learns sound valid length_eq'
  have settled_eq := h.settled_eq sound
  have settled_eq' := stands.settled_eq sound'
  have terms_eq (id : NeuronId) : net'.terms id = (bare.learned rate targets).terms id := by
    rw [terms, settled_eq']
    exact Reading.terms_eq (agrees _ rfl).symm (agrees _ rfl).symm (agrees _ rfl).symm
  have midway_eq (id : NeuronId) : net.midway net' id =
      bare.graph.reading.midway live.reading (bare.place id < bare.place ·) := by
    rw [midway, settled_eq, settled_eq']
    cases h <;> rfl
  have hiddenIds_eq : net.hiddenIds = bare.hiddenIds := by cases h <;> rfl
  obtain ⟨input_eq, -, output_eq⟩ := h.layers_eq
  refine ⟨net', run_eq, fun id given => ?_, fun id hidden => ?_, fun i hi hi' => ?_⟩
  · rw [terms_eq, sound.terms_learned_input (input_eq ▸ given), terms, settled_eq]
  · obtain ⟨n, hn, learned_eq⟩ := sound.terms_learned_hidden (hiddenIds_eq ▸ hidden)
    refine ⟨n, settled_eq ▸ hn, ?_⟩
    rw [terms_eq, learned_eq, midway_eq, settled_eq]
    exact Reading.hiddenTerms_eq fun k heeds =>
      Reading.midway_eq (fun _ _ => rfl) agrees heeds.isField
  · simp only [output_eq] at hi ⊢
    rw [terms_eq, sound.terms_learned_output hi hi', terms, settled_eq]
    rfl

theorem Blames.terms_eq_of_behind (h₁ : net.Blames targets net₁) (h₂ : net.Blames targets net₂)
    (stands : bare.StandsFor net) (sound : bare.Sound bound []) (hidden : id ∈ net.hiddenIds)
    (responsibility_eq : ∀ x ∈ net.ids, net.place id < net.place x →
      net₁.settled.graph.reading (.responsibility x) = net₂.settled.graph.reading (.responsibility x))
    (weight_eq : ∀ c ∈ net.connections, c.source = id ∨ net.settled.graph.gater? c = some id →
      c.isSelf = false → net.place id < net.place c.target →
      net₁.settled.graph.reading (.weight c) = net₂.settled.graph.reading (.weight c)) :
    net₁.terms id = net₂.terms id := by
  have settled_eq := stands.settled_eq sound
  have linked : net.settled.graph.Linked := settled_eq ▸ sound.consistent.toLinked
  have ids_eq : net.ids = bare.ids := by cases stands <;> rfl
  obtain ⟨n, hn, terms_eq₁⟩ := h₁.hidden id hidden
  obtain ⟨n', hn', terms_eq₂⟩ := h₂.hidden id hidden
  obtain rfl : n = n' := by simpa using hn.symm.trans hn'
  rw [terms_eq₁, terms_eq₂]
  refine Reading.hiddenTerms_eq fun k heeds => ?_
  cases k with
  | responsibility x =>
    have listed : x ∈ net.ids := by
      obtain ⟨t, ht⟩ : ∃ t, net.settled.graph.neurons.get? x = some t := by
        rcases heeds with traced | ⟨c, projected, rfl⟩
        · exact linked.extended hn traced
        · exact (linked.projection hn projected).2.2.2
      rw [ids_eq, sound.mem_ids, ← settled_eq]
      exact contains_of_get? ht
    by_cases behind : net.place id < net.place x
    · simp only [midway, Reading.midway, behind, ↓reduceIte]
      exact responsibility_eq x listed behind
    · simp only [midway, Reading.midway, behind, ↓reduceIte]
  | weight c =>
    by_cases moved : c.isSelf = false ∧ net.place id < net.place c.target
    · simp only [midway, Reading.midway, moved, and_self, ↓reduceIte]
      obtain ⟨ends, there⟩ : (c.source = id ∨ net.settled.graph.gater? c = some id) ∧
          net.settled.graph.contains c := by
        rcases heeds with projected | gated | self
        · obtain ⟨source_eq, there⟩ := (linked.projected_iff id n hn c).mp projected
          exact ⟨.inl source_eq, (contains_of_not_isSelf moved.1).trans there⟩
        · have gates := (linked.gated_iff id n hn c).mp gated
          exact ⟨.inr gates, (linked.gater_mem c id gates).1⟩
        · simp [moved.1] at self
      have listed : c ∈ net.connections := by
        rwa [stands.connections_eq, mem_connections_iff sound, ← settled_eq]
      exact weight_eq c listed ends moved.1 moved.2
    · simp only [midway, Reading.midway, moved, ↓reduceIte]
  | derivative | gain | activation | old => rfl
  | _ => exact heeds.elim

/-- By induction from the last neuron to the first: a responsibility that is read is that of a neuron
listed behind. -/
theorem Blames.terms_eq (h₁ : net.Blames targets net₁) (h₂ : net.Blames targets net₂)
    (stands : bare.StandsFor net) (sound : bare.Sound bound [])
    (length_eq : targets.length = net.output.size) (listed : id ∈ net.ids)
    (same : ∀ c, net.Hears id c → net₁.settled.graph.reading (.weight c) =
      net₂.settled.graph.reading (.weight c)) : net₁.terms id = net₂.terms id := by
  induction left : net.ids.length - net.place id using Nat.strong_induction_on generalizing id with
  | _ m ih =>
    subst left
    rw [Network.ids_eq, List.mem_append, workerIds, List.mem_append] at listed
    rcases listed with given | hidden | output
    · rw [h₁.input id given, h₂.input id given]
    · refine h₁.terms_eq_of_behind h₂ stands sound hidden (fun x listed behind => ?_)
        fun c there ends regular behind =>
          same c ⟨hidden, there, regular, id, hidden, Nat.le_refl _, ends, behind⟩
      have place_lt : net.place x < net.ids.length := List.idxOf_lt_length_of_mem listed
      exact congrArg ErrorTerms.responsibility (ih (net.ids.length - net.place x) (by omega) listed
        (fun c hears => same c (hears.of_behind hidden behind)) rfl)
    · obtain ⟨i, hi, rfl⟩ := List.getElem_of_mem output
      have hi' : i < targets.length := length_eq ▸ hi
      rw [h₁.output i hi hi', h₂.output i hi hi']

end Passes

/-- Every backward pass at a valid rate leaves these error terms. At two rates the terms of all neurons
that are not hidden are the same, and those of a hidden neuron are the same if the passes leave the
weights alike that have a say in them. -/
theorem Reachable.propagate_blames {net : Network} (h : net.Reachable) {targets : List Float}
    (length_eq : targets.length = net.output.size) :
    (∀ rate, Program.validRate rate →
      ∃ net', (propagate rate targets).run net = .ok () net' ∧ net.Blames targets net') ∧
    ∀ rate₁ rate₂ net₁ net₂, (propagate rate₁ targets).run net = .ok () net₁ →
      (propagate rate₂ targets).run net = .ok () net₂ →
      ∀ id ∈ net.ids, (∀ c, net.Hears id c → net₁.settled.graph.reading (.weight c) =
        net₂.settled.graph.reading (.weight c)) → net₁.terms id = net₂.terms id := by
  obtain ⟨bound, bare, sound, stands⟩ := h.stands
  have passes (rate : Float) (net' : Network) (run_eq : (propagate rate targets).run net = .ok () net') :
      net.Blames targets net' := by
    obtain ⟨valid, -⟩ := (stands.guarded_propagate sound rate targets).iff_passes.mp ⟨(), net', run_eq⟩
    obtain ⟨net'', run_eq', blames⟩ := stands.blames sound valid length_eq
    obtain rfl : net' = net'' := by simpa using run_eq.symm.trans run_eq'
    exact blames
  exact ⟨fun rate valid => stands.blames sound valid length_eq,
    fun rate₁ rate₂ net₁ net₂ run_eq₁ run_eq₂ id listed same =>
      (passes rate₁ net₁ run_eq₁).terms_eq (passes rate₂ net₂ run_eq₂) stands sound length_eq listed same⟩

theorem exists_silentRow : ∃ net : Network, net.Reachable ∧ net.output.size = 1 ∧ 2 ∈ net.ids ∧
    ⟨1, 2⟩ ∈ net.connections ∧
    Ending (fun _ net₁ => (net₁.terms 2).responsibility = 1 ∧
        Ending (fun _ net₂ => ∀ c ∈ net.connections,
          net₁.settled.graph.reading (.weight c) = net₂.settled.graph.reading (.weight c) ↔ c ≠ ⟨1, 2⟩)
        (fun _ _ => False) ((propagate 2 [1]).run net)) (fun _ _ => False) ((propagate 1 [1]).run net) :=
  exists_reachable [.new 1 [1] 1 { biasInit := ⟨0, 0⟩, squash := .identity, mode := .graph },
    .call 0 (.projectNeuron 1 2 (some 0)), .call 0 (.projectNeuron 2 3 (some 1)),
    .call 0 (.activate [1])] (by decide +kernel)

theorem propagate_blames_row : ∃ net net₁ net₂ : Network, net.Reachable ∧
    (propagate 1 [1]).run net = .ok () net₁ ∧ (propagate 2 [1]).run net = .ok () net₂ ∧
    net.Blames [1] net₁ ∧ net₁.terms 2 = net₂.terms 2 ∧ (net₁.terms 2).responsibility = 1 ∧
    net₁.settled.graph.reading (.weight ⟨1, 2⟩) ≠ net₂.settled.graph.reading (.weight ⟨1, 2⟩) := by
  obtain ⟨net, reachable, output_size, listed, joined, ended⟩ := exists_silentRow
  obtain ⟨⟨⟩, net₁, run_eq₁, blamed, ended'⟩ := ended.exists_ok
  obtain ⟨⟨⟩, net₂, run_eq₂, same_iff⟩ := ended'.exists_ok
  obtain ⟨blames, agree⟩ :=
    Reachable.propagate_blames reachable (show [(1 : Float)].length = _ from output_size.symm)
  obtain ⟨net', run_eq, blames⟩ := blames 1 (by decide)
  obtain rfl : net₁ = net' := by simpa using run_eq₁.symm.trans run_eq
  refine ⟨net, net₁, net₂, reachable, run_eq₁, run_eq₂, blames,
    agree 1 2 net₁ net₂ run_eq₁ run_eq₂ 2 listed fun c hears => ?_, blamed,
    fun same => (same_iff _ joined).mp same rfl⟩
  obtain ⟨-, there, -, x, -, after, -, behind⟩ := hears
  refine (same_iff c there).mpr ?_
  rintro rfl
  exact Nat.lt_irrefl _ (Nat.lt_of_le_of_lt after behind)

/-- A hidden neuron is blamed at the weight that its neighbour has just learned. -/
theorem propagate_sways : ∃ net net₁ net₂ : Network, net.Reachable ∧ 2 ∈ net.ids ∧
    Program.validRate 1 ∧ Program.validRate 2 ∧ [(2 : Float)].length = net.output.size ∧
    (propagate 1 [2]).run net = .ok () net₁ ∧ (propagate 2 [2]).run net = .ok () net₂ ∧
    net₁.terms 2 ≠ net₂.terms 2 := by
  obtain ⟨net, reachable, listed, output_size, ended⟩ : ∃ net : Network, net.Reachable ∧ 2 ∈ net.ids ∧
      net.output.size = 1 ∧
      Ending (fun _ net₁ => Ending (fun _ net₂ => (net₁.terms 2).responsibility ≠ (net₂.terms 2).responsibility)
        (fun _ _ => False) ((propagate 2 [2]).run net)) (fun _ _ => False) ((propagate 1 [2]).run net) :=
    exists_reachable [.new 1 [1] 1 { biasInit := ⟨0, 0⟩, squash := .identity, mode := .graph },
      .call 0 (.projectNeuron 1 2 (some 1)), .call 0 (.projectNeuron 2 3 (some 1)),
      .call 0 (.activate [1])] (by decide +kernel)
  obtain ⟨⟨⟩, net₁, run_eq₁, ended'⟩ := ended.exists_ok
  obtain ⟨⟨⟩, net₂, run_eq₂, swayed⟩ := ended'.exists_ok
  exact ⟨net, net₁, net₂, reachable, listed, by decide, by decide, output_size.symm, run_eq₁, run_eq₂,
    fun same => swayed (congrArg ErrorTerms.responsibility same)⟩

end Network

end GatedNetwork
