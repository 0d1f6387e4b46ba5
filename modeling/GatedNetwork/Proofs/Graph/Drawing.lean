import GatedNetwork.Proofs.Ending
import GatedNetwork.Proofs.Graph.Values

/-! Changes of a graph that draw numbers. Whether a draw has an answer depends on its range alone,
and where the neurons are there, a change that draws fails at a draw or not at all. -/

namespace GatedNetwork

def Range.isBounded (range : Range) : Bool := !(range.hi > range.lo) || (range.hi - range.lo).isFinite

/-- A new weight or a new bias could not be drawn. -/
def Starved (weights biases : Range) (e : NetworkError) : Prop :=
  e = .unboundedRange ∧ (weights.isBounded && biases.isBounded) = false

section Draws

variable {range : Range}

theorem drawScaled_ok (lo hi scale : Float) (attempts : Nat) (r : RandomStream) :
    ∃ x r', (Range.drawScaled lo hi scale attempts).run r = .ok x r' := by
  induction attempts generalizing r with
  | zero => exact ⟨lo, r, rfl⟩
  | succ k ih =>
    obtain ⟨word, r', word_eq⟩ : ∃ word r', Draw.word64.run r = .ok word r' := ⟨_, _, rfl⟩
    rw [Range.drawScaled, bind_of_ok word_eq]
    simp only
    split
    · exact ⟨_, _, rfl⟩
    · exact ih r'

theorem draw_ok (h : range.isBounded) (r : RandomStream) : ∃ x r', range.draw.run r = .ok x r' := by
  unfold Range.draw
  by_cases ordered : range.hi > range.lo
  · have finite : (range.hi - range.lo).isFinite := by simpa [Range.isBounded, ordered] using h
    rw [if_pos ordered]
    simp only [finite, ↓reduceIte]
    exact drawScaled_ok _ _ _ _ r
  · rw [if_neg ordered]
    exact ⟨_, _, rfl⟩

theorem draw_error (h : range.isBounded = false) (r : RandomStream) :
    range.draw.run r = .error .unboundedRange r := by
  simp only [Range.isBounded, Bool.or_eq_false_iff, Bool.not_eq_false', decide_eq_true_eq] at h
  unfold Range.draw
  rw [if_pos h.1]
  simp only [h.2]
  rfl

/-- Whether a draw from a range fails depends on the range alone. -/
theorem draw_cases (range : Range) :
    (∀ r, ∃ x r', range.draw.run r = .ok x r') ∨
      ∀ r, range.draw.run r = .error .unboundedRange r := by
  cases h : range.isBounded with
  | true => exact .inl (draw_ok h)
  | false => exact .inr (draw_error h)

theorem draw_ends (range : Range) {Q : Float → RandomStream → Prop} (hQ : ∀ x r, Q x r) (r : RandomStream) :
    Ending Q (fun e _ => e = .unboundedRange ∧ range.isBounded = false) (range.draw.run r) := by
  cases h : range.isBounded with
  | true =>
    obtain ⟨x, r', hr⟩ := draw_ok h r
    rw [hr]
    exact hQ x r'
  | false =>
    rw [draw_error h]
    exact ⟨rfl, rfl⟩

end Draws

namespace Graph

section Projecting

variable {σ : Type} {g : Graph} {ks : List NeuronId} {draw : EStateM NetworkError σ Float}

theorem project_error {source target : NeuronId} {weight : Option Float} {r : σ} {e : NetworkError}
    {s : Graph × σ} (hs : g.neurons.contains source) (ht : g.neurons.contains target)
    (h : (project source target weight draw).run (g, r) = .error e s) :
    weight = none ∧ ∃ r', draw.run r = .error e r' := by
  rcases project_cases source target weight draw g r with
    ⟨id, rfl | rfl, absent, -⟩ | ⟨-, -, ⟨-, heq⟩ | ⟨-, -, heq⟩ | ⟨-, -, heq⟩⟩
  · simp [hs] at absent
  · simp [ht] at absent
  · nomatch heq.symm.trans h
  · nomatch heq.symm.trans h
  · rw [h] at heq
    cases weight with
    | some w => nomatch heq
    | none =>
      cases hr : draw.run r with
      | ok w r' =>
        simp only [hr] at heq
        nomatch heq
      | error e' r' =>
        simp only [hr, EStateM.Result.error.injEq] at heq
        exact ⟨rfl, r', by rw [heq.1]⟩

end Projecting

end Graph

namespace Layer

open GatedNetwork.Graph

section Projecting

variable {σ : Type} {l : Layer} {target : List NeuronId} {wiring : Wiring} {ks : List NeuronId}

theorem pairs_error {e : NetworkError} (h : l.pairs target wiring = .error e) :
    wiring = .oneToOne ∧ target.length ≠ l.size := by
  cases wiring with
  | oneToOne =>
    simp only [pairs] at h
    split at h
    · nomatch h
    · rename_i differ
      exact ⟨rfl, differ⟩
  | allToAll => nomatch h
  | allToElse => nomatch h

theorem mem_of_mem_pairs {ps : List (NeuronId × NeuronId)} (h : l.pairs target wiring = .ok ps)
    {p : NeuronId × NeuronId} (hp : p ∈ ps) : p.1 ∈ l.neurons ∧ p.2 ∈ target := by
  have of_product (hp : p ∈ l.neurons.flatMap fun s => target.map (s, ·)) :
      p.1 ∈ l.neurons ∧ p.2 ∈ target := by
    obtain ⟨s, hs, hp⟩ := List.mem_flatMap.mp hp
    obtain ⟨t, ht, rfl⟩ := List.mem_map.mp hp
    exact ⟨hs, ht⟩
  cases wiring with
  | oneToOne =>
    simp only [pairs] at h
    split at h
    · obtain rfl := Except.ok.inj h
      exact List.of_mem_zip hp
    · nomatch h
  | allToAll =>
    obtain rfl := Except.ok.inj h
    exact of_product hp
  | allToElse =>
    obtain rfl := Except.ok.inj h
    exact of_product (List.mem_filter.mp hp).1

/-- Wiring a layer is refused before its first pair, or keeps what each pair keeps. -/
theorem ends_projectOnto {s : Graph × σ} {weight : Option Float} {draw : EStateM NetworkError σ Float}
    {I : List (NeuronId × NeuronId) → List ConnectionId → Graph × σ → Prop}
    {E : NetworkError → Graph × σ → Prop}
    (refused : ∀ e, l.pairs target wiring = .error e → E e s) (start : I [] [] s)
    (step : ∀ ps before p later cs, l.pairs target wiring = .ok ps → ps = before ++ p :: later →
      Ends (I before cs) (Graph.project p.1 p.2 weight draw)
        (fun c => I (before ++ [p]) (cs ++ [c])) E) :
    Ending (fun cs s' => ∃ ps, l.pairs target wiring = .ok ps ∧ I ps cs s') E
      ((l.projectOnto target wiring weight draw).run s) := by
  cases hp : l.pairs target wiring with
  | error e =>
    rw [projectOnto, bind_of_error (ask_fixed_of_error hp _)]
    exact refused e hp
  | ok ps =>
    rw [projectOnto, bind_of_ok (ask_fixed_of_ok hp _)]
    exact (ends_mapM (fun before p later cs => step ps before p later cs hp) s start).mono
      (fun _ _ kept => ⟨ps, rfl, kept⟩) fun _ _ failed => failed

/-- Wiring a layer onto neurons that are there is refused at once, because of the sizes, or fails
at the draw of a weight. -/
theorem projectOnto_ends {g : Graph} {r : σ} {weight : Option Float}
    {draw : EStateM NetworkError σ Float} (h : g.Intact ks) (hl : ∀ id ∈ l.neurons, id ∈ ks)
    (ht : ∀ id ∈ target, id ∈ ks) :
    Ending (fun _ s => s.1.Intact ks)
      (fun e s => (wiring = .oneToOne ∧ target.length ≠ l.size) ∧ s = (g, r) ∨
        ∃ r r', draw.run r = .error e r')
      ((l.projectOnto target wiring weight draw).run (g, r)) := by
  have there {g : Graph} (h : g.Intact ks) {id : NeuronId} (hid : id ∈ ks) :
      g.neurons.contains id := by
    rw [← h.2] at hid
    simpa using hid
  refine (ends_projectOnto (I := fun _ _ s => s.1.Intact ks) (fun e hp => .inl ⟨pairs_error hp, rfl⟩) h
    fun ps before p later cs hp ps_eq => ?_).mono (fun _ _ ⟨_, _, intact⟩ => intact) fun _ _ failed => failed
  rintro ⟨g, r⟩ intact
  obtain ⟨hs, ht'⟩ := mem_of_mem_pairs hp (by simp [ps_eq] : p ∈ ps)
  have kept := Graph.intact_project p.1 p.2 weight draw (g, r) intact
  cases hr : (Graph.project p.1 p.2 weight draw).run (g, r) with
  | ok c s =>
    rw [hr] at kept
    exact kept
  | error e s =>
    obtain ⟨-, r', draw_eq⟩ :=
      Graph.project_error (there intact (hl _ hs)) (there intact (ht _ ht')) hr
    exact .inr ⟨r, r', draw_eq⟩

end Projecting

end Layer

end GatedNetwork
