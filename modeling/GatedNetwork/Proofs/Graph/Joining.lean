import GatedNetwork.Proofs.Graph.Drawing
import GatedNetwork.Proofs.Graph.Undoing

/-! Connecting neurons without a given weight. A connection that is there already stays as it is,
unless it is that of a neuron to itself, which is enabled with weight 1 each time; one that is not
there is made without a gater. -/

namespace GatedNetwork

namespace Graph

/-- The second graph is the first one after the neurons of the pairs were connected one by one. -/
structure Joined (cs : List ConnectionId) (g g' : Graph) : Prop where
  contains : ∀ c, g'.contains c ↔ g.contains c ∨ c ∈ cs
  others : ∀ c, c ∉ cs → g'.connection? c = g.connection? c
  loops : ∀ c ∈ cs, c.isSelf → g'.connection? c = (g.connection? c).map fun d => { d with weight := 1 }
  standing : ∀ c, c.isSelf = false → g.contains c → g'.connection? c = g.connection? c
  fresh : ∀ c ∈ cs, c.isSelf = false → ¬ g.contains c → ∃ weight, g'.connection? c = some { weight }
  spares : (∀ c ∈ cs, c.isSelf = false) → g'.Spares g

section Composing

variable {cs ds : List ConnectionId} {g g₁ g₂ : Graph}

theorem Joined.refl (g : Graph) : g.Joined [] g :=
  ⟨by simp, fun _ _ => rfl, nofun, fun _ _ _ => rfl, nofun, fun _ => .refl g⟩

/-- What a later pair finds was there before, or an earlier pair has made it. -/
theorem Joined.append (h : g.Joined cs g₁) (h' : g₁.Joined ds g₂) : g.Joined (cs ++ ds) g₂ where
  contains c := by
    rw [h'.contains, h.contains, List.mem_append]
    exact or_assoc
  others c hc := by
    rw [List.mem_append, not_or] at hc
    exact (h'.others c hc.2).trans (h.others c hc.1)
  loops c hc self := by
    by_cases early : c ∈ cs
    · by_cases late : c ∈ ds
      · rw [h'.loops c late self, h.loops c early self, Option.map_map]
        rfl
      · rw [h'.others c late, h.loops c early self]
    · have late := (List.mem_append.mp hc).resolve_left early
      rw [h'.loops c late self, h.others c early]
  standing c regular there :=
    (h'.standing c regular ((h.contains c).mpr (.inl there))).trans (h.standing c regular there)
  fresh c hc regular absent := by
    by_cases early : c ∈ cs
    · obtain ⟨weight, made⟩ := h.fresh c early regular absent
      exact ⟨weight, (h'.standing c regular ((h.contains c).mpr (.inr early))).trans made⟩
    · have late := (List.mem_append.mp hc).resolve_left early
      exact h'.fresh c late regular fun there => absent (((h.contains c).mp there).resolve_right early)
  spares regular := by
    rw [List.forall_mem_append] at regular
    exact (h'.spares regular.2).trans (h.spares regular.1)

/-- What was missing is made without a gater; a self-connection that is not enabled has none, and
gain 1. -/
theorem Joined.made (joined : g.Joined cs g₁) (h : g.Consistent) {c : ConnectionId} (hc : c ∈ cs)
    (absent : ¬ g.contains c) : ∃ weight, g₁.connection? c = some { weight } := by
  cases self : c.isSelf with
  | false => exact joined.fresh c hc self absent
  | true =>
    have now := connection?_isSome_of_contains ((joined.contains c).mpr (.inr hc))
    rw [joined.loops c hc self, Option.isSome_map, connection?, if_pos self, Option.isSome_map] at now
    obtain ⟨n, hn⟩ := Option.isSome_iff_exists.mp now
    rw [eq_loop_of_isSelf self, contains_loop, hn] at absent
    have unmade := h.disabled_self hn (by simpa using absent)
    refine ⟨1, ?_⟩
    rw [joined.loops c hc self, connection?, if_pos self, hn, Option.map_some, unmade]
    rfl

end Composing

section Steps

variable {σ : Type} {g : Graph} {c : ConnectionId}

theorem joined_enabled (hs : g.neurons.contains c.source) (self : c.isSelf) :
    g.Joined [c] (g.enabled c.source 1) where
  contains c' := by
    rw [contains_enabled hs self, Bool.or_eq_true, decide_eq_true_eq, List.mem_singleton,
      eq_comm (a := c)]
    exact or_comm
  others c' hc := by
    have other : c' ≠ .loop c.source := fun e => hc (by simp [e, ← eq_loop_of_isSelf self])
    rw [enabled, connection?_withNeuron, if_neg other]
  loops c' hc _ := by
    obtain rfl := List.mem_singleton.mp hc
    rw [enabled, connection?_withNeuron, if_pos (eq_loop_of_isSelf self), connection?, if_pos self,
      Option.map_map]
    rfl
  standing c' regular _ := by
    have other : c' ≠ .loop c.source := fun e => by simp [e] at regular
    rw [enabled, connection?_withNeuron, if_neg other]
  fresh c' hc regular := by
    obtain rfl := List.mem_singleton.mp hc
    simp [self] at regular
  spares regular := by simp [regular c (by simp)] at self

theorem joined_attach (h : g.Linked) (regular : c.isSelf = false)
    (absent : g.connections.contains c = false) (weight : Float) :
    g.Joined [c] (g.attach c weight) where
  contains c' := by
    rw [contains_attach regular, Bool.or_eq_true, decide_eq_true_eq, List.mem_singleton,
      eq_comm (a := c)]
    exact or_comm
  others c' hc := by
    have other : c ≠ c' := fun e => hc (by simp [e])
    rw [connection?_attach regular, if_neg other]
  loops c' hc self := by
    obtain rfl := List.mem_singleton.mp hc
    simp [self] at regular
  standing c' _ there := by
    have other : c ≠ c' := by
      rintro rfl
      simp [contains_of_not_isSelf regular, absent] at there
    rw [connection?_attach regular, if_neg other]
  fresh c' hc _ _ := by
    obtain rfl := List.mem_singleton.mp hc
    exact ⟨weight, by simp [connection?_attach regular]⟩
  spares _ := by
    have detached := spares_detach (g.attach c weight) c
    rwa [detach_attach h regular absent] at detached

theorem joined_there (regular : c.isSelf = false) (there : g.contains c) : g.Joined [c] g where
  contains c' := by
    refine ⟨.inl, ?_⟩
    rintro (hc | hc)
    · exact hc
    · exact List.mem_singleton.mp hc ▸ there
  others _ _ := rfl
  loops c' hc self := by
    obtain rfl := List.mem_singleton.mp hc
    simp [self] at regular
  standing _ _ _ := rfl
  fresh c' hc _ absent := absurd (List.mem_singleton.mp hc ▸ there) absent
  spares _ := .refl g

theorem project_joined (h : g.Consistent) (source target : NeuronId)
    (draw : EStateM NetworkError σ Float) (r : σ) :
    Ending (fun c s => c = ⟨source, target⟩ ∧ s.1.Consistent ∧ g.Joined [⟨source, target⟩] s.1)
      (fun _ _ => True) ((project source target none draw).run (g, r)) := by
  have kept := keeps_project source target none draw (g, r) h
  rcases project_cases source target none draw g r with
    ⟨id, -, -, heq⟩ | ⟨hs, ht, ⟨hst, heq⟩ | ⟨hne, hc, heq⟩ | ⟨hne, hc, heq⟩⟩
  · rw [heq]
    trivial
  · rw [heq] at kept ⊢
    exact ⟨rfl, kept, joined_enabled (c := ⟨source, target⟩) hs (by simp [ConnectionId.isSelf, hst])⟩
  · have regular : (⟨source, target⟩ : ConnectionId).isSelf = false := by
      simp [ConnectionId.isSelf, hne]
    rw [heq] at kept ⊢
    exact ⟨rfl, kept, joined_there regular (by rwa [contains_of_not_isSelf regular])⟩
  · have regular : (⟨source, target⟩ : ConnectionId).isSelf = false := by
      simp [ConnectionId.isSelf, hne]
    cases hr : draw.run r with
    | ok w r' =>
      simp only [hr] at heq
      rw [heq] at kept ⊢
      exact ⟨rfl, kept, joined_attach h.toLinked regular hc w⟩
    | error e r' =>
      simp only [hr] at heq
      rw [heq]
      trivial

end Steps

end Graph

section Wiring

variable {σ : Type} {g : Graph}

/-- Wiring a layer joins its neurons pair by pair, and the answer names the pairs. -/
theorem Layer.projectOnto_joined (h : g.Consistent) (l : Layer) (target : List NeuronId)
    (wiring : Wiring) (draw : EStateM NetworkError σ Float) (r : σ) :
    Ending (fun cs s => s.1.Consistent ∧ g.Joined cs s.1) (fun _ _ => True)
      ((l.projectOnto target wiring none draw).run (g, r)) := by
  refine (ends_projectOnto (I := fun _ cs s => s.1.Consistent ∧ g.Joined cs s.1)
    (E := fun _ _ => True) (fun _ _ => trivial) ⟨h, .refl g⟩ ?_).mono (fun _ _ ⟨_, _, kept⟩ => kept)
    fun _ _ failed => failed
  rintro ps before p later cs - - ⟨g', r'⟩ ⟨consistent, joined⟩
  refine (Graph.project_joined consistent p.1 p.2 draw r').mono ?_ fun _ _ _ => trivial
  rintro _ s ⟨rfl, consistent', step⟩
  exact ⟨consistent', joined.append step⟩

end Wiring

end GatedNetwork
