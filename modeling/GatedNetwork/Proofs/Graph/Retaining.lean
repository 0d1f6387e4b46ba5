import Mathlib.Tactic.ByContra
import Mathlib.Tactic.Push
import GatedNetwork.Proofs.Graph.Joining
import GatedNetwork.Proofs.Graph.Removal
import GatedNetwork.Proofs.Graph.Traces

/-! What an edit of a graph does to the numbers that were there before. Each is kept or set to what the
edit gives; those of a trace go only with the connection that they belong to, or with the last gate
that kept the trace open. -/

namespace GatedNetwork

namespace Graph

/-- The traces towards the target of a connection that its gater keeps for this connection alone. -/
def ClosesWith (g : Graph) (c : ConnectionId) (k : Key) : Prop :=
  k.Towards c.target ∧ ∃ x, g.gater? c = some x ∧ k.IsOf x ∧
    ∀ d, g.gater? d = some x → d.target = c.target → d = c

/-- Every number of the first graph is kept by the second one, or set as given, unless it is dropped. -/
structure Retains (sets : Key → Option Float) (drops : Key → Prop) (g g' : Graph) : Prop where
  kept : ∀ k x, g.held? k = some x → ¬ drops k → g'.held? k = some ((sets k).getD x)
  dropped : ∀ k, (g.held? k).isSome → drops k → g'.held? k = none

section Composing

variable {g g' g₁ g₂ : Graph} {sets sets' : Key → Option Float} {drops drops' : Key → Prop}

theorem Retains.refl (g : Graph) : Retains (fun _ => none) (fun _ => False) g g :=
  ⟨fun _ _ h _ => h, fun _ _ h => h.elim⟩

/-- What the first step drops must not come back in the second. -/
theorem Retains.trans (h : Retains sets drops g g₁) (h' : Retains sets' drops' g₁ g₂)
    (gone : ∀ k, drops k → g₁.held? k = none → g₂.held? k = none) :
    Retains (fun k => (sets' k).or (sets k)) (fun k => drops k ∨ drops' k) g g₂ where
  kept k x hx stays := by
    rw [not_or] at stays
    rw [h'.kept k _ (h.kept k x hx stays.1) stays.2]
    cases sets' k <;> rfl
  dropped k hk lost := by
    obtain ⟨x, hx⟩ := Option.isSome_iff_exists.mp hk
    by_cases first : drops k
    · exact gone k first (h.dropped k hk first)
    · exact h'.dropped k (by simp [h.kept k x hx first]) (lost.resolve_left first)

/-- A number that is not there or is dropped may be said to be set to anything. -/
theorem Retains.congr (h : Retains sets drops g g')
    (same : ∀ k x, g.held? k = some x → ¬ drops' k → sets' k = sets k)
    (lost : ∀ k, drops' k ↔ drops k) : Retains sets' drops' g g' where
  kept k x hx stays := by rw [same k x hx stays, h.kept k x hx fun gone => stays ((lost k).mpr gone)]
  dropped k hk gone := h.dropped k hk ((lost k).mp gone)

/-- Of two changes that drop nothing the later one has the say. -/
theorem Retains.followed {both : Key → Option Float} (h : Retains sets (fun _ => False) g g₁)
    (h' : Retains sets' (fun _ => False) g₁ g₂) (later : ∀ k, both k = (sets' k).or (sets k)) :
    Retains both (fun _ => False) g g₂ :=
  (h.trans h' fun _ => False.elim).congr (fun k _ _ _ => later k) (by simp)

end Composing

section Parts

variable {g : Graph} {id : NeuronId} {c : ConnectionId} {k : Key} {sets : Key → Option Float}

theorem retains_withNeuron {f : Neuron → Neuron}
    (own : ∀ n, g.neurons.get? id = some n → ∀ k x, k.IsOf id → n.held? k = some x →
      (f n).held? k = some ((sets k).getD x))
    (others : ∀ k, ¬ k.IsOf id → sets k = none) :
    Retains sets (fun _ => False) g (g.withNeuron id f) := by
  refine ⟨fun k x hx _ => ?_, fun _ _ => False.elim⟩
  by_cases hk : k.IsOf id
  · rw [held?_of_isOf hk] at hx
    obtain ⟨n, hn, hx⟩ := Option.bind_eq_some_iff.mp hx
    rw [held?_of_isOf hk, withNeuron_get?, if_pos rfl, hn]
    exact own n hn k x hk hx
  · rw [withNeuron_held?_of_not_isOf _ _ _ hk, hx, others k hk]
    rfl

theorem retains_withConnection {u : Connection → Connection}
    (weight : ∀ d, g.connection? c = some d → (u d).weight = (sets (.weight c)).getD d.weight)
    (gain : ∀ d, g.connection? c = some d → (u d).gain = (sets (.gain c)).getD d.gain)
    (others : ∀ k, k ≠ .weight c → k ≠ .gain c → sets k = none) :
    Retains sets (fun _ => False) g (g.withConnection c u) := by
  refine ⟨fun k x hx _ => ?_, fun _ _ => False.elim⟩
  by_cases hw : k = .weight c
  · subst hw
    obtain ⟨d, hd, rfl⟩ := Option.map_eq_some_iff.mp hx
    simp [held?, hd, weight d hd]
  by_cases hg : k = .gain c
  · subst hg
    obtain ⟨d, hd, rfl⟩ := Option.map_eq_some_iff.mp hx
    simp [held?, hd, gain d hd]
  · rw [g.withConnection_held?_of_ne u hw hg, hx, others k hw hg]
    rfl

theorem held?_of_neurons_eq {g' : Graph} (neurons_eq : g'.neurons = g.neurons)
    (hw : ∀ d, k ≠ .weight d) (hg : ∀ d, k ≠ .gain d) : g'.held? k = g.held? k := by
  cases k with
  | weight d => exact absurd rfl (hw d)
  | gain d => exact absurd rfl (hg d)
  | rate | target | error | gradient => rfl
  | _ => simp only [held?, neurons_eq]

end Parts

section Gates

variable {g : Graph} {c : ConnectionId} {k : Key} {x : NeuronId}

theorem held?_withConnection_of_towards (hk : k.Towards c.target) (u : Connection → Connection) :
    (g.withConnection c u).held? k = g.held? k :=
  g.withConnection_held?_of_ne u (by rintro rfl; exact hk) (by rintro rfl; exact hk)

theorem exists_of_get?_withConnection {u : Connection → Connection} {n : Neuron}
    (hn : (g.withConnection c u).neurons.get? x = some n) : ∃ m, g.neurons.get? x = some m ∧
      n.inputs = m.inputs ∧ n.gated = m.gated ∧ n.trace = m.trace := by
  rw [withConnection_get?] at hn
  split at hn
  · obtain ⟨m, hm, rfl⟩ := Option.map_eq_some_iff.mp hn
    exact ⟨m, hm, rfl, rfl, rfl⟩
  · exact ⟨n, hn, rfl, rfl, rfl⟩

theorem Linked.gated_withConnection (h : g.Linked) {u : Connection → Connection} {n : Neuron}
    (hn : (g.withConnection c u).neurons.get? x = some n) (d : ConnectionId) :
    n.gated.contains d ↔ g.gater? d = some x := by
  obtain ⟨m, hm, -, gated_eq, -⟩ := exists_of_get?_withConnection hn
  rw [gated_eq]
  exact h.gated_iff x m hm d

theorem held?_dropGater_of_not_towards (hk : ¬ k.Towards c.target) (hg : k ≠ .gain c) (x : NeuronId) :
    (g.dropGater c x).held? k = g.held? k := by
  rw [dropGater, withNeuron_held?_of_fixed fun n _ => n.held?_removeGated_of_not_towards hk]
  by_cases hw : k = .weight c
  · subst hw
    simp [held?, Function.comp_def]
  · exact g.withConnection_held?_of_ne _ hw hg

theorem held?_dropGater_of_closes (h : g.Linked) (closes : g.ClosesWith c k) (hx : g.gater? c = some x) :
    (g.dropGater c x).held? k = none := by
  obtain ⟨hk, y, hy, own, last⟩ := closes
  obtain rfl : x = y := Option.some.inj (hx.symm.trans hy)
  rw [dropGater, held?_of_isOf own, withNeuron_get?, if_pos rfl, Option.bind_map]
  refine Option.bind_eq_none_iff.mpr fun n hn => n.held?_removeGated_of_last hk fun d hd => ?_
  exact last d ((h.gated_withConnection hn d).mp hd)

/-- The gater keeps the traces open as long as it has another gate into the same neuron. -/
theorem held?_dropGater_of_not_closes (h : g.Linked) (hx : g.gater? c = some x) (hg : k ≠ .gain c)
    (stays : ¬ g.ClosesWith c k) : (g.dropGater c x).held? k = g.held? k := by
  by_cases hk : k.Towards c.target
  · refine Eq.trans ?_ (held?_withConnection_of_towards hk fun d => { d with gater := none, gain := 1 })
    by_cases own : k.IsOf x
    · refine withNeuron_held?_of_fixed fun n hn => ?_
      obtain ⟨d, hd, same, other⟩ : ∃ d, g.gater? d = some x ∧ d.target = c.target ∧ d ≠ c := by
        by_contra alone
        push Not at alone
        exact stays ⟨hk, x, hx, own, alone⟩
      exact n.held?_removeGated_of_other ((h.gated_withConnection hn d).mpr hd) other same
    · exact withNeuron_held?_of_not_isOf _ x _ own
  · exact held?_dropGater_of_not_towards hk hg x

/-- What taking the gater of a connection away sets. -/
def resetGain (g : Graph) (c : ConnectionId) (k : Key) : Option Float :=
  if k = .gain c ∧ (g.gater? c).isSome then some 1 else none

theorem resetGain_of_skeleton_eq {g' : Graph} (hs : g.skeleton = g'.skeleton) :
    g.resetGain = g'.resetGain := by
  funext c k
  simp only [resetGain, gater?_of_skeleton_eq hs]

theorem closesWith_of_skeleton_eq {g' : Graph} (hs : g.skeleton = g'.skeleton) :
    g.ClosesWith = g'.ClosesWith := by
  funext c k
  simp only [ClosesWith, gater?_of_skeleton_eq hs]

theorem retains_ungated (h : g.Linked) (c : ConnectionId) :
    Retains (g.resetGain c) (g.ClosesWith c) g (g.ungated c) := by
  cases hg : g.gater? c with
  | none =>
    rw [ungated_of_free hg]
    refine (Retains.refl g).congr (fun k _ _ _ => by simp [resetGain, hg]) fun k => ⟨?_, False.elim⟩
    rintro ⟨-, x, hx, -⟩
    simp [hg] at hx
  | some y =>
    have ungated_eq : g.ungated c = g.dropGater c y := by rw [ungated, hg]
    rw [ungated_eq]
    refine ⟨fun k x hx stays => ?_, fun k _ closes => held?_dropGater_of_closes h closes hg⟩
    by_cases hk : k = .gain c
    · subst hk
      obtain ⟨d, hd, -⟩ := Option.map_eq_some_iff.mp hx
      simp [held?, connection?_dropGater, hd, resetGain, hg]
    · rw [held?_dropGater_of_not_closes h hg hk stays, hx]
      simp [resetGain, hk]

theorem retains_setGater (h : g.Linked) (c : ConnectionId) (x : NeuronId) :
    Retains (fun _ => none) (fun _ => False) g (g.setGater c x) := by
  have named : Retains (fun _ => none) (fun _ => False) g
      (g.withConnection c fun d => { d with gater := some x }) :=
    retains_withConnection (fun _ _ => rfl) (fun _ _ => rfl) fun _ _ _ => rfl
  refine named.followed (retains_withNeuron (fun n hn k y _ hy => ?_) fun _ _ => rfl) fun _ => rfl
  obtain ⟨m, hm, inputs_eq, gated_eq, trace_eq⟩ := exists_of_get?_withConnection hn
  exact Neuron.held?_addGated ((h.traced x m hm).congr inputs_eq gated_eq trace_eq) hy

/-- The traces that the old gater loses are not among those that the new one gets. -/
theorem retains_gatedBy (h : g.Consistent) (x : NeuronId) (c : ConnectionId) :
    Retains (fun k => if g.gater? c = some x then none else g.resetGain c k)
      (fun k => g.gater? c ≠ some x ∧ g.ClosesWith c k) g (g.gatedBy x c) := by
  unfold gatedBy
  split
  · rename_i same
    exact (Retains.refl g).congr (by simp) (by simp [same])
  · rename_i other
    refine ((retains_ungated h.toLinked c).trans (retains_setGater (h.ungated c).toLinked c x) ?_).congr
      (by simp) (by simp [other])
    rintro k ⟨hk, y, hy, own, -⟩ gone
    have foreign : ¬ k.IsOf x := by
      intro own'
      have same : y = x := by
        cases k with
        | extended | influence => exact own.symm.trans own'
        | _ => exact hk.elim
      exact other (same ▸ hy)
    rw [setGater, withNeuron_held?_of_not_isOf _ x _ foreign, held?_withConnection_of_towards hk, gone]

end Gates

section Edges

variable {g : Graph} {c : ConnectionId} {k : Key}

/-- Enabling and disabling a self-connection changes no other number than its weight. -/
theorem retains_withLoop (g : Graph) (id : NeuronId) (weight : Float) (on : Bool) :
    Retains (fun k => if k = .weight (.loop id) then some weight else none) (fun _ => False) g
      (g.withNeuron id fun n =>
        { n with selfConnection := { n.selfConnection with weight }, selfConnected := on }) := by
  refine retains_withNeuron (fun n _ k x own hx => ?_) fun k own => if_neg ?_
  · cases k with
    | weight d =>
      obtain rfl := own
      simp [Neuron.held?]
    | _ =>
      rw [if_neg (by simp)]
      exact hx
  · rintro rfl
    exact own rfl

theorem retains_withWeight (g : Graph) (c : ConnectionId) (weight : Float) :
    Retains (fun k => if k = .weight c then some weight else none) (fun _ => False) g
      (g.withConnection c fun d => { d with weight }) :=
  retains_withConnection (by simp) (by simp) (by simp +contextual)

theorem retains_attach (h : g.Linked) (regular : c.isSelf = false)
    (absent : g.connections.contains c = false) (weight : Float) :
    Retains (fun _ => none) (fun _ => False) g (g.attach c weight) := by
  have joined {d : ConnectionId} {f : Connection → Float} {x : Float}
      (hx : (g.connection? d).map f = some x) :
      ((g.attach c weight).connection? d).map f = some x := by
    have other : c ≠ d := by
      rintro rfl
      rw [connection?_of_not_isSelf regular] at hx
      simp_all [SortedMap.contains_eq_isSome]
    rw [connection?_attach regular, if_neg other, hx]
  let listed := g.withNeuron c.source fun n => { n with projected := n.projected.insert c }
  have source_kept : Retains (fun _ => none) (fun _ => False) g listed :=
    retains_withNeuron (fun n _ k x own hx => by cases k <;> exact hx) fun _ _ => rfl
  have target_kept : Retains (fun _ => none) (fun _ => False) listed
      (listed.withNeuron c.target (·.addInput c)) := by
    refine retains_withNeuron (fun n hn k x _ hx => ?_) fun _ _ => rfl
    have apart : c.source ≠ c.target := by simpa [ConnectionId.isSelf] using regular
    rw [withNeuron_get?, if_neg apart] at hn
    refine Neuron.held?_addInput (h.traced _ n hn) (Bool.eq_false_iff.mpr fun listed => ?_) hx
    simp [((h.inputs_iff _ n hn c).mp listed).2] at absent
  have inside {k : Key} (hw : ∀ d, k ≠ .weight d) (hg : ∀ d, k ≠ .gain d) :
      (g.attach c weight).held? k = (listed.withNeuron c.target (·.addInput c)).held? k :=
    held?_of_neurons_eq rfl hw hg
  refine ⟨fun k x hx _ => ?_, fun _ _ => False.elim⟩
  cases k with
  | weight d => exact joined hx
  | gain d => exact joined hx
  | _ =>
    rw [inside (by simp) (by simp)]
    exact (source_kept.followed target_kept fun _ => rfl).kept _ x hx id

theorem held?_detach_of_not_concerns (regular : c.isSelf = false) (hk : ¬ k.Concerns c) :
    (g.detach c).held? k = g.held? k := by
  have joined {d : ConnectionId} (other : d ≠ c) (f : Connection → Float) :
      ((g.detach c).connection? d).map f = (g.connection? d).map f := by
    rw [connection?_detach regular, if_neg (Ne.symm other)]
  let unlisted := g.withNeuron c.source fun n => { n with projected := n.projected.erase c }
  have source_kept : unlisted.held? k = g.held? k :=
    withNeuron_held?_of_fixed fun n _ => by cases k <;> rfl
  have target_kept : (unlisted.withNeuron c.target (·.removeInput c)).held? k = unlisted.held? k := by
    by_cases own : k.IsOf c.target
    · exact withNeuron_held?_of_fixed fun n _ => n.held?_removeInput hk own
    · exact withNeuron_held?_of_not_isOf _ _ _ own
  have inside (hw : ∀ d, k ≠ .weight d) (hg : ∀ d, k ≠ .gain d) :
      (g.detach c).held? k = (unlisted.withNeuron c.target (·.removeInput c)).held? k :=
    held?_of_neurons_eq rfl hw hg
  cases k with
  | weight d | gain d => exact joined hk _
  | _ => exact (inside (by simp) (by simp)).trans (target_kept.trans source_kept)

theorem held?_detach_of_concerns (regular : c.isSelf = false) (hk : k.Concerns c) :
    (g.detach c).held? k = none := by
  have inside (own : k.IsOf c.target) (erased : ∀ n : Neuron, (n.removeInput c).held? k = none) :
      (g.detach c).held? k = none := by
    rw [held?_of_isOf own, detach, SortedMap.get?_modify, if_pos rfl, Option.bind_map]
    exact Option.bind_eq_none_iff.mpr fun n _ => erased n
  cases k with
  | weight d | gain d =>
    obtain rfl : d = c := hk
    simp [held?, connection?_detach regular]
  | eligibility n d =>
    obtain ⟨rfl, rfl⟩ := hk
    exact inside rfl fun n => by simp [Neuron.held?, Neuron.removeInput]
  | extended n j d =>
    obtain ⟨rfl, rfl⟩ := hk
    refine inside rfl fun n => ?_
    simp only [Neuron.held?, Neuron.removeInput, SortedMap.get?_mapValues]
    cases n.trace.extended.get? j <;> simp
  | _ => exact hk.elim

theorem retains_detach (regular : c.isSelf = false) :
    Retains (fun _ => none) (·.Concerns c) g (g.detach c) :=
  ⟨fun _ _ hx hk => (held?_detach_of_not_concerns regular hk).trans hx,
    fun _ _ hk => held?_detach_of_concerns regular hk⟩

/-- A connection between two neurons is gone with its traces; a self-connection has weight 0. -/
theorem retains_disconnected (h : g.Linked) (c : ConnectionId) :
    Retains (fun k => if c.isSelf ∧ k = .weight c then some 0 else g.resetGain c k)
      (fun k => g.ClosesWith c k ∨ c.isSelf = false ∧ k.Concerns c) g (g.disconnected c) := by
  unfold disconnected
  cases self : c.isSelf with
  | true =>
    have disabled := retains_withLoop (g.ungated c) c.source 0 false
    refine ((retains_ungated h c).trans disabled ?_).congr (fun k _ _ _ => ?_) (by simp)
    · rintro k ⟨hk, -⟩ gone
      refine Eq.trans (withNeuron_held?_of_fixed fun n _ => ?_) gone
      cases k with
      | extended | influence => rfl
      | _ => exact hk.elim
    · rw [← eq_loop_of_isSelf self]
      by_cases hk : k = .weight c <;> simp [hk]
  | false =>
    refine ((retains_ungated h c).trans (retains_detach self) ?_).congr (by simp) (by simp)
    intro k _ gone
    by_cases hk : k.Concerns c
    · exact held?_detach_of_concerns self hk
    · exact (held?_detach_of_not_concerns self hk).trans gone

end Edges

section Neurons

variable {g : Graph} {id : NeuronId}

theorem retains_addNeuron (absent : g.neurons.contains id = false) (squash : Squash) (bias : Float) :
    Retains (fun _ => none) (fun _ => False) g (g.addNeuron id squash bias) := by
  have missing : g.neurons.get? id = none := by simpa [SortedMap.contains_eq_isSome] using absent
  have joined {d : ConnectionId} {f : Connection → Float} {x : Float}
      (hx : (g.connection? d).map f = some x) :
      ((g.addNeuron id squash bias).connection? d).map f = some x := by
    have other : d ≠ .loop id := by
      rintro rfl
      simp [connection?_loop, missing] at hx
    rw [connection?_addNeuron, if_neg other, hx]
  have inside {k : Key} {x : Float} {id' : NeuronId} (own : k.IsOf id') (hx : g.held? k = some x) :
      (g.addNeuron id squash bias).held? k = some x := by
    rw [held?_of_isOf own] at hx ⊢
    have other : id ≠ id' := by
      rintro rfl
      simp [missing] at hx
    rw [addNeuron_get?, if_neg other, hx]
  refine ⟨fun k x hx _ => ?_, fun _ _ => False.elim⟩
  cases k with
  | rate | target | error | gradient => nomatch hx
  | weight d => exact joined hx
  | gain d => exact joined hx
  | _ => exact inside rfl hx

theorem retains_withNeurons {f : Neuron → Neuron} (sets : List NeuronId → Key → Option Float)
    (one : ∀ (id : NeuronId) (g : Graph), Retains (sets [id]) (fun _ => False) g (g.withNeuron id f))
    (nil : ∀ k, sets [] k = none) (cons : ∀ id ids k, sets (id :: ids) k = (sets ids k).or (sets [id] k))
    (ids : List NeuronId) (g : Graph) : Retains (sets ids) (fun _ => False) g (g.withNeurons ids f) := by
  induction ids generalizing g with
  | nil => exact (Retains.refl g).congr (fun k _ _ _ => nil k) fun _ => .rfl
  | cons id ids ih => exact (one id g).followed (ih _) (cons id ids)

def biasesOf (ids : List NeuronId) (bias : Float) : Key → Option Float
  | .bias id => if id ∈ ids then some bias else none
  | _ => none

theorem retains_biases (ids : List NeuronId) (bias : Float) (g : Graph) :
    Retains (biasesOf ids bias) (fun _ => False) g (g.withNeurons ids fun n => { n with bias }) := by
  refine retains_withNeurons (biasesOf · bias)
    (fun id g => retains_withNeuron (fun n _ k x own hx => ?_) fun k own => ?_)
    (fun k => ?_) (fun id ids k => ?_) ids g
  · cases k with
    | bias id' =>
      obtain rfl := own
      simp [biasesOf, Neuron.held?]
    | _ => exact hx
  · cases k with
    | bias id' => simp [biasesOf, show id' ≠ id from own]
    | _ => rfl
  · cases k <;> simp [biasesOf]
  · cases k with
    | bias id' => by_cases later : id' ∈ ids <;> simp [biasesOf, later]
    | _ => rfl

theorem retains_squashes (ids : List NeuronId) (squash : Squash) (g : Graph) :
    Retains (fun _ => none) (fun _ => False) g (g.withNeurons ids fun n => { n with squash }) :=
  retains_withNeurons (fun _ _ => none)
    (fun _ _ => retains_withNeuron (fun _ _ k _ _ hx => by cases k <;> exact hx) fun _ _ => rfl)
    (fun _ => rfl) (fun _ _ _ => rfl) ids g

end Neurons

section Wiring

variable {σ : Type} {g : Graph}

/-- What connecting neurons sets. A connection that is there keeps its weight if none is given, but
that of a neuron to itself gets weight 1. -/
def wired (cs : List ConnectionId) (weight : Option Float) : Key → Option Float
  | .weight c => if c ∈ cs then if c.isSelf then some (weight.getD 1) else weight else none
  | _ => none

theorem wired_append (cs ds : List ConnectionId) (weight : Option Float) (k : Key) :
    wired (cs ++ ds) weight k = (wired ds weight k).or (wired cs weight k) := by
  cases k with
  | weight c => by_cases early : c ∈ cs <;> by_cases late : c ∈ ds <;> simp [wired, early, late]
  | _ => rfl

theorem wired_regular {c : ConnectionId} (regular : c.isSelf = false) (weight : Option Float) (k : Key) :
    wired [c] weight k = if k = .weight c then weight else none := by
  cases k with
  | weight d =>
    by_cases same : d = c
    · subst same
      simp [wired, regular]
    · simp [wired, same]
  | _ => simp [wired]

theorem wired_loop (id : NeuronId) (weight : Option Float) (k : Key) :
    wired [.loop id] weight k = if k = .weight (.loop id) then some (weight.getD 1) else none := by
  cases k with
  | weight d =>
    by_cases same : d = .loop id
    · subst same
      simp [wired]
    · simp [wired, same]
  | _ => simp [wired]

/-- Connecting two neurons that are connected sets the weight if one is given; to connect two that are
not changes no number that is there. -/
theorem retains_project (h : g.Consistent) (source target : NeuronId) (weight : Option Float)
    (draw : EStateM NetworkError σ Float) (r : σ) :
    Ending (fun c s => c = ⟨source, target⟩ ∧ s.1.Consistent ∧
        Retains (wired [⟨source, target⟩] weight) (fun _ => False) g s.1)
      (fun _ _ => True) ((project source target weight draw).run (g, r)) := by
  have kept := keeps_project source target weight draw (g, r) h
  rcases project_cases source target weight draw g r with
    ⟨id, -, -, heq⟩ | ⟨hs, ht, ⟨rfl, heq⟩ | ⟨hne, hc, heq⟩ | ⟨hne, hc, heq⟩⟩
  · rw [heq]
    trivial
  · rw [heq] at kept ⊢
    exact ⟨rfl, kept, (retains_withLoop g source (weight.getD 1) true).congr
      (fun k _ _ _ => wired_loop source weight k) fun _ => .rfl⟩
  · have regular : (⟨source, target⟩ : ConnectionId).isSelf = false := by
      simp [ConnectionId.isSelf, hne]
    rw [heq] at kept ⊢
    refine ⟨rfl, kept, ?_⟩
    cases weight with
    | none => exact (Retains.refl g).congr (fun k _ _ _ => by simp [wired_regular regular]) fun _ => .rfl
    | some w =>
      exact (retains_withWeight g _ w).congr (fun k _ _ _ => wired_regular regular _ k) fun _ => .rfl
  · have regular : (⟨source, target⟩ : ConnectionId).isSelf = false := by
      simp [ConnectionId.isSelf, hne]
    have attached (w : Float) : Retains (wired [⟨source, target⟩] weight) (fun _ => False) g
        (g.attach ⟨source, target⟩ w) := by
      refine (retains_attach h.toLinked regular hc w).congr (fun k x hx _ => ?_) fun _ => .rfl
      rw [wired_regular regular, if_neg]
      rintro rfl
      rw [held?, connection?_of_not_isSelf regular] at hx
      simp_all [SortedMap.contains_eq_isSome]
    cases weight with
    | some w =>
      rw [heq] at kept ⊢
      exact ⟨rfl, kept, attached w⟩
    | none =>
      cases hr : draw.run r with
      | ok w r' =>
        simp only [hr] at heq
        rw [heq] at kept ⊢
        exact ⟨rfl, kept, attached w⟩
      | error e r' =>
        simp only [hr] at heq
        rw [heq]
        trivial

end Wiring

end Graph

section Layers

variable {σ : Type} {g : Graph}

/-- Wiring a layer, by the connections that the answer names. -/
theorem Layer.retains_projectOnto (h : g.Consistent) (l : Layer) (target : List NeuronId)
    (wiring : Wiring) (weight : Option Float) (draw : EStateM NetworkError σ Float) (r : σ) :
    Ending (fun cs s => s.1.Consistent ∧ g.Retains (Graph.wired cs weight) (fun _ => False) s.1)
      (fun _ _ => True) ((l.projectOnto target wiring weight draw).run (g, r)) := by
  have start : g.Retains (Graph.wired [] weight) (fun _ => False) g :=
    (Graph.Retains.refl g).congr (fun k _ _ _ => by cases k <;> simp [Graph.wired]) fun _ => .rfl
  refine (ends_projectOnto (I := fun _ cs s => s.1.Consistent ∧
    g.Retains (Graph.wired cs weight) (fun _ => False) s.1) (E := fun _ _ => True)
    (fun _ _ => trivial) ⟨h, start⟩ ?_).mono (fun _ _ ⟨_, _, kept⟩ => kept) fun _ _ failed => failed
  rintro ps before p later cs - - ⟨g', r'⟩ ⟨consistent, retained⟩
  refine (Graph.retains_project consistent p.1 p.2 weight draw r').mono ?_ fun _ _ _ => trivial
  rintro _ s ⟨rfl, consistent', step⟩
  exact ⟨consistent', retained.followed step (Graph.wired_append cs _ weight)⟩

end Layers

end GatedNetwork
