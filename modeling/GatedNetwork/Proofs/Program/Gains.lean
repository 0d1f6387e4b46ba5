import GatedNetwork.Proofs.Program.Mirror

/-! The gains after a forward pass. Each neuron hands its new activation to the connections that it
gates, and neither is written again in the pass: the activation because each neuron has one turn,
the gain because a connection has one gater. -/

namespace GatedNetwork

open Listing

theorem Reading.run_copyGains {cs : List ConnectionId} {c : ConnectionId} (hc : c ∈ cs) (id : NeuronId)
    (σ : Reading) :
    σ.run (cs.map fun c => .copy (.gain c) (.activation id)) (.gain c) = σ (.activation id) := by
  induction cs generalizing σ with
  | nil => nomatch hc
  | cons d cs ih =>
    have step_eq : σ.step (.copy (.gain d) (.activation id)) =
        Function.update σ (.gain d) (σ (.activation id)) := by
      simp [Reading.step, Instruction.effect]
    rw [List.map_cons, run_cons, step_eq]
    by_cases later : c ∈ cs
    · rw [ih later, Function.update_of_ne (by simp)]
    · obtain rfl : c = d := (List.mem_cons.mp hc).resolve_right later
      have unwritten : Key.gain c ∉ blockWrites
          (cs.map fun c => Instruction.copy (Key.gain c) (.activation id)) := by
        simpa [mem_blockWrites_map, Instruction.writes] using later
      rw [run_of_notMem _ unwritten, Function.update_self]

section Firing

variable {g : Graph} {r : NeuronId × Role} {n : Neuron} {σ : Reading} {c : ConnectionId}
  {rs : List (NeuronId × Role)}

theorem fire_eq_run_gainBlock (hn : g.neurons.get? r.1 = some n) (σ : Reading) :
    ∃ τ : Reading, σ.fire (g.listing r) = τ.run (gainBlock r.1 n) := by
  rw [Graph.listing_eq hn, Reading.fire]
  obtain ⟨id, role⟩ := r
  cases role with
  | input => exact ⟨_, Reading.run_append _ _ _⟩
  | hidden | output =>
    rw [listingOf, ofErrorBlock, traceBlock_eq]
    exact ⟨_, Reading.run_append _ _ _⟩

theorem fire_gain (hn : g.neurons.get? r.1 = some n) (hc : n.gated.contains c) (σ : Reading) :
    σ.fire (g.listing r) (.gain c) = σ.fire (g.listing r) (.activation r.1) := by
  obtain ⟨τ, fire_eq⟩ := fire_eq_run_gainBlock hn σ
  have unwritten : Key.activation r.1 ∉ blockWrites (gainBlock r.1 n) := by
    simp [mem_blockWrites_gainBlock]
  rw [fire_eq, τ.run_of_notMem unwritten, gainBlock]
  exact Reading.run_copyGains (SortedSet.mem_toList_iff.mpr hc) r.1 τ

theorem foldl_fire_gain_of_notMem (h : g.Linked) (present : ∀ r ∈ rs, g.neurons.contains r.1)
    (apart : ∀ r ∈ rs, g.gater? c ≠ some r.1) (σ : Reading) :
    (rs.map g.listing).foldl Reading.fire σ (.gain c) = σ (.gain c) := by
  refine Reading.foldl_frame fun l hl τ => ?_
  obtain ⟨r, hr, rfl⟩ := List.mem_map.mp hl
  obtain ⟨n, hn⟩ := Graph.get?_of_contains (present r hr)
  refine fire_of_unwritten hn (fun _ => trivial) fun d hd same => apart r hr ?_
  obtain rfl := Key.gain.inj same
  exact (h.gated_iff r.1 n hn c).mp hd

theorem foldl_fire_of_notMem {x : NeuronId} {k : Key} (present : ∀ r ∈ rs, g.neurons.contains r.1)
    (fresh : x ∉ rs.map (·.1)) (own : ∀ y, k.IsOf y → y = x) (notGain : ∀ c, k ≠ .gain c) (σ : Reading) :
    (rs.map g.listing).foldl Reading.fire σ k = σ k := by
  refine Reading.foldl_frame fun l hl τ => ?_
  obtain ⟨r, hr, rfl⟩ := List.mem_map.mp hl
  obtain ⟨n, hn⟩ := Graph.get?_of_contains (present r hr)
  refine fire_of_unwritten hn (fun hof => ?_) fun c _ => notGain c
  exact absurd (List.mem_map.mpr ⟨r, hr, own r.1 hof⟩) fresh

/-- After a pass a gated connection has the activation of its gater as its gain. -/
theorem foldl_fire_gain (h : g.Linked) (present : ∀ r ∈ rs, g.neurons.contains r.1)
    (nodup : (rs.map (·.1)).Nodup) {x : NeuronId} (hx : x ∈ rs.map (·.1)) (hc : g.gater? c = some x)
    (σ : Reading) :
    (rs.map g.listing).foldl Reading.fire σ (.gain c) =
      (rs.map g.listing).foldl Reading.fire σ (.activation x) := by
  obtain ⟨r, hr, rfl⟩ := List.mem_map.mp hx
  obtain ⟨before, later, rfl⟩ := List.append_of_mem hr
  obtain ⟨n, hn⟩ := Graph.get?_of_contains (present r hr)
  have gates : n.gated.contains c := (h.gated_iff r.1 n hn c).mpr hc
  have later_present : ∀ q ∈ later, g.neurons.contains q.1 :=
    fun q hq => present q (List.mem_append_right _ (List.mem_cons_of_mem _ hq))
  have fresh : r.1 ∉ later.map (·.1) := by
    rw [List.map_append, List.map_cons] at nodup
    exact (List.nodup_cons.mp (List.nodup_append.mp nodup).2.1).1
  have apart : ∀ q ∈ later, g.gater? c ≠ some q.1 := by
    intro q hq same
    have id_eq : r.1 = q.1 := Option.some.inj (hc.symm.trans same)
    exact fresh (id_eq ▸ List.mem_map_of_mem hq)
  have own : ∀ y, (Key.activation r.1).IsOf y → y = r.1 := fun y hy => (show r.1 = y from hy).symm
  simp only [List.map_append, List.map_cons, List.foldl_append, List.foldl_cons]
  rw [foldl_fire_gain_of_notMem h later_present apart,
    foldl_fire_of_notMem later_present fresh own (by simp), fire_gain hn gates]

end Firing

namespace Graph

/-- Every gated connection has the activation of its gater as its gain. -/
def Driven (g : Graph) : Prop :=
  ∀ c d x, g.connection? c = some d → d.gater = some x →
    ∃ n, g.neurons.get? x = some n ∧ d.gain = n.activation

/-- A forward pass over all neurons leaves no gain from before. -/
theorem driven_of_walkForward {g live : Graph} {input output : Layer} {hidden : List Layer}
    {values answer : List Float} (h : g.Linked) (layered : g.Layered input hidden output)
    (length_eq : values.length = input.size)
    (run_eq : (walkForward input hidden output values).run g = .ok answer live) : live.Driven := by
  obtain ⟨g', run_eq', skeleton_eq, agrees⟩ := follows_walkForward h (agrees_reading g) layered.nodup
    (fun id => (layered.mem_iff id).mp) length_eq rfl
  obtain rfl : live = g' := (EStateM.Result.ok.inj (run_eq.symm.trans run_eq')).2
  have roles_ids := rolesOf_ids input hidden output
  have present : ∀ r ∈ (rolesOf input hidden output).flatten, g.neurons.contains r.1 := by
    intro r hr
    rw [← layered.mem_iff, ← roles_ids]
    exact List.mem_map_of_mem hr
  intro c d x hd hx
  have live_gater : live.gater? c = some x := by
    rw [gater?, hd]
    exact hx
  have gater_eq : g.gater? c = some x := (gater?_of_skeleton_eq skeleton_eq c).trans live_gater
  have there : g.neurons.contains x := (h.gater_mem c x gater_eq).2
  have listed : x ∈ (rolesOf input hidden output).flatten.map (·.1) := by
    rwa [roles_ids, layered.mem_iff]
  obtain ⟨n, hn⟩ := get?_of_contains (contains_of_skeleton skeleton_eq there)
  have gain_eq := agrees (.gain c) rfl
  have activation_eq := agrees (.activation x) rfl
  rw [reading_gain, hd] at gain_eq
  rw [reading_activation, hn] at activation_eq
  have fired := foldl_fire_gain h present (roles_ids ▸ layered.nodup) listed gater_eq
  exact ⟨n, hn, gain_eq.symm.trans ((fired _).trans activation_eq)⟩

end Graph

end GatedNetwork
