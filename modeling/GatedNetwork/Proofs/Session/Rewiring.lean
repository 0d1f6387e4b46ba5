import GatedNetwork.Proofs.Network.Availability
import GatedNetwork.Proofs.Session.Directed
import GatedNetwork.Proofs.Session.Removal

/-! Mutations of the structure. One that succeeds is one edit: a hidden neuron comes or goes, or a
connection does. Any number of mutations leaves the input and output layers as they are and no hidden
layer empty that had a neuron. -/

namespace GatedNetwork

namespace Network

/-- The neuron went from a hidden layer that keeps others. -/
structure Sheds (i : Nat) (id : NeuronId) (net net' : Network) : Prop
    extends net.Removes id net' where
  member : id ∈ net.members (.hidden i)
  many : 1 < (net.members (.hidden i)).length
  frame_eq : net'.frame = (net.mapLayer (·.remove id) (.hidden i)).frame

theorem Sheds.persists {i : Nat} {id : NeuronId} {net net' : Network} (h : net.Sheds i id net') :
    net.Persists net' := by
  obtain ⟨l, hl⟩ := mem_refs_iff.mp (mem_refs_of_mem_members h.member)
  have member := h.member
  have many := h.many
  rw [members_of_layer hl] at member many
  refine persists_of_mapLayer hl (fun none => ?_) h.frame_eq
  have length_eq := List.length_erase_of_mem member
  rw [show l.neurons.erase id = [] from none, List.length_nil] at length_eq
  omega

section Redrawing

/-! What an edit does is told apart from the draws before it. -/

variable {net net' : Network} {r : RandomStream} {i : Nat} {id : NeuronId} {c : ConnectionId}

theorem Persists.redrawn (h : { net with random := r }.Persists net') : net.Persists net' := { h with }

theorem Sprouts.redrawn (h : { net with random := r }.Sprouts i id net') : net.Sprouts i id net' :=
  { h with }

theorem Cuts.redrawn (h : { net with random := r }.Cuts c net') : net.Cuts c net' := { h with }

end Redrawing

section Editing

variable {bound : NeuronId} {ids : IdSupply} {net : Network} {c : ConnectionId}

theorem Sound.disconnect_cuts (h : net.Sound bound []) (there : net.graph.contains c)
    (regular : c.isSelf = false) :
    ∃ net', (disconnect c.source c.target).run net = .ok () net' ∧ net.Cuts c net' := by
  refine ⟨{ net with graph := net.graph.disconnected c }, ?_, ?_⟩
  · rw [disconnect, bind_of_ok (get_run net), if_pos there]
    refine (bind_of_ok (restore_of_bare h.bare)).trans ?_
    exact onGraph_of_ok (Graph.disconnect_run h.consistent there)
  · constructor
    · constructor
      · exact regular
      · rfl
      · exact net.graph.disconnected_contains_neuron c
      · intro d hd
        simp [Graph.contains_disconnected, hd.symm]
      · intro d hd
        rw [Graph.connection?_disconnected h.consistent regular, if_neg hd.symm]
    · exact there
    · simp [Graph.contains_disconnected]
    · exact Graph.spares_disconnected regular

theorem Sound.closes (h : net.Sound bound []) {gap : NeuronId × NeuronId}
    (there : gap ∈ net.forwardGaps) {r : RandomStream} {net' : Network}
    (joined : { net with random := r }.Joined [⟨gap.1, gap.2⟩] net') :
    net.Closes ⟨gap.1, gap.2⟩ net' := by
  have ascends := ascends_of_mem_forwardGaps h.nodup_ids there
  have absent := absent_of_mem_forwardGaps there
  have forward : net.place gap.1 < net.place gap.2 := idxOf_lt_of_sublist h.nodup_ids ascends.forward
  have regular : (⟨gap.1, gap.2⟩ : ConnectionId).isSelf = false := by
    have apart : gap.1 ≠ gap.2 := fun same => Nat.lt_irrefl _ (same ▸ forward)
    simp [ConnectionId.isSelf, apart]
  constructor
  · constructor
    · exact regular
    · exact joined.frame_eq
    · intro x
      rw [Bool.eq_iff_iff, ← SortedMap.mem_keys, joined.intact.2, SortedMap.mem_keys]
    · intro d hd
      rw [Bool.eq_iff_iff, joined.graph.contains, List.mem_singleton, or_iff_left hd]
    · intro d hd
      exact joined.graph.others d (by simpa using hd)
  · exact absent
  · exact forward
  · exact ascends.unsent
  · exact ascends.unreceived
  · exact (joined.graph.contains _).mpr (.inr List.mem_cons_self)
  · exact joined.graph.made h.consistent List.mem_cons_self (by simp [absent])
  · exact joined.graph.spares (by simpa using regular)

theorem Sound.modifyConnections_ends (h : net.Sound bound []) :
    Ending (fun _ net' => ∃ c, net.Cuts c net' ∨ net.Closes c net')
      (fun _ net' => net'.frame = net.frame) (modifyConnections.run net) := by
  by_cases idle : net.Idle .modifyConnections
  · rw [modifyConnections_idle h idle]
    rfl
  · rcases modifyConnections_cases h idle with
      ⟨c, r, there, regular, run_eq⟩ | ⟨gap, there, r, run_eq⟩
    · have sound : { net with random := r }.Sound bound [] := h.withRandom r
      obtain ⟨net', cut, cuts⟩ := sound.disconnect_cuts there regular
      rw [run_eq, cut]
      exact ⟨c, .inl cuts.redrawn⟩
    · have sound : { net with random := r }.Sound bound [] := h.withRandom r
      obtain ⟨hs, ht⟩ := h.contains_of_mem_forwardGaps there
      rw [run_eq]
      refine Ending.bind ((sound.projectNeuron_joined hs ht).mono (fun _ _ joined => joined.2)
        fun _ _ failed => failed.2) ?_
      intro _ net' joined
      exact ⟨_, .inr (h.closes there joined)⟩

theorem Sound.modifyNeurons_ends (h : net.Sound ids.next []) :
    Ending (fun _ s => ∃ i, s.1 = ⟨ids.next + 1⟩ ∧ net.Sprouts i ids.next s.2 ∨
        s.1 = ids ∧ ∃ id, net.Sheds i id s.2)
      (fun _ s => net.Persists s.2) (modifyNeurons.run (ids, net)) := by
  rcases modifyNeurons_cases ids net with ⟨-, run_eq⟩ | ⟨i, hi, r, -, made⟩
  · rw [run_eq]
    exact .of_frame_eq rfl
  have sound : { net with random := r }.Sound ids.next [] := h.withRandom r
  rcases made with run_eq | ⟨many, id, member, run_eq⟩
  · rw [run_eq]
    refine (sound.addHiddenNeuron_ends hi).mono (fun _ s grown => ?_) fun _ _ failed =>
      failed.2.redrawn
    exact ⟨i, .inl ⟨grown.1, grown.2.redrawn⟩⟩
  · rw [run_eq]
    rcases removeNeuron_cases .plain sound (h.layerOf_member member) with
      ⟨-, net', removed_eq, sound', removed, n, -, rfl⟩ | ⟨c, -, g, -, -, failed⟩
    · rw [lift_of_ok removed_eq]
      have removes := sound.removes sound' removed
      exact ⟨i, .inr ⟨rfl, id, { removes with member, many, frame_eq := rfl }⟩⟩
    · rw [lift_of_error failed]
      exact .of_frame_eq rfl

theorem Sound.mutate_persists (h : net.Sound ids.next []) (m : Mutation) :
    Ending (fun _ s => net.Persists s.2) (fun _ s => net.Persists s.2)
      ((mutate m).run (ids, net)) := by
  have lasts := lastsWith_framed net.frame fun _ => True
  have edits {act : Edit Unit} (ha : Endures (Framed net.frame fun _ => True) (fun _ => True) act) :
      Ending (fun _ s => net.Persists s.2) (fun _ s => net.Persists s.2) ((lift act).run (ids, net)) :=
    ends_focus ((ha net ⟨h.bare, rfl, fun _ _ => trivial⟩).mono
      (fun _ _ framed => .of_frame_eq framed.frame_eq) fun _ _ framed => .of_frame_eq framed.2.frame_eq)
  have restored : (lift restore).run (ids, net) = .ok () (ids, net) :=
    lift_of_ok (restore_of_bare h.bare)
  refine Ending.bind (Q := fun _ s => s = (ids, net)) (restored ▸ rfl) ?_
  rintro ⟨⟩ s rfl
  cases m with
  | swapWeight => exact edits lasts.endures_swapWeight
  | swapBias => exact edits lasts.endures_swapBias
  | modifyRandomBias noise => exact edits (lasts.endures_modifyRandomBias fun _ => drawn_any _)
  | modifyRandomWeight noise => exact edits (lasts.endures_modifyRandomWeight fun _ => drawn_any _)
  | modifySquash allowed => exact edits (lasts.endures_modifySquash allowed)
  | modifyConnections =>
    exact edits (lasts.endures_modifyConnections fun _ _ _ _ => framed_projectNeuron trivial)
  | modifyNeurons =>
    refine h.modifyNeurons_ends.mono ?_ fun _ _ persists => persists
    rintro _ s ⟨i, ⟨-, sprouts⟩ | ⟨-, id, sheds⟩⟩
    · exact sprouts.persists
    · exact sheds.persists

end Editing

section Standing

variable {bound : NeuronId} {ids : IdSupply} {net net' bare : Network}

theorem StandsFor.persists_from (h : bare.StandsFor net) (persists : bare.Persists net') :
    net.Persists net' := by
  have layers : net.Persists bare := by
    cases h <;> exact .of_frame_eq rfl
  exact layers.trans persists

theorem StandsFor.persists_mutate (h : bare.StandsFor net) (sound : bare.Sound ids.next [])
    (m : Mutation) : net.Persists (after ((Call.mutate m).perform.run (ids, net))).2 := by
  have mutated := sound.mutate_persists m
  rw [← h.mutate_run sound] at mutated
  cases hr : (mutate m).run (ids, net) with
  | ok x s =>
    rw [Call.perform, bind_of_ok hr]
    exact h.persists_from (mutated.of_eq_ok hr)
  | error e s =>
    rw [Call.perform, bind_of_error hr]
    exact h.persists_from (mutated.of_eq_error hr)

end Standing

end Network

namespace World

open Network

variable {w w' : World} {i : Nat} {net : Network}

theorem Twins.persists_step {r : Request} (h : w.Twins w') (hi : w.networks[i]? = some net)
    (mutates : r.onlyMutates i) :
    ∃ net', (w.step r).2.networks[i]? = some net' ∧ net.Persists net' := by
  by_cases target : r.target? = some i
  · cases r with
    | reseed j random =>
      obtain rfl := Option.some.inj target
      simp only [World.step, hi]
      exact ⟨_, networks_act_self hi _, .of_frame_eq rfl⟩
    | call j c =>
      obtain rfl := Option.some.inj target
      cases c with
      | mutate m =>
        obtain ⟨bare, sound, stands⟩ := h.stands_at hi
        simp only [World.step, hi]
        exact ⟨_, networks_act_self hi _, stands.persists_mutate sound m⟩
      | _ => simp [Request.onlyMutates] at mutates
    | _ => cases target
  · exact ⟨net, networks_step hi target, .of_frame_eq rfl⟩

theorem Twins.persists_run {rs : List Request} (h : w.Twins w') (hi : w.networks[i]? = some net)
    (mutates : ∀ r ∈ rs, r.onlyMutates i) :
    ∃ net', (w.run rs).networks[i]? = some net' ∧ net.Persists net' := by
  induction rs generalizing w w' net with
  | nil => exact ⟨net, hi, .of_frame_eq rfl⟩
  | cons r rs ih =>
    obtain ⟨mutates, rest⟩ := List.forall_mem_cons.mp mutates
    obtain ⟨net', hi', persists⟩ := h.persists_step hi mutates
    obtain ⟨w'', twins⟩ := h.request r
    obtain ⟨net'', hi'', persists'⟩ := ih twins hi' rest
    exact ⟨net'', hi'', persists.trans persists'⟩

/-- A change of neurons or of connections that succeeds is one edit of the network, with the numbers
taken back from a buffer first. Any number of mutations, with any random streams in between, leaves
the input and output layers as they are and no hidden layer empty that had a neuron. -/
theorem rewires_of_mutations {cs : List Request} (run_eq : ({} : World).run cs = w)
    (hi : w.networks[i]? = some net) :
    restore.run net = .ok () net.settled ∧
    (∀ ids' net', (mutate .modifyNeurons).run (w.ids, net) = .ok () (ids', net') →
      ∃ j, ids' = ⟨w.ids.next + 1⟩ ∧ net.settled.Sprouts j w.ids.next net' ∨
        ids' = w.ids ∧ ∃ id, net.settled.Sheds j id net') ∧
    (∀ ids' net', (mutate .modifyConnections).run (w.ids, net) = .ok () (ids', net') →
      ids' = w.ids ∧ ∃ c, net.settled.Cuts c net' ∨ net.settled.Closes c net') ∧
    ∀ rs : List Request, (∀ r ∈ rs, r.onlyMutates i) →
      ∃ net', (w.run rs).networks[i]? = some net' ∧ net.Persists net' := by
  have twins := (Twins.empty.run cs).2
  rw [run_eq] at twins
  obtain ⟨bare, sound, stands⟩ := twins.stands_at hi
  have started (act : Network.Growth Unit) :
      (lift restore >>= fun _ => act).run (w.ids, bare) = act.run (w.ids, bare) :=
    bind_of_ok (lift_of_ok (restore_of_bare sound.bare))
  rw [stands.settled_eq sound]
  refine ⟨stands.restore_run sound, ?_, ?_, fun rs mutates => twins.persists_run hi mutates⟩
  · intro ids' net' run_eq
    rw [stands.mutate_run sound] at run_eq
    exact sound.modifyNeurons_ends.of_eq_ok ((started _).symm.trans run_eq)
  · intro ids' net' run_eq
    rw [stands.mutate_run sound] at run_eq
    have edited := (started (lift modifyConnections)).symm.trans run_eq
    have ends : Ending (fun _ s => s.1 = w.ids ∧ ∃ c, bare.Cuts c s.2 ∨ bare.Closes c s.2)
        (fun _ _ => True) ((lift modifyConnections).run (w.ids, bare)) :=
      ends_focus (sound.modifyConnections_ends.mono (fun _ _ edit => ⟨rfl, edit⟩) fun _ _ _ => trivial)
    exact ends.of_eq_ok edited

theorem rewires_of_mutations_chain : ∃ (w : World) (net net' : Network),
    ({} : World).run [.new 1 [1] 1 { biasInit := ⟨0, 0⟩ }, .call 0 (.projectNeuron 1 2 (some 1)),
      .call 0 (.projectNeuron 1 3 (some 1)), .call 0 (.projectNeuron 2 3 (some 1))] = w ∧
    w.networks[0]? = some net ∧
    (mutate .modifyConnections).run (w.ids, net) = .ok () (w.ids, net') ∧
    (∃ c, net.settled.Cuts c net' ∨ net.settled.Closes c net') ∧
    ∃ net'', (w.run [.call 0 (.mutate .modifyNeurons), .reseed 0 (.ofSeed 7),
        .call 0 (.mutate .modifyNeurons), .call 0 (.mutate .modifyConnections)]).networks[0]? =
      some net'' ∧ net.Persists net'' := by
  obtain ⟨w, net, run_eq, hi, settled_eq, there, full⟩ : ∃ (w : World) (net : Network),
      ({} : World).run [.new 1 [1] 1 { biasInit := ⟨0, 0⟩ }, .call 0 (.projectNeuron 1 2 (some 1)),
        .call 0 (.projectNeuron 1 3 (some 1)), .call 0 (.projectNeuron 2 3 (some 1))] = w ∧
      w.networks[0]? = some net ∧ net.settled = net ∧ net.graph.contains ⟨1, 2⟩ ∧
      net.forwardGaps = [] := ⟨_, _, rfl, rfl, rfl, rfl, rfl⟩
  obtain ⟨-, -, connections, persists⟩ := rewires_of_mutations run_eq hi
  obtain ⟨bound, sound⟩ : ∃ bound, net.Sound bound [] := by
    obtain ⟨bare, sound, stands⟩ := (Twins.empty.run _).2.stands_at (run_eq ▸ hi)
    rw [← settled_eq, stands.settled_eq sound]
    exact ⟨_, sound⟩
  obtain ⟨net', cut⟩ : ∃ net', modifyConnections.run net = .ok () net' := by
    have able : ¬ net.Idle .modifyConnections := fun idle => absurd (idle.1 _ there) (by decide)
    rcases modifyConnections_cases sound able with ⟨c, r, hc, regular, run_eq⟩ | ⟨gap, hgap, -⟩
    · have sound' : { net with random := r }.Sound bound [] := sound.withRandom r
      obtain ⟨net', cut, -⟩ := sound'.disconnect_cuts hc regular
      exact ⟨net', run_eq.trans cut⟩
    · rw [full] at hgap
      nomatch hgap
  have mutated : (mutate .modifyConnections).run (w.ids, net) = .ok () (w.ids, net') :=
    (bind_of_ok (lift_of_ok (restore_of_bare sound.bare))).trans (lift_of_ok cut)
  exact ⟨w, net, net', run_eq, hi, mutated, (connections _ _ mutated).2,
    persists _ (by simp [Request.onlyMutates])⟩

end World

end GatedNetwork
