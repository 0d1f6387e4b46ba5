import GatedNetwork.Proofs.Network.Gating
import GatedNetwork.Proofs.Session.Ageing

/-! Gating a link at any time after it was made. Neurons keep to their layers, so that a connection
that is still there joins the layers that the link names. -/

namespace GatedNetwork

open Network

section Answers

variable {w : World} {i : Nat} {source target : LayerRef} {wiring : Option Wiring}
  {weight : Option Float} {link : Link}

theorem World.project_of_answer
    (answered : (w.step (.call i (.project source target wiring weight))).1 = .ok (.link link)) :
    ∃ net net', w.networks[i]? = some net ∧
      (project source target wiring weight).run net = .ok link net' := by
  simp only [World.step] at answered
  cases hi : w.networks[i]? with
  | none =>
    rw [hi] at answered
    cases answered
  | some net =>
    rw [hi] at answered
    simp only [World.act, Call.perform] at answered
    cases hr : (project source target wiring weight).run net with
    | error e net' =>
      rw [bind_of_error (lift_of_error hr)] at answered
      cases answered
    | ok made net' =>
      rw [bind_of_ok (lift_of_ok hr)] at answered
      cases answered
      exact ⟨net, net', rfl, hr⟩

end Answers

/-- The network once answered with the link, and is what has become of it since. -/
def Network.Issued (net : Network) (link : Link) : Prop :=
  ∃ (cs rs : List Request) (i : Nat) (source target : LayerRef) (wiring : Option Wiring)
    (weight : Option Float),
    ((({} : World).run cs).step (.call i (.project source target wiring weight))).1 = .ok (.link link) ∧
    ((({} : World).run cs).run (.call i (.project source target wiring weight) :: rs)).networks[i]? =
      some net

namespace Network

variable {net net' : Network} {gater : LayerRef} {link : Link} {gating : Gating}

/-- The ends of what is left of a link stand in the layers that it names. They stood there when it was
made, their ids are not new since, and every other layer that has them now would have had them then. -/
theorem Issued.settles (h : net.Issued link) : ∃ (bound : NeuronId) (bare : Network),
    bare.Sound bound [] ∧ bare.StandsFor net ∧ link.connections.Nodup ∧
    ∀ c ∈ link.connections, net.graph.contains c →
      c.source ∈ net.members link.source ∧ c.target ∈ net.members link.target := by
  obtain ⟨cs, rs, i, source, target, wiring, weight, answered, hi⟩ := h
  obtain ⟨before, made, hbefore, run_eq⟩ := World.project_of_answer answered
  have twins := (World.Twins.empty.run cs).2
  obtain ⟨bare₀, sound₀, stands₀⟩ := twins.stands_at hbefore
  have nodup : before.ids.Nodup := stands₀.nodup_ids sound₀
  obtain ⟨once, ends⟩ := project_link nodup run_eq
  have aged : before.Aged (fun ref id => id ∈ before.members ref) (({} : World).run cs).ids.next :=
    fun _ _ => .inl
  obtain ⟨after, hafter, aged⟩ := World.aged_run hbefore (Nat.le_refl _) aged
    (.call i (.project source target wiring weight) :: rs)
  obtain rfl := Option.some.inj (hafter.symm.trans hi)
  obtain ⟨bare, sound, stands⟩ := (twins.run _).2.stands_at hi
  have stays {ref : LayerRef} {id : NeuronId} (was : id ∈ before.members ref)
      (known : after.graph.neurons.contains id) : id ∈ after.members ref := by
    have listed : id ∈ after.neurons.map (·.1) :=
      after.neurons_ids ▸ (stands.mem_ids sound id).mpr known
    obtain ⟨⟨_, ref'⟩, hp, rfl⟩ := List.mem_map.mp listed
    have now := (mem_neurons_iff.mp hp).2
    rcases aged ref' _ now with there | new
    · exact ref_eq_of_mem_members nodup was there ▸ now
    · have old : _ ∈ before.neurons.map (·.1) :=
        List.mem_map_of_mem (mem_neurons_iff.mpr ⟨mem_refs_of_mem_members was, was⟩)
      have known₀ := (stands₀.mem_ids sound₀ _).mp (before.neurons_ids ▸ old)
      exact absurd (sound₀.fresh _ (stands₀.contains_neuron _ ▸ known₀)) (Nat.not_lt.mpr new)
  refine ⟨_, bare, sound, stands, once, fun c hc there => ?_⟩
  obtain ⟨known, known'⟩ := (stands.consistent sound).toLinked.ends_of_contains there
  exact ⟨stays (ends c hc).1 known, stays (ends c hc).2 known'⟩

/-- Gating a link whose connections are all left gives each of them to the gater at the place of the
end that the gating looks at, or at its own place, except that the gating of what enters a layer
overlooks the connections of neurons to themselves. All other gaters stay as they are. -/
theorem Issued.gate_reaches (h : net.Issued link) (left : ∀ c ∈ link.connections, net.graph.contains c)
    (run_eq : (gate gater link gating).run net = .ok () net') :
    (∀ c ∈ link.connections, ¬ Overlooks gating c →
      ∃ x, (net.members gater)[net.gatingPlace link c gating]? = some x ∧ net'.graph.gater? c = some x) ∧
    ∀ c, c ∉ link.connections ∨ Overlooks gating c → net'.graph.gater? c = net.graph.gater? c := by
  obtain ⟨bound, bare, sound, stands, once, home⟩ := h.settles
  exact stands.gate_matches sound once left (fun c hc => home c hc (left c hc)) run_eq

theorem ok_of_toOption {ε α : Type} {e : Except ε α} {x : α} (h : e.toOption = some x) : e = .ok x := by
  cases e with
  | error => cases h
  | ok y => exact congrArg Except.ok (Option.some.inj h)

theorem exists_issued_loop : ∃ (net : Network) (link : Link), net.Issued link ∧
    link.connections = [⟨2, 2⟩] ∧ (∀ c ∈ link.connections, net.graph.contains c) ∧
    net.graph.gater? ⟨2, 2⟩ = none ∧
    (net.members .output)[net.gatingPlace link ⟨2, 2⟩ .output]? = some 3 ∧
    Gateable net .output link .output ∧ Gateable net .output link .input := by
  let link : Link := ⟨.hidden 0, .hidden 0, .oneToOne, [⟨2, 2⟩]⟩
  obtain ⟨net, hi, there, ungated, place_eq, leaving, entering⟩ :
      ∃ net ∈ ((({} : World).run [.new 1 [1] 1 { biasInit := ⟨0, 0⟩ }]).run
          [.call 0 (.project (.hidden 0) (.hidden 0) none (some 1))]).networks[0]?,
        net.graph.contains ⟨2, 2⟩ ∧ net.graph.gater? ⟨2, 2⟩ = none ∧
        (net.members .output)[net.gatingPlace link ⟨2, 2⟩ .output]? = some 3 ∧
        (net.gatePairs net.output.neurons link .output).toOption = some [(3, ⟨2, 2⟩)] ∧
        (net.gatePairs net.output.neurons link .input).toOption = some [] := by decide +kernel
  have answered : (match ((({} : World).run [.new 1 [1] 1 { biasInit := ⟨0, 0⟩ }]).step
      (.call 0 (.project (.hidden 0) (.hidden 0) none (some 1)))).1 with
      | .ok (.link made) => made == link
      | _ => false) = true := by decide +kernel
  have issued : net.Issued link := by
    split at answered
    · rename_i made answer_eq
      obtain rfl := eq_of_beq answered
      exact ⟨[.new 1 [1] 1 { biasInit := ⟨0, 0⟩ }], [], 0, .hidden 0, .hidden 0, none, some 1,
        answer_eq, hi⟩
    · cases answered
  exact ⟨net, link, issued, rfl, by simpa [link] using there, ungated, place_eq,
    ⟨net.output, _, rfl, ok_of_toOption leaving, by simpa using there⟩,
    ⟨net.output, _, rfl, ok_of_toOption entering, nofun⟩⟩

theorem gate_reaches_loop : ∃ net link net', Issued net link ∧
    (∀ c ∈ link.connections, net.graph.contains c) ∧
    (gate .output link .output).run net = .ok () net' ∧ link.connections = [⟨2, 2⟩] ∧
    net'.graph.gater? ⟨2, 2⟩ = some 3 := by
  obtain ⟨net, link, issued, link_eq, left, -, place_eq, gateable, -⟩ := exists_issued_loop
  obtain ⟨bound, bare, sound, stands, -⟩ := issued.settles
  obtain ⟨⟨⟩, net', run_eq⟩ := (stands.guarded_gate sound .output link .output).passes gateable
  have reached := (Issued.gate_reaches issued left run_eq).1
  obtain ⟨x, placed, gater_eq⟩ := reached ⟨2, 2⟩ (by simp [link_eq]) (not_overlooks (by decide) _)
  exact ⟨net, link, net', issued, left, run_eq, link_eq, gater_eq.trans (placed.symm.trans place_eq)⟩

theorem gate_overlooks_loop : ∃ net link net', Issued net link ∧
    (∀ c ∈ link.connections, net.graph.contains c) ∧
    (gate .output link .input).run net = .ok () net' ∧
    ⟨2, 2⟩ ∈ link.connections ∧ net'.graph.gater? ⟨2, 2⟩ = none := by
  obtain ⟨net, link, issued, link_eq, left, ungated, -, -, gateable⟩ := exists_issued_loop
  obtain ⟨bound, bare, sound, stands, once, home⟩ := issued.settles
  obtain ⟨⟨⟩, net', run_eq⟩ := (stands.guarded_gate sound .output link .input).passes gateable
  have others := (stands.gate_matches sound once left (fun c hc => home c hc (left c hc)) run_eq).2
  have overlooked := others ⟨2, 2⟩ (.inr (by decide))
  exact ⟨net, link, net', issued, left, run_eq, by simp [link_eq], overlooked.trans ungated⟩

end Network

end GatedNetwork
