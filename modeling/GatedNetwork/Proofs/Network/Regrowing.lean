import GatedNetwork.Network.Mutate
import GatedNetwork.Proofs.Network.Enumeration
import GatedNetwork.Proofs.Network.Growing
import GatedNetwork.Proofs.Random.Choosing

/-! The cases of a change of neurons. It ends where there is no hidden layer. Otherwise a layer is
drawn and it is decided whether the layer gets a neuron or loses one; up to there only the random
stream has moved. -/

namespace GatedNetwork

namespace Network

variable {net : Network} {i : Nat}

theorem modifyNeurons_run (ids : IdSupply) {r : RandomStream} (hi : i < net.hidden.size)
    (drawn : (Draw.below64 net.hidden.size).run net.random = .ok i r) :
    modifyNeurons.run (ids, net) = (do
      let remove ← if net.hidden[i].neurons.length > 1 then lift (onRandom Draw.coin) else pure false
      if remove then
        let j ← lift (onRandom (Draw.below64 net.hidden[i].neurons.length))
        match net.hidden[i].neurons[j]? with
        | some id => lift (removeNeuron id)
        | none => throw (.mutationUnavailable .noHiddenLayer)
      else
        addHiddenNeuron i : Growth Unit).run (ids, { net with random := r }) := by
  have hl : { net with random := r }.layer (.hidden i) = .ok net.hidden[i] := by simp [layer, hi]
  rw [modifyNeurons, bind_of_ok (get_run _), if_neg (Nat.ne_of_gt (Nat.zero_lt_of_lt hi))]
  exact (bind_of_ok (lift_of_ok (onRandom_of_ok drawn))).trans (bind_of_ok (lift_of_ok (ask_layer hl)))

/-- The last neuron of a layer never goes. -/
theorem modifyNeurons_cases (ids : IdSupply) (net : Network) :
    net.hidden = #[] ∧
        modifyNeurons.run (ids, net) = .error (.mutationUnavailable .noHiddenLayer) (ids, net) ∨
      ∃ i < net.hidden.size, ∃ r, net.random.position < r.position ∧
        (modifyNeurons.run (ids, net) = (addHiddenNeuron i).run (ids, { net with random := r }) ∨
          1 < (net.members (.hidden i)).length ∧ ∃ id ∈ net.members (.hidden i),
            modifyNeurons.run (ids, net) =
              (lift (removeNeuron id)).run (ids, { net with random := r })) := by
  by_cases flat : net.hidden = #[]
  · refine .inl ⟨flat, ?_⟩
    rw [modifyNeurons, bind_of_ok (get_run _), flat]
    rfl
  obtain ⟨i, r, drawn, hi, read⟩ := Draw.gives_below64 (Array.size_pos_iff.mpr flat) net.random
  have members_eq : net.hidden[i].neurons = net.members (.hidden i) := by simp [members, hi]
  rw [modifyNeurons_run ids hi drawn, members_eq]
  by_cases many : (net.members (.hidden i)).length > 1
  · obtain ⟨remove, r', coin_eq, -, read'⟩ := Draw.gives_coin r
    have tossed : (lift (onRandom Draw.coin)).run (ids, { net with random := r }) =
        .ok remove (ids, { net with random := r' }) := lift_of_ok (onRandom_of_ok coin_eq)
    rw [if_pos many, bind_of_ok tossed]
    cases remove with
    | false => exact .inr ⟨i, hi, r', Nat.lt_trans read read', .inl rfl⟩
    | true =>
      obtain ⟨j, r'', drawn', hj, read''⟩ := Draw.gives_below64 (Nat.zero_lt_of_lt many) r'
      have chosen : (lift (onRandom (Draw.below64 (net.members (.hidden i)).length))).run
          (ids, { net with random := r' }) = .ok j (ids, { net with random := r'' }) :=
        lift_of_ok (onRandom_of_ok drawn')
      refine .inr ⟨i, hi, r'', Nat.lt_trans read (Nat.lt_trans read' read''),
        .inr ⟨many, _, List.getElem_mem hj, (bind_of_ok chosen).trans ?_⟩⟩
      rw [List.getElem?_eq_getElem hj]
  · rw [if_neg many]
    exact .inr ⟨i, hi, r, read, .inl rfl⟩

end Network

end GatedNetwork
