import GatedNetwork.Proofs.Network.Ordering
import GatedNetwork.Proofs.Snapshot.Arranged

/-! Descriptions that building and describing leave as they are. They are the canonical ones: layer
by layer, with every place in range and with the connection records in order. -/

namespace GatedNetwork

namespace Snapshot

structure Canonical (s : Snapshot) : Prop where
  arranged : s.Arranged
  inRange : ∀ r ∈ s.connections, r.inRange s.neurons.length
  ordered : s.Ordered

section Ordered

variable {s : Snapshot} {start : NeuronId}

/-- Records that are in order name each connection once. -/
theorem Ordered.nodup_between (ordered : s.Ordered) (start : NeuronId) :
    (s.connections.map (·.between (start + ·))).Nodup := by
  refine List.pairwise_map.mpr (ordered.imp ?_)
  intro a b precedes same
  have source_eq : a.source = b.source := Nat.add_left_cancel (congrArg ConnectionId.source same)
  have target_eq : a.target = b.target := Nat.add_left_cancel (congrArg ConnectionId.target same)
  unfold ConnectionRecord.Precedes at precedes
  omega

end Ordered

end Snapshot

namespace Network

section Canonical

variable {s : Snapshot} {config : Config} {start : NeuronId} {net : Network} {r : ConnectionRecord}

theorem Realizes.neurons_described (h : net.Realizes s config start) (arranged : s.Arranged) :
    net.described.neurons = s.neurons := by
  have listed : net.described.neurons =
      (Snapshot.planted start s.neurons).map net.describedNeuron := by
    rw [described, h.neurons_planted arranged]
  rw [listed]
  refine List.ext_getElem (by simp [Snapshot.planted]) fun i _ hi => ?_
  obtain ⟨n, hn, squash_eq, bias_eq⟩ := h.traits i s.neurons[i] (List.getElem?_eq_getElem hi)
  simp [Snapshot.planted, describedNeuron, hn, squash_eq, bias_eq]

theorem Realizes.connection_described (h : net.Realizes s config start) (canonical : s.Canonical)
    (hr : r ∈ s.connections) : net.describedConnection (r.between (start + ·)) = r := by
  have inRange := canonical.inRange r hr
  simp only [ConnectionRecord.inRange, Bool.and_eq_true, decide_eq_true_eq,
    Option.all_eq_true] at inRange
  obtain ⟨⟨hs, ht⟩, hg⟩ := inRange
  have asked := Snapshot.asked?_of_unique (canonical.ordered.nodup_between start) hr
  rw [← h.active] at asked
  have found := (Graph.active?_eq_some_iff.mp asked).2
  have source_eq : net.place (start + r.source) = r.source := h.place_planted canonical.arranged hs
  have target_eq : net.place (start + r.target) = r.target := h.place_planted canonical.arranged ht
  have gater_eq : (r.gater.map (start + ·)).map net.place = r.gater := by
    cases hi : r.gater with
    | none => rfl
    | some i =>
      have place_eq := h.place_planted canonical.arranged (hg i hi)
      simp [place_eq]
  rw [describedConnection, found, Option.getD_some, gater_eq]
  simp only [ConnectionRecord.between, source_eq, target_eq]

theorem Realizes.connections_described (h : net.Realizes s config start) (canonical : s.Canonical) :
    net.described.connections.Perm s.connections := by
  have nodup := canonical.ordered.nodup_between start
  have perm : net.connections.Perm (s.connections.map (·.between (start + ·))) := by
    refine (List.perm_ext_iff_of_nodup (nodup_connections h.sound) nodup).mpr fun c => ?_
    rw [mem_connections_iff h.sound, ← Graph.isSome_active?, h.active, Snapshot.asked?_isSome_iff,
      List.mem_map]
  have described_eq : (s.connections.map (·.between (start + ·))).map net.describedConnection =
      s.connections := by
    rw [List.map_map]
    exact (List.map_congr_left fun r hr => h.connection_described canonical hr).trans
      (List.map_id _)
  have renamed := perm.map net.describedConnection
  rwa [described_eq] at renamed

theorem Realizes.described_canonical (h : net.Realizes s config start) (canonical : s.Canonical) :
    net.described = s := by
  have ordered := h.sound.ordered_described (h.ids_ascend canonical.arranged)
  exact ordered.unique canonical.ordered (h.neurons_described canonical.arranged)
    (h.connections_described canonical)

/-- The canonical descriptions, and no others, can be built and come back as they were. -/
theorem toSnapshot_ofSnapshot_iff (valid : config.validate = .ok ()) (s : Snapshot) (ids : IdSupply) :
    (∃ net ids', (ofSnapshot s config).run ids = .ok net ids' ∧ net.toSnapshot = .ok s) ↔
      s.Canonical := by
  constructor
  · rintro ⟨net, ids', run_eq, same⟩
    cases hs : s.validate with
    | error e =>
      rw [ofSnapshot, bind_of_error (ask_fixed_of_error hs ids)] at run_eq
      cases run_eq
    | ok =>
      obtain ⟨made, made_eq, realizes⟩ := ofSnapshot_ok hs valid ids
      obtain rfl : made = net := by
        rw [made_eq] at run_eq
        exact (EStateM.Result.ok.inj run_eq).1
      have described_eq : made.described = s :=
        Except.ok.inj (realizes.sound.toSnapshot_eq.symm.trans same)
      have arranged : s.Arranged := described_eq ▸ made.arranged_described
      have ordered := realizes.sound.ordered_described (realizes.ids_ascend arranged)
      exact ⟨arranged, Snapshot.validate_eq_ok_iff.mp hs, described_eq ▸ ordered⟩
  · intro canonical
    have inRange := Snapshot.validate_eq_ok_iff.mpr canonical.inRange
    obtain ⟨net, run_eq, realizes⟩ := ofSnapshot_ok inRange valid ids
    have described_eq := realizes.described_canonical canonical
    exact ⟨net, _, run_eq, realizes.sound.toSnapshot_eq.trans (congrArg Except.ok described_eq)⟩

theorem toSnapshot_ofSnapshot_selfGated :
    let s : Snapshot := {
      neurons := [⟨0, .identity, .input⟩, ⟨1, .tanh, .hidden 1⟩, ⟨0, .logistic, .output⟩]
      connections := [⟨0, 2, 0, some 2⟩, ⟨1, 0, 1, none⟩, ⟨1, 2, 1, some 0⟩, ⟨1, 1, 0, some 1⟩] }
    ({ biasInit := ⟨0, 0⟩ } : Config).validate = .ok () ∧ s.Canonical ∧
      ∃ net ids', (ofSnapshot s { biasInit := ⟨0, 0⟩ }).run ⟨1⟩ = .ok net ids' ∧
        net.toSnapshot = .ok s := by
  intro s
  have valid : ({ biasInit := ⟨0, 0⟩ } : Config).validate = .ok () := by rfl
  have canonical : s.Canonical := by
    refine ⟨?_, by decide, ?_⟩
    · simp [Snapshot.Arranged, s, LayerRef.Before]
    · simp [Snapshot.Ordered, s, ConnectionRecord.Precedes]
  exact ⟨valid, canonical, (toSnapshot_ofSnapshot_iff valid s ⟨1⟩).mpr canonical⟩

end Canonical

end Network

end GatedNetwork
