import Mathlib.Data.List.ProdSigma
import GatedNetwork.Proofs.Network.Directed
import GatedNetwork.Proofs.Network.Refusing

/-! Gating the connections of a link. Each gater of a layer gets the connections that are matched with
its place, and no connection is matched with two places; but the incoming connections of a neuron are
not all that enter it, since its own is left out. -/

namespace GatedNetwork

section Zipping

variable {α β : Type} {xs : List α} {ys : List β} {a : α} {b : β}

theorem mem_zip_iff : (a, b) ∈ xs.zip ys ↔ ∃ i : Nat, xs[i]? = some a ∧ ys[i]? = some b := by
  simp only [List.mem_iff_getElem?, List.getElem?_zip_eq_some]

theorem getElem?_eq_iff_idxOf [BEq α] [LawfulBEq α] (nodup : xs.Nodup) {i : Nat} :
    xs[i]? = some a ↔ a ∈ xs ∧ xs.idxOf a = i := by
  constructor
  · intro h
    obtain ⟨hi, rfl⟩ := List.getElem?_eq_some_iff.mp h
    exact ⟨List.getElem_mem hi, nodup.idxOf_getElem i hi⟩
  · rintro ⟨ha, rfl⟩
    exact List.getElem?_idxOf ha

end Zipping

section Gaters

variable {pairs : List (NeuronId × ConnectionId)} {c : ConnectionId} {x : NeuronId}

theorem Graph.lastGater_of_mem (there : (x, c) ∈ pairs) (alone : ∀ y, (y, c) ∈ pairs → y = x) :
    lastGater pairs c = some x := by
  unfold lastGater
  cases last : (pairs.filter (·.2 = c)).getLast? with
  | none =>
    have none : pairs.filter (·.2 = c) = [] := List.getLast?_eq_none_iff.mp last
    simpa using List.filter_eq_nil_iff.mp none (x, c) there
  | some p =>
    obtain ⟨listed, same⟩ := List.mem_filter.mp (List.mem_of_getLast? last)
    obtain rfl : p.2 = c := by simpa using same
    exact congrArg some (alone p.1 listed)

theorem Graph.lastGater_of_notMem (absent : ∀ y, (y, c) ∉ pairs) : lastGater pairs c = none := by
  have none : pairs.filter (·.2 = c) = [] := by
    refine List.filter_eq_nil_iff.mpr fun p hp same => absent p.1 ?_
    obtain rfl : p.2 = c := by simpa using same
    exact hp
  rw [lastGater, none]
  rfl

end Gaters

theorem Graph.Linked.mem_inputs_iff {g : Graph} (h : g.Linked) {id : NeuronId} {n : Neuron}
    (hn : g.neurons.get? id = some n) {c : ConnectionId} (hc : g.contains c) :
    c ∈ n.inputs.toList ↔ c.target = id ∧ c.isSelf = false := by
  rw [SortedSet.mem_toList_iff, h.inputs_iff id n hn c]
  constructor
  · rintro ⟨target_eq, regular⟩
    exact ⟨target_eq, (h.joined c regular).1⟩
  · rintro ⟨target_eq, own⟩
    exact ⟨target_eq, Graph.contains_of_not_isSelf own ▸ hc⟩

theorem Graph.Linked.mem_leaving_iff {g : Graph} (h : g.Linked) {id : NeuronId} {n : Neuron}
    (hn : g.neurons.get? id = some n) {c : ConnectionId} (hc : g.contains c) :
    c ∈ n.projected.toList ++ [ConnectionId.loop id] ↔ c.source = id := by
  rw [List.mem_append, List.mem_singleton, SortedSet.mem_toList_iff, h.projected_iff id n hn c]
  constructor
  · rintro (⟨source_eq, -⟩ | rfl)
    · exact source_eq
    · rfl
  · intro source_eq
    cases own : c.isSelf with
    | true => exact .inr (source_eq ▸ Graph.eq_loop_of_isSelf own)
    | false => exact .inl ⟨source_eq, Graph.contains_of_not_isSelf own ▸ hc⟩

theorem Graph.project_answers {σ : Type} (source target : NeuronId) (weight : Option Float)
    (draw : EStateM NetworkError σ Float) :
    Ends (fun _ => True) (project source target weight draw) (fun c _ => c = ⟨source, target⟩)
      fun _ _ => True := by
  rintro ⟨g, r⟩ -
  rcases project_cases source target weight draw g r with
    ⟨id, -, -, run_eq⟩ | ⟨-, -, ⟨-, run_eq⟩ | ⟨-, -, run_eq⟩ | ⟨-, -, run_eq⟩⟩
  · rw [run_eq]
    trivial
  · rw [run_eq]
    rfl
  · rw [run_eq]
    rfl
  · rw [run_eq]
    split
    · rfl
    · trivial

namespace Layer

variable {l : Layer} {target : List NeuronId} {wiring : Wiring}

theorem nodup_pairs {ps : List (NeuronId × NeuronId)} (h : l.pairs target wiring = .ok ps)
    (nodup : l.neurons.Nodup) (nodup' : target.Nodup) : ps.Nodup := by
  have product : (l.neurons.flatMap fun s => target.map (s, ·)).Nodup := nodup.product nodup'
  cases wiring with
  | oneToOne =>
    simp only [pairs] at h
    split at h
    · rename_i sizes
      obtain rfl := Except.ok.inj h
      refine List.Nodup.of_map Prod.fst ?_
      rwa [List.map_fst_zip (Nat.le_of_eq sizes.symm)]
    · cases h
  | allToAll =>
    obtain rfl := Except.ok.inj h
    exact product
  | allToElse =>
    obtain rfl := Except.ok.inj h
    exact product.filter _

theorem projectOnto_answers {σ : Type} (l : Layer) (target : List NeuronId) (wiring : Wiring)
    (weight : Option Float) (draw : EStateM NetworkError σ Float) :
    Ends (fun _ => True) (l.projectOnto target wiring weight draw)
      (fun cs _ => ∃ ps, l.pairs target wiring = .ok ps ∧ cs = ps.map fun p => ⟨p.1, p.2⟩)
      fun _ _ => True := by
  refine fun s _ => ends_projectOnto (I := fun before cs _ => cs = before.map fun p => ⟨p.1, p.2⟩)
    (fun _ _ => trivial) rfl fun ps before p later cs _ _ s hcs => ?_
  refine (Graph.project_answers p.1 p.2 weight draw s trivial).mono (fun c _ hc => ?_) fun _ _ h => h
  rw [hc, hcs, List.map_append, List.map_singleton]

end Layer

namespace Network

section Linking

variable {net net' : Network} {source target : LayerRef} {wiring : Option Wiring} {weight : Option Float}
  {link : Link}

theorem nodup_members (nodup : net.ids.Nodup) (ref : LayerRef) : (net.members ref).Nodup := by
  by_cases there : ref ∈ net.refs
  · obtain ⟨l, hl⟩ := mem_refs_iff.mp there
    obtain ⟨before, later, ids_eq, -⟩ := exists_ids_mapLayer hl id
    rw [ids_eq] at nodup
    rw [members_of_layer hl]
    exact nodup.of_append_left.of_append_right
  · have empty : net.members ref = [] :=
      List.eq_nil_iff_forall_not_mem.mpr fun _ hid => there (mem_refs_of_mem_members hid)
    exact empty ▸ List.nodup_nil

/-- The link of two layers that are wired names its connections once each, and they go from the one
layer to the other. -/
theorem project_link (nodup : net.ids.Nodup)
    (run_eq : (project source target wiring weight).run net = .ok link net') :
    link.connections.Nodup ∧
    ∀ c ∈ link.connections, c.source ∈ net.members link.source ∧ c.target ∈ net.members link.target := by
  cases hl : net.layer source with
  | error e =>
    rw [project, bind_of_error (ask_layer_error hl)] at run_eq
    cases run_eq
  | ok l =>
    cases hl' : net.layer target with
    | error e =>
      rw [project, bind_of_ok (ask_layer hl), bind_of_error (ask_layer_error hl')] at run_eq
      cases run_eq
    | ok l' =>
      have members_eq := members_of_layer hl
      have members_eq' := members_of_layer hl'
      rw [project, bind_of_ok (ask_layer hl), bind_of_ok (ask_layer hl')] at run_eq
      have wired (now : Network) (kind : Wiring) : Ends (fun _ => True)
          (onGraphAndRandom (l.projectOnto l'.neurons kind weight (drawWeight now.config)))
          (fun cs _ => ∃ ps, l.pairs l'.neurons kind = .ok ps ∧ cs = ps.map fun p => ⟨p.1, p.2⟩)
          (fun _ _ => True) := fun s _ => ends_focus (l.projectOnto_answers _ _ _ _ _ trivial)
      refine Ending.of_eq_ok (Q := fun (link : Link) _ => link.connections.Nodup ∧
        ∀ c ∈ link.connections, c.source ∈ net.members link.source ∧ c.target ∈ net.members link.target)
        (E := fun _ _ => True) ?_ run_eq
      refine Ends.bind (P := fun _ => True) (ends_any _)
        (fun _ => Ends.bind (ends_any _) fun now => ?_) net trivial
      refine Ends.bind (wired now _) fun cs => ?_
      rintro s ⟨ps, hp, rfl⟩
      refine Ending.bind (ending_any _) fun _ _ _ => ⟨?_, fun c hc => ?_⟩
      · refine (Layer.nodup_pairs hp (members_eq ▸ nodup_members nodup source)
          (members_eq' ▸ nodup_members nodup target)).map fun p q same => ?_
        exact Prod.ext (congrArg ConnectionId.source same) (congrArg ConnectionId.target same)
      · obtain ⟨p, there, rfl⟩ := List.mem_map.mp hc
        obtain ⟨hs, ht⟩ := Layer.mem_of_mem_pairs hp there
        exact ⟨members_eq ▸ hs, members_eq' ▸ ht⟩

end Linking

/-- The place of the gater that a connection is matched with. -/
def gatingPlace (net : Network) (link : Link) (c : ConnectionId) : Gating → Nat
  | .input => (net.members link.target).idxOf c.target
  | .output => (net.members link.source).idxOf c.source
  | .oneToOne => link.connections.idxOf c

/-- The gating passes the connection over. -/
def Overlooks (gating : Gating) (c : ConnectionId) : Prop := gating = .input ∧ c.isSelf

instance (gating : Gating) (c : ConnectionId) : Decidable (Overlooks gating c) :=
  inferInstanceAs (Decidable (_ ∧ _))

theorem not_overlooks {gating : Gating} (h : gating ≠ .input) (c : ConnectionId) :
    ¬ Overlooks gating c := fun overlooked => h overlooked.1

section Matching

variable {net : Network} {link : Link} {gating : Gating} {gaters : List NeuronId}
  {pairs : List (NeuronId × ConnectionId)} {c : ConnectionId} {x : NeuronId}

theorem mem_zip_members_iff (nodup : net.ids.Nodup) {ref : LayerRef} {id : NeuronId}
    (sizes : (net.members ref).length = gaters.length) :
    (id, x) ∈ (net.members ref).zip gaters ↔ gaters[(net.members ref).idxOf id]? = some x := by
  simp only [mem_zip_iff, getElem?_eq_iff_idxOf (nodup_members nodup ref)]
  constructor
  · rintro ⟨_, ⟨-, rfl⟩, hx⟩
    exact hx
  · intro hx
    have lt : (net.members ref).idxOf id < (net.members ref).length :=
      sizes ▸ (List.getElem?_eq_some_iff.mp hx).1
    exact ⟨_, ⟨List.idxOf_lt_length_iff.mp lt, rfl⟩, hx⟩

theorem mem_matched_iff (nodup : net.ids.Nodup) {ref : LayerRef}
    {listed : NeuronId → Neuron → List ConnectionId} {ends : ConnectionId → NeuronId} {seen : Prop}
    (sizes : (net.members ref).length = gaters.length)
    (known : c ∈ link.connections → net.graph.neurons.contains (ends c))
    (lists : c ∈ link.connections → ∀ id n, net.graph.neurons.get? id = some n →
      (c ∈ listed id n ↔ ends c = id ∧ seen)) :
    (∃ id n, (id, x) ∈ (net.members ref).zip gaters ∧ net.graph.neurons.get? id = some n ∧
      c ∈ (listed id n).filter (link.connections.contains ·)) ↔
    (c ∈ link.connections ∧ seen) ∧ gaters[(net.members ref).idxOf (ends c)]? = some x := by
  simp only [mem_zip_members_iff nodup sizes, List.mem_filter, List.contains_iff_mem]
  constructor
  · rintro ⟨id, n, hx, hn, there, hc⟩
    obtain ⟨rfl, looked⟩ := (lists hc id n hn).mp there
    exact ⟨⟨hc, looked⟩, hx⟩
  · rintro ⟨⟨hc, looked⟩, hx⟩
    obtain ⟨n, hn⟩ := Graph.get?_of_contains (known hc)
    exact ⟨ends c, n, hx, hn, (lists hc _ n hn).mpr ⟨rfl, looked⟩, hc⟩

/-- A gater gates the connections of the link that its place is matched with, unless they are
overlooked. -/
theorem mem_gatePairs_iff (linked : net.graph.Linked) (nodup : net.ids.Nodup)
    (once : link.connections.Nodup) (there : ∀ c ∈ link.connections, net.graph.contains c)
    (h : net.gatePairs gaters link gating = .ok pairs) : (x, c) ∈ pairs ↔
      (c ∈ link.connections ∧ ¬ Overlooks gating c) ∧ gaters[net.gatingPlace link c gating]? = some x := by
  cases gating with
  | input =>
    obtain ⟨sizes, found⟩ := mem_found_iff link.target
      (fun _ n => n.inputs.toList.filter (link.connections.contains ·)) h
    rw [found]
    refine mem_matched_iff nodup sizes (fun hc => (linked.ends_of_contains (there c hc)).2) fun hc id n hn => ?_
    simpa [Overlooks] using linked.mem_inputs_iff hn (there c hc)
  | output =>
    obtain ⟨sizes, found⟩ := mem_found_iff link.source (fun id n =>
      (n.projected.toList ++ [ConnectionId.loop id]).filter (link.connections.contains ·)) h
    rw [found]
    refine mem_matched_iff nodup sizes (fun hc => (linked.ends_of_contains (there c hc)).1) fun hc id n hn => ?_
    simpa [Overlooks] using linked.mem_leaving_iff hn (there c hc)
  | oneToOne =>
    simp only [gatePairs] at h
    split at h
    · rename_i sizes
      obtain rfl := Except.ok.inj h
      simp only [mem_zip_iff, getElem?_eq_iff_idxOf once, gatingPlace]
      constructor
      · rintro ⟨_, hx, listed, rfl⟩
        exact ⟨⟨listed, not_overlooks (by decide) c⟩, hx⟩
      · rintro ⟨⟨listed, -⟩, hx⟩
        exact ⟨_, hx, listed, rfl⟩
    · cases h

theorem gatingPlace_lt (h : net.gatePairs gaters link gating = .ok pairs) (hc : c ∈ link.connections)
    (home : c.source ∈ net.members link.source ∧ c.target ∈ net.members link.target) :
    net.gatingPlace link c gating < gaters.length := by
  cases gating with
  | input =>
    obtain ⟨sizes, -⟩ := mem_found_iff link.target
      (fun _ n => n.inputs.toList.filter (link.connections.contains ·)) h
    exact sizes ▸ List.idxOf_lt_length_of_mem home.2
  | output =>
    obtain ⟨sizes, -⟩ := mem_found_iff link.source (fun id n =>
      (n.projected.toList ++ [ConnectionId.loop id]).filter (link.connections.contains ·)) h
    exact sizes ▸ List.idxOf_lt_length_of_mem home.1
  | oneToOne =>
    simp only [gatePairs] at h
    split at h
    · rename_i sizes
      exact sizes ▸ List.idxOf_lt_length_of_mem hc
    · cases h

end Matching

section Reaching

variable {bound : NeuronId} {net net' bare : Network} {gater : LayerRef} {link : Link} {gating : Gating}

theorem StandsFor.ids_eq (h : bare.StandsFor net) : net.ids = bare.ids := by cases h <;> rfl

theorem StandsFor.nodup_ids (h : bare.StandsFor net) (sound : bare.Sound bound []) : net.ids.Nodup :=
  h.ids_eq ▸ sound.nodup_ids

theorem StandsFor.mem_ids (h : bare.StandsFor net) (sound : bare.Sound bound []) (id : NeuronId) :
    id ∈ net.ids ↔ net.graph.neurons.contains id := by
  rw [h.ids_eq, sound.mem_ids, h.contains_neuron]

/-- A gating that succeeds gives every connection of the link that it does not overlook to the gater
that it is matched with, and leaves all others as they are. -/
theorem StandsFor.gate_matches (h : bare.StandsFor net) (sound : bare.Sound bound [])
    (once : link.connections.Nodup) (there : ∀ c ∈ link.connections, net.graph.contains c)
    (home : ∀ c ∈ link.connections,
      c.source ∈ net.members link.source ∧ c.target ∈ net.members link.target)
    (run_eq : (gate gater link gating).run net = .ok () net') :
    (∀ c ∈ link.connections, ¬ Overlooks gating c →
      ∃ x, (net.members gater)[net.gatingPlace link c gating]? = some x ∧ net'.graph.gater? c = some x) ∧
    ∀ c, c ∉ link.connections ∨ Overlooks gating c → net'.graph.gater? c = net.graph.gater? c := by
  rcases h.gate_cases sound gater link gating with
    ⟨l, pairs, hl, hp, present, gate_eq⟩ | ⟨-, e, error_eq⟩
  · obtain rfl : { bare with graph := bare.graph.gatedEach pairs } = net' :=
      (EStateM.Result.ok.inj (gate_eq.symm.trans run_eq)).2
    have matched (x : NeuronId) (c : ConnectionId) : (x, c) ∈ pairs ↔
        (c ∈ link.connections ∧ ¬ Overlooks gating c) ∧ l.neurons[net.gatingPlace link c gating]? = some x :=
      mem_gatePairs_iff (h.consistent sound).toLinked (h.nodup_ids sound) once there hp
    have gaters (c : ConnectionId) : (bare.graph.gatedEach pairs).gater? c =
        (Graph.lastGater pairs c).or (net.graph.gater? c) := by
      rw [Graph.gater?_of_skeleton_eq h.skeleton,
        Graph.gater?_gatedEach (fun p hp' => h.contains p.2 ▸ present p hp') c]
    refine ⟨fun c hc seen => ?_, fun c other => ?_⟩
    · obtain ⟨x, placed⟩ : ∃ x, l.neurons[net.gatingPlace link c gating]? = some x :=
        ⟨_, List.getElem?_eq_getElem (gatingPlace_lt hp hc (home c hc))⟩
      have alone (y : NeuronId) (hy : (y, c) ∈ pairs) : y = x :=
        Option.some.inj (((matched y c).mp hy).2.symm.trans placed)
      have last := Graph.lastGater_of_mem ((matched x c).mpr ⟨⟨hc, seen⟩, placed⟩) alone
      refine ⟨x, ?_, (gaters c).trans ?_⟩
      · rw [members_of_layer hl]
        exact placed
      · rw [last, Option.some_or]
    · have left (y : NeuronId) : (y, c) ∉ pairs := fun hy =>
        other.elim (· ((matched y c).mp hy).1.1) ((matched y c).mp hy).1.2
      exact (gaters c).trans (by rw [Graph.lastGater_of_notMem left, Option.none_or])
  · cases error_eq.symm.trans run_eq

end Reaching

end Network

end GatedNetwork
