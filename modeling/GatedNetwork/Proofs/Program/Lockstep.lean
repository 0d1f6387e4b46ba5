import GatedNetwork.Proofs.Graph.Renaming
import GatedNetwork.Proofs.Program.Gains

/-! A part of a graph in step with the whole. The guests of a graph have new names in a host, in the
same order. What enters some of them is the same there; the others only have to be given the same
activations. -/

namespace GatedNetwork

open Listing

theorem ConnectionId.compare_eq_lt_iff {a b : ConnectionId} (same : a.target = b.target) :
    compare a b = .lt ↔ a.source < b.source := by
  have then_eq : compare a b = (compare a.source b.source).then (compare a.target b.target) := rfl
  rw [then_eq, same, Nat.compare_eq_eq.mpr rfl]
  cases hc : compare a.source b.source <;> simp [Ordering.then, ← Nat.compare_eq_lt, hc]

/-- The guests `G` of a graph have names in the host, and what enters the neurons `S` among them is
the same in both. -/
structure Graph.Hosts (f : NeuronId → NeuronId) (G S : NeuronId → Prop) (g g' : Graph) : Prop where
  guests : ∀ id, g.neurons.contains id ↔ G id
  within : ∀ id, S id → G id
  ascends : ∀ a b, G a → G b → a < b → f a < f b
  neuron : ∀ id n, S id → g.neurons.get? id = some n →
    ∃ n', g'.neurons.get? (f id) = some n' ∧ n'.squash = n.squash
  entering : ∀ id c', S id → g'.contains c' → c'.target = f id → ∃ x, G x ∧ f x = c'.source
  contains_eq : ∀ c, G c.source → S c.target → g'.contains (c.rename f) = g.contains c
  gater_eq : ∀ c, G c.source → S c.target → g'.gater? (c.rename f) = (g.gater? c).map f

/-- The second reading shows what a forward pass reads of the first one, under the new names. -/
structure Reading.Echoes (f : NeuronId → NeuronId) (G S : NeuronId → Prop) (σ σ' : Reading) : Prop where
  activation : ∀ id, G id → σ' (.activation (f id)) = σ (.activation id)
  state : ∀ id, S id → σ' (.state (f id)) = σ (.state id)
  bias : ∀ id, S id → σ' (.bias (f id)) = σ (.bias id)
  weight : ∀ c, G c.source → S c.target → σ' (.weight (c.rename f)) = σ (.weight c)
  gain : ∀ c, G c.source → S c.target → σ' (.gain (c.rename f)) = σ (.gain c)

variable {f : NeuronId → NeuronId} {G S : NeuronId → Prop} {g g' : Graph} {σ σ' τ τ' : Reading}

section Hosting

variable {id : NeuronId} {n n' : Neuron}

theorem Graph.Hosts.injective (h : g.Hosts f G S g') {a b : NeuronId} (ha : G a) (hb : G b)
    (same : f a = f b) : a = b := by
  rcases Nat.lt_trichotomy a b with lt | eq | gt
  · exact absurd same (Nat.ne_of_lt (h.ascends a b ha hb lt))
  · exact eq
  · exact absurd same (Nat.ne_of_gt (h.ascends b a hb ha gt))

theorem Graph.Hosts.isSelf_rename (h : g.Hosts f G S g') {c : ConnectionId} (hx : G c.source)
    (hc : S c.target) : (c.rename f).isSelf = c.isSelf := by
  have names_iff : f c.source = f c.target ↔ c.source = c.target :=
    ⟨h.injective hx (h.within _ hc), congrArg f⟩
  rw [Bool.eq_iff_iff]
  simpa [ConnectionId.isSelf, ConnectionId.rename] using names_iff

theorem Graph.Hosts.of_skeleton_eq (h : g.Hosts f G S g') {live live' : Graph}
    (hs : g.skeleton = live.skeleton) (hs' : g'.skeleton = live'.skeleton) :
    live.Hosts f G S live' where
  guests id := by rw [← contains_neuron_of_skeleton_eq hs, h.guests]
  within := h.within
  ascends := h.ascends
  neuron id n hid hn := by
    obtain ⟨m, hm, squash_eq, -⟩ := exists_of_skeleton_eq hs.symm hn
    obtain ⟨m', hm', same⟩ := h.neuron id m hid hm
    obtain ⟨n', hn', squash_eq', -⟩ := exists_of_skeleton_eq hs' hm'
    exact ⟨n', hn', squash_eq'.trans (same.trans squash_eq)⟩
  entering id c' hid hc' := h.entering id c' hid ((contains_of_skeleton_eq hs' c').trans hc')
  contains_eq c hx hid := by
    rw [← contains_of_skeleton_eq hs, ← contains_of_skeleton_eq hs', h.contains_eq c hx hid]
  gater_eq c hx hid := by
    rw [← gater?_of_skeleton_eq hs, ← gater?_of_skeleton_eq hs', h.gater_eq c hx hid]

/-- A neuron adds up its inputs in the same order in both graphs. -/
theorem Graph.Hosts.inputs_eq (h : g.Hosts f G S g') (linked : g.Linked) (linked' : g'.Linked)
    (hid : S id) (hn : g.neurons.get? id = some n) (hn' : g'.neurons.get? (f id) = some n') :
    n'.inputs.toList = n.inputs.toList.map (·.rename f) := by
  have member (c : ConnectionId) : c ∈ n.inputs.toList ↔ c.target = id ∧ g.connections.contains c := by
    rw [SortedSet.mem_toList_iff, linked.inputs_iff id n hn]
  have member' (c : ConnectionId) :
      c ∈ n'.inputs.toList ↔ c.target = f id ∧ g'.connections.contains c := by
    rw [SortedSet.mem_toList_iff, linked'.inputs_iff (f id) n' hn']
  have source {c : ConnectionId} (hc : c ∈ n.inputs.toList) : G c.source := by
    rw [← h.guests]
    exact (linked.joined c ((member c).mp hc).2).2.1
  have same_members (c' : ConnectionId) :
      c' ∈ n'.inputs.toList ↔ c' ∈ n.inputs.toList.map (·.rename f) := by
    rw [member', List.mem_map]
    constructor
    · rintro ⟨target_eq, hc'⟩
      have regular' := (linked'.joined c' hc').1
      have there' : g'.contains c' := (contains_of_not_isSelf regular').trans hc'
      obtain ⟨x, hx, source_eq⟩ := h.entering id c' hid there' target_eq
      have renamed : ConnectionId.rename f ⟨x, id⟩ = c' :=
        ConnectionId.eq_of_ends source_eq target_eq.symm
      have there : g.contains ⟨x, id⟩ := by rw [← h.contains_eq ⟨x, id⟩ hx hid, renamed, there']
      have regular : ConnectionId.isSelf ⟨x, id⟩ = false := by
        rw [← h.isSelf_rename (c := ⟨x, id⟩) hx hid, renamed, regular']
      exact ⟨⟨x, id⟩, (member _).mpr ⟨rfl, (contains_of_not_isSelf regular).symm.trans there⟩, renamed⟩
    · rintro ⟨c, hc, rfl⟩
      obtain ⟨rfl, hcon⟩ := (member c).mp hc
      have regular := (linked.joined c hcon).1
      have there' : g'.contains (c.rename f) := by
        rw [h.contains_eq c (source hc) hid, contains_of_not_isSelf regular, hcon]
      have regular' := (h.isSelf_rename (source hc) hid).trans regular
      exact ⟨rfl, (contains_of_not_isSelf regular').symm.trans there'⟩
  have ascending : (n.inputs.toList.map (·.rename f)).Pairwise fun a b => compare a b = .lt := by
    refine List.pairwise_map.mpr (n.inputs.pairwise_toList.imp_of_mem fun {a b} ha hb lt => ?_)
    have target_eq : a.target = b.target := ((member a).mp ha).1.trans ((member b).mp hb).1.symm
    have source_lt := (ConnectionId.compare_eq_lt_iff target_eq).mp lt
    exact (ConnectionId.compare_eq_lt_iff (congrArg f target_eq)).mpr
      (h.ascends _ _ (source ha) (source hb) source_lt)
  have nodup {l : List ConnectionId} (hl : l.Pairwise fun a b => compare a b = .lt) : l.Nodup :=
    hl.imp fun {a b} lt same => by simp [same, Std.ReflOrd.compare_self] at lt
  have perm := (List.perm_ext_iff_of_nodup n'.inputs.nodup_toList (nodup ascending)).mpr same_members
  refine List.Perm.eq_of_pairwise (fun a b _ _ lt gt => ?_) n'.inputs.pairwise_toList ascending perm
  rw [Std.OrientedOrd.eq_swap, gt] at lt
  nomatch lt

theorem Reading.Echoes.nextState_eq (e : σ.Echoes f G S σ') (h : g.Hosts f G S g') (linked : g.Linked)
    (linked' : g'.Linked) (hid : S id) (hn : g.neurons.get? id = some n)
    (hn' : g'.neurons.get? (f id) = some n') : σ'.nextState (f id) n' = σ.nextState id n := by
  have loop_gain : σ' (.gain (.loop (f id))) = σ (.gain (.loop id)) :=
    e.gain (.loop id) (h.within id hid) hid
  have loop_weight : σ' (.weight (.loop (f id))) = σ (.weight (.loop id)) :=
    e.weight (.loop id) (h.within id hid) hid
  rw [nextState, nextState, h.inputs_eq linked linked' hid hn hn', List.foldl_map, loop_gain, loop_weight,
    e.state id hid, e.bias id hid]
  refine List.foldl_ext _ _ _ fun sum c hc => ?_
  obtain ⟨target_eq, hcon⟩ := (linked.inputs_iff id n hn c).mp (SortedSet.mem_toList_iff.mp hc)
  have hx : G c.source := (h.guests _).mp (linked.joined c hcon).2.1
  have activation_eq : σ' (.activation (c.rename f).source) = σ (.activation c.source) :=
    e.activation c.source hx
  rw [activation_eq, e.weight c hx (target_eq ▸ hid), e.gain c hx (target_eq ▸ hid)]

end Hosting

section Turns

variable {r : NeuronId × Role} {n : Neuron}

theorem fire_input (hn : g.neurons.get? r.1 = some n) (hr : r.2 = .input) (σ : Reading) :
    σ.fire (g.listing r) (.activation r.1) = σ (.activation r.1) ∧
      σ.fire (g.listing r) (.state r.1) = σ (.state r.1) := by
  obtain ⟨id, role⟩ := r
  obtain rfl : role = .input := hr
  have unwritten (k : Key) (hk : k = .activation id ∨ k = .state id) :
      k ∉ blockWrites (inputBlock id n) := by
    rcases hk with rfl | rfl <;>
      simp [inputBlock, mem_blockWrites_append, mem_blockWrites_cons, mem_blockWrites_map,
        mem_blockWrites_gainBlock, Instruction.writes]
  rw [Graph.listing_eq hn]
  exact ⟨Reading.run_of_notMem σ (unwritten _ (.inl rfl)), Reading.run_of_notMem σ (unwritten _ (.inr rfl))⟩

theorem fire_worker (hn : g.neurons.get? r.1 = some n) (hr : r.2 ≠ .input) (σ : Reading) :
    σ.fire (g.listing r) (.activation r.1) = n.squash.apply (σ.nextState r.1 n) ∧
      σ.fire (g.listing r) (.state r.1) = σ.nextState r.1 n := by
  rw [Graph.fire_worker_eq hn hr, Graph.run_traceBlock_own (.inl rfl),
    Graph.run_traceBlock_own (.inr rfl), run_activationBlock]
  simp [Reading.fired]

theorem foldl_fire_aside {rs : List (NeuronId × Role)} (present : ∀ r ∈ rs, g.neurons.contains r.1)
    {x : NeuronId} (aside : x ∉ rs.map (·.1)) (σ : Reading) :
    (rs.map g.listing).foldl Reading.fire σ (.activation x) = σ (.activation x) ∧
      (rs.map g.listing).foldl Reading.fire σ (.state x) = σ (.state x) ∧
      (rs.map g.listing).foldl Reading.fire σ (.bias x) = σ (.bias x) := by
  have kept (k : Key) (own : ∀ y, k.IsOf y → y = x) (notGain : ∀ c, k ≠ .gain c) :
      (rs.map g.listing).foldl Reading.fire σ k = σ k :=
    foldl_fire_of_notMem present aside own notGain σ
  exact ⟨kept _ (fun _ hy => (show x = _ from hy).symm) (by simp),
    kept _ (fun _ hy => (show x = _ from hy).symm) (by simp),
    kept _ (fun _ hy => (show x = _ from hy).symm) (by simp)⟩

theorem foldl_fire_inputs {rs : List (NeuronId × Role)} (present : ∀ r ∈ rs, g.neurons.contains r.1)
    (inputs : ∀ r ∈ rs, r.2 = .input) (σ : Reading) (x : NeuronId) :
    (rs.map g.listing).foldl Reading.fire σ (.activation x) = σ (.activation x) := by
  refine Reading.foldl_frame fun l hl τ => ?_
  obtain ⟨r, hr, rfl⟩ := List.mem_map.mp hl
  obtain ⟨n, hn⟩ := Graph.get?_of_contains (present r hr)
  by_cases own : x = r.1
  · rw [own, (fire_input hn (inputs r hr) τ).1]
  · exact fire_of_unwritten hn (fun hof => absurd hof own) (by simp)

end Turns

namespace Reading.Echoes

section Steps

variable {r : NeuronId × Role} {rs rs' : List (NeuronId × Role)}

theorem congr (e : σ.Echoes f G S σ') (h : ∀ k, k.isField → τ k = σ k)
    (h' : ∀ k, k.isField → τ' k = σ' k) : τ.Echoes f G S τ' where
  activation id hid := by rw [h _ rfl, h' _ rfl, e.activation id hid]
  state id hid := by rw [h _ rfl, h' _ rfl, e.state id hid]
  bias id hid := by rw [h _ rfl, h' _ rfl, e.bias id hid]
  weight c hx hid := by rw [h _ rfl, h' _ rfl, e.weight c hx hid]
  gain c hx hid := by rw [h _ rfl, h' _ rfl, e.gain c hx hid]

theorem update (e : σ.Echoes f G S σ') (h : g.Hosts f G S g') {x : NeuronId} (hx : G x) (v : Float) :
    Echoes f G S (Function.update σ (.activation x) v) (Function.update σ' (.activation (f x)) v) where
  activation id hid := by
    by_cases same : id = x
    · rw [same, Function.update_self, Function.update_self]
    · have apart : f id ≠ f x := fun e => same (h.injective hid hx e)
      rw [Function.update_of_ne (by simpa using apart), Function.update_of_ne (by simpa using same),
        e.activation id hid]
  state id hid := by simpa using e.state id hid
  bias id hid := by simpa using e.bias id hid
  weight c hx hid := by simpa using e.weight c hx hid
  gain c hx hid := by simpa using e.gain c hx hid

theorem store (e : σ.Echoes f G S σ') (h : g.Hosts f G S g') {ps : List (NeuronId × Float)}
    (hps : ∀ p ∈ ps, G p.1) :
    Echoes f G S (σ.store (ps.map fun p => (.activation p.1, p.2)))
      (σ'.store (ps.map fun p => (.activation (f p.1), p.2))) := by
  induction ps generalizing σ σ' with
  | nil => exact e
  | cons p ps ih =>
    rw [List.map_cons, List.map_cons, store_cons, store_cons]
    exact ih (e.update h (hps p List.mem_cons_self) p.2) fun q hq => hps q (List.mem_cons_of_mem p hq)

theorem fire (e : σ.Echoes f G S σ') (h : g.Hosts f G S g') (linked : g.Linked) (linked' : g'.Linked)
    (hr : S r.1) {role' : Role} (role_iff : role' = .input ↔ r.2 = .input) :
    (σ.fire (g.listing r)).Echoes f G S (σ'.fire (g'.listing (f r.1, role'))) := by
  obtain ⟨n, hn⟩ := Graph.get?_of_contains ((h.guests r.1).mpr (h.within r.1 hr))
  obtain ⟨n', hn', squash_eq⟩ := h.neuron r.1 n hr hn
  have turn : σ'.fire (g'.listing (f r.1, role')) (.activation (f r.1)) =
        σ.fire (g.listing r) (.activation r.1) ∧
      σ'.fire (g'.listing (f r.1, role')) (.state (f r.1)) = σ.fire (g.listing r) (.state r.1) := by
    by_cases hin : r.2 = .input
    · obtain ⟨activation_eq, state_eq⟩ := fire_input hn hin σ
      obtain ⟨activation_eq', state_eq'⟩ :=
        fire_input (r := (f r.1, role')) hn' (role_iff.mpr hin) σ'
      rw [activation_eq, activation_eq', state_eq, state_eq']
      exact ⟨e.activation r.1 (h.within r.1 hr), e.state r.1 hr⟩
    · obtain ⟨activation_eq, state_eq⟩ := fire_worker hn hin σ
      obtain ⟨activation_eq', state_eq'⟩ :=
        fire_worker (r := (f r.1, role')) hn' (fun hin' => hin (role_iff.mp hin')) σ'
      have next_eq := e.nextState_eq h linked linked' hr hn hn'
      rw [activation_eq, activation_eq', state_eq, state_eq', next_eq, squash_eq]
      exact ⟨rfl, rfl⟩
  have apart {x : NeuronId} (hx : G x) (other : x ≠ r.1) : f x ≠ f r.1 :=
    fun same => other (h.injective hx (h.within r.1 hr) same)
  have unwritten (k : Key) (hof : k.IsOf r.1 → k.IsShared) (hgain : ∀ c, k ≠ .gain c) :
      σ.fire (g.listing r) k = σ k := fire_of_unwritten hn hof fun c _ => hgain c
  have unwritten' (k : Key) (hof : k.IsOf (f r.1) → k.IsShared) (hgain : ∀ c, k ≠ .gain c) :
      σ'.fire (g'.listing (f r.1, role')) k = σ' k :=
    fire_of_unwritten (r := (f r.1, role')) hn' hof fun c _ => hgain c
  refine ⟨fun x hx => ?_, fun x hx => ?_, fun x hx => ?_, fun c hx hc => ?_, fun c hx hc => ?_⟩
  · by_cases own : x = r.1
    · rw [own, turn.1]
    · rw [unwritten (.activation x) (fun hof => absurd hof own) (by simp),
        unwritten' (.activation (f x)) (fun hof => absurd hof (apart hx own)) (by simp),
        e.activation x hx]
  · by_cases own : x = r.1
    · rw [own, turn.2]
    · rw [unwritten (.state x) (fun hof => absurd hof own) (by simp),
        unwritten' (.state (f x)) (fun hof => absurd hof (apart (h.within x hx) own)) (by simp),
        e.state x hx]
  · rw [fire_of_not_isFired hn rfl, fire_of_not_isFired (r := (f r.1, role')) hn' rfl, e.bias x hx]
  · rw [unwritten (.weight c) (fun _ => trivial) (by simp),
      unwritten' (.weight (c.rename f)) (fun _ => trivial) (by simp), e.weight c hx hc]
  · have gater_eq := h.gater_eq c hx hc
    by_cases gates : g.gater? c = some r.1
    · have gated : n.gated.contains c := (linked.gated_iff r.1 n hn c).mpr gates
      have gated' : n'.gated.contains (c.rename f) := by
        rw [linked'.gated_iff (f r.1) n' hn', gater_eq, gates]
        rfl
      rw [fire_gain hn gated, fire_gain (r := (f r.1, role')) hn' gated', turn.1]
    · have ungated (d : ConnectionId) (hd : n.gated.contains d) : Key.gain c ≠ .gain d := by
        intro same
        obtain rfl := Key.gain.inj same
        exact gates ((linked.gated_iff r.1 n hn c).mp hd)
      have ungated' (d : ConnectionId) (hd : n'.gated.contains d) : Key.gain (c.rename f) ≠ .gain d := by
        intro same
        obtain rfl := Key.gain.inj same
        rw [linked'.gated_iff (f r.1) n' hn', gater_eq] at hd
        obtain ⟨y, hy, name_eq⟩ := Option.map_eq_some_iff.mp hd
        have guest : G y := (h.guests y).mp (linked.gater_mem c y hy).2
        exact gates (h.injective guest (h.within r.1 hr) name_eq ▸ hy)
      rw [fire_of_unwritten (k := .gain c) hn (fun _ => trivial) ungated,
        fire_of_unwritten (r := (f r.1, role')) (k := .gain (c.rename f)) hn' (fun _ => trivial) ungated',
        e.gain c hx hc]

/-- The neurons of the part take their turns in both graphs. They may have other roles in the host,
as long as inputs stay inputs. -/
theorem foldl (e : σ.Echoes f G S σ') (h : g.Hosts f G S g') (linked : g.Linked) (linked' : g'.Linked)
    {ρ : Role → Role} (hρ : ∀ role, ρ role = .input ↔ role = .input) (hrs : ∀ r ∈ rs, S r.1) :
    ((rs.map g.listing).foldl Reading.fire σ).Echoes f G S
      (((rs.map fun r => (f r.1, ρ r.2)).map g'.listing).foldl Reading.fire σ') := by
  induction rs generalizing σ σ' with
  | nil => exact e
  | cons r rs ih =>
    have turn := e.fire h linked linked' (hrs r List.mem_cons_self) (hρ r.2)
    exact ih turn fun q hq => hrs q (List.mem_cons_of_mem r hq)

/-- A pass over other neurons in each graph. Guests that are given activations are given the same
ones; they hand them to the connections that they gate, and all else stays. -/
theorem of_passes (e : σ.Echoes f G S σ') (h : g.Hosts f G S g') (linked : g.Linked)
    (linked' : g'.Linked) (present : ∀ r ∈ rs, g.neurons.contains r.1)
    (present' : ∀ r ∈ rs', g'.neurons.contains r.1) (nodup : (rs.map (·.1)).Nodup)
    (nodup' : (rs'.map (·.1)).Nodup) (start : ∀ k, (∀ x ∈ rs.map (·.1), k ≠ .activation x) → τ k = σ k)
    (start' : ∀ k, (∀ x ∈ rs'.map (·.1), k ≠ .activation x) → τ' k = σ' k)
    (inside : ∀ x ∈ rs.map (·.1), f x ∈ rs'.map (·.1) ∧
      (rs'.map g'.listing).foldl Reading.fire τ' (.activation (f x)) =
        (rs.map g.listing).foldl Reading.fire τ (.activation x))
    (outside : ∀ x, G x → x ∉ rs.map (·.1) → f x ∉ rs'.map (·.1))
    (idle : ∀ id, S id → id ∉ rs.map (·.1)) :
    ((rs.map g.listing).foldl Reading.fire τ).Echoes f G S ((rs'.map g'.listing).foldl Reading.fire τ') := by
  refine ⟨fun x hx => ?_, fun x hx => ?_, fun x hx => ?_, fun c hx hc => ?_, fun c hx hc => ?_⟩
  · by_cases given : x ∈ rs.map (·.1)
    · exact (inside x given).2
    · have free := outside x hx given
      obtain ⟨kept, -⟩ := foldl_fire_aside present given τ
      obtain ⟨kept', -⟩ := foldl_fire_aside present' free τ'
      have unset : τ (.activation x) = σ (.activation x) :=
        start _ fun y hy same => given (Key.activation.inj same ▸ hy)
      have unset' : τ' (.activation (f x)) = σ' (.activation (f x)) :=
        start' _ fun y hy same => free (Key.activation.inj same ▸ hy)
      rw [kept, kept', unset, unset', e.activation x hx]
  · obtain ⟨-, kept, -⟩ := foldl_fire_aside present (idle x hx) τ
    obtain ⟨-, kept', -⟩ := foldl_fire_aside present' (outside x (h.within x hx) (idle x hx)) τ'
    rw [kept, kept', start _ (by simp), start' _ (by simp), e.state x hx]
  · obtain ⟨-, -, kept⟩ := foldl_fire_aside present (idle x hx) τ
    obtain ⟨-, -, kept'⟩ := foldl_fire_aside present' (outside x (h.within x hx) (idle x hx)) τ'
    rw [kept, kept', start _ (by simp), start' _ (by simp), e.bias x hx]
  · rw [foldl_fire_of_not_isFired present rfl, foldl_fire_of_not_isFired present' rfl,
      start _ (by simp), start' _ (by simp), e.weight c hx hc]
  · have gater_eq := h.gater_eq c hx hc
    by_cases given : ∃ x ∈ rs.map (·.1), g.gater? c = some x
    · obtain ⟨x, hmem, gates⟩ := given
      have gates' : g'.gater? (c.rename f) = some (f x) := by
        rw [gater_eq, gates]
        rfl
      obtain ⟨hmem', same⟩ := inside x hmem
      rw [foldl_fire_gain linked present nodup hmem gates,
        foldl_fire_gain linked' present' nodup' hmem' gates', same]
    · have apart (r : NeuronId × Role) (hr : r ∈ rs) : g.gater? c ≠ some r.1 :=
        fun gates => given ⟨r.1, List.mem_map_of_mem hr, gates⟩
      have apart' (r : NeuronId × Role) (hr : r ∈ rs') : g'.gater? (c.rename f) ≠ some r.1 := by
        intro gates
        rw [gater_eq] at gates
        obtain ⟨y, hy, name_eq⟩ := Option.map_eq_some_iff.mp gates
        have guest : G y := (h.guests y).mp (linked.gater_mem c y hy).2
        exact outside y guest (fun hmem => given ⟨y, hmem, hy⟩) (name_eq ▸ List.mem_map_of_mem hr)
      rw [foldl_fire_gain_of_notMem linked present apart,
        foldl_fire_gain_of_notMem linked' present' apart', start _ (by simp), start' _ (by simp),
        e.gain c hx hc]

end Steps

end Reading.Echoes

end GatedNetwork
