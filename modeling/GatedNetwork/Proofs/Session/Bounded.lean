import GatedNetwork.Proofs.Network.Bounded
import GatedNetwork.Proofs.Session.Lasting
import GatedNetwork.Proofs.Session.Twins

/-! Runs that end fatally. Settings and noise are checked for finite bounds in order, and what is
drawn from is the distance between them, which may still overflow. -/

namespace GatedNetwork

open NetworkError (IsMild)
open Network

def Request.ranges : Request → List Range
  | new _ _ _ config | perceptron _ _ _ config | ofSnapshot _ config | merge _ _ config =>
    [config.weightInit, config.biasInit]
  | call _ c => c.noise?.toList
  | _ => []

theorem Config.isValid_of_validate {config : Config} (valid : config.validate = .ok ()) :
    config.weightInit.isValid ∧ config.biasInit.isValid := by
  unfold validate fault? at valid
  by_cases hw : config.weightInit.isValid
  · by_cases hb : config.biasInit.isValid
    · exact ⟨hw, hb⟩
    · simp [hw, hb] at valid
  · simp [hw] at valid

theorem Config.validate_of_isValid {config : Config} (hw : config.weightInit.isValid)
    (hb : config.biasInit.isValid) : config.validate = .ok () := by
  simp [validate, fault?, hw, hb]

section Calls

variable {floor bound : NeuronId} {α : Type} {net bare : Network} {ids : IdSupply}

theorem Network.StandsFor.bounded_perform (h : bare.StandsFor net) (sound : bare.Sound bound [])
    (bounded : net.Bounded) {c : Call}
    (noise : ∀ range, c.noise? = some range → range.isValid → range.isBounded) :
    Ending (fun _ => Grown (fun _ => Bounded) ids.next)
      (fun e s => IsMild e ∧ Grown (fun _ => Bounded) ids.next s) (c.perform.run (ids, net)) := by
  have grown : Grown (fun _ => Bounded) ids.next (ids, net) := ⟨Nat.le_refl _, bounded⟩
  have others (edit : c.isEdit) := lastsGrowth_bounded.endures_perform edit
    (fun range hr valid => lenient_draw (noise range hr valid)) (ids, net) grown
  have le := Nat.le_refl ids.next
  cases c with
  | activate values => exact ends_reply le (h.bounded_activate sound bounded values) .vector
  | propagate rate targets =>
    exact ends_reply le (h.bounded_propagate sound bounded rate targets) fun _ => .done
  | optimize => exact ends_reply le (h.bounded_optimize sound bounded) fun _ => .done
  | clear => exact ends_reply le (bounded_clear net bounded) fun _ => .done
  | reset => exact ends_reply le (bounded_reset net bounded) fun _ => .done
  | setOptimize enabled => exact ends_reply le (bounded_setOptimize enabled net bounded) fun _ => .done
  | _ => exact others rfl

end Calls

namespace World

section Runs

variable {w w' : World} {allowed : Range → Prop}

theorem inherited_bounded : Inherited fun _ => Bounded := ⟨fun _ h => h, fun h => h⟩

theorem Holds.bounded_step (holds : w.Holds fun _ => Bounded) (twins : w.Twins w') {r : Request}
    (finite : ∀ range ∈ r.ranges, range.isValid → range.isBounded) :
    Serves (fun _ => Bounded) IsMild w (w.step r) := by
  refine holds.step lastsGrowth_bounded inherited_bounded (fun config brought valid => ?_)
    fun i c net call_eq hi => ?_
  · obtain ⟨hw, hb⟩ := config.isValid_of_validate valid
    have settings : config.weightInit ∈ r.ranges ∧ config.biasInit ∈ r.ranges := by
      cases r <;> simp_all [Request.config?, Request.ranges]
    exact Bool.and_eq_true_iff.mpr ⟨finite _ settings.1 hw, finite _ settings.2 hb⟩
  · obtain rfl := call_eq
    obtain ⟨bare, sound, stands⟩ := twins.stands_at hi
    exact stands.bounded_perform sound (holds net (List.mem_of_getElem? hi)) fun range hr =>
      finite range (by simp [Request.ranges, hr])

theorem Holds.bounded_run (holds : w.Holds fun _ => Bounded) (twins : w.Twins w') {rs : List Request}
    (finite : ∀ r ∈ rs, ∀ range ∈ r.ranges, range.isValid → range.isBounded) :
    (w.run rs).Holds fun _ => Bounded := by
  induction rs generalizing w w' with
  | nil => exact holds
  | cons r rs ih =>
    have served := holds.bounded_step twins (finite r (by simp))
    exact ih served.holds (twins.run [r]).2 fun q hq => finite q (by simp [hq])

end Runs

end World

theorem World.new_aborts {config : Config} (valid : config.validate = .ok ())
    (unbounded : config.biasInit.isBounded = false) :
    ((({} : World).run []).step (.new 1 [] 1 config)).1 = .error .unboundedRange := by
  let named : Network :=
    { config, random := config.random, input := { neurons := [1] }
      graph := ({} : Graph).addNeuron 1 config.squash 0 }
  have inputs : (lay 1 [] 1).run ({}, blank config) = (do
      let l ← freshLayer 1
      modify fun s => (s.1, { s.2 with output := l }) : Growth Unit).run (⟨2⟩, named) := rfl
  have starved : (freshLayer 1).run (⟨2⟩, named) = .error .unboundedRange (⟨2⟩, named) := by
    rw [freshLayer, List.replicate_succ, List.mapM_cons, bind_assoc]
    exact bind_of_error (freshNeuron_of_error (draw_error unbounded named.random))
  have aborted : (Network.new 1 [] 1 config).run {} = .error .unboundedRange ⟨2⟩ :=
    grow_of_error valid (inputs.trans (bind_of_error starved))
  show (World.found {} (Network.new 1 [] 1 config)).1 = _
  rw [World.found, aborted]

/-- No run ends fatally exactly if every range that passes the check has a finite width, whatever
ranges there are. -/
theorem World.never_aborts_iff (allowed : Range → Prop) :
    (∀ (rs : List Request) (r : Request) (e : NetworkError),
      (∀ q ∈ rs ++ [r], ∀ range ∈ q.ranges, allowed range) →
      ((({} : World).run rs).step r).1 = .error e → e.isFatal = false) ↔
    ∀ range, allowed range → range.isValid → range.isBounded := by
  constructor
  · intro serves range hr valid
    by_contra unbounded
    let config : Config := { weightInit := range, biasInit := range }
    have settings : config.validate = .ok () := Config.validate_of_isValid valid valid
    have aborted := World.new_aborts settings (by simpa using unbounded)
    cases serves [] _ _ (by simp [Request.ranges, config, hr]) aborted
  · intro finite rs r e brought error_eq
    have start : ({} : World).Holds fun _ => Bounded := fun _ absent => nomatch absent
    have holds : (({} : World).run rs).Holds fun _ => Bounded :=
      start.bounded_run World.Twins.empty fun q hq range hr =>
        finite range (brought q (by simp [hq]) range hr)
    have served := holds.bounded_step (World.Twins.empty.run rs).2 (r := r) fun range hr =>
      finite range (brought r (by simp) range hr)
    exact served.1 e error_eq

theorem aborts_overflowingWidth : (⟨-1e308, 1e308⟩ : Range).isValid ∧
    Mutation.noiseFault? ⟨-1e308, 1e308⟩ = none ∧
    ({ biasInit := ⟨-1e308, 1e308⟩ } : Config).validate = .ok () ∧
    ((({} : World).run []).step (.new 1 [] 1 { biasInit := ⟨-1e308, 1e308⟩ })).1 =
      .error .unboundedRange ∧ NetworkError.unboundedRange.isFatal = true := by
  have valid : ({ biasInit := ⟨-1e308, 1e308⟩ } : Config).validate = .ok () :=
    Config.validate_of_isValid (by decide +kernel) (by decide +kernel)
  exact ⟨by decide +kernel, by decide +kernel, valid, World.new_aborts valid (by decide +kernel), rfl⟩

end GatedNetwork
