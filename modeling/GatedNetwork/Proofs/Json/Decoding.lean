import GatedNetwork.Codec.Settings
import GatedNetwork.Proofs.Json.Numbers

/-! Values are found where they were written: the fields of a record by their names, an activation
function and a layer by their tags. -/

namespace GatedNetwork

namespace Json

section Lists

variable {α β : Type} {xs : List α} {f : α → Option β}

theorem mapM_eq_some {g : α → β} (h : ∀ x ∈ xs, f x = some (g x)) : xs.mapM f = some (xs.map g) := by
  induction xs with
  | nil => rfl
  | cons x xs ih =>
    obtain ⟨first, later⟩ := List.forall_mem_cons.mp h
    rw [List.mapM_cons, first, ih later]
    rfl

theorem mapM_eq_none {x : α} (mem : x ∈ xs) (h : f x = none) : xs.mapM f = none := by
  induction xs with
  | nil => nomatch mem
  | cons y xs ih =>
    rw [List.mapM_cons]
    rcases List.mem_cons.mp mem with rfl | mem
    · rw [h]
      rfl
    · rw [ih mem]
      cases f y <;> rfl

end Lists

/-- A name that is written without escapes and read as it is. -/
structure IsName (name : String) : Prop where
  plain : IsPlain (ascii name)
  text : textOf (ascii name) = some name

instance (name : String) : Decidable (IsName name) :=
  decidable_of_iff (IsPlain (ascii name) ∧ textOf (ascii name) = some name)
    ⟨fun ⟨plain, text⟩ => ⟨plain, text⟩, fun ⟨plain, text⟩ => ⟨plain, text⟩⟩

section Records

variable {members : List (String × Json)} {name : String} {v : Json}

theorem lookup_mem (distinct : (members.map (·.1)).Nodup) (mem : (name, v) ∈ members) :
    lookup members name = some (some v) := by
  have found : members.filter (·.1 == name) = [(name, v)] := by
    induction members with
    | nil => nomatch mem
    | cons m members ih =>
      obtain ⟨unlike, distinct⟩ := List.nodup_cons.mp distinct
      rcases List.mem_cons.mp mem with rfl | mem
      · have others : members.filter (·.1 == name) = [] := List.filter_eq_nil_iff.mpr fun m hm same =>
          unlike (List.mem_map.mpr ⟨m, hm, eq_of_beq same⟩)
        rw [List.filter_cons, if_pos (by simp), others]
      · have other : ¬ m.1 == name := fun same =>
          unlike (List.mem_map.mpr ⟨(name, v), mem, (eq_of_beq same).symm⟩)
        rw [List.filter_cons, if_neg other, ih distinct mem]
  rw [lookup, found]

/-- A record has the fields it was written with. -/
theorem fields_record (members : List (String × Json)) (named : ∀ m ∈ members, IsName m.1)
    (distinct : (members.map (·.1)).Nodup) :
    fields (members.map (·.1)) (.record members) = some (members.map fun m => some m.2) := by
  have decoded : (members.map fun m => (ascii m.1, m.2)).mapM
      (fun m => do return (← textOf m.1, m.2)) = some members := by
    rw [List.mapM_map]
    refine (mapM_eq_some (g := id) fun m hm => ?_).trans (congrArg some (List.map_id _))
    simp [(named m hm).text]
  have found : (members.map (·.1)).mapM (lookup members) = some (members.map fun m => some m.2) := by
    rw [List.mapM_map]
    exact mapM_eq_some fun m hm => lookup_mem distinct hm
  have looked_up := congrArg (Option.bind · fun ms => (members.map fun m => m.1).mapM (lookup ms)) decoded
  exact looked_up.trans found

theorem Legible.record {members : List (String × Json)} (named : ∀ m ∈ members, IsName m.1)
    (legible : ∀ m ∈ members, Legible m.2) : Legible (.record members) :=
  .object (List.forall_mem_map.mpr fun m hm => (named m hm).plain)
    (List.forall_mem_map.mpr fun m hm => legible m hm)

theorem choice_text (named : IsName name) : choice (.text name) = some (name, none) := by
  rw [text, choice, named.text]
  rfl

theorem choice_record (named : IsName name) : choice (.record [(name, v)]) = some (name, some v) := by
  rw [record, List.map_singleton, choice, named.text]
  rfl

end Records

end Json

open Json

theorem Squash.isName (f : Squash) : IsName f.name := by
  have named : ∀ f ∈ all, IsName f.name := by decide +kernel
  exact named f (by cases f <;> simp [all])

theorem Squash.ofJson?_toJson (f : Squash) : Squash.ofJson? f.toJson = some f := by
  rw [toJson, ofJson?, tag, choice_text f.isName]
  cases f <;> rfl

theorem Squash.legible (f : Squash) : Legible f.toJson := .string f.isName.plain

namespace LayerRef

/-- The index of a hidden layer is a number of 64 bits. -/
def Sized (l : LayerRef) : Prop := ∀ i, l = .hidden i → i ≤ largest

theorem isName_tags : ∀ name ∈ ["input", "output", "hidden"], IsName name := by decide +kernel

theorem ofJson?_toJson {l : LayerRef} (sized : l.Sized) : ofJson? l.toJson = some l := by
  cases l with
  | input =>
    rw [toJson, ofJson?, choice_text (isName_tags _ (by simp))]
    rfl
  | output =>
    rw [toJson, ofJson?, choice_text (isName_tags _ (by simp))]
    rfl
  | hidden i =>
    rw [toJson, ofJson?, choice_record (isName_tags _ (by simp))]
    change (toNat? (.nat i)).map hidden = _
    rw [toNat?_nat (sized i rfl)]
    rfl

theorem legible (l : LayerRef) : Legible l.toJson := by
  cases l with
  | input => exact .string (isName_tags _ (by simp)).plain
  | output => exact .string (isName_tags _ (by simp)).plain
  | hidden i =>
    refine .record (List.forall_mem_singleton.mpr (isName_tags _ (by simp))) ?_
    exact List.forall_mem_singleton.mpr (legible_nat i)

end LayerRef

end GatedNetwork
