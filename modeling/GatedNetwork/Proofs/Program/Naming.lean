import Mathlib.Data.List.Basic
import GatedNetwork.Program.Key

/-! Keys can be read back from their names. A name is a word and the numbers behind it, with
underscores between them; as none of these parts holds an underscore itself, the name splits into
them again, and the parts tell the key. -/

namespace GatedNetwork

namespace Key

section Parts

def word : Key → String
  | .rate => "rate"
  | .target _ => "target"
  | .state _ => "state"
  | .old _ => "old"
  | .activation _ => "activation"
  | .derivative _ => "derivative"
  | .bias _ => "bias"
  | .responsibility _ => "responsibility"
  | .projected _ => "projected"
  | .gated _ => "gated"
  | .error _ => "error"
  | .gradient _ => "gradient"
  | .weight _ => "weight"
  | .gain _ => "gain"
  | .eligibility _ _ => "eligibility"
  | .extended _ _ _ => "extended"
  | .influence _ _ => "influence"

def numbers : Key → List Nat
  | .rate => []
  | .target i => [i]
  | .state n | .old n | .activation n | .derivative n | .bias n | .responsibility n
  | .projected n | .gated n | .error n | .gradient n => [n]
  | .weight c | .gain c => [c.source, c.target]
  | .eligibility n c => [c.source, c.target, n]
  | .extended n k c => [k, c.source, c.target, n]
  | .influence n k => [k, n]

def ofParts? : String → List Nat → Option Key
  | "rate", [] => some .rate
  | "target", [i] => some (.target i)
  | "state", [n] => some (.state n)
  | "old", [n] => some (.old n)
  | "activation", [n] => some (.activation n)
  | "derivative", [n] => some (.derivative n)
  | "bias", [n] => some (.bias n)
  | "responsibility", [n] => some (.responsibility n)
  | "projected", [n] => some (.projected n)
  | "gated", [n] => some (.gated n)
  | "error", [n] => some (.error n)
  | "gradient", [n] => some (.gradient n)
  | "weight", [s, t] => some (.weight ⟨s, t⟩)
  | "gain", [s, t] => some (.gain ⟨s, t⟩)
  | "eligibility", [s, t, n] => some (.eligibility n ⟨s, t⟩)
  | "extended", [k, s, t, n] => some (.extended n k ⟨s, t⟩)
  | "influence", [k, n] => some (.influence n k)
  | _, _ => none

variable {a b k : Key}

theorem ofParts?_parts (k : Key) : ofParts? k.word k.numbers = some k := by
  cases k <;> rfl

theorem eq_of_parts_eq (words : a.word = b.word) (numbers : a.numbers = b.numbers) : a = b := by
  refine Option.some.inj ?_
  calc
    some a = ofParts? a.word a.numbers := (ofParts?_parts a).symm
    _ = ofParts? b.word b.numbers := by rw [words, numbers]
    _ = some b := ofParts?_parts b

def parts (k : Key) : List (List Char) :=
  k.word.toList :: k.numbers.map (Nat.toDigits 10)

theorem underscore_notMem_word (k : Key) : '_' ∉ k.word.toList := by
  cases k <;> simp [word]

theorem underscore_notMem_parts : ∀ part ∈ k.parts, '_' ∉ part :=
  List.forall_mem_cons.mpr ⟨underscore_notMem_word k, List.forall_mem_map.mpr fun _ _ mem =>
    absurd (Nat.isDigit_of_mem_toDigits (by decide) (by decide) mem) (by decide)⟩

theorem toList_name (k : Key) : k.name.toList = ['_'].intercalate k.parts := by
  unfold name parts word numbers
  cases k <;> simp [ConnectionId.name]

theorem splitOn_name (k : Key) : k.name.toList.splitOn '_' = k.parts := by
  rw [toList_name]
  exact List.splitOn_intercalate '_' underscore_notMem_parts (List.cons_ne_nil _ _)

theorem toDigits_injective : Function.Injective (Nat.toDigits 10) :=
  Function.LeftInverse.injective fun _ => Nat.ofDigitChars_ten_toDigits

/-- Keys with one name are one key. -/
theorem name_inj : a.name = b.name ↔ a = b := by
  refine ⟨fun names_eq => ?_, congrArg name⟩
  have parts_eq : a.parts = b.parts := by
    rw [← splitOn_name, ← splitOn_name, names_eq]
  obtain ⟨words_eq, digits_eq⟩ := List.cons.inj parts_eq
  exact eq_of_parts_eq (String.toList_inj.mp words_eq)
    (List.map_injective_iff.mpr toDigits_injective digits_eq)

end Parts

end Key

end GatedNetwork
