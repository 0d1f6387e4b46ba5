import GatedNetwork.Decimal.Shortest
import GatedNetwork.Proofs.Binary64

/-! The digits of a float other than zero: there is one at least, and the first is no zero. -/

namespace GatedNetwork

namespace Decimal

/-- Digits, at least one, the first of them no zero. -/
structure IsNumeral (ds : List Char) : Prop where
  digits : ∀ c ∈ ds, c.isDigit
  leading : ∃ c, ds.head? = some c ∧ c ≠ '0'

theorem isNumeral_toDigits {n : Nat} (pos : 0 < n) : IsNumeral (Nat.toDigits 10 n) where
  digits c hc := Nat.isDigit_of_mem_toDigits (by decide) (by decide) hc
  leading := by
    induction n using Nat.strongRecOn with
    | ind n ih =>
      rw [Nat.toDigits_eq_if (by decide)]
      split
      · exact ⟨_, rfl, fun zero => Nat.ne_of_gt pos (Nat.digitChar_eq_zero.mp zero)⟩
      · obtain ⟨c, head_eq, nonzero⟩ := ih (n / 10) (by omega) (by omega)
        exact ⟨c, by rw [List.head?_append, head_eq]; rfl, nonzero⟩

theorem IsNumeral.ne_nil {ds : List Char} (h : IsNumeral ds) : ds ≠ [] := by
  obtain ⟨c, head_eq, -⟩ := h.leading
  rintro rfl
  nomatch head_eq

theorem IsNumeral.rdropWhile {ds : List Char} (h : IsNumeral ds) :
    IsNumeral (ds.rdropWhile (· == '0')) where
  digits c hc := h.digits c ((List.rdropWhile_prefix _ _).subset hc)
  leading := by
    obtain ⟨c, head_eq, nonzero⟩ := h.leading
    have left : ds.rdropWhile (· == '0') ≠ [] := fun none_left => by
      have zero := (List.rdropWhile_eq_nil_iff.mp none_left) c (List.mem_of_mem_head? head_eq)
      exact nonzero (eq_of_beq zero)
    obtain ⟨c', rest, split⟩ := List.exists_cons_of_ne_nil left
    obtain ⟨dropped, append_eq⟩ := List.rdropWhile_prefix (· == '0') (l := ds)
    refine ⟨c, ?_, nonzero⟩
    rw [split, List.cons_append] at append_eq
    rw [split, ← head_eq, ← append_eq]
    rfl

theorem isNumeral_ofScaled {n : Nat} (pos : 0 < n) (g : Int) : IsNumeral (Digits.ofScaled n g).digits :=
  (isNumeral_toDigits pos).rdropWhile

section Shortest

variable {x : Binary} {tie : Tie} {g : Int} {n : Nat}

theorem power_pos {base : Nat} (pos : 0 < base) (e : Int) : 0 < power base e := Nat.pow_pos pos

theorem readsBack_zero (pos : 0 < x.m) (g : Int) : x.readsBack 0 g = false := by
  have lower {low : Nat} (pos : 0 < low) (j : Int) : compareScaled 0 g low j = .lt := by
    rw [compareScaled, Nat.zero_mul, Nat.zero_mul, Nat.compare_eq_lt]
    exact Nat.mul_pos (Nat.mul_pos pos (power_pos (by decide) j)) (power_pos (by decide) _)
  have low_pos : 0 < if x.narrowBelow then 4 * x.m - 1 else 4 * x.m - 2 := by
    split <;> omega
  simp only [Binary.readsBack, lower low_pos]
  simp

theorem readsBack_neighbour? (found : x.neighbour? tie g = some n) : x.readsBack n g := by
  simp only [Binary.neighbour?] at found
  split at found
  · nomatch found
  · rename_i below _
    exact Option.some.inj found ▸ below
  · rename_i _ above
    exact Option.some.inj found ▸ above
  · rename_i below above
    split at found
    · exact Option.some.inj found ▸ below
    · exact Option.some.inj found ▸ above
    · exact Option.some.inj found ▸ above
    · obtain rfl := Option.some.inj found
      split
      · exact below
      · exact above

theorem shortest_pos (pos : 0 < x.m) (tie : Tie) : 0 < (x.shortest tie).1 := by
  rw [Binary.shortest]
  cases tried_eq : (List.range 17).findSome? fun (i : Nat) =>
      (x.neighbour? tie (x.magnitude - 1 - i)).map (·, x.magnitude - 1 - i) with
  | none =>
    exact Nat.mul_pos (Nat.mul_pos pos (power_pos (by decide) _)) (power_pos (by decide) _)
  | some tried =>
    obtain ⟨i, -, mapped⟩ := List.exists_of_findSome?_eq_some tried_eq
    obtain ⟨n, found, rfl⟩ := Option.map_eq_some_iff.mp mapped
    refine Nat.pos_of_ne_zero fun zero : n = 0 => ?_
    have reads := readsBack_neighbour? found
    rw [zero, readsBack_zero pos] at reads
    nomatch reads

end Shortest

open Float.Model.UnpackedFloat Binary64 in
/-- Only the two zeros have no significant bit. -/
theorem ofBits_m_pos {x : Float} (nonzero : ¬ x == 0) : 0 < (Binary.ofBits x.toBits).m := by
  refine Nat.pos_of_ne_zero fun none_set => nonzero ?_
  have exponent_eq : (x.toBits >>> 52 &&& 0x7ff).toNat = x.toBits.toNat / 2 ^ 52 % 2 ^ 11 := by
    rw [UInt64.toNat_and, UInt64.toNat_shiftRight, Nat.shiftRight_eq_div_pow]
    exact Nat.and_two_pow_sub_one_eq_mod _ 11
  have fraction_eq : (x.toBits &&& 0xfffffffffffff).toNat = x.toBits.toNat % 2 ^ 52 := by
    rw [UInt64.toNat_and]
    exact Nat.and_two_pow_sub_one_eq_mod _ 52
  have unset : x.toBits.toNat / 2 ^ 52 % 2 ^ 11 = 0 ∧ x.toBits.toNat % 2 ^ 52 = 0 := by
    rw [Binary.ofBits] at none_set
    split at none_set
    · rename_i no_exponent
      exact ⟨exponent_eq ▸ no_exponent, fraction_eq ▸ none_set⟩
    · have : 0x10000000000000 + (x.toBits &&& 0xfffffffffffff).toNat = 0 := none_set
      omega
  have no_exponent : unpackExponent (layout x) = 0 :=
    BitVec.eq_of_toNat_eq ((exponent_toNat x).trans unset.1)
  have no_mantissa : unpackMantissa (layout x) = 0 :=
    BitVec.eq_of_toNat_eq ((mantissa_toNat x).trans unset.2)
  have unreserved : ¬ unpackExponent (layout x) = -1#_ := by
    rw [no_exponent]
    decide
  have zero_eq : x.toModel.unpack = .zero (.ofBitVec (unpackSign (layout x))) :=
    (if_neg unreserved).trans ((if_pos no_exponent).trans (dif_pos no_mantissa))
  change x.toModel.unpack.beq (.zero .positive) = true
  rw [zero_eq]
  rfl

theorem isNumeral_ofFloat {x : Float} (nonzero : ¬ x == 0) (tie : Tie) :
    IsNumeral (Digits.ofFloat x tie).digits := by
  have pos := shortest_pos (ofBits_m_pos nonzero) tie
  rw [Digits.ofFloat]
  generalize (Binary.ofBits x.toBits).shortest tie = found at pos ⊢
  exact isNumeral_ofScaled pos found.2

end Decimal

end GatedNetwork
