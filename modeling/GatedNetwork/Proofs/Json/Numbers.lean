import Mathlib.Data.Nat.Digits.Defs
import GatedNetwork.Json.Decoding
import GatedNetwork.Proofs.Decimal
import GatedNetwork.Proofs.Json.Reading

/-! Written numbers are literals to the reader, and natural numbers that 64 bits can hold are read
back as they were. -/

namespace GatedNetwork

open Decimal

namespace Json

section Digits

variable {c : Char} {ds : List Char}

theorem toNat_toUInt8 (digit : c.isDigit) : c.toUInt8.toNat = c.toNat := by
  have bounds := Char.isDigit_iff_toNat.mp digit
  rw [Char.toUInt8, UInt32.toNat_toUInt8]
  exact Nat.mod_eq_of_lt (Nat.lt_of_le_of_lt bounds.2 (by decide))

theorem isDigit_toUInt8 (digit : c.isDigit) : isDigit c.toUInt8 := by
  have bounds := Char.isDigit_iff_toNat.mp digit
  rw [← toNat_toUInt8 digit] at bounds
  simp only [isDigit, Bool.and_eq_true, decide_eq_true_eq, UInt8.le_iff_toNat_le]
  exact bounds

theorem isDigits_map (digits : ∀ c ∈ ds, c.isDigit) (some_left : ds ≠ []) :
    IsDigits (ds.map Char.toUInt8) where
  nonempty := List.map_eq_nil_iff.not.mpr some_left
  digits := List.forall_mem_map.mpr fun c hc => isDigit_toUInt8 (digits c hc)

theorem isDigits_toDigits (n : Nat) : IsDigits ((Nat.toDigits 10 n).map Char.toUInt8) :=
  isDigits_map (fun _ hc => Nat.isDigit_of_mem_toDigits (by decide) (by decide) hc)
    Nat.toDigits_ne_nil

theorem isWhole_map (h : IsNumeral ds) : IsWhole (ds.map Char.toUInt8) := by
  obtain ⟨c, head_eq, nonzero⟩ := h.leading
  refine .digits (isDigits_map h.digits h.ne_nil) fun b head_eq' zero => nonzero ?_
  have digit := h.digits c (List.mem_of_mem_head? head_eq)
  rw [List.head?_map, head_eq, zero] at head_eq'
  have same : c.toUInt8.toNat = 48 := congrArg UInt8.toNat (Option.some.inj head_eq')
  rw [toNat_toUInt8 digit] at same
  exact Char.toNat_inj.mp same

theorem isWhole_toDigits (n : Nat) : IsWhole ((Nat.toDigits 10 n).map Char.toUInt8) := by
  rcases Nat.eq_zero_or_pos n with rfl | pos
  · exact .zero
  · exact isWhole_map (isNumeral_toDigits pos)

end Digits

section Naturals

variable {n : Nat}

theorem ascii_toString (n : Nat) : ascii (toString n) = (Nat.toDigits 10 n).map Char.toUInt8 := by
  rw [ascii, Nat.toString_eq_ofList_toDigits, String.toList_ofList]

theorem isNumber_nat (n : Nat) : IsNumber (ascii (toString n)) := by
  have literal := IsNumber.intro (.inl rfl) (isWhole_toDigits n) .none .none
  rw [ascii_toString]
  simpa using literal

theorem natOf_nat (small : n ≤ largest) : natOf (ascii (toString n)) = some n := by
  have digits : (ascii (toString n)).all isDigit := by
    rw [ascii_toString]
    exact List.all_eq_true.mpr (isDigits_toDigits n).digits
  have value : (ascii (toString n)).foldl (fun n d => 10 * n + digit d) 0 = n := by
    rw [ascii_toString, List.foldl_map]
    calc
      (Nat.toDigits 10 n).foldl (fun n c => 10 * n + digit c.toUInt8) 0
          = (Nat.toDigits 10 n).foldl (fun n c => 10 * n + (c.toNat - 48)) 0 := by
        refine List.foldl_ext _ _ _ fun n c hc => ?_
        rw [digit, toNat_toUInt8 (Nat.isDigit_of_mem_toDigits (by decide) (by decide) hc)]
      _ = Nat.ofDigitChars 10 (Nat.toDigits 10 n) 0 := Nat.ofDigitChars_eq_foldl.symm
      _ = n := Nat.ofDigitChars_ten_toDigits
  rw [natOf, if_pos digits, value]
  exact if_pos small

theorem toNat?_nat (small : n ≤ largest) : toNat? (.nat n) = some n := natOf_nat small

theorem legible_nat (n : Nat) : Legible (.nat n) := .number (isNumber_nat n)

end Naturals

section Floats

variable {s : Style} {d : Digits}

theorem isDigit_zeros (n : Int) : ∀ c ∈ zeros n, c.isDigit := fun c hc => by
  rw [List.eq_of_mem_replicate hc]
  rfl

theorem isNumber_map {minus whole fraction exponent : List Char} (sign : minus = [] ∨ minus = ['-'])
    (whole_ok : IsWhole (whole.map Char.toUInt8)) (fraction_ok : IsFraction (fraction.map Char.toUInt8))
    (exponent_ok : IsExponent (exponent.map Char.toUInt8)) :
    IsNumber ((minus ++ (whole ++ (fraction ++ exponent))).map Char.toUInt8) := by
  simp only [List.map_append]
  refine .intro ?_ whole_ok fraction_ok exponent_ok
  rcases sign with rfl | rfl
  · exact .inl rfl
  · exact .inr rfl

theorem isFraction_map {ds : List Char} (digits : ∀ c ∈ ds, c.isDigit) (some_left : ds ≠ []) :
    IsFraction (('.' :: ds).map Char.toUInt8) :=
  .digits (isDigits_map digits some_left)

theorem isFraction_pointZero (s : Style) :
    IsFraction ((if s.pointZero then ['.', '0'] else []).map Char.toUInt8) := by
  split
  · exact isFraction_map (List.forall_mem_singleton.mpr rfl) (List.cons_ne_nil _ _)
  · exact .none

theorem no_exponent : IsExponent (([] : List Char).map Char.toUInt8) := .none

theorem positional_parts (s : Style) (h : IsNumeral d.digits) :
    ∃ whole fraction, s.positional d = whole ++ fraction ∧ IsWhole (whole.map Char.toUInt8) ∧
      IsFraction (fraction.map Char.toUInt8) := by
  rw [Style.positional]
  split
  · refine ⟨['0'], _, rfl, .zero, isFraction_map (fun c hc => ?_) ?_⟩
    · exact (List.mem_append.mp hc).elim (isDigit_zeros _ c) (h.digits c)
    · exact List.append_ne_nil_of_right_ne_nil _ h.ne_nil
  · obtain ⟨c, head_eq, nonzero⟩ := h.leading
    simp only
    split
    · refine ⟨_, _, rfl, isWhole_map ⟨fun c hc => ?_, c, ?_, nonzero⟩, isFraction_pointZero s⟩
      · exact (List.mem_append.mp hc).elim (h.digits c) (isDigit_zeros _ c)
      · rw [List.head?_append, head_eq]
        rfl
    · rename_i long
      refine ⟨_, _, rfl, isWhole_map ⟨fun c hc => ?_, c, ?_, nonzero⟩,
        isFraction_map (fun c hc => ?_) ?_⟩
      · exact h.digits c (List.mem_of_mem_take hc)
      · rw [List.head?_take, if_neg (Nat.succ_ne_zero _), head_eq]
      · exact h.digits c (List.mem_of_mem_drop hc)
      · rw [Ne, List.drop_eq_nil_iff]
        exact long

theorem scientific_parts {s : Style} (signed : s.plusSign) (h : IsNumeral d.digits) :
    ∃ whole fraction exponent, s.scientific d = whole ++ (fraction ++ exponent) ∧
      IsWhole (whole.map Char.toUInt8) ∧ IsFraction (fraction.map Char.toUInt8) ∧
      IsExponent (exponent.map Char.toUInt8) := by
  have exponent_ok : IsExponent ((('e' :: if d.leading < 0 then ['-'] else if s.plusSign then ['+']
      else []) ++ Nat.toDigits 10 d.leading.natAbs).map Char.toUInt8) := by
    have digits := isDigits_toDigits d.leading.natAbs
    rw [if_pos signed]
    split
    · exact .digits (.inr rfl) digits
    · exact .digits (.inl rfl) digits
  obtain ⟨ds, leading⟩ := d
  obtain ⟨c, head_eq, nonzero⟩ := h.leading
  have digits := h.digits
  rw [Style.scientific, List.append_assoc]
  match ds with
  | [] => nomatch head_eq
  | [first] => exact ⟨[first], [], _, rfl, isWhole_map ⟨digits, c, head_eq, nonzero⟩, .none, exponent_ok⟩
  | first :: second :: rest =>
    refine ⟨[first], '.' :: second :: rest, _, rfl, isWhole_map ⟨fun c hc => ?_, c, head_eq, nonzero⟩,
      isFraction_map (fun c hc => ?_) (List.cons_ne_nil _ _), exponent_ok⟩
    · exact digits c (List.mem_singleton.mp hc ▸ List.mem_cons_self)
    · exact digits c (List.mem_cons_of_mem first hc)

theorem isNumber_finite (x : Float) : IsNumber ((style.finite x).map Char.toUInt8) := by
  have sign_ok : sign x = [] ∨ sign x = ['-'] := by
    rw [sign]
    split
    · exact .inr rfl
    · exact .inl rfl
  rw [Style.finite]
  split
  · have whole_ok : IsWhole (['0'].map Char.toUInt8) := .zero
    have fraction_ok : IsFraction (['.', '0'].map Char.toUInt8) :=
      isFraction_map (List.forall_mem_singleton.mpr rfl) (List.cons_ne_nil _ _)
    exact isNumber_map sign_ok whole_ok fraction_ok no_exponent
  · rename_i nonzero
    have numeral := isNumeral_ofFloat nonzero style.tie
    simp only
    split
    · obtain ⟨whole, fraction, parts_eq, whole_ok, fraction_ok⟩ := positional_parts style numeral
      have literal := isNumber_map sign_ok whole_ok fraction_ok no_exponent
      rwa [parts_eq, ← List.append_nil fraction]
    · obtain ⟨whole, fraction, exponent, parts_eq, whole_ok, fraction_ok, exponent_ok⟩ :=
        scientific_parts (s := style) rfl numeral
      rw [parts_eq]
      exact isNumber_map sign_ok whole_ok fraction_ok exponent_ok

theorem legible_float (x : Float) : Legible (.float x) := by
  rw [float]
  split
  · exact .number (isNumber_finite x)
  · exact .null

theorem toFloat?_float_of_not_finite {x : Float} (endless : ¬ x.isFinite) :
    toFloat? (.float x) = none := by
  rw [float, if_neg endless]
  rfl

end Floats

end Json

end GatedNetwork
