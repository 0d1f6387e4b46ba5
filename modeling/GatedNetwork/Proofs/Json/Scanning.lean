import Mathlib.Data.List.TakeDrop
import GatedNetwork.Json.Printing
import GatedNetwork.Json.Reading

/-! Tokens whatever follows them. A number is one token if what stands behind it cannot go on with
it; a string without escapes is one token. -/

namespace GatedNetwork.Json

/-- Nothing at the front goes on with a number. -/
def Ends (rest : Bytes) : Prop :=
  ∀ b, rest.head? = some b → isDigit b = false ∧ b ≠ 46 ∧ b ≠ 101 ∧ b ≠ 69

theorem ends_cons {b : UInt8} (rest : Bytes)
    (h : isDigit b = false ∧ b ≠ 46 ∧ b ≠ 101 ∧ b ≠ 69 := by decide) : Ends (b :: rest) := by
  intro b' head_eq
  obtain rfl := Option.some.inj head_eq
  exact h

theorem ends_nil : Ends [] := nofun

structure IsDigits (ds : Bytes) : Prop where
  nonempty : ds ≠ []
  digits : ∀ d ∈ ds, isDigit d

inductive IsWhole : Bytes → Prop where
  | zero : IsWhole [48]
  | digits {ds : Bytes} (h : IsDigits ds) (leading : ∀ d, ds.head? = some d → d ≠ 48) : IsWhole ds

inductive IsFraction : Bytes → Prop where
  | none : IsFraction []
  | digits {ds : Bytes} (h : IsDigits ds) : IsFraction (46 :: ds)

inductive IsExponent : Bytes → Prop where
  | none : IsExponent []
  | digits {s : UInt8} {ds : Bytes} (sign : s = 43 ∨ s = 45) (h : IsDigits ds) :
    IsExponent (101 :: s :: ds)

inductive IsNumber : Bytes → Prop where
  | intro {minus whole fraction exponent : Bytes} (sign : minus = [] ∨ minus = [45])
    (whole_ok : IsWhole whole) (fraction_ok : IsFraction fraction)
    (exponent_ok : IsExponent exponent) : IsNumber (minus ++ (whole ++ (fraction ++ exponent)))

def IsPlain (raw : Bytes) : Prop := ∀ b ∈ raw, 32 ≤ b ∧ b ≠ 34 ∧ b ≠ 92

instance (raw : Bytes) : Decidable (IsPlain raw) :=
  inferInstanceAs (Decidable (∀ b ∈ raw, 32 ≤ b ∧ b ≠ 34 ∧ b ≠ 92))

section Numbers

variable {ds l rest fraction exponent : Bytes} {b : UInt8}

theorem span_digits (digits : ∀ d ∈ ds, isDigit d)
    (stop : ∀ b, rest.head? = some b → isDigit b = false) :
    (ds ++ rest).span isDigit = (ds, rest) := by
  rw [List.span_eq_takeWhile_dropWhile, List.takeWhile_append_of_pos digits,
    List.dropWhile_append_of_pos digits]
  cases rest with
  | nil => simp
  | cons b rest => simp [stop b rfl]

theorem IsDigits.scanDigits_append (h : IsDigits ds)
    (stop : ∀ b, rest.head? = some b → isDigit b = false) :
    scanDigits (ds ++ rest) = some (ds, rest) := by
  obtain ⟨d, ds, rfl⟩ := List.exists_cons_of_ne_nil h.nonempty
  rw [scanDigits, span_digits h.digits stop]

theorem IsExponent.head (h : IsExponent exponent) (ends : Ends rest) (b : UInt8)
    (head_eq : (exponent ++ rest).head? = some b) : isDigit b = false ∧ b ≠ 46 := by
  cases h with
  | none => exact ⟨(ends b head_eq).1, (ends b head_eq).2.1⟩
  | digits sign h =>
    obtain rfl := Option.some.inj head_eq
    decide

theorem IsFraction.head (h : IsFraction fraction) (h' : IsExponent exponent) (ends : Ends rest)
    (b : UInt8) (head_eq : (fraction ++ (exponent ++ rest)).head? = some b) : isDigit b = false := by
  cases h with
  | none => exact (h'.head ends b head_eq).1
  | digits h =>
    obtain rfl := Option.some.inj head_eq
    decide

theorem IsExponent.scanExponent_append (h : IsExponent exponent) (ends : Ends rest) :
    scanExponent (exponent ++ rest) = some (exponent, rest) := by
  cases h with
  | none =>
    cases rest with
    | nil => rfl
    | cons b rest =>
      obtain ⟨-, -, small, large⟩ := ends b rfl
      exact if_neg (by simp [small, large])
  | @digits s ds sign h =>
    have signed : (s == 43 || s == 45) = true := by simpa using sign
    have scanned := h.scanDigits_append fun b head_eq => (ends b head_eq).1
    rw [List.cons_append, List.cons_append, scanExponent, if_pos (by decide), if_pos signed, scanned]
    rfl

theorem IsFraction.scanFraction_append (h : IsFraction fraction) (h' : IsExponent exponent)
    (ends : Ends rest) :
    scanFraction (fraction ++ (exponent ++ rest)) = some (fraction, exponent ++ rest) := by
  cases h with
  | none =>
    rw [List.nil_append, scanFraction.eq_def]
    split
    · rename_i rest' split_eq
      exact absurd rfl (h'.head ends 46 (by rw [split_eq]; rfl)).2
    · rfl
  | digits h =>
    have scanned := h.scanDigits_append fun b head_eq => (h'.head ends b head_eq).1
    rw [List.cons_append, scanFraction, scanned]
    rfl

theorem IsWhole.scanWhole_append {whole : Bytes} (h : IsWhole whole)
    (stop : ∀ b, rest.head? = some b → isDigit b = false) :
    scanWhole (whole ++ rest) = some (whole, rest) := by
  cases h with
  | zero => rfl
  | digits h leading =>
    rw [scanWhole.eq_def]
    split
    · rename_i rest' split_eq
      obtain ⟨d, ds, rfl⟩ := List.exists_cons_of_ne_nil h.nonempty
      exact absurd (List.cons.inj split_eq).1 (leading d rfl)
    · exact h.scanDigits_append stop

theorem IsWhole.head {whole : Bytes} (h : IsWhole whole) :
    ∃ d ds, whole = d :: ds ∧ isDigit d := by
  cases h with
  | zero => exact ⟨48, [], rfl, rfl⟩
  | digits h =>
    obtain ⟨d, ds, rfl⟩ := List.exists_cons_of_ne_nil h.nonempty
    exact ⟨d, ds, rfl, h.digits d List.mem_cons_self⟩

theorem scanMinus_append {minus whole : Bytes} (sign : minus = [] ∨ minus = [45]) (h : IsWhole whole)
    (rest : Bytes) : scanMinus (minus ++ (whole ++ rest)) = (minus, whole ++ rest) := by
  rcases sign with rfl | rfl
  · obtain ⟨d, ds, rfl, digit⟩ := h.head
    rw [scanMinus.eq_def]
    split
    · rename_i rest' split_eq
      obtain rfl : d = 45 := (List.cons.inj split_eq).1
      nomatch digit
    · rfl
  · rfl

theorem IsNumber.scanNumber_append (h : IsNumber l) (ends : Ends rest) :
    scanNumber (l ++ rest) = some (l, rest) := by
  obtain ⟨sign, whole_ok, fraction_ok, exponent_ok⟩ := h
  have stop := fraction_ok.head exponent_ok ends
  rw [scanNumber]
  simp only [List.append_assoc, scanMinus_append sign whole_ok, whole_ok.scanWhole_append stop,
    fraction_ok.scanFraction_append exponent_ok ends, exponent_ok.scanExponent_append ends,
    Option.bind_eq_bind, Option.bind_some, Option.pure_def]

theorem IsNumber.head (h : IsNumber l) : ∃ b bs, l = b :: bs ∧ (b = 45 ∨ isDigit b) := by
  obtain ⟨sign, whole_ok, -, -⟩ := h
  obtain ⟨d, ds, rfl, digit⟩ := whole_ok.head
  rcases sign with rfl | rfl
  · exact ⟨d, _, rfl, .inr digit⟩
  · exact ⟨45, _, rfl, .inl rfl⟩

theorem scanToken_of_number (first : b = 45 ∨ isDigit b) (rest : Bytes) :
    scanToken b rest = (scanNumber (b :: rest)).map fun p => (.scalar (.number p.1), p.2) := by
  have other (b' : UInt8) (strange : ¬ (b' = 45 ∨ isDigit b')) : b ≠ b' := fun same =>
    strange (same ▸ first)
  rw [scanToken.eq_def]
  split
  case h_11 => rfl
  all_goals exact absurd rfl (other _ (by decide))

end Numbers

section Strings

variable {raw : Bytes}

theorem scanString_append (plain : IsPlain raw) (seen rest : Bytes) :
    scanString seen (raw ++ 34 :: rest) = some (seen.reverse ++ raw, rest) := by
  induction raw generalizing seen with
  | nil =>
    rw [List.append_nil]
    rfl
  | cons b raw ih =>
    obtain ⟨⟨visible, quote, escape⟩, plain⟩ := List.forall_mem_cons.mp plain
    have control : ¬ (b < 32 || b == 92) = true := by
      have : ¬ b < 32 := UInt8.not_lt.mpr visible
      simp [this, escape]
    rw [List.cons_append, scanString.eq_def]
    split
    · contradiction
    · rename_i split_eq
      exact absurd (List.cons.inj split_eq).1 quote
    · rename_i split_eq
      exact absurd (List.cons.inj split_eq).1 escape
    · rename_i split_eq
      exact absurd (List.cons.inj split_eq).1 escape
    · rename_i split_eq
      obtain ⟨rfl, rfl⟩ := List.cons.inj split_eq
      rw [if_neg control, ih plain]
      simp

theorem scanToken_quoted (plain : IsPlain raw) (rest : Bytes) :
    scanToken 34 (raw ++ 34 :: rest) = some (.scalar (.string raw), rest) := by
  exact congrArg (Option.map fun p => (Token.scalar (.string p.1), p.2)) (scanString_append plain [] rest)

end Strings

end GatedNetwork.Json
