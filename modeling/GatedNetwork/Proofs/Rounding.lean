import Mathlib
import GatedNetwork.Proofs.Binary64

/-! Rounding to a float. A finite float is a whole number of units, the unit being the smallest
positive float, and one float is not greater than another if it has not more units. An exact result
is rounded to a neighbour, with no float strictly between the two; so a sum with a number that is not
negative is not rounded below the other summand. -/

namespace GatedNetwork.Binary64

open Float.Model Float.Model.UnpackedFloat

section Neighbours

variable {x l m k r : Nat}

/-- How many of the last bits of a number do not fit into a mantissa. -/
def excess (x : Nat) : Nat := x.log2 - 52

/-- What a number is rounded to, in multiples of its last bit that fits. -/
structure Rounds (x r : Nat) : Prop where
  above : x / 2 ^ excess x ≤ r
  below : r * 2 ^ excess x < x + 2 ^ excess x

theorem log2_mul_two_pow (pos : 0 < m) (k : Nat) : (m * 2 ^ k).log2 = m.log2 + k := by
  refine (Nat.log2_eq_iff (Nat.mul_pos pos (Nat.two_pow_pos k)).ne').mpr ⟨?_, ?_⟩
  · rw [Nat.pow_add]
    exact Nat.mul_le_mul_right _ (Nat.log2_self_le pos.ne')
  · rw [Nat.add_right_comm, Nat.pow_add]
    exact Nat.mul_lt_mul_of_pos_right Nat.lt_log2_self (Nat.two_pow_pos k)

theorem lt_of_excess (x : Nat) : x < 2 ^ (excess x + 53) :=
  Nat.lt_of_lt_of_le Nat.lt_log2_self (Nat.pow_le_pow_right Nat.two_pos (by unfold excess; omega))

theorem le_of_excess (pos : 0 < excess x) : 2 ^ (excess x + 52) ≤ x := by
  have large : x.log2 = excess x + 52 := by
    unfold excess at pos ⊢
    omega
  rw [← large]
  refine Nat.log2_self_le fun zero => ?_
  rw [zero] at pos
  simp [excess] at pos

theorem lt_of_lt_excess (small : m < 2 ^ 53) (lt : k < excess x) :
    m * 2 ^ k < x / 2 ^ excess x * 2 ^ excess x := by
  have leading := le_of_excess (Nat.zero_lt_of_lt lt)
  calc
    m * 2 ^ k < 2 ^ 53 * 2 ^ k := Nat.mul_lt_mul_of_pos_right small (Nat.two_pow_pos k)
    _ = 2 ^ (k + 53) := by rw [← Nat.pow_add, Nat.add_comm]
    _ ≤ 2 ^ (52 + excess x) := Nat.pow_le_pow_right Nat.two_pos (by omega)
    _ = 2 ^ 52 * 2 ^ excess x := Nat.pow_add ..
    _ ≤ x / 2 ^ excess x * 2 ^ excess x := by
      refine Nat.mul_le_mul_right _ ((Nat.le_div_iff_mul_le (Nat.two_pow_pos _)).mpr ?_)
      rwa [← Nat.pow_add, Nat.add_comm]

theorem Rounds.le_of_le (h : Rounds x r) (small : m < 2 ^ 53) (le : m * 2 ^ k ≤ x) :
    m * 2 ^ k ≤ r * 2 ^ excess x := by
  refine Nat.le_trans ?_ (Nat.mul_le_mul_right _ h.above)
  rcases Nat.lt_or_ge k (excess x) with lt | ge
  · exact Nat.le_of_lt (lt_of_lt_excess small lt)
  · obtain ⟨j, rfl⟩ := Nat.exists_eq_add_of_le ge
    rw [Nat.add_comm (excess x), Nat.pow_add, ← Nat.mul_assoc] at le ⊢
    exact Nat.mul_le_mul_right _ ((Nat.le_div_iff_mul_le (Nat.two_pow_pos _)).mpr le)

theorem Rounds.ge_of_ge (h : Rounds x r) (small : m < 2 ^ 53) (ge : x ≤ m * 2 ^ k) :
    r * 2 ^ excess x ≤ m * 2 ^ k := by
  rcases Nat.lt_or_ge k (excess x) with lt | le
  · have below := lt_of_lt_excess small lt
    have kept := Nat.div_mul_le_self x (2 ^ excess x)
    omega
  · obtain ⟨j, rfl⟩ := Nat.exists_eq_add_of_le le
    have below := h.below
    rw [Nat.add_comm (excess x), Nat.pow_add, ← Nat.mul_assoc] at ge ⊢
    refine Nat.mul_le_mul_right _ (Nat.le_of_lt_succ (Nat.lt_of_mul_lt_mul_right (a := 2 ^ excess x) ?_))
    rw [Nat.succ_mul]
    omega

theorem Rounds.le (h : Rounds x r) : r ≤ 2 ^ 53 := by
  have small := lt_of_excess x
  refine Nat.le_of_lt_succ (Nat.lt_of_mul_lt_mul_right (a := 2 ^ excess x) ?_)
  have below := h.below
  rw [Nat.add_comm, Nat.pow_add] at small
  rw [Nat.succ_mul]
  omega

end Neighbours

section Shifting

variable {m : Nat} {e : Int}

theorem two_pow_succ_dvd_iff (m n : Nat) : 2 ^ (n + 1) ∣ m ↔ m / 2 ^ n % 2 = 0 ∧ 2 ^ n ∣ m := by
  constructor
  · rintro ⟨q, rfl⟩
    rw [Nat.pow_succ, Nat.mul_assoc, Nat.mul_div_cancel_left _ (Nat.two_pow_pos n)]
    exact ⟨Nat.mul_mod_right 2 q, Nat.dvd_mul_right _ _⟩
  · rintro ⟨even, q, rfl⟩
    rw [Nat.mul_div_cancel_left q (Nat.two_pow_pos n)] at even
    rw [Nat.pow_succ]
    exact Nat.mul_dvd_mul_left _ (Nat.dvd_of_mod_eq_zero even)

/-- A mantissa that has lost its last bits, and whether one of them was set. -/
theorem shiftRight_spec (m n : Nat) :
    (ExtendedMantissa.ofMantissaAndAccuracy m .exact >>> n).mantissa = m / 2 ^ n ∧
      ((ExtendedMantissa.ofMantissaAndAccuracy m .exact >>> n).roundBit = false ∧
        (ExtendedMantissa.ofMantissaAndAccuracy m .exact >>> n).stickyBit = false ↔ 2 ^ n ∣ m) := by
  change (n.repeat ExtendedMantissa.shiftRightOne _).mantissa = _ ∧
    ((n.repeat ExtendedMantissa.shiftRightOne _).roundBit = false ∧
      (n.repeat ExtendedMantissa.shiftRightOne _).stickyBit = false ↔ _)
  induction n with
  | zero => simp [Nat.repeat, ExtendedMantissa.ofMantissaAndAccuracy]
  | succ n ih =>
    obtain ⟨mantissa_eq, exact_iff⟩ := ih
    simp only [Nat.repeat, ExtendedMantissa.shiftRightOne, mantissa_eq, bne_eq_false_iff_eq,
      Bool.or_eq_false_iff, exact_iff]
    exact ⟨by rw [Nat.div_div_eq_div_mul, Nat.pow_succ], (two_pow_succ_dvd_iff m n).symm⟩

theorem roundedMantissa_spec (m n : Nat) :
    m / 2 ^ n ≤ (ExtendedMantissa.ofMantissaAndAccuracy m .exact >>> n).roundedMantissa ∧
      (ExtendedMantissa.ofMantissaAndAccuracy m .exact >>> n).roundedMantissa * 2 ^ n < m + 2 ^ n := by
  obtain ⟨mantissa_eq, exact_iff⟩ := shiftRight_spec m n
  generalize ExtendedMantissa.ofMantissaAndAccuracy m .exact >>> n = em at mantissa_eq exact_iff ⊢
  obtain ⟨mantissa, round, sticky⟩ := em
  obtain rfl : mantissa = m / 2 ^ n := mantissa_eq
  have whole : m / 2 ^ n * 2 ^ n + m % 2 ^ n = m := Nat.div_add_mod' m (2 ^ n)
  have parity : m / 2 ^ n % 2 ≤ 1 := Nat.le_of_lt_succ (Nat.mod_lt _ Nat.two_pos)
  have pos := Nat.two_pow_pos n
  have upward {r : Nat} (le : r ≤ m / 2 ^ n + 1) (lost : ¬ 2 ^ n ∣ m) : r * 2 ^ n < m + 2 ^ n := by
    have rest : m % 2 ^ n ≠ 0 := fun zero => lost (Nat.dvd_of_mod_eq_zero zero)
    have le := Nat.mul_le_mul_right (2 ^ n) le
    rw [Nat.succ_mul] at le
    omega
  cases round <;> cases sticky <;>
    simp only [ExtendedMantissa.roundedMantissa, ExtendedMantissa.accuracy,
      Accuracy.roundToNearestEven, Bool.true_eq_false, and_false, and_true, false_iff, true_iff] at exact_iff ⊢
  · omega
  · exact ⟨Nat.le_refl _, by omega⟩
  · exact ⟨Nat.le_add_right _ _, upward (by omega) exact_iff⟩
  · exact ⟨Nat.le_succ _, upward (Nat.le_refl _) exact_iff⟩

end Shifting

def unitsOf (m : Nat) (e : Int) : Nat := m * 2 ^ (e + 1074).toNat

/-- The number of units of a float; what is not finite has none. -/
def units : UnpackedFloat → Int
  | .finite s m e _ => s.apply (unitsOf m e)
  | _ => 0

/-- A mantissa that fits, with an exponent that is as small as it can be. -/
structure Fits (m : Nat) (e : Int) : Prop where
  small : m < 2 ^ 53
  low : -1074 ≤ e
  full : 2 ^ 52 ≤ m ∨ e = -1074

section Rounding

variable {m : Nat} {e : Int}

theorem target_eq (pos : 0 < m) (low : -1074 ≤ e) :
    Format.binary64.targetExponent (totalExponent m e) = (excess (unitsOf m e) : Int) - 1074 := by
  have lowest : Format.binary64.minExponent = -1074 := rfl
  have bits : Format.binary64.mantissaBits = 53 := rfl
  simp only [Format.targetExponent, totalExponent, lowest, bits, unitsOf, excess, log2_mul_two_pow pos]
  omega

/-- A mantissa that became one bit too long is a power of two, and loses nothing in the last shift. -/
theorem settle {r : Nat} {t : Int} (le : r ≤ 2 ^ 53) (pos : 0 < r) (low : -1074 ≤ t)
    (full : 2 ^ 52 ≤ r ∨ t = -1074) :
    let shifted := shiftToTargetExponent .binary64 r t .exact
    Fits shifted.1.mantissa shifted.2 ∧ unitsOf shifted.1.mantissa shifted.2 = unitsOf r t := by
  have lowest : Format.binary64.minExponent = -1074 := rfl
  have bits : Format.binary64.mantissaBits = 53 := rfl
  simp only [shiftToTargetExponent, shiftToExponent, (shiftRight_spec r _).1]
  rcases Nat.lt_or_eq_of_le le with small | rfl
  · have short : r.log2 < 53 := (Nat.log2_lt pos.ne').mpr small
    have stays : (Format.binary64.targetExponent (totalExponent r t) - t).toNat = 0 := by
      simp only [Format.targetExponent, totalExponent, lowest, bits]
      omega
    rw [stays]
    simp only [Nat.pow_zero, Nat.div_one, Int.natCast_zero, Int.add_zero]
    exact ⟨⟨small, low, full⟩, trivial⟩
  · have moves : (Format.binary64.targetExponent (totalExponent (2 ^ 53) t) - t).toNat = 1 := by
      simp only [Format.targetExponent, totalExponent, lowest, bits, Nat.log2_two_pow]
      omega
    rw [moves]
    refine ⟨⟨by norm_num, by omega, .inl (by norm_num)⟩, ?_⟩
    have shift : (t + (1 : Nat) + 1074).toNat = (t + 1074).toNat + 1 := by omega
    rw [unitsOf, unitsOf, shift, Nat.pow_succ]
    omega

theorem roundWithAccuracy_spec (s : Sign) (pos : 0 < m) (low : -1074 ≤ e)
    (le : e ≤ Format.binary64.targetExponent (totalExponent m e)) :
    ∃ r m' e' pos', roundWithAccuracy .binary64 s m e .exact = .finite s m' e' pos' ∧
      Rounds (unitsOf m e) r ∧ Fits m' e' ∧ unitsOf m' e' = r * 2 ^ excess (unitsOf m e) := by
  have target := target_eq pos low
  rw [target] at le
  obtain ⟨n, amount⟩ : ∃ n : Nat, ((excess (unitsOf m e) : Int) - 1074 - e).toNat = n := ⟨_, rfl⟩
  have split : excess (unitsOf m e) = n + (e + 1074).toNat := by omega
  have first : shiftToTargetExponent .binary64 m e .exact =
      (ExtendedMantissa.ofMantissaAndAccuracy m .exact >>> n, e + n) := by
    simp only [shiftToTargetExponent, shiftToExponent, target, amount]
  obtain ⟨above, below⟩ := roundedMantissa_spec m n
  obtain ⟨em, em_eq⟩ : ∃ em, ExtendedMantissa.ofMantissaAndAccuracy m .exact >>> n = em := ⟨_, rfl⟩
  rw [em_eq] at above below first
  have rounds : Rounds (unitsOf m e) em.roundedMantissa := by
    refine ⟨?_, ?_⟩
    · rw [split, unitsOf, Nat.pow_add, Nat.mul_div_mul_right _ _ (Nat.two_pow_pos _)]
      exact above
    · rw [split, unitsOf, Nat.pow_add, ← Nat.mul_assoc, ← Nat.add_mul]
      exact Nat.mul_lt_mul_of_pos_right below (Nat.two_pow_pos _)
  have some : 0 < unitsOf m e := Nat.mul_pos pos (Nat.two_pow_pos _)
  have full : 2 ^ 52 ≤ em.roundedMantissa ∨ e + n = -1074 := by
    rcases Nat.eq_zero_or_pos (excess (unitsOf m e)) with none | long
    · exact .inr (by omega)
    · have leading := le_of_excess long
      rw [Nat.add_comm, Nat.pow_add] at leading
      exact .inl (Nat.le_trans ((Nat.le_div_iff_mul_le (Nat.two_pow_pos _)).mpr leading) rounds.above)
  have one : 0 < em.roundedMantissa := by
    rcases full with full | lowest
    · omega
    · have above := rounds.above
      rw [show excess (unitsOf m e) = 0 by omega, Nat.pow_zero, Nat.div_one] at above
      exact Nat.lt_of_lt_of_le some above
  obtain ⟨fits, kept⟩ := settle rounds.le one (by omega) full
  obtain ⟨last, last_eq⟩ : ∃ last, shiftToTargetExponent .binary64 em.roundedMantissa (e + n) .exact = last :=
    ⟨_, rfl⟩
  rw [last_eq] at fits kept
  have value : unitsOf last.1.mantissa last.2 = em.roundedMantissa * 2 ^ excess (unitsOf m e) := by
    rw [kept, unitsOf]
    congr 2
    omega
  have left : last.1.mantissa ≠ 0 := by
    intro zero
    rw [unitsOf, zero, Nat.zero_mul] at value
    exact absurd value.symm (Nat.mul_pos one (Nat.two_pow_pos _)).ne'
  refine ⟨em.roundedMantissa, last.1.mantissa, last.2, Nat.pos_of_ne_zero left, ?_, rounds, fits, value⟩
  simp only [roundWithAccuracy, first, last_eq, left, ↓reduceDIte]

theorem unitsOf_shiftLeft (low : -1074 ≤ e) {k : Nat} (le : -1074 ≤ e - k) :
    unitsOf (m <<< k) (e - k) = unitsOf m e := by
  have split : (e + 1074).toNat = k + (e - k + 1074).toNat := by omega
  rw [unitsOf, unitsOf, Nat.shiftLeft_eq, split, Nat.pow_add, Nat.mul_assoc]

theorem round_spec (s : Sign) (pos : 0 < m) (low : -1074 ≤ e) :
    ∃ r m' e' pos', UnpackedFloat.round .binary64 s m e = .finite s m' e' pos' ∧
      Rounds (unitsOf m e) r ∧ Fits m' e' ∧ unitsOf m' e' = r * 2 ^ excess (unitsOf m e) := by
  have target := target_eq pos low
  obtain ⟨k, amount⟩ : ∃ k : Nat, (e - ((excess (unitsOf m e) : Int) - 1074)).toNat = k := ⟨_, rfl⟩
  have low' : -1074 ≤ e - k := by omega
  have units_eq := unitsOf_shiftLeft (m := m) low low'
  have pos' : 0 < m <<< k := by
    rw [Nat.shiftLeft_eq]
    exact Nat.mul_pos pos (Nat.two_pow_pos k)
  have le : e - k ≤ Format.binary64.targetExponent (totalExponent (m <<< k) (e - k)) := by
    rw [target_eq pos' low', units_eq]
    omega
  have rounded := roundWithAccuracy_spec s pos' low' le
  rw [units_eq] at rounded
  rw [UnpackedFloat.round, target]
  simpa only [decreaseExponent, amount] using rounded

end Rounding

/-- A zero, or a finite number in its usual form. -/
def Proper : UnpackedFloat → Prop
  | .zero _ => True
  | .finite _ m e _ => Fits m e
  | _ => False

section Ordering

variable {a b : UnpackedFloat} {m n : Nat} {e f : Int}

theorem unitsOf_lt_of_lt (hm : Fits m e) (hn : Fits n f) (lt : e < f) : unitsOf m e < unitsOf n f := by
  have full : 2 ^ 52 ≤ n := by
    rcases hn.full with full | lowest
    · exact full
    · exact absurd hm.low (by omega)
  have low := hm.low
  calc
    unitsOf m e < 2 ^ 53 * 2 ^ (e + 1074).toNat := Nat.mul_lt_mul_of_pos_right hm.small (Nat.two_pow_pos _)
    _ = 2 ^ 52 * 2 ^ ((e + 1074).toNat + 1) := by rw [Nat.pow_succ]; omega
    _ ≤ 2 ^ 52 * 2 ^ (f + 1074).toNat :=
      Nat.mul_le_mul_left _ (Nat.pow_le_pow_right Nat.two_pos (by omega))
    _ ≤ unitsOf n f := Nat.mul_le_mul_right _ full

theorem compare_unitsOf (hm : Fits m e) (hn : Fits n f) :
    (compare e f).then (compare m n) = compare (unitsOf m e) (unitsOf n f) := by
  rcases lt_trichotomy e f with lt | rfl | gt
  · rw [compare_lt_iff_lt.mpr lt, compare_lt_iff_lt.mpr (unitsOf_lt_of_lt hm hn lt)]
    rfl
  · rw [compare_eq_iff_eq.mpr rfl, unitsOf, unitsOf]
    have pos := Nat.two_pow_pos (e + 1074).toNat
    rcases lt_trichotomy m n with lt | rfl | gt
    · rw [compare_lt_iff_lt.mpr lt, compare_lt_iff_lt.mpr (Nat.mul_lt_mul_of_pos_right lt pos)]
      rfl
    · simp
    · rw [compare_gt_iff_gt.mpr gt, compare_gt_iff_gt.mpr (Nat.mul_lt_mul_of_pos_right gt pos)]
      rfl
  · rw [compare_gt_iff_gt.mpr gt, compare_gt_iff_gt.mpr (unitsOf_lt_of_lt hn hm gt)]
    rfl

theorem units_pos (pos : 0 < m) : 0 < unitsOf m e := Nat.mul_pos pos (Nat.two_pow_pos _)

theorem compare_units (ha : Proper a) (hb : Proper b) :
    a.compare b = some (compare (units a) (units b)) := by
  have below {x y : Int} (lt : x < y) : some Ordering.lt = some (compare x y) := by
    rw [compare_lt_iff_lt.mpr lt]
  have past {x y : Int} (gt : x > y) : some Ordering.gt = some (compare x y) := by
    rw [compare_gt_iff_gt.mpr gt]
  cases a with
  | notANumber | infinity s => exact ha.elim
  | zero s =>
    cases b with
    | notANumber | infinity t => exact hb.elim
    | zero t => rfl
    | finite t n f pos =>
      have pos := units_pos (e := f) pos
      cases t with
      | positive => exact below (by simp only [units, Sign.apply]; omega)
      | negative => exact past (by simp only [units, Sign.apply]; omega)
  | finite s m e pos =>
    have pos := units_pos (e := e) pos
    cases b with
    | notANumber | infinity t => exact hb.elim
    | zero t =>
      cases s with
      | positive => exact past (by simp only [units, Sign.apply]; omega)
      | negative => exact below (by simp only [units, Sign.apply]; omega)
    | finite t n f pos' =>
      have pos' := units_pos (e := f) pos'
      cases s <;> cases t
      · show some ((compare e f).then (compare m n)).swap = _
        rw [compare_unitsOf ha hb]
        simp only [units, Sign.apply]
        rcases lt_trichotomy (unitsOf m e) (unitsOf n f) with lt | eq | gt
        · rw [compare_lt_iff_lt.mpr lt]
          exact past (by omega)
        · simp [eq]
        · rw [compare_gt_iff_gt.mpr gt]
          exact below (by omega)
      · exact below (by simp only [units, Sign.apply]; omega)
      · exact past (by simp only [units, Sign.apply]; omega)
      · show some ((compare e f).then (compare m n)) = _
        rw [compare_unitsOf ha hb]
        simp only [units, Sign.apply]
        rcases lt_trichotomy (unitsOf m e) (unitsOf n f) with lt | eq | gt
        · rw [compare_lt_iff_lt.mpr lt]
          exact below (by omega)
        · simp [eq]
        · rw [compare_gt_iff_gt.mpr gt]
          exact past (by omega)

end Ordering

section Adding

variable {a b : UnpackedFloat} {x r m : Nat} {n e : Int}

theorem Rounds.units_le (h : Rounds x r) (hb : Proper b) (le : units b ≤ x) :
    units b ≤ (r * 2 ^ excess x : Nat) := by
  cases b with
  | notANumber | infinity s => exact hb.elim
  | zero s => exact Int.natCast_nonneg _
  | finite s m e pos =>
    cases s with
    | negative =>
      simp only [units, Sign.apply]
      omega
    | positive =>
      have bounded : unitsOf m e ≤ r * 2 ^ excess x := h.le_of_le hb.small (Int.ofNat_le.mp le)
      exact Int.ofNat_le.mpr bounded

theorem Rounds.units_le_neg (h : Rounds x r) (pos : 0 < x) (hb : Proper b) (le : units b ≤ -(x : Int)) :
    units b ≤ -((r * 2 ^ excess x : Nat) : Int) := by
  cases b with
  | notANumber | infinity s => exact hb.elim
  | zero s =>
    simp only [units] at le
    omega
  | finite s m e pos' =>
    cases s with
    | positive =>
      simp only [units, Sign.apply] at le
      omega
    | negative =>
      have ge : x ≤ unitsOf m e := Int.ofNat_le.mp (Int.neg_le_neg_iff.mp le)
      have bounded : r * 2 ^ excess x ≤ unitsOf m e := h.ge_of_ge hb.small ge
      exact Int.neg_le_neg (Int.ofNat_le.mpr bounded)

theorem normalize_spec (s : Sign) (pos : 0 < m) (low : -1074 ≤ e) :
    ∃ r m' e' pos',
      UnpackedFloat.normalize .binary64 (s.apply (m : Int)) e .positive = .finite s m' e' pos' ∧
      Rounds (unitsOf m e) r ∧ Fits m' e' ∧ unitsOf m' e' = r * 2 ^ excess (unitsOf m e) := by
  obtain ⟨r, m', e', pos', round_eq, spec⟩ := round_spec s pos low
  refine ⟨r, m', e', pos', ?_, spec⟩
  cases s with
  | negative =>
    have negative : Sign.negative.apply (m : Int) < 0 := by
      simp only [Sign.apply]
      omega
    rw [UnpackedFloat.normalize, compare_lt_iff_lt.mpr negative]
    simpa [Sign.apply] using round_eq
  | positive =>
    have positive : 0 < Sign.positive.apply (m : Int) := by
      simp only [Sign.apply]
      omega
    rw [UnpackedFloat.normalize, compare_gt_iff_gt.mpr positive]
    simpa [Sign.apply] using round_eq

/-- What is rounded stays on the same side of every float. -/
theorem units_le_normalize (hb : Proper b) (low : -1074 ≤ e)
    (le : units b ≤ n * 2 ^ (e + 1074).toNat) :
    Proper (UnpackedFloat.normalize .binary64 n e .positive) ∧
      units b ≤ units (UnpackedFloat.normalize .binary64 n e .positive) := by
  rcases lt_trichotomy n 0 with negative | rfl | positive
  · obtain ⟨m, rfl⟩ : ∃ m : Nat, n = -m := ⟨n.natAbs, by omega⟩
    have pos : 0 < m := by omega
    obtain ⟨r, m', e', pos', normal_eq, rounds, fits, units_eq⟩ := normalize_spec .negative pos low
    have normal_eq : UnpackedFloat.normalize .binary64 (-(m : Int)) e .positive =
      .finite .negative m' e' pos' := normal_eq
    have exact_eq : (-(m : Int)) * 2 ^ (e + 1074).toNat = -(unitsOf m e : Int) := by simp [unitsOf]
    rw [normal_eq]
    refine ⟨fits, ?_⟩
    have bounded := rounds.units_le_neg (units_pos pos) hb (exact_eq ▸ le)
    simpa only [units, Sign.apply, units_eq] using bounded
  · have normal_eq : UnpackedFloat.normalize .binary64 0 e .positive = .zero .positive := rfl
    rw [normal_eq]
    exact ⟨trivial, by simpa [units] using le⟩
  · obtain ⟨m, rfl⟩ : ∃ m : Nat, n = m := ⟨n.natAbs, by omega⟩
    have pos : 0 < m := by omega
    obtain ⟨r, m', e', pos', normal_eq, rounds, fits, units_eq⟩ := normalize_spec .positive pos low
    have exact_eq : (m : Int) * 2 ^ (e + 1074).toNat = (unitsOf m e : Int) := by simp [unitsOf]
    have normal_eq : UnpackedFloat.normalize .binary64 (m : Int) e .positive =
      .finite .positive m' e' pos' := normal_eq
    rw [normal_eq]
    refine ⟨fits, ?_⟩
    have bounded := rounds.units_le hb (exact_eq ▸ le)
    simpa only [units, Sign.apply, units_eq] using bounded

theorem apply_shiftLeft (s : Sign) {m : Nat} {e f : Int} (low : -1074 ≤ f) (le : f ≤ e) :
    s.apply ((m <<< (e - f).toNat : Nat) : Int) * 2 ^ (f + 1074).toNat = s.apply (unitsOf m e) := by
  have split : (e + 1074).toNat = (e - f).toNat + (f + 1074).toNat := by omega
  have units_eq : ((m <<< (e - f).toNat : Nat) : Int) * 2 ^ (f + 1074).toNat = unitsOf m e := by
    rw [unitsOf, Nat.shiftLeft_eq, split, Nat.pow_add]
    push_cast
    ring
  cases s with
  | positive => exact units_eq
  | negative =>
    simp only [Sign.apply, Int.neg_mul, units_eq]

/-- The sum with a number that is not negative is not below the other summand. -/
theorem units_le_add (ha : Proper a) (hb : Proper b) (nonneg : 0 ≤ units a) :
    Proper (UnpackedFloat.add .binary64 a b) ∧ units b ≤ units (UnpackedFloat.add .binary64 a b) := by
  cases a with
  | notANumber | infinity s => exact ha.elim
  | zero s =>
    cases b with
    | notANumber | infinity t => exact hb.elim
    | zero t => cases s <;> cases t <;> exact ⟨trivial, Int.le_refl 0⟩
    | finite t n f pos => exact ⟨hb, Int.le_refl _⟩
  | finite s m e pos =>
    cases b with
    | notANumber | infinity t => exact hb.elim
    | zero t => exact ⟨ha, nonneg⟩
    | finite t n f pos' =>
      have low : -1074 ≤ min e f := le_min ha.low hb.low
      refine units_le_normalize hb low ?_
      rw [Int.add_mul, apply_shiftLeft s low (min_le_left e f), apply_shiftLeft t low (min_le_right e f)]
      exact Int.le_add_of_nonneg_left nonneg

end Adding

end GatedNetwork.Binary64
