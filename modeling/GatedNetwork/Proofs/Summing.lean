import GatedNetwork.Proofs.Rounding

/-! Sums and differences of floats that are packed into their bits, where a number that is too large
becomes infinite. Adding a number that is not negative leads to a float that is not smaller, to
infinity or to no number; so a sum that lies below a finite bound is at least the other summand. -/

namespace GatedNetwork.Binary64

open Float.Model Float.Model.UnpackedFloat

section Packing

variable {m : Nat} {e : Int} {s : Sign}

theorem toNat_leading (mv : BitVec 52) : (1#1 ++ mv).toNat = 2 ^ 52 + mv.toNat := by
  rw [BitVec.toNat_append, show (1#1).toNat = 1 from rfl, Nat.shiftLeft_eq, Nat.one_mul, Nat.or_comm,
    Nat.or_two_pow_eq_add_of_lt mv.isLt, Nat.add_comm]

theorem unpack_packComponents (s : Sign) (ev : BitVec 11) (mv : BitVec 52) (ne : ev ≠ -1#11) :
    UnpackedFloat.unpack .binary64 (packComponents .binary64 s ev mv) =
      if ev = 0#11 then
        if h : mv = 0#52 then .zero s
        else .finite s mv.toNat (-1074) (by simpa [BitVec.toNat_pos, BitVec.pos_iff_ne_zero])
      else .finite s (2 ^ 52 + mv.toNat) ((ev.toNat : Int) - 1075) (by omega) := by
  simp only [UnpackedFloat.unpack, unpackExponent_packComponents, unpackMantissa_packComponents,
    unpackSign_packComponents, Sign.ofBitVec_toBitVec]
  rw [if_neg ne]
  split
  · rename_i zero
    subst zero
    rfl
  · simp only [toNat_leading]
    rfl

theorem unpack_infinity (s : Sign) : (Float.Model.pack (.infinity s)).unpack = .infinity s := by
  cases s <;> rfl

/-- A number in its usual form is unpacked as it was packed, or its exponent is too large. -/
theorem unpack_pack (pos : 0 < m) (fits : Fits m e) :
    (Float.Model.pack (.finite s m e pos)).unpack =
      if 971 < e then .infinity s else .finite s m e pos := by
  have small := fits.small
  have low := fits.low
  have biased : (e + Format.binary64.exponentBias + Format.binary64.mantissaBitsWithoutImplicit).toNat =
      (e + 1075).toNat := by
    rw [Int.add_assoc]
    rfl
  change UnpackedFloat.unpack .binary64 (UnpackedFloat.pack .binary64 _) = _
  simp only [UnpackedFloat.pack, biased]
  by_cases large : 971 < e
  · rw [if_pos large, if_pos (by omega : 2 ^ 11 ≤ (e + 1075).toNat + 1)]
    exact unpack_infinity s
  · have ev_toNat : (BitVec.ofNat 11 (e + 1075).toNat).toNat = (e + 1075).toNat := by
      rw [BitVec.toNat_ofNat]
      exact Nat.mod_eq_of_lt (by omega)
    have mv_toNat : (BitVec.ofNat 52 m).toNat = m % 2 ^ 52 := BitVec.toNat_ofNat ..
    rw [if_neg large, if_neg (by omega : ¬ 2 ^ 11 ≤ (e + 1075).toNat + 1)]
    by_cases normal : m.log2 + 1 = Format.binary64.mantissaBits
    · have full : 2 ^ 52 ≤ m := by
        have leading := Nat.log2_self_le pos.ne'
        rwa [show m.log2 = 52 from Nat.succ.inj normal] at leading
      have ne_ones : BitVec.ofNat 11 (e + 1075).toNat ≠ -1#11 := by
        intro ones
        rw [ones] at ev_toNat
        have ones_toNat : (-1#11).toNat = 2047 := rfl
        omega
      have ne_zero : BitVec.ofNat 11 (e + 1075).toNat ≠ 0#11 := by
        intro zero
        rw [zero] at ev_toNat
        have zero_toNat : (0#11).toNat = 0 := rfl
        omega
      rw [if_pos normal, unpack_packComponents s _ _ ne_ones, if_neg ne_zero]
      simp only [ev_toNat, mv_toNat, UnpackedFloat.finite.injEq, true_and]
      omega
    · have short : m < 2 ^ 52 := by
        have bits : Format.binary64.mantissaBits = 53 := rfl
        have few : m.log2 < 53 := (Nat.log2_lt pos.ne').mpr small
        exact (Nat.log2_lt pos.ne').mp (by omega)
      have lowest : e = -1074 := by
        rcases fits.full with full | lowest
        · omega
        · exact lowest
      have ne_zero : BitVec.ofNat 52 m ≠ 0#52 := by
        intro zero
        rw [zero] at mv_toNat
        have zero_toNat : (0#52).toNat = 0 := rfl
        omega
      rw [if_neg normal, unpack_packComponents s 0#11 _ (by decide), if_pos rfl, dif_neg ne_zero]
      simp only [mv_toNat, UnpackedFloat.finite.injEq, true_and]
      omega

end Packing

section Unpacking

variable {x y : Float}

theorem proper_unpack (finite : x.isFinite) : Proper x.toModel.unpack ∧
    ∀ s m e pos, x.toModel.unpack = .finite s m e pos → e ≤ 971 := by
  have finite : (UnpackedFloat.unpack .binary64 (layout x)).isFinite = true := finite
  change Proper (UnpackedFloat.unpack .binary64 (layout x)) ∧ ∀ s m e pos,
    UnpackedFloat.unpack .binary64 (layout x) = .finite s m e pos → e ≤ 971
  have bias : ((Format.binary64.exponentBias : Int) + Format.binary64.mantissaBitsWithoutImplicit) = 1075 := rfl
  have exponent_lt : (unpackExponent (layout x)).toNat < 2 ^ 11 := (unpackExponent (layout x)).isLt
  have mantissa_lt : (unpackMantissa (layout x)).toNat < 2 ^ 52 := (unpackMantissa (layout x)).isLt
  simp only [UnpackedFloat.unpack, bias] at finite ⊢
  by_cases ones : unpackExponent (layout x) = -1#11
  · rw [if_pos ones] at finite
    split at finite <;> nomatch finite
  · rw [if_neg ones]
    by_cases zero : unpackExponent (layout x) = 0#11
    · rw [if_pos zero]
      have zero_toNat : (unpackExponent (layout x)).toNat = 0 := congrArg BitVec.toNat zero
      split
      · exact ⟨trivial, nofun⟩
      · refine ⟨⟨by omega, by omega, .inr (by omega)⟩, ?_⟩
        rintro s m e pos same
        have := (UnpackedFloat.finite.inj same).2.2
        omega
    · rw [if_neg zero]
      have one : (unpackExponent (layout x)).toNat ≠ 0 := fun same => zero (BitVec.eq_of_toNat_eq same)
      have top : (unpackExponent (layout x)).toNat ≠ 2047 := fun same => ones (BitVec.eq_of_toNat_eq same)
      refine ⟨⟨?_, by omega, .inl ?_⟩, ?_⟩
      · rw [toNat_leading]
        omega
      · rw [toNat_leading]
        omega
      · rintro s m e pos same
        have := (UnpackedFloat.finite.inj same).2.2
        omega

/-- Finite floats are ordered by their units. -/
theorem le_iff_units (hx : x.isFinite) (hy : y.isFinite) :
    x ≤ y ↔ units x.toModel.unpack ≤ units y.toModel.unpack := by
  change decide ((x.toModel.unpack.compare y.toModel.unpack).any (·.isLE) = true) = true ↔ _
  rw [decide_eq_true_iff, compare_units (proper_unpack hx).1 (proper_unpack hy).1, Option.any_some]
  exact Std.isLE_compare

theorem lt_iff_units (hx : x.isFinite) (hy : y.isFinite) :
    x < y ↔ units x.toModel.unpack < units y.toModel.unpack := by
  change decide ((x.toModel.unpack.compare y.toModel.unpack == some .lt) = true) = true ↔ _
  rw [decide_eq_true_iff, compare_units (proper_unpack hx).1 (proper_unpack hy).1, beq_iff_eq,
    Option.some_inj]
  exact compare_lt_iff_lt

theorem le_of_lt (lt : x < y) : x ≤ y := by
  have lt : decide ((x.toModel.unpack.compare y.toModel.unpack == some .lt) = true) = true := lt
  change decide ((x.toModel.unpack.compare y.toModel.unpack).any (·.isLE) = true) = true
  rw [eq_of_beq (of_decide_eq_true lt)]
  rfl

end Unpacking

/-- Not a negative number. What is no number is allowed. -/
def Unsigned : UnpackedFloat → Prop
  | .infinity s | .finite s .. => s = .positive
  | .zero _ | .notANumber => True

section Signs

variable {a b : UnpackedFloat} {x y : Float} {m : Nat} {e : Int}

theorem Unsigned.units_nonneg (h : Unsigned a) : 0 ≤ units a := by
  cases a with
  | notANumber | infinity s | zero s => exact Int.le_refl 0
  | finite s m e pos =>
    obtain rfl : s = .positive := h
    exact Int.natCast_nonneg _

theorem unsigned_unpack {b : BitVec 64} (sign : @unpackSign .binary64 b = 0#1) :
    Unsigned (UnpackedFloat.unpack .binary64 b) := by
  have positive : Sign.ofBitVec (@unpackSign .binary64 b) = .positive := by
    rw [sign]
    rfl
  unfold UnpackedFloat.unpack
  simp only [positive]
  split
  · split <;> trivial
  · split
    · split <;> trivial
    · trivial

theorem unsigned_pack (h : Unsigned a) : Unsigned (Float.Model.pack a).unpack := by
  cases a with
  | notANumber => trivial
  | infinity s => rwa [unpack_infinity]
  | zero s => rwa [unpack_zero]
  | finite s m e pos =>
    obtain rfl : s = .positive := h
    refine unsigned_unpack (b := UnpackedFloat.pack .binary64 _) ?_
    simp only [UnpackedFloat.pack]
    split
    · exact unpackSign_packComponents ..
    · split <;> exact unpackSign_packComponents ..

theorem unsigned_mul (hx : Unsigned x.toModel.unpack) (hy : Unsigned y.toModel.unpack) :
    Unsigned (x * y).toModel.unpack := by
  rw [mul_eq]
  refine unsigned_pack ?_
  generalize x.toModel.unpack = a at hx ⊢
  generalize y.toModel.unpack = b at hy ⊢
  cases a with
  | notANumber => trivial
  | zero s => cases b <;> trivial
  | infinity s =>
    obtain rfl : s = .positive := hx
    cases b with
    | notANumber | zero t => trivial
    | infinity t | finite t n f pos =>
      obtain rfl : t = .positive := hy
      rfl
  | finite s m e pos =>
    obtain rfl : s = .positive := hx
    cases b with
    | notANumber | zero t => trivial
    | infinity t =>
      obtain rfl : t = .positive := hy
      rfl
    | finite t n f pos' =>
      obtain rfl : t = .positive := hy
      change Unsigned (roundWithAccuracy .binary64 .positive (m * n) (e + f) .exact)
      simp only [roundWithAccuracy]
      split <;> trivial

theorem unsigned_sub (hx : x.isFinite) (hy : y.isFinite) (le : y ≤ x) :
    Unsigned (x - y).toModel.unpack := by
  have le := (le_iff_units hy hx).mp le
  have fitsX := (proper_unpack hx).1
  have fitsY := (proper_unpack hy).1
  change Unsigned (Float.Model.pack (UnpackedFloat.sub .binary64 x.toModel.unpack y.toModel.unpack)).unpack
  refine unsigned_pack ?_
  generalize x.toModel.unpack = a at le fitsX ⊢
  generalize y.toModel.unpack = b at le fitsY ⊢
  cases a with
  | notANumber | infinity s => exact fitsX.elim
  | zero s =>
    cases b with
    | notANumber | infinity t => exact fitsY.elim
    | zero t => cases s <;> cases t <;> trivial
    | finite t n f pos =>
      have some := units_pos (e := f) pos
      cases t with
      | negative => rfl
      | positive => exact absurd le (by simp only [units, Sign.apply]; omega)
  | finite s m e pos =>
    have some := units_pos (e := e) pos
    cases b with
    | notANumber | infinity t => exact fitsY.elim
    | zero t =>
      cases s with
      | positive => rfl
      | negative => exact absurd le (by simp only [units, Sign.apply]; omega)
    | finite t n f pos' =>
      have low : -1074 ≤ min e f := le_min fitsX.low fitsY.low
      have unit_pos : (0 : Int) < 2 ^ (min e f + 1074).toNat := by positivity
      have exact_eq := Int.sub_mul (s.apply ((m <<< (e - min e f).toNat : Nat) : Int))
        (t.apply ((n <<< (f - min e f).toNat : Nat) : Int)) (2 ^ (min e f + 1074).toNat)
      rw [apply_shiftLeft s low (min_le_left e f), apply_shiftLeft t low (min_le_right e f)] at exact_eq
      change Unsigned (UnpackedFloat.normalize .binary64
        (s.apply ((m <<< (e - min e f).toNat : Nat) : Int) - t.apply ((n <<< (f - min e f).toNat : Nat) : Int))
        (min e f) .positive)
      generalize s.apply ((m <<< (e - min e f).toNat : Nat) : Int) -
        t.apply ((n <<< (f - min e f).toNat : Nat) : Int) = k at exact_eq ⊢
      have nonneg : 0 ≤ k := by
        refine Int.le_of_mul_le_mul_right (a := 2 ^ (min e f + 1074).toNat) ?_ unit_pos
        rw [exact_eq, Int.zero_mul]
        exact Int.sub_nonneg_of_le le
      rcases Int.lt_or_eq_of_le nonneg with positive | rfl
      · obtain ⟨m', rfl⟩ : ∃ m' : Nat, k = m' := ⟨k.toNat, by omega⟩
        obtain ⟨r, m'', e', pos'', normal_eq, -⟩ := normalize_spec .positive (m := m') (by omega) low
        have normal_eq : UnpackedFloat.normalize .binary64 (m' : Int) (min e f) .positive =
          .finite .positive m'' e' pos'' := normal_eq
        rw [normal_eq]
        rfl
      · trivial

end Signs

section Sums

variable {x y bound : Float}

/-- The sum of a number that is not negative and a finite one, unless it is too large. -/
theorem unpack_add (hx : Unsigned x.toModel.unpack) (finite : x.isFinite) (hy : y.isFinite) :
    (x + y).toModel.unpack = .infinity .positive ∨
      (x + y).isFinite ∧ units y.toModel.unpack ≤ units (x + y).toModel.unpack := by
  obtain ⟨fits, grows⟩ := units_le_add (proper_unpack finite).1 (proper_unpack hy).1 hx.units_nonneg
  have unpack_eq : (x + y).toModel.unpack = (Float.Model.pack
      (UnpackedFloat.add .binary64 x.toModel.unpack y.toModel.unpack)).unpack := by rw [add_eq]
  generalize UnpackedFloat.add .binary64 x.toModel.unpack y.toModel.unpack = sum at fits grows unpack_eq
  cases sum with
  | notANumber | infinity s => exact fits.elim
  | zero s =>
    rw [unpack_zero] at unpack_eq
    refine .inr ⟨?_, unpack_eq ▸ grows⟩
    change (x + y).toModel.unpack.isFinite
    rw [unpack_eq]
    rfl
  | finite s m e pos =>
    rw [unpack_pack pos fits] at unpack_eq
    by_cases large : 971 < e
    · rw [if_pos large] at unpack_eq
      cases s with
      | positive => exact .inl unpack_eq
      | negative =>
        exfalso
        obtain ⟨fitsY, limited⟩ := proper_unpack hy
        have some := units_pos (e := e) pos
        cases unpackY : y.toModel.unpack with
        | notANumber | infinity t => rw [unpackY] at fitsY; exact fitsY.elim
        | zero t =>
          rw [unpackY] at grows
          simp only [units, Sign.apply] at grows
          omega
        | finite t n f posY =>
          have least := unitsOf_lt_of_lt (unpackY ▸ fitsY) fits
            (Int.lt_of_le_of_lt (limited t n f posY unpackY) large)
          rw [unpackY] at grows
          cases t <;> simp only [units, Sign.apply] at grows <;> omega
    · rw [if_neg large] at unpack_eq
      refine .inr ⟨?_, unpack_eq ▸ grows⟩
      change (x + y).toModel.unpack.isFinite
      rw [unpack_eq]
      rfl

theorem not_lt_of_unsigned (hx : Unsigned x.toModel.unpack) (endless : ¬ x.isFinite) (hy : y.isFinite) :
    ¬ x < y := by
  change ¬ decide ((x.toModel.unpack.compare y.toModel.unpack == some .lt) = true) = true
  have endless : ¬ x.toModel.unpack.isFinite = true := endless
  have finite : y.toModel.unpack.isFinite = true := hy
  generalize x.toModel.unpack = a at hx endless ⊢
  generalize y.toModel.unpack = b at finite ⊢
  cases a with
  | zero s | finite s m e pos => exact absurd rfl endless
  | notANumber => cases b <;> simp [UnpackedFloat.compare]
  | infinity s =>
    obtain rfl : s = .positive := hx
    cases b with
    | notANumber | infinity t => nomatch finite
    | zero t | finite t n f pos => simp [UnpackedFloat.compare]

/-- A finite summand changes nothing of a float that is not finite. -/
theorem unpack_add_endless (endless : ¬ x.isFinite) (hy : y.isFinite) :
    (x + y).toModel.unpack = x.toModel.unpack := by
  have endless : ¬ x.toModel.unpack.isFinite = true := endless
  have finite : y.toModel.unpack.isFinite = true := hy
  rw [add_eq]
  change (Float.Model.pack (UnpackedFloat.add .binary64 x.toModel.unpack y.toModel.unpack)).unpack = _
  generalize x.toModel.unpack = a at endless ⊢
  generalize y.toModel.unpack = b at finite ⊢
  cases a with
  | zero s | finite s m e pos => exact absurd rfl endless
  | notANumber =>
    rw [show UnpackedFloat.add .binary64 .notANumber b = .notANumber by cases b <;> rfl]
    rfl
  | infinity s =>
    cases b with
    | notANumber | infinity t => nomatch finite
    | zero t | finite t n f pos => exact unpack_infinity s

/-- A sum that is below a finite bound is not below either of its summands, if the other one is not
negative. -/
theorem le_add_of_lt (hx : Unsigned x.toModel.unpack) (hy : y.isFinite) (hb : bound.isFinite)
    (lt : x + y < bound) : y ≤ x + y := by
  have finite : x.isFinite := by
    by_contra endless
    have unpack_eq := unpack_add_endless endless hy
    have endless : ¬ (x + y).toModel.unpack.isFinite = true := unpack_eq ▸ endless
    exact not_lt_of_unsigned (unpack_eq ▸ hx) endless hb lt
  rcases unpack_add hx finite hy with infinite | ⟨finite, grows⟩
  · have unsigned : Unsigned (x + y).toModel.unpack := by rw [infinite]; rfl
    have endless : ¬ (x + y).toModel.unpack.isFinite = true := by rw [infinite]; nofun
    exact absurd lt (not_lt_of_unsigned unsigned endless hb)
  · exact (le_iff_units hy finite).mpr grows

end Sums

end GatedNetwork.Binary64
