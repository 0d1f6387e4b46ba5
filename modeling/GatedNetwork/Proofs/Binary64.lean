import Mathlib
import GatedNetwork.Decimal.Binary

/-! Floats by their bits, and what is left of a float that is multiplied by zero. A product of zero and
a finite float is a zero, and a sum with it shows nothing of its sign unless the other part is the
negative zero. A product of zero and a float that is not finite is no number, and neither is a sum with
it. -/

namespace GatedNetwork.Binary64

open Float.Model Float.Model.UnpackedFloat Decimal

section Bits

variable {x y : Float}

def layout (x : Float) : BitVec Format.binary64.numBits := x.toModel.toBits.toBitVec

theorem sign_toNat (x : Float) : (unpackSign (layout x)).toNat = x.toBits.toNat / 2 ^ 63 := by
  have small : x.toBits.toNat / 2 ^ 63 < 2 ^ 1 := by
    have := x.toBits.toNat_lt
    omega
  rw [unpackSign, BitVec.toNat_cast, BitVec.extractLsb_toNat, Nat.shiftRight_eq_div_pow]
  exact Nat.mod_eq_of_lt small

theorem exponent_toNat (x : Float) :
    (unpackExponent (layout x)).toNat = x.toBits.toNat / 2 ^ 52 % 2 ^ 11 := by
  rw [unpackExponent, BitVec.toNat_cast, BitVec.extractLsb_toNat, Nat.shiftRight_eq_div_pow]
  rfl

theorem mantissa_toNat (x : Float) : (unpackMantissa (layout x)).toNat = x.toBits.toNat % 2 ^ 52 := by
  rw [unpackMantissa, BitVec.toNat_cast, BitVec.extractLsb_toNat]
  rfl

theorem sign_bit (h : Sign.ofBitVec (unpackSign (layout x)) = .negative) :
    x.toBits.toNat / 2 ^ 63 = 1 := by
  have one : unpackSign (layout x) = 1#1 := by
    rw [← Sign.toBitVec_ofBitVec (unpackSign (layout x)), h]
    rfl
  rw [← sign_toNat, one]
  rfl

theorem eq_positive {r : Sign} (h : r = .ofBitVec (unpackSign (layout x)))
    (positive : isNegative x = false) : r = .positive := by
  cases r with
  | positive => rfl
  | negative =>
    have negative : isNegative x = true := by
      refine beq_iff_eq.mpr (UInt64.toNat_inj.mp ?_)
      rw [UInt64.toNat_shiftRight, Nat.shiftRight_eq_div_pow]
      exact sign_bit h.symm
    rw [positive] at negative
    nomatch negative

theorem sign_of_zero {r : Sign} (h : x.toModel.unpack = .zero r) :
    r = .ofBitVec (unpackSign (layout x)) := by
  have layout_eq : layout x = packedZero .binary64 r :=
    (unpack_eq_zero_iff_of_valid x.toModel.valid).mp h
  rw [layout_eq, packedZero, unpackSign_packComponents, Sign.ofBitVec_toBitVec]

theorem sign_of_finite {r : Sign} {m : Nat} {e : Int} {pos : 0 < m}
    (h : x.toModel.unpack = .finite r m e pos) : r = .ofBitVec (unpackSign (layout x)) := by
  have h : UnpackedFloat.unpack .binary64 (layout x) = .finite r m e pos := h
  simp only [UnpackedFloat.unpack] at h
  split at h
  · split at h <;> nomatch h
  · split at h
    · split at h
      · nomatch h
      · exact (UnpackedFloat.finite.inj h).1.symm
    · exact (UnpackedFloat.finite.inj h).1.symm

theorem eq_neg_zero (h : x.toModel.unpack = .zero .negative) : x = -0 := by
  have layout_eq : layout x = layout (-0) := (unpack_eq_zero_iff_of_valid x.toModel.valid).mp h
  exact Float.toBits_inj.mp (UInt64.toBitVec_inj.mp layout_eq)

end Bits

section Sums

variable {s b x y : Float}

theorem add_eq (x y : Float) : x + y = .ofModel (.pack
    (UnpackedFloat.add .binary64 x.toModel.unpack y.toModel.unpack)) := rfl

theorem mul_eq (x y : Float) : x * y = .ofModel (.pack
    (UnpackedFloat.mul .binary64 x.toModel.unpack y.toModel.unpack)) := rfl

theorem isNaN_add (h : x.isNaN) (y : Float) : (x + y).isNaN := by
  have sum_eq : UnpackedFloat.add .binary64 .notANumber y.toModel.unpack = .notANumber := by
    cases y.toModel.unpack <;> rfl
  rw [add_eq, isNaN_iff.mp h, sum_eq]
  rfl

theorem isNaN_foldl {α : Type} (h : x.isNaN) (f : α → Float) (xs : List α) :
    (xs.foldl (fun sum y => sum + f y) x).isNaN := by
  induction xs generalizing x with
  | nil => exact h
  | cons y ys ih => exact ih (isNaN_add h (f y))

theorem isNaN_zero_mul (endless : ¬ s.isFinite) : (1 * 0 * s).isNaN := by
  have product_eq : UnpackedFloat.mul .binary64 (.zero .positive) s.toModel.unpack = .notANumber := by
    have endless : ¬ s.toModel.unpack.isFinite = true := endless
    cases unpack_eq : s.toModel.unpack with
    | notANumber | infinity sign => rfl
    | zero sign | finite sign m e pos =>
      rw [unpack_eq] at endless
      exact absurd rfl endless
  have zero_eq : (1 * 0 : Float).toModel.unpack = .zero .positive := rfl
  rw [mul_eq, zero_eq, product_eq]
  rfl

/-- A sum with a zero is the same for both zeros, unless it is the sum with the negative zero. -/
theorem add_zero_eq {y : UnpackedFloat} (apart : y ≠ .zero .negative) (s t : Sign) :
    UnpackedFloat.add .binary64 (.zero s) y = UnpackedFloat.add .binary64 (.zero t) y := by
  cases y with
  | notANumber | infinity r | finite r m e pos => rfl
  | zero r =>
    cases r with
    | negative => exact absurd rfl apart
    | positive => cases s <;> cases t <;> rfl

theorem unpack_zero (r : Sign) : (Float.Model.pack (.zero r)).unpack = .zero r := by
  cases r <;> rfl

/-- What a product with zero adds to a float. -/
theorem zero_mul_add (finite : s.isFinite) (sign : b = -0 → isNegative s = false) :
    1 * 0 * s + b = 1 * 0 * 0 + b := by
  have zero_eq : (1 * 0 : Float).toModel.unpack = .zero .positive := rfl
  obtain ⟨r, product_eq, positive⟩ : ∃ r,
      UnpackedFloat.mul .binary64 (.zero .positive) s.toModel.unpack = .zero r ∧
        (isNegative s = false → r = .positive) := by
    have finite : s.toModel.unpack.isFinite = true := finite
    cases unpack_eq : s.toModel.unpack with
    | notANumber | infinity t =>
      rw [unpack_eq] at finite
      nomatch finite
    | zero t =>
      refine ⟨_, rfl, fun positive => ?_⟩
      rw [eq_positive (sign_of_zero unpack_eq) positive]
      rfl
    | finite t m e pos =>
      refine ⟨_, rfl, fun positive => ?_⟩
      rw [eq_positive (sign_of_finite unpack_eq) positive]
      rfl
  have unpacked : (1 * 0 * s).toModel.unpack = .zero r := by
    rw [mul_eq, zero_eq, product_eq]
    exact unpack_zero r
  have unpacked' : (1 * 0 * 0 : Float).toModel.unpack = .zero .positive := rfl
  rw [add_eq, add_eq, unpacked, unpacked']
  by_cases negative : b.toModel.unpack = .zero .negative
  · rw [positive (sign (eq_neg_zero negative))]
  · rw [add_zero_eq negative r .positive]

end Sums

end GatedNetwork.Binary64
