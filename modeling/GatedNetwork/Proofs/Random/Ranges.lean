import GatedNetwork.Proofs.Graph.Drawing
import GatedNetwork.Proofs.Summing

/-! Floats drawn from a range. A float of the unit interval is not negative and neither is the length
of a range, so that what is drawn is not below the range; and it is not above it either, since a
candidate that is not below the upper bound is given up. -/

namespace GatedNetwork

namespace Range

open Float.Model Float.Model.UnpackedFloat Binary64

section Units

variable {w : UInt64}

theorem toBitVec_unit (w : UInt64) : (w >>> 12 ||| 0x3ff0000000000000).toBitVec =
    packComponents .binary64 .positive 1023#11 (BitVec.ofNat 52 (w.toNat / 2 ^ 12)) := by
  refine BitVec.eq_of_toNat_eq ?_
  have small : w.toNat / 2 ^ 12 < 2 ^ 52 := by
    have := w.toNat_lt
    omega
  have packed_eq : (packComponents .binary64 .positive 1023#11 (BitVec.ofNat 52 (w.toNat / 2 ^ 12))).toNat =
      1023 <<< 52 ||| (BitVec.ofNat 52 (w.toNat / 2 ^ 12)).toNat := BitVec.toNat_append ..
  have bits_eq : (w >>> 12 ||| 0x3ff0000000000000).toBitVec.toNat =
      w.toNat >>> 12 ||| 0x3ff0000000000000 := rfl
  rw [packed_eq, bits_eq, BitVec.toNat_ofNat, Nat.mod_eq_of_lt small, Nat.shiftRight_eq_div_pow, Nat.or_comm]
  rfl

theorem unpack_unit (w : UInt64) : ∃ m pos,
    (Float.ofBits (w >>> 12 ||| 0x3ff0000000000000)).toModel.unpack =
      .finite .positive (2 ^ 52 + m) (-52) pos := by
  refine ⟨(BitVec.ofNat 52 (w.toNat / 2 ^ 12)).toNat, by omega, ?_⟩
  have fits : Fits (2 ^ 52 + (BitVec.ofNat 52 (w.toNat / 2 ^ 12)).toNat) (-52) :=
    ⟨by have := (BitVec.ofNat 52 (w.toNat / 2 ^ 12)).isLt; omega, by omega, .inl (by omega)⟩
  change (Float.Model.pack (UnpackedFloat.unpack .binary64
    (w >>> 12 ||| 0x3ff0000000000000).toBitVec)).unpack = _
  rw [toBitVec_unit, unpack_packComponents _ _ _ (by decide), if_neg (by decide)]
  exact (unpack_pack _ fits).trans (if_neg (by omega))

theorem unsigned_unitFloat (w : UInt64) : Unsigned (unitFloat w).toModel.unpack := by
  obtain ⟨m, pos, unpack_eq⟩ := unpack_unit w
  have finite : (Float.ofBits (w >>> 12 ||| 0x3ff0000000000000)).isFinite := by
    change (Float.ofBits _).toModel.unpack.isFinite = true
    rw [unpack_eq]
    rfl
  have one_eq : (1 : Float).toModel.unpack = .finite .positive (2 ^ 52) (-52) (by omega) := rfl
  refine unsigned_sub finite (by decide) ((le_iff_units (by decide) finite).mpr ?_)
  rw [unpack_eq, one_eq]
  exact Int.ofNat_le.mpr (Nat.mul_le_mul_right _ (Nat.le_add_right _ _))

end Units

/-- What may be drawn from a range: a float that is not below it and below its upper bound, or the
lower bound of an empty range. -/
def Yields (range : Range) (x : Float) : Prop :=
  if range.lo < range.hi then range.lo ≤ x ∧ x < range.hi else x = range.lo

section Draws

variable {range : Range} {lo hi scale x : Float} {r r' : RandomStream}

theorem drawScaled_drawn {k : Nat} (drawn : (drawScaled lo hi scale k).run r = .ok x r') :
    x = lo ∨ ∃ word, x = unitFloat word * scale + lo ∧ x < hi := by
  induction k generalizing r with
  | zero =>
    cases drawn
    exact .inl rfl
  | succ k ih =>
    obtain ⟨word, r₁, word_eq⟩ : ∃ word r₁, Draw.word64.run r = .ok word r₁ := ⟨_, _, rfl⟩
    rw [drawScaled, bind_of_ok word_eq] at drawn
    simp only at drawn
    split at drawn
    · rename_i below
      cases drawn
      exact .inr ⟨word, rfl, below⟩
    · exact ih drawn

theorem drawScaled_mem (hlo : lo.isFinite) (hhi : hi.isFinite) (ordered : lo ≤ hi)
    (unsigned : Unsigned scale.toModel.unpack) {k : Nat}
    (drawn : (drawScaled lo hi scale k).run r = .ok x r') : lo ≤ x ∧ x ≤ hi := by
  rcases drawScaled_drawn drawn with rfl | ⟨word, rfl, below⟩
  · exact ⟨(le_iff_units hlo hlo).mpr (Int.le_refl _), ordered⟩
  · exact ⟨le_add_of_lt (unsigned_mul (unsigned_unitFloat word) unsigned) hlo hhi below, le_of_lt below⟩

/-- What is drawn from a valid range lies in the range. -/
theorem draw_mem (valid : range.isValid) (drawn : range.draw.run r = .ok x r') :
    range.lo ≤ x ∧ x ≤ range.hi := by
  simp only [isValid, Bool.and_eq_true, Bool.not_eq_true', decide_eq_false_iff_not] at valid
  obtain ⟨⟨hlo, hhi⟩, ordered⟩ := valid
  have ordered : range.lo ≤ range.hi :=
    (le_iff_units hlo hhi).mpr (Int.not_lt.mp fun lt => ordered ((lt_iff_units hhi hlo).mpr lt))
  unfold draw at drawn
  split at drawn
  · simp only at drawn
    split at drawn
    · exact drawScaled_mem hlo hhi ordered (unsigned_sub hhi hlo ordered) drawn
    · nomatch drawn
  · cases drawn
    exact ⟨(le_iff_units hlo hlo).mpr (Int.le_refl _), ordered⟩

theorem draw_yields (valid : range.isValid) (drawn : range.draw.run r = .ok x r') : range.Yields x := by
  have inside := draw_mem valid drawn
  unfold draw at drawn
  rw [Yields]
  by_cases ordered : range.lo < range.hi
  · rw [if_pos ordered] at drawn ⊢
    simp only at drawn
    split at drawn
    · rcases drawScaled_drawn drawn with rfl | ⟨word, -, below⟩
      · exact ⟨inside.1, ordered⟩
      · exact ⟨inside.1, below⟩
    · nomatch drawn
  · rw [if_neg ordered] at drawn ⊢
    cases drawn
    rfl

end Draws

end Range

end GatedNetwork
