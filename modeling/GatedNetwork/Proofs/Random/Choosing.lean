import Mathlib.Algebra.Group.Nat.Defs
import GatedNetwork.Proofs.Graph.Lasting

/-! Choices of a random stream. Every choice reads on in the stream and lies where it is wanted: a
number lies below its bound, a member is one of its list, and two positions of a list differ. -/

namespace GatedNetwork

theorem ChaCha.getElem_block (key : Key) (number : Nat) {i : Nat} (h : i < 16) :
    (block key number)[i] =
      (Nat.repeat doubleRound 6 (initial key number))[i] + (initial key number)[i] := by
  simp [block]

namespace Draw

variable {α β : Type} {n : Nat} {Q : α → Prop} {R : β → Prop}

/-- The draw reads at least one word and gives an answer like this. -/
def Gives (act : Draw α) (Q : α → Prop) : Prop :=
  ∀ r, ∃ x r', act.run r = .ok x r' ∧ Q x ∧ r.position < r'.position

theorem Gives.bind {act : Draw α} {f : α → Draw β} (ha : Gives act Q)
    (hf : ∀ x, Q x → Gives (f x) R) : Gives (act >>= f) R := by
  intro r
  obtain ⟨x, r', run_eq, hx, read⟩ := ha r
  obtain ⟨y, r'', run_eq', hy, read'⟩ := hf x hx r'
  exact ⟨y, r'', (bind_of_ok run_eq).trans run_eq', hy, Nat.lt_trans read read'⟩

theorem Gives.map {act : Draw α} {f : α → β} (ha : Gives act Q) (hf : ∀ x, Q x → R (f x)) :
    Gives (act >>= fun x => pure (f x)) R := by
  intro r
  obtain ⟨x, r', run_eq, hx, read⟩ := ha r
  exact ⟨f x, r', bind_of_ok run_eq, hf x hx, read⟩

theorem gives_word32 : Gives word32 fun _ => True :=
  fun r => ⟨r.head, r.advance, rfl, trivial, Nat.lt_succ_self _⟩

theorem gives_word64 : Gives word64 fun _ => True :=
  gives_word32.bind fun _ _ => gives_word32.map fun _ _ => trivial

theorem gives_coin : Gives coin fun _ => True := gives_word64.map fun _ _ => trivial

theorem scaled_run {bits k w : Nat} {word : Draw Nat} {r r' : RandomStream} (word_eq : word.run r = .ok w r')
    (even : w * n % (1 <<< bits) ≤ (n <<< (bits - 1 - n.log2)) - 1) :
    (scaled bits n word (k + 1)).run r = .ok ((w * n) >>> bits) r' := by
  rw [scaled, bind_of_ok word_eq]
  dsimp only
  rw [if_pos even, pure_run]

/-- A word that is scaled to `n` values is below `n`. So is the 0 that is left when all attempts
have failed. -/
theorem gives_scaled {bits : Nat} {word : Draw Nat} (pos : 0 < n)
    (words : Gives word (· < 2 ^ bits)) (k : Nat) : Gives (scaled bits n word (k + 1)) (· < n) := by
  have scale (k : Nat) (rest : ∀ r, ∃ x r', (scaled bits n word k).run r = .ok x r' ∧ x < n ∧
      r.position ≤ r'.position) : Gives (scaled bits n word (k + 1)) (· < n) := by
    intro r
    obtain ⟨w, r', word_eq, small, read⟩ := words r
    obtain ⟨x, r'', rest_eq, hx, read'⟩ := rest r'
    by_cases zone : w * n % (1 <<< bits) ≤ (n <<< (bits - 1 - n.log2)) - 1
    · refine ⟨(w * n) >>> bits, r', scaled_run word_eq zone, ?_, read⟩
      rw [Nat.shiftRight_eq_div_pow]
      exact Nat.div_lt_of_lt_mul (Nat.mul_lt_mul_of_pos_right small pos)
    · refine ⟨x, r'', (bind_of_ok word_eq).trans ?_, hx, Nat.lt_of_lt_of_le read read'⟩
      rw [if_neg zone, rest_eq]
  induction k with
  | zero => exact scale 0 fun r => ⟨0, r, rfl, pos, Nat.le_refl _⟩
  | succ k ih =>
    refine scale (k + 1) fun r => ?_
    obtain ⟨x, r', run_eq, hx, read⟩ := ih r
    exact ⟨x, r', run_eq, hx, Nat.le_of_lt read⟩

theorem gives_below32 (pos : 0 < n) : Gives (below32 n) (· < n) :=
  gives_scaled pos (gives_word32.map fun w _ => w.toNat_lt) _

theorem gives_below64 (pos : 0 < n) : Gives (below64 n) (· < n) :=
  gives_scaled pos (gives_word64.map fun w _ => w.toNat_lt) _

theorem gives_choose {xs : List α} (ne : xs ≠ []) :
    Gives (choose xs) fun choice => ∃ x ∈ xs, choice = some x := by
  cases xs with
  | nil => exact absurd rfl ne
  | cons x xs =>
    refine Gives.map (gives_below32 (List.length_pos_iff.mpr ne)) fun i hi => ?_
    exact ⟨(x :: xs)[i], List.getElem_mem hi, List.getElem?_eq_getElem hi⟩

theorem choose_run {xs : List α} (ne : xs ≠ []) {r : RandomStream}
    (even : r.head.toNat * xs.length % (1 <<< 32) ≤ (xs.length <<< (32 - 1 - xs.length.log2)) - 1) :
    (choose xs).run r = .ok xs[(r.head.toNat * xs.length) >>> 32]? r.advance := by
  have word_eq : (return (← word32).toNat : Draw Nat).run r = .ok r.head.toNat r.advance := rfl
  cases xs with
  | nil => exact absurd rfl ne
  | cons x xs => exact bind_of_ok (scaled_run (k := 1023) word_eq even)

theorem gives_choosePair (two : 2 ≤ n) :
    Gives (choosePair n) fun places => places.1 < n ∧ places.2 < n ∧ places.1 ≠ places.2 := by
  refine (gives_below32 (by omega)).bind fun first hfirst => ?_
  refine (gives_below32 (by omega)).map fun second hsecond => ?_
  split
  · exact ⟨by simp only; omega, by simp only; omega, by simp only; omega⟩
  · rename_i differ
    exact ⟨by simp only; omega, hsecond, fun same => differ same.symm⟩

end Draw

end GatedNetwork
