import GatedNetwork.Proofs.Outcome

/-! Two runs of one action from related states. They answer alike, and the states they end in are
related again; which relation holds at the end may depend on the answer. -/

namespace GatedNetwork

variable {ε σ τ α β : Type}

/-- The results have the same answer or the same error, and related states. -/
def Alike (S : α → σ → σ → Prop) (E : σ → σ → Prop) :
    EStateM.Result ε σ α → EStateM.Result ε σ α → Prop
  | .ok x s, .ok y t => x = y ∧ S x s t
  | .error e s, .error f t => e = f ∧ E s t
  | _, _ => False

theorem Alike.cases {S : α → σ → σ → Prop} {E : σ → σ → Prop} {r r' : EStateM.Result ε σ α}
    (h : Alike S E r r') :
    (∃ x s t, r = .ok x s ∧ r' = .ok x t ∧ S x s t) ∨
      ∃ e s t, r = .error e s ∧ r' = .error e t ∧ E s t := by
  cases r with
  | ok x s =>
    cases r' with
    | ok y t =>
      obtain ⟨rfl, hst⟩ := h
      exact .inl ⟨x, s, t, rfl, rfl, hst⟩
    | error e t => exact h.elim
  | error e s =>
    cases r' with
    | ok y t => exact h.elim
    | error f t =>
      obtain ⟨rfl, hst⟩ := h
      exact .inr ⟨e, s, t, rfl, rfl, hst⟩

theorem Alike.mono {S S' : α → σ → σ → Prop} {E E' : σ → σ → Prop} {r r' : EStateM.Result ε σ α}
    (h : Alike S E r r') (hS : ∀ x s t, S x s t → S' x s t) (hE : ∀ s t, E s t → E' s t) :
    Alike S' E' r r' := by
  rcases h.cases with ⟨x, s, t, rfl, rfl, hst⟩ | ⟨e, s, t, rfl, rfl, hst⟩
  · exact ⟨rfl, hS _ _ _ hst⟩
  · exact ⟨rfl, hE _ _ hst⟩

/-- Both sides run the action from related states. -/
def Relates (R : σ → σ → Prop) (S : α → σ → σ → Prop) (E : σ → σ → Prop) (act : EStateM ε σ α) :
    Prop := ∀ s t, R s t → Alike S E (act.run s) (act.run t)

section Rules

variable {R R' : σ → σ → Prop} {S S' : α → σ → σ → Prop} {T : β → σ → σ → Prop} {E E' : σ → σ → Prop}

theorem Relates.mono {act : EStateM ε σ α} (h : Relates R S E act) (hR : ∀ s t, R' s t → R s t)
    (hS : ∀ x s t, S x s t → S' x s t) (hE : ∀ s t, E s t → E' s t) : Relates R' S' E' act :=
  fun s t hst => (h s t (hR s t hst)).mono hS hE

theorem relates_pure {x : α} (h : ∀ s t, R s t → S x s t) :
    Relates R S E (pure x : EStateM ε σ α) := fun s t hst => ⟨rfl, h s t hst⟩

theorem relates_throw (e : ε) (h : ∀ s t, R s t → E s t) :
    Relates R S E (throw e : EStateM ε σ α) := fun s t hst => ⟨rfl, h s t hst⟩

theorem Relates.bind {a : EStateM ε σ α} {f : α → EStateM ε σ β} (ha : Relates R S E a)
    (hf : ∀ x, Relates (S x) T E (f x)) : Relates R T E (a >>= f) := by
  intro s t hst
  rw [bind_run, bind_run]
  rcases (ha s t hst).cases with ⟨x, s', t', hs, ht, hst'⟩ | ⟨e, s', t', hs, ht, hst'⟩
  · rw [hs, ht]
    exact hf x s' t' hst'
  · rw [hs, ht]
    exact ⟨rfl, hst'⟩

theorem relates_get {f : σ → EStateM ε σ α} (same : ∀ s t, R s t → f s = f t)
    (hf : ∀ s, Relates (fun a b => R a b ∧ a = s) S E (f s)) : Relates R S E (get >>= f) := by
  intro s t hst
  change Alike S E ((f s).run s) ((f t).run t)
  rw [← same s t hst]
  exact hf s s t ⟨hst, rfl⟩

theorem relates_ask {q : σ → Except ε α} (same : ∀ s t, R s t → q s = q t)
    (hS : ∀ x s t, q s = .ok x → R s t → S x s t) (hE : ∀ s t, R s t → E s t) :
    Relates R S E (ask q) := by
  intro s t hst
  cases hq : q s with
  | ok x =>
    rw [ask_of_ok hq, ask_of_ok ((same s t hst).symm.trans hq)]
    exact ⟨rfl, hS x s t hq hst⟩
  | error e =>
    rw [ask_of_error hq, ask_of_error ((same s t hst).symm.trans hq)]
    exact ⟨rfl, hE s t hst⟩

/-- A question that is asked only to find out whether it has an answer. -/
theorem relates_check {q : σ → Except ε β} {act : EStateM ε σ α}
    (same : ∀ s t, R s t → (q s).map (fun _ => ()) = (q t).map fun _ => ())
    (hE : ∀ s t, R s t → E s t) (h : Relates R S E act) :
    Relates R S E (ask q >>= fun _ => act) := by
  intro s t hst
  have hq := same s t hst
  cases hs : q s with
  | ok x =>
    cases ht : q t with
    | ok y =>
      rw [bind_of_ok (ask_of_ok hs), bind_of_ok (ask_of_ok ht)]
      exact h s t hst
    | error e => simp [hs, ht, Except.map] at hq
  | error e =>
    cases ht : q t with
    | ok y => simp [hs, ht, Except.map] at hq
    | error e' =>
      rw [bind_of_error (ask_of_error hs), bind_of_error (ask_of_error ht)]
      exact ⟨by simpa [hs, ht, Except.map] using hq, hE s t hst⟩

theorem relates_modify {f : σ → σ} (h : ∀ s t, R s t → R' (f s) (f t)) :
    Relates R (fun _ => R') E (modify f : EStateM ε σ PUnit) := fun s t hst => ⟨rfl, h s t hst⟩

theorem relates_ite {c : Prop} [Decidable c] {a b : EStateM ε σ α} (ha : Relates R S E a)
    (hb : Relates R S E b) : Relates R S E (if c then a else b) := by
  split
  · exact ha
  · exact hb

theorem relates_guard {c : Prop} [Decidable c] {e : ε} {k : PUnit → EStateM ε σ α}
    (hE : ∀ s t, R s t → E s t) (h : Relates R S E (k ⟨⟩)) :
    Relates R S E (if c then k ⟨⟩ else throw e >>= k) :=
  relates_ite h fun s t hst => ⟨rfl, hE s t hst⟩

theorem relates_forM {xs : List α} {f : α → EStateM ε σ PUnit}
    (hf : ∀ x ∈ xs, Relates R (fun _ => R) E (f x)) : Relates R (fun _ => R) E (xs.forM f) := by
  induction xs with
  | nil => exact relates_pure fun _ _ h => h
  | cons x xs ih =>
    exact Relates.bind (hf x (by simp)) fun _ => ih fun y hy => hf y (by simp [hy])

theorem relates_mapM {I : List β → σ → σ → Prop} {xs : List α} {f : α → EStateM ε σ β}
    (hf : ∀ x ∈ xs, ∀ ys, Relates (I ys) (fun y => I (ys ++ [y])) E (f x)) (ys : List β) :
    Relates (I ys) (fun zs => I (ys ++ zs)) E (xs.mapM f) := by
  induction xs generalizing ys with
  | nil => exact relates_pure fun s t h => by simpa using h
  | cons x xs ih =>
    rw [List.mapM_cons]
    refine Relates.bind (hf x (by simp) ys) fun y => ?_
    refine Relates.bind (ih (fun z hz => hf z (by simp [hz])) (ys ++ [y])) fun zs => ?_
    exact relates_pure fun s t h => by simpa using h

end Rules

end GatedNetwork
