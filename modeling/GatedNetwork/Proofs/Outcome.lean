import GatedNetwork.Focus

/-! Running a stateful action that can fail: the equations of a run, and what a run keeps
whether it succeeds or not. -/

namespace GatedNetwork

section Equations

variable {ε σ τ α β : Type}

theorem bind_run (a : EStateM ε σ α) (f : α → EStateM ε σ β) (s : σ) :
    (a >>= f).run s = match a.run s with
      | .ok x s => (f x).run s
      | .error e s => .error e s := rfl

theorem bind_of_ok {a : EStateM ε σ α} {f : α → EStateM ε σ β} {s s' : σ} {x : α}
    (h : a.run s = .ok x s') : (a >>= f).run s = (f x).run s' := by
  rw [bind_run, h]

theorem bind_of_error {a : EStateM ε σ α} {f : α → EStateM ε σ β} {s s' : σ} {e : ε}
    (h : a.run s = .error e s') : (a >>= f).run s = .error e s' := by
  rw [bind_run, h]

@[simp] theorem pure_run (x : α) (s : σ) : (pure x : EStateM ε σ α).run s = .ok x s := rfl

@[simp] theorem get_run (s : σ) : (get : EStateM ε σ σ).run s = .ok s s := rfl

@[simp] theorem modify_run (f : σ → σ) (s : σ) :
    (modify f : EStateM ε σ PUnit).run s = .ok ⟨⟩ (f s) := rfl

theorem forM_flatMap {γ : Type} (xs : List γ) (f : γ → List α) (act : α → EStateM ε σ PUnit) :
    (xs.flatMap f).forM act = xs.forM fun x => (f x).forM act := by
  induction xs with
  | nil => rfl
  | cons x xs ih =>
    rw [List.flatMap_cons, List.forM_eq_forM, List.forM_append]
    exact congrArg (fun rest => (f x).forM act >>= fun _ => rest) ih

theorem ask_of_ok {q : σ → Except ε α} {s : σ} {x : α} (h : q s = .ok x) :
    (ask q).run s = .ok x s := by
  rw [EStateM.run, ask, h]

theorem ask_of_error {q : σ → Except ε α} {s : σ} {e : ε} (h : q s = .error e) :
    (ask q).run s = .error e s := by
  rw [EStateM.run, ask, h]

theorem ask_fixed_of_ok {q : Except ε α} {x : α} (h : q = .ok x) (s : σ) :
    (ask fun _ => q).run s = .ok x s := ask_of_ok h

theorem ask_fixed_of_error {q : Except ε α} {e : ε} (h : q = .error e) (s : σ) :
    (ask fun _ => q : EStateM ε σ α).run s = .error e s := ask_of_error h

theorem exists_of_map_ok {q : Except ε α} {f : α → β} {y : β} (h : q.map f = .ok y) :
    ∃ x, q = .ok x ∧ y = f x := by
  cases q with
  | ok x => exact ⟨x, rfl, (Except.ok.inj h).symm⟩
  | error e => nomatch h

theorem focus_of_ok {get : σ → τ} {put : τ → σ → σ} {act : EStateM ε τ α} {s : σ} {x : α} {t : τ}
    (h : act.run (get s) = .ok x t) : (focus get put act).run s = .ok x (put t s) := by
  rw [EStateM.run] at h ⊢
  rw [focus, h]

theorem focus_of_error {get : σ → τ} {put : τ → σ → σ} {act : EStateM ε τ α} {s : σ} {e : ε} {t : τ}
    (h : act.run (get s) = .error e t) : (focus get put act).run s = .error e (put t s) := by
  rw [EStateM.run] at h ⊢
  rw [focus, h]

end Equations

section Questions

variable {ε α β : Type} {xs : List α}

theorem mapM_eq_ok {f : α → Except ε β} {v : α → β} (h : ∀ x ∈ xs, f x = .ok (v x)) :
    xs.mapM f = .ok (xs.map v) := by
  induction xs with
  | nil => rfl
  | cons x xs ih =>
    rw [List.mapM_cons, h x (by simp), ih fun y hy => h y (by simp [hy])]
    rfl

theorem foldlM_eq_ok {f : β → α → Except ε β} {v : β → α → β}
    (h : ∀ s, ∀ x ∈ xs, f s x = .ok (v s x)) (s : β) : xs.foldlM f s = .ok (xs.foldl v s) := by
  induction xs generalizing s with
  | nil => rfl
  | cons x xs ih =>
    rw [List.foldlM_cons, h s x (by simp)]
    exact ih (fun s y hy => h s y (by simp [hy])) (v s x)

/-- A series of questions ends at the first that has no answer. -/
theorem forM_cases (xs : List α) (f : α → Except ε PUnit) :
    (∀ x ∈ xs, f x = .ok ⟨⟩) ∧ xs.forM f = .ok ⟨⟩ ∨
      ∃ x ∈ xs, ∃ e, f x = .error e ∧ xs.forM f = .error e := by
  induction xs with
  | nil => exact .inl ⟨by simp, rfl⟩
  | cons x xs ih =>
    rw [List.forM_eq_forM, List.forM_cons]
    cases hx : f x with
    | error e => exact .inr ⟨x, by simp, e, hx, rfl⟩
    | ok u =>
      rcases ih with ⟨all, eq⟩ | ⟨y, hy, e, fails, eq⟩
      · exact .inl ⟨by simpa using ⟨hx, all⟩, eq⟩
      · exact .inr ⟨y, by simp [hy], e, fails, eq⟩

theorem exists_of_bind_eq_ok {q : Except ε α} {f : α → Except ε β} {y : β} (h : q >>= f = .ok y) :
    ∃ x, q = .ok x ∧ f x = .ok y := by
  cases q with
  | error e => nomatch h
  | ok x => exact ⟨x, rfl, h⟩

theorem mem_mapM_iff {f : α → Except ε β} {ys : List β} (h : xs.mapM f = .ok ys) {y : β} :
    y ∈ ys ↔ ∃ x ∈ xs, f x = .ok y := by
  induction xs generalizing ys with
  | nil =>
    obtain rfl := Except.ok.inj h
    simp
  | cons x xs ih =>
    rw [List.mapM_cons] at h
    obtain ⟨z, hz, h⟩ := exists_of_bind_eq_ok h
    obtain ⟨zs, hzs, h⟩ := exists_of_bind_eq_ok h
    obtain rfl := Except.ok.inj h
    simp [ih hzs, hz, eq_comm]

end Questions

section Checks

variable {ε σ α : Type} {s : σ} {P : α → Prop} {f : α → EStateM ε σ PUnit}

theorem checkEach_cases (xs : List α) (pass : ∀ x, P x → (f x).run s = .ok ⟨⟩ s)
    (fail : ∀ x, ¬ P x → ∃ e, (f x).run s = .error e s) :
    (∀ x ∈ xs, P x) ∧ (xs.forM f).run s = .ok ⟨⟩ s ∨
      (¬ ∀ x ∈ xs, P x) ∧ ∃ e, (xs.forM f).run s = .error e s := by
  induction xs with
  | nil => exact .inl ⟨by simp, rfl⟩
  | cons x xs ih =>
    by_cases hx : P x
    · rcases ih with ⟨all, run_eq⟩ | ⟨some, e, run_eq⟩
      · exact .inl ⟨by simpa [hx] using all, (bind_of_ok (pass x hx)).trans run_eq⟩
      · exact .inr ⟨by simpa [hx] using some, e, (bind_of_ok (pass x hx)).trans run_eq⟩
    · obtain ⟨e, run_eq⟩ := fail x hx
      exact .inr ⟨by simp [hx], e, bind_of_error run_eq⟩

end Checks

section Keeping

variable {ε σ τ α β : Type}

/-- The state that a run ends in. -/
def after : EStateM.Result ε σ α → σ
  | .ok _ s | .error _ s => s

@[simp] theorem after_ok (x : α) (s : σ) : after (.ok x s : EStateM.Result ε σ α) = s := rfl

@[simp] theorem after_error (e : ε) (s : σ) : after (.error e s : EStateM.Result ε σ α) = s := rfl

/-- A property of the state holds after every run of the action if it held before. -/
def Keeps (P : σ → Prop) (act : EStateM ε σ α) : Prop := ∀ s, P s → P (after (act.run s))

section Closure

variable {P : σ → Prop}

theorem Keeps.and {Q : σ → Prop} {act : EStateM ε σ α} (hP : Keeps P act) (hQ : Keeps Q act) :
    Keeps (fun s => P s ∧ Q s) act := fun s h => ⟨hP s h.1, hQ s h.2⟩

theorem keeps_pure (x : α) : Keeps P (pure x : EStateM ε σ α) := fun _ h => h

theorem keeps_get : Keeps P (get : EStateM ε σ σ) := fun _ h => h

theorem keeps_ask (q : σ → Except ε α) : Keeps P (ask q) := by
  intro s h
  cases hq : q s with
  | ok x => rwa [ask_of_ok hq]
  | error e => rwa [ask_of_error hq]

theorem Keeps.bind {a : EStateM ε σ α} {f : α → EStateM ε σ β} (ha : Keeps P a)
    (hf : ∀ x, Keeps P (f x)) : Keeps P (a >>= f) := by
  intro s h
  have hs := ha s h
  rw [bind_run]
  cases hr : a.run s with
  | ok x s' => exact hf x s' (by simpa [hr] using hs)
  | error e s' => simpa [hr] using hs

theorem keeps_ite {c : Prop} [Decidable c] {a b : EStateM ε σ α} (ha : Keeps P a) (hb : Keeps P b) :
    Keeps P (if c then a else b) := by
  split
  · exact ha
  · exact hb

theorem keeps_guard {c : Prop} [Decidable c] {e : ε} {k : PUnit → EStateM ε σ α}
    (h : Keeps P (k ⟨⟩)) : Keeps P (if c then k ⟨⟩ else throw e >>= k) :=
  keeps_ite h fun _ hs => hs

theorem keeps_modify {f : σ → σ} (hf : ∀ s, P s → P (f s)) :
    Keeps P (modify f : EStateM ε σ PUnit) := hf

theorem keeps_forM {xs : List α} {f : α → EStateM ε σ PUnit} (hf : ∀ x ∈ xs, Keeps P (f x)) :
    Keeps P (xs.forM f) := by
  induction xs with
  | nil => exact keeps_pure _
  | cons x xs ih =>
    exact Keeps.bind (hf x (by simp)) fun _ => ih fun y hy => hf y (by simp [hy])

theorem keeps_mapM {xs : List α} {f : α → EStateM ε σ β} (hf : ∀ x ∈ xs, Keeps P (f x)) :
    Keeps P (xs.mapM f) := by
  induction xs with
  | nil => exact keeps_pure _
  | cons x xs ih =>
    rw [List.mapM_cons]
    exact Keeps.bind (hf x (by simp)) fun _ =>
      Keeps.bind (ih fun y hy => hf y (by simp [hy])) fun _ => keeps_pure _

theorem keeps_focus {get : σ → τ} {put : τ → σ → σ} {act : EStateM ε τ α}
    (h : ∀ s, P s → P (put (after (act.run (get s))) s)) : Keeps P (focus get put act) := by
  intro s hs
  have hp := h s hs
  cases hr : act.run (get s) with
  | ok x t => simpa [hr, focus_of_ok hr] using hp
  | error e t => simpa [hr, focus_of_error hr] using hp

end Closure

end Keeping

end GatedNetwork
