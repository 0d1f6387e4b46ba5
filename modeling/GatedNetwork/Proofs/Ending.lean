import GatedNetwork.Proofs.Outcome

/-! How a run ends. An ending names what holds of the answer and the state after a success and of
the error and the state after a failure. A loop is followed by what holds of the part of its list
that it has gone through. -/

namespace GatedNetwork

variable {ε σ τ α β : Type}

/-- What holds of a result, by its kind. -/
def Ending (Q : α → σ → Prop) (E : ε → σ → Prop) : EStateM.Result ε σ α → Prop
  | .ok x s => Q x s
  | .error e s => E e s

instance {Q : α → σ → Prop} {E : ε → σ → Prop} [∀ x s, Decidable (Q x s)] [∀ e s, Decidable (E e s)] :
    ∀ r, Decidable (Ending Q E r)
  | .ok x s => inferInstanceAs (Decidable (Q x s))
  | .error e s => inferInstanceAs (Decidable (E e s))

/-- Every run of the action from a state with `P` ends like this. -/
def Ends (P : σ → Prop) (act : EStateM ε σ α) (Q : α → σ → Prop) (E : ε → σ → Prop) : Prop :=
  ∀ s, P s → Ending Q E (act.run s)

section Results

variable {Q Q' : α → σ → Prop} {E E' : ε → σ → Prop} {r : EStateM.Result ε σ α}

theorem Ending.mono (h : Ending Q E r) (hQ : ∀ x s, Q x s → Q' x s) (hE : ∀ e s, E e s → E' e s) :
    Ending Q' E' r := by
  cases r with
  | ok x s => exact hQ x s h
  | error e s => exact hE e s h

theorem Ending.of_eq_ok {x : α} {s : σ} (h : Ending Q E r) (hr : r = .ok x s) : Q x s := by
  rw [hr] at h
  exact h

theorem Ending.of_eq_error {e : ε} {s : σ} (h : Ending Q E r) (hr : r = .error e s) : E e s := by
  rw [hr] at h
  exact h

/-- Where no failure is possible there is an answer. -/
theorem Ending.exists_ok (h : Ending Q (fun _ _ => False) r) : ∃ x s, r = .ok x s ∧ Q x s := by
  cases r with
  | ok x s => exact ⟨x, s, rfl, h⟩
  | error e s => exact h.elim

end Results

section Rules

variable {P P' : σ → Prop} {Q Q' : α → σ → Prop} {R : β → σ → Prop} {E E' : ε → σ → Prop}

theorem Ends.mono {act : EStateM ε σ α} (h : Ends P act Q E) (hP : ∀ s, P' s → P s)
    (hQ : ∀ x s, Q x s → Q' x s) (hE : ∀ e s, E e s → E' e s) : Ends P' act Q' E' :=
  fun s hs => (h s (hP s hs)).mono hQ hE

theorem ending_any (r : EStateM.Result ε σ α) : Ending (fun _ _ => True) (fun _ _ => True) r := by
  cases r <;> trivial

theorem ends_any (act : EStateM ε σ α) : Ends P act (fun _ _ => True) fun _ _ => True :=
  fun s _ => ending_any (act.run s)

theorem ends_pure {x : α} (h : ∀ s, P s → Q x s) : Ends P (pure x : EStateM ε σ α) Q E := h

theorem Ending.bind {a : EStateM ε σ α} {f : α → EStateM ε σ β} {s : σ} (ha : Ending Q E (a.run s))
    (hf : ∀ x s', Q x s' → Ending R E ((f x).run s')) : Ending R E ((a >>= f).run s) := by
  rw [bind_run]
  cases hr : a.run s with
  | ok x s' => exact hf x s' (ha.of_eq_ok hr)
  | error e s' => exact ha.of_eq_error hr

theorem Ends.bind {a : EStateM ε σ α} {f : α → EStateM ε σ β} (ha : Ends P a Q E)
    (hf : ∀ x, Ends (Q x) (f x) R E) : Ends P (a >>= f) R E := fun s hs => (ha s hs).bind hf

theorem ends_ite {c : Prop} [Decidable c] {a b : EStateM ε σ α} (ha : Ends P a Q E) (hb : Ends P b Q E) :
    Ends P (if c then a else b) Q E := by
  split
  · exact ha
  · exact hb

theorem ends_modify {f : σ → σ} {S : σ → Prop} (h : ∀ s, P s → S (f s)) :
    Ends P (modify f : EStateM ε σ PUnit) (fun _ => S) E := h

/-- A loop, by what holds once a part of the list is done. -/
theorem ends_forM {I : List α → σ → Prop} {xs : List α} {f : α → EStateM ε σ PUnit}
    (step : ∀ before x later, xs = before ++ x :: later →
      Ends (I before) (f x) (fun _ => I (before ++ [x])) E) :
    Ends (I []) (xs.forM f) (fun _ => I xs) E := by
  have rest (later before : List α) (h : xs = before ++ later) :
      Ends (I before) (later.forM f) (fun _ => I xs) E := by
    induction later generalizing before with
    | nil =>
      rw [List.append_nil] at h
      rw [h]
      exact ends_pure fun _ hs => hs
    | cons x later ih =>
      exact Ends.bind (step before x later h) fun _ => ih (before ++ [x]) (by simp [h])
  exact rest xs [] rfl

theorem ends_mapM {I : List α → List β → σ → Prop} {xs : List α} {f : α → EStateM ε σ β}
    (step : ∀ before x later ys, xs = before ++ x :: later →
      Ends (I before ys) (f x) (fun y => I (before ++ [x]) (ys ++ [y])) E) :
    Ends (I [] []) (xs.mapM f) (fun ys => I xs ys) E := by
  have rest (later before : List α) (ys : List β) (h : xs = before ++ later) :
      Ends (I before ys) (later.mapM f) (fun zs => I xs (ys ++ zs)) E := by
    induction later generalizing before ys with
    | nil =>
      rw [List.append_nil] at h
      rw [h]
      exact ends_pure fun _ hs => by simpa using hs
    | cons x later ih =>
      rw [List.mapM_cons]
      refine Ends.bind (step before x later ys h) fun y => ?_
      refine Ends.bind (ih (before ++ [x]) (ys ++ [y]) (by simp [h])) fun zs => ?_
      exact ends_pure fun s hs => by simpa using hs
  exact rest xs [] [] rfl

theorem ends_mapM_all {S : β → Prop} {xs : List α} {f : α → EStateM ε σ β}
    (hf : ∀ x ∈ xs, Ends P (f x) (fun y s => S y ∧ P s) E) :
    Ends P (xs.mapM f) (fun ys s => (∀ y ∈ ys, S y) ∧ P s) E := by
  refine (ends_mapM (I := fun _ ys s => (∀ y ∈ ys, S y) ∧ P s) fun before x later ys split => ?_).mono
    (fun s hs => ⟨nofun, hs⟩) (fun _ _ h => h) fun _ _ h => h
  intro s hs
  refine (hf x (by simp [split]) s hs.2).mono (fun y s' hy => ⟨fun z hz => ?_, hy.2⟩) fun _ _ h => h
  rcases List.mem_append.mp hz with old | new
  · exact hs.1 z old
  · exact List.mem_singleton.mp new ▸ hy.1

theorem ends_focus {get : σ → τ} {put : τ → σ → σ} {act : EStateM ε τ α} {s : σ}
    (h : Ending (fun x t => Q x (put t s)) (fun e t => E e (put t s)) (act.run (get s))) :
    Ending Q E ((focus get put act).run s) := by
  cases hr : act.run (get s) with
  | ok x t =>
    rw [focus_of_ok hr]
    exact h.of_eq_ok hr
  | error e t =>
    rw [focus_of_error hr]
    exact h.of_eq_error hr

end Rules

section Enduring

variable {P : σ → Prop} {E : ε → Prop}

/-- The property outlasts every run of the action, and every failure is one of those. -/
def Endures (P : σ → Prop) (E : ε → Prop) (act : EStateM ε σ α) : Prop :=
  Ends P act (fun _ => P) (fun e s => E e ∧ P s)

theorem Keeps.endures {act : EStateM ε σ α} (h : Keeps P act) : Endures P (fun _ => True) act := by
  intro s hs
  have kept := h s hs
  cases hr : act.run s with
  | ok x s' =>
    rw [hr] at kept
    exact kept
  | error e s' =>
    rw [hr] at kept
    exact ⟨trivial, kept⟩

theorem Endures.keeps {act : EStateM ε σ α} (h : Endures P E act) : Keeps P act := by
  intro s hs
  have ending := h s hs
  cases hr : act.run s with
  | ok x s' => exact ending.of_eq_ok hr
  | error e s' => exact (ending.of_eq_error hr).2

theorem endures_pure (x : α) : Endures P E (pure x : EStateM ε σ α) := fun _ h => h

theorem endures_throw {e : ε} (he : E e) : Endures P E (throw e : EStateM ε σ α) := fun _ h => ⟨he, h⟩

theorem endures_ask {q : σ → Except ε α} (hq : ∀ s e, q s = .error e → E e) : Endures P E (ask q) := by
  intro s h
  cases hs : q s with
  | ok x => rwa [ask_of_ok hs]
  | error e =>
    rw [ask_of_error hs]
    exact ⟨hq s e hs, h⟩

theorem Endures.bind {a : EStateM ε σ α} {f : α → EStateM ε σ β} (ha : Endures P E a)
    (hf : ∀ x, Endures P E (f x)) : Endures P E (a >>= f) := Ends.bind ha hf

theorem endures_get {f : σ → EStateM ε σ α} (hf : ∀ s, P s → Endures P E (f s)) :
    Endures P E (get >>= f) := fun s h => by
  rw [bind_of_ok (get_run s)]
  exact hf s h s h

theorem endures_ite {c : Prop} [Decidable c] {a b : EStateM ε σ α} (ha : Endures P E a)
    (hb : Endures P E b) : Endures P E (if c then a else b) := ends_ite ha hb

theorem endures_guard {c : Prop} [Decidable c] {e : ε} {k : PUnit → EStateM ε σ α} (he : E e)
    (h : Endures P E (k ⟨⟩)) : Endures P E (if c then k ⟨⟩ else throw e >>= k) :=
  endures_ite h fun _ hs => ⟨he, hs⟩

theorem endures_modify {f : σ → σ} (hf : ∀ s, P s → P (f s)) :
    Endures P E (modify f : EStateM ε σ PUnit) := hf

theorem endures_forM {xs : List α} {f : α → EStateM ε σ PUnit} (hf : ∀ x ∈ xs, Endures P E (f x)) :
    Endures P E (xs.forM f) :=
  ends_forM (I := fun _ => P) fun _ x _ split => hf x (by simp [split])

theorem endures_mapM {xs : List α} {f : α → EStateM ε σ β} (hf : ∀ x ∈ xs, Endures P E (f x)) :
    Endures P E (xs.mapM f) :=
  ends_mapM (I := fun _ _ => P) fun _ x _ _ split => hf x (by simp [split])

theorem endures_focus {get : σ → τ} {put : τ → σ → σ} {act : EStateM ε τ α} {Q : τ → Prop}
    (h : Endures Q E act) (part : ∀ s, P s → Q (get s)) (whole : ∀ s t, P s → Q t → P (put t s)) :
    Endures P E (focus get put act) := fun s hs =>
  ends_focus ((h (get s) (part s hs)).mono (fun _ t ht => whole s t hs ht)
    fun _ t ht => ⟨ht.1, whole s t hs ht.2⟩)

end Enduring

end GatedNetwork
