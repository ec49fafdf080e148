import Mathlib

set_option autoImplicit false

/-! # Stateful programs that can fail

Programs in `ExceptT ε (StateM σ)`, over any states, errors and results. `wp x Q X s` says that `x`,
started in `s`, ends with a result and a state that satisfy `Q`, or fails in a state that satisfies `X`.
The rules compute it along the structure of a program; a call is replaced by what is known of it with
`wp_mono`. `Within R S x` says the same with relations to the start state: `R` is kept by a run that
ends with a result, `S` by one that fails. -/

namespace Stateful

variable {σ ε α β γ : Type}

/-! ## Preconditions -/

/-- The states from which every result of `x` satisfies `Q` and every failure satisfies `X`. -/
def wp (x : ExceptT ε (StateM σ) α) (Q : α → σ → Prop) (X : σ → Prop) (s : σ) : Prop :=
  (∀ a s', x s = (.ok a, s') → Q a s') ∧ ∀ e s', x s = (.error e, s') → X s'

theorem wp_mono {x : ExceptT ε (StateM σ) α} {Q Q' : α → σ → Prop} {X X' : σ → Prop} {s : σ}
    (h : wp x Q X s) (hQ : ∀ a s', Q a s' → Q' a s') (hX : ∀ s', X s' → X' s') :
    wp x Q' X' s :=
  ⟨fun a s' hx => hQ a s' (h.1 a s' hx), fun e s' hx => hX s' (h.2 e s' hx)⟩

theorem wp_and {x : ExceptT ε (StateM σ) α} {Q Q' : α → σ → Prop} {X X' : σ → Prop} {s : σ}
    (h : wp x Q X s) (h' : wp x Q' X' s) :
    wp x (fun a s' => Q a s' ∧ Q' a s') (fun s' => X s' ∧ X' s') s :=
  ⟨fun a s' hx => ⟨h.1 a s' hx, h'.1 a s' hx⟩, fun e s' hx => ⟨h.2 e s' hx, h'.2 e s' hx⟩⟩

/-- What holds of every result and of every failure holds of the last state. -/
theorem wp_last {x : ExceptT ε (StateM σ) α} {P : σ → Prop} {s : σ} (h : wp x (fun _ => P) P s) :
    P (x s).2 := by
  cases hx : x s with
  | mk result s' =>
    cases result with
    | error e => exact h.2 e s' hx
    | ok a => exact h.1 a s' hx

/-- A program that cannot fail ends with a result. -/
theorem exists_of_wp {x : ExceptT ε (StateM σ) α} {Q : α → σ → Prop} {s : σ}
    (h : wp x Q (fun _ => False) s) : ∃ a s', x s = (.ok a, s') ∧ Q a s' := by
  cases hx : x s with
  | mk result s' =>
    cases result with
    | error e => exact (h.2 e s' hx).elim
    | ok a => exact ⟨a, s', rfl, h.1 a s' hx⟩

/-- What is known of a run that is seen to end with a result. -/
theorem exists_of_isOk {x : ExceptT ε (StateM σ) α} {Q : α → σ → Prop} {X : σ → Prop} {s : σ}
    (h : wp x Q X s) (hok : (x s).1.isOk = true) : ∃ a s', x s = (.ok a, s') ∧ Q a s' := by
  cases hx : x s with
  | mk result s' =>
    cases result with
    | error e =>
      rw [hx] at hok
      cases hok
    | ok a => exact ⟨a, s', rfl, h.1 a s' hx⟩

/-- A program that ends with a result in one way. -/
theorem wp_of_ok {x : ExceptT ε (StateM σ) α} {a : α} {s s' : σ} (h : x s = (.ok a, s'))
    (Q : α → σ → Prop) (X : σ → Prop) : wp x Q X s ↔ Q a s' := by
  constructor
  · exact fun hx => hx.1 a s' h
  · intro hQ
    refine ⟨fun b v hx => ?_, fun e v hx => ?_⟩
    · rw [h] at hx
      cases hx
      exact hQ
    · rw [h] at hx
      cases hx

/-- A program that fails in one way. -/
theorem wp_of_error {x : ExceptT ε (StateM σ) α} {e : ε} {s s' : σ} (h : x s = (.error e, s'))
    (Q : α → σ → Prop) (X : σ → Prop) : wp x Q X s ↔ X s' := by
  constructor
  · exact fun hx => hx.2 e s' h
  · intro hX
    refine ⟨fun b v hx => ?_, fun e v hx => ?_⟩
    · rw [h] at hx
      cases hx
    · rw [h] at hx
      cases hx
      exact hX

@[simp]
theorem wp_pure (a : α) (Q : α → σ → Prop) (X : σ → Prop) (s : σ) :
    wp (pure a : ExceptT ε (StateM σ) α) Q X s ↔ Q a s := wp_of_ok rfl Q X

@[simp]
theorem wp_bind (x : ExceptT ε (StateM σ) α) (f : α → ExceptT ε (StateM σ) β) (Q : β → σ → Prop)
    (X : σ → Prop) (s : σ) :
    wp (x >>= f) Q X s ↔ wp x (fun a s' => wp (f a) Q X s') X s := by
  cases hx : x s with
  | mk result s' =>
    cases result with
    | error e =>
      have hbind : (x >>= f) s = (.error e, s') := by
        change ExceptT.bindCont f (x s).1 (x s).2 = _
        rw [hx]
        rfl
      rw [wp_of_error hx, wp_of_error hbind]
    | ok a =>
      have hbind : (x >>= f) s = f a s' := by
        change ExceptT.bindCont f (x s).1 (x s).2 = _
        rw [hx]
        rfl
      rw [wp_of_ok hx]
      unfold wp
      rw [hbind]

/-- What is known of the results of the last part of a program. -/
theorem wp_bind_last {x : ExceptT ε (StateM σ) α} {f : α → ExceptT ε (StateM σ) β} {Q : β → σ → Prop}
    {s : σ} (hf : ∀ a s', wp (f a) Q (fun _ => True) s') : wp (x >>= f) Q (fun _ => True) s :=
  (wp_bind _ _ _ _ _).mpr ⟨fun a s' _ => hf a s', fun _ _ _ => trivial⟩

/-- A conditional has to be right in both branches. -/
theorem wp_ite {c : Prop} [Decidable c] {x y : ExceptT ε (StateM σ) α} {Q : α → σ → Prop}
    {X : σ → Prop} {s : σ} (hx : c → wp x Q X s) (hy : ¬ c → wp y Q X s) :
    wp (if c then x else y) Q X s := by
  split
  · next h => exact hx h
  · next h => exact hy h

/-! ## Relations of start and end states -/

/-- Every run of `x` that ends leads from a state to one related by `R`, every one that fails to one
    related by `S`. -/
def Within (R S : σ → σ → Prop) (x : ExceptT ε (StateM σ) α) : Prop :=
  ∀ s, wp x (fun _ s' => R s s') (S s) s

variable {R S : σ → σ → Prop}

theorem Within.pure (hrefl : ∀ s, R s s) (a : α) :
    Within R S (Pure.pure a : ExceptT ε (StateM σ) α) :=
  fun s => (wp_pure _ _ _ _).mpr (hrefl s)

theorem Within.bind (htrans : ∀ s s' s'', R s s' → R s' s'' → R s s'')
    (hfail : ∀ s s' s'', R s s' → S s' s'' → S s s'')
    {x : ExceptT ε (StateM σ) α} {f : α → ExceptT ε (StateM σ) β} (hx : Within R S x)
    (hf : ∀ a, Within R S (f a)) : Within R S (x >>= f) := by
  intro s
  rw [wp_bind]
  exact wp_mono (hx s) (fun a s' hs => wp_mono (hf a s') (fun _ s'' => htrans s s' s'' hs)
    fun s'' => hfail s s' s'' hs) fun _ => id

theorem Within.ite {c : Prop} [Decidable c] {x y : ExceptT ε (StateM σ) α} (hx : Within R S x)
    (hy : Within R S y) : Within R S (if c then x else y) :=
  fun s => wp_ite (fun _ => hx s) fun _ => hy s

/-! ## Programs without a state -/

section Pure

/-- `x` ends with a result that satisfies `P`, or with an error that satisfies `F`. -/
def Yields (x : Except ε α) (P : α → Prop) (F : ε → Prop) : Prop :=
  match x with
  | .ok a => P a
  | .error e => F e

variable {P P' : α → Prop} {F F' : ε → Prop}

@[simp]
theorem yields_ok (a : α) : Yields (.ok a : Except ε α) P F ↔ P a := Iff.rfl

@[simp]
theorem yields_pure (a : α) : Yields (pure a : Except ε α) P F ↔ P a := Iff.rfl

@[simp]
theorem yields_error (e : ε) : Yields (.error e : Except ε α) P F ↔ F e := Iff.rfl

@[simp]
theorem yields_bind (x : Except ε α) (f : α → Except ε β) {P : β → Prop} :
    Yields (x >>= f) P F ↔ Yields x (fun a => Yields (f a) P F) F := by
  cases x <;> rfl

theorem Yields.mono {x : Except ε α} (h : Yields x P F) (hP : ∀ a, P a → P' a)
    (hF : ∀ e, F e → F' e) : Yields x P' F' := by
  cases x with
  | ok a => exact hP a h
  | error e => exact hF e h

theorem Yields.bind {x : Except ε α} (hx : Yields x P F) {f : α → Except ε β} {Q : β → Prop}
    (hf : ∀ a, P a → Yields (f a) Q F) : Yields (x >>= f) Q F :=
  (yields_bind x f).mpr (hx.mono hf fun _ => id)

/-- What is known of any `x`. -/
theorem yields_self (x : Except ε α) : Yields x (x = .ok ·) fun _ => True := by
  cases x with
  | ok a => exact rfl
  | error e => trivial

theorem yields_ite {c : Prop} [Decidable c] {x y : Except ε α} (hx : c → Yields x P F)
    (hy : ¬ c → Yields y P F) : Yields (if c then x else y) P F := by
  split
  · next h => exact hx h
  · next h => exact hy h

end Pure

end Stateful
