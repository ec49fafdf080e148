import PeclMemcache.Wp

set_option autoImplicit false

/-! # Stateful programs that end

`wp` does not tell one failure from another, so it cannot say that a program ends. `Ends F x Q s` says
that `x`, started in `s`, ends with a result and a state that satisfy `Q`, or fails with an error of
`F`. If a run that goes on too long fails with an error that `F` leaves out, `x` ends; if `Q` holds of
nothing and `F` of that error alone, it does not. -/

namespace Stateful

variable {σ ε α β : Type} {F : ε → Prop}

/-- `x` ends with a result in `Q`, or fails with an error in `F`. -/
def Ends (F : ε → Prop) (x : ExceptT ε (StateM σ) α) (Q : α → σ → Prop) (s : σ) : Prop :=
  (∀ a s', x s = (.ok a, s') → Q a s') ∧ ∀ e s', x s = (.error e, s') → F e

theorem ends_mono {x : ExceptT ε (StateM σ) α} {Q Q' : α → σ → Prop} {s : σ} (h : Ends F x Q s)
    (hQ : ∀ a s', Q a s' → Q' a s') : Ends F x Q' s :=
  ⟨fun a s' hx => hQ a s' (h.1 a s' hx), h.2⟩

/-- A program that ends with a result in one way. -/
theorem ends_of_ok {x : ExceptT ε (StateM σ) α} {a : α} {s s' : σ} (h : x s = (.ok a, s'))
    (Q : α → σ → Prop) : Ends F x Q s ↔ Q a s' := by
  constructor
  · exact fun hx => hx.1 a s' h
  · intro hQ
    refine ⟨fun b v hx => ?_, fun e v hx => ?_⟩
    · rw [h] at hx
      cases hx
      exact hQ
    · rw [h] at hx
      cases hx

/-- A program that fails in one way. -/
theorem ends_of_error {x : ExceptT ε (StateM σ) α} {e : ε} {s s' : σ} (h : x s = (.error e, s'))
    (Q : α → σ → Prop) : Ends F x Q s ↔ F e := by
  constructor
  · exact fun hx => hx.2 e s' h
  · intro he
    refine ⟨fun b v hx => ?_, fun e' v hx => ?_⟩
    · rw [h] at hx
      cases hx
    · rw [h] at hx
      cases hx
      exact he

/-- A program cannot both end and fail with an error that ends nothing. -/
theorem Ends.exclusive {F' : ε → Prop} {x : ExceptT ε (StateM σ) α} {Q : α → σ → Prop} {s : σ}
    (h : Ends F x Q s) (h' : Ends F' x (fun _ _ => False) s) : ∃ e, F e ∧ F' e := by
  cases hx : x s with
  | mk result s' =>
    cases result with
    | error e => exact ⟨e, h.2 e s' hx, h'.2 e s' hx⟩
    | ok a => exact (h'.1 a s' hx).elim

@[simp]
theorem ends_pure (a : α) (Q : α → σ → Prop) (s : σ) :
    Ends F (pure a : ExceptT ε (StateM σ) α) Q s ↔ Q a s := ends_of_ok rfl Q

@[simp]
theorem ends_bind (x : ExceptT ε (StateM σ) α) (f : α → ExceptT ε (StateM σ) β) (Q : β → σ → Prop)
    (s : σ) : Ends F (x >>= f) Q s ↔ Ends F x (fun a s' => Ends F (f a) Q s') s := by
  cases hx : x s with
  | mk result s' =>
    cases result with
    | error e =>
      have hbind : (x >>= f) s = (.error e, s') := by
        change ExceptT.bindCont f (x s).1 (x s).2 = _
        rw [hx]
        rfl
      rw [ends_of_error hx, ends_of_error hbind]
    | ok a =>
      have hbind : (x >>= f) s = f a s' := by
        change ExceptT.bindCont f (x s).1 (x s).2 = _
        rw [hx]
        rfl
      rw [ends_of_ok hx]
      unfold Ends
      rw [hbind]

theorem ends_ite {c : Prop} [Decidable c] {x y : ExceptT ε (StateM σ) α} {Q : α → σ → Prop} {s : σ}
    (hx : c → Ends F x Q s) (hy : ¬ c → Ends F y Q s) : Ends F (if c then x else y) Q s := by
  split
  · next h => exact hx h
  · next h => exact hy h

/-- What `wp` says of the results of a program is known where the program ends. -/
theorem Ends.and_wp {x : ExceptT ε (StateM σ) α} {Q Q' : α → σ → Prop} {X : σ → Prop} {s : σ}
    (h : Ends F x Q s) (h' : wp x Q' X s) : Ends F x (fun a s' => Q a s' ∧ Q' a s') s :=
  ⟨fun a s' hx => ⟨h.1 a s' hx, h'.1 a s' hx⟩, h.2⟩

/-! ## Relations of start and end states -/

/-- `x` ends from every state, in one related to it by `R`. -/
def Leads (F : ε → Prop) (R : σ → σ → Prop) (x : ExceptT ε (StateM σ) α) : Prop :=
  ∀ s, Ends F x (fun _ s' => R s s') s

section Leads

variable {R : σ → σ → Prop}

theorem Leads.pure (hrefl : ∀ s, R s s) (a : α) :
    Leads F R (Pure.pure a : ExceptT ε (StateM σ) α) := fun s => (ends_pure a _ s).mpr (hrefl s)

theorem Leads.bind (htrans : ∀ s s' s'', R s s' → R s' s'' → R s s'')
    {x : ExceptT ε (StateM σ) α} {f : α → ExceptT ε (StateM σ) β} (hx : Leads F R x)
    (hf : ∀ a, Leads F R (f a)) : Leads F R (x >>= f) := by
  intro s
  rw [ends_bind]
  exact ends_mono (hx s) fun a s' hs => ends_mono (hf a s') fun _ s'' => htrans s s' s'' hs

theorem Leads.ite {c : Prop} [Decidable c] {x y : ExceptT ε (StateM σ) α} (hx : Leads F R x)
    (hy : Leads F R y) : Leads F R (if c then x else y) :=
  fun s => ends_ite (fun _ => hx s) fun _ => hy s

end Leads

/-! ## Invariants -/

/-- `x` ends from every state in `I`, and in a state in `I`. -/
def Sustains (F : ε → Prop) (I : σ → Prop) (x : ExceptT ε (StateM σ) α) : Prop :=
  ∀ s, I s → Ends F x (fun _ => I) s

variable {I : σ → Prop}

theorem Sustains.pure (a : α) : Sustains F I (Pure.pure a : ExceptT ε (StateM σ) α) :=
  fun s hs => (ends_pure a _ s).mpr hs

theorem Sustains.bind {x : ExceptT ε (StateM σ) α} {f : α → ExceptT ε (StateM σ) β}
    (hx : Sustains F I x) (hf : ∀ a, Sustains F I (f a)) : Sustains F I (x >>= f) := by
  intro s hs
  rw [ends_bind]
  exact ends_mono (hx s hs) fun a s' => hf a s'

theorem Sustains.ite {c : Prop} [Decidable c] {x y : ExceptT ε (StateM σ) α} (hx : Sustains F I x)
    (hy : Sustains F I y) : Sustains F I (if c then x else y) :=
  fun s hs => ends_ite (fun _ => hx s hs) fun _ => hy s hs

end Stateful
