import PeclMemcache.Wp

set_option autoImplicit false

/-! # Two runs side by side

Programs in `ExceptT ε (StateM σ)` that are run from related states. `Coupled P Q S x y` says that from
states related by `P` they end alike: both with the same result, in states that `Q` relates, or both
with the same error, in states that `S` relates. -/

namespace Stateful

variable {σ τ ε α β : Type}

/-- Both runs ended with a result, or both failed. -/
inductive EndAlike (Q : α → σ → τ → Prop) (S : ε → σ → τ → Prop) :
    Except ε α × σ → Except ε α × τ → Prop
  | ok {a : α} {s : σ} {t : τ} (h : Q a s t) : EndAlike Q S (.ok a, s) (.ok a, t)
  | error {e : ε} {s : σ} {t : τ} (h : S e s t) : EndAlike Q S (.error e, s) (.error e, t)

/-- From related states the two programs end alike. -/
def Coupled (P : σ → τ → Prop) (Q : α → σ → τ → Prop) (S : ε → σ → τ → Prop)
    (x : ExceptT ε (StateM σ) α) (y : ExceptT ε (StateM τ) α) : Prop :=
  ∀ s t, P s t → EndAlike Q S (x s) (y t)

variable {P P' : σ → τ → Prop} {Q Q' : α → σ → τ → Prop} {T : β → σ → τ → Prop} {S : ε → σ → τ → Prop}
  {x x' : ExceptT ε (StateM σ) α} {y y' : ExceptT ε (StateM τ) α}

theorem EndAlike.mono {u : Except ε α × σ} {v : Except ε α × τ} (h : EndAlike Q S u v)
    (hQ : ∀ a s t, Q a s t → Q' a s t) : EndAlike Q' S u v := by
  cases h with
  | ok h => exact .ok (hQ _ _ _ h)
  | error h => exact .error h

/-- What is known of two runs when one is seen to end with a result. -/
theorem EndAlike.exists_ok {u : Except ε α × σ} {v : Except ε α × τ} (h : EndAlike Q S u v)
    (hok : u.1.isOk = true) : ∃ a s t, u = (.ok a, s) ∧ v = (.ok a, t) ∧ Q a s t := by
  cases h with
  | ok h => exact ⟨_, _, _, rfl, rfl, h⟩
  | error h => cases hok

theorem Coupled.mono (h : Coupled P Q S x y) (hP : ∀ s t, P' s t → P s t)
    (hQ : ∀ a s t, Q a s t → Q' a s t) : Coupled P' Q' S x y :=
  fun s t hst => (h s t (hP s t hst)).mono hQ

theorem Coupled.pure (a : α) (h : ∀ s t, P s t → Q a s t) :
    Coupled P Q S (Pure.pure a) (Pure.pure a) := fun s t hst => .ok (h s t hst)

/-- Programs that only look at the state or change it. -/
theorem Coupled.of_ok (f : σ → α) (f' : τ → α) (g : σ → σ) (g' : τ → τ)
    (h : ∀ s t, P s t → f s = f' t ∧ Q (f s) (g s) (g' t)) :
    Coupled P Q S (fun s => (.ok (f s), g s) : ExceptT ε (StateM σ) α)
      (fun t => (.ok (f' t), g' t) : ExceptT ε (StateM τ) α) := by
  intro s t hst
  obtain ⟨heq, hQ⟩ := h s t hst
  show EndAlike Q S (.ok (f s), g s) (.ok (f' t), g' t)
  exact heq ▸ .ok hQ

/-- One after the other. -/
theorem EndAlike.bind {f : α → ExceptT ε (StateM σ) β} {g : α → ExceptT ε (StateM τ) β} {s : σ} {t : τ}
    (hx : EndAlike Q S (x s) (y t)) (hf : ∀ a, Coupled (Q a) T S (f a) (g a)) :
    EndAlike T S ((x >>= f) s) ((y >>= g) t) := by
  change EndAlike T S (ExceptT.bindCont f (x s).1 (x s).2) (ExceptT.bindCont g (y t).1 (y t).2)
  revert hx
  generalize x s = u
  generalize y t = v
  rintro (h | h)
  · exact hf _ _ _ h
  · exact .error h

theorem Coupled.bind {f : α → ExceptT ε (StateM σ) β} {g : α → ExceptT ε (StateM τ) β}
    (hx : Coupled P Q S x y) (hf : ∀ a, Coupled (Q a) T S (f a) (g a)) :
    Coupled P T S (x >>= f) (y >>= g) := fun s t hst => (hx s t hst).bind hf

theorem Coupled.ite {c : Prop} [Decidable c] (h : c → Coupled P Q S x y)
    (h' : ¬ c → Coupled P Q S x' y') : Coupled P Q S (if c then x else x') (if c then y else y') := by
  split
  · next hc => exact h hc
  · next hc => exact h' hc

/-! ## Failures -/

/-- `x` fails with the error `e`. -/
def FailsWith (e : ε) (x : ExceptT ε (StateM σ) α) (s : σ) : Prop := ∃ s', x s = (.error e, s')

theorem FailsWith.bind {e : ε} {s : σ} (h : FailsWith e x s) (f : α → ExceptT ε (StateM σ) β) :
    FailsWith e (x >>= f) s := by
  obtain ⟨s', h⟩ := h
  refine ⟨s', ?_⟩
  change ExceptT.bindCont f (x s).1 (x s).2 = _
  rw [h]
  rfl

/-- What comes later fails. -/
theorem FailsWith.after {f : α → ExceptT ε (StateM σ) β} {e : ε} {a : α} {s s' : σ}
    (hx : x s = (.ok a, s')) (h : FailsWith e (f a) s') : FailsWith e (x >>= f) s := by
  obtain ⟨s'', h⟩ := h
  refine ⟨s'', ?_⟩
  change ExceptT.bindCont f (x s).1 (x s).2 = _
  rw [hx]
  exact h

/-- Two failures are alike where they may differ in the states. -/
theorem FailsWith.endAlike {e : ε} {s : σ} {t : τ} (hS : ∀ s t, S e s t) (hx : FailsWith e x s)
    (hy : FailsWith e y t) : EndAlike Q S (x s) (y t) := by
  obtain ⟨s', hx⟩ := hx
  obtain ⟨t', hy⟩ := hy
  rw [hx, hy]
  exact .error (hS s' t')

end Stateful
