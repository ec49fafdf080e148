import Mathlib

set_option autoImplicit false

/-! # Runs of a machine

A machine is given by what a step does in a state, if it is possible there. `performAll` makes some
steps in a row; `Obeys` says that each of them is allowed where it is made. The rules take an
invariant along a run that obeys, and its violation along one that does not. -/

namespace Machines

variable {σ α : Type} (perform : σ → α → Option σ)

/-- Some steps in a row. -/
def performAll : List α → σ → Option σ
  | [], s => some s
  | a :: rest, s =>
    match perform s a with
    | some s => performAll rest s
    | none => none

/-- Each of the steps is allowed where it is made. -/
def Obeys (allowed : σ → α → Prop) : List α → σ → Prop
  | [], _ => True
  | a :: rest, s =>
    allowed s a ∧
      match perform s a with
      | some s => Obeys allowed rest s
      | none => True

instance decidableObeys (allowed : σ → α → Prop) [∀ s a, Decidable (allowed s a)] :
    ∀ (actions : List α) (s : σ), Decidable (Obeys perform allowed actions s)
  | [], _ => .isTrue trivial
  | a :: rest, s =>
    match h : perform s a with
    | some s' =>
      have := decidableObeys allowed rest s'
      decidable_of_iff (allowed s a ∧ Obeys perform allowed rest s') (by rw [Obeys, h])
    | none => decidable_of_iff (allowed s a ∧ True) (by rw [Obeys, h])

variable {perform} {allowed : σ → α → Prop}

theorem performAll_cons {a : α} {rest : List α} {s s' : σ} :
    performAll perform (a :: rest) s = some s' ↔
      ∃ s₁, perform s a = some s₁ ∧ performAll perform rest s₁ = some s' := by
  rw [performAll]
  cases perform s a with
  | none => simp
  | some s₁ => simp

theorem obeys_cons {a : α} {rest : List α} {s s₁ : σ} (h : perform s a = some s₁) :
    Obeys perform allowed (a :: rest) s ↔ allowed s a ∧ Obeys perform allowed rest s₁ := by
  rw [Obeys, h]

/-- **The rule for invariants.** What holds at the start and is kept by the allowed steps holds at the
    end of every run that makes no other steps. -/
theorem invariant_performAll {Inv : σ → Prop}
    (hstep : ∀ s a s', Inv s → allowed s a → perform s a = some s' → Inv s') {actions : List α}
    {s s' : σ} (h : Inv s) (hobeys : Obeys perform allowed actions s)
    (hrun : performAll perform actions s = some s') : Inv s' := by
  induction actions generalizing s with
  | nil =>
    cases hrun
    exact h
  | cons a rest ih =>
    obtain ⟨s₁, hfirst, hrest⟩ := performAll_cons.mp hrun
    rw [obeys_cons hfirst] at hobeys
    exact ih (hstep s a s₁ h hobeys.1 hfirst) hobeys.2 hrest

/-- **The rule for runs that do not get stuck.** Where the allowed steps are possible, and keep an
    invariant, a run that makes no other steps comes to its end. -/
theorem total_performAll {Inv : σ → Prop}
    (hstep : ∀ s a, Inv s → allowed s a → ∃ s', perform s a = some s' ∧ Inv s') {actions : List α}
    {s : σ} (h : Inv s) (hobeys : Obeys perform allowed actions s) :
    ∃ s', performAll perform actions s = some s' ∧ Inv s' := by
  induction actions generalizing s with
  | nil => exact ⟨s, rfl, h⟩
  | cons a rest ih =>
    obtain ⟨s₁, hfirst, h₁⟩ := hstep s a h hobeys.1
    rw [obeys_cons hfirst] at hobeys
    obtain ⟨s', hrest, h'⟩ := ih h₁ hobeys.2
    exact ⟨s', performAll_cons.mpr ⟨s₁, hfirst, hrest⟩, h'⟩

/-- What every step keeps, every run keeps. -/
theorem stable_performAll {Inv : σ → Prop}
    (hstep : ∀ s a s', Inv s → perform s a = some s' → Inv s') {actions : List α} {s s' : σ}
    (h : Inv s) (hrun : performAll perform actions s = some s') : Inv s' := by
  induction actions generalizing s with
  | nil =>
    cases hrun
    exact h
  | cons a rest ih =>
    obtain ⟨s₁, hfirst, hrest⟩ := performAll_cons.mp hrun
    exact ih (hstep s a s₁ h hfirst) hrest

/-- **The rule for violations.** Where a step that is not allowed does damage that no later step
    repairs, a run that does not obey is damaged at its end. `Inv` is what every step keeps. -/
theorem damaged_performAll {Inv Damaged : σ → Prop}
    (hinv : ∀ s a s', Inv s → perform s a = some s' → Inv s')
    (hbreak : ∀ s a s', Inv s → ¬allowed s a → perform s a = some s' → Damaged s')
    (hkeep : ∀ s a s', Inv s → Damaged s → perform s a = some s' → Damaged s') {actions : List α}
    {s s' : σ} (h : Inv s) (hnot : ¬Obeys perform allowed actions s)
    (hrun : performAll perform actions s = some s') : Damaged s' := by
  induction actions generalizing s with
  | nil => exact absurd trivial hnot
  | cons a rest ih =>
    obtain ⟨s₁, hfirst, hrest⟩ := performAll_cons.mp hrun
    rw [obeys_cons hfirst] at hnot
    by_cases hallowed : allowed s a
    · exact ih (hinv s a s₁ h hfirst) (fun hobeys => hnot ⟨hallowed, hobeys⟩) hrest
    · have hboth : ∀ s a s', Inv s ∧ Damaged s → perform s a = some s' → Inv s' ∧ Damaged s' :=
        fun s a s' hs hstep => ⟨hinv s a s' hs.1 hstep, hkeep s a s' hs.1 hs.2 hstep⟩
      exact (stable_performAll hboth
        ⟨hinv s a s₁ h hfirst, hbreak s a s₁ h hallowed hfirst⟩ hrest).2

/-- **The rule for equal conditions.** Two conditions that agree on every state of an invariant, which
    the steps keep that meet the first of them, are met by the same runs. -/
theorem obeys_congr {Inv : σ → Prop} {allowed' : σ → α → Prop}
    (hstep : ∀ s a s', Inv s → allowed s a → perform s a = some s' → Inv s')
    (hsame : ∀ s a s', Inv s → perform s a = some s' → (allowed s a ↔ allowed' s a))
    {actions : List α} {s s' : σ} (h : Inv s) (hrun : performAll perform actions s = some s') :
    Obeys perform allowed actions s ↔ Obeys perform allowed' actions s := by
  induction actions generalizing s with
  | nil => exact Iff.rfl
  | cons a rest ih =>
    obtain ⟨s₁, hfirst, hrest⟩ := performAll_cons.mp hrun
    rw [obeys_cons hfirst, obeys_cons hfirst, ← hsame s a s₁ h hfirst]
    refine and_congr_right fun hallowed => ?_
    exact ih (hstep s a s₁ h hallowed hfirst) hrest

/-- **The rule for every state of a run.** Where the allowed steps keep an invariant that gives `P`, and
    the others are possible and break `P`, the states of a run have `P` if and only if it obeys. -/
theorem everywhere_iff {Inv P : σ → Prop} (hP : ∀ s, Inv s → P s)
    (hstep : ∀ s a s', Inv s → allowed s a → perform s a = some s' → Inv s')
    (hbreak : ∀ s a, Inv s → ¬allowed s a → ∃ s', perform s a = some s' ∧ ¬P s') {actions : List α}
    {s : σ} (h : Inv s) :
    (∀ n s', performAll perform (actions.take n) s = some s' → P s') ↔
      Obeys perform allowed actions s := by
  induction actions generalizing s with
  | nil =>
    refine ⟨fun _ => trivial, fun _ n s' hrun => ?_⟩
    rw [List.take_nil] at hrun
    cases hrun
    exact hP _ h
  | cons a rest ih =>
    constructor
    · intro hall
      have hallowed : allowed s a := by
        by_contra hnot
        obtain ⟨s', hrun, hbroken⟩ := hbreak s a h hnot
        exact hbroken (hall 1 s' (performAll_cons.mpr ⟨s', hrun, rfl⟩))
      rw [Obeys]
      refine ⟨hallowed, ?_⟩
      cases hfirst : perform s a with
      | none => trivial
      | some s₁ =>
        refine (ih (hstep s a s₁ h hallowed hfirst)).mp fun n s' hrun => ?_
        exact hall (n + 1) s' (performAll_cons.mpr ⟨s₁, hfirst, hrun⟩)
    · intro hobeys n s' hrun
      cases n with
      | zero =>
        cases hrun
        exact hP _ h
      | succ n =>
        obtain ⟨s₁, hfirst, hrest⟩ := performAll_cons.mp hrun
        have hallowed := hobeys.1
        rw [obeys_cons hfirst] at hobeys
        exact (ih (hstep s a s₁ h hallowed hfirst)).mpr hobeys.2 n s' hrest

end Machines
