import Mathlib

set_option autoImplicit false

/-! # Waiting in turn

Items join the lines of several counters, are served there and leave them again. What happened is a list
of events, the last one first. Where every item that is served is the first one in its line, and leaves it
only when it has been served to the end, the items that left a line, in order, and behind them those that
wait in it are the items that joined it, and the item served is the one that comes next. -/

namespace Turns

/-- An item joins the line of a counter, is served there, to the end or not, or leaves the line it waits
    in. -/
inductive Event (κ α : Type)
  | join (k : κ) (x : α)
  | serve (k : κ) (x : α) (finished : Bool)
  | leave (x : α)

variable {κ α : Type} [DecidableEq κ] [DecidableEq α]

/-- The items that joined the line of `k`, in order. -/
def joined (k : κ) : List (Event κ α) → List α
  | [] => []
  | .join k' x :: rest => if k' = k then joined k rest ++ [x] else joined k rest
  | .serve _ _ _ :: rest => joined k rest
  | .leave _ :: rest => joined k rest

/-- The items that wait in the line of `k`. -/
def line (k : κ) : List (Event κ α) → List α
  | [] => []
  | .join k' x :: rest => if k' = k then line k rest ++ [x] else line k rest
  | .serve _ _ _ :: rest => line k rest
  | .leave x :: rest => (line k rest).erase x

/-- The items that left the line of `k`, in order. -/
def left (k : κ) : List (Event κ α) → List α
  | [] => []
  | .join _ _ :: rest => left k rest
  | .serve _ _ _ :: rest => left k rest
  | .leave x :: rest => if x ∈ line k rest then left k rest ++ [x] else left k rest

/-- An item is served at the head of its line only, and leaves the line when it has been served to the
    end. -/
def InTurn : List (Event κ α) → Prop
  | [] => True
  | .join _ _ :: rest => InTurn rest
  | .serve k x _ :: rest => (line k rest).head? = some x ∧ InTurn rest
  | .leave x :: rest => (∀ k, x ∈ line k rest → rest.head? = some (.serve k x true)) ∧ InTurn rest

variable {events : List (Event κ α)} {k : κ} {x : α}

@[simp] theorem line_join_self : line k (.join k x :: events) = line k events ++ [x] := by simp [line]

theorem line_join_of_ne {k' : κ} (h : k' ≠ k) : line k (.join k' x :: events) = line k events := by
  simp [line, h]

theorem line_leave_of_not_mem (h : x ∉ line k events) : line k (.leave x :: events) = line k events :=
  List.erase_of_not_mem h

theorem line_leave_of_head {rest : List α} (h : line k events = x :: rest) :
    line k (.leave x :: events) = rest := by
  rw [line, h, List.erase_cons_head]

/-- What happened earlier was in turn, too. -/
theorem InTurn.of_suffix {earlier : List (Event κ α)} (h : InTurn events) (hsuffix : earlier <:+ events) :
    InTurn earlier := by
  induction events with
  | nil => rwa [List.suffix_nil.mp hsuffix]
  | cons e rest ih =>
    have hrest : InTurn rest := by
      cases e with
      | join k x => exact h
      | serve k x finished => exact h.2
      | leave x => exact h.2
    rcases List.suffix_cons_iff.mp hsuffix with rfl | hsuffix
    · exact h
    · exact ih hrest hsuffix

theorem InTurn.head_of_serve {finished : Bool} (h : InTurn events)
    (hserve : events.head? = some (.serve k x finished)) : (line k events).head? = some x := by
  obtain ⟨rest, rfl⟩ := List.head?_eq_some_iff.mp hserve
  exact h.1

/-- **Who joins first leaves first.** -/
theorem joined_eq_left_append_line (h : InTurn events) (k : κ) :
    joined k events = left k events ++ line k events := by
  induction events with
  | nil => rfl
  | cons e rest ih =>
    cases e with
    | join k' x =>
      have hrest : joined k rest = left k rest ++ line k rest := ih h
      by_cases hk : k' = k
      · simp [joined, left, line, hk, hrest]
      · simpa [joined, left, line, hk] using hrest
    | serve k' x finished => exact ih h.2
    | leave x =>
      have hrest : joined k rest = left k rest ++ line k rest := ih h.2
      rw [joined, hrest, left]
      by_cases hx : x ∈ line k rest
      · obtain ⟨waiting, hline⟩ := List.head?_eq_some_iff.mp (h.2.head_of_serve (h.1 k hx))
        rw [if_pos hx, line_leave_of_head hline, hline]
        simp
      · rw [if_neg hx, line_leave_of_not_mem hx]

/-- **Who is served comes next** after those who left. -/
theorem InTurn.served {finished : Bool} (h : InTurn (.serve k x finished :: events)) :
    (joined k events)[(left k events).length]? = some x := by
  rw [joined_eq_left_append_line h.2 k, List.getElem?_append_right (Nat.le_refl _), Nat.sub_self,
    ← List.head?_eq_getElem?]
  exact h.1

end Turns
