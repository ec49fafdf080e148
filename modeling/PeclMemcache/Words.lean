import Mathlib

set_option autoImplicit false

/-! # Words and lines

Splitting a sequence at a separator: into words, where separators in a row count once, and at the
first separator. The inverse puts one separator between two words. Splitting what was put together
gives the words back, except that empty words are lost. -/

namespace Words

variable {α : Type}

/-- One separator between two words. -/
def join (sep : α) : List (List α) → List α
  | [] => []
  | w :: ws => w ++ ws.flatMap (sep :: ·)

/-- A joined sequence has no elements but those of the words and the separators. -/
theorem mem_join {sep a : α} {ws : List (List α)} (h : a ∈ join sep ws) :
    a = sep ∨ ∃ w ∈ ws, a ∈ w := by
  cases ws with
  | nil => simp [join] at h
  | cons w ws =>
    rw [join, List.mem_append, List.mem_flatMap] at h
    rcases h with hw | ⟨v, hv, ha⟩
    · exact Or.inr ⟨w, List.mem_cons_self, hw⟩
    · rcases List.mem_cons.mp ha with rfl | ha
      · exact Or.inl rfl
      · exact Or.inr ⟨v, List.mem_cons_of_mem w hv, ha⟩

variable [DecidableEq α]

/-- The word read so far, if it is one. -/
def word (w : List α) : List (List α) := if w = [] then [] else [w]

/-- The words of a sequence, the first of them begun with `cur`. -/
def splitFrom (sep : α) (cur : List α) : List α → List (List α)
  | [] => word cur
  | a :: rest => if a = sep then word cur ++ splitFrom sep [] rest else splitFrom sep (cur ++ [a]) rest

/-- The words of a sequence. -/
def split (sep : α) (s : List α) : List (List α) := splitFrom sep [] s

/-- The sequence before the first separator and the one behind it. -/
def splitFirst (sep : α) : List α → Option (List α × List α)
  | [] => none
  | a :: rest =>
    if a = sep then some ([], rest) else (splitFirst sep rest).map fun p => (a :: p.1, p.2)

theorem splitFrom_append {sep : α} {w : List α} (h : sep ∉ w) (cur s : List α) :
    splitFrom sep cur (w ++ s) = splitFrom sep (cur ++ w) s := by
  induction w generalizing cur with
  | nil => rw [List.nil_append, List.append_nil]
  | cons a w ih =>
    rw [List.mem_cons, not_or] at h
    rw [List.cons_append, splitFrom, if_neg (Ne.symm h.1), ih h.2, List.append_assoc,
      List.singleton_append]

theorem splitFrom_flatMap {sep : α} {ws : List (List α)} (h : ∀ w ∈ ws, sep ∉ w) (cur : List α) :
    splitFrom sep cur (ws.flatMap (sep :: ·)) = word cur ++ ws.filter (fun w => w ≠ []) := by
  induction ws generalizing cur with
  | nil => simp [splitFrom]
  | cons w ws ih =>
    have hw := h w List.mem_cons_self
    have hws := fun v hv => h v (List.mem_cons_of_mem w hv)
    rw [List.flatMap_cons, List.cons_append, splitFrom, if_pos rfl, splitFrom_append hw,
      List.nil_append, ih hws]
    unfold word
    by_cases hnil : w = []
    · simp [hnil]
    · simp [hnil]

/-- **Words put together and split again** are the words that are not empty. -/
theorem split_join {sep : α} {ws : List (List α)} (h : ∀ w ∈ ws, sep ∉ w) :
    split sep (join sep ws) = ws.filter fun w => w ≠ [] := by
  cases ws with
  | nil => rfl
  | cons w ws =>
    have hw := h w List.mem_cons_self
    have hws := fun v hv => h v (List.mem_cons_of_mem w hv)
    rw [split, join, splitFrom_append hw, List.nil_append, splitFrom_flatMap hws]
    unfold word
    by_cases hnil : w = []
    · simp [hnil]
    · simp [hnil]

/-- What comes before a separator is found again. -/
theorem splitFirst_append {sep : α} {s : List α} (h : sep ∉ s) (rest : List α) :
    splitFirst sep (s ++ sep :: rest) = some (s, rest) := by
  induction s with
  | nil => rw [List.nil_append, splitFirst, if_pos rfl]
  | cons a s ih =>
    rw [List.mem_cons, not_or] at h
    rw [List.cons_append, splitFirst, if_neg (Ne.symm h.1), ih h.2, Option.map_some]

end Words
