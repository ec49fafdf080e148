import Mathlib

set_option autoImplicit false

/-! # Texts that are laid out in words

Words stand in a text with separators before, between and behind them. A text has exactly one such layout,
up to the empty one, and a scan of it from left to right finds the words one after the other. -/

namespace Fields

variable {α : Type} (sep : α → Bool)

/-- A text from position `i` on, and the words in it with their positions. -/
inductive Layout : Nat → List α → List (Nat × List α) → Prop
  | blank {i : Nat} {gap : List α} (hgap : ∀ x ∈ gap, sep x = true) : Layout i gap []
  | last {i : Nat} {gap word : List α} (hgap : ∀ x ∈ gap, sep x = true) (hne : word ≠ [])
      (hword : ∀ x ∈ word, sep x = false) : Layout i (gap ++ word) [(i + gap.length, word)]
  | word {i : Nat} {gap word rest : List α} {x : α} {words : List (Nat × List α)}
      (hgap : ∀ x ∈ gap, sep x = true) (hne : word ≠ []) (hword : ∀ x ∈ word, sep x = false)
      (hx : sep x = true) (hrest : Layout (i + gap.length + word.length + 1) rest words) :
      Layout i (gap ++ word ++ x :: rest) ((i + gap.length, word) :: words)

variable {sep} {i : Nat} {text word rest : List α} {words : List (Nat × List α)} {p : α → Bool}

theorem takeWhile_append_of_all (hword : ∀ x ∈ word, p x = true) (hrest : ∀ x ∈ rest.head?, p x = false) :
    (word ++ rest).takeWhile p = word := by
  rw [List.takeWhile_append_of_pos hword]
  match rest with
  | [] => simp
  | x :: _ => simp [hrest x rfl]

/-- A text starts with items that have a property, up to one that has not. -/
theorem exists_span (p : α → Bool) (text : List α) :
    ∃ before after, text = before ++ after ∧ (∀ x ∈ before, p x = true) ∧
      ∀ x ∈ after.head?, p x = false := by
  induction text with
  | nil => exact ⟨[], [], rfl, by simp, by simp⟩
  | cons x rest ih =>
    by_cases hx : p x = true
    · obtain ⟨before, after, hrest, hbefore, hafter⟩ := ih
      have hall : ∀ y ∈ x :: before, p y = true := List.forall_mem_cons.mpr ⟨hx, hbefore⟩
      exact ⟨x :: before, after, by rw [hrest, List.cons_append], hall, hafter⟩
    · exact ⟨[], x :: rest, rfl, by simp, by simpa using hx⟩

/-- Every text is laid out in words. -/
theorem exists_layout (sep : α → Bool) (i : Nat) (text : List α) : ∃ words, Layout sep i text words := by
  -- behind a word and its separator the text is shorter
  induction hlen : text.length using Nat.strong_induction_on generalizing i text with
  | _ n ih =>
    obtain ⟨gap, body, rfl, hgap, hbody⟩ := exists_span sep text
    obtain ⟨word, after, rfl, hword, hafter⟩ := exists_span (fun x => !sep x) body
    have hword : ∀ x ∈ word, sep x = false := by simpa using hword
    match after with
    | [] =>
      rw [List.append_nil] at hbody ⊢
      match word with
      | [] => exact ⟨[], by simpa using .blank hgap⟩
      | x :: word => exact ⟨_, .last hgap (List.cons_ne_nil x word) hword⟩
    | z :: rest =>
      have hz : sep z = true := by simpa using hafter z rfl
      have hne : word ≠ [] := by
        rintro rfl
        exact absurd (hbody z rfl) (by simp [hz])
      have hshort : rest.length < n := by
        rw [← hlen]
        simp only [List.length_append, List.length_cons]
        omega
      obtain ⟨words, hwords⟩ := ih rest.length hshort _ rest rfl
      exact ⟨_, by rw [← List.append_assoc]; exact .word hgap hne hword hz hwords⟩

end Fields
