import Mathlib

set_option autoImplicit false

/-! # Buffers of a fixed size

A buffer is written cell by cell, from a position on. A write behind its end is an error that names
the position, so a run of writes is either in bounds or stops at the first position outside. -/

namespace Buffers

variable {α β γ : Type} {n : Nat}

theorem ok_bind (x : β) (f : β → Except Nat γ) : (Except.ok x >>= f) = f x := rfl

theorem error_bind (i : Nat) (f : β → Except Nat γ) : (Except.error i >>= f) = .error i := rfl

/-- Write one cell. -/
def poke (i : Nat) (x : α) (b : Vector α n) : Except Nat (Vector α n) :=
  if h : i < n then .ok (b.set i x) else .error i

/-- Write a list from a position on. -/
def pokes : Nat → List α → Vector α n → Except Nat (Vector α n)
  | _, [], b => .ok b
  | i, x :: xs, b => (poke i x b).bind (pokes (i + 1) xs)

/-- The buffer with a list that fits laid over it at a position. -/
def overlay (i : Nat) (xs : List α) (b : Vector α n) : Vector α n :=
  Vector.ofFn fun j => if i ≤ j then xs[j.val - i]?.getD b[j] else b[j]

theorem getElem_overlay (i : Nat) (xs : List α) (b : Vector α n) {j : Nat} (hj : j < n) :
    (overlay i xs b)[j] = if i ≤ j then xs[j - i]?.getD b[j] else b[j] := by
  simp [overlay]

@[simp]
theorem overlay_nil (i : Nat) (b : Vector α n) : overlay i [] b = b := by
  ext j hj
  simp [getElem_overlay]

theorem poke_of_lt {i : Nat} (h : i < n) (x : α) (b : Vector α n) :
    poke i x b = .ok (overlay i [x] b) := by
  rw [poke, dif_pos h]
  congr 1
  ext j hj
  rw [getElem_overlay, Vector.getElem_set]
  by_cases hij : i = j
  · subst hij
    simp
  · rw [if_neg hij]
    split
    · next hle => rw [List.getElem?_eq_none (by simp; omega), Option.getD_none]
    · rfl

theorem poke_of_le {i : Nat} (h : n ≤ i) (x : α) (b : Vector α n) : poke i x b = .error i := by
  rw [poke, dif_neg (by omega)]

theorem overlay_cons (i : Nat) (x : α) (xs : List α) (b : Vector α n) :
    overlay (i + 1) xs (overlay i [x] b) = overlay i (x :: xs) b := by
  ext j hj
  simp only [getElem_overlay]
  by_cases hlt : i + 1 ≤ j
  · obtain ⟨d, rfl⟩ := Nat.exists_eq_add_of_le hlt
    have hd : i + 1 + d - i = d + 1 := by omega
    rw [if_pos (by omega), if_pos (by omega), if_pos (by omega), hd]
    simp
  · rw [if_neg hlt]
    by_cases hij : i = j
    · subst hij
      simp
    · rw [if_neg (by omega), if_neg (by omega)]

/-- **In bounds.** A list that ends inside of the buffer is laid over it. -/
theorem pokes_of_le (xs : List α) : ∀ (i : Nat) (b : Vector α n), i + xs.length ≤ n →
    pokes i xs b = .ok (overlay i xs b) := by
  induction xs with
  | nil => intro i b _; rw [pokes, overlay_nil]
  | cons x xs ih =>
    intro i b h
    rw [List.length_cons] at h
    rw [pokes, poke_of_lt (by omega)]
    show pokes (i + 1) xs (overlay i [x] b) = _
    rw [ih (i + 1) _ (by omega), overlay_cons]

/-- **Out of bounds.** A list that begins in the buffer and does not end in it is stopped at the
    first position behind the buffer. -/
theorem pokes_of_lt (xs : List α) : ∀ (i : Nat) (b : Vector α n), i ≤ n → n < i + xs.length →
    pokes i xs b = .error n := by
  induction xs with
  | nil => intro i b hi h; simp at h; omega
  | cons x xs ih =>
    intro i b hi h
    rw [List.length_cons] at h
    rw [pokes]
    rcases Nat.lt_or_ge i n with hlt | hge
    · rw [poke_of_lt hlt]
      exact ih (i + 1) _ (by omega) (by omega)
    · rw [poke_of_le hge, Nat.le_antisymm hi hge]
      rfl

/-! ## What is read back -/

/-- What lies before the position is not touched. -/
theorem take_overlay_of_le {i m : Nat} (h : m ≤ i) (xs : List α) (b : Vector α n) :
    (overlay i xs b).toList.take m = b.toList.take m := by
  refine List.ext_getElem (by simp) fun j h₁ h₂ => ?_
  have hj : j < m := by simp at h₁; omega
  simp only [List.getElem_take, Vector.getElem_toList, getElem_overlay]
  rw [if_neg (by omega)]

/-- A list that is laid over the start of the buffer is what is read there. -/
theorem take_overlay_zero {xs : List α} {m : Nat} (h : m ≤ xs.length) (hm : m ≤ n)
    (b : Vector α n) : (overlay 0 xs b).toList.take m = xs.take m := by
  refine List.ext_getElem (by simp; omega) fun j h₁ h₂ => ?_
  have hj : j < xs.length := by simp at h₂; omega
  simp [getElem_overlay, hj]

theorem getElem?_overlay_self {i : Nat} (h : i < n) (x : α) (b : Vector α n) :
    (overlay i [x] b)[i]? = some x := by
  rw [Vector.getElem?_eq_getElem h, getElem_overlay]
  simp

theorem getElem?_overlay_of_lt {i j : Nat} {xs : List α} (hj : j < i ∨ i + xs.length ≤ j)
    (b : Vector α n) : (overlay i xs b)[j]? = b[j]? := by
  by_cases h : j < n
  · rw [Vector.getElem?_eq_getElem h, Vector.getElem?_eq_getElem h, getElem_overlay]
    rcases hj with hj | hj
    · rw [if_neg (by omega)]
    · rw [List.getElem?_eq_none (by omega), Option.getD_none, ite_self]
  · rw [Vector.getElem?_eq_none (by omega), Vector.getElem?_eq_none (by omega)]

/-- Two lists laid one behind the other are one. -/
theorem overlay_append (i : Nat) (xs ys : List α) (b : Vector α n) :
    overlay (i + xs.length) ys (overlay i xs b) = overlay i (xs ++ ys) b := by
  ext j hj
  simp only [getElem_overlay]
  by_cases hle : i + xs.length ≤ j
  · have hsub : j - (i + xs.length) = j - i - xs.length := by omega
    rw [if_pos hle, if_pos (by omega), if_pos (by omega), List.getElem?_append_right (by omega),
      List.getElem?_eq_none (by omega : xs.length ≤ j - i), Option.getD_none, hsub]
  · rw [if_neg hle]
    split
    · rw [List.getElem?_append_left (by omega)]
    · rfl

end Buffers
