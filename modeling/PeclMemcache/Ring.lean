import Mathlib

set_option autoImplicit false

/-! # Rings of cells

A list of cells read as a ring: from a start on, and from the last cell on to the first. `Reads` says
which items lie there one behind the other. -/

namespace Ring

variable {β : Type*}

/-! ## Places -/

/-- The place `i` cells behind `start`. -/
def place (size start i : Nat) : Nat := if start + i < size then start + i else i - (size - start)

/-- The place behind `i`. -/
def next (size i : Nat) : Nat := if size ≤ i + 1 then 0 else i + 1

theorem place_zero {size start : Nat} (h : start < size) : place size start 0 = start := if_pos h

theorem place_lt {size start i : Nat} (hstart : start < size) (hi : i < size) :
    place size start i < size := by
  unfold place
  split <;> omega

/-- No place comes twice on the way round. -/
theorem place_inj {size start i j : Nat} (hstart : start < size) (hi : i < size) (hj : j < size)
    (h : place size start i = place size start j) : i = j := by
  unfold place at h
  split at h <;> split at h <;> omega

theorem next_lt {size i : Nat} (h : i < size) : next size i < size := by
  unfold next
  split <;> omega

theorem next_place {size start i : Nat} (hstart : start < size) (hi : i < size) :
    next size (place size start i) = place size start (i + 1) := by
  unfold next place
  split <;> split <;> split <;> omega

theorem place_next {size start i : Nat} (hstart : start < size) (hi : i < size) :
    place size (next size start) i = place size start (i + 1) := by
  unfold next place
  split <;> split <;> split <;> omega

/-! ## Items -/

/-- The items lie one behind the other, from `start` on. -/
def Reads (cells : List β) (start : Nat) (items : List β) : Prop :=
  ∀ i x, items[i]? = some x → cells[place cells.length start i]? = some x

variable {cells cells' items : List β} {start : Nat}

theorem Reads.nil (cells : List β) (start : Nat) : Reads cells start [] :=
  fun i x h => by simp at h

/-- An item more is written behind the last one. -/
theorem Reads.push (h : Reads cells start items) (hstart : start < cells.length)
    (hroom : items.length < cells.length) (x : β) :
    Reads (cells.set (place cells.length start items.length) x) start (items ++ [x]) := by
  intro i y hy
  have hi : i < items.length + 1 := by
    have := (List.getElem?_eq_some_iff.mp hy).1
    rwa [List.length_append, List.length_singleton] at this
  rw [List.length_set]
  rcases Nat.lt_succ_iff_lt_or_eq.mp hi with hlt | rfl
  · rw [List.getElem?_append_left hlt] at hy
    have hne : place cells.length start items.length ≠ place cells.length start i := by
      intro heq
      exact absurd (place_inj hstart hroom (by omega) heq) (by omega)
    rw [List.getElem?_set_ne hne]
    exact h i y hy
  · rw [List.getElem?_append_right (Nat.le_refl _), Nat.sub_self] at hy
    rw [List.getElem?_set_self (place_lt hstart hroom)]
    exact hy

/-- The first item is left behind. -/
theorem Reads.pop {x : β} (h : Reads cells start (x :: items)) (hstart : start < cells.length)
    (hroom : items.length < cells.length) : Reads cells (next cells.length start) items := by
  intro i y hy
  have hi : i < items.length := (List.getElem?_eq_some_iff.mp hy).1
  rw [place_next hstart (by omega)]
  exact h (i + 1) y hy

/-- A ring that starts at its first cell is extended at the end. -/
theorem Reads.extend (h : Reads cells 0 items) (hle : items.length ≤ cells.length)
    (more : List β) : Reads (cells ++ more) 0 items := by
  intro i y hy
  have hi : i < items.length := (List.getElem?_eq_some_iff.mp hy).1
  have hold := h i y hy
  have hplace {size : Nat} (hlt : i < size) : place size 0 i = i := by
    unfold place
    rw [if_pos (by omega), Nat.zero_add]
  rw [hplace (by omega)] at hold
  rw [hplace (by simp; omega), List.getElem?_append_left (by omega)]
  exact hold

/-- A full ring is cut open at its start, and the cells from there on are moved away by `k`. -/
theorem Reads.cutOpen {k : Nat} (h : Reads cells start items) (hstart : start < cells.length)
    (hle : items.length ≤ cells.length) (hlen : cells'.length = cells.length + k)
    (hbefore : ∀ j, j < start → cells'[j]? = cells[j]?)
    (hbehind : ∀ j, start ≤ j → j < cells.length → cells'[j + k]? = cells[j]?) :
    Reads cells' (start + k) items := by
  intro i y hy
  have hi : i < items.length := (List.getElem?_eq_some_iff.mp hy).1
  have hold := h i y hy
  rw [hlen]
  by_cases hlt : start + i < cells.length
  · have hplace : place cells.length start i = start + i := if_pos hlt
    have hplace' : place (cells.length + k) (start + k) i = start + i + k := by
      unfold place
      rw [if_pos (by omega)]
      omega
    rw [hplace', hbehind _ (Nat.le_add_right _ _) hlt, ← hplace]
    exact hold
  · have hplace : place cells.length start i = i - (cells.length - start) := if_neg hlt
    have hplace' : place (cells.length + k) (start + k) i = i - (cells.length - start) := by
      unfold place
      rw [if_neg (by omega)]
      congr 1
      omega
    rw [hplace', hbefore _ (by omega), ← hplace]
    exact hold

end Ring
