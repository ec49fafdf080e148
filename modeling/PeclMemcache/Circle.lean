import Mathlib

set_option autoImplicit false

/-! # Points on a circle

Points of a linear order, each owned by somebody, are read as points on a circle: a position belongs to
the next point at or behind it, and behind the last point to the first one. Which point that is depends
on the set of points alone, and more points take positions over without moving any other. -/

namespace Circle

variable {α σ : Type*} [LinearOrder α]

/-- `p` is the next point of `S` at or behind `x`. -/
structure IsNext (S : Set α) (x p : α) : Prop where
  mem : p ∈ S
  next : ∀ q ∈ S, x ≤ q → x ≤ p ∧ p ≤ q
  wrap : (∀ q ∈ S, q < x) → ∀ q ∈ S, p ≤ q

theorem IsNext.unique {S : Set α} {x p p' : α} (h : IsNext S x p) (h' : IsNext S x p') : p = p' := by
  by_cases hbehind : ∃ q ∈ S, x ≤ q
  · obtain ⟨q, hq, hxq⟩ := hbehind
    have hp := (h.next q hq hxq).1
    have hp' := (h'.next q hq hxq).1
    exact le_antisymm (h.next p' h'.mem hp').2 (h'.next p h.mem hp).2
  · have hall : ∀ q ∈ S, q < x := fun q hq => lt_of_not_ge fun hxq => hbehind ⟨q, hq, hxq⟩
    exact le_antisymm (h.wrap hall p' h'.mem) (h'.wrap hall p h.mem)

/-- Points that are taken away do not move the next one, as long as it stays. -/
theorem IsNext.of_subset {S T : Set α} {x p : α} (h : IsNext T x p) (hsub : S ⊆ T) (hp : p ∈ S) :
    IsNext S x p where
  mem := hp
  next q hq := h.next q (hsub hq)
  wrap hall q hq := by
    refine h.wrap (fun t ht => lt_of_not_ge fun hxt => ?_) q (hsub hq)
    exact absurd (h.next t ht hxt).1 (not_le.mpr (hall p hp))

/-- `s` owns the point that the position `x` belongs to. -/
def Serves (R : Set (α × σ)) (x : α) (s : σ) : Prop :=
  ∃ p, IsNext (Prod.fst '' R) x p ∧ (p, s) ∈ R

/-- No point has two owners. -/
def OneOwner (R : Set (α × σ)) : Prop :=
  ∀ p s s', (p, s) ∈ R → (p, s') ∈ R → s = s'

theorem Serves.unique {R : Set (α × σ)} (hR : OneOwner R) {x : α} {s s' : σ} (h : Serves R x s)
    (h' : Serves R x s') : s = s' := by
  obtain ⟨p, hp, hs⟩ := h
  obtain ⟨p', hp', hs'⟩ := h'
  rw [← hp.unique hp'] at hs'
  exact hR p s s' hs hs'

/-- **More points only take positions over**: whom a position belongs to then owns a new point, or it
    was theirs before. -/
theorem Serves.of_superset {R R' : Set (α × σ)} {x : α} {s : σ} (h : Serves R' x s) (hsub : R ⊆ R') :
    (∃ p, (p, s) ∈ R' ∧ (p, s) ∉ R) ∨ Serves R x s := by
  obtain ⟨p, hp, hs⟩ := h
  by_cases hold : (p, s) ∈ R
  · exact Or.inr ⟨p, hp.of_subset (Set.image_mono hsub) ⟨_, hold, rfl⟩, hold⟩
  · exact Or.inl ⟨p, hs, hold⟩

end Circle
