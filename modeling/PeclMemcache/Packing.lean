import Mathlib

set_option autoImplicit false

/-! # Greedy packing

Items are put into bins one after the other: into the bin at hand as long as they fit, into a new one
otherwise. -/

namespace Packing

variable {α β γ : Type*}

/-- An empty bin, what becomes of a bin that an item is put into, and whether it has no room for one. -/
structure Packer (α β : Type*) where
  empty : β
  put : β → α → β
  full : β → α → Bool

/-- The closed bins, in order, and the bin at hand. -/
structure Bins (β : Type*) where
  closed : List β := []
  current : Option β := none

/-- All bins, in order. -/
def Bins.all (b : Bins β) : List β := b.closed ++ b.current.toList

/-- The bins seen as bins of another kind. -/
def Bins.map (f : β → γ) (b : Bins β) : Bins γ where
  closed := b.closed.map f
  current := b.current.map f

theorem Bins.all_map (f : β → γ) (b : Bins β) : (b.map f).all = b.all.map f := by
  obtain ⟨closed, _ | c⟩ := b
  · simp [Bins.map, Bins.all]
  · simp [Bins.map, Bins.all]

namespace Packer

variable (P : Packer α β)

/-- Pack an item. -/
def pack (b : Bins β) (x : α) : Bins β :=
  match b.current with
  | none => { b with current := some (P.put P.empty x) }
  | some c =>
    if P.full c x then { closed := b.closed ++ [c], current := some (P.put P.empty x) }
    else { b with current := some (P.put c x) }

/-- Pack items into no bins. -/
def packAll (items : List α) : Bins β := items.foldl P.pack {}

variable {P}

theorem packAll_append (items : List α) (x : α) :
    P.packAll (items ++ [x]) = P.pack (P.packAll items) x := by
  rw [packAll, List.foldl_append]
  rfl

/-! ## Closed bins -/

/-- A closed bin stays. -/
theorem closed_pack (b : Bins β) (x : α) : b.closed <+: (P.pack b x).closed := by
  unfold pack
  split
  · exact List.prefix_refl _
  · split
    · exact List.prefix_append _ _
    · exact List.prefix_refl _

theorem closed_foldl (items : List α) (b : Bins β) : b.closed <+: (items.foldl P.pack b).closed := by
  induction items generalizing b with
  | nil => exact List.prefix_refl _
  | cons x rest ih => exact (closed_pack b x).trans (ih _)

theorem closed_packAll_append (items items' : List α) :
    (P.packAll items).closed <+: (P.packAll (items ++ items')).closed := by
  rw [packAll, packAll, List.foldl_append]
  exact closed_foldl items' _

/-! ## What holds of every bin -/

theorem forall_pack {I : β → Prop} {b : Bins β} {x : α} (hstart : I (P.put P.empty x))
    (hput : ∀ c, I c → P.full c x = false → I (P.put c x)) (hb : ∀ c ∈ b.all, I c) :
    ∀ c ∈ (P.pack b x).all, I c := by
  intro c hc
  have hclosed (c : β) (hc : c ∈ b.closed) : I c := hb c (List.mem_append_left _ hc)
  unfold pack Bins.all at hc
  split at hc
  · rcases List.mem_append.mp hc with hc | hc
    · exact hclosed c hc
    · exact List.mem_singleton.mp hc ▸ hstart
  · next c₀ hcurrent =>
    have hc₀ : I c₀ := hb c₀ (List.mem_append_right _ (by simp [hcurrent]))
    split at hc
    · rcases List.mem_append.mp hc with hc | hc
      · rcases List.mem_append.mp hc with hc | hc
        · exact hclosed c hc
        · exact (List.mem_singleton.mp hc) ▸ hc₀
      · exact List.mem_singleton.mp hc ▸ hstart
    · next hroom =>
      rcases List.mem_append.mp hc with hc | hc
      · exact hclosed c hc
      · exact List.mem_singleton.mp hc ▸ hput c₀ hc₀ (Bool.eq_false_iff.mpr hroom)

/-- What holds of a bin with one item, and stays true while items fit, holds of every bin. -/
theorem forall_packAll {I : β → Prop} {items : List α} (hstart : ∀ x ∈ items, I (P.put P.empty x))
    (hput : ∀ x ∈ items, ∀ c, I c → P.full c x = false → I (P.put c x)) :
    ∀ c ∈ (P.packAll items).all, I c := by
  induction items using List.reverseRecOn with
  | nil => simp [packAll, Bins.all]
  | append_singleton items x ih =>
    rw [packAll_append]
    have hmem : x ∈ items ++ [x] := List.mem_append_right _ (List.mem_singleton.mpr rfl)
    refine forall_pack (hstart x hmem) (hput x hmem) (ih (fun y hy => ?_) fun y hy => ?_)
    · exact hstart y (List.mem_append_left _ hy)
    · exact hput y (List.mem_append_left _ hy)

/-! ## What the bins hold -/

/-- Bins that list their items hold what was packed, in order. -/
theorem flatten_packAll {full : List α → α → Bool} (items : List α) :
    (packAll { empty := [], put := fun c x => c ++ [x], full } items).all.flatten = items := by
  induction items using List.reverseRecOn with
  | nil => rfl
  | append_singleton items x ih =>
    rw [packAll_append]
    unfold pack
    split
    · next hnone =>
      rw [Bins.all, hnone] at ih
      simpa [Bins.all] using ih
    · next c hsome =>
      rw [Bins.all, hsome, Option.toList_some, List.flatten_append, List.flatten_singleton] at ih
      split
      · simp only [Bins.all, Option.toList_some, List.flatten_append, List.flatten_singleton,
          List.nil_append, ih]
      · simp only [Bins.all, Option.toList_some, List.flatten_append, List.flatten_singleton]
        rw [← List.append_assoc, ih]

/-! ## Other bins -/

variable {Q : Packer α γ} {f : β → γ}

theorem pack_map (hempty : Q.empty = f P.empty) (hput : ∀ c x, Q.put (f c) x = f (P.put c x))
    (hfull : ∀ c x, Q.full (f c) x = P.full c x) (b : Bins β) (x : α) :
    Q.pack (b.map f) x = (P.pack b x).map f := by
  unfold pack
  cases hcurrent : b.current with
  | none => simp [Bins.map, hcurrent, hempty, hput]
  | some c =>
    simp only [Bins.map, hcurrent, Option.map_some, hfull]
    split
    · simp [hempty, hput]
    · simp [hput]

/-- Packing the same items into bins of another kind. -/
theorem packAll_map (hempty : Q.empty = f P.empty) (hput : ∀ c x, Q.put (f c) x = f (P.put c x))
    (hfull : ∀ c x, Q.full (f c) x = P.full c x) (items : List α) :
    Q.packAll items = (P.packAll items).map f := by
  induction items using List.reverseRecOn with
  | nil => rfl
  | append_singleton items x ih => rw [packAll_append, packAll_append, ih, pack_map hempty hput hfull]

end Packer

end Packing
