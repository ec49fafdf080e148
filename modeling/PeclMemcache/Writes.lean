import Mathlib

set_option autoImplicit false

/-! # Maps made by writes

A map that is filled by writes, each replacing what an earlier one left under its key. The last write
to a key is what counts, so the order between writes to different keys does not matter. -/

namespace Writes

variable {ι κ α : Type} [DecidableEq ι] [DecidableEq κ]

/-- The map after the writes. -/
def writeAll (ws : List (κ × α)) : κ → Option α :=
  ws.foldl (fun a w => Function.update a w.1 (some w.2)) fun _ => none

theorem writeAll_concat (ws : List (κ × α)) (w : κ × α) :
    writeAll (ws ++ [w]) = Function.update (writeAll ws) w.1 (some w.2) := by
  simp [writeAll]

/-- A run whose steps each make at most one write. -/
theorem foldl_eq_writeAll {β : Type} {step : (κ → Option α) → β → κ → Option α}
    {write : β → Option (κ × α)}
    (hstep : ∀ a x, step a x = (write x).elim a fun w => Function.update a w.1 (some w.2)) (xs : List β) :
    xs.foldl step (fun _ => none) = writeAll (xs.filterMap write) := by
  induction xs using List.reverseRecOn with
  | nil => rfl
  | append_singleton xs x ih =>
    rw [List.foldl_append, List.foldl_cons, List.foldl_nil, List.filterMap_append, ih, hstep]
    cases hwrite : write x with
    | none => rw [List.filterMap_cons_none hwrite, List.filterMap_nil, List.append_nil]; rfl
    | some w =>
      rw [List.filterMap_cons_some hwrite, List.filterMap_nil]
      exact (writeAll_concat _ w).symm

/-- **The last write counts.** -/
theorem writeAll_apply (ws : List (κ × α)) (x : κ) :
    writeAll ws x = (ws.filter fun w => w.1 = x).getLast?.map Prod.snd := by
  induction ws using List.reverseRecOn with
  | nil => rfl
  | append_singleton ws w ih =>
    rw [writeAll_concat, List.filter_append]
    by_cases hw : w.1 = x
    · subst hw
      simp
    · rw [Function.update_of_ne (Ne.symm hw), ih]
      simp [hw]

theorem writeAll_cons (w : κ × α) (ws : List (κ × α)) (x : κ) :
    writeAll (w :: ws) x = (writeAll ws x).or (if w.1 = x then some w.2 else none) := by
  rw [writeAll_apply, writeAll_apply, List.filter_cons]
  by_cases hw : w.1 = x
  · rw [if_pos (by simpa using hw), if_pos hw, List.getLast?_cons]
    cases (ws.filter fun w => w.1 = x).getLast? <;> rfl
  · rw [if_neg (by simpa using hw), if_neg hw, Option.or_none]

theorem writeAll_eq_none_iff (ws : List (κ × α)) (x : κ) :
    writeAll ws x = none ↔ ∀ w ∈ ws, w.1 ≠ x := by
  rw [writeAll_apply, Option.map_eq_none_iff, List.getLast?_eq_none_iff, List.filter_eq_nil_iff]
  simp

theorem mem_of_writeAll {ws : List (κ × α)} {x : κ} {v : α} (h : writeAll ws x = some v) :
    (x, v) ∈ ws := by
  rw [writeAll_apply, Option.map_eq_some_iff] at h
  obtain ⟨w, hlast, rfl⟩ := h
  have hw := List.mem_filter.mp (List.mem_of_getLast? hlast)
  obtain rfl : w.1 = x := by simpa using hw.2
  exact hw.1

theorem exists_writeAll {ws : List (κ × α)} {w : κ × α} (h : w ∈ ws) :
    ∃ v, writeAll ws w.1 = some v := by
  refine Option.ne_none_iff_exists'.mp fun hnone => ?_
  exact (writeAll_eq_none_iff ws w.1).mp hnone w h rfl

/-- Writes that agree wherever they meet are all kept. -/
theorem writeAll_eq_some_iff {ws : List (κ × α)}
    (h : ∀ w ∈ ws, ∀ w' ∈ ws, w.1 = w'.1 → w.2 = w'.2) {x : κ} {v : α} :
    writeAll ws x = some v ↔ (x, v) ∈ ws := by
  constructor
  · exact mem_of_writeAll
  · intro hmem
    obtain ⟨v', hv'⟩ := exists_writeAll hmem
    have heq := h _ hmem _ (mem_of_writeAll hv') rfl
    dsimp only at heq hv'
    rw [hv', heq]

theorem writeAll_perm {ws ws' : List (κ × α)} (hperm : ws.Perm ws')
    (h : ∀ w ∈ ws, ∀ w' ∈ ws, w.1 = w'.1 → w.2 = w'.2) : writeAll ws = writeAll ws' := by
  have h' : ∀ w ∈ ws', ∀ w' ∈ ws', w.1 = w'.1 → w.2 = w'.2 :=
    fun w hw w' hw' => h w (hperm.mem_iff.mpr hw) w' (hperm.mem_iff.mpr hw')
  funext x
  refine Option.ext fun v => ?_
  rw [writeAll_eq_some_iff h, writeAll_eq_some_iff h', hperm.mem_iff]

/-- **Sources in any order.** Where every key has one source, the order between the writes of
    different sources makes no difference. -/
theorem writeAll_sources {ws ws' : List (ι × κ × α)}
    (hsame : ∀ i, ws.filter (fun w => w.1 = i) = ws'.filter fun w => w.1 = i)
    (hone : ∀ w ∈ ws, ∀ w' ∈ ws, w.2.1 = w'.2.1 → w.1 = w'.1) :
    writeAll (ws.map Prod.snd) = writeAll (ws'.map Prod.snd) := by
  have hmem : ∀ w, w ∈ ws ↔ w ∈ ws' := by
    intro w
    have h := congrArg (w ∈ ·) (hsame w.1)
    simpa using h
  funext x
  rw [writeAll_apply, writeAll_apply, List.filter_map, List.filter_map]
  -- the writes to `x` are those of its source
  have hfilter : ∀ us : List (ι × κ × α), (∀ w, w ∈ us ↔ w ∈ ws) → ∀ i,
      (∃ w ∈ ws, w.2.1 = x ∧ w.1 = i) →
      us.filter ((fun w : κ × α => decide (w.1 = x)) ∘ Prod.snd)
        = (us.filter fun w => w.1 = i).filter ((fun w : κ × α => decide (w.1 = x)) ∘ Prod.snd) := by
    rintro us hus i ⟨w, hw, hx, rfl⟩
    rw [List.filter_filter]
    refine List.filter_congr fun u hu => ?_
    simp only [Function.comp_apply, Bool.eq_self_and, decide_eq_true_eq]
    intro hux
    exact hone u ((hus u).mp hu) w hw (hux.trans hx.symm)
  by_cases hx : ∃ w ∈ ws, w.2.1 = x
  · obtain ⟨w, hw, hwx⟩ := hx
    rw [hfilter ws (fun _ => Iff.rfl) w.1 ⟨w, hw, hwx, rfl⟩,
      hfilter ws' (fun u => (hmem u).symm) w.1 ⟨w, hw, hwx, rfl⟩, hsame]
  · have hnil : ∀ us : List (ι × κ × α), (∀ w, w ∈ us ↔ w ∈ ws) →
        us.filter ((fun w : κ × α => decide (w.1 = x)) ∘ Prod.snd) = [] := by
      intro us hus
      rw [List.filter_eq_nil_iff]
      intro u hu
      simpa using fun h => hx ⟨u, (hus u).mp hu, h⟩
    rw [hnil ws fun _ => Iff.rfl, hnil ws' fun u => (hmem u).symm]

end Writes
