import Mathlib

set_option autoImplicit false

/-! # Nested arrays

Values that are scalars or arrays of values, an array being a list of entries in the order of their
keys' first use. A path of keys leads to a value inside of another; setting the value at the end of a
path creates the arrays on the way, shares those that are there, and leaves alone what lies on paths
that part from it. -/

namespace NestedArrays

variable {κ σ : Type}

/-- A scalar or an array. -/
inductive Value (κ σ : Type)
  | scalar (s : σ)
  | array (entries : List (κ × Value κ σ))

variable [DecidableEq κ]

/-- The value of a key. -/
def lookup (k : κ) : List (κ × Value κ σ) → Option (Value κ σ)
  | [] => none
  | e :: es => if e.1 = k then some e.2 else lookup k es

/-- Enter a value under a key, in the place of the old one if there is one. -/
def update (k : κ) (x : Value κ σ) : List (κ × Value κ σ) → List (κ × Value κ σ)
  | [] => [(k, x)]
  | e :: es => if e.1 = k then (k, x) :: es else e :: update k x es

theorem lookup_update (k k' : κ) (x : Value κ σ) (es : List (κ × Value κ σ)) :
    lookup k' (update k x es) = if k = k' then some x else lookup k' es := by
  induction es with
  | nil => rfl
  | cons e es ih =>
    unfold update
    by_cases he : e.1 = k
    · rw [if_pos he, lookup, lookup, he]
      by_cases hk : k = k' <;> simp [hk]
    · rw [if_neg he, lookup, lookup, ih]
      by_cases hek : e.1 = k'
      · rw [if_pos hek, if_pos hek, if_neg fun hk => he (hek.trans hk.symm)]
      · rw [if_neg hek, if_neg hek]

namespace Value

/-- The entries; a scalar has none. -/
def entries : Value κ σ → List (κ × Value κ σ)
  | scalar _ => []
  | array es => es

/-- The value of a key in an array. -/
def find (v : Value κ σ) (k : κ) : Option (Value κ σ) := lookup k v.entries

/-- Enter a value; a scalar becomes an array. -/
def set (v : Value κ σ) (k : κ) (x : Value κ σ) : Value κ σ := array (update k x v.entries)

theorem find_set (v : Value κ σ) (k k' : κ) (x : Value κ σ) :
    (v.set k x).find k' = if k = k' then some x else v.find k' :=
  lookup_update k k' x v.entries

@[simp]
theorem find_set_self (v : Value κ σ) (k : κ) (x : Value κ σ) : (v.set k x).find k = some x := by
  rw [find_set, if_pos rfl]

/-- The value a path leads to. -/
def get : Value κ σ → List κ → Option (Value κ σ)
  | v, [] => some v
  | v, k :: ks => (v.find k).bind fun x => x.get ks

/-- Set the value at the end of a path. -/
def setPath : List κ → Value κ σ → Value κ σ → Value κ σ
  | [], x, _ => x
  | k :: ks, x, v => v.set k (setPath ks x ((v.find k).getD (array [])))

@[simp]
theorem get_nil (v : Value κ σ) : v.get [] = some v := by
  cases v <;> rfl

@[simp]
theorem get_cons (v : Value κ σ) (k : κ) (ks : List κ) :
    v.get (k :: ks) = (v.find k).bind fun x => x.get ks := by
  cases v <;> rfl

theorem get_empty {ks : List κ} (h : ks ≠ []) : (array [] : Value κ σ).get ks = none := by
  cases ks with
  | nil => exact absurd rfl h
  | cons k ks => simp [find, entries, lookup]

/-- **What was set is there.** -/
theorem get_setPath_self (ks : List κ) (x v : Value κ σ) : (setPath ks x v).get ks = some x := by
  induction ks generalizing v with
  | nil => simp [setPath]
  | cons k ks ih => simp [setPath, ih]

/-- **What lies on a path that parts from it is as it was.** -/
theorem get_setPath_of_parted {ks other : List κ} (x v : Value κ σ) (h₁ : ¬ks <+: other)
    (h₂ : ¬other <+: ks) : (setPath ks x v).get other = v.get other := by
  induction ks generalizing v other with
  | nil => exact absurd List.nil_prefix h₁
  | cons k ks ih =>
    cases other with
    | nil => exact absurd List.nil_prefix h₂
    | cons k' other =>
      rw [setPath, get_cons, get_cons, find_set]
      by_cases hk : k = k'
      · subst hk
        have hparts := fun w => @ih other w
          (fun hp => h₁ ((List.cons_prefix_cons).mpr ⟨rfl, hp⟩))
          (fun hp => h₂ ((List.cons_prefix_cons).mpr ⟨rfl, hp⟩))
        rw [if_pos rfl, Option.bind_some, hparts]
        cases hfind : v.find k with
        | some w => rfl
        | none =>
          have hother : other ≠ [] := by
            rintro rfl
            exact h₂ ((List.cons_prefix_cons).mpr ⟨rfl, List.nil_prefix⟩)
          exact get_empty hother
      · rw [if_neg hk]

/-! ## Keys -/

/-- All keys on paths through the value satisfy `P`. -/
def KeysIn (P : κ → Prop) (v : Value κ σ) : Prop := ∀ ks x, v.get ks = some x → ∀ k ∈ ks, P k

variable {P : κ → Prop}

theorem keysIn_scalar (s : σ) : KeysIn P (scalar s : Value κ σ) := by
  intro ks x h
  cases ks with
  | nil => simp
  | cons k ks => simp [find, entries, lookup] at h

/-- An array whose keys and values are all right. -/
theorem keysIn_array {es : List (κ × Value κ σ)} (h : ∀ e ∈ es, P e.1 ∧ KeysIn P e.2) :
    KeysIn P (array es) := by
  intro ks x hx
  cases ks with
  | nil => simp
  | cons k ks =>
    rw [get_cons, find, entries] at hx
    induction es with
    | nil => simp [lookup] at hx
    | cons e es ih =>
      by_cases he : e.1 = k
      · obtain ⟨hkey, hvalue⟩ := h e List.mem_cons_self
        rw [lookup, if_pos he, Option.bind_some] at hx
        intro k' hk'
        rcases List.mem_cons.mp hk' with rfl | hk'
        · exact he ▸ hkey
        · exact hvalue ks x hx k' hk'
      · rw [lookup, if_neg he] at hx
        exact ih (fun e' he' => h e' (List.mem_cons_of_mem e he')) hx

theorem keysIn_empty : KeysIn P (array [] : Value κ σ) :=
  keysIn_array fun _ he => absurd he List.not_mem_nil

/-- The keys of a value, and those below one of them. -/
theorem KeysIn.find {v x : Value κ σ} (h : v.KeysIn P) {k : κ} (hk : v.find k = some x) :
    P k ∧ x.KeysIn P := by
  constructor
  · exact h [k] x (by simp [hk]) k List.mem_cons_self
  · intro ks y hy k' hk'
    exact h (k :: ks) y (by simp [hk, hy]) k' (List.mem_cons_of_mem k hk')

theorem KeysIn.set {v x : Value κ σ} (h : v.KeysIn P) {k : κ} (hk : P k) (hx : x.KeysIn P) :
    (v.set k x).KeysIn P := by
  intro ks y hy
  cases ks with
  | nil => simp
  | cons k' ks =>
    rw [get_cons, find_set] at hy
    by_cases heq : k = k'
    · subst heq
      rw [if_pos rfl, Option.bind_some] at hy
      intro k'' hk''
      rcases List.mem_cons.mp hk'' with rfl | hk''
      · exact hk
      · exact hx ks y hy k'' hk''
    · rw [if_neg heq] at hy
      exact h (k' :: ks) y (by rw [get_cons, hy])

end Value

end NestedArrays
