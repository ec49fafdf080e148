import PeclMemcache.Circle
import PeclMemcache.AsciiProtocol

set_option autoImplicit false

/-! # Consistent hashing

`memcache_consistent_hash.c`: every server owns points on a circle of 32-bit numbers, and a key belongs
to the next point behind its hash. The lookups are precomputed for 1024 positions, the first time a
server is asked for after the last one was added. -/

namespace PeclMemcache

open Circle

/-! ## The hash state -/

def MMC_CONSISTENT_POINTS : Nat := 160
def MMC_CONSISTENT_BUCKETS : Nat := 1024

/-- `mmc_hash_function_t`. -/
structure MmcHashFunction where
  init : UInt32
  combine : UInt32 → Bytes → UInt32
  finish : UInt32 → UInt32

/-- `mmc_hash`. -/
def mmcHash (hash : MmcHashFunction) (key : Bytes) : UInt32 :=
  hash.finish (hash.combine hash.init key)

/-- `mmc_consistent_point_t`. -/
structure MmcConsistentPoint where
  server : Mmc
  point : UInt32
  deriving DecidableEq, Repr

/-- `mmc_consistent_state_t`; `num_points` is the length of `points`, and `buckets` is empty until it is
    populated. -/
structure MmcConsistentState where
  numServers : Nat := 0
  points : List MmcConsistentPoint := []
  buckets : List Mmc := []
  bucketsPopulated : Bool := false
  deriving Repr

/-- `points[i]`, or nothing outside the array. -/
def pointAt (points : List MmcConsistentPoint) (i : Int) : Option MmcConsistentPoint :=
  if 0 ≤ i then points[i.toNat]? else none

/-- `mid ? state->points[mid-1].point : 0`. -/
def pointBefore (points : List MmcConsistentPoint) (mid : Int) : Option UInt32 :=
  if mid = 0 then some 0 else (pointAt points (mid - 1)).map (·.point)

/-- The loop of `mmc_consistent_find`, cut off after `fuel` turns. -/
def mmcConsistentFindFrom (points : List MmcConsistentPoint) (point : UInt32) :
    Nat → Int → Int → Option Mmc
  | 0, _, _ => none
  | fuel + 1, lo, hi => do
    let low ← pointAt points lo
    let high ← pointAt points hi
    if point ≤ low.point ∨ high.point < point then return low.server
    else
      let mid := lo + (hi - lo).tdiv 2
      let middle ← pointAt points mid
      let before ← pointBefore points mid
      if point ≤ middle.point ∧ before < point then return middle.server
      else if middle.point < point then mmcConsistentFindFrom points point fuel (mid + 1) hi
      else mmcConsistentFindFrom points point fuel lo (mid - 1)

/-- `mmc_consistent_find`. -/
def mmcConsistentFind (points : List MmcConsistentPoint) (point : UInt32) : Option Mmc :=
  mmcConsistentFindFrom points point (points.length + 1) 0 (points.length - 1)

/-- The distance of the precomputed positions. -/
def bucketStep : UInt32 := 0xffffffff / 1024

/-- `mmc_consistent_populate_buckets`. -/
def mmcConsistentPopulateBuckets (qsort : List MmcConsistentPoint → List MmcConsistentPoint)
    (state : MmcConsistentState) : Option MmcConsistentState := do
  let points := qsort state.points
  let buckets ← (List.range MMC_CONSISTENT_BUCKETS).mapM fun i =>
    mmcConsistentFind points (bucketStep * UInt32.ofNat i)
  return { state with points, buckets, bucketsPopulated := true }

/-- `if (!state->buckets_populated) mmc_consistent_populate_buckets(state)`. -/
def withBuckets (qsort : List MmcConsistentPoint → List MmcConsistentPoint)
    (state : MmcConsistentState) : Option MmcConsistentState :=
  if state.bucketsPopulated then some state else mmcConsistentPopulateBuckets qsort state

/-- `mmc_consistent_find_server`: the server, and the state with its buckets populated. -/
def mmcConsistentFindServer (qsort : List MmcConsistentPoint → List MmcConsistentPoint)
    (hash : MmcHashFunction) (state : MmcConsistentState) (key : Bytes) :
    Option (Mmc × MmcConsistentState) :=
  if 1 < state.numServers then do
    let state ← withBuckets qsort state
    let server ← state.buckets[(mmcHash hash key).toNat % MMC_CONSISTENT_BUCKETS]?
    return (server, state)
  else do
    let first ← pointAt state.points 0
    return (first.server, state)

/-- A server as it is added: its address and what its host and port are. -/
structure AddedServer where
  mmc : Mmc
  host : Bytes
  port : Nat
  deriving DecidableEq, Repr

/-- `points`, an `int` that is computed without a sign; there are no points if it becomes negative. -/
def pointCount (weight : Nat) : Nat :=
  let points := weight * MMC_CONSISTENT_POINTS % 2 ^ 32
  if points < 2 ^ 31 then points else 0

/-- The points that a server owns. -/
def serverPoints (hash : MmcHashFunction) (s : AddedServer) (weight : Nat) :
    List MmcConsistentPoint :=
  let seed := hash.combine hash.init (s.host ++ [58] ++ decimal s.port ++ [45])
  (List.range (pointCount weight)).map fun i =>
    { server := s.mmc, point := hash.finish (hash.combine seed (decimal i)) }

/-- `mmc_consistent_add_server`. -/
def mmcConsistentAddServer (hash : MmcHashFunction) (state : MmcConsistentState) (s : AddedServer)
    (weight : Nat) : MmcConsistentState :=
  { state with
    points := state.points ++ serverPoints hash s weight
    numServers := state.numServers + 1
    bucketsPopulated := false }

/-! ## The search -/

/-- The circle: its points, and who owns them. -/
def ring (points : List MmcConsistentPoint) : Set (Nat × Mmc) :=
  {r | ∃ p ∈ points, (p.point.toNat, p.server) = r}

/-- The order `qsort` puts the points in. -/
abbrev SortedPoints (points : List MmcConsistentPoint) : Prop :=
  points.Pairwise fun p q => p.point ≤ q.point

variable {points : List MmcConsistentPoint}

theorem mem_ring {r : Nat × Mmc} : r ∈ ring points ↔ ∃ p ∈ points, (p.point.toNat, p.server) = r :=
  Iff.rfl

theorem pointAt_natCast (i : Nat) : pointAt points i = points[i]? := by
  simp [pointAt]

theorem pointBefore_natCast {mid : Nat} {middle : MmcConsistentPoint}
    (hmiddle : points[mid]? = some middle) :
    ∃ before, pointBefore points mid = some before ∧
      (mid ≠ 0 → ∀ p, points[mid - 1]? = some p → p.point = before) := by
  cases mid with
  | zero => exact ⟨0, rfl, fun h => absurd rfl h⟩
  | succ mid =>
    obtain ⟨hlt, -⟩ := List.getElem?_eq_some_iff.mp hmiddle
    have hprevious : points[mid]? = some points[mid] := List.getElem?_eq_getElem (by omega)
    have hpred : ((mid + 1 : Nat) : Int) - 1 = mid := by omega
    refine ⟨points[mid].point, ?_, ?_⟩
    · rw [pointBefore, if_neg (by omega), hpred, pointAt_natCast, hprevious]
      rfl
    · intro _ p hp
      rw [Nat.add_sub_cancel, hprevious] at hp
      rw [Option.some.inj hp]

theorem point_le (hsorted : SortedPoints points) {i j : Nat} (hij : i ≤ j) {p q : MmcConsistentPoint}
    (hp : points[i]? = some p) (hq : points[j]? = some q) : p.point.toNat ≤ q.point.toNat := by
  obtain ⟨hi, rfl⟩ := List.getElem?_eq_some_iff.mp hp
  obtain ⟨hj, rfl⟩ := List.getElem?_eq_some_iff.mp hq
  rcases Nat.lt_or_eq_of_le hij with hlt | rfl
  · exact UInt32.le_iff_toNat_le.mp (List.pairwise_iff_getElem.mp hsorted i j hi hj hlt)
  · exact Nat.le_refl _

/-- The first point at or behind `x`. -/
theorem serves_first (hsorted : SortedPoints points) {x : UInt32} {j : Nat} {q : MmcConsistentPoint}
    (hq : points[j]? = some q) (hx : x ≤ q.point)
    (hbelow : ∀ i < j, ∀ p, points[i]? = some p → p.point < x) :
    Serves (ring points) x.toNat q.server := by
  have hmem : q ∈ points := List.mem_of_getElem? hq
  refine ⟨q.point.toNat, ⟨⟨_, ⟨q, hmem, rfl⟩, rfl⟩, ?_, ?_⟩, ⟨q, hmem, rfl⟩⟩
  · rintro _ ⟨_, ⟨p, hp, rfl⟩, rfl⟩ hxp
    refine ⟨UInt32.le_iff_toNat_le.mp hx, ?_⟩
    obtain ⟨i, hi⟩ := List.mem_iff_getElem?.mp hp
    have hji : j ≤ i := by
      by_contra hlt
      have hlow := UInt32.lt_iff_toNat_lt.mp (hbelow i (Nat.lt_of_not_le hlt) p hi)
      exact absurd hxp (Nat.not_le_of_lt hlow)
    exact point_le hsorted hji hq hi
  · intro hall
    have hlow := hall _ ⟨_, ⟨q, hmem, rfl⟩, rfl⟩
    exact absurd (UInt32.le_iff_toNat_le.mp hx) (Nat.not_le_of_lt hlow)

/-- The first point of all, behind all points. -/
theorem serves_wrap (hsorted : SortedPoints points) {x : UInt32} {q last : MmcConsistentPoint}
    (hq : points[0]? = some q) (hlast : points[points.length - 1]? = some last)
    (hx : last.point < x) : Serves (ring points) x.toNat q.server := by
  have hmem : q ∈ points := List.mem_of_getElem? hq
  refine ⟨q.point.toNat, ⟨⟨_, ⟨q, hmem, rfl⟩, rfl⟩, ?_, ?_⟩, ⟨q, hmem, rfl⟩⟩
  · rintro _ ⟨_, ⟨p, hp, rfl⟩, rfl⟩ hxp
    obtain ⟨i, hi⟩ := List.mem_iff_getElem?.mp hp
    obtain ⟨hlt, -⟩ := List.getElem?_eq_some_iff.mp hi
    have hle := point_le hsorted (Nat.le_sub_one_of_lt hlt) hi hlast
    have hlast' := UInt32.lt_iff_toNat_lt.mp hx
    exact absurd (Nat.le_trans hxp hle) (Nat.not_le_of_lt hlast')
  · rintro _ _ ⟨_, ⟨p, hp, rfl⟩, rfl⟩
    obtain ⟨i, hi⟩ := List.mem_iff_getElem?.mp hp
    exact point_le hsorted (Nat.zero_le i) hq hi

/-- **The search ends at the next point.** All points in front of the interval are below `x`, and its
    last one is not, unless the search has only begun. -/
theorem findFrom_serves (hsorted : SortedPoints points) (x : UInt32) :
    ∀ fuel lo hi : Nat, lo ≤ hi → hi < points.length → hi - lo < fuel →
      (∀ i < lo, ∀ p, points[i]? = some p → p.point < x) →
      ((∃ p, points[hi]? = some p ∧ x ≤ p.point) ∨ lo = 0 ∧ hi = points.length - 1) →
      ∃ m, mmcConsistentFindFrom points x fuel lo hi = some m ∧ Serves (ring points) x.toNat m := by
  intro fuel
  induction fuel with
  | zero => intro lo hi _ _ h; exact absurd h (Nat.not_lt_zero _)
  | succ fuel ih =>
    intro lo hi hle hlt hfuel hbelow habove
    obtain ⟨low, hlow⟩ : ∃ p, points[lo]? = some p := ⟨_, List.getElem?_eq_getElem (by omega)⟩
    obtain ⟨high, hhigh⟩ : ∃ p, points[hi]? = some p := ⟨_, List.getElem?_eq_getElem hlt⟩
    rw [mmcConsistentFindFrom, pointAt_natCast, pointAt_natCast, hlow, hhigh]
    simp only [Option.bind_eq_bind, Option.bind_some]
    by_cases hends : x ≤ low.point ∨ high.point < x
    · rw [if_pos hends]
      refine ⟨low.server, rfl, ?_⟩
      rcases hends with hx | hx
      · exact serves_first hsorted hlow hx hbelow
      · rcases habove with ⟨p, hp, hxp⟩ | ⟨rfl, rfl⟩
        · obtain rfl := Option.some.inj (hhigh.symm.trans hp)
          exact absurd (UInt32.le_iff_toNat_le.mp hxp) (Nat.not_le_of_lt (UInt32.lt_iff_toNat_lt.mp hx))
        · exact serves_wrap hsorted hlow hhigh hx
    · rw [if_neg hends]
      rw [not_or, UInt32.not_le, UInt32.not_lt] at hends
      obtain ⟨hlowx, hxhigh⟩ := hends
      -- The interval has two points at least, and the middle is not its end.
      have hlohi : lo < hi := by
        refine Nat.lt_of_le_of_ne hle fun heq => ?_
        subst heq
        obtain rfl := Option.some.inj (hlow.symm.trans hhigh)
        exact absurd (UInt32.lt_iff_toNat_lt.mp hlowx)
          (Nat.not_lt_of_le (UInt32.le_iff_toNat_le.mp hxhigh))
      have hmid : (lo : Int) + ((hi : Int) - lo).tdiv 2 = ((lo + (hi - lo) / 2 : Nat) : Int) := by
        rw [Int.tdiv_eq_ediv_of_nonneg (by omega)]
        omega
      rw [hmid, pointAt_natCast]
      generalize hm : lo + (hi - lo) / 2 = mid
      obtain ⟨middle, hmiddle⟩ : ∃ p, points[mid]? = some p :=
        ⟨_, List.getElem?_eq_getElem (by omega)⟩
      obtain ⟨before, hbefore, hprevious⟩ := pointBefore_natCast hmiddle
      rw [hmiddle, hbefore]
      simp only [Option.bind_some]
      by_cases hup : middle.point < x
      · -- Too low: all points up to the middle are.
        have hmiss : ¬ (x ≤ middle.point ∧ before < x) := fun h =>
          absurd (UInt32.le_iff_toNat_le.mp h.1) (Nat.not_le_of_lt (UInt32.lt_iff_toNat_lt.mp hup))
        rw [if_neg hmiss, if_pos hup]
        refine ih (mid + 1) hi (by omega) hlt (by omega) ?_ (Or.inl ⟨high, hhigh, hxhigh⟩)
        intro i hi' p hp
        have hle' := point_le hsorted (Nat.le_of_lt_succ hi') hp hmiddle
        exact UInt32.lt_iff_toNat_lt.mpr (Nat.lt_of_le_of_lt hle' (UInt32.lt_iff_toNat_lt.mp hup))
      · have hxmiddle : x ≤ middle.point := UInt32.not_lt.mp hup
        have hlomid : lo ≠ mid := by
          rintro rfl
          obtain rfl := Option.some.inj (hlow.symm.trans hmiddle)
          exact hup hlowx
        obtain ⟨p, hp⟩ : ∃ p, points[mid - 1]? = some p := ⟨_, List.getElem?_eq_getElem (by omega)⟩
        obtain rfl := hprevious (by omega) p hp
        by_cases hperfect : p.point < x
        · rw [if_pos ⟨hxmiddle, hperfect⟩]
          refine ⟨middle.server, rfl, serves_first hsorted hmiddle hxmiddle ?_⟩
          intro i hi' p' hp'
          have hle' := point_le hsorted (Nat.le_sub_one_of_lt hi') hp' hp
          exact UInt32.lt_iff_toNat_lt.mpr
            (Nat.lt_of_le_of_lt hle' (UInt32.lt_iff_toNat_lt.mp hperfect))
        · have hpred : (mid : Int) - 1 = ((mid - 1 : Nat) : Int) := by omega
          rw [if_neg (fun h => hperfect h.2), if_neg hup, hpred]
          exact ih lo (mid - 1) (by omega) (by omega) (by omega) hbelow
            (Or.inl ⟨p, hp, UInt32.not_lt.mp hperfect⟩)

theorem find_serves (hsorted : SortedPoints points) (hne : points ≠ []) (x : UInt32) :
    ∃ m, mmcConsistentFind points x = some m ∧ Serves (ring points) x.toNat m := by
  have hpos : 0 < points.length := List.length_pos_iff.mpr hne
  have hlast : ((points.length : Int) - 1) = ((points.length - 1 : Nat) : Int) := by omega
  rw [mmcConsistentFind, hlast]
  exact findFrom_serves hsorted x _ 0 _ (Nat.zero_le _) (by omega) (by omega)
    (fun i hi => absurd hi (Nat.not_lt_zero i)) (Or.inr ⟨rfl, rfl⟩)

/-! ## The lookup table -/

/-- Whom the precomputed positions belong to. -/
structure TableOf (R : Set (Nat × Mmc)) (table : List Mmc) : Prop where
  length : table.length = MMC_CONSISTENT_BUCKETS
  serves : ∀ i m, table[i]? = some m → Serves R (bucketStep * UInt32.ofNat i).toNat m

theorem TableOf.unique {R : Set (Nat × Mmc)} (hR : OneOwner R) {table table' : List Mmc}
    (h : TableOf R table) (h' : TableOf R table') : table = table' := by
  refine List.ext_getElem (h.length.trans h'.length.symm) fun i hi hi' => ?_
  exact (h.serves i _ (List.getElem?_eq_getElem hi)).unique hR
    (h'.serves i _ (List.getElem?_eq_getElem hi'))

/-- **A new server takes positions over, and nobody else does.** -/
theorem TableOf.remap {R R' : Set (Nat × Mmc)} (hR : OneOwner R') (hsub : R ⊆ R') {s : Mmc}
    (hnew : ∀ r ∈ R', r ∉ R → r.2 = s) {table table' : List Mmc} (h : TableOf R table)
    (h' : TableOf R' table') {i : Nat} {m m' : Mmc} (hm : table[i]? = some m)
    (hm' : table'[i]? = some m') : m' = m ∨ m' = s := by
  rcases (h'.serves i m' hm').of_superset hsub with ⟨p, hp, hpnew⟩ | hold
  · exact Or.inr (hnew _ hp hpnew)
  · have hR₀ : OneOwner R := fun p s s' hs hs' => hR p s s' (hsub hs) (hsub hs')
    exact Or.inl (hold.unique hR₀ (h.serves i m hm))

/-- A `qsort` sorts, one way or another. -/
structure Sorts (qsort : List MmcConsistentPoint → List MmcConsistentPoint) : Prop where
  perm : ∀ points, (qsort points).Perm points
  sorted : ∀ points, SortedPoints (qsort points)

theorem ring_perm {points points' : List MmcConsistentPoint} (h : points.Perm points') :
    ring points = ring points' := by
  ext r
  simp only [mem_ring, h.mem_iff]

theorem mapM_of_forall_some {α β : Type} {f : α → Option β} {P : α → β → Prop}
    (h : ∀ x, ∃ y, f x = some y ∧ P x y) (xs : List α) :
    ∃ ys, xs.mapM f = some ys ∧ List.Forall₂ P xs ys := by
  induction xs with
  | nil => exact ⟨[], rfl, .nil⟩
  | cons x xs ih =>
    obtain ⟨y, hy, hP⟩ := h x
    obtain ⟨ys, hys, hPs⟩ := ih
    exact ⟨y :: ys, by simp [hy, hys], .cons hP hPs⟩

theorem populate_spec {qsort : List MmcConsistentPoint → List MmcConsistentPoint}
    (hqsort : Sorts qsort) {state : MmcConsistentState} (hne : state.points ≠ []) :
    ∃ state', mmcConsistentPopulateBuckets qsort state = some state' ∧
      state'.points.Perm state.points ∧ state'.numServers = state.numServers ∧
      state'.bucketsPopulated = true ∧ TableOf (ring state.points) state'.buckets := by
  have hsorted := hqsort.sorted state.points
  have hperm := hqsort.perm state.points
  have hne' : qsort state.points ≠ [] := fun h => hne (List.nil_perm.mp (h ▸ hperm))
  obtain ⟨table, htable, hserves⟩ := mapM_of_forall_some
    (fun i => find_serves hsorted hne' (bucketStep * UInt32.ofNat i))
    (List.range MMC_CONSISTENT_BUCKETS)
  rw [ring_perm hperm] at hserves
  refine ⟨{ state with points := qsort state.points, buckets := table, bucketsPopulated := true },
    ?_, hperm, rfl, rfl, ?_, ?_⟩
  · simp only [mmcConsistentPopulateBuckets, htable, Option.bind_eq_bind, Option.bind_some]
    rfl
  · rw [← hserves.length_eq, List.length_range]
  · intro i m hm
    obtain ⟨hi, rfl⟩ := List.getElem?_eq_some_iff.mp hm
    have hi' : i < (List.range MMC_CONSISTENT_BUCKETS).length := by rwa [hserves.length_eq]
    have := hserves.get hi' hi
    simpa using this

/-! ## Runs -/

/-- The calls of the strategy that change its state. -/
inductive HashCall
  | addServer (s : AddedServer) (weight : Nat)
  | findServer (key : Bytes)
  deriving DecidableEq, Repr

def HashCall.run (qsort : List MmcConsistentPoint → List MmcConsistentPoint) (hash : MmcHashFunction)
    (state : MmcConsistentState) : HashCall → Option MmcConsistentState
  | .addServer s weight => some (mmcConsistentAddServer hash state s weight)
  | .findServer key => (mmcConsistentFindServer qsort hash state key).map Prod.snd

/-- A sequence of calls on a new state. -/
def runHashCalls (qsort : List MmcConsistentPoint → List MmcConsistentPoint) (hash : MmcHashFunction)
    (calls : List HashCall) : Option MmcConsistentState :=
  calls.foldlM (HashCall.run qsort hash) {}

/-- The servers and the weights of the calls. -/
def addedServers (calls : List HashCall) : List (AddedServer × Nat) :=
  calls.filterMap fun call => match call with
    | .addServer s weight => some (s, weight)
    | .findServer _ => none

/-- The circle of the servers. -/
def ringOf (hash : MmcHashFunction) (adds : List (AddedServer × Nat)) : Set (Nat × Mmc) :=
  ring (adds.flatMap fun a => serverPoints hash a.1 a.2)

/-- The table the next lookup uses. -/
def nextTable (qsort : List MmcConsistentPoint → List MmcConsistentPoint)
    (state : MmcConsistentState) : Option (List Mmc) := (withBuckets qsort state).map (·.buckets)

/-- The server a key belongs to. -/
def serverOf (qsort : List MmcConsistentPoint → List MmcConsistentPoint) (hash : MmcHashFunction)
    (state : MmcConsistentState) (key : Bytes) : Option Mmc :=
  (mmcConsistentFindServer qsort hash state key).map Prod.fst

/-- A state and the servers that were added to it. -/
structure StateOf (hash : MmcHashFunction) (adds : List (AddedServer × Nat))
    (state : MmcConsistentState) : Prop where
  points : state.points.Perm (adds.flatMap fun a => serverPoints hash a.1 a.2)
  numServers : state.numServers = adds.length
  buckets : state.bucketsPopulated = true → TableOf (ringOf hash adds) state.buckets

section Runs

variable {hash : MmcHashFunction} {adds : List (AddedServer × Nat)} {state : MmcConsistentState}
  {qsort : List MmcConsistentPoint → List MmcConsistentPoint}

theorem StateOf.addServer (h : StateOf hash adds state) (s : AddedServer) (weight : Nat) :
    StateOf hash (adds ++ [(s, weight)]) (mmcConsistentAddServer hash state s weight) where
  points := by
    rw [List.flatMap_append, List.flatMap_singleton]
    exact h.points.append (List.Perm.refl _)
  numServers := by
    rw [List.length_append]
    exact congrArg (· + 1) h.numServers
  buckets := by
    intro hpopulated
    cases hpopulated

/-- Populating the buckets, if they are not, does not change whose state it is. -/
theorem StateOf.populate (hqsort : Sorts qsort) (h : StateOf hash adds state)
    (hne : state.points ≠ []) :
    ∃ state', withBuckets qsort state = some state' ∧ StateOf hash adds state' ∧
      TableOf (ringOf hash adds) state'.buckets := by
  by_cases hpopulated : state.bucketsPopulated = true
  · exact ⟨state, if_pos hpopulated, h, h.buckets hpopulated⟩
  · obtain ⟨state', hstate', hperm, hnum, -, htable⟩ := populate_spec hqsort hne
    rw [ring_perm h.points] at htable
    exact ⟨state', (if_neg hpopulated).trans hstate',
      ⟨hperm.trans h.points, hnum.trans h.numServers, fun _ => htable⟩, htable⟩

/-- **A lookup gives the server of one of the buckets**, or the only server there is. -/
theorem StateOf.findServer (hqsort : Sorts qsort) (h : StateOf hash adds state)
    (hne : state.points ≠ []) (key : Bytes) :
    ∃ m state', mmcConsistentFindServer qsort hash state key = some (m, state') ∧
      StateOf hash adds state' ∧ state'.points ≠ [] ∧
      ((1 < adds.length ∧ ∃ table, nextTable qsort state = some table ∧
          table[(mmcHash hash key).toNat % MMC_CONSISTENT_BUCKETS]? = some m) ∨
        adds.length ≤ 1 ∧ ∃ p ∈ state.points, p.server = m) := by
  unfold mmcConsistentFindServer
  rw [h.numServers]
  by_cases hmany : 1 < adds.length
  · obtain ⟨state', hstate', h', htable⟩ := h.populate hqsort hne
    have hne' : state'.points ≠ [] := fun hnil =>
      hne (List.nil_perm.mp (hnil ▸ h'.points.trans h.points.symm))
    have hlt : (mmcHash hash key).toNat % MMC_CONSISTENT_BUCKETS < state'.buckets.length := by
      rw [htable.length]
      exact Nat.mod_lt _ (by decide)
    have hget := List.getElem?_eq_getElem hlt
    rw [if_pos hmany, hstate']
    simp only [Option.bind_eq_bind, Option.bind_some, hget]
    exact ⟨_, _, rfl, h', hne', Or.inl ⟨hmany, _, by rw [nextTable, hstate']; rfl, hget⟩⟩
  · obtain ⟨p, rest, hp⟩ := List.exists_cons_of_ne_nil hne
    have hfirst : pointAt state.points 0 = some p := by simp [pointAt, hp]
    rw [if_neg hmany, hfirst]
    refine ⟨p.server, state, rfl, h, hne, Or.inr ⟨Nat.le_of_not_lt hmany, p, ?_, rfl⟩⟩
    rw [hp]
    exact List.mem_cons_self ..

theorem runHashCalls_spec (hqsort : Sorts qsort) (calls : List HashCall) :
    ∀ {adds : List (AddedServer × Nat)} {state : MmcConsistentState}, StateOf hash adds state →
      state.points ≠ [] → ∃ state', calls.foldlM (HashCall.run qsort hash) state = some state' ∧
        StateOf hash (adds ++ addedServers calls) state' ∧ state'.points ≠ [] := by
  induction calls with
  | nil =>
    intro adds state h hne
    exact ⟨state, rfl, by simpa [addedServers] using h, hne⟩
  | cons call calls ih =>
    intro adds state h hne
    cases call with
    | addServer s weight =>
      obtain ⟨state', hrun, h', hne'⟩ := ih (h.addServer s weight)
        (List.append_ne_nil_of_left_ne_nil hne _)
      refine ⟨state', hrun, ?_, hne'⟩
      rwa [List.append_assoc] at h'
    | findServer key =>
      obtain ⟨m, state₁, hfind, h₁, hne₁, -⟩ := h.findServer hqsort hne key
      obtain ⟨state', hrun, h', hne'⟩ := ih h₁ hne₁
      refine ⟨state', ?_, h', hne'⟩
      rw [List.foldlM_cons, HashCall.run, hfind]
      exact hrun

/-- The state after calls that begin with a server. -/
theorem runHashCalls_stateOf (hqsort : Sorts qsort) {s : AddedServer} {weight : Nat}
    (hpoints : serverPoints hash s weight ≠ []) (calls : List HashCall) :
    ∃ state, runHashCalls qsort hash (.addServer s weight :: calls) = some state ∧
      StateOf hash (addedServers (.addServer s weight :: calls)) state ∧ state.points ≠ [] := by
  have hnew : StateOf hash [] {} := ⟨List.Perm.refl _, rfl, fun h => by cases h⟩
  exact runHashCalls_spec hqsort calls (hnew.addServer s weight) (by simpa [mmcConsistentAddServer])

theorem serverPoints_server {s : AddedServer} {weight : Nat} (p : MmcConsistentPoint)
    (hp : p ∈ serverPoints hash s weight) : p.server = s.mmc := by
  obtain ⟨i, -, rfl⟩ := List.mem_map.mp hp
  rfl

theorem serverPoints_ne_nil {s : AddedServer} {weight : Nat} (hpos : 0 < weight)
    (hfits : weight * MMC_CONSISTENT_POINTS < 2 ^ 31) : serverPoints hash s weight ≠ [] := by
  have hcount : pointCount weight = weight * MMC_CONSISTENT_POINTS := by
    rw [pointCount, Nat.mod_eq_of_lt (by omega), if_pos hfits]
  have hmany : 0 < weight * MMC_CONSISTENT_POINTS := Nat.mul_pos hpos (by decide)
  rw [Ne, ← List.length_eq_zero_iff, serverPoints, List.length_map, List.length_range, hcount]
  omega

/-- The points of a circle with a server added last. -/
theorem ringOf_append (s : AddedServer) (weight : Nat) :
    ringOf hash adds ⊆ ringOf hash (adds ++ [(s, weight)]) ∧
      ∀ r ∈ ringOf hash (adds ++ [(s, weight)]), r ∉ ringOf hash adds → r.2 = s.mmc := by
  have happend : (adds ++ [(s, weight)]).flatMap (fun a => serverPoints hash a.1 a.2)
      = adds.flatMap (fun a => serverPoints hash a.1 a.2) ++ serverPoints hash s weight := by
    rw [List.flatMap_append, List.flatMap_singleton]
  constructor
  · rintro r ⟨p, hp, rfl⟩
    exact ⟨p, happend ▸ List.mem_append_left _ hp, rfl⟩
  · rintro r ⟨p, hp, rfl⟩ hnew
    rw [happend, List.mem_append] at hp
    rcases hp with hp | hp
    · exact absurd ⟨p, hp, rfl⟩ hnew
    · exact serverPoints_server p hp

theorem StateOf.nextTable (hqsort : Sorts qsort) (h : StateOf hash adds state)
    (hne : state.points ≠ []) :
    ∃ table, nextTable qsort state = some table ∧ TableOf (ringOf hash adds) table := by
  obtain ⟨state', hstate', -, htable⟩ := h.populate hqsort hne
  exact ⟨state'.buckets, by rw [PeclMemcache.nextTable, hstate']; rfl, htable⟩

/-- A key keeps its server or moves to the new one. -/
theorem StateOf.serverOf_addServer {qsort' : List MmcConsistentPoint → List MmcConsistentPoint}
    (hqsort : Sorts qsort) (hqsort' : Sorts qsort') (h : StateOf hash adds state)
    (hne : state.points ≠ []) (hadds : adds ≠ []) {s : AddedServer} {weight : Nat}
    (hR : OneOwner (ringOf hash (adds ++ [(s, weight)]))) {key : Bytes} {m m' : Mmc}
    (hm : serverOf qsort hash state key = some m)
    (hm' : serverOf qsort' hash (mmcConsistentAddServer hash state s weight) key = some m') :
    m' = m ∨ m' = s.mmc := by
  have h' := h.addServer s weight
  have hne' : (mmcConsistentAddServer hash state s weight).points ≠ [] :=
    List.append_ne_nil_of_left_ne_nil hne _
  obtain ⟨hsub, hnew⟩ := @ringOf_append hash adds s weight
  obtain ⟨n, _, hfind, -, -, hn⟩ := h.findServer hqsort hne key
  obtain ⟨n', _, hfind', -, -, hn'⟩ := h'.findServer hqsort' hne' key
  rw [serverOf, hfind] at hm
  rw [serverOf, hfind'] at hm'
  cases hm
  cases hm'
  have hmany : 1 < (adds ++ [(s, weight)]).length := by
    have := List.length_pos_iff.mpr hadds
    simp only [List.length_append, List.length_singleton]
    omega
  obtain ⟨table', hnext', hTable'⟩ := h'.nextTable hqsort' hne'
  rcases hn' with ⟨-, _, hnext'', hget'⟩ | ⟨hone, -⟩
  · rw [hnext'] at hnext''
    cases hnext''
    rcases hn with ⟨-, table, hnext, hget⟩ | ⟨hone, p, hp, rfl⟩
    · obtain ⟨_, hnext₀, hTable⟩ := h.nextTable hqsort hne
      rw [hnext] at hnext₀
      cases hnext₀
      exact hTable.remap hR hsub hnew hTable' hget hget'
    · -- There was one server, which owned all points.
      rcases (hTable'.serves _ _ hget').of_superset hsub with ⟨q, hq, hqnew⟩ | ⟨q, -, hq⟩
      · exact Or.inr (hnew _ hq hqnew)
      · left
        obtain ⟨a, rfl⟩ := List.length_eq_one_iff.mp
          (Nat.le_antisymm hone (List.length_pos_iff.mpr hadds))
        have hp' := h.points.mem_iff.mp hp
        rw [List.flatMap_singleton] at hp'
        obtain ⟨q', hq', heq⟩ := hq
        rw [List.flatMap_singleton] at hq'
        have hn : q'.server = n' := congrArg Prod.snd heq
        show n' = p.server
        rw [serverPoints_server p hp', ← hn, serverPoints_server q' hq']
  · omega

end Runs

/-- What is asked of a state with the servers `adds`: every search ends at the next point, the table
    depends on the set of servers alone, and a further server changes only what becomes its own. The two
    sorts may leave points that are equal in different orders. -/
structure HashesConsistently (hash : MmcHashFunction)
    (qsort qsort' : List MmcConsistentPoint → List MmcConsistentPoint)
    (adds : List (AddedServer × Nat)) (state : MmcConsistentState) : Prop where
  search : ∀ x, ∃ m, mmcConsistentFind (qsort state.points) x = some m ∧
    Serves (ringOf hash adds) x.toNat m
  lookup : ∀ key, (serverOf qsort hash state key).isSome
  table : ∃ table, nextTable qsort state = some table ∧ table.length = MMC_CONSISTENT_BUCKETS
  order : OneOwner (ringOf hash adds) → ∀ s weight calls,
    (addedServers (.addServer s weight :: calls)).Perm adds →
      ∃ state', runHashCalls qsort' hash (.addServer s weight :: calls) = some state' ∧
        nextTable qsort' state' = nextTable qsort state
  remapTable : ∀ s weight, OneOwner (ringOf hash (adds ++ [(s, weight)])) →
    ∀ table table' : List Mmc, nextTable qsort state = some table →
      nextTable qsort' (mmcConsistentAddServer hash state s weight) = some table' →
      ∀ (i : Nat) (m m' : Mmc), table[i]? = some m → table'[i]? = some m' → m' = m ∨ m' = s.mmc
  remapKey : ∀ s weight, OneOwner (ringOf hash (adds ++ [(s, weight)])) →
    ∀ key m m', serverOf qsort hash state key = some m →
      serverOf qsort' hash (mmcConsistentAddServer hash state s weight) key = some m' →
      m' = m ∨ m' = s.mmc

/-- **Consistent hashing.** After any calls that begin with a server, the state hashes
    consistently. -/
theorem runHashCalls_hashesConsistently (hash : MmcHashFunction)
    {qsort qsort' : List MmcConsistentPoint → List MmcConsistentPoint} (hqsort : Sorts qsort)
    (hqsort' : Sorts qsort') (s : AddedServer) (weight : Nat) (calls : List HashCall)
    (hpos : ∀ a ∈ addedServers (.addServer s weight :: calls), 0 < a.2)
    (hfits : ((addedServers (.addServer s weight :: calls)).map
      fun a => a.2 * MMC_CONSISTENT_POINTS).sum < 2 ^ 31) :
    ∃ state, runHashCalls qsort hash (.addServer s weight :: calls) = some state ∧
      HashesConsistently hash qsort qsort' (addedServers (.addServer s weight :: calls)) state := by
  have hpoints : ∀ a ∈ addedServers (.addServer s weight :: calls), serverPoints hash a.1 a.2 ≠ [] := by
    intro a ha
    have hmem : a.2 * MMC_CONSISTENT_POINTS ∈ (addedServers (.addServer s weight :: calls)).map
        fun a => a.2 * MMC_CONSISTENT_POINTS := List.mem_map.mpr ⟨a, ha, rfl⟩
    have hle := List.single_le_sum (fun _ _ => Nat.zero_le _) _ hmem
    exact serverPoints_ne_nil (hpos a ha) (Nat.lt_of_le_of_lt hle hfits)
  generalize hadds : addedServers (.addServer s weight :: calls) = adds at *
  have hhead : (s, weight) ∈ adds := hadds ▸ List.mem_cons_self ..
  obtain ⟨state, hrun, hstate, hne⟩ := runHashCalls_stateOf hqsort (hpoints _ hhead) calls
  rw [hadds] at hstate
  obtain ⟨table, hnext, htable⟩ := hstate.nextTable hqsort hne
  refine ⟨state, hrun, ?_, ?_, ⟨table, hnext, htable.length⟩, ?_, ?_, ?_⟩
  · intro x
    have hperm := hqsort.perm state.points
    have hne' : qsort state.points ≠ [] := fun h => hne (List.nil_perm.mp (h ▸ hperm))
    rw [ringOf, ← ring_perm hstate.points, ← ring_perm hperm]
    exact find_serves (hqsort.sorted _) hne' x
  · intro key
    obtain ⟨m, state', hfind, -⟩ := hstate.findServer hqsort hne key
    simp [serverOf, hfind]
  · intro hR s' weight' calls' hperm
    have hhead' : (s', weight') ∈ adds := hperm.mem_iff.mp (List.mem_cons_self ..)
    obtain ⟨state', hrun', hstate', hne'⟩ := runHashCalls_stateOf hqsort' (hpoints _ hhead') calls'
    obtain ⟨table', hnext', htable'⟩ := hstate'.nextTable hqsort' hne'
    have hring : ringOf hash (addedServers (.addServer s' weight' :: calls')) = ringOf hash adds :=
      ring_perm (hperm.flatMap_right _)
    rw [hring] at htable'
    exact ⟨state', hrun', by rw [hnext, hnext', htable'.unique hR htable]⟩
  · intro s' weight' hR table₀ table' hnext₀ hnext' i m m' hm hm'
    obtain ⟨hsub, hnew⟩ := @ringOf_append hash adds s' weight'
    have hne' : (mmcConsistentAddServer hash state s' weight').points ≠ [] :=
      List.append_ne_nil_of_left_ne_nil hne _
    rw [hnext] at hnext₀
    cases hnext₀
    obtain ⟨_, hnext'', htable'⟩ := (hstate.addServer s' weight').nextTable hqsort' hne'
    rw [hnext'] at hnext''
    cases hnext''
    exact htable.remap hR hsub hnew htable' hm hm'
  · intro s' weight' hR key m m'
    exact hstate.serverOf_addServer hqsort hqsort' hne (List.ne_nil_of_mem hhead) hR

/-- Merge sort is a `qsort`. -/
theorem mergeSort_sorts : Sorts fun points => points.mergeSort fun p q => decide (p.point ≤ q.point) where
  perm points := List.mergeSort_perm points _
  sorted points := by
    have htrans : ∀ p q r : MmcConsistentPoint, decide (p.point ≤ q.point) = true →
        decide (q.point ≤ r.point) = true → decide (p.point ≤ r.point) = true := by
      intro p q r hpq hqr
      simp only [decide_eq_true_eq] at hpq hqr ⊢
      exact UInt32.le_trans hpq hqr
    have htotal : ∀ p q : MmcConsistentPoint,
        (decide (p.point ≤ q.point) || decide (q.point ≤ p.point)) = true := by
      intro p q
      simp only [Bool.or_eq_true, decide_eq_true_eq]
      exact UInt32.le_total ..
    have hsorted := List.pairwise_mergeSort htrans htotal points
    simpa only [decide_eq_true_eq] using hsorted

/-- A hash function of 32 bits. -/
def sampleHash : MmcHashFunction where
  init := 5381
  combine seed key := key.foldl (fun h b => h * 33 + b.toUInt32) seed
  finish h := h

/-- A lookup between two servers. -/
theorem twoServers_hashConsistently :
    ∃ state, runHashCalls (fun points => points.mergeSort fun p q => decide (p.point ≤ q.point)) sampleHash
        [.addServer ⟨0, [97], 11211⟩ 1, .findServer [98], .addServer ⟨1, [98], 11211⟩ 2] = some state ∧
      HashesConsistently sampleHash (fun points => points.mergeSort fun p q => decide (p.point ≤ q.point))
        (fun points => points.mergeSort fun p q => decide (p.point ≤ q.point))
        [(⟨0, [97], 11211⟩, 1), (⟨1, [98], 11211⟩, 2)] state :=
  runHashCalls_hashesConsistently sampleHash mergeSort_sorts mergeSort_sorts ⟨0, [97], 11211⟩ 1
    [.findServer [98], .addServer ⟨1, [98], 11211⟩ 2] (by decide) (by decide)

end PeclMemcache
