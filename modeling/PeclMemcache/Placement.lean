import PeclMemcache.Closing

set_option autoImplicit false

/-! # Weights and the size of the hash state

A weight comes to the pool from `addServer` or from the `save_path` of a session, is passed on as an
`unsigned int`, and becomes a number of buckets or of points that is counted in an `int`. Here the
two strategies check these numbers and the indices they lead to. -/

namespace PeclMemcache

/-! ## Where weights come from -/

/-- The places that call `mmc_pool_add`: `php_mmc_pool_addserver`, and `PS_OPEN` for a URL with a host
    or for the path of a socket. -/
inductive WeightSource
  | addServer
  | hostUrl
  | unixUrl
  deriving DecidableEq, Repr

/-- The check of the weight. `PS_OPEN` has made an `int` of it, and checks it for a host only. -/
def WeightSource.accepts : WeightSource → Int → Prop
  | .addServer, weight => 1 ≤ weight
  | .hostUrl, weight => 0 < Int.bmod weight (2 ^ 32)
  | .unixUrl, _ => True

instance WeightSource.decidableAccepts (source : WeightSource) (weight : Int) :
    Decidable (source.accepts weight) := by
  cases source <;> unfold WeightSource.accepts <;> infer_instance

/-- A server that is added with an accepted weight. -/
structure WeighedServer where
  source : WeightSource
  server : AddedServer
  weight : Int
  accepted : source.accepts weight

/-- The weight `mmc_pool_add` gets, an `unsigned int`. -/
def WeighedServer.poolWeight (s : WeighedServer) : Nat := (s.weight % 2 ^ 32).toNat

/-! ## Strategies with checks -/

/-- A hash strategy that checks what it computes: an addition gives nothing if a size does not fit in
    its type, and a lookup nothing for a division by zero or an index outside of an array. -/
structure CheckedStrategy where
  State : Type
  createState : State
  size : State → Nat
  addServer : State → AddedServer → Nat → Option State
  findServer : State → Bytes → Option (Mmc × State)

/-- `mmc_standard_add_server`; `num_buckets` is an `int`. -/
def standardAddServer (state : MmcStandardState) (s : AddedServer) (weight : Nat) :
    Option MmcStandardState :=
  if state.buckets.length + weight < 2 ^ 31 then some (mmcStandardAddServer state s weight) else none

/-- `mmc_standard_find_server`. -/
def standardFindServer (hash : MmcHashFunction) (state : MmcStandardState) (key : Bytes) :
    Option (Mmc × MmcStandardState) :=
  if 1 < state.numServers then
    let hash := ((mmcHash hash key).toNat / 2 ^ 16) % 2 ^ 15
    if state.buckets.length = 0 then none
    else
      (state.buckets[(if hash = 0 then 1 else hash) % state.buckets.length]?).map fun m => (m, state)
  else (state.buckets[0]?).map fun m => (m, state)

/-- `mmc_standard_hash`. -/
def standardStrategy (hash : MmcHashFunction) : CheckedStrategy where
  State := MmcStandardState
  createState := {}
  size state := state.buckets.length
  addServer := standardAddServer
  findServer := standardFindServer hash

/-- `mmc_consistent_add_server`; `points` and `num_points` are `int`s. -/
def consistentAddServer (hash : MmcHashFunction) (state : MmcConsistentState) (s : AddedServer)
    (weight : Nat) : Option MmcConsistentState :=
  let points := weight * MMC_CONSISTENT_POINTS
  if points < 2 ^ 31 ∧ state.points.length + points < 2 ^ 31 then
    some (mmcConsistentAddServer hash state s weight)
  else none

/-- `mmc_consistent_hash`. -/
def consistentStrategy (qsort : List MmcConsistentPoint → List MmcConsistentPoint)
    (hash : MmcHashFunction) : CheckedStrategy where
  State := MmcConsistentState
  createState := {}
  size state := state.points.length
  addServer := consistentAddServer hash
  findServer := mmcConsistentFindServer qsort hash

/-! ## Runs -/

/-- The calls of a strategy. -/
inductive PlacementCall
  | add (s : WeighedServer)
  | find (key : Bytes)

/-- The weights of the servers that are added. -/
def poolWeights (calls : List PlacementCall) : List Nat :=
  calls.filterMap fun call => match call with
    | .add s => some s.poolWeight
    | .find _ => none

/-- From a state with some servers on: every server gets a bucket or a point, every lookup gives one of
    the servers, and no check fails. Without servers there are no lookups. -/
def Places (S : CheckedStrategy) : List Mmc → S.State → List PlacementCall → Prop
  | _, _, [] => True
  | servers, state, .add s :: calls =>
    ∃ state', S.addServer state s.server s.poolWeight = some state' ∧ S.size state < S.size state' ∧
      Places S (servers ++ [s.server.mmc]) state' calls
  | servers, state, .find key :: calls =>
    if servers = [] then Places S servers state calls
    else ∃ m state', S.findServer state key = some (m, state') ∧ m ∈ servers ∧
      Places S servers state' calls

/-! ## What the strategies have in common -/

/-- A strategy whose size is `unit` times the weights, counted in an `int`, and that finds the servers
    that were added with a weight; `invariant` is what relates its state to them. -/
structure CheckedStrategy.Counts (S : CheckedStrategy) (unit : Nat)
    (invariant : List (AddedServer × Nat) → S.State → Prop) : Prop where
  unit_pos : 0 < unit
  createState : invariant [] S.createState
  size : ∀ {added state}, invariant added state → S.size state = (added.map Prod.snd).sum * unit
  addServer : ∀ {added state}, invariant added state → ∀ s weight,
    if ((added.map Prod.snd).sum + weight) * unit < 2 ^ 31 then
      ∃ state', S.addServer state s weight = some state' ∧ invariant (added ++ [(s, weight)]) state'
    else S.addServer state s weight = none
  findServer : ∀ {added state}, invariant added state → 0 < S.size state → ∀ key,
    ∃ m state', S.findServer state key = some (m, state') ∧ m ∈ added.map (·.1.mmc) ∧
      invariant added state'

/-- Every weight is a weight, and all together are not too many. -/
def WeightsFit (unit : Nat) (weights : List Nat) : Prop :=
  (∀ weight ∈ weights, weight ≠ 0) ∧ weights.sum * unit < 2 ^ 31

/-- **When a strategy places keys**, by induction on the calls that are left. -/
theorem CheckedStrategy.Counts.places_iff {S : CheckedStrategy} {unit : Nat}
    {invariant : List (AddedServer × Nat) → S.State → Prop} (hS : S.Counts unit invariant) :
    ∀ (calls : List PlacementCall) {added : List (AddedServer × Nat)} {state : S.State},
      invariant added state → WeightsFit unit (added.map Prod.snd) →
      (Places S (added.map (·.1.mmc)) state calls ↔
        WeightsFit unit (added.map Prod.snd ++ poolWeights calls)) := by
  intro calls
  induction calls with
  | nil =>
    intro added state _ hfit
    rw [poolWeights, List.filterMap_nil, List.append_nil]
    exact iff_of_true trivial hfit
  | cons call calls ih =>
    intro added state hstate hfit
    cases call with
    | add s =>
      have hadd := hS.addServer hstate s.server s.poolWeight
      have hweights : added.map Prod.snd ++ poolWeights (.add s :: calls)
          = (added ++ [(s.server, s.poolWeight)]).map Prod.snd ++ poolWeights calls := by
        simp [poolWeights]
      rw [Places, hweights]
      by_cases hsum : ((added.map Prod.snd).sum + s.poolWeight) * unit < 2 ^ 31
      · rw [if_pos hsum] at hadd
        obtain ⟨state', hadd, hstate'⟩ := hadd
        have hsize := hS.size hstate
        have hsize' := hS.size hstate'
        rw [List.map_append, List.sum_append, List.map_singleton, List.sum_singleton,
          Nat.add_mul, ← hsize] at hsize'
        by_cases hzero : s.poolWeight = 0
        · refine iff_of_false ?_ fun h => h.1 s.poolWeight (by simp) hzero
          rintro ⟨state'', h, hgrows, -⟩
          obtain rfl := Option.some.inj (hadd.symm.trans h)
          rw [hsize', hzero, Nat.zero_mul, Nat.add_zero] at hgrows
          exact Nat.lt_irrefl _ hgrows
        · have hpos := Nat.mul_pos (Nat.pos_of_ne_zero hzero) hS.unit_pos
          have hfit' : WeightsFit unit ((added ++ [(s.server, s.poolWeight)]).map Prod.snd) := by
            refine ⟨fun weight hmem => ?_, ?_⟩
            · rw [List.map_append, List.mem_append] at hmem
              rcases hmem with hmem | hmem
              · exact hfit.1 weight hmem
              · rw [List.mem_singleton.mp hmem]
                exact hzero
            · rw [List.map_append, List.sum_append]
              simpa using hsum
          have hrest := ih hstate' hfit'
          rw [List.map_append, List.map_singleton] at hrest
          rw [← hrest]
          constructor
          · rintro ⟨state'', h, -, hplaces⟩
            obtain rfl := Option.some.inj (hadd.symm.trans h)
            exact hplaces
          · intro hplaces
            exact ⟨state', hadd, hsize' ▸ Nat.lt_add_of_pos_right hpos, hplaces⟩
      · rw [if_neg hsum] at hadd
        refine iff_of_false ?_ fun h => hsum (Nat.lt_of_le_of_lt (Nat.mul_le_mul_right _ ?_) h.2)
        · rintro ⟨state', h, -⟩
          rw [hadd] at h
          cases h
        · simp
    | find key =>
      have hweights : poolWeights (.find key :: calls) = poolWeights calls := rfl
      rw [Places, hweights, ← ih hstate hfit]
      by_cases hservers : added.map (·.1.mmc) = []
      · rw [if_pos hservers]
      · rw [if_neg hservers]
        have hpos : 0 < S.size state := by
          obtain ⟨a, rest, rfl⟩ := List.exists_cons_of_ne_nil fun h => hservers (List.map_eq_nil_iff.mpr h)
          have hne := hfit.1 a.2 (by simp)
          rw [hS.size hstate]
          refine Nat.mul_pos ?_ hS.unit_pos
          simp
          omega
        obtain ⟨m, state', hfind, hmem, hstate'⟩ := hS.findServer hstate hpos key
        rw [ih hstate hfit, ← ih hstate' hfit]
        constructor
        · rintro ⟨m', state'', h, -, hplaces⟩
          obtain ⟨rfl, rfl⟩ := Prod.mk.inj (Option.some.inj (hfind.symm.trans h))
          exact hplaces
        · intro hplaces
          exact ⟨m, state', hfind, hmem, hplaces⟩

/-! ## The two strategies -/

variable {qsort : List MmcConsistentPoint → List MmcConsistentPoint} {hash : MmcHashFunction}

/-- The buckets are the servers that were added, each as often as its weight says. -/
structure StandardOf (added : List (AddedServer × Nat)) (state : MmcStandardState) : Prop where
  buckets : state.buckets = added.flatMap fun a => List.replicate a.2 a.1.mmc
  numServers : state.numServers = added.length

theorem StandardOf.getElem?_mem {added : List (AddedServer × Nat)} {state : MmcStandardState}
    (h : StandardOf added state) {i : Nat} (hi : i < state.buckets.length) :
    ∃ m, state.buckets[i]? = some m ∧ m ∈ added.map (·.1.mmc) := by
  refine ⟨_, List.getElem?_eq_getElem hi, ?_⟩
  have hmem := List.getElem_mem hi
  generalize state.buckets[i] = m at hmem
  rw [h.buckets, List.mem_flatMap] at hmem
  obtain ⟨a, ha, hrep⟩ := hmem
  rw [List.eq_of_mem_replicate hrep]
  exact List.mem_map_of_mem ha

theorem standardStrategy_counts (hash : MmcHashFunction) :
    (standardStrategy hash).Counts 1 StandardOf where
  unit_pos := Nat.one_pos
  createState := ⟨rfl, rfl⟩
  size := by
    intro added state h
    show state.buckets.length = _
    rw [h.buckets, List.length_flatMap]
    simp
  addServer := by
    intro added state h s weight
    have hsize : state.buckets.length = (added.map Prod.snd).sum := by
      rw [h.buckets, List.length_flatMap]
      simp
    show if _ then ∃ state', standardAddServer state s weight = some state' ∧ _ else
      standardAddServer state s weight = none
    rw [Nat.mul_one, ← hsize]
    unfold standardAddServer
    split
    · refine ⟨_, rfl, ?_, ?_⟩
      · rw [List.flatMap_append, List.flatMap_singleton, ← h.buckets]
        rfl
      · rw [List.length_append, ← h.numServers]
        rfl
    · rfl
  findServer := by
    intro added state h hsize key
    show ∃ m state', standardFindServer hash state key = some (m, state') ∧ _
    have hpos : 0 < state.buckets.length := hsize
    unfold standardFindServer
    split
    · dsimp only
      rw [if_neg (Nat.pos_iff_ne_zero.mp hpos)]
      obtain ⟨m, hm, hmem⟩ := h.getElem?_mem (Nat.mod_lt
        (if (mmcHash hash key).toNat / 2 ^ 16 % 2 ^ 15 = 0 then 1
          else (mmcHash hash key).toNat / 2 ^ 16 % 2 ^ 15) hpos)
      exact ⟨m, state, by rw [hm, Option.map_some], hmem, h⟩
    · obtain ⟨m, hm, hmem⟩ := h.getElem?_mem hpos
      exact ⟨m, state, by rw [hm, Option.map_some], hmem, h⟩

/-- The points are those of the servers that were added, none of which has too many. -/
structure ConsistentOf (hash : MmcHashFunction) (added : List (AddedServer × Nat))
    (state : MmcConsistentState) : Prop where
  stateOf : StateOf hash added state
  points : ∀ a ∈ added, a.2 * MMC_CONSISTENT_POINTS < 2 ^ 31

theorem length_serverPoints {weight : Nat} (h : weight * MMC_CONSISTENT_POINTS < 2 ^ 31)
    (s : AddedServer) :
    (serverPoints hash s weight).length = weight * MMC_CONSISTENT_POINTS := by
  have hmod : weight * MMC_CONSISTENT_POINTS % 2 ^ 32 = weight * MMC_CONSISTENT_POINTS :=
    Nat.mod_eq_of_lt (by omega)
  rw [serverPoints, List.length_map, List.length_range, pointCount, hmod, if_pos h]

theorem ConsistentOf.length {added : List (AddedServer × Nat)} {state : MmcConsistentState}
    (h : ConsistentOf hash added state) :
    state.points.length = (added.map Prod.snd).sum * MMC_CONSISTENT_POINTS := by
  have hpoints := h.points
  rw [h.stateOf.points.length_eq]
  clear h
  induction added with
  | nil => rfl
  | cons a added ih =>
    rw [List.flatMap_cons, List.length_append, length_serverPoints (hpoints a List.mem_cons_self),
      ih fun b hb => hpoints b (List.mem_cons_of_mem a hb), List.map_cons, List.sum_cons,
      Nat.add_mul]

theorem consistentStrategy_counts (hqsort : Sorts qsort) (hash : MmcHashFunction) :
    (consistentStrategy qsort hash).Counts MMC_CONSISTENT_POINTS (ConsistentOf hash) where
  unit_pos := by decide
  createState := ⟨⟨List.Perm.refl _, rfl, fun h => by cases h⟩, fun a ha => by cases ha⟩
  size := fun h => h.length
  addServer := by
    intro added state h s weight
    show if _ then ∃ state', consistentAddServer hash state s weight = some state' ∧ _ else
      consistentAddServer hash state s weight = none
    rw [Nat.add_mul, ← h.length]
    unfold consistentAddServer
    dsimp only
    by_cases hfits : state.points.length + weight * MMC_CONSISTENT_POINTS < 2 ^ 31
    · have hweight : weight * MMC_CONSISTENT_POINTS < 2 ^ 31 :=
        Nat.lt_of_le_of_lt (Nat.le_add_left _ _) hfits
      rw [if_pos hfits, if_pos ⟨hweight, hfits⟩]
      refine ⟨_, rfl, h.stateOf.addServer s weight, fun a ha => ?_⟩
      rcases List.mem_append.mp ha with ha | ha
      · exact h.points a ha
      · rw [List.mem_singleton.mp ha]
        exact hweight
    · rw [if_neg hfits, if_neg fun hboth => hfits hboth.2]
  findServer := by
    intro added state h hsize key
    have hpoints : state.points ≠ [] := List.ne_nil_of_length_pos hsize
    obtain ⟨m, state', hfind, hmem, h'⟩ := h.stateOf.findServer_mem hqsort hpoints key
    exact ⟨m, state', hfind, hmem, h', h.points⟩

/-- **When a pool can place keys.** -/
theorem places_iff_weightsFit (hqsort : Sorts qsort) (hash : MmcHashFunction)
    (calls : List PlacementCall) :
    (Places (standardStrategy hash) [] (standardStrategy hash).createState calls ↔
      WeightsFit 1 (poolWeights calls)) ∧
    (Places (consistentStrategy qsort hash) [] (consistentStrategy qsort hash).createState calls ↔
      WeightsFit MMC_CONSISTENT_POINTS (poolWeights calls)) := by
  have hnone (unit : Nat) : WeightsFit unit [] :=
    ⟨fun w hw => absurd hw List.not_mem_nil, by rw [List.sum_nil, Nat.zero_mul]; decide⟩
  exact ⟨(standardStrategy_counts hash).places_iff calls
      (standardStrategy_counts hash).createState (hnone 1),
    (consistentStrategy_counts hqsort hash).places_iff calls
      (consistentStrategy_counts hqsort hash).createState (hnone _)⟩

/-- A server of `addServer` and the socket of a session, both with the weight 1, and a lookup. -/
def lightServers : List PlacementCall :=
  [.add ⟨.addServer, ⟨0, [104], 11211⟩, 1, by decide⟩,
    .add ⟨.unixUrl, ⟨1, [117], 0⟩, 1, by decide⟩, .find [107]]

theorem lightServers_placed :
    Places (consistentStrategy (fun points => points.mergeSort fun p q => decide (p.point ≤ q.point))
        mmcHashFnv1a) []
      (consistentStrategy (fun points => points.mergeSort fun p q => decide (p.point ≤ q.point))
        mmcHashFnv1a).createState lightServers :=
  (places_iff_weightsFit mergeSort_sorts mmcHashFnv1a lightServers).2.mpr
    ⟨by decide, by decide⟩

/-- `addServer` accepts the weight `2 ^ 32`, of which the pool gets no bucket. -/
theorem hugeWeight_not_placed :
    ¬ Places (standardStrategy mmcHashFnv1a) [] (standardStrategy mmcHashFnv1a).createState
      [.add ⟨.addServer, ⟨0, [104], 11211⟩, 2 ^ 32, by decide⟩, .find [107]] := by
  rintro ⟨state', h, hgrows, -⟩
  cases h
  exact absurd hgrows (by decide)

end PeclMemcache
