import PeclMemcache.Session

set_option autoImplicit false

/-! # The loops of the session handlers

Which servers `mmc_pool_find_next` delivers to a loop that skips them one by one, and from it when
the loops end. The index is followed as the number `p` of probes made so far, which does not wrap. -/

namespace PeclMemcache

namespace SessionPool

variable {P : SessionPool} {key : Bytes}

/-! ## One search -/

/-- The search fails only if it has met nothing but skipped servers. -/
theorem findNextFrom_none {skip : List Mmc} :
    ∀ fuel p, P.findNextFrom key skip fuel (UInt32.ofNat p) = none →
      ∀ k < fuel, P.probe key (UInt32.ofNat (p + k)) ∈ skip := by
  intro fuel
  induction fuel with
  | zero => intro p _ k hk; exact absurd hk (Nat.not_lt_zero k)
  | succ fuel ih =>
    intro p h k hk
    rw [findNextFrom] at h
    split at h
    · next hskip =>
      cases k with
      | zero => exact hskip.1
      | succ k =>
        have hnext : UInt32.ofNat p + 1 = UInt32.ofNat (p + 1) := by simp
        rw [hnext] at h
        have hlater := ih (p + 1) h k (Nat.lt_of_succ_lt_succ hk)
        rwa [Nat.add_right_comm, Nat.add_assoc] at hlater
    · cases h

/-- The search ends behind the probe that gave the server, and has met only skipped servers
    before. -/
theorem findNextFrom_some {skip : List Mmc} {m : Mmc} {i : UInt32} :
    ∀ fuel p, P.findNextFrom key skip fuel (UInt32.ofNat p) = some (m, i) →
      ∃ k, i = UInt32.ofNat (p + k + 1) ∧ m = P.probe key (UInt32.ofNat (p + k)) ∧
        ∀ l < k, P.probe key (UInt32.ofNat (p + l)) ∈ skip := by
  intro fuel
  induction fuel with
  | zero => intro p h; cases h
  | succ fuel ih =>
    intro p h
    have hnext : UInt32.ofNat p + 1 = UInt32.ofNat (p + 1) := by simp
    rw [findNextFrom] at h
    split at h
    · next hskip =>
      rw [hnext] at h
      obtain ⟨k, hi, hm, hl⟩ := ih (p + 1) h
      refine ⟨k + 1, ?_, ?_, ?_⟩
      · rw [hi]
        congr 1
        omega
      · rw [hm]
        congr 2
        omega
      · intro l hlk
        cases l with
        | zero => exact hskip.1
        | succ l =>
          have hlater := hl l (Nat.lt_of_succ_lt_succ hlk)
          rwa [Nat.add_right_comm, Nat.add_assoc] at hlater
    · cases h
      refine ⟨0, hnext, rfl, ?_⟩
      intro l hl
      exact absurd hl (Nat.not_lt_zero l)

/-! ## What the skip list holds -/

/-- The skip list after `p` probes: the servers of these probes, each once. -/
structure Skipped (P : SessionPool) (key : Bytes) (p : Nat) (skip : List Mmc) : Prop where
  nodup : skip.Nodup
  mem_iff : ∀ m, m ∈ skip ↔ ∃ k < p, P.probe key (UInt32.ofNat k) = m

theorem skipped_nil : Skipped P key 0 [] where
  nodup := List.nodup_nil
  mem_iff m := by simp

open Classical in
/-- The servers of the pool that the probes of a key lead to, each once. -/
noncomputable def reached (P : SessionPool) (key : Bytes) : List Mmc :=
  P.servers.dedup.filter fun m => decide (∃ i, P.probe key i = m)

/-- How many servers of the pool the probes of a key lead to. -/
noncomputable def reach (P : SessionPool) (key : Bytes) : Nat := (P.reached key).length

open Classical in
theorem mem_reached (m : Mmc) : m ∈ P.reached key ↔ ∃ i, P.probe key i = m := by
  unfold reached
  rw [List.mem_filter, List.mem_dedup, decide_eq_true_eq, and_iff_right_iff_imp]
  rintro ⟨i, rfl⟩
  exact P.findServer_mem _

theorem nodup_reached (P : SessionPool) (key : Bytes) : (P.reached key).Nodup := by
  unfold reached
  exact (List.nodup_dedup _).filter _

/-- A search from a skip list and the skip list that follows. -/
theorem Skipped.findNext {p : Nat} {skip : List Mmc} (h : Skipped P key p skip) {m : Mmc}
    {i : UInt32} (hfind : P.findNext key skip (UInt32.ofNat p) = some (m, i)) :
    ∃ p' > p, i = UInt32.ofNat p' ∧ Skipped P key p' (mmcQueuePush skip m) ∧
      ∀ q < 2 ^ 32, P.probe key (UInt32.ofNat q) ∉ skip → p' ≤ q + 1 := by
  obtain ⟨k, hi, hm, hl⟩ := findNextFrom_some _ _ hfind
  refine ⟨p + k + 1, by omega, hi, ⟨nodup_mmcQueuePush h.nodup m, ?_⟩, ?_⟩
  · intro m'
    rw [mem_mmcQueuePush]
    constructor
    · rintro (hskip | rfl)
      · obtain ⟨j, hj, hprobe⟩ := (h.mem_iff m').mp hskip
        exact ⟨j, by omega, hprobe⟩
      · exact ⟨p + k, by omega, hm.symm⟩
    · rintro ⟨j, hj, rfl⟩
      by_cases hlast : j = p + k
      · right
        rw [hm, hlast]
      · left
        by_cases hold : j < p
        · exact (h.mem_iff _).mpr ⟨j, hold, rfl⟩
        · have hmet := hl (j - p) (by omega)
          rwa [Nat.add_sub_cancel' (by omega)] at hmet
  · intro q hq hnew
    by_contra hbehind
    apply hnew
    by_cases hold : q < p
    · exact (h.mem_iff _).mpr ⟨q, hold, rfl⟩
    · have hmet := hl (q - p) (by omega)
      rwa [Nat.add_sub_cancel' (by omega)] at hmet

theorem Skipped.length_le {p : Nat} {skip : List Mmc} (h : Skipped P key p skip) :
    skip.length ≤ P.reach key := by
  refine h.nodup.length_le_of_subset ?_
  intro m hm
  obtain ⟨k, -, hprobe⟩ := (h.mem_iff m).mp hm
  exact (mem_reached m).mpr ⟨_, hprobe⟩

/-- A skip list that is shorter than the reach leaves a server for a later probe. -/
theorem Skipped.exists_probe {p : Nat} {skip : List Mmc} (h : Skipped P key p skip)
    (hshort : skip.length < P.reach key) :
    ∃ q < 2 ^ 32, p ≤ q ∧ P.probe key (UInt32.ofNat q) ∉ skip := by
  by_contra hnone
  refine Nat.not_le_of_lt hshort ((nodup_reached P key).length_le_of_subset ?_)
  intro m hm
  obtain ⟨i, rfl⟩ := (mem_reached m).mp hm
  by_contra hnew
  have hofNat : UInt32.ofNat i.toNat = i := UInt32.ofNat_toNat
  refine hnone ⟨i.toNat, i.toNat_lt, ?_, by rwa [hofNat]⟩
  by_contra hlt
  exact hnew ((h.mem_iff _).mpr ⟨i.toNat, by omega, by rw [hofNat]⟩)

/-- The search succeeds while a server is left. -/
theorem Skipped.exists_findNext {p : Nat} {skip : List Mmc} (h : Skipped P key p skip)
    (hshort : skip.length < P.reach key) :
    ∃ m i, P.findNext key skip (UInt32.ofNat p) = some (m, i) := by
  cases hfind : P.findNext key skip (UInt32.ofNat p) with
  | some r => exact ⟨r.1, r.2, rfl⟩
  | none =>
    obtain ⟨q, hq, hpq, hnew⟩ := h.exists_probe hshort
    have hmet := findNextFrom_none _ _ hfind (q - p) (by omega)
    rw [Nat.add_sub_cancel' hpq] at hmet
    exact absurd hmet hnew

/-! ## When the loops end -/

/-- The probes of a key lead to as many servers as the loops want. -/
def Enough (P : SessionPool) (key : Bytes) : Prop :=
  min P.redundancy P.servers.length ≤ P.reach key

theorem wantsMore_iff (skip : List Mmc) :
    P.wantsMore skip ↔ skip.length < min P.redundancy P.servers.length := Nat.lt_min.symm

theorem wantsMore_nil : P.wantsMore [] :=
  ⟨P.redundancy_pos, List.length_pos_of_mem (P.findServer_mem [])⟩

/-- The loop of `PS_WRITE` ends, by induction on the probes that are left before the index wraps. -/
theorem visitFrom_isSome (henough : P.Enough key) :
    ∀ fuel p skip, Skipped P key p skip → P.wantsMore skip → 2 ^ 32 < p + fuel →
      (P.visitFrom key fuel skip (UInt32.ofNat p)).isSome := by
  intro fuel
  induction fuel with
  | zero =>
    intro p skip h hmore hfuel
    have hshort := Nat.lt_of_lt_of_le ((wantsMore_iff skip).mp hmore) henough
    obtain ⟨q, hq, hpq, -⟩ := h.exists_probe hshort
    omega
  | succ fuel ih =>
    intro p skip h hmore hfuel
    have hshort := Nat.lt_of_lt_of_le ((wantsMore_iff skip).mp hmore) henough
    obtain ⟨q, hq, -, hnew⟩ := h.exists_probe hshort
    obtain ⟨m, i, hfind⟩ := h.exists_findNext hshort
    obtain ⟨p', hp', rfl, hskipped, hbound⟩ := h.findNext hfind
    rw [visitFrom, hfind]
    dsimp only
    split
    · next hmore' =>
      rw [Option.isSome_map]
      exact ih p' _ hskipped hmore' (by omega)
    · rfl

/-- Without enough servers the loop goes on whatever its rounds find. -/
theorem visitFrom_eq_none (hfew : ¬ P.Enough key) :
    ∀ fuel p skip, Skipped P key p skip →
      P.visitFrom key fuel skip (UInt32.ofNat p) = none := by
  intro fuel
  induction fuel with
  | zero => intro p skip _; rfl
  | succ fuel ih =>
    intro p skip h
    rw [visitFrom]
    cases hfind : P.findNext key skip (UInt32.ofNat p) with
    | none => rfl
    | some r =>
      obtain ⟨p', -, hi, hskipped, -⟩ := h.findNext hfind
      have hmore : P.wantsMore (mmcQueuePush skip r.1) :=
        (wantsMore_iff _).mpr (Nat.lt_of_le_of_lt hskipped.length_le (Nat.lt_of_not_le hfew))
      dsimp only
      rw [if_pos hmore, hi, ih p' _ hskipped]
      rfl

theorem visit_isSome_iff (P : SessionPool) (key : Bytes) :
    (∃ fuel, (P.visit key fuel).isSome) ↔ P.Enough key := by
  constructor
  · rintro ⟨fuel, h⟩
    by_contra hfew
    rw [visit, show (0 : UInt32) = UInt32.ofNat 0 from rfl,
      visitFrom_eq_none hfew fuel 0 [] skipped_nil] at h
    cases h
  · intro henough
    exact ⟨2 ^ 32 + 1, visitFrom_isSome henough _ 0 [] skipped_nil wantsMore_nil (by omega)⟩

/-- A handler that goes through the servers of the key with `visit` ends if there are enough. -/
theorem ends_iff {α : Type} {sid : Bytes} {failure : α} (finish : List Mmc → α)
    {handler : Nat → Option α}
    (h : ∀ fuel, handler fuel = match mmcPrepareKeyEx sid P.keyPrefix with
      | none => some failure
      | some key => (P.visit key fuel).map finish) :
    (∃ fuel, (handler fuel).isSome) ↔
      ∀ key, mmcPrepareKeyEx sid P.keyPrefix = some key → P.Enough key := by
  simp only [h]
  cases mmcPrepareKeyEx sid P.keyPrefix with
  | none => simp
  | some key => simpa using visit_isSome_iff P key

theorem psWrite_isSome_iff (P : SessionPool) (sid : Bytes)
    (run : List Mmc → List HandlerCall × List HandlerCall) :
    (∃ fuel, (P.psWrite fuel sid run).isSome) ↔
      ∀ key, mmcPrepareKeyEx sid P.keyPrefix = some key → P.Enough key :=
  ends_iff (settle mmcStoredHandler run) fun _ => rfl

theorem psDestroy_isSome_iff (P : SessionPool) (sid : Bytes)
    (run : List Mmc → List HandlerCall × List HandlerCall) :
    (∃ fuel, (P.psDestroy fuel sid run).isSome) ↔
      ∀ key, mmcPrepareKeyEx sid P.keyPrefix = some key → P.Enough key :=
  ends_iff (settle mmcDeletedHandler run) fun _ => rfl

/-! ## When reading ends -/

/-- What a round of `PS_READ` comes to whose requests have been answered. -/
theorem readRound_answered (P : SessionPool) (s : ReadState) (m : Mmc) (i : UInt32)
    (lock add : List HandlerCall) (data : Option Bytes) :
    ((Attempt.answered lock add data).locked = true ∧
        P.readRound s m i (.answered lock add data) = .inr (data.getD [])) ∨
      ((Attempt.answered lock add data).locked = true ∧ data = none ∧
        P.readRound s m i (.answered lock add data) = .inl (s.skipServer m i)) ∨
      ((Attempt.answered lock add data).locked = false ∧
        P.readRound s m i (.answered lock add data) = .inl s.backOff) := by
  unfold readRound
  dsimp only
  cases (Attempt.answered lock add data).locked with
  | false => exact Or.inr (Or.inr ⟨rfl, rfl⟩)
  | true =>
    rw [if_pos rfl]
    cases data with
    | some value => exact Or.inl ⟨rfl, rfl⟩
    | none =>
      dsimp only
      split
      · exact Or.inl ⟨rfl, rfl⟩
      · exact Or.inr (Or.inl ⟨rfl, rfl, rfl⟩)

/-- What a round of `PS_READ` comes to. -/
theorem readRound_cases (P : SessionPool) (s : ReadState) (m : Mmc) (i : UInt32) (a : Attempt) :
    (a.locked = true ∧ ∃ value, P.readRound s m i a = .inr value) ∨
      ((a.isRefused = true ∨ a.locked = true) ∧ P.readRound s m i a = .inl (s.skipServer m i)) ∨
      (a.isRefused = false ∧ a.locked = false ∧ P.readRound s m i a = .inl s.backOff) := by
  cases a with
  | refused => exact Or.inr (Or.inl ⟨Or.inl rfl, rfl⟩)
  | answered lock add data =>
    rcases P.readRound_answered s m i lock add data with
      ⟨hlocked, hround⟩ | ⟨hlocked, -, hround⟩ | ⟨hlocked, hround⟩
    · exact Or.inl ⟨hlocked, _, hround⟩
    · exact Or.inr (Or.inl ⟨Or.inr hlocked, hround⟩)
    · exact Or.inr (Or.inr ⟨rfl, hlocked, hround⟩)

/-- `PS_READ` ends: a round either makes a probe or spends time. -/
theorem readFrom_isSome (henough : P.Enough key) (attempts : Nat → Attempt) :
    ∀ fuel n p s, Skipped P key p s.skip → s.lastIndex = UInt32.ofNat p → 0 < s.timeout →
      P.readsOn s → 2 ^ 32 + s.remaining.toNat < p + fuel →
      (P.readFrom key attempts fuel n s).isSome := by
  intro fuel
  induction fuel with
  | zero =>
    intro n p s h hindex htimeout hreads hfuel
    have hshort := Nat.lt_of_lt_of_le ((wantsMore_iff s.skip).mp hreads.1) henough
    obtain ⟨q, hq, hpq, -⟩ := h.exists_probe hshort
    omega
  | succ fuel ih =>
    intro n p s h hindex htimeout hreads hfuel
    have hshort := Nat.lt_of_lt_of_le ((wantsMore_iff s.skip).mp hreads.1) henough
    obtain ⟨q, hq, -, hnew⟩ := h.exists_probe hshort
    obtain ⟨m, i, hfind⟩ := h.exists_findNext hshort
    obtain ⟨p', hp', rfl, hskipped, hbound⟩ := h.findNext hfind
    rw [readFrom, hindex, hfind]
    dsimp only
    rcases P.readRound_cases s m (UInt32.ofNat p') (attempts n) with
      ⟨-, value, hround⟩ | ⟨-, hround⟩ | ⟨-, -, hround⟩
    · rw [hround]
      rfl
    · rw [hround]
      dsimp only
      split
      · next hreads' =>
        have hbound := hbound q hq hnew
        exact ih (n + 1) p' (s.skipServer m (UInt32.ofNat p')) hskipped rfl htimeout hreads' (by
          show 2 ^ 32 + s.remaining.toNat < p' + fuel
          omega)
      · rfl
    · rw [hround]
      dsimp only
      split
      · next hreads' =>
        have hpause : s.backOff.remaining = s.remaining - s.timeout := rfl
        have hnext : 0 < s.backOff.timeout := by
          show 0 < if s.timeout * 2 > 1000000 then 1000000 else s.timeout * 2
          split <;> omega
        have hleft := hreads.2
        exact ih (n + 1) p s.backOff h hindex hnext hreads' (by omega)
      · rfl

/-- Without enough servers, and if every server refuses the requests, `PS_READ` goes on for
    ever. -/
theorem readFrom_refused (hfew : ¬ P.Enough key) :
    ∀ fuel n p s, Skipped P key p s.skip → s.lastIndex = UInt32.ofNat p → 0 < s.remaining →
      P.readFrom key (fun _ => .refused) fuel n s = none := by
  intro fuel
  induction fuel with
  | zero => intro n p s _ _ _; rfl
  | succ fuel ih =>
    intro n p s h hindex hleft
    rw [readFrom, hindex]
    cases hfind : P.findNext key s.skip (UInt32.ofNat p) with
    | none => rfl
    | some r =>
      obtain ⟨p', -, hi, hskipped, -⟩ := h.findNext hfind
      have hreads : P.readsOn (s.skipServer r.1 r.2) :=
        ⟨(wantsMore_iff _).mpr (Nat.lt_of_le_of_lt hskipped.length_le (Nat.lt_of_not_le hfew)), hleft⟩
      dsimp only [readRound]
      rw [if_pos hreads]
      exact ih (n + 1) p' _ hskipped hi hleft

theorem readFrom_isSome_iff (P : SessionPool) (key : Bytes) :
    (∀ attempts, ∃ fuel, (P.readFrom key attempts fuel 0 P.readStart).isSome) ↔
      P.Enough key := by
  have hleft : 0 < P.readStart.remaining := by
    have := P.lockTimeout_pos
    show (0 : Int) < P.lockTimeout * 1000000 * 2
    omega
  constructor
  · intro h
    by_contra hfew
    obtain ⟨fuel, h⟩ := h fun _ => .refused
    rw [readFrom_refused hfew fuel 0 0 P.readStart skipped_nil rfl hleft] at h
    cases h
  · intro henough attempts
    refine ⟨2 ^ 32 + P.readStart.remaining.toNat + 1, ?_⟩
    exact readFrom_isSome henough attempts _ 0 0 P.readStart skipped_nil rfl
      (Nat.succ_pos 4999) ⟨wantsMore_nil, hleft⟩ (by omega)

/-- **The session handlers end** exactly if the probes of the key lead to as many servers as
    the loops want. -/
theorem handlers_end_iff (P : SessionPool) (sid : Bytes) :
    ((∀ run, ∃ fuel, (P.psWrite fuel sid run).isSome) ∧
      (∀ run, ∃ fuel, (P.psDestroy fuel sid run).isSome) ∧
      ∀ attempts, ∃ fuel, (psRead (some P) fuel sid attempts).isSome) ↔
      ∀ key, mmcPrepareKeyEx sid P.keyPrefix = some key →
        min P.redundancy P.servers.length ≤ P.reach key := by
  constructor
  · rintro ⟨hends, -, -⟩
    exact (psWrite_isSome_iff P sid fun _ => ([], [])).mp (hends _)
  · intro henough
    refine ⟨fun run => (psWrite_isSome_iff P sid run).mpr henough,
      fun run => (psDestroy_isSome_iff P sid run).mpr henough, ?_⟩
    intro attempts
    simp only [psRead]
    cases hkey : mmcPrepareKeyEx sid P.keyPrefix with
    | none => exact ⟨0, rfl⟩
    | some key =>
      obtain ⟨fuel, h⟩ := (readFrom_isSome_iff P key).mpr (henough key hkey) attempts
      refine ⟨fuel, ?_⟩
      dsimp only
      rwa [Option.isSome_map]

/-- The same persistent server, added twice. -/
def twice : SessionPool where
  findServer _ := 0
  servers := [0, 0]
  redundancy := 2
  maxFailoverAttempts := 20
  lockTimeout := 15
  keyPrefix := []
  findServer_mem _ := by decide
  redundancy_pos := by decide
  maxFailoverAttempts_pos := by decide
  lockTimeout_pos := by decide

/-- With this pool, no handler comes to an end. -/
theorem twice_not_ends :
    ¬ ((∀ run, ∃ fuel, (twice.psWrite fuel [115] run).isSome) ∧
      (∀ run, ∃ fuel, (twice.psDestroy fuel [115] run).isSome) ∧
      ∀ attempts, ∃ fuel, (psRead (some twice) fuel [115] attempts).isSome) := by
  rintro ⟨hends, -, -⟩
  have henough := (psWrite_isSome_iff twice [115] fun _ => ([], [])).mp (hends _) [115] (by decide)
  have hreach : twice.reach [115] ≤ 1 := by
    show (twice.reached [115]).length ≤ ([0] : List Mmc).length
    refine (nodup_reached twice [115]).length_le_of_subset ?_
    intro m hm
    obtain ⟨i, rfl⟩ := (mem_reached m).mp hm
    exact List.mem_singleton.mpr rfl
  exact absurd (Nat.le_trans henough hreach) (by decide)

/-! ## Reading without the lock -/

/-- The rounds before round `n` whose server refused the requests. -/
def refusals (attempts : Nat → Attempt) : Nat → Nat
  | 0 => 0
  | n + 1 => refusals attempts n + if (attempts n).isRefused = true then 1 else 0

/-- The microseconds `PS_READ` pauses after `b` rounds that missed the lock: 5 ms, doubled each time
    up to a second. -/
def pauses : Nat → Nat
  | 0 => 0
  | b + 1 => pauses b + min (5000 * 2 ^ b) 1000000

/-- The servers `mmc_pool_find_next` gives after one another if each of them is skipped, and the
    index behind the last one. -/
def failoverAfter (P : SessionPool) (key : Bytes) : Nat → Option (List Mmc × UInt32)
  | 0 => some ([], 0)
  | r + 1 =>
    match failoverAfter P key r with
    | none => none
    | some (skip, i) =>
      match P.findNext key skip i with
      | none => none
      | some (mmc, i) => some (mmcQueuePush skip mmc, i)

/-- The rounds without the lock do not use up what `PS_READ` can spend: as long as no round has got
    the lock, and `mmc_pool_find_next` has found the server of each, less servers than the loop
    wants have refused the requests, and the pauses sum up to less than twice the lock timeout. -/
def Persists (P : SessionPool) (key : Bytes) (attempts : Nat → Attempt) : Prop :=
  ∀ n, (∀ k ≤ n, (attempts k).locked = false) →
    P.failoverAfter key (refusals attempts n + 1) ≠ none →
    ∀ skip i, P.failoverAfter key (refusals attempts (n + 1)) = some (skip, i) →
      P.wantsMore skip ∧
        pauses (n + 1 - refusals attempts (n + 1)) < P.lockTimeout * 1000000 * 2

/-- A read that succeeds has got the lock in one of its rounds. -/
def LockedRead (pool : Option SessionPool) (sid : Bytes) (attempts : Nat → Attempt) : Prop :=
  ∀ fuel value n, psRead pool fuel sid attempts = some (.success value n) →
    ∃ k < n, (attempts k).locked = true

/-- The state of `PS_READ` with a skip list, an index and `b` missed locks behind it. -/
def missed (P : SessionPool) (skip : List Mmc) (i : UInt32) (b : Nat) : ReadState where
  skip := skip
  lastIndex := i
  timeout := min (5000 * 2 ^ b) 1000000
  remaining := P.lockTimeout * 1000000 * 2 - pauses b

theorem missed_backOff (P : SessionPool) (skip : List Mmc) (i : UInt32) (b : Nat) :
    (P.missed skip i b).backOff = P.missed skip i (b + 1) := by
  have htimeout : (if min (5000 * 2 ^ b) 1000000 * 2 > 1000000 then 1000000
      else min (5000 * 2 ^ b) 1000000 * 2) = min (5000 * 2 ^ (b + 1)) 1000000 := by
    rw [Nat.pow_succ]
    split <;> omega
  have hpause : pauses (b + 1) = pauses b + min (5000 * 2 ^ b) 1000000 := rfl
  unfold ReadState.backOff missed
  simp only [ReadState.mk.injEq, true_and]
  exact ⟨htimeout, by omega⟩

theorem refusals_le (attempts : Nat → Attempt) (n : Nat) : refusals attempts n ≤ n := by
  induction n with
  | zero => exact Nat.le_refl 0
  | succ n ih =>
    rw [refusals]
    split <;> omega

theorem refusals_mono (attempts : Nat → Attempt) {n n' : Nat} (hle : n ≤ n') :
    refusals attempts n ≤ refusals attempts n' := by
  induction hle with
  | refl => exact Nat.le_refl _
  | step _ ih => exact Nat.le_trans ih (Nat.le_add_right _ _)

/-- The state after `n` rounds that have not got the lock. -/
def unlockedState (P : SessionPool) (key : Bytes) (attempts : Nat → Attempt) (n : Nat) :
    Option ReadState :=
  (P.failoverAfter key (refusals attempts n)).map fun r =>
    P.missed r.1 r.2 (n - refusals attempts n)

/-- A round without the lock. -/
theorem unlockedState_step {attempts : Nat → Attempt} {n : Nat} {s : ReadState}
    (h : P.unlockedState key attempts n = some s) (hlocked : (attempts n).locked = false)
    {m : Mmc} {i : UInt32} (hfind : P.findNext key s.skip s.lastIndex = some (m, i)) :
    P.failoverAfter key (refusals attempts n + 1) ≠ none ∧
      ∃ s', P.readRound s m i (attempts n) = .inl s' ∧
        P.unlockedState key attempts (n + 1) = some s' := by
  obtain ⟨⟨skip, index⟩, hfailover, rfl⟩ := Option.map_eq_some_iff.mp h
  have hnext : P.failoverAfter key (refusals attempts n + 1) = some (mmcQueuePush skip m, i) := by
    rw [failoverAfter, hfailover]
    dsimp only
    rw [show P.findNext key skip index = some (m, i) from hfind]
  refine ⟨by simp [hnext], ?_⟩
  have hcount : refusals attempts (n + 1)
      = refusals attempts n + if (attempts n).isRefused = true then 1 else 0 := rfl
  have hle := refusals_le attempts n
  rcases P.readRound_cases (P.missed skip index (n - refusals attempts n)) m i (attempts n) with
    ⟨hgot, -⟩ | ⟨hrefused, hround⟩ | ⟨hrefused, -, hround⟩
  · rw [hlocked] at hgot
    cases hgot
  · rw [hlocked, or_iff_left Bool.false_ne_true] at hrefused
    rw [if_pos hrefused] at hcount
    refine ⟨_, hround, ?_⟩
    rw [unlockedState, hcount, hnext, Nat.add_sub_add_right]
    rfl
  · rw [hrefused, if_neg Bool.false_ne_true] at hcount
    have hsame : refusals attempts (n + 1) = refusals attempts n := hcount
    refine ⟨_, hround, ?_⟩
    rw [unlockedState, hsame, hfailover, missed_backOff, Nat.sub_add_comm hle]
    rfl

theorem unlockedState_eq_some {attempts : Nat → Attempt} {n : Nat} {s : ReadState}
    (h : P.unlockedState key attempts n = some s) :
    ∃ skip i, P.failoverAfter key (refusals attempts n) = some (skip, i) ∧
      (P.readsOn s ↔ P.wantsMore skip ∧
        pauses (n - refusals attempts n) < P.lockTimeout * 1000000 * 2) := by
  obtain ⟨⟨skip, i⟩, hfailover, rfl⟩ := Option.map_eq_some_iff.mp h
  refine ⟨skip, i, hfailover, and_congr Iff.rfl ?_⟩
  show (0 : Int) < P.lockTimeout * 1000000 * 2 - pauses (n - refusals attempts n) ↔ _
  omega

theorem lt_of_readFrom {attempts : Nat → Attempt} {value : Bytes} {rounds : Nat} :
    ∀ fuel n s, P.readFrom key attempts fuel n s = some (value, rounds) → n < rounds := by
  intro fuel
  induction fuel with
  | zero => intro n s h; cases h
  | succ fuel ih =>
    intro n s h
    rw [readFrom] at h
    split at h
    · cases h
    · split at h
      · cases h
        exact Nat.lt_succ_self n
      · split at h
        · exact Nat.lt_trans (Nat.lt_succ_self n) (ih _ _ h)
        · cases h
          exact Nat.lt_succ_self n

/-- A read that persists does not end without the lock: by induction on the rounds. -/
theorem Persists.readFrom_locked {attempts : Nat → Attempt} (h : P.Persists key attempts) :
    ∀ fuel n s, (∀ k < n, (attempts k).locked = false) →
      P.unlockedState key attempts n = some s → ∀ value rounds,
      P.readFrom key attempts fuel n s = some (value, rounds) →
        ∃ k < rounds, (attempts k).locked = true := by
  intro fuel
  induction fuel with
  | zero => intro n s _ _ value rounds hread; cases hread
  | succ fuel ih =>
    intro n s hunlocked hstate value rounds hread
    have hround := lt_of_readFrom _ _ _ hread
    rw [readFrom] at hread
    cases hfind : P.findNext key s.skip s.lastIndex with
    | none => simp [hfind] at hread
    | some r =>
      obtain ⟨m, i⟩ := r
      simp only [hfind] at hread
      cases hlocked : (attempts n).locked with
      | true => exact ⟨n, hround, hlocked⟩
      | false =>
        obtain ⟨hfound, s', hround, hstate'⟩ := unlockedState_step hstate hlocked hfind
        have hunlocked' : ∀ k < n + 1, (attempts k).locked = false := by
          intro k hk
          rcases Nat.lt_succ_iff_lt_or_eq.mp hk with hk | rfl
          · exact hunlocked k hk
          · exact hlocked
        obtain ⟨skip, i', hfailover, hreads⟩ := unlockedState_eq_some hstate'
        have hgoes := hreads.mpr
          (h n (fun k hk => hunlocked' k (Nat.lt_succ_of_le hk)) hfound skip i' hfailover)
        simp only [hround, if_pos hgoes] at hread
        exact ih (n + 1) s' hunlocked' hstate' value rounds hread

theorem failoverAfter_ne_none {r r' : Nat} (hle : r ≤ r')
    (h : P.failoverAfter key r' ≠ none) : P.failoverAfter key r ≠ none := by
  induction r' with
  | zero =>
    obtain rfl := Nat.le_zero.mp hle
    exact h
  | succ r' ih =>
    rcases Nat.le_succ_iff.mp hle with hle | rfl
    · refine ih hle ?_
      intro hnone
      rw [failoverAfter, hnone] at h
      exact h rfl
    · exact h

/-- If the bounds are met up to round `n` and not in it, the read ends there: by induction on the
    rounds in front. -/
theorem readFrom_unlocked {attempts : Nat → Attempt} {n : Nat}
    (hunlocked : ∀ k ≤ n, (attempts k).locked = false)
    (hfound : P.failoverAfter key (refusals attempts n + 1) ≠ none)
    (hearlier : ∀ k < n, ∀ s, P.unlockedState key attempts (k + 1) = some s → P.readsOn s)
    (hlast : ∀ s, P.unlockedState key attempts (n + 1) = some s → ¬ P.readsOn s) :
    ∀ fuel k s, k + fuel = n → P.unlockedState key attempts k = some s →
      P.readFrom key attempts (fuel + 1) k s = some ([], n + 1) := by
  -- Every round up to `n` finds its server, for so does one that makes a further refusal.
  have hfind : ∀ k ≤ n, ∀ s, P.unlockedState key attempts k = some s →
      ∃ m i, P.findNext key s.skip s.lastIndex = some (m, i) := by
    intro k hk s hs
    obtain ⟨⟨skip, index⟩, hfailover, rfl⟩ := Option.map_eq_some_iff.mp hs
    have hmono : refusals attempts k ≤ refusals attempts n := refusals_mono attempts hk
    have hnext : P.failoverAfter key (refusals attempts k + 1) ≠ none :=
      failoverAfter_ne_none (Nat.succ_le_succ hmono) hfound
    rw [failoverAfter, hfailover] at hnext
    cases hfind : P.findNext key skip index with
    | none => simp [hfind] at hnext
    | some r => exact ⟨r.1, r.2, hfind⟩
  intro fuel
  induction fuel with
  | zero =>
    intro k s hk hs
    obtain rfl : k = n := hk
    obtain ⟨m, i, hserver⟩ := hfind k (Nat.le_refl k) s hs
    obtain ⟨-, s', hround, hs'⟩ := unlockedState_step hs (hunlocked k (Nat.le_refl k)) hserver
    simp only [readFrom, hserver, hround, if_neg (hlast s' hs')]
  | succ fuel ih =>
    intro k s hk hs
    obtain ⟨m, i, hserver⟩ := hfind k (by omega) s hs
    obtain ⟨-, s', hround, hs'⟩ := unlockedState_step hs (hunlocked k (by omega)) hserver
    rw [readFrom]
    simp only [hserver, hround, if_pos (hearlier k (by omega) s' hs')]
    exact ih (k + 1) s' (by omega) hs'

theorem unlockedState_zero (attempts : Nat → Attempt) :
    P.unlockedState key attempts 0 = some P.readStart := by
  have hremaining : (P.lockTimeout : Int) * 1000000 * 2 - (0 : Nat) = P.lockTimeout * 1000000 * 2 :=
    Int.sub_zero _
  show some (P.missed [] 0 0) = some P.readStart
  rw [missed, readStart, show pauses 0 = 0 from rfl, hremaining]
  rfl

/-- The first round that does not meet the bounds would end the read without the lock. -/
theorem persists_of_lockedRead {attempts : Nat → Attempt}
    (h : ∀ fuel value rounds, P.readFrom key attempts fuel 0 P.readStart = some (value, rounds) →
      ∃ k < rounds, (attempts k).locked = true) : P.Persists key attempts := by
  intro n
  induction n using Nat.strongRecOn with
  | _ n ih =>
    intro hunlocked hfound skip i hfailover
    by_contra hbounds
    have hearlier : ∀ k < n, ∀ s, P.unlockedState key attempts (k + 1) = some s →
        P.readsOn s := by
      intro k hk s hs
      obtain ⟨skip', i', hfailover', hreads⟩ := unlockedState_eq_some hs
      have hmono : refusals attempts k ≤ refusals attempts n := refusals_mono attempts (by omega)
      exact hreads.mpr (ih k hk (fun j hj => hunlocked j (by omega))
        (failoverAfter_ne_none (Nat.succ_le_succ hmono) hfound) skip' i' hfailover')
    have hlast : ∀ s, P.unlockedState key attempts (n + 1) = some s → ¬ P.readsOn s := by
      intro s hs hreads
      obtain ⟨skip', i', hfailover', hiff⟩ := unlockedState_eq_some hs
      rw [hfailover] at hfailover'
      cases hfailover'
      exact hbounds (hiff.mp hreads)
    have hread := readFrom_unlocked hunlocked hfound hearlier hlast n 0 P.readStart
      (Nat.zero_add n) (unlockedState_zero attempts)
    obtain ⟨k, hk, hlocked⟩ := h (n + 1) [] (n + 1) hread
    rw [hunlocked k (Nat.lt_succ_iff.mp hk)] at hlocked
    cases hlocked

/-- A pool of one server. -/
def lonely : SessionPool where
  findServer _ := 0
  servers := [0]
  redundancy := 2
  maxFailoverAttempts := 20
  lockTimeout := 15
  keyPrefix := []
  findServer_mem _ := by decide
  redundancy_pos := by decide
  maxFailoverAttempts_pos := by decide
  lockTimeout_pos := by decide

end SessionPool

end PeclMemcache
