import PeclMemcache.SessionClients
import PeclMemcache.SessionLoops

set_option autoImplicit false

/-! # The servers of a session

`PS_READ` and the two handlers that follow it go through the servers of a key in loops of their own,
which push to the skip list and move the index at different moments. Both get the servers in the same
order, whatever the rounds meet: a read contacts the first of those that a write or a destroy
contacts. -/

namespace PeclMemcache

/-! ## The rounds of the loops -/

/-- The round ends with a pause and without its server on the skip list. -/
def Attempt.backsOff (a : Attempt) : Bool := !a.isRefused && !a.locked

/-- The servers of some rounds of `PS_READ`, without the attempts that repeat the one before on the
    same server; `again` is the server of the attempt before if it ended with a pause. -/
def firstAttempts : Option Mmc → List (Mmc × Attempt) → List Mmc
  | _, [] => []
  | again, (mmc, a) :: rest =>
    let others := firstAttempts (if a.backsOff then some mmc else none) rest
    if again = some mmc then others else mmc :: others

/-- The servers that have taken the requests. -/
def taken (rounds : List (Mmc × Bool)) : List Mmc := (rounds.filter Prod.snd).map Prod.fst

/-- The deletes of `PS_DESTROY`, in the order they are scheduled. -/
def destroyRequests (key : Bytes) (visited : List Mmc) : List (Mmc × Bytes) :=
  visited.flatMap fun mmc => [(mmc, key), (mmc, lockKey key)]

namespace SessionPool

section

variable (P : SessionPool) (key : Bytes)

/-- The rounds of `PS_READ`, the first `fuel` from round `n` on: the server, and what the round meets
    there. -/
def readRoundsFrom (attempts : Nat → Attempt) : Nat → Nat → ReadState → List (Mmc × Attempt)
  | 0, _, _ => []
  | fuel + 1, n, s =>
    match P.findNext key s.skip s.lastIndex with
    | none => []
    | some (mmc, i) =>
      (mmc, attempts n) ::
        match P.readRound s mmc i (attempts n) with
        | .inr _ => []
        | .inl s' => if P.readsOn s' then readRoundsFrom attempts fuel (n + 1) s' else []

/-- The rounds of `PS_WRITE` and `PS_DESTROY`, the first `fuel` from round `n` on: the server, and
    whether it takes the two requests. -/
def visitRoundsFrom (takes : Nat → Bool) : Nat → Nat → List Mmc → UInt32 → List (Mmc × Bool)
  | 0, _, _, _ => []
  | fuel + 1, n, skip, i =>
    match P.findNext key skip i with
    | none => []
    | some (mmc, i) =>
      let skip := mmcQueuePush skip mmc
      -- A server that does not take the requests leads to `continue`, and so to the same condition.
      (mmc, takes n) ::
        if P.wantsMore skip then visitRoundsFrom takes fuel (n + 1) skip i else []

end

variable (P : SessionPool) (sid : Bytes)

/-- The first `fuel` rounds of `PS_READ` for a session. -/
def psReadRounds (attempts : Nat → Attempt) (fuel : Nat) : List (Mmc × Attempt) :=
  match mmcPrepareKeyEx sid P.keyPrefix with
  | none => []
  | some key => P.readRoundsFrom key attempts fuel 0 P.readStart

/-- The first `fuel` rounds of `PS_WRITE`, or of `PS_DESTROY`, for a session. -/
def psVisitRounds (takes : Nat → Bool) (fuel : Nat) : List (Mmc × Bool) :=
  match mmcPrepareKeyEx sid P.keyPrefix with
  | none => []
  | some key => P.visitRoundsFrom key takes fuel 0 [] 0

/-! ## These are the rounds of the handlers -/

variable {P sid} {key : Bytes}

theorem length_readRoundsFrom {attempts : Nat → Attempt} {value : Bytes} {rounds : Nat} :
    ∀ fuel n s, P.readFrom key attempts fuel n s = some (value, rounds) →
      n + (P.readRoundsFrom key attempts fuel n s).length = rounds := by
  intro fuel
  induction fuel with
  | zero => intro n s h; cases h
  | succ fuel ih =>
    intro n s h
    rw [readFrom] at h
    rw [readRoundsFrom]
    cases hfind : P.findNext key s.skip s.lastIndex with
    | none => simp [hfind] at h
    | some r =>
      simp only [hfind] at h
      cases hround : P.readRound s r.1 r.2 (attempts n) with
      | inr data =>
        simp only [hround, Option.some.injEq, Prod.mk.injEq] at h
        simp only [hround]
        exact h.2
      | inl s' =>
        simp only [hround] at h
        dsimp only
        split at h
        · next hon =>
          have hrest := ih (n + 1) s' h
          rw [hround]
          dsimp only
          rw [if_pos hon, List.length_cons]
          omega
        · next hon =>
          cases h
          rw [hround]
          dsimp only
          rw [if_neg hon]
          rfl

theorem map_visitRoundsFrom {takes : Nat → Bool} {visited : List Mmc} :
    ∀ fuel n skip i, P.visitFrom key fuel skip i = some visited →
      (P.visitRoundsFrom key takes fuel n skip i).map Prod.fst = visited := by
  intro fuel
  induction fuel generalizing visited with
  | zero => intro n skip i h; cases h
  | succ fuel ih =>
    intro n skip i h
    rw [visitFrom] at h
    rw [visitRoundsFrom]
    cases hfind : P.findNext key skip i with
    | none => simp [hfind] at h
    | some r =>
      simp only [hfind] at h
      dsimp only
      split at h
      · next hmore =>
        obtain ⟨rest, hrest, rfl⟩ := Option.map_eq_some_iff.mp h
        rw [if_pos hmore, List.map_cons, ih (n + 1) _ _ hrest]
      · next hmore =>
        cases h
        rw [if_neg hmore]
        rfl

/-! ## The common order -/

/-- With more fuel, rounds only follow. -/
theorem map_visitRoundsFrom_le (takes : Nat → Bool) {fuel fuel' : Nat} (hle : fuel ≤ fuel') :
    ∀ n skip i, (P.visitRoundsFrom key takes fuel n skip i).map Prod.fst <+:
      (P.visitRoundsFrom key takes fuel' n skip i).map Prod.fst := by
  induction fuel generalizing fuel' with
  | zero => intro n skip i; exact List.nil_prefix
  | succ fuel ih =>
    intro n skip i
    obtain ⟨fuel', rfl⟩ := Nat.exists_eq_add_of_le' hle
    rw [visitRoundsFrom, ← Nat.add_assoc, visitRoundsFrom]
    cases P.findNext key skip i with
    | none => exact List.prefix_rfl
    | some r =>
      dsimp only
      split
      · exact (List.prefix_cons_inj r.1).mpr (ih (Nat.le_add_left fuel fuel') (n + 1) _ _)
      · exact List.prefix_rfl

/-- By induction on the rounds of the read, where the write stands at the same skip list and index, or
    has made its round on the server whose attempts the read repeats. -/
theorem firstAttempts_contacted (attempts : Nat → Attempt) (takes : Nat → Bool) :
    ∀ fuel n n' s,
      firstAttempts none (P.readRoundsFrom key attempts fuel n s) <+:
          (P.visitRoundsFrom key takes fuel n' s.skip s.lastIndex).map Prod.fst ∧
        ∀ m i, P.findNext key s.skip s.lastIndex = some (m, i) →
          m :: firstAttempts (some m) (P.readRoundsFrom key attempts fuel n s) <+:
            (P.visitRoundsFrom key takes (fuel + 1) n' s.skip s.lastIndex).map Prod.fst := by
  intro fuel
  induction fuel with
  | zero =>
    intro n n' s
    refine ⟨List.nil_prefix, ?_⟩
    intro m i hfind
    rw [visitRoundsFrom, hfind]
    exact (List.prefix_cons_inj m).mpr List.nil_prefix
  | succ fuel ih =>
    intro n n' s
    have hlonger := @map_visitRoundsFrom_le P key takes (fuel + 1) (fuel + 2) (Nat.le_succ _) n'
      s.skip s.lastIndex
    cases hfind : P.findNext key s.skip s.lastIndex with
    | none =>
      rw [readRoundsFrom, hfind]
      refine ⟨List.nil_prefix, ?_⟩
      intro m i h
      cases h
    | some r =>
      obtain ⟨m, i⟩ := r
      -- Both parts of the statement are about the first attempt on `m` and those after it.
      suffices hfirst : m :: firstAttempts (if (attempts n).backsOff then some m else none)
          ((P.readRoundsFrom key attempts (fuel + 1) n s).tail) <+:
          (P.visitRoundsFrom key takes (fuel + 1) n' s.skip s.lastIndex).map Prod.fst by
        have hrounds : P.readRoundsFrom key attempts (fuel + 1) n s
            = (m, attempts n) :: (P.readRoundsFrom key attempts (fuel + 1) n s).tail := by
          rw [readRoundsFrom, hfind]
          rfl
        constructor
        · rw [hrounds]
          exact hfirst
        · intro m' i' h
          cases h
          rw [hrounds, firstAttempts, if_pos rfl]
          exact hfirst.trans hlonger
      rw [readRoundsFrom, hfind, List.tail_cons]
      have hvisit : (P.visitRoundsFrom key takes (fuel + 1) n' s.skip s.lastIndex).map Prod.fst
          = m :: (if P.wantsMore (mmcQueuePush s.skip m) then
              P.visitRoundsFrom key takes fuel (n' + 1) (mmcQueuePush s.skip m) i
            else []).map Prod.fst := by
        rw [visitRoundsFrom, hfind]
        rfl
      have hlast : ∀ again, m :: firstAttempts again [] <+:
          (P.visitRoundsFrom key takes (fuel + 1) n' s.skip s.lastIndex).map Prod.fst := by
        intro again
        rw [hvisit]
        exact (List.prefix_cons_inj m).mpr List.nil_prefix
      rcases P.readRound_cases s m i (attempts n) with
        ⟨-, value, hround⟩ | ⟨hskips, hround⟩ | ⟨hrefused, hlocked, hround⟩
      · rw [hround]
        exact hlast _
      · have hbacks : (attempts n).backsOff = false := by
          unfold Attempt.backsOff
          rcases hskips with hskips | hskips <;> simp [hskips]
        rw [hround, hbacks, if_neg Bool.false_ne_true]
        dsimp only
        split
        · next hon =>
          rw [hvisit, if_pos (show P.wantsMore (mmcQueuePush s.skip m) from hon.1)]
          exact (List.prefix_cons_inj m).mpr (ih (n + 1) (n' + 1) (s.skipServer m i)).1
        · exact hlast _
      · have hbacks : (attempts n).backsOff = true := by
          unfold Attempt.backsOff
          rw [hrefused, hlocked]
          rfl
        rw [hround, hbacks, if_pos rfl]
        dsimp only
        split
        · exact (ih (n + 1) n' s.backOff).2 m i hfind
        · exact hlast _

/-- Every server of the read is the server of a first attempt. -/
theorem mem_firstAttempts {mmc : Mmc} {a : Attempt} :
    ∀ (rounds : List (Mmc × Attempt)) (again : Option Mmc), (mmc, a) ∈ rounds →
      again = some mmc ∨ mmc ∈ firstAttempts again rounds := by
  intro rounds
  induction rounds with
  | nil => intro again h; cases h
  | cons r rest ih =>
    obtain ⟨m, b⟩ := r
    intro again h
    rw [firstAttempts]
    rcases List.mem_cons.mp h with h | h
    · cases h
      by_cases hagain : again = some mmc
      · exact Or.inl hagain
      · rw [if_neg hagain]
        exact Or.inr List.mem_cons_self
    · by_cases hsame : m = mmc
      · subst hsame
        by_cases hagain : again = some m
        · exact Or.inl hagain
        · rw [if_neg hagain]
          exact Or.inr List.mem_cons_self
      · have hlater : mmc ∈ firstAttempts (if b.backsOff then some m else none) rest := by
          refine (ih _ h).resolve_left ?_
          split
          · exact fun heq => hsame (Option.some.inj heq)
          · exact nofun
        right
        split
        · exact hlater
        · exact List.mem_cons_of_mem m hlater

theorem mem_taken {rounds : List (Mmc × Bool)} {mmc : Mmc} (h : mmc ∈ rounds.map Prod.fst)
    (htakes : (mmc, false) ∉ rounds) : mmc ∈ taken rounds := by
  obtain ⟨⟨m, b⟩, hmem, rfl⟩ := List.mem_map.mp h
  cases b with
  | false => exact absurd hmem htakes
  | true => exact List.mem_map_of_mem (List.mem_filter.mpr ⟨hmem, rfl⟩)

theorem firstAttempts_psReadRounds (P : SessionPool) (sid : Bytes) (attempts : Nat → Attempt)
    (takes : Nat → Bool) {fuel fuel' : Nat} (hle : fuel ≤ fuel') :
    firstAttempts none (P.psReadRounds sid attempts fuel) <+:
      (P.psVisitRounds sid takes fuel').map Prod.fst := by
  unfold psReadRounds psVisitRounds
  cases mmcPrepareKeyEx sid P.keyPrefix with
  | none => exact List.nil_prefix
  | some key =>
    have hsame := (@firstAttempts_contacted P key attempts takes fuel 0 0 P.readStart).1
    exact hsame.trans (map_visitRoundsFrom_le takes hle 0 [] 0)

theorem head_readRoundsFrom (attempts : Nat → Attempt) (fuel n : Nat) (s : ReadState) :
    (P.readRoundsFrom key attempts (fuel + 1) n s).head?.map Prod.fst
      = (P.findNext key s.skip s.lastIndex).map Prod.fst := by
  rw [readRoundsFrom]
  cases P.findNext key s.skip s.lastIndex <;> rfl

theorem head_visitRoundsFrom (takes : Nat → Bool) (fuel n : Nat) (skip : List Mmc) (i : UInt32) :
    (P.visitRoundsFrom key takes (fuel + 1) n skip i).head?.map Prod.fst
      = (P.findNext key skip i).map Prod.fst := by
  rw [visitRoundsFrom]
  cases P.findNext key skip i <;> rfl

theorem head_psRounds (P : SessionPool) (sid : Bytes) (attempts : Nat → Attempt)
    (takes : Nat → Bool) (fuel : Nat) :
    (P.psReadRounds sid attempts fuel).head?.map Prod.fst
      = (P.psVisitRounds sid takes fuel).head?.map Prod.fst := by
  unfold psReadRounds psVisitRounds
  cases mmcPrepareKeyEx sid P.keyPrefix with
  | none => rfl
  | some key =>
    cases fuel with
    | zero => rfl
    | succ fuel =>
      dsimp only
      rw [head_readRoundsFrom, head_visitRoundsFrom]
      rfl

/-- If every server takes the requests, they are scheduled on all servers of the rounds. -/
theorem taken_psVisitRounds (P : SessionPool) (sid : Bytes) (fuel : Nat) :
    taken (P.psVisitRounds sid (fun _ => true) fuel)
      = (P.psVisitRounds sid (fun _ => true) fuel).map Prod.fst := by
  have hall : ∀ key fuel n skip i, ∀ r ∈ P.visitRoundsFrom key (fun _ => true) fuel n skip i,
      r.2 = true := by
    intro key fuel
    induction fuel with
    | zero => intro n skip i r hr; cases hr
    | succ fuel ih =>
      intro n skip i r hr
      rw [visitRoundsFrom] at hr
      cases hfind : P.findNext key skip i with
      | none => simp [hfind] at hr
      | some found =>
        simp only [hfind] at hr
        rcases List.mem_cons.mp hr with rfl | hr
        · rfl
        · split at hr
          · exact ih _ _ _ r hr
          · cases hr
  unfold taken psVisitRounds
  cases mmcPrepareKeyEx sid P.keyPrefix with
  | none => rfl
  | some key => rw [List.filter_eq_self.mpr (hall key fuel 0 [] 0)]

theorem head_writeRequests (value : Bytes) (visited : List Mmc) :
    (writeRequests value visited).head? = visited.head?.map fun mmc => (mmc, .setData value) := by
  cases visited <;> rfl

/-- The servers of the handlers of a session line up. A read of at most `fuel` rounds is compared with
    a write or a destroy of at least as many, which may end earlier. -/
structure LinesUp (P : SessionPool) (sid : Bytes) : Prop where
  /-- Without the repeated attempts, the read contacts the first servers of the write. -/
  contacts : ∀ attempts takes fuel fuel', fuel ≤ fuel' →
    firstAttempts none (P.psReadRounds sid attempts fuel) <+:
      (P.psVisitRounds sid takes fuel').map Prod.fst
  /-- The write contacts every server that gave the read a lock, and unless the server refuses the
      requests, the write resets the lock there and the destroy deletes it. -/
  released : ∀ attempts takes fuel fuel' mmc a, fuel ≤ fuel' →
    (mmc, a) ∈ P.psReadRounds sid attempts fuel → a.locked = true →
      mmc ∈ (P.psVisitRounds sid takes fuel').map Prod.fst ∧
        ((mmc, false) ∉ P.psVisitRounds sid takes fuel' →
          (∀ value, (mmc, .resetLock) ∈
            writeRequests value (taken (P.psVisitRounds sid takes fuel'))) ∧
          ∀ key, (mmc, lockKey key) ∈
            destroyRequests key (taken (P.psVisitRounds sid takes fuel')))
  /-- The server the read starts at is the one the write stores to first. -/
  first : ∀ attempts value fuel,
    (writeRequests value (taken (P.psVisitRounds sid (fun _ => true) fuel))).head?
      = (P.psReadRounds sid attempts fuel).head?.map fun r => (r.1, .setData value)

/-- **A read contacts the first servers of a write**, for every pool and every session, and whatever
    the rounds meet. -/
theorem session_linesUp (P : SessionPool) (sid : Bytes) : P.LinesUp sid where
  contacts attempts takes _ _ hle := P.firstAttempts_psReadRounds sid attempts takes hle
  released attempts takes fuel fuel' mmc a hle hmem _ := by
    have hfirst : mmc ∈ firstAttempts none (P.psReadRounds sid attempts fuel) :=
      (mem_firstAttempts _ none hmem).resolve_left nofun
    have hvisit := (P.firstAttempts_psReadRounds sid attempts takes hle).subset hfirst
    refine ⟨hvisit, ?_⟩
    intro htakes
    have htaken := mem_taken hvisit htakes
    constructor
    · intro value
      exact List.mem_flatMap.mpr ⟨mmc, htaken, by simp⟩
    · intro key
      exact List.mem_flatMap.mpr ⟨mmc, htaken, by simp⟩
  first attempts value fuel := by
    rw [taken_psVisitRounds, head_writeRequests, List.head?_map,
      ← P.head_psRounds sid attempts (fun _ => true) fuel, Option.map_map]
    rfl

end SessionPool

end PeclMemcache
