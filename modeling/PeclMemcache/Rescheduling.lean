import PeclMemcache.Stale
import PeclMemcache.TextGrammar

set_option autoImplicit false

/-! # What a failed multi-key get reschedules

`mmc_value_failover_handler` does not look at the keys of the request that failed. It goes through all
keys of the call and reschedules those it does not find in the array of results, where a result is
entered under what came back from the server and a numeric string becomes an integer. -/

namespace PeclMemcache

open Stateful

/-! ## Keys of PHP arrays -/

/-- An element of the array of keys: a string or an integer. -/
inductive KeyZval
  | string (s : Bytes)
  | long (n : Int64)
  deriving DecidableEq, Repr

/-- The string that `mmc_prepare_key` makes of it, and `mmc_binary_parse_value`. -/
def KeyZval.str : KeyZval → Bytes
  | .string s => s
  | .long n => decimalInt n.toInt

/-- A key of a PHP array. -/
inductive ArrayKey
  | string (s : Bytes)
  | long (n : Int)
  deriving DecidableEq, Repr

/-- `ZEND_HANDLE_NUMERIC_STR`: the integer that is spelled by the string, without leading zeros. -/
def zendHandleNumericStr (s : Bytes) : Option Int :=
  let digits := if s.head? = some 45 then s.tail else s
  if digits = [] ∨ ¬digits.all isDigit ∨ (digits.head? = some 48 ∧ 1 < s.length)
      ∨ 19 < digits.length then none
  else if s.head? = some 45 then
    if digitsValue digits ≤ 2 ^ 63 then some (-digitsValue digits) else none
  else if digitsValue digits < 2 ^ 63 then some (digitsValue digits) else none

/-- The key that `add_assoc_zval_ex` enters a value under. -/
def zendSymtableKey (s : Bytes) : ArrayKey :=
  match zendHandleNumericStr s with
  | some n => .long n
  | none => .string s

/-- `zend_hash_str_exists`, which knows nothing of numeric strings. -/
def zendHashStrExists (array : List ArrayKey) (s : Bytes) : Bool := .string s ∈ array

/-! ## The handler -/

/-- What the handler meets when it comes to a key: the keys whose values have arrived, whether the key
    is outstanding at a healthy server (in a request that was not built by this call of the handler),
    and whether the server it is mapped to now is valid. User code, other failures and further results
    may come between two keys. -/
structure KeyVisit where
  key : KeyZval
  arrived : List KeyZval := []
  outstanding : Bool := false
  serverValid : Bool := true
  deriving DecidableEq, Repr

/-- A call of `mmc_value_failover_handler`: the settings, how many servers are in the record of the
    failed request and how often it asks for each key, and what is met at the keys of the call. -/
structure ValueFailover where
  protocol : WireProtocol := .ascii
  keyPrefix : Bytes := []
  allowFailover : Bool := true
  maxFailoverAttempts : Nat := 20
  failedServers : Nat := 0
  carried : KeyZval → Nat
  visits : List KeyVisit

namespace ValueFailover

variable (f : ValueFailover)

/-- The key `mmc_value_handler_multi` is called with: the text protocol passes on what the server sends
    back, the binary one the key of the user. -/
def handlerKey (k : KeyZval) : Bytes :=
  match f.protocol with
  | .ascii => (mmcPrepareKeyEx k.str f.keyPrefix).getD []
  | .binary => k.str

/-- The keys of the array of results, which `memcache_get` initialises for an array of keys. -/
def resultKeys (arrived : List KeyZval) : List ArrayKey :=
  arrived.map fun k => zendSymtableKey (f.handlerKey k)

/-- `mmc_pool_schedule_get` accepts the key: it can be prepared, and its server is valid. -/
def schedules (v : KeyVisit) : Bool :=
  (mmcPrepareKeyEx v.key.str f.keyPrefix).isSome && v.serverValid

/-- The loop over the keys, with the visits that end in a request; `none` where the behaviour is
    undefined. -/
def reschedule : List KeyVisit → Option (List KeyVisit)
  | [] => some []
  | v :: rest =>
    match v.key with
    | .long _ => none -- `Z_STRVAL_P(key)` takes the integer for a pointer
    | .string s =>
      if !zendHashStrExists (f.resultKeys v.arrived) s && f.schedules v then
        (reschedule rest).map (v :: ·)
      else reschedule rest

/-- The failover is not allowed or has no attempts left. -/
def spent : Bool := !f.allowFailover || f.maxFailoverAttempts ≤ f.failedServers

/-- `mmc_value_failover_handler`, as far as the keys are concerned. -/
def mmcValueFailoverHandler : Option (List KeyVisit) :=
  if f.spent then some [] else f.reschedule f.visits

/-! ## What should be rescheduled -/

/-- The key has a result or will get one. -/
def Settled (v : KeyVisit) : Prop := v.key ∈ v.arrived ∨ v.outstanding

instance (v : KeyVisit) : Decidable (Settled v) := by unfold Settled; infer_instance

/-- The failed request asks for the key, which is not settled otherwise. -/
def Missing (k : KeyZval) : Prop :=
  f.carried k ≠ 0 ∧ ∀ v ∈ f.visits, v.key = k → ¬Settled v

/-- Nothing is rescheduled that is settled, and each key that is missing as often as the failed request
    asks for it. -/
def ExactlyMissing : Prop :=
  ∃ again, f.mmcValueFailoverHandler = some again ∧ (∀ v ∈ again, ¬Settled v) ∧
    ∀ k, f.Missing k → again.countP (fun v => v.key = k) = f.carried k

/-- The array of results has an entry for exactly the string of the key. -/
def Entered (v : KeyVisit) : Prop := .string v.key.str ∈ f.resultKeys v.arrived

instance (v : KeyVisit) : Decidable (f.Entered v) := by unfold Entered; infer_instance

/-- The condition. There are attempts left or nothing is missing; with attempts left all keys are
    strings, every key that is settled has an entry for exactly its string or no valid server, and every
    key that is missing stands in the array, with a valid server and without such an entry, as often as
    in the failed request. -/
structure Recognised : Prop where
  spent : f.spent → ∀ k, ¬f.Missing k
  strings : ¬f.spent → ∀ v ∈ f.visits, ∀ n, v.key ≠ .long n
  settled : ¬f.spent → ∀ v ∈ f.visits, Settled v → f.schedules v → f.Entered v
  missing : ¬f.spent → ∀ k, f.Missing k →
    f.visits.countP (fun v => v.key = k ∧ ¬f.Entered v ∧ f.schedules v) = f.carried k

/-! ## What the handler does -/

variable {f}

/-- **What the loop does**: all keys are strings, and those without an entry of their own are
    rescheduled if they have a server. -/
theorem reschedule_eq_some_iff (visits again : List KeyVisit) :
    f.reschedule visits = some again ↔ (∀ v ∈ visits, ∀ n, v.key ≠ .long n) ∧
      again = visits.filter fun v => ¬f.Entered v ∧ f.schedules v := by
  induction visits generalizing again with
  | nil =>
    rw [reschedule, List.filter_nil, Option.some.injEq]
    exact ⟨fun h => ⟨by simp, h.symm⟩, fun h => h.2.symm⟩
  | cons v rest ih =>
    rw [reschedule, List.forall_mem_cons]
    cases hkey : v.key with
    | long n => simp
    | string s =>
      have hentered : f.Entered v ↔ zendHashStrExists (f.resultKeys v.arrived) s = true := by
        rw [Entered, hkey, zendHashStrExists, decide_eq_true_iff]
        rfl
      by_cases hagain : ¬f.Entered v ∧ f.schedules v
      · have htest : (!zendHashStrExists (f.resultKeys v.arrived) s && f.schedules v) = true := by
          simpa [hentered] using hagain
        have htail : (f.reschedule rest).map (v :: ·) = some again ↔
            ∃ again', f.reschedule rest = some again' ∧ v :: again' = again := Option.map_eq_some_iff
        dsimp only
        rw [if_pos htest, htail, List.filter_cons_of_pos (by simpa using hagain)]
        constructor
        · rintro ⟨again', hrest, rfl⟩
          obtain ⟨hstrings, rfl⟩ := (ih again').mp hrest
          exact ⟨⟨by simp, hstrings⟩, rfl⟩
        · rintro ⟨⟨-, hstrings⟩, rfl⟩
          exact ⟨_, (ih _).mpr ⟨hstrings, rfl⟩, rfl⟩
      · have htest : ¬(!zendHashStrExists (f.resultKeys v.arrived) s && f.schedules v) = true := by
          simpa [hentered] using hagain
        dsimp only
        rw [if_neg htest, ih, List.filter_cons_of_neg (by simpa using hagain)]
        simp

theorem handler_of_spent (hspent : f.spent) : f.mmcValueFailoverHandler = some [] := by
  rw [mmcValueFailoverHandler, if_pos hspent]

theorem handler_of_attempts (hspent : ¬f.spent) :
    f.mmcValueFailoverHandler = f.reschedule f.visits := by
  rw [mmcValueFailoverHandler, if_neg hspent]

/-- How often the handler reschedules a key. -/
theorem countP_rescheduled (k : KeyZval) :
    (f.visits.filter fun v => ¬f.Entered v ∧ f.schedules v).countP (fun v => v.key = k)
      = f.visits.countP fun v => v.key = k ∧ ¬f.Entered v ∧ f.schedules v := by
  rw [List.countP_filter]
  refine List.countP_congr fun v _ => ?_
  simp

/-- **Exactly what is missing** is rescheduled if and only if the handler recognises it. -/
theorem exactlyMissing_iff_recognised (f : ValueFailover) : f.ExactlyMissing ↔ f.Recognised := by
  by_cases hspent : f.spent
  · constructor
    · rintro ⟨again, hagain, -, hmissing⟩
      rw [handler_of_spent hspent] at hagain
      cases hagain
      refine ⟨fun _ k hk => hk.1 (hmissing k hk).symm, ?_, ?_, ?_⟩ <;> exact fun h => absurd hspent h
    · intro h
      exact ⟨[], handler_of_spent hspent, by simp, fun k hk => absurd hk (h.spent hspent k)⟩
  · unfold ExactlyMissing
    rw [handler_of_attempts hspent]
    constructor
    · rintro ⟨again, hagain, hsettled, hmissing⟩
      obtain ⟨hstrings, rfl⟩ := (reschedule_eq_some_iff _ _).mp hagain
      refine ⟨fun h => absurd h hspent, fun _ => hstrings, ?_, ?_⟩
      · intro _ v hv hdone hschedules
        by_contra hentered
        exact hsettled v (List.mem_filter.mpr ⟨hv, by simp [hentered, hschedules]⟩) hdone
      · intro _ k hk
        rw [← countP_rescheduled]
        exact hmissing k hk
    · intro h
      refine ⟨_, (reschedule_eq_some_iff _ _).mpr ⟨h.strings hspent, rfl⟩, ?_, ?_⟩
      · intro v hv hdone
        obtain ⟨hv, hagain⟩ := List.mem_filter.mp hv
        have hagain : ¬f.Entered v ∧ f.schedules v = true := by simpa using hagain
        exact hagain.1 (h.settled hspent v hv hdone hagain.2)
      · intro k hk
        rw [countP_rescheduled]
        exact h.missing hspent k hk

/-- Two numeric keys on different servers: the value of the first has arrived when the server of the
    second fails, and both are rescheduled. -/
theorem numericKeys_not_exactlyMissing :
    ¬ExactlyMissing
      { carried := fun k => if k = .string [50] then 1 else 0
        visits := [
          { key := .string [49], arrived := [.string [49]] },
          { key := .string [50], arrived := [.string [49]] }] } := by
  rintro ⟨again, hagain, hsettled, -⟩
  rw [handler_of_attempts (by decide), reschedule_eq_some_iff] at hagain
  rw [hagain.2] at hsettled
  exact absurd (hsettled { key := .string [49], arrived := [.string [49]] } (by decide)) (by decide)

/-! ## Which keys are recognised -/

theorem zendSymtableKey_eq_string_iff (s t : Bytes) :
    zendSymtableKey s = .string t ↔ zendHandleNumericStr t = none ∧ s = t := by
  unfold zendSymtableKey
  constructor
  · intro h
    cases hnumeric : zendHandleNumericStr s with
    | some n =>
      rw [hnumeric] at h
      cases h
    | none =>
      rw [hnumeric] at h
      cases h
      exact ⟨hnumeric, rfl⟩
  · rintro ⟨hnumeric, rfl⟩
    rw [hnumeric]

/-- A key is recognised by the result of a key that comes back as its string, which is not numeric. -/
theorem entered_iff (v : KeyVisit) :
    f.Entered v ↔
      zendHandleNumericStr v.key.str = none ∧ ∃ k ∈ v.arrived, f.handlerKey k = v.key.str := by
  rw [Entered, resultKeys, List.mem_map]
  constructor
  · rintro ⟨k, hk, hstring⟩
    obtain ⟨hnumeric, hkey⟩ := (zendSymtableKey_eq_string_iff _ _).mp hstring
    exact ⟨hnumeric, k, hk, hkey⟩
  · rintro ⟨hnumeric, k, hk, hkey⟩
    exact ⟨k, hk, (zendSymtableKey_eq_string_iff _ _).mpr ⟨hnumeric, hkey⟩⟩

/-- A string that is no number and comes back as it is. -/
def Plain (f : ValueFailover) (k : KeyZval) : Prop :=
  ∃ s, k = .string s ∧ zendHandleNumericStr s = none ∧ f.handlerKey k = s

/-- **Plain keys are recognised**: it is enough that the keys are plain and different, all servers they
    are mapped to are valid, none is outstanding elsewhere, and the failed request asks once for each of
    its keys. -/
theorem recognised_of_plain (hspent : ¬f.spent) (hplain : ∀ v ∈ f.visits, f.Plain v.key)
    (harrived : ∀ v ∈ f.visits, ∀ k ∈ v.arrived, f.Plain k)
    (hdistinct : (f.visits.map KeyVisit.key).Nodup) (hvalid : ∀ v ∈ f.visits, f.schedules v)
    (halone : ∀ v ∈ f.visits, v.outstanding = false)
    (hcarried : ∀ k, f.carried k ≠ 0 → f.carried k = 1 ∧ k ∈ f.visits.map KeyVisit.key) :
    f.Recognised := by
  refine ⟨fun h => absurd h hspent, ?_, ?_, ?_⟩
  · intro _ v hv n hlong
    obtain ⟨s, hs, -⟩ := hplain v hv
    cases hlong.symm.trans hs
  · intro _ v hv hsettled _
    obtain ⟨s, hs, hnumeric, hkey⟩ := hplain v hv
    rcases hsettled with hmem | hout
    · rw [entered_iff, hs]
      rw [hs] at hmem hkey
      exact ⟨hnumeric, _, hmem, hkey⟩
    · rw [halone v hv] at hout
      cases hout
  · intro _ k hk
    obtain ⟨hone, hmem⟩ := hcarried k hk.1
    -- an entry for the string of a plain key is its own
    have hunmasked : ∀ v ∈ f.visits, v.key = k → ¬f.Entered v := by
      intro v hv hvk hentered
      obtain ⟨s, hs, -⟩ := hplain v hv
      obtain ⟨-, k', hk', hsame⟩ := (entered_iff v).mp hentered
      obtain ⟨s', hs', -, hkey⟩ := harrived v hv k' hk'
      refine hk.2 v hv hvk (Or.inl ?_)
      rw [hkey, hs] at hsame
      rw [hs, ← show s' = s from hsame, ← hs']
      exact hk'
    have hcount : f.visits.countP (fun v => v.key = k ∧ ¬f.Entered v ∧ f.schedules v)
        = (f.visits.map KeyVisit.key).count k := by
      rw [List.count, List.countP_map]
      refine List.countP_congr fun v hv => ?_
      have := hunmasked v hv
      have := hvalid v hv
      simp_all
    rw [hcount, List.count_eq_one_of_mem hdistinct hmem, hone]

end ValueFailover

/-! ## The handler of the pool -/

section

variable {E : Env} {fuel : Nat} {fh : Failover}

/-- **One key of the handler**: where the results of the call are the strings of the array, the handler
    goes on with a key that has an entry, and hands on one that has none. -/
theorem rescheduleKey_visit (f : ValueFailover) (hfh : ∀ m r, Within Logged Logged (fh m r)) (r : ReqId)
    (c : Nat) (zkey : ZKey) (v : KeyVisit) (hkey : v.key.str = zkey.str) (w : World)
    (hresults : ∀ s, s ∈ (w.call c).results ↔ .string s ∈ f.resultKeys v.arrived) :
    wp (rescheduleKey E fuel fh r c zkey)
      (fun _ w' => if f.Entered v then w' = w else .handed c zkey :: w.log <:+ w'.log)
      (fun _ => ¬f.Entered v) w := by
  have hentered : zkey.str ∈ (w.call c).results ↔ f.Entered v := by
    rw [hresults, ← hkey]
    rfl
  have hget := within_mmcPoolScheduleGet (frame_logged E) (builds_logged E fuel) hfh
  simp only [rescheduleKey, wp_bind, wp_getCall, wp_doWhen, wp_step, wp_getReq, wp_pure, hentered]
  refine ⟨fun hnone => ⟨fun _ => ?_, fun _ => hnone⟩, fun hentry => ?_⟩
  · refine wp_mono (hget _ zkey _) (fun _ w' h => ?_) fun _ _ => hnone
    rw [if_neg hnone]
    exact h
  · rw [if_pos (not_not.mp hentry)]
    trivial

end

end PeclMemcache
