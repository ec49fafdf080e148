import PeclMemcache.Operations

set_option autoImplicit false

/-! # Stale persistent connections

A stream in use since an earlier request has the status `MMC_STATUS_UNKNOWN`, and a failure on it only
disconnects it: the request is to be retried. `mmc_select_retry` leaves the retry to the failover
handler of the request, which decides to which server it goes. -/

namespace PeclMemcache

open Stateful

/-! ## Servers at a moment -/

/-- `mmc_server_valid` at a given time. -/
def MmcServer.validAt (s : MmcServer) (time : Int) : Bool :=
  decide (s.tcp.status ≠ .failed ∨
    (0 ≤ s.tcp.retryInterval ∧ s.tcp.failed + s.tcp.retryInterval ≤ time))

/-- How often `mmc_server_valid` asks for the time. -/
def MmcServer.timeAsks (s : MmcServer) : Nat :=
  if s.tcp.status = .failed ∧ 0 ≤ s.tcp.retryInterval then 1 else 0

theorem wp_mmcServerValid (E : Env) (m : Mmc) (Q : Bool → World → Prop) (X : World → Prop)
    (w : World) :
    wp (mmcServerValid E m) Q X w ↔
      Q ((w.mmc m).validAt (E.time w.tick)) { w with tick := w.tick + (w.mmc m).timeAsks } := by
  unfold mmcServerValid MmcServer.validAt MmcServer.timeAsks
  rw [wp_bind, wp_getMmc]
  by_cases hfailed : (w.mmc m).tcp.status = .failed
  · by_cases hnever : (w.mmc m).tcp.retryInterval < 0
    · simp [hfailed, hnever, Int.not_le.mpr hnever]
    · rw [if_neg (not_not.mpr hfailed), if_neg hnever, wp_bind, wp_ask, wp_pure,
        if_pos ⟨hfailed, Int.not_lt.mp hnever⟩]
      simp [hfailed, Int.not_lt.mp hnever]
  · simp [hfailed]

/-! ## The server a failed request goes to -/

section

variable (E : Env) (p : MmcPool) (server : Mmc → MmcServer) (key : Bytes)

/-- The server `mmc_pool_failover_handler` settles on after server `m` failed, with the skip list and
    the index of the request. -/
def failoverChoice : Nat → Mmc → List Mmc → Nat → Nat → Mmc
  | bound, m, skip, i, tick =>
    let skip := mmcQueuePush skip m
    let (m, i) := mmcPoolFindNext p.findServer E.maxFailoverAttempts key skip i
    match bound with
    | 0 => m
    | bound + 1 =>
      if !(server m).validAt (E.time tick) && i < E.maxFailoverAttempts
          && skip.length < p.servers.length then
        failoverChoice bound m skip i (tick + (server m).timeAsks)
      else m

/-- The `n` probes that are left, from index `i` on, lead back to server `m`: all but the last give a
    server that is on the skip list or is put there, being down, before the list is as long as the
    pool; the last gives `m`. -/
def leadsBack (m : Mmc) : Nat → Nat → List Mmc → Nat → Bool
  | 0, _, _, _ => false
  | 1, i, _, _ => decide (p.findServer (keytmp key i) = m)
  | n + 2, i, skip, tick =>
    let next := p.findServer (keytmp key i)
    if next ∈ skip then leadsBack m (n + 1) (i + 1) skip tick
    else
      !(server next).validAt (E.time tick) && decide (skip.length < p.servers.length)
        && leadsBack m (n + 1) (i + 1) (mmcQueuePush skip next) (tick + (server next).timeAsks)

end

section

variable {E : Env} {p : MmcPool} {server : Mmc → MmcServer} {key : Bytes}

/-- Skipped servers do not matter. -/
theorem leadsBack_skip {m : Mmc} {skip : List Mmc} {tick j : Nat} :
    ∀ d n i, i + d = j →
      (∀ k, i ≤ k → k < j → p.findServer (keytmp key k) ∈ skip) →
      leadsBack E p server key m (n + 1 + d) i skip tick
        = leadsBack E p server key m (n + 1) j skip tick := by
  intro d
  induction d with
  | zero => intro n i hij _; rw [← hij]; rfl
  | succ d ih =>
    intro n i hij hbetween
    have hfirst := hbetween i (Nat.le_refl i) (by omega)
    have hrest := ih n (i + 1) (by omega) fun k hik hkj => hbetween k (by omega) hkj
    rw [show n + 1 + (d + 1) = (n + d) + 2 by omega, leadsBack]
    rw [if_pos hfirst, ← hrest, show n + d + 1 = n + 1 + d by omega]

/-- **The failover loop comes back to the failed server** exactly if the probes lead there. By
    induction on the rounds of the loop, with the failed server on the skip list. -/
theorem failoverChoice_eq_iff {m : Mmc} :
    ∀ bound m₀ skip i tick, i < E.maxFailoverAttempts → E.maxFailoverAttempts - i ≤ bound →
      m ∈ mmcQueuePush skip m₀ →
      (failoverChoice E p server key bound m₀ skip i tick = m ↔
        leadsBack E p server key m (E.maxFailoverAttempts - i) i (mmcQueuePush skip m₀) tick) := by
  intro bound
  induction bound with
  | zero => intro m₀ skip i tick hi hbound _; omega
  | succ bound ih =>
    intro m₀ skip i tick hi hbound hm
    obtain ⟨j, hij, hj, hfind, hbetween, hlast⟩ :=
      @findNextFrom_cases p.findServer E.maxFailoverAttempts key (mmcQueuePush skip m₀)
        (E.maxFailoverAttempts - i) i (by omega) (by omega)
    have hskipped := @leadsBack_skip E p server key m (mmcQueuePush skip m₀) tick j (j - i)
      (E.maxFailoverAttempts - j - 1) i (by omega) hbetween
    rw [show E.maxFailoverAttempts - j - 1 + 1 + (j - i) = E.maxFailoverAttempts - i by omega]
      at hskipped
    rw [hskipped, failoverChoice, mmcPoolFindNext, hfind]
    dsimp only
    by_cases hend : j + 1 = E.maxFailoverAttempts
    · rw [show E.maxFailoverAttempts - j - 1 + 1 = 1 by omega, leadsBack]
      rw [if_neg (by simp [hend])]
      simp
    · have hnew := hlast.resolve_right hend
      have hne : p.findServer (keytmp key j) ≠ m := fun heq => hnew (heq ▸ hm)
      rw [show E.maxFailoverAttempts - j - 1 + 1 = (E.maxFailoverAttempts - (j + 1) - 1) + 2 by omega,
        leadsBack, if_neg hnew]
      have hmore : j + 1 < E.maxFailoverAttempts := by omega
      split
      · next hloop =>
        simp only [Bool.and_eq_true, decide_eq_true_eq] at hloop
        rw [ih _ _ _ _ hmore (by omega) (by simp [hm])]
        rw [show E.maxFailoverAttempts - (j + 1) - 1 + 1 = E.maxFailoverAttempts - (j + 1) by omega]
        simp [hloop.1.1, hloop.2]
      · next hstop =>
        simp only [Bool.and_eq_true, decide_eq_true_eq, hmore, and_true, not_and_or] at hstop
        refine iff_of_false hne ?_
        simp only [Bool.and_eq_true, decide_eq_true_eq]
        rintro ⟨⟨hdown, hshort⟩, -⟩
        exact hstop.elim (· hdown) (· hshort)

end

/-! ## The handlers -/

variable (E : Env) (fuel depth : Nat)

/-- The loop of `mmc_pool_failover_handler` does what `failoverChoice` says. -/
theorem wp_failoverTarget (r : ReqId) (bound : Nat) (m : Mmc) (w : World) :
    wp (failoverTarget E r bound m)
      (fun target w' => w'.log = w.log ∧
        target = failoverChoice E w.pool w.mmc (w.req r).key bound m (w.req r).failedServers
          (w.req r).failedIndex w.tick)
      (fun _ => False) w := by
  induction bound generalizing m w with
  | zero =>
    simp only [failoverTarget, wp_bind, wp_modifyReq, wp_getPool, wp_getReq, wp_mmcServerValid,
      wp_pure, Function.update_self, failoverChoice, and_self]
  | succ bound ih =>
    rw [failoverTarget]
    simp only [wp_bind, wp_modifyReq, wp_getPool, wp_getReq, wp_mmcServerValid,
      Function.update_self]
    refine wp_ite (fun hloop => ?_) fun hstop => ?_
    · refine wp_mono (ih _ _) ?_ fun _ => id
      rintro target w' ⟨hlog, htarget⟩
      simp only [Function.update_self] at htarget
      exact ⟨hlog, htarget.trans (if_pos hloop).symm⟩
    · exact (wp_pure _ _ _ _).mpr ⟨rfl, (if_neg hstop).symm⟩

/-- The run of a function only adds to the log. -/
def Logged (w w' : World) : Prop := w.log <:+ w'.log

theorem frame_logged : Frame E Logged Logged where
  refl w := List.suffix_rfl
  trans _ _ _ := List.IsSuffix.trans
  fail _ _ := id
  trans_fail _ _ _ := List.IsSuffix.trans
  tick w := List.suffix_rfl
  note s w _ _ := List.suffix_cons s w.log
  pool _ _ _ := List.suffix_rfl
  mmc _ _ _ _ := List.suffix_rfl
  req _ _ _ := List.suffix_rfl
  call _ _ _ _ := List.suffix_rfl
  inTimeout _ _ := List.suffix_rfl

theorem logged_step (s : Step) : Within Logged Logged (step E s) :=
  fun w => (wp_step _ _ _ _ _).mpr ⟨fun _ => List.suffix_cons s w.log, fun _ => List.suffix_rfl⟩

theorem logged_modifyPool (f : MmcPool → MmcPool) : Within Logged Logged (modifyPool f) :=
  fun _ => (wp_modifyPool _ _ _ _).mpr List.suffix_rfl

theorem logged_modifyMmc (m : Mmc) (f : MmcServer → MmcServer) :
    Within Logged Logged (modifyMmc m f) :=
  fun _ => (wp_modifyMmc _ _ _ _ _).mpr List.suffix_rfl

theorem logged_beginBuild (m : Mmc) (a : GetArgs) : Within Logged Logged (beginBuild E m a) := by
  have hF := frame_logged E
  refine hF.bind (within_mmcPoolRequestGet hF _ _ _ _) fun r => hF.bind (logged_step E _) fun _ => ?_
  refine hF.bind (logged_modifyMmc m _) fun _ => hF.bind (within_copyFailures hF r _) fun _ => ?_
  exact hF.bind hF.getPool fun _ => hF.modifyReq r _

theorem builds_logged : Builds E fuel Logged Logged Logged := by
  have hF := frame_logged E
  refine .of_frame hF ?_ ?_ ?_
  · intro m
    refine hF.bind (logged_step E _) fun _ => hF.bind (hF.ask E.time) fun _ => ?_
    refine hF.bind (logged_modifyMmc m _) fun _ => hF.bind (logged_modifyPool _) fun _ => ?_
    exact hF.bind (hF.getMmc m) fun _ => hF.bind (logged_modifyMmc m _) fun _ => hF.pure _
  · intro fh m a key hschedule hselect
    refine hF.bind (hF.getMmc m) fun s => ?_
    cases s.buildreq with
    | none => exact hF.bind (logged_modifyPool _) fun _ => logged_beginBuild E m a
    | some r =>
      refine hF.bind (hF.getReq r) fun q => hF.doWhen ?_
      refine hF.bind (logged_step E _) fun _ => hF.bind (within_endBuild hF r) fun _ => ?_
      refine hF.bind (hschedule r) fun _ => hF.bind hselect fun _ => ?_
      exact hF.bind (logged_beginBuild E m a) fun _ => logged_step E _
  · intro fh r c hget
    have hrelease := within_mmcPoolRelease hF (some r)
    refine hF.bind (hF.getReq r) fun q => Within.ite (hF.bind hrelease fun _ => hF.pure _) ?_
    refine hF.bind (logged_step E _) fun _ => hF.bind (hF.getCall c) fun call => ?_
    refine hF.bind (hF.forEach (fun zkey => ?_) _) fun _ => hF.bind hrelease fun _ => hF.pure _
    refine hF.bind (hF.getCall c) fun _ => hF.doWhen ?_
    exact hF.bind (logged_step E _) fun _ => hF.bind (hF.getReq r) fun _ =>
      hF.bind (hget _ zkey) fun _ => hF.pure _

/-- `mmc_pool_schedule` after its entry. -/
def scheduleEntered (fh : Failover) (m : Mmc) (r : ReqId) : PoolM MmcResult := do
  let valid ← mmcServerValid E m
  if !valid then fh m r
  else
    modifyReq r MmcRequest.rewind
    if (← getMmc m).sendreq = none then
      let result ← mmcPoolSlotSend E fh m (some r) false
      if result ≠ .ok then fh m r
      else
        step E (.accept m r)
        modifyPool fun p => { p with
          sendingBuf := Function.update p.sendingBuf p.cur (mmcQueuePush p.sending m) }
        scheduleRead m r
    else
      step E (.accept m r)
      modifyMmc m fun s => { s with sendqueue := mmcQueuePush s.sendqueue r }
      scheduleRead m r

theorem mmcPoolSchedule_eq (fh : Failover) (m : Mmc) (r : ReqId) :
    mmcPoolSchedule E fh m r = (do
      step E (.schedule m r)
      scheduleEntered E fh m r) := rfl

theorem logged_scheduleEntered {fh : Failover} (hfh : ∀ m r, Within Logged Logged (fh m r)) (m : Mmc)
    (r : ReqId) : Within Logged Logged (scheduleEntered E fh m r) := by
  have hF := frame_logged E
  have hslot := within_mmcPoolSlotSend hF (builds_logged E 0) hfh m (some r) false
  refine hF.bind (within_mmcServerValid hF m) fun valid => Within.ite (hfh m r) ?_
  refine hF.bind (hF.modifyReq r _) fun _ => hF.bind (hF.getMmc m) fun s => Within.ite ?_ ?_
  · refine hF.bind hslot fun result => Within.ite (hfh m r) ?_
    exact hF.bind (logged_step E _) fun _ => hF.bind (logged_modifyPool _) fun _ =>
      within_scheduleRead hF m r
  · exact hF.bind (logged_step E _) fun _ => hF.bind (logged_modifyMmc m _) fun _ =>
      within_scheduleRead hF m r

variable {E}

/-- What the failover handler of a request records first, after its own call. -/
def handlerStep (E : Env) (m : Mmc) (r : ReqId) (w : World) : Step :=
  match (w.req r).failoverHandler with
  | .null => .release r
  | .pool =>
    if E.allowFailover = true ∧ (w.req r).failedIndex < E.maxFailoverAttempts ∧
        (w.req r).failedServers.length < w.pool.servers.length then
      .schedule (failoverChoice E w.pool w.mmc (w.req r).key
        (E.maxFailoverAttempts - (w.req r).failedIndex) m (w.req r).failedServers
        (w.req r).failedIndex w.tick) r
    else .release r
  | .value c =>
    if E.allowFailover = true ∧ (w.req r).failedServers.length < E.maxFailoverAttempts then
      .valueFailover c
    else .release r

theorem handlerStep_suffix (hall : ∀ s w, E.allowed s w = true) (m : Mmc) (r : ReqId) (w : World) :
    handlerStep E m r w :: .failover m r :: w.log <:+
      (failoverHandler E fuel (depth + 1) m r w).2.log := by
  have hF := frame_logged E
  have hfh := within_failoverHandler hF (builds_logged E fuel) depth
  suffices h : wp (failoverHandler E fuel (depth + 1) m r)
      (fun _ w' => handlerStep E m r w :: .failover m r :: w.log <:+ w'.log)
      (fun w' => handlerStep E m r w :: .failover m r :: w.log <:+ w'.log) w from
    wp_last h
  have hrelease : ∀ result : MmcResult,
      wp (do mmcPoolRelease E (some r); return result)
        (fun _ w' => Step.release r :: .failover m r :: w.log <:+ w'.log)
        (fun w' => Step.release r :: .failover m r :: w.log <:+ w'.log)
        { w with log := .failover m r :: w.log } := by
    intro result
    simp only [mmcPoolRelease, noteRelease, wp_bind, wp_step, hall, wp_modifyPool, wp_pure]
    exact ⟨fun _ => List.suffix_rfl, fun hno => absurd trivial hno⟩
  rw [failoverHandler]
  simp only [wp_bind, wp_step, hall, wp_getReq]
  refine ⟨fun _ => ?_, fun hno => absurd trivial hno⟩
  unfold handlerStep
  cases (w.req r).failoverHandler with
  | null => exact hrelease .failure
  | pool =>
    dsimp only
    rw [mmcPoolFailoverHandler]
    simp only [wp_bind, wp_getReq, wp_getPool]
    refine wp_ite (fun hleft => ?_) fun hleft => ?_
    · simp only [Bool.and_eq_true, decide_eq_true_eq, and_assoc] at hleft
      rw [if_pos hleft, wp_bind]
      refine wp_mono (wp_failoverTarget E r _ m _) ?_ fun _ => False.elim
      rintro target w' ⟨hlog, rfl⟩
      rw [mmcPoolSchedule_eq, wp_bind, wp_step]
      refine ⟨fun _ => ?_, fun hno => absurd (hall _ _) hno⟩
      have hlogged := logged_scheduleEntered E hfh
      replace hlog : w'.log = .failover m r :: w.log := hlog
      rw [← hlog]
      exact hlogged _ r _
    · simp only [Bool.and_eq_true, decide_eq_true_eq, and_assoc] at hleft
      rw [if_neg hleft]
      exact hrelease .failure
  | value c =>
    dsimp only
    rw [mmcValueFailoverHandler, wp_bind, wp_getReq]
    refine wp_ite (fun hover => ?_) fun hleft => ?_
    · rw [if_neg (by simpa [Nat.not_lt, or_iff_not_imp_left] using hover)]
      exact hrelease .failure
    · rw [if_pos (by simpa [Nat.not_le] using hleft)]
      have hrest : Within Logged Logged (do
          let call ← getCall c
          forEach (rescheduleKey E fuel (failoverHandler E fuel depth) r c) call.keys
          mmcPoolRelease E (some r)
          return MmcResult.ok) := by
        refine hF.bind (hF.getCall c) fun call => hF.bind (hF.forEach (fun zkey => ?_) _) fun _ =>
          hF.bind (within_mmcPoolRelease hF _) fun _ => hF.pure _
        refine hF.bind (hF.getCall c) fun _ => hF.doWhen ?_
        exact hF.bind (logged_step E _) fun _ => hF.bind (hF.getReq r) fun _ =>
          hF.bind (within_mmcPoolScheduleGet hF (builds_logged E fuel) hfh _ zkey) fun _ => hF.pure _
      rw [wp_bind, wp_step]
      exact ⟨fun _ => hrest _, fun hno => absurd (hall _ _) hno⟩

/-! ## The keys of a multi-key get -/

variable (E)

/-- The server whose request takes a key in `mmc_pool_schedule_get`, if there is one. -/
def getServer (key : Bytes) : PoolM (Option Mmc) := do
  let m ← mmcPoolFind E key
  let valid ← mmcServerValid E m
  return if valid then some m else none

theorem mmcPoolScheduleGet_eq (fh : Failover) (a : GetArgs) (zkey : ZKey) :
    mmcPoolScheduleGet E fuel fh a zkey =
      match mmcPrepareKeyEx zkey.str E.keyPrefix with
      | none => return .failure
      | some key => (do
        match ← getServer E key with
        | none => return .failure
        | some m => (do
          openBuild E fuel fh m a key
          appendBuild m zkey key)) := by
  rw [mmcPoolScheduleGet]
  cases mmcPrepareKeyEx zkey.str E.keyPrefix with
  | none => rfl
  | some key =>
    dsimp only
    rw [getServer]
    simp only [bind_assoc, pure_bind]
    congr 1
    funext m
    congr 1
    funext valid
    cases valid <;> rfl

section

variable (p : MmcPool) (server : Mmc → MmcServer) (key : Bytes) (m : Mmc)

/-- The first valid server of the probes of `mmc_pool_find`, or the last one, is `m`, and valid when it
    is asked once more. -/
def probesGive : Nat → Nat → Nat → Bool
  | 0, i, tick =>
    let next := p.findServer (keytmp key i)
    decide (next = m) && (server m).validAt (E.time (tick + (server next).timeAsks))
  | fuel + 1, i, tick =>
    let next := p.findServer (keytmp key i)
    let tick' := tick + (server next).timeAsks
    if (server next).validAt (E.time tick) = false ∧ i + 1 < E.maxFailoverAttempts then
      probesGive fuel (i + 1) tick'
    else decide (next = m) && (server m).validAt (E.time tick')

/-- A key hashes to `m`: its own server is `m`, or is not valid and the probes give `m`. -/
def hashesTo (tick : Nat) : Bool :=
  let first := p.findServer key
  let tick' := tick + (server first).timeAsks
  if (server first).validAt (E.time tick) = false ∧ E.allowFailover = true then
    probesGive E p server key m E.maxFailoverAttempts 0 tick'
  else decide (first = m) && (server m).validAt (E.time tick')

end

variable {E}

theorem wp_lastAsk (m first : Mmc) (w : World) :
    wp (do
        let valid ← mmcServerValid E first
        return if valid then some first else none)
      (fun x _ => x = some m ↔
        (decide (first = m) && (w.mmc m).validAt (E.time w.tick)) = true)
      (fun _ => False) w := by
  simp only [wp_bind, wp_mmcServerValid, wp_pure]
  by_cases hsame : first = m
  · subst hsame
    cases (w.mmc first).validAt (E.time w.tick) <;> simp
  · cases (w.mmc first).validAt (E.time w.tick) <;> simp [hsame]

theorem findNext_nil (find : Bytes → Mmc) (max : Nat) (key : Bytes) (i : Nat) :
    mmcPoolFindNext find max key [] i = (find (keytmp key i), i + 1) := by
  unfold mmcPoolFindNext
  cases max - i with
  | zero => rfl
  | succ n => simp [findNextFrom]

theorem wp_findValidFrom (key : Bytes) (m : Mmc) (fuel i : Nat) (w : World) :
    wp (do
        let found ← findValidFrom E key fuel i
        let valid ← mmcServerValid E found
        return if valid then some found else none)
      (fun x _ => x = some m ↔ probesGive E w.pool w.mmc key m fuel i w.tick = true)
      (fun _ => False) w := by
  induction fuel generalizing i w with
  | zero =>
    rw [wp_bind, findValidFrom]
    simp only [wp_bind, wp_getPool, findNext_nil]
    rw [wp_mmcServerValid, wp_pure, ← wp_bind]
    exact wp_lastAsk m _ _
  | succ fuel ih =>
    rw [wp_bind, findValidFrom]
    simp only [wp_bind, wp_getPool, findNext_nil]
    rw [wp_mmcServerValid]
    refine wp_ite (fun hnext => ?_) fun hstop => ?_
    · simp only [Bool.and_eq_true, Bool.not_eq_true', decide_eq_true_eq] at hnext
      rw [probesGive, if_pos hnext]
      simp only [← wp_bind]
      exact ih (i + 1) _
    · simp only [Bool.and_eq_true, Bool.not_eq_true', decide_eq_true_eq] at hstop
      rw [probesGive, if_neg hstop, wp_pure, ← wp_bind]
      exact wp_lastAsk m _ _

theorem wp_getServer (key : Bytes) (m : Mmc) (w : World) :
    wp (getServer E key) (fun x _ => x = some m ↔ hashesTo E w.pool w.mmc key m w.tick = true)
      (fun _ => False) w := by
  rw [getServer, wp_bind, mmcPoolFind]
  simp only [wp_bind, wp_getPool]
  rw [wp_mmcServerValid]
  refine wp_ite (fun hfailover => ?_) fun hfound => ?_
  · simp only [Bool.and_eq_true, Bool.not_eq_true'] at hfailover
    rw [hashesTo, if_pos hfailover]
    simp only [← wp_bind]
    exact wp_findValidFrom key m _ 0 _
  · simp only [Bool.and_eq_true, Bool.not_eq_true'] at hfound
    rw [hashesTo, if_neg hfound, wp_pure, ← wp_bind]
    exact wp_lastAsk m _ _

/-! ## Retrying on the same server first -/

section

variable (E) (asks : ZKey → Prop)

/-- `mmc_select_retry` up to the call of the failover handler. -/
def clearFailed (fh : Failover) (site : RetrySite) (m : Mmc) (r : ReqId) : PoolM Unit := do
  step E (.selectRetry site m r)
  modifyMmc m fun s => { s with
    sendqueue := mmcQueueRemove s.sendqueue r, readqueue := mmcQueueRemove s.readqueue r }
  doWhen ((← getMmc m).sendreq = some r) do
    shiftSend E fh m
    clearSending m
  doWhen ((← getMmc m).readreq = some r) do
    shiftRead m
    doWhen ((← getMmc m).readreq = none) (modifyPool fun p => { p with
      readingBuf := Function.update p.readingBuf p.cur (mmcQueueRemove p.reading m) })

theorem mmcSelectRetry_eq (fh : Failover) (site : RetrySite) (m : Mmc) (r : ReqId) :
    mmcSelectRetry E fh site m (some r) = (do
      clearFailed E fh site m r
      let _ ← fh m r) := by
  simp only [mmcSelectRetry, clearFailed, bind_assoc]

/-- The failover of the multi-key get `c`, for its request `r` on server `m`, hands on a key without a
    result in the world `w'`. -/
def HandedAt (m : Mmc) (r : ReqId) (c : Nat) (w : World) (k : ZKey) (w' : World) : Prop :=
  ∃ front back, (w.call c).keys = front ++ k :: back ∧
    forEach (rescheduleKey E fuel (failoverHandler E fuel depth) r c) front
      { w with log := .valueFailover c :: .failover m r :: w.log } = (.ok (), w') ∧
    k.str ∉ (w'.call c).results

/-- The failover handler of a request that failed on server `m` sends it there again before anything
    else. A multi-key get is sent again with new requests: every key that the failed one `asks` for, and
    that has no result, is put into one for server `m`. -/
def SentAgain (m : Mmc) (r : ReqId) (w : World) : Prop :=
  let log := (failoverHandler E fuel (depth + 1) m r w).2.log
  match (w.req r).failoverHandler with
  | .value c =>
    .valueFailover c :: .failover m r :: w.log <:+ log ∧
      ∀ k w', asks k → HandedAt E fuel depth m r c w k w' →
        ∃ key w'', mmcPrepareKeyEx k.str E.keyPrefix = some key ∧
          getServer E key w' = (.ok (some m), w'')
  | _ => .schedule m r :: .failover m r :: w.log <:+ log

/-- Failover is on and has attempts left, and hashing leads to server `m` again: the remaining probes
    of the request, or every key of a multi-key get when it is handed on. -/
def ComesBack (m : Mmc) (r : ReqId) (w : World) : Prop :=
  match (w.req r).failoverHandler with
  | .null => False
  | .pool =>
    (E.allowFailover = true ∧ (w.req r).failedIndex < E.maxFailoverAttempts ∧
        (w.req r).failedServers.length < w.pool.servers.length) ∧
      leadsBack E w.pool w.mmc (w.req r).key m (E.maxFailoverAttempts - (w.req r).failedIndex)
        (w.req r).failedIndex (mmcQueuePush (w.req r).failedServers m) w.tick = true
  | .value c =>
    (E.allowFailover = true ∧ (w.req r).failedServers.length < E.maxFailoverAttempts) ∧
      ∀ k w', asks k → HandedAt E fuel depth m r c w k w' →
        ∃ key, mmcPrepareKeyEx k.str E.keyPrefix = some key ∧
          hashesTo E w'.pool w'.mmc key m w'.tick = true

end

theorem eq_of_suffixes {α : Type} {a b : α} {l l' : List α} (ha : a :: l <:+ l')
    (hb : b :: l <:+ l') : a = b := by
  have hsame : a :: l = b :: l := by
    rcases List.suffix_or_suffix_of_suffix ha hb with h | h
    · exact h.eq_of_length rfl
    · exact (h.eq_of_length rfl).symm
  exact (List.cons.inj hsame).1

theorem getServer_iff (key : Bytes) (m : Mmc) (w : World) :
    (∃ w', getServer E key w = (.ok (some m), w')) ↔
      hashesTo E w.pool w.mmc key m w.tick = true := by
  have h := wp_getServer (E := E) key m w
  constructor
  · rintro ⟨w', hrun⟩
    exact (h.1 _ w' hrun).mp rfl
  · intro hback
    obtain ⟨x, w', hrun, hx⟩ := exists_of_wp h
    obtain rfl := hx.mpr hback
    exact ⟨w', hrun⟩

/-- What the failover handler does first. -/
theorem sentAgain_iff (hall : ∀ s w, E.allowed s w = true) (asks : ZKey → Prop) (m : Mmc) (r : ReqId)
    (w : World) : SentAgain E fuel depth asks m r w ↔ ComesBack E fuel depth asks m r w := by
  have hfirst := handlerStep_suffix fuel depth hall m r w
  have hrecords : ∀ s, s :: .failover m r :: w.log <:+
      (failoverHandler E fuel (depth + 1) m r w).2.log ↔ handlerStep E m r w = s := by
    intro s
    constructor
    · exact eq_of_suffixes hfirst
    · rintro rfl
      exact hfirst
  unfold SentAgain ComesBack
  simp only [hrecords, ← getServer_iff]
  unfold handlerStep
  cases (w.req r).failoverHandler with
  | null => exact iff_of_false nofun id
  | pool =>
    dsimp only
    split
    · next hleft =>
      rw [Step.schedule.injEq, and_iff_left rfl, and_iff_right hleft]
      exact failoverChoice_eq_iff _ m _ _ _ hleft.2.1 (Nat.le_refl _) (by simp)
    · next hleft => exact iff_of_false nofun fun h => hleft h.1
  | value c =>
    dsimp only
    split
    · next hleft => simp only [and_iff_right hleft, true_and, exists_and_left]
    · next hleft => exact iff_of_false (fun h => nomatch h.1) fun h => hleft h.1

/-- A request that fails on a stream in an unknown state is retried, and the stream is disconnected, so
    that the next request for it opens a connection. -/
theorem mmcServerFailure_unknown {m : Mmc} {t : MmcProto} {w : World}
    (hstale : ((w.mmc m).io t).status = .unknown) (error : String) (errnum : Int) :
    ∃ w', mmcServerFailure m (m, t) error errnum w = (.ok .retry, w') ∧
      ((w'.mmc m).io t).status = .disconnected := by
  have h : wp (mmcServerFailure m (m, t) error errnum)
      (fun result w' => result = .retry ∧ ((w'.mmc m).io t).status = .disconnected)
      (fun _ => False) w := by
    unfold mmcServerFailure MmcStream.serverFailure
    simp only [wp_bind, wp_getMmc, hstale, wp_modifyMmc, wp_doWhen, wp_pure, Function.update_self,
      reduceCtorEq, false_implies, not_false_eq_true, true_implies, true_and]
    cases t <;> rfl
  obtain ⟨result, w', hrun, rfl, hstatus⟩ := exists_of_wp h
  exact ⟨w', hrun, hstatus⟩

variable (E) in
/-- A request that fails on a stream of server `m` is sent there again first: when `mmc_server_failure`
    wants a retry and `mmc_select_retry` comes to call the failover handler. -/
def RetriedFirst (asks : ZKey → Prop) (site : RetrySite) (m : Mmc) (t : MmcProto) (r : ReqId)
    (error : String) (errnum : Int) (w : World) : Prop :=
  ∀ w₁ w₂, mmcServerFailure m (m, t) error errnum w = (.ok .retry, w₁) →
    clearFailed E (failoverHandler E fuel (depth + 1)) site m r w₁ = (.ok (), w₂) →
    SentAgain E fuel depth asks m r w₂

variable (E) in
/-- The condition on the world in which `mmc_select_retry` calls the failover handler. -/
def RetryComesBack (asks : ZKey → Prop) (site : RetrySite) (m : Mmc) (t : MmcProto) (r : ReqId)
    (error : String) (errnum : Int) (w : World) : Prop :=
  ∀ w₁ w₂, mmcServerFailure m (m, t) error errnum w = (.ok .retry, w₁) →
    clearFailed E (failoverHandler E fuel (depth + 1)) site m r w₁ = (.ok (), w₂) →
    ComesBack E fuel depth asks m r w₂

/-- **A stale connection is retried on its server first** exactly if the failover handler of the request
    hashes back to that server. -/
theorem retriedFirst_iff (hall : ∀ s w, E.allowed s w = true) (asks : ZKey → Prop) (site : RetrySite)
    {m : Mmc} {t : MmcProto} (r : ReqId) (error : String) (errnum : Int) {w : World}
    (hstale : ((w.mmc m).io t).status = .unknown) :
    (∃ w₁, mmcServerFailure m (m, t) error errnum w = (.ok .retry, w₁) ∧
        ((w₁.mmc m).io t).status = .disconnected) ∧
      (RetriedFirst E fuel depth asks site m t r error errnum w ↔
        RetryComesBack E fuel depth asks site m t r error errnum w) := by
  refine ⟨mmcServerFailure_unknown hstale error errnum, ?_⟩
  unfold RetriedFirst RetryComesBack
  simp only [sentAgain_iff fuel depth hall]

/-! ## A pool of one and a pool of two servers -/

/-- A set of a key of one byte is scheduled on server 0, whose connection was in use before. -/
def staleWorld (servers : List Mmc) (findServer : Bytes → Mmc) : World :=
  let start : World := {
    pool := { servers, findServer }
    mmc := fun m => if m = 0 then { tcp := { stream := some 0, fd := 3, status := .unknown } } else {}
    tick := 1 }
  (PoolOp.exec {} 5 5 (.schedule 0 { content := fun q => { q with key := [107], keyLen := 1 } })
    start).2

/-- In a pool of one server the retry goes to this server. -/
theorem lonelyServer_retriedFirst :
    RetriedFirst {} 5 5 (fun _ => True) .send 0 .tcp 0 "send failed" 104
      (staleWorld [0] fun _ => 0) := by
  refine (retriedFirst_iff (E := {}) 5 5 (fun _ _ => rfl) _ .send 0 _ _ rfl).2.mpr ?_
  intro w₁ w₂ hfailure hclear
  obtain rfl := congrArg Prod.snd hfailure
  obtain rfl := congrArg Prod.snd hclear
  exact ⟨⟨rfl, by decide, by decide⟩, rfl⟩

/-- With a second server, which every further probe of the key leads to, the retry goes there. -/
theorem twoServers_not_retriedFirst :
    ¬ RetriedFirst {} 5 5 (fun _ => True) .send 0 .tcp 0 "send failed" 104
      (staleWorld [0, 1] fun key => if key.length = 1 then 0 else 1) := by
  intro h
  have hback := (sentAgain_iff (E := {}) 5 5 (fun _ _ => rfl) _ 0 0 _).mp (h _ _ rfl rfl)
  exact absurd hback.2 (by decide)

end PeclMemcache
