import PeclMemcache.Operations

set_option autoImplicit false

/-! # The failover budget of multi-key gets

`mmc_value_failover_handler` reschedules the keys of a `memcache_get` that have no result yet, and
nothing but its test of `failed_servers.len` stops it from doing so again and again. Here is what one
call of it costs: each key of the array is handed on at most once, and only handed keys put servers back
into the pending queue. So the keys are bounded by the number of calls, and the loop that schedules
pending gets by the keys. The test itself never fails: no failed server is ever counted. -/

namespace PeclMemcache

open Stateful

/-! ## Counting -/

/-- How often the handler was called for a `memcache_get` and got past its test. -/
def handlings (c : Nat) (log : List Step) : Nat := log.count (.valueFailover c)

/-- How often the handler handed a key to `mmc_pool_schedule_get`. -/
def handings (c : Nat) (zkey : ZKey) (log : List Step) : Nat := log.count (.handed c zkey)

def Step.isHanded : Step → Bool
  | .handed _ _ => true
  | _ => false

def Step.isPop : Step → Bool
  | .schedulePending _ _ => true
  | _ => false

/-- The keys handed on for any `memcache_get`. -/
def totalHandings (log : List Step) : Nat := log.countP Step.isHanded

/-- The turns of the loop of `mmc_pool_schedule_pending`. -/
def pops (log : List Step) : Nat := log.countP Step.isPop

/-- The occurrences of a key in the array of a `memcache_get`. -/
def World.occurrences (w : World) (c : Nat) (zkey : ZKey) : Nat := (w.call c).keys.count zkey

/-- The handler gets past its test only while the failovers of the `memcache_get` so far are fewer than
    `max_failover_attempts`. -/
def Step.WithinBudget (E : Env) (s : Step) (w : World) : Prop :=
  match s with
  | .valueFailover c => handlings c w.log < E.maxFailoverAttempts
  | _ => True

instance (E : Env) (s : Step) (w : World) : Decidable (s.WithinBudget E w) := by
  cases s <;> unfold Step.WithinBudget <;> infer_instance

/-! ## What a run costs -/

/-- Between two worlds the handler handed on every key at most once for each of its calls, up to `owed`
    more, and the failovers stayed within the budget. -/
structure Costs (E : Env) (owed : Nat → ZKey → Nat) (w w' : World) : Prop where
  keys : ∀ c, (w'.call c).keys = (w.call c).keys
  handed : ∀ c zkey, handings c zkey w'.log + w.occurrences c zkey * handlings c w.log ≤
    handings c zkey w.log + w.occurrences c zkey * handlings c w'.log + owed c zkey
  budget : ∀ c, handlings c w.log ≤ E.maxFailoverAttempts → handlings c w'.log ≤ E.maxFailoverAttempts
  pops : pops w'.log = pops w.log
  total : totalHandings w.log ≤ totalHandings w'.log

/-- Each newly pending server was paid for by a handed key, up to `spare` of them. -/
structure Paid (E : Env) (owed : Nat → ZKey → Nat) (spare : Nat) (w w' : World) : Prop
    extends Costs E owed w w' where
  paid : w'.pool.pending.length + totalHandings w.log ≤
    w.pool.pending.length + totalHandings w'.log + spare

variable {E : Env} {fuel : Nat} {owed owed' : Nat → ZKey → Nat} {spare spare' : Nat}

theorem Costs.trans {w w' w'' : World} (h : Costs E owed w w') (h' : Costs E owed' w' w'') :
    Costs E (fun c zkey => owed c zkey + owed' c zkey) w w'' where
  keys c := (h'.keys c).trans (h.keys c)
  handed c zkey := by
    have h₁ := h.handed c zkey
    have h₂ := h'.handed c zkey
    have hocc : w'.occurrences c zkey = w.occurrences c zkey := by
      simp only [World.occurrences, h.keys c]
    rw [hocc] at h₂
    omega
  budget c hc := h'.budget c (h.budget c hc)
  pops := h'.pops.trans h.pops
  total := Nat.le_trans h.total h'.total

theorem Paid.trans {w w' w'' : World} (h : Paid E owed spare w w') (h' : Paid E owed' spare' w' w'') :
    Paid E (fun c zkey => owed c zkey + owed' c zkey) (spare + spare') w w'' where
  toCosts := h.toCosts.trans h'.toCosts
  paid := by
    have h₁ := h.paid
    have h₂ := h'.paid
    omega

/-- Nothing that is counted happened. -/
theorem Paid.of_same {w w' : World} (hkeys : ∀ c, (w'.call c).keys = (w.call c).keys)
    (hlog : w'.log = w.log) (hpending : w'.pool.pending.length ≤ w.pool.pending.length + spare) :
    Paid E (fun _ _ => 0) spare w w' where
  keys := hkeys
  handed c zkey := by rw [hlog]; omega
  budget c := by rw [hlog]; exact id
  pops := by rw [hlog]
  total := by rw [hlog]
  paid := by rw [hlog]; omega

/-- The steps that are not counted. -/
def Step.Free : Step → Prop
  | .schedulePending _ _ => False
  | .valueFailover _ => False
  | .handed _ _ => False
  | _ => True

theorem Paid.note (w : World) {s : Step} (hs : s.Free) :
    Paid E (fun _ _ => 0) 0 w { w with log := s :: w.log } := by
  have hhandlings (c : Nat) : handlings c (s :: w.log) = handlings c w.log := by
    refine List.count_cons_of_ne fun h => ?_
    rw [h] at hs
    exact hs
  have hhandings (c : Nat) (zkey : ZKey) : handings c zkey (s :: w.log) = handings c zkey w.log := by
    refine List.count_cons_of_ne fun h => ?_
    rw [h] at hs
    exact hs
  have hpops : PeclMemcache.pops (s :: w.log) = PeclMemcache.pops w.log := by
    cases s <;> first | rfl | exact hs.elim
  have htotal : totalHandings (s :: w.log) = totalHandings w.log := by
    cases s <;> first | rfl | exact hs.elim
  exact ⟨⟨fun _ => rfl, fun c zkey => by rw [hhandlings, hhandings]; omega,
    fun c => by rw [hhandlings]; exact id, hpops, Nat.le_of_eq htotal.symm⟩,
    by rw [htotal]; exact Nat.le_refl _⟩

theorem frame_paid (E : Env) : Frame E (Paid E (fun _ _ => 0) 0) (Costs E fun _ _ => 0) where
  refl w := .of_same (fun _ => rfl) rfl (Nat.le_refl _)
  trans _ _ _ h h' := h.trans h'
  fail _ _ h := h.toCosts
  trans_fail _ _ _ h h' := h.toCosts.trans h'
  tick _ := .of_same (fun _ => rfl) rfl (Nat.le_refl _)
  note s w hs _ := .note w (by cases s <;> first | exact hs | trivial)
  pool w p hp := .of_same (fun _ => rfl) rfl (by rw [hp]; exact Nat.le_refl _)
  mmc _ _ _ _ := .of_same (fun _ => rfl) rfl (Nat.le_refl _)
  req _ _ _ := .of_same (fun _ => rfl) rfl (Nat.le_refl _)
  call w c x hx := by
    refine .of_same (fun c' => ?_) rfl (Nat.le_refl _)
    by_cases heq : c' = c
    · simp [heq, hx]
    · simp [heq]
  inTimeout _ _ := .of_same (fun _ => rfl) rfl (Nat.le_refl _)

/-! ## The handler -/

section Handler

variable {fh : Failover} {c : Nat}

/-- One key is owed for each key of the array that is still to come. -/
def owedKeys (c : Nat) (keys : List ZKey) (c' : Nat) (zkey : ZKey) : Nat :=
  if c' = c then keys.count zkey else 0

theorem totalHandings_handed (c : Nat) (zkey : ZKey) (log : List Step) :
    totalHandings (.handed c zkey :: log) = totalHandings log + 1 := List.countP_cons_of_pos rfl

theorem Costs.handed_step (w : World) (zkey : ZKey) :
    Costs E (owedKeys c [zkey]) w { w with log := .handed c zkey :: w.log } := by
  have hhandings (c' : Nat) (zkey' : ZKey) : handings c' zkey' (.handed c zkey :: w.log) =
      handings c' zkey' w.log + owedKeys c [zkey] c' zkey' := by
    simp only [handings, List.count_cons, owedKeys, List.count_nil]
    by_cases hc : c' = c
    · by_cases hz : zkey' = zkey
      · simp [hc, hz]
      · simp [hc, Ne.symm hz]
    · simp [hc, Ne.symm hc]
  have hhandlings (c' : Nat) : handlings c' (.handed c zkey :: w.log) = handlings c' w.log :=
    List.count_cons_of_ne (by simp)
  refine ⟨fun _ => rfl, fun c' zkey' => ?_, fun c' => ?_, rfl, ?_⟩
  · rw [hhandings, hhandlings]
    omega
  · rw [hhandlings]
    exact id
  · exact Nat.le_of_lt (Nat.lt_of_succ_le (Nat.le_of_eq (totalHandings_handed c zkey w.log).symm))

/-- Handing on a key pays for the server it may put into the queue. -/
theorem rescheduleKey_paid (r : ReqId) (zkey : ZKey)
    (hget : ∀ a zkey, Within (Paid E (fun _ _ => 0) 1) (Costs E fun _ _ => 0)
      (mmcPoolScheduleGet E fuel fh a zkey)) (w : World) :
    wp (rescheduleKey E fuel fh r c zkey) (fun _ w' => Paid E (owedKeys c [zkey]) 0 w w')
      (Costs E (owedKeys c [zkey]) w) w := by
  have hsame : Paid E (fun _ _ => 0) 0 w w := (frame_paid E).refl w
  have hnone : Paid E (owedKeys c [zkey]) 0 w w :=
    { hsame with handed := fun c' zkey' => by omega }
  have hstep : Costs E (owedKeys c [zkey]) w { w with log := .handed c zkey :: w.log } :=
    .handed_step w zkey
  simp only [rescheduleKey, wp_bind, wp_getCall, wp_doWhen, wp_step, wp_getReq, wp_pure]
  refine ⟨fun _ => ⟨fun _ => ?_, fun _ => hnone.toCosts⟩, fun _ => hnone⟩
  refine wp_mono (hget _ zkey _) (fun _ w' h => ?_) fun w' h => ?_
  · refine ⟨hstep.trans h.toCosts, ?_⟩
    have hpaid := h.paid
    simp only [totalHandings_handed] at hpaid
    omega
  · exact hstep.trans h

/-- The loop of the handler owes every key once for each of its occurrences. -/
theorem rescheduleKeys_paid (r : ReqId) (keys : List ZKey)
    (hget : ∀ a zkey, Within (Paid E (fun _ _ => 0) 1) (Costs E fun _ _ => 0)
      (mmcPoolScheduleGet E fuel fh a zkey)) (w : World) :
    wp (forEach (rescheduleKey E fuel fh r c) keys) (fun _ w' => Paid E (owedKeys c keys) 0 w w')
      (Costs E (owedKeys c keys) w) w := by
  induction keys generalizing w with
  | nil =>
    refine (wp_pure _ _ _ _).mpr ?_
    have howed : owedKeys c [] = fun _ _ => 0 := by
      funext c' zkey
      simp [owedKeys]
    exact howed ▸ Paid.of_same (fun _ => rfl) rfl (Nat.le_refl _)
  | cons zkey rest ih =>
    have howed : owedKeys c (zkey :: rest) =
        fun c' zkey' => owedKeys c [zkey] c' zkey' + owedKeys c rest c' zkey' := by
      funext c' zkey'
      by_cases hc : c' = c
      · simp [owedKeys, hc, List.count_cons, Nat.add_comm]
      · simp [owedKeys, hc]
    rw [forEach, wp_bind, howed]
    refine wp_mono (rescheduleKey_paid r zkey hget w) (fun _ w₁ h₁ => ?_) fun w₁ h₁ => ?_
    · exact wp_mono (ih w₁) (fun _ w₂ => h₁.trans) fun w₂ => h₁.toCosts.trans
    · exact { h₁ with handed := fun c' zkey' => by have := h₁.handed c' zkey'; omega }

/-- A call of the handler hands on every key of the array at most once for each of its occurrences. -/
theorem mmcValueFailoverHandler_paid (hE : ∀ s w, E.allowed s w → s.WithinBudget E w) (r : ReqId)
    (hget : ∀ a zkey, Within (Paid E (fun _ _ => 0) 1) (Costs E fun _ _ => 0)
      (mmcPoolScheduleGet E fuel fh a zkey)) :
    Within (Paid E (fun _ _ => 0) 0) (Costs E fun _ _ => 0)
      (mmcValueFailoverHandler E fuel fh r c) := by
  have hF := frame_paid E
  have hrelease := within_mmcPoolRelease hF (some r)
  refine hF.bind (hF.getReq r) fun q => Within.ite (hF.bind hrelease fun _ => hF.pure _) fun w => ?_
  simp only [wp_bind, wp_step, wp_getCall]
  refine ⟨fun hallowed => ?_, fun _ => (hF.refl w).toCosts⟩
  have hbudget : handlings c w.log < E.maxFailoverAttempts := hE _ _ hallowed
  have hhandlings (c' : Nat) : handlings c' (.valueFailover c :: w.log) =
      handlings c' w.log + if c' = c then 1 else 0 := by
    simp only [handlings, List.count_cons]
    by_cases hc : c' = c
    · simp [hc]
    · simp [hc, Ne.symm hc]
  have hhandings (c' : Nat) (zkey : ZKey) :
      handings c' zkey (.valueFailover c :: w.log) = handings c' zkey w.log :=
    List.count_cons_of_ne (by simp)
  -- the call pays for one more handing of every key
  have hpay {w' : World} (h : Costs E (owedKeys c (w.call c).keys)
      { w with log := .valueFailover c :: w.log } w') : Costs E (fun _ _ => 0) w w' := by
    refine ⟨h.keys, fun c' zkey => ?_, fun c' hc' => h.budget c' ?_, h.pops, h.total⟩
    · have hhanded := h.handed c' zkey
      simp only [hhandlings, hhandings, owedKeys] at hhanded
      by_cases hc : c' = c
      · simp only [hc, if_true, Nat.mul_add, Nat.mul_one, World.occurrences] at hhanded ⊢
        omega
      · simp only [if_neg hc] at hhanded
        exact hhanded
    · simp only [hhandlings]
      by_cases hc : c' = c
      · rw [hc, if_pos rfl]
        exact hbudget
      · simpa [hc] using hc'
  refine wp_mono (rescheduleKeys_paid r _ hget _) (fun _ w' h => ?_) fun w' => hpay
  have hpaid : Paid E (fun _ _ => 0) 0 w w' := ⟨hpay h.toCosts, h.paid⟩
  have hlast : Within (Paid E (fun _ _ => 0) 0) (Costs E fun _ _ => 0)
      (do mmcPoolRelease E (some r); return MmcResult.ok) := hF.bind hrelease fun _ => hF.pure _
  simp only [← wp_bind]
  exact wp_mono (hlast w') (fun _ w'' => hpaid.trans) fun w'' => hpaid.toCosts.trans

end Handler

/-! ## Build slots -/

theorem within_step_paid {s : Step} (hs : s.Free) :
    Within (Paid E (fun _ _ => 0) 0) (Costs E fun _ _ => 0) (step E s) :=
  fun w => (wp_step _ _ _ _ _).mpr ⟨fun _ => .note w hs, fun _ => ((frame_paid E).refl w).toCosts⟩

theorem within_modifyMmc_paid (m : Mmc) (f : MmcServer → MmcServer) :
    Within (Paid E (fun _ _ => 0) 0) (Costs E fun _ _ => 0) (modifyMmc m f) :=
  fun _ => (wp_modifyMmc _ _ _ _ _).mpr (.of_same (fun _ => rfl) rfl (Nat.le_refl _))

theorem takeOffline_paid (m : Mmc) :
    Within (Paid E (fun _ _ => 0) 0) (Costs E fun _ _ => 0) (takeOffline E m) := by
  have hF := frame_paid E
  refine hF.bind (within_step_paid trivial) fun _ => hF.bind (hF.ask E.time) fun time => ?_
  refine hF.bind (within_modifyMmc_paid m _) fun _ => hF.bind (hF.modifyPool fun _ => rfl) fun _ => ?_
  exact hF.bind (hF.getMmc m) fun s => hF.bind (within_modifyMmc_paid m _) fun _ => hF.pure _

theorem beginBuild_paid (m : Mmc) (a : GetArgs) :
    Within (Paid E (fun _ _ => 0) 0) (Costs E fun _ _ => 0) (beginBuild E m a) := by
  have hF := frame_paid E
  refine hF.bind (within_mmcPoolRequestGet hF _ _ _ _) fun r => ?_
  refine hF.bind (within_step_paid trivial) fun _ => hF.bind (within_modifyMmc_paid m _) fun _ => ?_
  exact hF.bind (within_copyFailures hF r _) fun _ => hF.bind hF.getPool fun _ => hF.modifyReq r _

/-- Opening a build slot puts at most one server into the pending queue. -/
theorem openBuild_paid (fh : Failover) (m : Mmc) (a : GetArgs) (key : Bytes)
    (hschedule : ∀ r, Within (Paid E (fun _ _ => 0) 0) (Costs E fun _ _ => 0)
      (mmcPoolSchedule E fh m r))
    (hselect : Within (Paid E (fun _ _ => 0) 0) (Costs E fun _ _ => 0)
      (mmcPoolSelect E fh fuel)) :
    Within (Paid E (fun _ _ => 0) 1) (Costs E fun _ _ => 0) (openBuild E fuel fh m a key) := by
  have hF := frame_paid E
  intro w
  rw [openBuild, wp_bind, wp_getMmc]
  cases (w.mmc m).buildreq with
  | none =>
    simp only [wp_bind, wp_modifyPool]
    have hpush : Paid E (fun _ _ => 0) 1 w
        { w with pool := { w.pool with pending := mmcQueuePush w.pool.pending m } } :=
      .of_same (fun _ => rfl) rfl (length_mmcQueuePush_le _ _)
    exact wp_mono (beginBuild_paid m a _) (fun _ w' => hpush.trans) fun w' => hpush.toCosts.trans
  | some r =>
    have hflush : Within (Paid E (fun _ _ => 0) 0) (Costs E fun _ _ => 0)
        (do
          step E (.flush m)
          endBuild r
          let _ ← mmcPoolSchedule E fh m r
          mmcPoolSelect E fh fuel
          beginBuild E m a
          step E (.flushed m)) :=
      hF.bind (within_step_paid trivial) fun _ => hF.bind (within_endBuild hF r) fun _ =>
        hF.bind (hschedule r) fun _ => hF.bind hselect fun _ => hF.bind (beginBuild_paid m a) fun _ =>
          within_step_paid trivial
    refine wp_mono ((hF.bind (hF.getReq r) fun q => hF.doWhen hflush) w) (fun _ w' h => ?_) fun _ => id
    exact { h with paid := Nat.le_succ_of_le h.paid }

theorem builds_paid (hE : ∀ s w, E.allowed s w → s.WithinBudget E w) :
    Builds E fuel (Paid E (fun _ _ => 0) 0) (Costs E fun _ _ => 0) (Paid E (fun _ _ => 0) 1) where
  get _ _ h := { h with paid := Nat.le_succ_of_le h.paid }
  trans_get _ _ _ h h' := h.trans h'
  get_trans _ _ _ h h' := h.trans h'
  get_fail _ _ _ h h' := h.toCosts.trans h'
  takeOffline := takeOffline_paid
  openBuild := openBuild_paid
  valueFailover _ r _ hget := mmcValueFailoverHandler_paid hE r hget

/-! ## Runs -/

/-- What a run has spent since it started in `w₀` with nothing recorded: every failover is within the
    budget, every key was handed on at most once a failover, and every turn of the pending loop was
    paid for by one of `gets` keys or by a handed one. -/
structure Spent (E : Env) (w₀ : World) (gets : Nat) (w : World) : Prop where
  budget : ∀ c, handlings c w.log ≤ E.maxFailoverAttempts
  handed : ∀ c zkey, handings c zkey w.log ≤ w₀.occurrences c zkey * handlings c w.log
  paid : pops w.log ≤ gets + totalHandings w.log

/-- What it still has to do is paid for, too. -/
structure Solvent (E : Env) (w₀ : World) (gets : Nat) (w : World) : Prop extends Spent E w₀ gets w where
  keys : ∀ c, (w.call c).keys = (w₀.call c).keys
  pending : w.pool.pending.length + pops w.log ≤ gets + totalHandings w.log

variable {w₀ : World} {gets : Nat}

theorem Spent.costs {w w' : World} (h : Spent E w₀ gets w)
    (hkeys : ∀ c, (w.call c).keys = (w₀.call c).keys) (hc : Costs E (fun _ _ => 0) w w') :
    Spent E w₀ gets w' where
  budget c := hc.budget c (h.budget c)
  handed c zkey := by
    have h₁ := h.handed c zkey
    have h₂ := hc.handed c zkey
    have hocc : w.occurrences c zkey = w₀.occurrences c zkey := by
      simp only [World.occurrences, hkeys c]
    rw [hocc] at h₂
    omega
  paid := by
    have h₁ := h.paid
    have h₂ := hc.total
    rw [hc.pops]
    omega

theorem Solvent.pay {w w' : World} (h : Solvent E w₀ gets w)
    (hp : Paid E (fun _ _ => 0) spare w w') : Solvent E w₀ (gets + spare) w' := by
  have hspent := h.toSpent.costs h.keys hp.toCosts
  refine ⟨{ hspent with paid := ?_ }, fun c => (hp.keys c).trans (h.keys c), ?_⟩
  · have := hspent.paid
    omega
  · have h₁ := h.pending
    have h₂ := hp.paid
    rw [hp.pops]
    omega

theorem schedulePendingServer_solvent (hB : Builds E fuel (Paid E (fun _ _ => 0) 0)
      (Costs E fun _ _ => 0) (Paid E (fun _ _ => 0) 1)) (fh : Failover)
    (hfh : ∀ m r, Within (Paid E (fun _ _ => 0) 0) (Costs E fun _ _ => 0) (fh m r)) (w : World)
    (m : Mmc) (rest : List Mmc) (hw : Solvent E w₀ gets w) (hp : w.pool.pending = m :: rest) :
    wp (schedulePendingServer E fh m) (fun _ => Solvent E w₀ gets) (Spent E w₀ gets)
      { w with pool := { w.pool with pending := rest } } := by
  have hF := frame_paid E
  simp only [schedulePendingServer, wp_bind, wp_getMmc, wp_step]
  refine ⟨fun _ => ?_, fun _ => ⟨hw.budget, hw.handed, hw.toSpent.paid⟩⟩
  -- one turn, paid for by the server that left the queue
  have hstart (build : Option ReqId) : Solvent E w₀ gets { w with
      pool := { w.pool with pending := rest },
      log := .schedulePending m build :: w.log } := by
    have hpending := hw.pending
    have hpops : pops (.schedulePending m build :: w.log) = pops w.log + 1 :=
      List.countP_cons_of_pos rfl
    have htotal : totalHandings (.schedulePending m build :: w.log) =
        totalHandings w.log := rfl
    have hhandlings (c : Nat) : handlings c (.schedulePending m build :: w.log) =
        handlings c w.log := List.count_cons_of_ne (by simp)
    have hhandings (c : Nat) (zkey : ZKey) :
        handings c zkey (.schedulePending m build :: w.log) = handings c zkey w.log :=
      List.count_cons_of_ne (by simp)
    rw [hp, List.length_cons] at hpending
    refine ⟨⟨fun c => ?_, fun c zkey => ?_, ?_⟩, hw.keys, ?_⟩
    · rw [hhandlings]
      exact hw.budget c
    · rw [hhandings, hhandlings]
      exact hw.handed c zkey
    · rw [hpops, htotal]
      omega
    · simp only [hpops, htotal]
      omega
  cases (w.mmc m).buildreq with
  | none => exact (wp_nullPointer _ _ _).mpr (hstart none).toSpent
  | some r =>
    have hbody : Within (Paid E (fun _ _ => 0) 0) (Costs E fun _ _ => 0)
        (do
          endBuild r
          let _ ← mmcPoolSchedule E fh m r
          let build := (← getMmc m).buildreq
          step E (.clearBuild m r build)
          modifyMmc m fun s => { s with buildreq := none }) :=
      hF.bind (within_endBuild hF r) fun _ => hF.bind (within_mmcPoolSchedule hF hB hfh m r) fun _ =>
        hF.bind (hF.getMmc m) fun _ => hF.bind (within_step_paid trivial) fun _ =>
          within_modifyMmc_paid m _
    exact wp_mono (hbody _) (fun _ _ => (hstart _).pay) fun _ => (hstart _).toSpent.costs (hstart _).keys

/-- Every key of a multi-key get is handed on at most `max_failover_attempts` times (for each of its
    occurrences in the array), and the pending loop turns at most once for each operation and each
    handed key; in a run that does not end this holds all the time. -/
def MultigetBounded (E : Env) (fuel depth : Nat) (ops : List PoolOp) (w : World) : Prop :=
  let Bounded (w' : World) : Prop :=
    (∀ c zkey, handings c zkey w'.log ≤ w.occurrences c zkey * E.maxFailoverAttempts) ∧
    pops w'.log ≤ ops.length + totalHandings w'.log
  wp (runOps E fuel depth ops) (fun _ => Bounded) Bounded w

theorem Spent.bounded {w : World} (h : Spent E w₀ gets w) :
    (∀ c zkey, handings c zkey w.log ≤ w₀.occurrences c zkey * E.maxFailoverAttempts) ∧
      pops w.log ≤ gets + totalHandings w.log :=
  ⟨fun c zkey => Nat.le_trans (h.handed c zkey) (Nat.mul_le_mul_left _ (h.budget c)), h.paid⟩

theorem runOps_solvent (hE : ∀ s w, E.allowed s w → s.WithinBudget E w) (fuel depth : Nat)
    (ops : List PoolOp) (w : World) (hw : Solvent E w₀ gets w) :
    wp (runOps E fuel depth ops) (fun _ => Solvent E w₀ (gets + ops.length))
      (Spent E w₀ (gets + ops.length)) w := by
  have hF := frame_paid E
  have hB : Builds E fuel _ _ _ := builds_paid hE
  have hfh := within_failoverHandler hF hB depth
  have hmono {n n' : Nat} (hn : n ≤ n') {w' : World} (h : Spent E w₀ n w') : Spent E w₀ n' w' :=
    { h with paid := Nat.le_trans h.paid (Nat.add_le_add_right hn _) }
  induction ops generalizing gets w with
  | nil => exact (wp_pure _ _ _ _).mpr hw
  | cons op rest ih =>
    have hexec := wp_exec hF hB (fun _ (h : Solvent E w₀ gets _) => h.toSpent)
      (fun _ _ h => h.pay) (fun _ _ h => h.toSpent.costs h.keys)
      (schedulePendingServer_solvent hB _ hfh) (J := Solvent E w₀ (gets + 1))
      (fun w' h => h.pay (.of_same (fun _ => rfl) rfl (Nat.le_succ _))) (fun _ _ h => h.pay) op hw
    rw [runOps, forEach, wp_bind]
    refine wp_mono hexec (fun _ w' hw' => ?_) fun w' => hmono (Nat.le_add_right _ _)
    refine wp_mono (ih w' hw') (fun _ w'' h => ?_) fun w'' => hmono (by simp; omega)
    simpa [Nat.add_assoc, Nat.add_comm 1] using h

def closedKey : ZKey := { ptr := 0, str := [97] }

/-- A `memcache_get` of an array of one key on one server, added with `retry_interval` 0. -/
def retriedServer : World := World.fresh [0] (fun _ => 0) 0 fun _ => { keys := [closedKey] }

/-- The server accepts every connection, takes the command and closes the connection. -/
def closing : Env where
  connect tick := some tick
  select _ := { result := 1, writable := fun _ => true, readable := fun _ => true }
  send _ := .bytes 100
  eof _ := true

theorem MultigetBounded.handings_le {E : Env} {fuel depth : Nat} {ops : List PoolOp} {w : World}
    (h : MultigetBounded E fuel depth ops w) (c : Nat) (zkey : ZKey) :
    handings c zkey (runOps E fuel depth ops w).2.log ≤ w.occurrences c zkey * E.maxFailoverAttempts :=
  (wp_last h).1 c zkey

/-- The same server in a run that gives up in time. -/
def closingGuarded : Env :=
  { closing with allowed := fun s w => decide (s.WithinBudget closing w) }

end PeclMemcache
