import PeclMemcache.Pointers
import PeclMemcache.Quiescence

set_option autoImplicit false

/-! # Runs that follow no `NULL` pointer

Whatever is done with a pool, its functions follow no `NULL` pointer while no server fails: a request under
construction waits in no line, and one that is scheduled has a stream, or is sent later. -/

namespace PeclMemcache

open Stateful Packing

/-! ## Requests that wait in no line -/

section Held

variable {held held' : Set ReqId} {phase : Phase} {todo : Direction → Set Mmc} {w w' : World} {r : ReqId}

theorem World.Wired.sameLines (h : w.Wired ∅) (hs : SameLines w w')
    (hio : ∀ m, ∀ r ∈ (w.mmc m).readLine, (w'.req r).io = (w.req r).io) : w'.Wired ∅ where
  live m t := by
    obtain ⟨build, hm⟩ := hs.mmc m
    rw [hm]
    cases t with
    | tcp => exact h.live m .tcp
    | udp => exact h.live m .udp
  assigned m r hline hqueue hbut := by
    obtain ⟨build, hm⟩ := hs.mmc m
    rw [hm] at hline hqueue
    obtain ⟨t, hr, hstream⟩ := h.assigned m r hline hqueue hbut
    refine ⟨t, (hio m r hline).trans hr, ?_⟩
    rw [hm]
    cases t with
    | tcp => exact hstream
    | udp => exact hstream

theorem World.Rostered.sameLines (h : w.Rostered todo) (hs : SameLines w w') : w'.Rostered todo where
  busy d m hmem := by
    rw [MmcPool.queue_cur_of_queues hs.queues] at hmem
    obtain ⟨build, hm⟩ := hs.mmc m
    rw [hm]
    cases d with
    | write => exact h.busy .write m hmem
    | read => exact h.busy .read m hmem
  nodup d := MmcPool.queue_cur_of_queues hs.queues d ▸ h.nodup d

theorem World.Grounded.sameLines (h : w.Grounded todo) (hs : SameLines w w')
    (hio : ∀ m, ∀ r ∈ (w.mmc m).readLine, (w'.req r).io = (w.req r).io) : w'.Grounded todo :=
  ⟨h.wired.sameLines hs hio, h.rostered.sameLines hs⟩

theorem World.Sound.sameLines (h : w.Sound held phase) (hs : SameLines w w') (htidy : w'.Tidy held' phase)
    (hio : ∀ m, ∀ r ∈ (w.mmc m).readLine, (w'.req r).io = (w.req r).io) : w'.Sound held' phase :=
  ⟨htidy, h.toGrounded.sameLines hs hio⟩

/-- A request that was just handed out waits nowhere. -/
theorem World.Sound.fresh (h : w.Sound held .between) (hs : SameLines w w') (hr : Fresh held r w w') :
    w'.Sound (insert r held) .between := by
  refine h.sameLines hs hr.tidy fun m x hx => ?_
  have hne : x ≠ r := by
    rintro rfl
    exact hr.tidy.not_line_of_held (Set.mem_insert x held) m (hr.mmc ▸ hx)
  rw [hr.others x hne]

/-- A request that is held is written. -/
theorem World.Grounded.write (h : w.Grounded todo) (htidy : w.Tidy held phase) (hr : r ∈ held)
    (q : MmcRequest) : World.Grounded { w with req := Function.update w.req r q } todo := by
  refine h.sameLines (.of_same rfl rfl) fun m x hx => ?_
  have hne : x ≠ r := fun heq => htidy.not_line_of_held hr m (heq ▸ hx)
  simp [hne]

theorem World.Sound.write (h : w.Sound held phase) (hr : r ∈ held) {q : MmcRequest}
    (hq : (w.req r).ReadsUdp → q.ReadsUdp) :
    World.Sound { w with req := Function.update w.req r q } held phase :=
  ⟨h.toTidy.modifyReq hq, h.toGrounded.write h.toTidy hr q⟩

variable (E : Env)

/-- A request that was just made is held by its maker. -/
theorem sound_makeRequest (a : RequestArgs) (hw : w.Sound held .between) :
    Ends NotNull (makeRequest E a) (fun r w' => r ∉ held ∧ w'.Sound (insert r held) .between) w :=
  ends_mono ((leavesLines_makeRequest a w).and_wp (makeRequest_fresh E a hw.toTidy)) fun _ _ h =>
    ⟨h.2.fresh, hw.fresh h.1 h.2⟩

theorem sound_mmcPoolCloneRequest (r : ReqId) (hw : w.Sound held .between) :
    Ends NotNull (mmcPoolCloneRequest E r)
      (fun clone w' => clone ∉ held ∧ w'.Sound (insert clone held) .between) w :=
  ends_mono ((leavesLines_mmcPoolCloneRequest r w).and_wp (mmcPoolCloneRequest_fresh E r hw.toTidy))
    fun _ _ h => ⟨h.2.fresh, hw.fresh h.1 h.2⟩

/-- `begin_get` on a request that was just handed out. -/
theorem grounded_beginBuild (m : Mmc) {a : GetArgs} (hargs : a.failedRequest = none)
    (hw : w.Sound held .between) :
    Ends NotNull (beginBuild E m a) (fun _ w' => w'.Grounded Phase.between.todo) w := by
  rw [beginBuild, ends_bind]
  refine ends_mono ((leavesLines_mmcPoolRequestGet _ _ _ _ w).and_wp
    (mmcPoolRequestGet_handedOut E a.protocol a.valueHandler a.call a.failover hw.toTidy))
    fun r w₁ h₁ => ?_
  obtain ⟨hs, hr⟩ := h₁
  have hw₁ := hw.fresh hs hr.toFresh
  simp only [ends_bind, ends_step, ends_modifyMmc, hargs, copyFailures, ends_pure, ends_getPool,
    ends_modifyReq]
  refine ⟨fun _ => ?_, fun _ => by simp⟩
  have hbegun := hw₁.write (Set.mem_insert r held) (protocolBeginGet_readsUdp w₁.pool.protocol a.op)
  exact hbegun.toGrounded.sameLines (.of_build m (some r) rfl rfl) fun _ _ _ => rfl

end Held

/-! ## Operations -/

/-- The state of a pool between operations, in which no operation follows a `NULL` pointer. -/
structure World.Ready (w : World) : Prop extends w.Orderly, w.Grounded Phase.between.todo

theorem World.Ready.sound {w : World} (h : w.Ready) : w.Sound w.builds .between := ⟨h.tidy, h.toGrounded⟩

/-- One that is about to schedule the request in a build slot. -/
theorem World.Ready.sound_insert {w : World} {m : Mmc} {r : ReqId} (h : w.Ready)
    (hr : (w.mmc m).buildreq = some r) : w.Sound (insert r (w.buildsBut m)) .between :=
  World.builds_of_some hr ▸ h.sound

section Operations

variable {E : Env} (hE : NoFailures E) {fh : Failover} (hfh : ∀ m r, Fails (fh m r))
  (hhalts : ∀ m r, Halts (fh m r)) {held : Set ReqId} {w : World} {m : Mmc} {r : ReqId}

include hE hfh hhalts

theorem sound_mmcPoolSchedule (m : Mmc) (hr : r ∉ held) (hw : w.Sound (insert r held) .between) :
    Ends NotNull (mmcPoolSchedule E fh m r) (fun _ w' => w'.Sound held .between) w :=
  ends_mono ((grounded_mmcPoolSchedule hE hhalts m hr hw).and_wp
    (spares_mmcPoolSchedule hE hfh m hr hw.toTidy)) fun _ _ h => ⟨h.2.1, h.1⟩

theorem sound_scheduleCopies (key : Bytes) (r : ReqId) (copies : Nat) (m : Mmc) (skip : List Mmc) (i : Nat)
    (hw : w.Sound held .between) :
    Ends NotNull (scheduleCopies E fh key r copies m skip i) (fun _ w' => w'.Sound held .between) w := by
  induction copies generalizing m skip i w with
  | zero => exact (ends_pure _ _ _).mpr hw
  | succ copies ih =>
    rw [scheduleCopies, ends_bind, ends_getPool]
    dsimp only
    rw [ends_bind, ends_step]
    refine ⟨fun _ => ?_, fun _ => by simp⟩
    rw [ends_bind]
    set w₁ : World := { w with log := .copyTarget _ _ :: w.log }
    have hw₁ : w₁.Sound held .between := hw.note rfl
    refine ends_mono (hw₁.ends_calm (steady_mmcServerValid _) (calm_mmcServerValid held _))
      fun valid w₂ hw₂ => ?_
    rw [ends_bind, ends_doWhen]
    refine ⟨fun _ => ?_, fun _ => ih _ _ _ hw₂⟩
    rw [ends_bind]
    refine ends_mono (sound_mmcPoolCloneRequest E r hw₂) fun clone w₃ h₃ => ?_
    obtain ⟨hclone, hw₃⟩ := h₃
    rw [ends_bind]
    refine ends_mono (sound_mmcPoolSchedule hE hfh hhalts _ hclone hw₃) fun _ w₄ hw₄ => ?_
    exact (ends_pure _ _ _).mpr (ih _ _ _ hw₄)

theorem sound_mmcPoolScheduleKey (key : Bytes) (redundancy : Nat) (hr : r ∉ held)
    (hw : w.Sound (insert r held) .between) :
    Ends NotNull (mmcPoolScheduleKey E fh key r redundancy) (fun _ w' => w'.Sound held .between) w := by
  rw [mmcPoolScheduleKey, ends_bind]
  refine ends_mono (hw.ends_calm (steady_mmcPoolFind key) (calm_mmcPoolFind held key)) fun m w₁ hw₁ => ?_
  rw [ends_bind]
  refine ends_mono (sound_mmcPoolSchedule hE hfh hhalts m hr hw₁) fun result w₂ hw₂ => ?_
  rw [ends_bind, ends_doWhen]
  refine ⟨fun _ => ?_, fun _ => (ends_pure _ _ _).mpr hw₂⟩
  rw [ends_bind, ends_getPool]
  exact ends_mono (sound_scheduleCopies hE hfh hhalts key r _ m [] 0 hw₂) fun _ _ hw₃ =>
    (ends_pure _ _ _).mpr hw₃

/-! ### Multi-key gets -/

/-- The request in a build slot is scheduled. -/
theorem sound_endAndSchedule (m : Mmc) (hr : r ∉ held) (hw : w.Sound (insert r held) .between) :
    Ends NotNull (endBuild r)
      (fun _ => Ends NotNull (mmcPoolSchedule E fh m r) (fun _ w' => w'.Sound held .between)) w := by
  simp only [endBuild, ends_bind, ends_getPool, ends_modifyReq]
  exact sound_mmcPoolSchedule hE hfh hhalts m hr
    (hw.write (Set.mem_insert r held) (protocolEndGet_readsUdp w.pool.protocol))

/-- The build slot has room for a key. -/
theorem grounded_openBuild (fuel : Nat) (m : Mmc) {a : GetArgs} (hargs : a.failedRequest = none) (key : Bytes)
    (hw : w.Ready) :
    Ends NotNull (openBuild E fuel fh m a key)
      (fun _ w' => w'.Grounded Phase.between.todo) w := by
  rw [openBuild, ends_bind, ends_getMmc]
  cases hr : (w.mmc m).buildreq with
  | none =>
    dsimp only
    rw [ends_bind, ends_modifyPool]
    set w₁ : World := { w with pool := { w.pool with pending := mmcQueuePush w.pool.pending m } }
    have hw₁ : w₁.Sound w.builds .between := hw.sound.sameLines (.of_same rfl rfl)
      (hw.tidy.of_unchanged rfl rfl rfl rfl rfl rfl) fun _ _ _ => rfl
    exact grounded_beginBuild E m hargs hw₁
  | some r =>
    dsimp only
    rw [ends_bind, ends_getReq, ends_doWhen]
    refine ⟨fun _ => ?_, fun _ => hw.toGrounded⟩
    rw [ends_bind, ends_step]
    refine ⟨fun _ => ?_, fun _ => by simp⟩
    have hw₁ := (hw.sound_insert hr).note (s := .flush m) rfl
    rw [ends_bind]
    refine ends_mono (sound_endAndSchedule hE hfh hhalts m (hw.toOrderly.not_mem_buildsBut hr) hw₁)
      fun _ w₂ h₂ => ?_
    rw [ends_bind]
    refine ends_mono h₂ fun _ w₃ hw₃ => ?_
    rw [ends_bind]
    refine ends_mono (sound_mmcPoolSelect hE hfh hhalts fuel hw₃) fun _ w₄ hw₄ => ?_
    rw [ends_bind]
    refine ends_mono (grounded_beginBuild E m hargs hw₄) fun _ w₅ hw₅ => ?_
    rw [ends_step]
    exact ⟨fun _ => hw₅.sameLines (.of_same rfl rfl) fun _ _ _ => rfl, fun _ => by simp⟩

/-- **A key of a multi-key get** is scheduled. -/
theorem grounded_mmcPoolScheduleGet (fuel : Nat) {a : GetArgs} (hargs : a.failedRequest = none) (zkey : ZKey)
    (hw : w.Ready) :
    Ends NotNull (mmcPoolScheduleGet E fuel fh a zkey)
      (fun _ w' => w'.Grounded Phase.between.todo) w := by
  rw [mmcPoolScheduleGet]
  cases mmcPrepareKeyEx zkey.str E.keyPrefix with
  | none => exact (ends_pure _ _ _).mpr hw.toGrounded
  | some key =>
    dsimp only
    rw [ends_bind]
    refine ends_mono ((steady_mmcPoolFind key w).and_wp
      (mmcPoolFind_of_up hw.tidy.up key (Q := fun _ w' => w' = w) (fun _ => True) rfl)) fun m w₁ h₁ => ?_
    rw [h₁.2, ends_bind]
    refine ends_mono ((steady_mmcServerValid m w).and_wp
      (mmcServerValid_of_up (hw.tidy.up m) (Q := fun _ w' => w' = w) (fun _ => True) rfl))
      fun valid w₂ h₂ => ?_
    rw [h₂.2]
    refine ends_ite (fun _ => (ends_pure _ _ _).mpr hw.toGrounded) fun _ => ?_
    rw [ends_bind]
    refine ends_mono ((grounded_openBuild hE hfh hhalts fuel m hargs key hw).and_wp
      (openBuild_slotted hE hfh fuel hargs hw.toOrderly.gathering zkey key rfl))
      fun _ w₃ h₃ => ?_
    obtain ⟨hw₃, q, hs, _⟩ := h₃
    obtain ⟨r, hr, _, _⟩ := hs.slot
    rw [appendBuild, ends_bind, ends_getMmc, hr]
    simp only [ends_bind, ends_getPool, ends_modifyReq, ends_pure]
    exact hw₃.write hs.tidy ⟨m, hr⟩ _

/-! ### Pending gets -/

theorem ready_schedulePendingServer {rest : List Mmc} (hw : w.Ready) (hpending : w.pool.pending = m :: rest) :
    Ends NotNull (schedulePendingServer E fh m) (fun _ => World.Ready)
      { w with pool := { w.pool with pending := rest } } := by
  suffices hready : Ends NotNull (schedulePendingServer E fh m) (fun _ w' => w'.Grounded Phase.between.todo)
      { w with pool := { w.pool with pending := rest } } from
    ends_mono (hready.and_wp (gathering_schedulePendingServer hE hfh hw.toOrderly.gathering hpending))
      fun _ _ h => ⟨h.2.1.toOrderly, h.1⟩
  obtain ⟨r, hr⟩ := Option.ne_none_iff_exists'.mp ((hw.pending m).mp (hpending ▸ List.mem_cons_self))
  rw [schedulePendingServer, ends_bind, ends_getMmc]
  dsimp only
  rw [hr, ends_bind, ends_step]
  refine ⟨fun _ => ?_, fun _ => by simp⟩
  have hw₁ : World.Sound { w with pool := { w.pool with pending := rest } } (insert r (w.buildsBut m))
      .between :=
    (hw.sound_insert hr).sameLines (.of_same rfl rfl)
      ((hw.sound_insert hr).toTidy.of_unchanged rfl rfl rfl rfl rfl rfl) fun _ _ _ => rfl
  dsimp only
  rw [ends_bind]
  refine ends_mono (sound_endAndSchedule hE hfh hhalts m (hw.toOrderly.not_mem_buildsBut hr)
    (hw₁.note (s := .schedulePending m (some r)) rfl)) fun _ w₂ h₂ => ?_
  rw [ends_bind]
  refine ends_mono h₂ fun _ w₃ hw₃ => ?_
  simp only [ends_bind, ends_getMmc, ends_step, ends_modifyMmc]
  exact ⟨fun _ => hw₃.toGrounded.sameLines (.of_build m none rfl rfl) fun _ _ _ => rfl, fun _ => by simp⟩

theorem ready_mmcPoolSchedulePending (bound : Nat) (hw : w.Ready) :
    Ends NotNull (mmcPoolSchedulePending E fh bound) (fun _ => World.Ready) w := by
  induction bound generalizing w with
  | zero => exact halts_outOfFuel _ w
  | succ bound ih =>
    rw [mmcPoolSchedulePending, ends_bind, ends_getPool]
    cases hpending : w.pool.pending with
    | nil => exact (ends_pure _ _ _).mpr hw
    | cons m rest =>
      dsimp only
      rw [ends_bind, ends_modifyPool, ends_bind]
      exact ends_mono (ready_schedulePendingServer hE hfh hhalts hw hpending) fun _ _ => ih

/-! ### Runs -/

theorem ready_mmcPoolSelect (fuel : Nat) (hw : w.Ready) :
    Ends NotNull (mmcPoolSelect E fh fuel) (fun _ => World.Ready) w :=
  ends_mono ((sound_mmcPoolSelect hE hfh hhalts fuel hw.sound).and_wp
    (spares_mmcPoolSelect hE hfh fuel hw.tidy)) fun _ _ h =>
    ⟨(hw.toOrderly.gathering.keeps h.2.1 h.2.2).toOrderly, h.1.toGrounded⟩

theorem ready_runLoop (fuel bound : Nat) (hw : w.Ready) :
    Ends NotNull (runLoop E fuel fh bound) (fun _ => World.Ready) w := by
  induction bound generalizing w with
  | zero => exact halts_outOfFuel _ w
  | succ bound ih =>
    rw [runLoop, ends_bind, ends_getPool]
    refine ends_ite (fun _ => ?_) fun _ => (ends_pure _ _ _).mpr hw
    rw [ends_bind]
    refine ends_mono (ready_mmcPoolSelect hE hfh hhalts fuel hw) fun _ w₁ hw₁ => ?_
    rw [ends_bind]
    exact ends_mono (ready_mmcPoolSchedulePending hE hfh hhalts fuel hw₁) fun _ _ => ih

theorem ready_mmcPoolRun (fuel : Nat) (hw : w.Ready) :
    Ends NotNull (mmcPoolRun E fuel fh) (fun _ => World.Ready) w := by
  rw [mmcPoolRun, ends_bind]
  exact ends_mono (ready_mmcPoolSchedulePending hE hfh hhalts fuel hw) fun _ _ =>
    ready_runLoop hE hfh hhalts fuel fuel

omit hfh hhalts in
theorem halts_failoverHandler (fuel depth : Nat) (m : Mmc) (r : ReqId) :
    Halts (failoverHandler E fuel depth m r) := by
  cases depth with
  | zero => exact halts_outOfFuel
  | succ depth => exact (halts_step fun w => hE.failover m r w).bind_left _

omit hfh hhalts in
/-- **No operation follows a `NULL` pointer** while no server fails. -/
theorem ready_exec (fuel depth : Nat) (op : PoolOp) (hw : w.Ready) :
    Ends NotNull (op.exec E fuel depth) (fun _ => World.Ready) w := by
  have hfh := fails_failoverHandler hE fuel depth
  have hhalts := halts_failoverHandler hE fuel depth
  -- the order is known from the operation as a whole
  have hready (h : Ends NotNull (op.exec E fuel depth)
      (fun _ w' => w'.Grounded Phase.between.todo) w) :
      Ends NotNull (op.exec E fuel depth) (fun _ => World.Ready) w :=
    ends_mono (h.and_wp (orderly_exec hE fuel depth op hw.toOrderly)) fun _ _ h => ⟨h.2, h.1⟩
  cases op with
  | discard a =>
    refine hready ?_
    rw [PoolOp.exec, ends_bind]
    refine ends_mono (sound_makeRequest E a hw.sound) fun r w₁ h₁ => ?_
    obtain ⟨_, hw₁⟩ := h₁
    simp only [mmcPoolRelease, noteRelease, ends_bind, ends_step, ends_modifyPool]
    exact ⟨fun _ => hw₁.toGrounded.sameLines (.of_same rfl rfl) fun _ _ _ => rfl, fun _ => by simp⟩
  | schedule m a =>
    refine hready ?_
    rw [PoolOp.exec, ends_bind]
    refine ends_mono (sound_makeRequest E a hw.sound) fun r w₁ h₁ => ?_
    obtain ⟨hr, hw₁⟩ := h₁
    rw [ends_bind]
    exact ends_mono (sound_mmcPoolSchedule hE hfh hhalts m hr hw₁) fun _ _ hw₂ =>
      (ends_pure _ _ _).mpr hw₂.toGrounded
  | scheduleKey a redundancy =>
    refine hready ?_
    rw [PoolOp.exec, ends_bind]
    refine ends_mono (sound_makeRequest E a hw.sound) fun r w₁ h₁ => ?_
    obtain ⟨hr, hw₁⟩ := h₁
    rw [ends_bind, ends_getReq, ends_bind]
    exact ends_mono (sound_mmcPoolScheduleKey hE hfh hhalts _ redundancy hr hw₁) fun _ _ hw₂ =>
      (ends_pure _ _ _).mpr hw₂.toGrounded
  | scheduleGet a zkey =>
    refine hready ?_
    rw [PoolOp.exec, ends_bind]
    exact ends_mono (grounded_mmcPoolScheduleGet hE hfh hhalts fuel rfl zkey hw) fun _ _ hw₁ =>
      (ends_pure _ _ _).mpr hw₁
  | schedulePending => exact ready_mmcPoolSchedulePending hE hfh hhalts fuel hw
  | select => exact ready_mmcPoolSelect hE hfh hhalts fuel hw
  | run => exact ready_mmcPoolRun hE hfh hhalts fuel hw

end Operations

/-! ## Whole runs -/

section Runs

variable {E : Env} {w : World}

theorem ready_runOps (hE : NoFailures E) (fuel depth : Nat) (ops : List PoolOp) (hw : w.Ready) :
    Ends NotNull (runOps E fuel depth ops) (fun _ => World.Ready) w := by
  rw [runOps]
  induction ops generalizing w with
  | nil => exact (ends_pure _ _ _).mpr hw
  | cons op ops ih =>
    rw [forEach, ends_bind]
    exact ends_mono (ready_exec hE fuel depth op hw) fun _ _ => ih

/-- In a pool nothing was done with, no server is queued and no request waits. -/
theorem World.Untouched.ready (h : w.Untouched) (hlive : ∀ m t, ((w.mmc m).io t).Live) : w.Ready where
  toOrderly := h.orderly
  wired := by
    refine ⟨hlive, fun m r hline => ?_⟩
    have hempty : (w.mmc m).readLine = [] := by
      simp [MmcServer.readLine, (h.idle m).readreq, (h.idle m).readqueue]
    exact absurd (hempty ▸ hline) List.not_mem_nil
  rostered := by
    refine .of_empty fun d => ?_
    cases d with
    | write => exact h.sending _
    | read => exact h.reading _

/-- **No `NULL` pointer is followed** in a run in which no server fails, from a pool nothing was done with
    whose streams are there where they are said to be connected. -/
theorem runOps_ne_nullPointer (E : Env) (hE : NoFailures E) (fuel depth : Nat) (ops : List PoolOp) (w : World)
    (hw : w.Untouched) (hlive : ∀ m t, ((w.mmc m).io t).Live) :
    (runOps E fuel depth ops w).1 ≠ .error .nullPointer := by
  intro hnull
  have hends := ready_runOps hE fuel depth ops (hw.ready hlive)
  exact hends.2 .nullPointer (runOps E fuel depth ops w).2 (Prod.ext hnull rfl) rfl

theorem servedPool_live (m : Mmc) (t : MmcProto) : ((servedPool.mmc m).io t).Live := by
  rintro (h | h)
  · cases t <;> cases h
  · cases t <;> cases h

/-- Two rounds of a multi-key get follow none. -/
theorem fourKeys_ne_nullPointer :
    (runOps serving 20 2 (getFourKeys ++ [.run] ++ getFourKeys ++ [.run]) servedPool).1 ≠
      .error .nullPointer :=
  runOps_ne_nullPointer serving serving_noFailures 20 2 _ servedPool servedPool_untouched servedPool_live

end Runs

end PeclMemcache
