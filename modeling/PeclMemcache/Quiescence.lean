import PeclMemcache.Distribution

set_option autoImplicit false

/-! # Requests over a whole run

What holds of all requests of a pool after any operations, as long as no server has failed: no request is
lost or in two hands, no server answers out of turn, no server with something to do is forgotten, and
`mmc_pool_run` leaves nothing behind. -/

namespace PeclMemcache

open Stateful

section Operations

variable {E : Env} {w : World}

/-- **All operations keep the order** while no server fails. -/
theorem orderly_runOps (hE : NoFailures E) (fuel depth : Nat) (ops : List PoolOp) (hw : w.Untouched) :
    wp (runOps E fuel depth ops) (fun _ => World.Orderly) (fun _ => True) w :=
  wp_forEach (fun op _ => orderly_exec hE fuel depth op) ops hw.orderly

/-! ## Custody -/

/-- Where a request can be between operations. -/
inductive Spot
  | free
  | building (m : Mmc)
  | waiting (m : Mmc)

/-- The request is on the free list, in the build slot of a server, or in the read slot or the read queue
    of one. -/
def World.Has (w : World) (r : ReqId) : Spot → Prop
  | .free => some r ∈ w.pool.freeRequests
  | .building m => (w.mmc m).buildreq = some r
  | .waiting m => r ∈ (w.mmc m).readLine

/-- Every request that was ever created is in exactly one place, once; what is still to be sent is the end
    of what is still to be answered. -/
structure World.InCustody (w : World) : Prop where
  one : ∀ r, r < w.nextReq → ∃! spot, w.Has r spot
  known : ∀ r spot, w.Has r spot → r < w.nextReq
  freeNodup : w.pool.freeRequests.Nodup
  lineNodup : ∀ m, (w.mmc m).readLine.Nodup
  unsent : ∀ m, (w.mmc m).sendLine <:+ (w.mmc m).readLine

/-- The place of a request in terms of what the caller holds. -/
def Spot.place : Spot → Place
  | .free => .free
  | .building _ => .held
  | .waiting m => .line m

theorem World.Has.holds {r : ReqId} {spot : Spot} (h : w.Has r spot) : w.Holds w.builds spot.place r := by
  cases spot with
  | free => exact h
  | building m => exact ⟨m, h⟩
  | waiting m => exact h

theorem World.Orderly.spot_unique (h : w.Orderly) {r : ReqId} {spot spot' : Spot} (hr : w.Has r spot)
    (hr' : w.Has r spot') : spot = spot' := by
  have hplace : spot.place = spot'.place := h.tidy.one r _ _ hr.holds hr'.holds
  cases spot with
  | free =>
    cases spot' with
    | free => rfl
    | building m' => cases hplace
    | waiting m' => cases hplace
  | building m =>
    cases spot' with
    | free => cases hplace
    | building m' => rw [h.distinct m m' r hr hr']
    | waiting m' => cases hplace
  | waiting m =>
    cases spot' with
    | free => cases hplace
    | building m' => cases hplace
    | waiting m' =>
      injection hplace with hm
      rw [hm]

theorem World.Orderly.inCustody (h : w.Orderly) : w.InCustody where
  one r hr := by
    obtain ⟨place, hplace⟩ := h.tidy.placed r hr
    refine existsUnique_of_exists_of_unique ?_ fun _ _ => h.spot_unique
    cases place with
    | free => exact ⟨.free, hplace⟩
    | line m => exact ⟨.waiting m, hplace⟩
    | held =>
      obtain ⟨m, hm⟩ := hplace
      exact ⟨.building m, hm⟩
  known r spot hr := (h.tidy.known r _ hr.holds).1
  freeNodup := h.tidy.freeNodup
  lineNodup m := (h.tidy.inLine m).nodup
  unsent m := (h.tidy.inLine m).suffix

/-- The keys of a multi-key get are scheduled. -/
def getFourKeys : List PoolOp := fourKeys.map (PoolOp.scheduleGet (multiGet 0))

/-- At every moment the requests that a server accepted are, in this order, those it is done with and those
    that wait for its responses. -/
def World.InOrder (w : World) : Prop :=
  (∀ log, log <:+ w.log → ∀ m, Turns.joined m (log.filterMap Step.service) =
    Turns.left m (log.filterMap Step.service) ++ Turns.line m (log.filterMap Step.service)) ∧
  ∀ m, Turns.line m w.services = (w.mmc m).readLine

/-- **Servers answer in turn**, in a run in which no server fails. -/
theorem requests_inOrder (E : Env) (hE : NoFailures E) (fuel depth : Nat) (ops : List PoolOp) (w : World)
    (hw : w.Untouched) :
    wp (runOps E fuel depth ops) (fun _ w' => w'.InOrder) (fun _ => True) w := by
  refine wp_mono (orderly_runOps hE fuel depth ops hw) (fun _ w' h => ⟨fun log hlog m => ?_, h.tidy.line⟩)
    fun _ => id
  exact Turns.joined_eq_left_append_line (h.tidy.inTurn.of_suffix (hlog.filterMap _)) m

/-- Two requests for one server, and the responses to them. -/
theorem fourKeys_inOrder :
    ∃ w', runOps serving 20 2 (getFourKeys ++ [.run] ++ getFourKeys ++ [.run]) servedPool = (.ok (), w') ∧
      w'.InOrder := by
  obtain ⟨_, w', hrun, horder⟩ := exists_of_isOk (requests_inOrder serving serving_noFailures 20 2
    (getFourKeys ++ [.run] ++ getFourKeys ++ [.run]) servedPool servedPool_untouched)
    (by decide +kernel)
  exact ⟨w', hrun, horder⟩

/-- At every moment the response that is read is the one of the request that comes next at its server, and a
    request leaves the line of a server only when its response was read there to the end. -/
structure World.Matched (w : World) : Prop where
  read : ∀ m r c n result log, .parse m r c n result :: log <:+ w.log →
    (Turns.joined m (log.filterMap Step.service))[(Turns.left m (log.filterMap Step.service)).length]? = some r
  released : ∀ m r log, .release r :: log <:+ w.log → r ∈ Turns.line m (log.filterMap Step.service) →
    (log.filterMap Step.service).head? = some (.serve m r true)

/-- **Responses are matched to their requests**, in a run in which no server fails. -/
theorem responses_matched (E : Env) (hE : NoFailures E) (fuel depth : Nat) (ops : List PoolOp) (w : World)
    (hw : w.Untouched) :
    wp (runOps E fuel depth ops) (fun _ w' => w'.Matched) (fun _ => True) w := by
  refine wp_mono (orderly_runOps hE fuel depth ops hw) (fun _ w' h => ?_) fun _ => id
  have hturn {log : List Step} (hlog : log <:+ w'.log) : Turns.InTurn (log.filterMap Step.service) :=
    h.tidy.inTurn.of_suffix (hlog.filterMap _)
  refine ⟨fun m r c n result log hlog => ?_, fun m r log hlog hline => ?_⟩
  · have hserve : Turns.InTurn (.serve m r (result = .done) :: log.filterMap Step.service) := hturn hlog
    exact hserve.served
  · have hleave : Turns.InTurn (.leave r :: log.filterMap Step.service) := hturn hlog
    exact hleave.1 m hline

/-- The responses of the second round are read for the requests that were scheduled for it. -/
theorem fourKeys_matched :
    ∃ w', runOps serving 20 2 (getFourKeys ++ [.run] ++ getFourKeys ++ [.run]) servedPool = (.ok (), w') ∧
      w'.Matched := by
  obtain ⟨_, w', hrun, hmatched⟩ := exists_of_isOk (responses_matched serving serving_noFailures 20 2
    (getFourKeys ++ [.run] ++ getFourKeys ++ [.run]) servedPool servedPool_untouched)
    (by decide +kernel)
  exact ⟨w', hrun, hmatched⟩

/-! ## Rounds -/

/-- No round is under way, and the next one comes to every server that has something to send or waits for
    a response; those whose get is under construction are pending. -/
structure World.Attended (w : World) : Prop where
  inSelect : w.pool.inSelect = false
  sending : ∀ m, (w.mmc m).sendLine ≠ [] → m ∈ w.pool.sending
  reading : ∀ m, (w.mmc m).readLine ≠ [] → m ∈ w.pool.reading
  pending : ∀ m, m ∈ w.pool.pending ↔ (w.mmc m).buildreq ≠ none

theorem MmcServer.InLine.sendreq_ne_none {s : MmcServer} (h : s.InLine) (hline : s.sendLine ≠ []) :
    s.sendreq ≠ none := fun hnone => hline (by simp [MmcServer.sendLine, hnone, h.sendFirst hnone])

theorem MmcServer.InLine.readreq_ne_none {s : MmcServer} (h : s.InLine) (hline : s.readLine ≠ []) :
    s.readreq ≠ none := fun hnone => hline (by simp [MmcServer.readLine, hnone, h.readFirst hnone])

theorem World.Orderly.attended (h : w.Orderly) : w.Attended where
  inSelect := h.tidy.inSelect
  sending m hline :=
    (h.tidy.sending m ((h.tidy.inLine m).sendreq_ne_none hline)).resolve_right (Set.notMem_empty m)
  reading m hline :=
    (h.tidy.reading m ((h.tidy.inLine m).readreq_ne_none hline)).resolve_right (Set.notMem_empty m)
  pending := h.pending

/-- Nothing is under way in a pool: every request that was ever created is on the free list. -/
structure World.AtRest (w : World) : Prop where
  inSelect : w.pool.inSelect = false
  pending : w.pool.pending = []
  sending : w.pool.sending = []
  reading : w.pool.reading = []
  idle : ∀ m, (w.mmc m).Idle
  free : ∀ r, some r ∈ w.pool.freeRequests ↔ r < w.nextReq
  freeNodup : w.pool.freeRequests.Nodup

theorem World.Orderly.atRest (h : w.Orderly) (hpending : w.pool.pending = [])
    (hsending : w.pool.sending = []) (hreading : w.pool.reading = []) : w.AtRest := by
  have hattended := h.attended
  have hsend (m : Mmc) : (w.mmc m).sendLine = [] := by
    by_contra hline
    exact List.not_mem_nil (hsending ▸ hattended.sending m hline)
  have hread (m : Mmc) : (w.mmc m).readLine = [] := by
    by_contra hline
    exact List.not_mem_nil (hreading ▸ hattended.reading m hline)
  have hbuild (m : Mmc) : (w.mmc m).buildreq = none := by
    by_contra hbuild
    exact List.not_mem_nil (hpending ▸ (h.pending m).mpr hbuild)
  refine ⟨hattended.inSelect, hpending, hsending, hreading, fun m => ?_, fun r => ⟨fun hr => ?_, fun hr => ?_⟩,
    h.tidy.freeNodup⟩
  · obtain ⟨hsendreq, hsendqueue⟩ := List.append_eq_nil_iff.mp (hsend m)
    obtain ⟨hreadreq, hreadqueue⟩ := List.append_eq_nil_iff.mp (hread m)
    exact ⟨Option.toList_eq_nil_iff.mp hsendreq, Option.toList_eq_nil_iff.mp hreadreq, hbuild m, hsendqueue,
      hreadqueue⟩
  · exact (h.tidy.known r .free hr).1
  · obtain ⟨spot, hspot, _⟩ := h.inCustody.one r hr
    cases spot with
    | free => exact hspot
    | building m => exact absurd (show (w.mmc m).buildreq = some r from hspot) (by simp [hbuild m])
    | waiting m => exact absurd (show r ∈ (w.mmc m).readLine from hspot) (by simp [hread m])

/-- The loop of `mmc_pool_run` ends when no server is queued. -/
theorem runLoop_queues (E : Env) (fuel : Nat) (fh : Failover) (bound : Nat) (w : World) :
    wp (runLoop E fuel fh bound) (fun _ w' => w'.pool.reading = [] ∧ w'.pool.sending = [])
      (fun _ => True) w := by
  induction bound generalizing w with
  | zero => exact (wp_outOfFuel _ _ _).mpr trivial
  | succ bound ih =>
    rw [runLoop, wp_bind, wp_getPool]
    refine wp_ite (fun _ => wp_bind_last fun _ _ => wp_bind_last fun _ w' => ih w') fun hempty => ?_
    exact (wp_pure _ _ _ _).mpr ⟨not_not.mp (not_or.mp hempty).1, not_not.mp (not_or.mp hempty).2⟩

/-- **`mmc_pool_run` leaves nothing behind**, whatever was done with the pool before, in a run in which no
    server fails. -/
theorem mmcPoolRun_atRest (E : Env) (hE : NoFailures E) (fuel depth : Nat) (ops : List PoolOp) (w : World)
    (hw : w.Untouched) :
    wp (do runOps E fuel depth ops; mmcPoolRun E fuel (failoverHandler E fuel depth))
      (fun _ w' => w'.AtRest) (fun _ => True) w := by
  rw [wp_bind]
  refine wp_mono (orderly_runOps hE fuel depth ops hw) (fun _ w₁ h₁ => ?_) fun _ => id
  have hqueues : wp (mmcPoolRun E fuel (failoverHandler E fuel depth))
      (fun _ w' => w'.pool.reading = [] ∧ w'.pool.sending = []) (fun _ => True) w₁ :=
    wp_bind_last fun _ w' => runLoop_queues E fuel _ fuel w'
  have horder := gathering_mmcPoolRun hE (fails_failoverHandler hE fuel depth) fuel h₁.gathering
  refine wp_mono (wp_and horder hqueues) (fun _ w₂ h₂ => ?_) fun _ _ => trivial
  exact h₂.1.1.toOrderly.atRest h₂.1.2 h₂.2.2 h₂.2.1

/-- All requests of two multi-key gets are on the free list in the end. -/
theorem fourKeys_atRest :
    ∃ w', (do
        runOps serving 20 2 (getFourKeys ++ [PoolOp.run] ++ getFourKeys)
        mmcPoolRun serving 20 (failoverHandler serving 20 2)) servedPool = (.ok (), w') ∧ w'.AtRest := by
  obtain ⟨_, w', hrun, hrest⟩ := exists_of_isOk (mmcPoolRun_atRest serving serving_noFailures 20 2
    (getFourKeys ++ [.run] ++ getFourKeys) servedPool servedPool_untouched) (by decide +kernel)
  exact ⟨w', hrun, hrest⟩

end Operations

end PeclMemcache
