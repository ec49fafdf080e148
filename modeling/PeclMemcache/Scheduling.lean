import PeclMemcache.InHand

set_option autoImplicit false

/-! # Scheduling a request to its end

`mmc_pool_schedule` and `mmc_pool_failover_handler` call each other until the request stands in the
lines of a server or is released. Every call of the handler probes for another server, and each probe
raises `failed_index`, which is compared with `max_failover_attempts`; so the request itself comes to
an end. A connection that fails on the way also calls the handlers of the other requests of the
server. Those of single-key requests come to an end in the same way. That of a multi-key get does not:
it builds new requests of the same keys, and when a datagram is full, it schedules the one it has just
built. -/

namespace PeclMemcache

open Stateful

/-! ## The two outcomes -/

/-- The request is once in the line for sending of server `m` and once in the line for responses, and
    nowhere else. -/
structure QueuedOn (m : Mmc) (r : ReqId) (w : World) : Prop where
  sending : (w.mmc m).sendLine.count r = 1
  reading : (w.mmc m).readLine.count r = 1
  build : (w.mmc m).buildreq ≠ some r
  others : ∀ m', m' ≠ m → (w.mmc m').Lacks r
  free : some r ∉ w.pool.freeRequests

/-- The request is once in the free list and on no server. -/
structure FreeOnce (r : ReqId) (w : World) : Prop where
  free : w.pool.freeRequests.count (some r) = 1
  lacks : ∀ m, (w.mmc m).Lacks r

/-- What scheduling comes to: `MMC_OK` with the request queued on one server, or
    `MMC_REQUEST_FAILURE` with the request free. Each probe of `mmc_pool_find_next` raised
    `failed_index`, which was `i`, by one. -/
structure Settled (E : Env) (r : ReqId) (i : Nat) (result : MmcResult) (w : World) : Prop where
  place : (result = .ok ∧ ∃ m, QueuedOn m r w) ∨ (result = .failure ∧ FreeOnce r w)
  probes : (w.req r).failedIndex ≤ max i E.maxFailoverAttempts

/-- `mmc_pool_schedule` ends in one of its two outcomes, or with a step that is not allowed; with some
    depth of the recursion, and with any greater one. -/
def SchedulesOnce (E : Env) (m : Mmc) (r : ReqId) (w : World) : Prop :=
  ∃ least, ∀ fuel depth, least ≤ depth →
    Ends (fun e => e = .stopped) (mmcPoolSchedule E (failoverHandler E fuel depth) m r)
      (Settled E r (w.req r).failedIndex) w

variable {E : Env} {among : Finset ReqId} {r x : ReqId} {i n : Nat}

/-! ## Joining the lines of a server -/

/-- The request `x` has joined the line for sending of server `m`. -/
structure JoinsSend (m : Mmc) (x : ReqId) (w w' : World) : Prop where
  nextReq : w'.nextReq = w.nextReq
  free : w'.pool.freeRequests = w.pool.freeRequests
  req : w'.req = w.req
  others : ∀ m', m' ≠ m → w'.mmc m' = w.mmc m'
  sending : ∀ y ∈ (w'.mmc m).sendLine, y = x ∨ y ∈ (w.mmc m).sendLine
  once : x ∉ (w.mmc m).sendLine → (w'.mmc m).sendLine.count x = 1
  build : (w'.mmc m).buildreq = (w.mmc m).buildreq

/-- The request `x` has joined both lines of server `m`. -/
structure Joins (m : Mmc) (x : ReqId) (w w' : World) : Prop extends JoinsSend m x w w' where
  reading : ∀ y ∈ (w'.mmc m).readLine, y = x ∨ y ∈ (w.mmc m).readLine
  readOnce : x ∉ (w.mmc m).readLine → (w'.mmc m).readLine.count x = 1

/-- Appending to a queue that follows a slot. -/
theorem count_append_push {slot : Option ReqId} {queue : List ReqId} (h : x ∉ slot.toList ++ queue) :
    (slot.toList ++ mmcQueuePush queue x).count x = 1 := by
  have hqueue : x ∉ queue := fun hx => h (List.mem_append_right _ hx)
  rw [mmcQueuePush_of_not_mem hqueue, ← List.append_assoc, List.count_append,
    List.count_eq_zero_of_not_mem h]
  simp

/-- A request that takes the slot is once in the line if it was not in the queue behind it. -/
theorem count_slot {slot : Option ReqId} {queue : List ReqId} (h : x ∉ slot.toList ++ queue) :
    ((some x).toList ++ queue).count x = 1 := by
  have hqueue : x ∉ queue := fun hx => h (List.mem_append_right _ hx)
  simp [List.count_eq_zero_of_not_mem hqueue]

theorem JoinsSend.slot (m : Mmc) (x : ReqId) (w : World) (log : List Step) (p : MmcPool)
    (hp : p.freeRequests = w.pool.freeRequests) :
    JoinsSend m x w { w with
      pool := p, log := log
      mmc := Function.update w.mmc m { w.mmc m with sendreq := some x } } where
  nextReq := rfl
  free := hp
  req := rfl
  others m' hm := Function.update_of_ne hm _ _
  sending y hy := by
    simp only [Function.update_self, MmcServer.sendLine, List.mem_append, Option.mem_toList] at hy ⊢
    rcases hy with hy | hy
    · exact .inl (Option.some.inj hy).symm
    · exact .inr (.inr hy)
  once h := by
    simp only [Function.update_self]
    exact count_slot h
  build := by simp

theorem JoinsSend.queue (m : Mmc) (x : ReqId) (w : World) (log : List Step) :
    JoinsSend m x w { w with
      log := log
      mmc := Function.update w.mmc m
        { w.mmc m with sendqueue := mmcQueuePush (w.mmc m).sendqueue x } } where
  nextReq := rfl
  free := rfl
  req := rfl
  others m' hm := Function.update_of_ne hm _ _
  sending y hy := by
    simp only [Function.update_self, MmcServer.sendLine, List.mem_append, mem_mmcQueuePush] at hy ⊢
    rcases hy with hy | hy | hy
    · exact .inr (.inl hy)
    · exact .inr (.inr hy)
    · exact .inl hy
  once h := by
    simp only [Function.update_self]
    exact count_append_push h
  build := by simp

/-- In the second half of scheduling the request joins the line for responses. -/
theorem ends_scheduleRead {m : Mmc} {w w' : World} (h : JoinsSend m x w w')
    (hread : (w'.mmc m).readLine = (w.mmc m).readLine) :
    Ends stopped (scheduleRead m x) (fun result w'' => result = .ok ∧ Joins m x w w'') w' := by
  rw [scheduleRead, ends_bind, ends_getMmc]
  refine ends_ite (fun hslot => ?_) fun hslot => ?_
  · rw [ends_bind, ends_modifyMmc, ends_bind, ends_modifyPool, ends_pure]
    have hqueue : (w.mmc m).readLine = (w'.mmc m).readqueue := by
      rw [← hread, MmcServer.readLine, hslot]
      rfl
    refine ⟨rfl, ⟨⟨h.nextReq, h.free, h.req, fun m' hm => ?_, ?_, ?_, ?_⟩, ?_, ?_⟩⟩
    · exact (Function.update_of_ne hm _ _).trans (h.others m' hm)
    · simpa [MmcServer.sendLine] using h.sending
    · simpa [MmcServer.sendLine] using h.once
    · simpa using h.build
    · rw [hqueue]
      simp [MmcServer.readLine]
    · intro hx
      rw [hqueue] at hx
      simp only [Function.update_self]
      exact @count_slot x none _ hx
  · rw [ends_bind, ends_modifyMmc, ends_pure]
    refine ⟨rfl, ⟨⟨h.nextReq, h.free, h.req, fun m' hm => ?_, ?_, ?_, ?_⟩, ?_, ?_⟩⟩
    · exact (Function.update_of_ne hm _ _).trans (h.others m' hm)
    · simpa [MmcServer.sendLine] using h.sending
    · simpa [MmcServer.sendLine] using h.once
    · simpa using h.build
    · rw [← hread]
      intro y hy
      simp only [Function.update_self, MmcServer.readLine, List.mem_append, mem_mmcQueuePush] at hy ⊢
      rcases hy with hy | hy | hy
      · exact .inr (.inl hy)
      · exact .inr (.inr hy)
      · exact .inl hy
    · intro hx
      rw [← hread] at hx
      simp only [Function.update_self]
      exact count_append_push hx

/-- Another request may join the lines. -/
theorem Aside.joins {m : Mmc} {w w' : World} (h : Aside E r i among n w) (hx : x ≠ r)
    (hj : Joins m x w w') : Aside E r i among n w' := by
  refine h.spared ⟨Nat.le_of_eq hj.nextReq.symm, fun hr => hj.free ▸ hr, fun m' hm' => ?_,
    by rw [hj.req], by rw [hj.req], fun y => by rw [hj.req]; exact .rfl⟩
  by_cases hm : m' = m
  · subst hm
    refine ⟨fun hr => ?_, fun hr => ?_, hj.build ▸ hm'.build⟩
    · exact (hj.sending r hr).elim (fun hrx => hx hrx.symm) hm'.sending
    · exact (hj.reading r hr).elim (fun hrx => hx hrx.symm) hm'.reading
  · rw [hj.others m' hm]
    exact hm'

/-- `r` itself is queued once it has joined them. -/
theorem Aside.queuedOn {m : Mmc} {w w' : World} (h : Aside E r i among n w)
    (hj : Joins m r w w') : QueuedOn m r w' where
  sending := hj.once (h.lacks m).sending
  reading := hj.readOnce (h.lacks m).reading
  build := hj.build ▸ (h.lacks m).build
  others m' hm := hj.others m' hm ▸ h.lacks m'
  free := hj.free ▸ h.free

/-! ## Scheduling -/

/-- After `mmc_pool_slot_send`: the request has the slot, or the server could not be reached. -/
def SlotTried (E : Env) (r : ReqId) (i : Nat) (among : Finset ReqId) (n : Nat) (m : Mmc) (x : ReqId)
    (result : MmcResult) (w' : World) : Prop :=
  (result = .ok ∧ ∃ w, Aside E r i among n w ∧
    w' = { w with mmc := Function.update w.mmc m { w.mmc m with sendreq := some x } }) ∨
  (result ≠ .ok ∧ Aside E r i among n w')

theorem ends_takeSlot (m : Mmc) (old : Option ReqId) {w : World} (h : Aside E r i among n w) :
    Ends stopped (takeSlot E m (some x) old) (SlotTried E r i among n m x) w := by
  rw [takeSlot, ends_bind, ends_step]
  refine ⟨fun _ => ?_, fun _ => rfl⟩
  rw [ends_bind, ends_modifyMmc, ends_pure]
  exact .inl ⟨rfl, _, h.log _, rfl⟩

section

variable {fh : Failover} (hfh : ∀ m x, x ≠ r → Sustains stopped (Aside E r i among n) (fh m x))

include hfh

theorem ends_slotSendTcp (m : Mmc) (x : ReqId) (old : Option ReqId) {w : World}
    (h : Aside E r i among n w) :
    Ends stopped (slotSendTcp E fh m x old false) (SlotTried E r i among n m x) w := by
  rw [slotSendTcp, ends_bind]
  refine ends_mono (sustains_mmcPoolOpen hfh m .tcp (some x) w h) fun opened w h => ?_
  refine ends_ite (fun _ => ?_) fun _ => ?_
  · rw [ends_bind, ends_modifyReq]
    exact ends_takeSlot m old (h.write x rfl rfl)
  · rw [ends_bind, ends_step]
    refine ⟨fun _ => ?_, fun _ => rfl⟩
    rw [ends_bind, ends_modifyMmc, if_neg Bool.false_ne_true, ends_pure]
    refine .inr ⟨MmcResult.noConfusion, ?_⟩
    exact (h.log _).mmc m fun hm => hm.slot (Option.some_ne_none r).symm

theorem ends_mmcPoolSlotSend (m : Mmc) (x : ReqId) {w : World} (h : Aside E r i among n w) :
    Ends stopped (mmcPoolSlotSend E fh m (some x) false) (SlotTried E r i among n m x) w := by
  rw [mmcPoolSlotSend, ends_bind, ends_getMmc]
  dsimp only
  rw [ends_bind, ends_getReq]
  refine ends_ite (fun _ => ?_) fun _ => ends_slotSendTcp hfh m x _ h
  rw [ends_bind]
  refine ends_mono (sustains_mmcPoolOpen hfh m .udp (some x) w h) fun opened w₁ h₁ => ?_
  refine ends_ite (fun _ => ?_) fun _ => ends_slotSendTcp hfh m x _ h₁
  rw [ends_bind, ends_getMmc, ends_bind, ends_modifyMmc, ends_bind, ends_modifyReq]
  have hreqid := h₁.mmc m (s := { w₁.mmc m with reqid := ((w₁.mmc m).reqid + 1) % 2 ^ 16 })
    fun hm => ⟨hm.sending, hm.reading, hm.build⟩
  exact ends_takeSlot m _ (hreqid.write x rfl rfl)

/-- **What scheduling does** with a request: it joins the lines of the server, or its failover handler
    is called. -/
theorem ends_mmcPoolSchedule (m : Mmc) (x : ReqId) {Q : MmcResult → World → Prop}
    (hfailover : ∀ w, Aside E r i among n w → Ends stopped (fh m x) Q w)
    (hjoins : ∀ w w', Aside E r i among n w → Joins m x w w' → Q .ok w') {w : World}
    (h : Aside E r i among n w) : Ends stopped (mmcPoolSchedule E fh m x) Q w := by
  have hread {w w' : World} (h : Aside E r i among n w) (hjoin : JoinsSend m x w w')
      (hline : (w'.mmc m).readLine = (w.mmc m).readLine) : Ends stopped (scheduleRead m x) Q w' :=
    ends_mono (ends_scheduleRead hjoin hline) fun _ w'' hj => hj.1 ▸ hjoins w w'' h hj.2
  rw [mmcPoolSchedule, ends_bind]
  refine ends_mono (sustains_step _ w h) fun _ w h => ?_
  rw [ends_bind]
  refine ends_mono (sustains_mmcServerValid m w h) fun valid w h => ?_
  refine ends_ite (fun _ => hfailover w h) fun _ => ?_
  rw [ends_bind, ends_modifyReq, ends_bind, ends_getMmc]
  have hrewound : Aside E r i among n
      { w with req := Function.update w.req x (w.req x).rewind } := h.write x rfl rfl
  refine ends_ite (fun _ => ?_) fun _ => ?_
  · rw [ends_bind]
    refine ends_mono (ends_mmcPoolSlotSend hfh m x hrewound) fun result w' hsent => ?_
    rcases hsent with ⟨hok, w₁, h₁, rfl⟩ | ⟨hfailed, h'⟩
    · rw [if_neg (not_not_intro hok), ends_bind, ends_step]
      refine ⟨fun _ => ?_, fun _ => rfl⟩
      rw [ends_bind, ends_modifyPool]
      exact hread h₁ (.slot m x w₁ _ _ rfl) (by simp [MmcServer.readLine])
    · rw [if_pos hfailed]
      exact hfailover w' h'
  · rw [ends_bind, ends_step]
    refine ⟨fun _ => ?_, fun _ => rfl⟩
    rw [ends_bind, ends_modifyMmc]
    exact hread hrewound (.queue m x _ _) (by simp [MmcServer.readLine])

end

/-! ## Probing for another server -/

theorem mmcPoolFindNext_index (find : Bytes → Mmc) {max : Nat} (key : Bytes) (skip : List Mmc)
    {j : Nat} (hj : j < max) :
    j < (mmcPoolFindNext find max key skip j).2 ∧ (mmcPoolFindNext find max key skip j).2 ≤ max := by
  obtain ⟨k, hjk, hk, hfind, -⟩ :=
    @findNextFrom_cases find max key skip (max - j) j (by omega) (by omega)
  rw [mmcPoolFindNext, hfind]
  exact ⟨Nat.lt_succ_of_le hjk, hk⟩

/-- The handler probed for another server: the index of the request went up, to the limit at most. -/
structure Probed (E : Env) (x : ReqId) (w w' : World) : Prop where
  pool : w'.pool = w.pool
  mmc : w'.mmc = w.mmc
  nextReq : w'.nextReq = w.nextReq
  others : ∀ y, y ≠ x → w'.req y = w.req y
  handler : (w'.req x).failoverHandler = (w.req x).failoverHandler
  index : (w.req x).failedIndex < (w'.req x).failedIndex
  limit : (w'.req x).failedIndex ≤ E.maxFailoverAttempts

theorem Probed.trans {w w' w'' : World} (h : Probed E x w w') (h' : Probed E x w' w'') :
    Probed E x w w'' where
  pool := h'.pool.trans h.pool
  mmc := h'.mmc.trans h.mmc
  nextReq := h'.nextReq.trans h.nextReq
  others y hy := (h'.others y hy).trans (h.others y hy)
  handler := h'.handler.trans h.handler
  index := Nat.lt_trans h.index h'.index
  limit := h'.limit

/-- One turn of the loop of the handler. -/
theorem Probed.turn {w : World} (x : ReqId) (servers : List Mmc) (tick : Nat)
    {j : Nat} (hj : (w.req x).failedIndex < j) (hlimit : j ≤ E.maxFailoverAttempts) :
    Probed E x w { w with
      tick := tick
      req := Function.update w.req x
        { w.req x with failedServers := servers, failedIndex := j } } where
  pool := rfl
  mmc := rfl
  nextReq := rfl
  others y hy := Function.update_of_ne hy _ _
  handler := by simp
  index := by simpa using hj
  limit := by simpa using hlimit

theorem ends_failoverTarget (x : ReqId) (bound : Nat) (m : Mmc) (w : World)
    (hindex : (w.req x).failedIndex < E.maxFailoverAttempts) :
    Ends stopped (failoverTarget E x bound m) (fun _ => Probed E x w) w := by
  induction bound generalizing m w with
  | zero =>
    obtain ⟨hlt, hle⟩ := mmcPoolFindNext_index w.pool.findServer (w.req x).key
      (mmcQueuePush (w.req x).failedServers m) hindex
    rw [failoverTarget]
    simp only [ends_bind, ends_modifyReq, ends_getPool, ends_getReq, Function.update_self,
      Function.update_idem]
    refine ends_mono (ends_mmcServerValid _ _) ?_
    rintro valid _ ⟨tick, rfl⟩
    exact (ends_pure _ _ _).mpr (.turn x _ tick hlt hle)
  | succ bound ih =>
    obtain ⟨hlt, hle⟩ := mmcPoolFindNext_index w.pool.findServer (w.req x).key
      (mmcQueuePush (w.req x).failedServers m) hindex
    rw [failoverTarget]
    simp only [ends_bind, ends_modifyReq, ends_getPool, ends_getReq, Function.update_self,
      Function.update_idem]
    refine ends_mono (ends_mmcServerValid _ _) ?_
    rintro valid _ ⟨tick, rfl⟩
    have hturn := Probed.turn (w := w) x (mmcQueuePush (w.req x).failedServers m) tick hlt hle
    refine ends_ite (fun hagain => ?_) fun _ => (ends_pure _ _ _).mpr hturn
    refine ends_mono (ih _ _ ?_) fun _ _ => hturn.trans
    simp only [Bool.and_eq_true, decide_eq_true_eq] at hagain
    simpa using hagain.1.2

theorem Probed.sinks {w w' : World} (h : Probed E x w w')
    (hpool : (w.req x).failoverHandler = .pool) (y : ReqId) : (w.req y).Sinks (w'.req y) := by
  by_cases hy : y = x
  · subst hy
    exact ⟨fun _ => hpool, fun _ => Nat.le_of_lt h.index⟩
  · rw [h.others y hy]
    exact .rfl

/-- A probe uses up one of those that were left. -/
theorem Probed.probesLeft_lt {w w' : World} (h : Probed E x w w')
    (hpool : (w.req x).failoverHandler = .pool) (hx : x ∈ among) :
    w'.probesLeft E among < w.probesLeft E among := by
  refine World.probesLeft_lt (h.sinks hpool) hx ?_
  have hindex := h.index
  have hlimit := h.limit
  unfold MmcRequest.probesLeft
  rw [if_pos hpool, if_pos (h.handler.trans hpool)]
  omega

theorem Aside.probed {w w' : World} (h : Aside E r i among n w) (hx : x ≠ r)
    (hpool : (w.req x).failoverHandler = .pool) (hp : Probed E x w w') :
    0 < n ∧ Aside E r i among (n - 1) w' := by
  have hlt := hp.probesLeft_lt hpool (h.pools x hpool)
  have hle := h.probes
  have hkept := h.spared ⟨Nat.le_of_eq hp.nextReq.symm, fun hr => hp.pool ▸ hr,
    fun _ hm => hp.mmc ▸ hm, by rw [hp.others r hx.symm], by rw [hp.others r hx.symm],
    hp.sinks hpool⟩
  refine ⟨by omega, { hkept with probes := ?_ }⟩
  omega

/-- A probe for `r` itself raises its index. -/
theorem Aside.probed_self {w w' : World} (h : Aside E r i among n w) (hp : Probed E r w w') :
    0 < n ∧ Aside E r (w'.req r).failedIndex among (n - 1) w' := by
  have hlt := hp.probesLeft_lt h.handler (h.pools r h.handler)
  have hle := h.probes
  refine ⟨by omega, ⟨?_, ?_, ?_⟩, hp.handler.trans h.handler, rfl, fun x hx => ?_, by omega⟩
  · exact hp.nextReq ▸ h.known
  · exact hp.pool ▸ h.free
  · exact hp.mmc ▸ h.lacks
  · exact h.pools x ((hp.sinks h.handler x).handler hx)

/-! ## The recursion -/

/-- **Handlers of other requests** come to an end, with a depth above the number of probes that are
    left, and leave `r` in hand. -/
theorem ends_failoverHandler (hE : ∀ s w, E.allowed s w → s.isFlush = false) (fuel : Nat)
    {depth : Nat} (hn : n < depth) (m : Mmc) (hx : x ≠ r) :
    Sustains stopped (Aside E r i among n) (failoverHandler E fuel depth m x) := by
  induction depth generalizing n m x with
  | zero => exact absurd hn (Nat.not_lt_zero n)
  | succ depth ih =>
    refine (sustains_step (.failover m x)).bind fun _ w h => ?_
    rw [ends_bind, ends_getReq]
    cases hhandler : (w.req x).failoverHandler with
    | null => exact (sustains_mmcPoolRelease hx).bind (fun _ => .pure _) w h
    | value c =>
      exact sustains_mmcValueFailoverHandler hE fuel _ hx c h (by simp [hhandler])
    | pool =>
      dsimp only
      rw [mmcPoolFailoverHandler, ends_bind, ends_getReq, ends_bind, ends_getPool]
      refine ends_ite (fun hproceed => ?_) fun _ => ?_
      · rw [ends_bind]
        simp only [Bool.and_eq_true, decide_eq_true_eq] at hproceed
        refine ends_mono (ends_failoverTarget x _ m w hproceed.1.2) fun m' w' hp => ?_
        obtain ⟨hpos, h'⟩ := h.probed hx hhandler hp
        have hless (m : Mmc) (y : ReqId) (hy : y ≠ r) :
            Sustains stopped (Aside E r i among (n - 1)) (failoverHandler E fuel depth m y) :=
          ih (by omega) m hy
        have hkeeps := ends_mmcPoolSchedule hless m' x (hless m' x hx)
          (fun _ _ h hj => h.joins hx hj) h'
        exact ends_mono hkeeps fun _ _ h => h.mono (Finset.Subset.refl among) (Nat.sub_le n 1)
      · exact (sustains_mmcPoolRelease hx).bind (fun _ => .pure _) w h

/-- Releasing `r` makes it free, once. -/
theorem Aside.freeOnce {w : World} (h : Aside E r i among n w) (log : List Step) :
    FreeOnce r { w with
      log := log
      pool := { w.pool with freeRequests := mmcQueuePush w.pool.freeRequests (some r) } } where
  free := by
    dsimp only
    rw [mmcQueuePush_of_not_mem h.free, List.count_append, List.count_eq_zero_of_not_mem h.free]
    simp
  lacks := h.lacks

/-- **The handler of the request itself** comes to an end in one of the two outcomes. -/
theorem settled_failoverHandler (hE : ∀ s w, E.allowed s w → s.isFlush = false) (fuel : Nat)
    {depth : Nat} (hn : n < depth) (m : Mmc) {w : World} (h : Aside E r i among n w) :
    Ends stopped (failoverHandler E fuel depth m r) (Settled E r i) w := by
  induction depth generalizing n i m w with
  | zero => exact absurd hn (Nat.not_lt_zero n)
  | succ depth ih =>
    rw [failoverHandler, ends_bind]
    refine ends_mono (sustains_step _ w h) fun _ w h => ?_
    rw [ends_bind, ends_getReq, h.handler]
    dsimp only
    rw [mmcPoolFailoverHandler, ends_bind, ends_getReq, ends_bind, ends_getPool]
    refine ends_ite (fun hproceed => ?_) fun _ => ?_
    · rw [ends_bind]
      simp only [Bool.and_eq_true, decide_eq_true_eq] at hproceed
      refine ends_mono (ends_failoverTarget r _ m w hproceed.1.2) fun m' w' hp => ?_
      obtain ⟨hpos, h'⟩ := h.probed_self hp
      have hlimit := hp.limit
      have hsettled := ends_mmcPoolSchedule
        (fun m y hy => ends_failoverHandler hE fuel (by omega) m hy) m' r
        (fun w h => ih (by omega) m' h)
        (fun w w' h hj => ⟨.inl ⟨rfl, m', h.queuedOn hj⟩, ?_⟩) h'
      · refine ends_mono hsettled fun result w'' hs => ⟨hs.place, ?_⟩
        have := hs.probes
        omega
      · rw [hj.req, h.index]
        exact Nat.le_max_left _ _
    · rw [ends_bind, mmcPoolRelease, ends_bind, noteRelease, ends_step]
      refine ⟨fun _ => ?_, fun _ => rfl⟩
      rw [ends_modifyPool, ends_pure]
      refine ⟨.inr ⟨rfl, h.freeOnce _⟩, ?_⟩
      exact Nat.le_trans (Nat.le_of_eq h.index) (Nat.le_max_left _ _)

/-- **Scheduling a single-key request ends with one outcome** in every run in which no datagram of a
    multi-key get is flushed. -/
theorem schedulesOnce_of_noFlush (E : Env) (hE : ∀ s w, E.allowed s w → s.isFlush = false)
    (m : Mmc) (r : ReqId) (w : World) (hr : InHand r w) (hhandler : (w.req r).failoverHandler = .pool)
    (hlate : ∀ x, w.nextReq ≤ x → (w.req x).failoverHandler ≠ .pool) : SchedulesOnce E m r w := by
  have haside : Aside E r (w.req r).failedIndex (Finset.range w.nextReq)
      (w.probesLeft E (Finset.range w.nextReq)) w :=
    ⟨hr, hhandler, rfl, fun x hx => Finset.mem_range.mpr (Nat.lt_of_not_le fun hle => hlate x hle hx),
      Nat.le_refl _⟩
  refine ⟨w.probesLeft E (Finset.range w.nextReq) + 1, fun fuel depth hdepth => ?_⟩
  refine ends_mmcPoolSchedule (fun m x hx => ends_failoverHandler hE fuel hdepth m hx) m r
    (fun w h => settled_failoverHandler hE fuel hdepth m h)
    (fun w' w'' h hj => ⟨.inl ⟨rfl, m, h.queuedOn hj⟩, ?_⟩) haside
  rw [hj.req, h.index]
  exact Nat.le_max_left _ _

/-- Of two servers the first one cannot be connected to. -/
def firstUnreachable : Env where
  connect tick := if tick = 0 then none else some tick
  allowed s _ := !s.isFlush

/-- A request that is about to be scheduled. -/
def newStore : World where
  pool := { servers := [0, 1], findServer := fun _ => 1 }
  mmc _ := {}
  req x := if x = 0 then { failoverHandler := .pool } else {}
  nextReq := 1

theorem schedulesOnce_newStore : SchedulesOnce firstUnreachable 0 0 newStore := by
  refine schedulesOnce_of_noFlush firstUnreachable (fun s _ h => ?_) 0 0 newStore
    ⟨by decide, by decide, fun m => ⟨?_, ?_, ?_⟩⟩ rfl fun x hx => ?_
  · simpa [firstUnreachable] using h
  · exact List.not_mem_nil
  · exact List.not_mem_nil
  · exact Option.some_ne_none 0 ∘ Eq.symm
  · have hx₀ : x ≠ 0 := Nat.ne_of_gt hx
    simp [newStore, hx₀]

example : ((mmcPoolSchedule firstUnreachable (failoverHandler firstUnreachable 0 1) 0 0
    newStore).2.mmc 1).readreq = some 0 := by decide +kernel

/-! ## A multi-key get that is failed over to itself

A server that has never been reached over TCP is answering a multi-key get over UDP when user code,
called to unserialize a value, stores a key. No connection can be opened any more, and the server is
tried again at once. -/

def longKey (j : Nat) : ZKey := { ptr := j, str := List.replicate 249 97 ++ [UInt8.ofNat (48 + j)] }

/-- One key more than a datagram has room for. -/
def sixKeys : List ZKey := [longKey 0, longKey 1, longKey 2, longKey 3, longKey 4, longKey 5]

/-- No connection can be opened. -/
def refusing : Env := {}

/-- Request 0 stores a key; request 1 is the multi-key get being answered. -/
def storedMeanwhile : World where
  pool := { servers := [0], findServer := fun _ => 0, inSelect := true, readingBuf := fun _ => [0] }
  mmc _ := {
    tcp := { port := 11211, retryInterval := 0 }
    udp := {
      stream := some 0, port := 11211, retryInterval := 0, status := .connected, buffered := true }
    readreq := some 1 }
  req := Function.update (Function.update (fun _ => {}) 0 { failoverHandler := .pool }) 1
    { io := some (0, .udp), protocol := .udp, failoverHandler := .value 0, read := true }
  nextReq := 2
  call _ := { keys := sixKeys }

/-- What stays as it is: one server, retried at once, and a get without results. -/
structure Retried (w : World) : Prop where
  findServer : w.pool.findServer = fun _ => 0
  protocol : w.pool.protocol = .ascii
  free : w.pool.freeRequests = []
  call : w.call 0 = { keys := sixKeys }
  interval : (w.mmc 0).tcp.retryInterval = 0

/-- The server is down. -/
structure ServerDown (w : World) : Prop extends Retried w where
  failed : (w.mmc 0).tcp.failed = 0
  status : ∀ t, ((w.mmc 0).io t).status = .failed
  sendreq : (w.mmc 0).sendreq = none
  readreq : (w.mmc 0).readreq = none
  readqueue : (w.mmc 0).readqueue = []

theorem Retried.server {w : World} (h : Retried w) {s : MmcServer} (hs : s.tcp.retryInterval = 0) :
    Retried { w with mmc := Function.update w.mmc 0 s } :=
  ⟨h.findServer, h.protocol, h.free, h.call, by simpa using hs⟩

/-- A request of the get, whose handler hands on its keys. -/
structure OfGet (x : ReqId) (w : World) : Prop where
  known : x < w.nextReq
  handler : (w.req x).failoverHandler = .value 0
  servers : (w.req x).failedServers = []

/-- A new request `y` of the get is being built, `len` bytes long so far. -/
structure BuildingGet (y len : Nat) (w : World) : Prop extends ServerDown w, OfGet y w where
  build : (w.mmc 0).buildreq = some y
  length : (w.req y).sendbuf.value.length = len

theorem ServerDown.congr {w w' : World} (h : ServerDown w)
    (hfind : w'.pool.findServer = w.pool.findServer)
    (hprotocol : w'.pool.protocol = w.pool.protocol)
    (hfree : w'.pool.freeRequests = w.pool.freeRequests) (hcall : w'.call 0 = w.call 0)
    (hmmc : w'.mmc 0 = w.mmc 0) : ServerDown w' where
  findServer := hfind.trans h.findServer
  protocol := hprotocol.trans h.protocol
  free := hfree.trans h.free
  call := hcall.trans h.call
  interval := hmmc ▸ h.interval
  failed := hmmc ▸ h.failed
  status := hmmc ▸ h.status
  sendreq := hmmc ▸ h.sendreq
  readreq := hmmc ▸ h.readreq
  readqueue := hmmc ▸ h.readqueue

theorem BuildingGet.later {y : ReqId} {len : Nat} {w : World} (h : BuildingGet y len w) (tick : Nat)
    (log : List Step) : BuildingGet y len { w with tick := tick, log := log } :=
  ⟨h.toServerDown.congr rfl rfl rfl rfl rfl, ⟨h.known, h.handler, h.servers⟩, h.build, h.length⟩

/-- A run that uses up the depth of the recursion. -/
abbrev outOfDepth (e : Fault) : Prop := e = .fuel

theorem ends_step_refusing {F : Fault → Prop} (s : Step) (Q : Unit → World → Prop) (w : World) :
    Ends F (step refusing s) Q w ↔ Q () { w with log := s :: w.log } := by
  simp [refusing]

theorem length_longKey (j : Nat) : (longKey j).str.length = 250 := by
  rw [longKey, List.length_append, List.length_replicate]
  rfl

theorem mmcPrepareKeyEx_of_length {key : Bytes} (h : key.length = 250) :
    ∃ prepared, mmcPrepareKeyEx key [] = some prepared ∧ prepared.length = 250 := by
  have hlen : ¬ key.length % 2 ^ 32 = 0 := by omega
  refine ⟨_, if_neg hlen, ?_⟩
  rw [List.length_take, List.length_map, List.nil_append, h]
  rfl

theorem ends_valid_down {F : Fault → Prop} {w : World} (h : ServerDown w) :
    Ends F (mmcServerValid refusing 0)
      (fun valid w' => valid = true ∧ w' = { w with tick := w.tick + 1 }) w := by
  have hstatus : (w.mmc 0).tcp.status = .failed := h.status .tcp
  rw [mmcServerValid, ends_bind, ends_getMmc, if_neg (not_not_intro hstatus), h.interval,
    if_neg (lt_irrefl 0), ends_bind, ends_ask, ends_pure, h.failed]
  exact ⟨rfl, rfl⟩

theorem ends_find_down {F : Fault → Prop} (key : Bytes) {w : World} (h : ServerDown w) :
    Ends F (mmcPoolFind refusing key) (fun m w' => m = 0 ∧ w' = { w with tick := w.tick + 1 }) w := by
  rw [mmcPoolFind, ends_bind, ends_getPool, h.findServer, ends_bind]
  refine ends_mono (ends_valid_down h) ?_
  rintro _ _ ⟨rfl, rfl⟩
  exact (ends_pure _ _ _).mpr ⟨rfl, rfl⟩

/-- What making a request of the get `y` leaves alone, and what the request is. -/
structure Makes (y len : Nat) (w w' : World) : Prop where
  pool : w'.pool = w.pool
  call : w'.call = w.call
  server : w'.mmc = w.mmc
  nextReq : w.nextReq < w'.nextReq
  others : ∀ x, x < w.nextReq → w'.req x = w.req x
  fresh : y = w.nextReq
  handler : (w'.req y).failoverHandler = .value 0
  length : (w'.req y).sendbuf.value.length = len

theorem ends_mmcPoolRequestGet_retried {F : Fault → Prop} (valueHandler : Option ValueHandler)
    (call : Nat) {w : World} (h : Retried w) :
    Ends F (mmcPoolRequestGet refusing .udp valueHandler call (.value 0))
      (fun y w' => Makes y 8 w w') w := by
  simp only [mmcPoolRequestGet, mmcPoolRequest, mmcPoolRequestAlloc, popFreeRequest, ends_bind,
    ends_getPool, h.free, ends_newRequest, ends_step_refusing, ends_modifyReq, ends_pure,
    Function.update_self, Function.update_idem, if_true]
  refine ⟨rfl, rfl, rfl, Nat.lt_succ_self _, fun x hx => ?_, rfl, ?_, ?_⟩
  · exact Function.update_of_ne (Nat.ne_of_lt hx) _ _
  · simp [MmcRequest.appendSend]
  · simp [MmcRequest.appendSend, udpHeaderSize]

/-- The arguments the handler schedules the keys of request `q`, which is `x`, with. -/
def getArgs (x : ReqId) (q : MmcRequest) : GetArgs where
  protocol := .udp
  op := .get
  valueHandler := q.valueHandler
  call := q.call
  failover := q.failoverHandler
  failedRequest := some x

/-- The first key begins a new request. -/
theorem ends_beginBuild_down {F : Fault → Prop} {x : ReqId} {w : World} (h : ServerDown w)
    (hx : OfGet x w) {q : MmcRequest} (hq : q.failoverHandler = .value 0) :
    Ends F (beginBuild refusing 0 (getArgs x q))
      (fun _ w' => BuildingGet w.nextReq 11 w' ∧ OfGet x w') w := by
  rw [beginBuild, ends_bind, getArgs, hq]
  refine ends_mono (ends_mmcPoolRequestGet_retried q.valueHandler q.call h.toRetried) ?_
  rintro y w₁ hmade
  have hfresh := hmade.fresh
  have hother : x ≠ w.nextReq := Nat.ne_of_lt hx.known
  have hreq := hmade.others x hx.known
  have hlast := hmade.nextReq
  subst hfresh
  simp only [ends_bind, ends_step_refusing, ends_modifyMmc, copyFailures, ends_getReq, ends_modifyReq,
    ends_getPool, Function.update_self, Function.update_idem]
  have hdown : ServerDown w₁ := h.congr (by rw [hmade.pool]) (by rw [hmade.pool]) (by rw [hmade.pool])
    (by rw [hmade.call]) (by rw [hmade.server])
  refine ⟨⟨⟨⟨hdown.findServer, hdown.protocol, hdown.free, hdown.call, ?_⟩, ?_, ?_,
    ?_, ?_, ?_⟩, ⟨hlast, ?_, ?_⟩, ?_, ?_⟩, ⟨Nat.lt_trans hx.known hlast, ?_, ?_⟩⟩
  · simpa using hdown.interval
  · simpa using hdown.failed
  · intro t
    simp only [Function.update_self]
    exact hdown.status t
  · simpa using hdown.sendreq
  · simpa using hdown.readreq
  · simpa using hdown.readqueue
  · simpa [(kept_protocolBeginGet _ _ _).1] using hmade.handler
  · simp [hdown.protocol, protocolBeginGet, mmcAsciiBeginGet, MmcRequest.appendSend, hreq, hx.servers]
  · simp
  · simp [hdown.protocol, protocolBeginGet, mmcAsciiBeginGet, MmcRequest.appendSend, hmade.length,
      bytes]
  · simp [hother, hreq, hx.handler]
  · simp [hother, hreq, hx.servers]

theorem OfGet.write {x y : ReqId} {w : World} (h : OfGet x w) {q : MmcRequest}
    (hhandler : q.failoverHandler = (w.req y).failoverHandler)
    (hservers : q.failedServers = (w.req y).failedServers) :
    OfGet x { w with req := Function.update w.req y q } := by
  by_cases hxy : x = y
  · subst hxy
    exact ⟨h.known, by simpa using hhandler.trans h.handler, by simpa using hservers.trans h.servers⟩
  · exact ⟨h.known, by simpa [hxy] using h.handler, by simpa [hxy] using h.servers⟩

/-- A key is added to the request that is being built. -/
theorem ends_appendBuild_down {F : Fault → Prop} {x y : ReqId} {len : Nat} {w : World}
    (h : BuildingGet y len w) (hx : OfGet x w) (zkey : ZKey) {key : Bytes}
    (hkey : key.length = 250) :
    Ends F (appendBuild 0 zkey key) (fun _ w' => BuildingGet y (len + 251) w' ∧ OfGet x w') w := by
  rw [appendBuild, ends_bind, ends_getMmc, h.build]
  simp only [ends_bind, ends_getPool, ends_modifyReq, ends_pure, h.protocol]
  refine ⟨⟨h.toServerDown.congr rfl rfl rfl rfl rfl, h.toOfGet.write rfl rfl, h.build, ?_⟩,
    hx.write rfl rfl⟩
  simp [protocolAppendGet, mmcAsciiAppendGet, MmcRequest.appendSend, h.length, hkey]

/-- Scheduling a key of the get comes down to making room for it and adding it. -/
theorem ends_rescheduleKey_down {F : Fault → Prop} {fuel : Nat} {fh : Failover} {x : ReqId}
    {zkey : ZKey} (hzkey : zkey.str.length = 250) {P Q : World → Prop}
    (hP : ∀ w tick log, P w → P { w with tick := tick, log := log })
    (hdown : ∀ w, P w → ServerDown w ∧ OfGet x w)
    (hopen : ∀ w q key, P w → q.failoverHandler = .value 0 → key.length = 250 →
      Ends F (do openBuild refusing fuel fh 0 (getArgs x q) key; appendBuild 0 zkey key)
        (fun _ => Q) w)
    {w : World} (h : P w) : Ends F (rescheduleKey refusing fuel fh x 0 zkey) (fun _ => Q) w := by
  obtain ⟨key, hprepared, hlength⟩ := mmcPrepareKeyEx_of_length hzkey
  rw [rescheduleKey, ends_bind, ends_getCall, (hdown w h).1.call, ends_doWhen]
  refine ⟨fun _ => ?_, fun hstored => absurd List.not_mem_nil hstored⟩
  rw [ends_bind, ends_step_refusing, ends_bind, ends_getReq, ends_bind, mmcPoolScheduleGet]
  have hempty : refusing.keyPrefix = [] := rfl
  rw [hempty, hprepared]
  dsimp only
  have h₁ := hP w w.tick (.handed 0 zkey :: w.log) h
  rw [ends_bind]
  refine ends_mono (ends_find_down key (hdown _ h₁).1) ?_
  rintro _ _ ⟨rfl, rfl⟩
  have h₂ := hP _ (w.tick + 1) (.handed 0 zkey :: w.log) h₁
  rw [ends_bind]
  refine ends_mono (ends_valid_down (hdown _ h₂).1) ?_
  rintro _ _ ⟨rfl, rfl⟩
  have h₃ := hP _ (w.tick + 1 + 1) (.handed 0 zkey :: w.log) h₂
  exact ends_mono (hopen _ (w.req x) key h₃ (hdown w h).2.handler hlength) fun _ _ hQ =>
    (ends_pure _ _ _).mpr hQ

/-- The first key begins a new request. -/
theorem ends_rescheduleKey_first {F : Fault → Prop} {fuel : Nat} {fh : Failover} {x : ReqId}
    {zkey : ZKey} (hzkey : zkey.str.length = 250) {w : World} (h : ServerDown w)
    (hbuild : (w.mmc 0).buildreq = none) (hx : OfGet x w) :
    Ends F (rescheduleKey refusing fuel fh x 0 zkey)
      (fun _ w' => ∃ y, BuildingGet y 262 w' ∧ OfGet x w') w := by
  refine ends_rescheduleKey_down
    (P := fun w => (ServerDown w ∧ OfGet x w) ∧ (w.mmc 0).buildreq = none)
    hzkey (fun w tick log hw => ⟨⟨hw.1.1.congr rfl rfl rfl rfl rfl, ?_⟩, hw.2⟩) (fun w hw => hw.1)
    (fun w q key hw hq hkey => ?_) ⟨⟨h, hx⟩, hbuild⟩
  · exact ⟨hw.1.2.known, hw.1.2.handler, hw.1.2.servers⟩
  · rw [ends_bind, openBuild, ends_bind, ends_getMmc, hw.2]
    rw [ends_bind, ends_modifyPool]
    have hpending : ServerDown { w with
        pool := { w.pool with pending := mmcQueuePush w.pool.pending 0 } } :=
      hw.1.1.congr rfl rfl rfl rfl rfl
    have hx : OfGet x { w with pool := { w.pool with pending := mmcQueuePush w.pool.pending 0 } } :=
      ⟨hw.1.2.known, hw.1.2.handler, hw.1.2.servers⟩
    refine ends_mono (ends_beginBuild_down hpending hx hq) ?_
    rintro _ w' ⟨hbegun, hx'⟩
    exact ends_mono (ends_appendBuild_down hbegun hx' zkey hkey) fun _ _ h => ⟨_, h⟩

/-- A further key joins it as long as there is room. -/
theorem ends_rescheduleKey_next {F : Fault → Prop} {fuel : Nat} {fh : Failover} {x : ReqId}
    {len : Nat} (hroom : len + 253 ≤ 1400) {zkey : ZKey} (hzkey : zkey.str.length = 250) {w : World}
    (h : ∃ y, BuildingGet y len w ∧ OfGet x w) :
    Ends F (rescheduleKey refusing fuel fh x 0 zkey)
      (fun _ w' => ∃ y, BuildingGet y (len + 251) w' ∧ OfGet x w') w := by
  refine ends_rescheduleKey_down (P := fun w => ∃ y, BuildingGet y len w ∧ OfGet x w) hzkey ?_ ?_ ?_ h
  · rintro w tick log ⟨y, hy, hx⟩
    exact ⟨y, hy.later tick log, ⟨hx.known, hx.handler, hx.servers⟩⟩
  · rintro w ⟨y, hy, hx⟩
    exact ⟨hy.toServerDown, hx⟩
  · rintro w q key ⟨y, hy, hx⟩ hq hkey
    rw [ends_bind, openBuild, ends_bind, ends_getMmc, hy.build]
    rw [ends_bind, ends_getReq, ends_doWhen]
    refine ⟨fun hfull => ?_, fun _ => ?_⟩
    · have hover := hfull.2
      rw [hy.length, hkey, MMC_MAX_UDP_LEN] at hover
      omega
    · exact ends_mono (ends_appendBuild_down hy hx zkey hkey) fun _ _ h => ⟨y, h⟩

theorem ends_takeOffline_retried {F : Fault → Prop} {w : World} (h : Retried w) :
    Ends F (takeOffline refusing 0)
      (fun failing w' => failing = (w.mmc 0).failing ∧ ServerDown w' ∧ (w'.mmc 0).buildreq = none ∧
        w'.req = w.req ∧ w'.nextReq = w.nextReq) w := by
  simp only [takeOffline, ends_bind, ends_step_refusing, ends_ask, ends_modifyMmc, ends_modifyPool,
    ends_getMmc, ends_pure, Function.update_self, Function.update_idem]
  refine ⟨rfl, ⟨⟨h.findServer, h.protocol, h.free, h.call, ?_⟩, ?_, ?_, ?_, ?_, ?_⟩,
    trivial, trivial, trivial⟩
  · simpa [MmcStream.markFailed, MmcStream.disconnect] using h.interval
  · simp [MmcStream.markFailed, refusing]
  · intro t
    cases t <;> simp [MmcServer.io, MmcStream.markFailed]
  all_goals simp

section

variable {fuel depth : Nat}

/-- Calling the handler of a request of the get, with the server down, uses up the depth. -/
def Endless (fuel depth : Nat) : Prop :=
  ∀ x w, ServerDown w → (w.mmc 0).buildreq = none → OfGet x w →
    Ends outOfDepth (failoverHandler refusing fuel depth 0 x) (fun _ _ => False) w

variable (hd : Endless fuel depth)

include hd

theorem endless_mmcServerDeactivate {y : ReqId} {w : World} (h : Retried w)
    (hfailing : (w.mmc 0).failing = [y]) (hy : OfGet y w) :
    Ends outOfDepth (mmcServerDeactivate refusing (failoverHandler refusing fuel depth) 0)
      (fun _ _ => False) w := by
  rw [mmcServerDeactivate, ends_bind]
  refine ends_mono (ends_takeOffline_retried h) ?_
  rintro failing w' ⟨hlist, hdown, hbuild, hreq, hnext⟩
  rw [hlist, hfailing, forEach, ends_bind, ends_bind]
  refine ends_mono (hd y w' hdown hbuild ⟨?_, ?_, ?_⟩) fun _ _ hfalse => hfalse.elim
  · exact hnext ▸ hy.known
  · exact hreq ▸ hy.handler
  · exact hreq ▸ hy.servers

theorem endless_mmcServerConnect (t : MmcProto) (cause : Option ReqId) {y : ReqId} {w : World}
    (h : Retried w) (hfailing : (w.mmc 0).failing = [y]) (hy : OfGet y w) :
    Ends outOfDepth (mmcServerConnect refusing (failoverHandler refusing fuel depth) 0 t cause)
      (fun _ _ => False) w := by
  have hclosed : Ends outOfDepth (doWhen ((w.mmc 0).io t).stream.isSome
      (modifyMmc 0 fun s => s.modifyIo t MmcStream.disconnect))
      (fun _ w' => Retried w' ∧ (w'.mmc 0).failing = [y] ∧ OfGet y w') w := by
    rw [ends_doWhen, ends_modifyMmc]
    refine ⟨fun _ => ⟨h.server ?_, ?_, hy.known, hy.handler, hy.servers⟩, fun _ => ⟨h, hfailing, hy⟩⟩
    · rw [← h.interval]
      cases t <;> rfl
    · rw [← hfailing]
      simp only [Function.update_self]
      cases t <;> rfl
  rw [mmcServerConnect, ends_bind, ends_getMmc, ends_bind]
  refine ends_mono hclosed ?_
  rintro _ w' ⟨h', hfailing', hy'⟩
  rw [ends_bind, ends_ask]
  have hconnect : refusing.connect w'.tick = none := rfl
  dsimp only
  rw [hconnect, ends_bind, ends_step_refusing, ends_bind, mmcServerSeterror, ends_modifyMmc,
    ends_bind]
  refine ends_mono (endless_mmcServerDeactivate hd (y := y) ⟨h'.findServer, h'.protocol, h'.free,
    h'.call, ?_⟩ ?_ ⟨hy'.known, hy'.handler, hy'.servers⟩) fun _ _ hfalse => hfalse.elim
  · simpa using h'.interval
  · rw [← hfailing']
    simp only [Function.update_self]
    rfl

theorem endless_slotSendTcp (r : ReqId) (old : Option ReqId) {y : ReqId} {w : World} (h : Retried w)
    (hstatus : (w.mmc 0).tcp.status = .failed ∨ (w.mmc 0).tcp.status = .disconnected)
    (hfailing : (w.mmc 0).failing = [y]) (hy : OfGet y w) :
    Ends outOfDepth (slotSendTcp refusing (failoverHandler refusing fuel depth) 0 r old false)
      (fun _ _ => False) w := by
  have hopen : Ends outOfDepth
      (mmcPoolOpen refusing (failoverHandler refusing fuel depth) 0 .tcp (some r)) (fun _ _ => False) w := by
    rw [mmcPoolOpen, ends_bind, ends_getMmc, MmcServer.io]
    rcases hstatus with hstatus | hstatus
    · rw [hstatus]
      exact endless_mmcServerConnect hd .tcp (some r) h hfailing hy
    · rw [hstatus]
      exact endless_mmcServerConnect hd .tcp (some r) h hfailing hy
  rw [slotSendTcp, ends_bind]
  exact ends_mono hopen fun _ _ hfalse => hfalse.elim

/-- The datagram that is flushed finds its server down. -/
theorem endless_mmcPoolSchedule {y : ReqId} {w : World} (h : ServerDown w) (hy : OfGet y w)
    (hbuild : (w.mmc 0).buildreq = some y) :
    Ends outOfDepth (mmcPoolSchedule refusing (failoverHandler refusing fuel depth) 0 y)
      (fun _ _ => False) w := by
  have hfailing : (w.mmc 0).failing = [y] := by
    simp [MmcServer.failing, h.readreq, h.readqueue, hbuild, mmcQueuePush]
  have hsend {w' : World} (h' : ServerDown w') (hsame : w'.mmc = w.mmc) (hy' : OfGet y w') :
      Ends outOfDepth (mmcPoolSlotSend refusing (failoverHandler refusing fuel depth) 0 (some y) false)
      (fun _ _ => False) w' := by
    rw [← hsame] at hfailing
    rw [mmcPoolSlotSend, ends_bind, ends_getMmc]
    dsimp only
    rw [ends_bind, ends_getReq]
    refine ends_ite (fun _ => ?_) fun _ =>
      endless_slotSendTcp hd y _ h'.toRetried (.inl (h'.status .tcp)) hfailing hy'
    rw [ends_bind, mmcPoolOpen, ends_bind, ends_getMmc, h'.status .udp]
    exact ends_mono (endless_mmcServerConnect hd .udp (some y) h'.toRetried hfailing hy')
      fun _ _ hfalse => hfalse.elim
  have hstart : ServerDown { w with log := .schedule 0 y :: w.log } := h.congr rfl rfl rfl rfl rfl
  have hrewound : OfGet y { w with req := Function.update w.req y (w.req y).rewind } :=
    hy.write rfl rfl
  rw [mmcPoolSchedule, ends_bind, ends_step_refusing, ends_bind]
  refine ends_mono (ends_valid_down hstart) ?_
  rintro _ _ ⟨rfl, rfl⟩
  rw [if_neg (by simp), ends_bind, ends_modifyReq, ends_bind, ends_getMmc, if_pos h.sendreq,
    ends_bind]
  exact ends_mono (hsend (h.congr rfl rfl rfl rfl rfl) rfl
    ⟨hrewound.known, hrewound.handler, hrewound.servers⟩) fun _ _ hfalse => hfalse.elim

/-- The sixth key does not fit. -/
theorem endless_rescheduleKey {x : ReqId} {len : Nat} (hfull : 1400 < len + 253) {zkey : ZKey}
    (hzkey : zkey.str.length = 250) {w : World} (h : ∃ y, BuildingGet y len w ∧ OfGet x w) :
    Ends outOfDepth (rescheduleKey refusing fuel (failoverHandler refusing fuel depth) x 0 zkey)
      (fun _ _ => False) w := by
  refine ends_rescheduleKey_down (P := fun w => ∃ y, BuildingGet y len w ∧ OfGet x w) hzkey ?_ ?_ ?_ h
  · rintro w tick log ⟨y, hy, hx⟩
    exact ⟨y, hy.later tick log, ⟨hx.known, hx.handler, hx.servers⟩⟩
  · rintro w ⟨y, hy, hx⟩
    exact ⟨hy.toServerDown, hx⟩
  · rintro w q key ⟨y, hy, hx⟩ hq hkey
    rw [ends_bind, openBuild, ends_bind, ends_getMmc, hy.build]
    rw [ends_bind, ends_getReq, ends_doWhen]
    refine ⟨fun _ => ?_, fun hroom => absurd ⟨rfl, ?_⟩ hroom⟩
    · rw [ends_bind, ends_step_refusing, ends_bind, endBuild, ends_bind, ends_getPool, ends_modifyReq,
        ends_bind]
      have hended : OfGet y { w with
          req := Function.update w.req y (protocolEndGet w.pool.protocol (w.req y)) } := by
        rw [hy.protocol]
        exact hy.toOfGet.write rfl rfl
      exact ends_mono (endless_mmcPoolSchedule hd (y := y) (hy.toServerDown.congr rfl rfl rfl rfl rfl)
        ⟨hended.known, hended.handler, hended.servers⟩ hy.build) fun _ _ hfalse => hfalse.elim
    · rw [hy.length, hkey, MMC_MAX_UDP_LEN]
      omega

end

/-- Each call of the handler puts five keys into a request and fails with the sixth, which calls the
    handler of that request. -/
theorem endless_failoverHandler (fuel depth : Nat) : Endless fuel depth := by
  induction depth with
  | zero => exact fun _ _ _ _ _ => (ends_outOfFuel _ _).mpr rfl
  | succ depth ih =>
    intro x w h hbuild hx
    have h₁ : ServerDown { w with log := .valueFailover 0 :: .failover 0 x :: w.log } :=
      h.congr rfl rfl rfl rfl rfl
    rw [failoverHandler, ends_bind, ends_step_refusing, ends_bind, ends_getReq, hx.handler]
    dsimp only
    rw [mmcValueFailoverHandler, ends_bind, ends_getReq, if_neg (by simp [hx.servers, refusing]),
      ends_bind, ends_step_refusing, ends_bind, ends_getCall, h.call, sixKeys, ends_bind]
    simp only [forEach, ends_bind]
    refine ends_mono (ends_rescheduleKey_first (length_longKey 0) h₁ hbuild
      ⟨hx.known, hx.handler, hx.servers⟩) fun _ _ hfirst => ?_
    refine ends_mono (ends_rescheduleKey_next (by decide) (length_longKey 1) hfirst) fun _ _ hnext => ?_
    refine ends_mono (ends_rescheduleKey_next (by decide) (length_longKey 2) hnext) fun _ _ hnext => ?_
    refine ends_mono (ends_rescheduleKey_next (by decide) (length_longKey 3) hnext) fun _ _ hnext => ?_
    refine ends_mono (ends_rescheduleKey_next (by decide) (length_longKey 4) hnext) fun _ _ hnext => ?_
    exact ends_mono (endless_rescheduleKey ih (by decide) (length_longKey 5) hnext)
      fun _ _ hfalse => hfalse.elim

theorem endless_storedMeanwhile (fuel depth : Nat) :
    Ends outOfDepth (mmcPoolSchedule refusing (failoverHandler refusing fuel depth) 0 0)
      (fun _ _ => False) storedMeanwhile := by
  have hslot : (storedMeanwhile.mmc 0).sendreq = none := rfl
  rw [mmcPoolSchedule, ends_bind, ends_step_refusing, ends_bind, mmcServerValid, ends_bind,
    ends_getMmc, if_pos (by decide), ends_pure, if_neg (by decide), ends_bind, ends_modifyReq,
    ends_bind, ends_getMmc, if_pos hslot, ends_bind, mmcPoolSlotSend, ends_bind, ends_getMmc]
  dsimp only
  rw [ends_bind, ends_getReq, if_neg fun hudp => absurd hudp.1 (by decide)]
  exact ends_mono (endless_slotSendTcp (endless_failoverHandler fuel depth) 0 _ (y := 1)
    ⟨rfl, rfl, rfl, rfl, rfl⟩ (.inr rfl) rfl ⟨by decide, rfl, rfl⟩) fun _ _ hfalse => hfalse.elim

/-- The store neither joins the lines of the server nor comes back, with whatever depth. -/
theorem storedMeanwhile_not_schedulesOnce :
    InHand 0 storedMeanwhile ∧ (storedMeanwhile.req 0).failoverHandler = .pool ∧
      (∀ x, storedMeanwhile.nextReq ≤ x → (storedMeanwhile.req x).failoverHandler ≠ .pool) ∧
      ¬ SchedulesOnce refusing 0 0 storedMeanwhile := by
  refine ⟨⟨by decide, by decide, fun m => ⟨?_, ?_, ?_⟩⟩, rfl, fun x hx => ?_, ?_⟩
  · simp [storedMeanwhile, MmcServer.sendLine]
  · simp [storedMeanwhile, MmcServer.readLine]
  · simp [storedMeanwhile]
  · have hx₀ : x ≠ 0 := by rintro rfl; exact absurd hx (by decide)
    have hx₁ : x ≠ 1 := by rintro rfl; exact absurd hx (by decide)
    simp [storedMeanwhile, hx₀, hx₁]
  · rintro ⟨least, h⟩
    obtain ⟨e, hstopped, hfuel⟩ :=
      (h 0 least (Nat.le_refl least)).exclusive (endless_storedMeanwhile 0 least)
    exact absurd (hstopped.symm.trans hfuel) (by decide)

end PeclMemcache
