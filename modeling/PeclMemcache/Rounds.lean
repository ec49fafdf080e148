import PeclMemcache.Custody

set_option autoImplicit false

/-! # Rounds in which no server fails

A round keeps the order of the requests: one that was sent stays in the line for responses, one that was
answered goes from there to the free list. -/

namespace PeclMemcache

open Stateful

/-! ## Released requests -/

section Release

variable {held : Set ReqId} {phase : Phase} {w w' : World} {m : Mmc}

theorem MmcServer.readLine_shiftRead (s : MmcServer) :
    MmcServer.readLine { s with readreq := s.readqueue.head?, readqueue := s.readqueue.tail } =
      s.readqueue := headToList_append_tail _

/-- The request in the read slot goes to the free list. -/
theorem World.Accounted.complete (h : w.Accounted held) (hnodup : (w.mmc m).readLine.Nodup)
    (hfirst : (w.mmc m).readreq = none → (w.mmc m).readqueue = [])
    (hline : (w'.mmc m).readLine = (w.mmc m).readqueue)
    (hother : ∀ m', m' ≠ m → w'.mmc m' = w.mmc m')
    (hfree : w'.pool.freeRequests = mmcQueuePush w.pool.freeRequests (w.mmc m).readreq)
    (hreq : w'.req = w.req) (hnext : w'.nextReq = w.nextReq) : w'.Accounted held := by
  have hlines (m' : Mmc) (hm : m' ≠ m) : (w'.mmc m').readLine = (w.mmc m').readLine := by rw [hother m' hm]
  cases hread : (w.mmc m).readreq with
  | none =>
    have hline' : (w'.mmc m).readLine = (w.mmc m).readLine := by
      rw [hline, MmcServer.readLine, hread]
      rfl
    refine h.of_holds (fun q x => ?_) hnext fun x => hreq ▸ id
    cases q with
    | line m' =>
      change x ∈ (w'.mmc m').readLine ↔ x ∈ (w.mmc m').readLine
      by_cases hm : m' = m
      · rw [hm, hline']
      · rw [hlines m' hm]
    | free =>
      change some x ∈ w'.pool.freeRequests ↔ some x ∈ w.pool.freeRequests
      simp [hfree, hread, mem_mmcQueuePush]
    | held => exact Iff.rfl
  | some r =>
    have hlineOf : (w.mmc m).readLine = r :: (w.mmc m).readqueue := by simp [MmcServer.readLine, hread]
    have hr : w.Holds held (.line m) r := by
      change r ∈ (w.mmc m).readLine
      simp [hlineOf]
    have hne {q : Place} {x : ReqId} (hq : w.Holds held q x) (hplace : q ≠ .line m) : x ≠ r :=
      fun heq => hplace (h.one r q (.line m) (heq ▸ hq) hr)
    obtain ⟨hknown, hudp⟩ := h.known r _ hr
    refine h.place (r := r) (p := .free) (fun q x => ?_) hnext.ge (fun x _ hx => hnext ▸ hx)
      (fun x _ => hreq ▸ id) ⟨hnext ▸ hknown, hreq ▸ hudp⟩
    cases q with
    | line m' =>
      change x ∈ (w'.mmc m').readLine ↔ x ≠ r ∧ x ∈ (w.mmc m').readLine ∨ _
      by_cases hm : m' = m
      · subst hm
        have hnot : r ∉ (w.mmc m').readqueue := (List.nodup_cons.mp (hlineOf ▸ hnodup)).1
        rw [hline, hlineOf, List.mem_cons]
        refine ⟨fun hx => Or.inl ⟨fun heq => hnot (heq ▸ hx), Or.inr hx⟩, fun hx => ?_⟩
        have hx := hx.resolve_right fun h => by cases h.2
        exact hx.2.resolve_left hx.1
      · rw [hlines m' hm]
        refine ⟨fun hx => Or.inl ⟨?_, hx⟩, fun hx => (hx.resolve_right fun h => by cases h.2).2⟩
        exact hne (q := .line m') hx fun heq => hm (by injection heq)
    | free =>
      change some x ∈ w'.pool.freeRequests ↔ x ≠ r ∧ some x ∈ w.pool.freeRequests ∨ _
      simp only [hfree, hread, mem_mmcQueuePush, Option.some_inj, and_true]
      refine ⟨fun hx => hx.imp_left fun hx => ⟨?_, hx⟩, fun hx => hx.imp_left And.right⟩
      exact hne (q := .free) hx fun h => by cases h
    | held =>
      refine ⟨fun hx => Or.inl ⟨hne (q := .held) hx (fun h => by cases h), hx⟩, fun hx => ?_⟩
      exact (hx.resolve_right fun h => by cases h.2).2

/-- A request is released when its response was read, as the first one in its line. -/
theorem World.Served.complete (h : w.Served) (hanswered : w.Answered m)
    (hone : ∀ m' r, (w.mmc m).readreq = some r → r ∈ (w.mmc m').readLine → m' = m)
    (hline : (w'.mmc m).readLine = (w.mmc m).readqueue)
    (hother : ∀ m', m' ≠ m → w'.mmc m' = w.mmc m')
    (hfirst : (w.mmc m).readreq = none → (w.mmc m).readqueue = [])
    (hservices : w'.services = ((w.mmc m).readreq.map Turns.Event.leave).toList ++ w.services) :
    w'.Served := by
  cases hread : (w.mmc m).readreq with
  | none =>
    rw [hread] at hservices
    refine h.of_same hservices fun m' => ?_
    by_cases hm : m' = m
    · rw [hm, hline, MmcServer.readLine, hread]
      rfl
    · rw [hother m' hm]
  | some r =>
    rw [hread] at hservices
    have hhead : Turns.line m w.services = r :: (w.mmc m).readqueue := by
      rw [h.line]
      simp [MmcServer.readLine, hread]
    have habsent (m' : Mmc) (hm : m' ≠ m) : r ∉ Turns.line m' w.services := by
      rw [h.line]
      exact fun hmem => hm (hone m' r hread hmem)
    refine ⟨?_, fun m' => ?_⟩
    · rw [hservices]
      refine ⟨fun m' hmem => ?_, h.inTurn⟩
      by_cases hm : m' = m
      · subst hm
        exact hanswered r hread
      · exact absurd hmem (habsent m' hm)
    · rw [hservices]
      change Turns.line m' (.leave r :: w.services) = _
      by_cases hm : m' = m
      · rw [hm, Turns.line_leave_of_head hhead, hline]
      · rw [Turns.line_leave_of_not_mem (habsent m' hm), h.line, hother m' hm]

/-- The world after the request in the read slot of a server is released and the next one takes the
    slot. -/
def released (w : World) (m : Mmc) (log : List Step) : World :=
  { w with
    mmc := Function.update w.mmc m { w.mmc m with
      readreq := (w.mmc m).readqueue.head?, readqueue := (w.mmc m).readqueue.tail }
    pool := { w.pool with freeRequests := mmcQueuePush w.pool.freeRequests (w.mmc m).readreq }
    log }

theorem World.Tidy.complete (h : w.Tidy held phase) (hanswered : w.Answered m)
    (hsent : ∀ r, (w.mmc m).readreq = some r → r ∉ (w.mmc m).sendLine)
    (hmmc : w'.mmc = Function.update w.mmc m { w.mmc m with
      readreq := (w.mmc m).readqueue.head?, readqueue := (w.mmc m).readqueue.tail })
    (hfree : w'.pool.freeRequests = mmcQueuePush w.pool.freeRequests (w.mmc m).readreq)
    (hreq : w'.req = w.req) (hnext : w'.nextReq = w.nextReq)
    (hservices : w'.services = ((w.mmc m).readreq.map Turns.Event.leave).toList ++ w.services)
    (hqueues : w'.pool.queues = w.pool.queues) : w'.Tidy held phase where
  toAccounted := by
    refine h.toAccounted.complete (h.inLine m).nodup (h.inLine m).readFirst ?_ (fun m' hm => ?_) hfree
      hreq hnext
    · rw [hmmc, Function.update_self, MmcServer.readLine_shiftRead]
    · rw [hmmc, Function.update_of_ne hm]
  toServed := by
    refine h.toServed.complete hanswered (fun m' r hr hmem => ?_) ?_ (fun m' hm => ?_)
      (h.inLine m).readFirst hservices
    · have hhead : r ∈ (w.mmc m).readLine := by simp [MmcServer.readLine, hr]
      injection h.one r (.line m') (.line m) hmem hhead
    · rw [hmmc, Function.update_self, MmcServer.readLine_shiftRead]
    · rw [hmmc, Function.update_of_ne hm]
  toWatched := by
    have hcur : w'.pool.cur = w.pool.cur := congrArg RoundQueues.cur hqueues
    refine ⟨(congrArg RoundQueues.inSelect hqueues).trans h.inSelect, fun d m' hm' => ?_⟩
    rw [MmcPool.queue_of_queues hqueues, hcur]
    refine h.queued d m' fun hslot => hm' ?_
    by_cases hm : m' = m
    · subst hm
      rw [hmmc, Function.update_self]
      cases d with
      | write => exact hslot
      | read =>
        have hnil : (w.mmc m').readqueue = [] := (h.inLine m').readFirst hslot
        simp [MmcServer.slot, hnil]
    · rw [hmmc, Function.update_of_ne hm]
      exact hslot
  inLine m' := by
    rw [hmmc]
    by_cases hm : m' = m
    · subst hm
      rw [Function.update_self]
      cases hread : (w.mmc m').readreq with
      | none =>
        have hnil : (w.mmc m').readqueue = [] := (h.inLine m').readFirst hread
        refine (h.inLine m').of_slots ?_
        simp [MmcServer.slots, hnil, hread]
      | some r => exact (h.inLine m').shiftRead hread (hsent r hread)
    · rw [Function.update_of_ne hm]
      exact h.inLine m'
  freeNodup := hfree ▸ nodup_mmcQueuePush h.freeNodup _
  up m' := by
    rw [hmmc]
    by_cases hm : m' = m
    · subst hm
      rw [Function.update_self]
      exact h.up m'
    · rw [Function.update_of_ne hm]
      exact h.up m'

end Release

/-! ## Rounds -/

section Rounds

variable {E : Env} (hE : NoFailures E) {fh : Failover} (hfh : ∀ m r, Fails (fh m r)) {held : Set ReqId}
  {phase : Phase} {w : World}

theorem spares_getMmc {α : Type} (m : Mmc) {f : MmcServer → PoolM α} (hf : ∀ s, Spares held phase (f s)) :
    Spares held phase (getMmc m >>= f) := (Calm.getMmc m).spares.bind hf

/-- A server joins the queue for the next round. -/
theorem queueSending_queued (m : Mmc) (hw : w.Tidy held phase) :
    wp (queueSending m) (fun _ w' => m ∈ w'.pool.queue .write w'.pool.cur ∧ w'.Tidy held phase ∧
      KeepsRound held w w') (Quiet w) w := by
  rw [queueSending, wp_modifyPool]
  refine ⟨by simp [MmcPool.queue, mem_mmcQueuePush], hw.pool rfl ⟨hw.inSelect, fun d x hx => ?_⟩,
    (Unmoved.of_pool w (by rfl)).keeps, rfl, fun d => ?_⟩
  · refine (hw.queued d x hx).imp_left fun hmem => ?_
    cases d with
    | write =>
      have hmem : x ∈ w.pool.sendingBuf w.pool.cur := hmem
      simp [MmcPool.queue, MmcPool.sending, mem_mmcQueuePush, hmem]
    | read => exact hmem
  · cases d with
    | write => simp [MmcPool.queue]
    | read => rfl

theorem queueReading_queued (m : Mmc) (hw : w.Tidy held phase) :
    wp (queueReading m) (fun _ w' => m ∈ w'.pool.queue .read w'.pool.cur ∧ w'.Tidy held phase ∧
      KeepsRound held w w') (Quiet w) w := by
  rw [queueReading, wp_modifyPool]
  refine ⟨by simp [MmcPool.queue, mem_mmcQueuePush], hw.pool rfl ⟨hw.inSelect, fun d x hx => ?_⟩,
    (Unmoved.of_pool w (by rfl)).keeps, rfl, fun d => ?_⟩
  · refine (hw.queued d x hx).imp_left fun hmem => ?_
    cases d with
    | write => exact hmem
    | read =>
      have hmem : x ∈ w.pool.readingBuf w.pool.cur := hmem
      simp [MmcPool.queue, MmcPool.reading, mem_mmcQueuePush, hmem]
  · cases d with
    | write => rfl
    | read => simp [MmcPool.queue]

/-- A server without a request to send need not be in the queue for sending. -/
theorem spares_clearSending (m : Mmc) (hw : w.Tidy held phase) :
    wp (clearSending m) (fun _ w' => w'.mmc = w.mmc ∧ w'.log = w.log ∧ w'.Tidy held phase ∧ KeepsRound held w w')
      (Quiet w) w := by
  rw [clearSending, wp_bind, wp_getMmc, wp_doWhen]
  refine ⟨fun hnone => ?_, fun _ => ⟨rfl, rfl, hw, .refl held w⟩⟩
  rw [wp_modifyPool]
  refine ⟨rfl, rfl, hw.pool rfl ⟨hw.inSelect, fun d x hx => ?_⟩, (Unmoved.of_pool w (by rfl)).keeps, rfl,
    fun d => ?_⟩
  · refine (hw.queued d x hx).imp_left fun hmem => ?_
    cases d with
    | write =>
      have hmem : x ∈ w.pool.sendingBuf w.pool.cur := hmem
      have hne : x ≠ m := fun heq => hx (heq ▸ hnone)
      simpa [MmcPool.queue, MmcPool.sending, mmcQueueRemove, hne] using hmem
    | read => exact hmem
  · cases d with
    | write => simp [MmcPool.queue]
    | read => rfl

theorem leavesCommands_clearSending (m : Mmc) : LeavesCommands (clearSending m) :=
  (LeavesCommands.getMmc m).bind fun _ => .doWhen (.modifyPool _)

/-- The last lines of the completion of a request that was sent. -/
theorem spares_release (m : Mmc) (hw : w.Tidy held phase) (hanswered : w.Answered m)
    (hsent : ∀ r, (w.mmc m).readreq = some r → r ∉ (w.mmc m).sendLine) :
    SparesFrom held phase w (do
      mmcPoolRelease E (← getMmc m).readreq
      shiftRead m) := by
  have hdone (log : List Step) (hquiet : Quiet w (released w m log))
      (hservices : log.filterMap Step.service =
        ((w.mmc m).readreq.map Turns.Event.leave).toList ++ w.services) :
      World.Tidy (released w m log) held phase ∧ KeepsRound held w (released w m log) :=
    ⟨hw.complete hanswered hsent rfl rfl rfl rfl hservices rfl,
      ⟨hquiet, .of_mmc rfl rfl rfl rfl rfl, fun _ _ => rfl⟩, .of_queues rfl⟩
  unfold SparesFrom
  simp only [mmcPoolRelease, shiftRead, wp_bind, wp_getMmc]
  cases hread : (w.mmc m).readreq with
  | none =>
    simp only [noteRelease, wp_pure, wp_modifyPool, wp_modifyMmc]
    simpa only [released, hread] using hdone w.log (.of_same rfl rfl) (by rw [hread]; rfl)
  | some r =>
    simp only [noteRelease, wp_step, wp_modifyPool, wp_modifyMmc]
    refine ⟨fun _ => ?_, fun _ => .refl w⟩
    have hnote : Quiet w (released w m (.release r :: w.log)) := .of_step (s := .release r) trivial rfl rfl
    simpa only [released, hread] using hdone _ hnote (by rw [hread]; rfl)

include hE

/-- A request that is answered is done with sending, too: what is left of it is dropped. -/
theorem spares_completeReadreq (m : Mmc) (hw : w.Tidy held phase) (hanswered : w.Answered m) :
    SparesFrom held phase w (completeReadreq E fh m) := by
  have hin := hw.inLine m
  unfold SparesFrom
  rw [completeReadreq, wp_bind, wp_getMmc, wp_bind, wp_doWhen]
  refine ⟨fun hsame => ?_, fun hother => ?_⟩
  · cases hread : (w.mmc m).readreq with
    | none => exact (wp_nullPointer _ _ _).mpr (.refl w)
    | some r =>
      have hsend : (w.mmc m).sendreq = some r := hsame.trans hread
      have hr : r ∉ (w.mmc m).sendqueue := by
        have hnodup : (w.mmc m).sendLine.Nodup := hin.nodup.sublist hin.suffix.sublist
        rw [MmcServer.sendLine, hsend] at hnodup
        exact (List.nodup_cons.mp hnodup).1
      rw [wp_bind]
      refine wp_mono (calm_ioOf held r w) (fun io w₁ h₁ => ?_) fun _ => id
      rw [wp_bind, wp_step]
      refine ⟨fun _ => ?_, fun _ => h₁.toQuiet⟩
      have hdrop : Calm held (modifyMmc m fun s => s.modifyIo io.2 MmcStream.disconnect) :=
        Calm.modifyIo fun x _ => by simp [MmcStream.disconnect]
      have hnote : Undisturbed held w₁ { w₁ with log := .earlyDone m r :: w₁.log } :=
        .of_step w₁ trivial rfl
      have hu₁ := h₁.trans hnote
      rw [wp_bind]
      refine wp_mono (hdrop _) (fun _ w₂ h₂ => ?_) fun _ => hu₁.toQuiet.trans
      have hu : Undisturbed held w w₂ := hu₁.trans h₂
      have hsend₂ : (w₂.mmc m).sendreq = some r := (hu.sendreq m).trans hsend
      rw [wp_bind]
      refine wp_mono (spares_shiftSend hE m (hw.undisturbed hu) (by simp [hsend₂])) (fun _ w₃ h₃ => ?_)
        fun _ => hu.toQuiet.trans
      obtain ⟨⟨hw₃, hkeeps₃⟩, hread₃, hsend₃, hservices₃⟩ := h₃
      have hanswered₃ : w₃.Answered m := (hu.answered hanswered).of_same hread₃ hservices₃
      have hkeeps : KeepsRound held w w₃ := hu.keepsRound.trans hkeeps₃
      refine wp_mono (spares_clearSending m hw₃) (fun _ w₄ h₄ => ?_) fun _ => hkeeps.toQuiet.trans
      obtain ⟨hmmc₄, hlog₄, hw₄, hkeeps₄⟩ := h₄
      have hanswered₄ : w₄.Answered m :=
        hanswered₃.of_same (by rw [hmmc₄]) (congrArg (List.filterMap Step.service) hlog₄)
      have hsent : ∀ r', (w₄.mmc m).readreq = some r' → r' ∉ (w₄.mmc m).sendLine := by
        intro r' hr'
        have hread₂ : (w₂.mmc m).readreq = (w.mmc m).readreq := hu.readreq m
        have hqueue₂ : (w₂.mmc m).sendqueue = (w.mmc m).sendqueue :=
          congrArg Slots.sendqueue (hu.slots m)
        rw [hmmc₄] at hr' ⊢
        have heq : r' = r := by
          rw [hread₃, hread₂, hread] at hr'
          exact (Option.some_inj.mp hr').symm
        rw [hsend₃, hqueue₂, heq]
        exact hr
      exact wp_mono (spares_release m hw₄ hanswered₄ hsent) (fun _ w₅ h₅ => ⟨h₅.1, (hkeeps.trans hkeeps₄).trans h₅.2⟩)
        fun _ => (hkeeps.trans hkeeps₄).toQuiet.trans
  · refine spares_release m hw hanswered fun r hread hmem => hother ?_
    -- the request in the read slot can only be the first to send
    have hsuffix : (w.mmc m).sendLine <:+ r :: (w.mmc m).readqueue := by
      have := hin.suffix
      rw [MmcServer.readLine, hread] at this
      exact this
    have hnodup : (r :: (w.mmc m).readqueue).Nodup := by
      have := hin.nodup
      rw [MmcServer.readLine, hread] at this
      exact this
    rcases List.suffix_cons_iff.mp hsuffix with heq | htail
    · cases hsend : (w.mmc m).sendreq with
      | none =>
        rw [MmcServer.sendLine, hsend, hin.sendFirst hsend] at heq
        cases heq
      | some r' =>
        rw [MmcServer.sendLine, hsend] at heq
        injection heq with hhead _
        rw [hread, hhead]
    · exact absurd (htail.subset hmem) (List.nodup_cons.mp hnodup).1

/-! ### Failures -/

theorem leavesCommands_shiftSend (m : Mmc) : LeavesCommands (shiftSend E fh m) := by
  refine (LeavesCommands.getMmc m).bind fun s => (LeavesCommands.modifyMmc m _).bind fun _ => ?_
  refine LeavesCommands.bind (fun w => ?_) fun _ => Within.pure Quiet.refl ()
  refine wp_mono (mmcPoolSlotSend_sent hE m (fun r _ => Set.notMem_empty r) true w) (fun _ w' h => ?_)
    fun _ => id
  exact ⟨h.2.sameCommand, h.2.quiet⟩

include hfh

theorem fails_mmcSelectRetry (site : RetrySite) (m : Mmc) (request : Option ReqId) :
    Fails (mmcSelectRetry E fh site m request) := by
  cases request with
  | none => exact fails_nullPointer
  | some r =>
    -- whatever happens before it, the failover handler is called in the end
    have hretry : LeavesCommands (step E (.selectRetry site m r)) := .step E trivial
    refine Fails.bind_right hretry fun _ => ?_
    refine Fails.bind_right (LeavesCommands.modifyMmc m _) fun _ => Fails.getMmc m fun s => ?_
    refine Fails.bind_right (LeavesCommands.doWhen ?_) fun _ => Fails.getMmc m fun s => ?_
    · exact (leavesCommands_shiftSend hE m).bind fun _ => leavesCommands_clearSending m
    refine Fails.bind_right (LeavesCommands.doWhen ?_) fun _ => (hfh m r).bind_left _
    exact (LeavesCommands.modifyMmc m _).bind fun _ => (LeavesCommands.getMmc m).bind fun _ =>
      .doWhen (.modifyPool _)

theorem fails_retrySlot (site : RetrySite) (m : Mmc) (slot : MmcServer → Option ReqId) :
    Fails (do mmcSelectRetry E fh site m (slot (← getMmc m))) :=
  Fails.getMmc m fun s => fails_mmcSelectRetry hE hfh site m (slot s)

/-! ### Sending -/

/-- What is left of a round when its loop has served a server: if the server has a request in its slot
    still, it is queued for the next round. -/
def Requeued (held : Set ReqId) (phase : Phase) (d : Direction) (m : Mmc) (w w' : World) : Prop :=
  ((w'.mmc m).slot d ≠ none → m ∈ w'.pool.queue d w'.pool.cur) ∧ w'.Tidy held phase ∧ KeepsRound held w w'

omit hE hfh in
theorem Requeued.of_keeps {d : Direction} {m : Mmc} {w₁ w' : World} (h : Requeued held phase d m w₁ w')
    (hkeeps : KeepsRound held w w₁) : Requeued held phase d m w w' := ⟨h.1, h.2.1, hkeeps.trans h.2.2⟩

theorem spares_afterSend (b : Bool) (m : Mmc) (result : MmcResult) (hw : w.Tidy held phase)
    (hsend : (w.mmc m).sendreq ≠ none) :
    wp (afterSend E fh b m result) (fun _ w' => (result ≠ .failure ∧ result ≠ .retry) ∧
      w'.Tidy held phase ∧ KeepsRound held w w') (Quiet w) w := by
  cases result with
  | failure => exact (fails_mmcServerDeactivate hE m).bind_left _ _ w
  | retry => exact fails_retrySlot hE hfh .send m MmcServer.sendreq _ w
  | done => exact wp_mono (spares_shiftSend hE m hw hsend) (fun _ _ h => ⟨by simp, h.1⟩) fun _ => id
  | more => exact (wp_pure _ _ _ _).mpr ⟨by simp, hw, .refl held w⟩
  | again => exact (wp_pure _ _ _ _).mpr ⟨by simp, hw, .refl held w⟩

omit hE hfh in
/-- The condition of the loops over the requests of a server, once it is false. -/
theorem loop_over {result : MmcResult} {slot : Option ReqId} (hfailure : result ≠ .failure)
    (hretry : result ≠ .retry) (hends : ¬(slot ≠ none ∧ (result = .done ∨ result = .again))) :
    result = .more ∨ slot = none := by
  by_contra hnot
  obtain ⟨hmore, hslot⟩ := not_or.mp hnot
  refine hends ⟨hslot, ?_⟩
  cases result with
  | failure => exact absurd rfl hfailure
  | retry => exact absurd rfl hretry
  | done => exact Or.inl rfl
  | more => exact absurd rfl hmore
  | again => exact Or.inr rfl

/-- The loop over the requests of a server ends when a request is not sent completely, or when none is
    left. -/
theorem sendRequests_ends (b : Bool) (m : Mmc) (fuel : Nat) (hw : w.Tidy held phase)
    (hphase : phase.inSelect = true) (hsend : (w.mmc m).sendreq ≠ none) :
    wp (sendRequests E fh b m fuel)
      (fun result w' => (∃ x, result = some x ∧ (x = .more ∨ (w'.mmc m).sendreq = none)) ∧
        w'.Tidy held phase ∧ KeepsRound held w w') (Quiet w) w := by
  induction fuel generalizing w with
  | zero => exact fails_outOfFuel _ w
  | succ fuel ih =>
    rw [sendRequests, wp_bind, wp_getMmc]
    cases hreq : (w.mmc m).sendreq with
    | none => exact fails_nullPointer _ w
    | some r =>
      have hr : r ∉ held := hw.not_held_of_sendreq hreq
      dsimp only
      rw [wp_bind]
      refine wp_mono (calm_mmcRequestSend hr m w) (fun result w₁ h₁ => ?_) fun _ => id
      have hw₁ := hw.undisturbed h₁
      rw [wp_bind, wp_getPool]
      refine wp_ite (fun hover => ?_) fun _ => ?_
      · simp [hw₁.inSelect, hphase] at hover
      have hsend₁ : (w₁.mmc m).sendreq ≠ none := (h₁.sendreq m).symm ▸ hsend
      rw [wp_bind]
      refine wp_mono (spares_afterSend hE hfh b m result hw₁ hsend₁) (fun _ w₂ h₂ => ?_)
        fun _ => h₁.toQuiet.trans
      obtain ⟨⟨hfailure, hretry⟩, hw₂, hkeeps₂⟩ := h₂
      have hkeeps : KeepsRound held w w₂ := h₁.keepsRound.trans hkeeps₂
      rw [wp_bind, wp_getMmc]
      refine wp_ite (fun hmore => ?_) fun hends => ?_
      · exact wp_mono (ih hw₂ hmore.1) (fun _ _ h => ⟨h.1, h.2.1, hkeeps.trans h.2.2⟩)
          fun _ => hkeeps.toQuiet.trans
      · exact (wp_pure _ _ _ _).mpr
          ⟨⟨result, rfl, loop_over hfailure hretry hends⟩, hw₂, hkeeps⟩

/-- **Sending** leaves a server in the queue for the next round while it has something to send. -/
theorem sendServer_serves (api : SelectApi) (fuel : Nat) (b : Bool) (m : Mmc) (hw : w.Tidy held phase)
    (hphase : phase.inSelect = true) :
    wp (sendServer E fh api fuel b m)
      (fun proceed w' => proceed = true ∧ Requeued held phase .write m w w') (Quiet w) w := by
  have hqueue {w₁ : World} (hw₁ : w₁.Tidy held phase) (hkeeps : KeepsRound held w w₁) :
      wp (do queueSending m; return true)
        (fun proceed w' => proceed = true ∧ Requeued held phase .write m w w') (Quiet w) w₁ := by
    rw [wp_bind]
    refine wp_mono (queueSending_queued m hw₁) (fun _ w₂ h₂ => ?_) fun _ => hkeeps.toQuiet.trans
    exact (wp_pure _ _ _ _).mpr ⟨rfl, fun _ => h₂.1, h₂.2.1, hkeeps.trans h₂.2.2⟩
  rw [sendServer, wp_bind, wp_getMmc]
  cases hreq : (w.mmc m).sendreq with
  | none => exact (wp_pure _ _ _ _).mpr ⟨rfl, fun hslot => absurd hreq hslot, hw, .refl held w⟩
  | some r =>
    dsimp only
    rw [wp_bind]
    refine wp_mono (calm_fdOf held r w) (fun fd w₁ h₁ => ?_) fun _ => id
    rw [wp_bind, wp_getPool]
    refine wp_ite (fun _ => ?_) fun _ => hqueue (hw.undisturbed h₁) h₁.keepsRound
    rw [wp_bind, wp_modifyPool]
    have hclear : Undisturbed held w₁ { w₁ with pool := w₁.pool.clearReady api .write fd } :=
      .of_same rfl (w₁.pool.lists_clearReady api .write fd) (w₁.pool.queues_clearReady api .write fd) rfl
        rfl rfl
    have h₂ := h₁.trans hclear
    have hsend : (w₁.mmc m).sendreq ≠ none := by simp [h₁.sendreq m, hreq]
    rw [wp_bind]
    refine wp_mono (sendRequests_ends hE hfh b m fuel (hw.undisturbed h₂) hphase hsend)
      (fun result w₃ h₃ => ?_) fun _ => h₂.toQuiet.trans
    obtain ⟨⟨x, rfl, hx⟩, hw₃, hkeeps₃⟩ := h₃
    have hkeeps : KeepsRound held w w₃ := h₂.keepsRound.trans hkeeps₃
    dsimp only
    rw [wp_bind, wp_doWhen]
    refine ⟨fun _ => (wp_bind _ _ _ _ _).mp (hqueue hw₃ hkeeps), fun hnot => ?_⟩
    exact (wp_pure _ _ _ _).mpr
      ⟨rfl, fun hslot => absurd (hx.resolve_left hnot) hslot, hw₃, hkeeps⟩

/-! ### Reading -/

theorem spares_checkEof (m : Mmc) (hw : w.Tidy held phase) :
    wp (checkEof E fh m) (fun result w' => result = .more ∧ w'.Tidy held phase ∧ KeepsRound held w w')
      (Quiet w) w := by
  rw [checkEof, wp_bind, wp_getMmc]
  cases (w.mmc m).readreq with
  | none => exact fails_nullPointer _ w
  | some r =>
    dsimp only
    rw [wp_bind]
    refine wp_mono (calm_ioOf held r w) (fun io w₁ h₁ => ?_) fun _ => id
    rw [wp_bind, wp_getMmc]
    cases ((w₁.mmc io.1).io io.2).stream with
    | none => exact wp_mono (fails_nullPointer _ w₁) (fun _ _ => id) fun _ => h₁.toQuiet.trans
    | some c =>
      dsimp only
      rw [wp_bind]
      refine wp_mono ((Calm.ask E.eof : Calm held _) w₁) (fun eof w₂ h₂ => ?_) fun _ => h₁.toQuiet.trans
      have hu : Undisturbed held w w₂ := h₁.trans h₂
      refine wp_ite (fun _ => ?_) fun _ => (wp_pure _ _ _ _).mpr ⟨rfl, hw.undisturbed hu, hu.keepsRound⟩
      -- the end of a connection is a failure or asks for a retry
      refine wp_mono (Fails.bind_right (LeavesCommands.step E (s := .eof m r c) trivial) (fun _ => ?_) _ w₂)
        (fun _ _ => id) fun _ => hu.toQuiet.trans
      refine Fails.bind_right (calm_mmcServerFailure ∅ m io _ _).leavesCommands fun result => ?_
      refine Fails.ite ((fails_mmcServerDeactivate hE m).bind_left _) ?_
      exact Fails.getMmc m fun s => (fails_mmcSelectRetry hE hfh .read m s.readreq).bind_left _

theorem spares_afterParse (m : Mmc) (result : MmcResult) (hw : w.Tidy held phase)
    (hanswered : result = .done → w.Answered m) :
    wp (afterParse E fh m result) (fun result w' => (result ≠ .failure ∧ result ≠ .retry) ∧
      w'.Tidy held phase ∧ KeepsRound held w w') (Quiet w) w := by
  cases result with
  | failure => exact (fails_mmcServerDeactivate hE m).bind_left _ _ w
  | retry =>
    exact Fails.getMmc m (fun s => (fails_mmcSelectRetry hE hfh .read m s.readreq).bind_left _) _ w
  | done =>
    rw [afterParse, wp_bind]
    refine wp_mono (spares_completeReadreq hE m hw (hanswered rfl)) (fun _ _ h => ?_) fun _ => id
    exact (wp_pure _ _ _ _).mpr ⟨by simp, h⟩
  | more =>
    refine wp_mono (spares_checkEof hE hfh m hw) (fun result w' h => ?_) fun _ => id
    rw [h.1]
    exact ⟨by simp, h.2⟩
  | again => exact (wp_pure _ _ _ _).mpr ⟨by simp, hw, .refl held w⟩

/-- The loop over the responses of a server ends when one has not arrived completely, or when none is
    waited for. -/
theorem readRequests_ends (m : Mmc) (fuel : Nat) (hw : w.Tidy held phase)
    (hphase : phase.inSelect = true) :
    wp (readRequests E fh m fuel)
      (fun result w' => (∃ x, result = some x ∧ (x = .more ∨ (w'.mmc m).readreq = none)) ∧
        w'.Tidy held phase ∧ KeepsRound held w w') (Quiet w) w := by
  induction fuel generalizing w with
  | zero => exact fails_outOfFuel _ w
  | succ fuel ih =>
    rw [readRequests, wp_bind, wp_getMmc]
    cases hreq : (w.mmc m).readreq with
    | none => exact fails_nullPointer _ w
    | some r =>
      have hr : r ∉ held := hw.not_held_of_readreq hreq
      dsimp only
      rw [wp_bind]
      refine wp_mono (parseReadreq_parsed hr m w) (fun result w₁ h₁ => ?_) fun _ => id
      have hw₁ := hw.parsed hreq h₁
      have hanswered (hdone : result = .done) : w₁.Answered m := by
        intro r' hr'
        have hreq₁ : (w₁.mmc m).readreq = some r := (h₁.readreq m).trans hreq
        rw [h₁.services, hdone, Option.some_inj.mp (hr'.symm.trans hreq₁)]
        rfl
      rw [wp_bind, wp_getPool]
      refine wp_ite (fun hover => ?_) fun _ => ?_
      · simp [hw₁.inSelect, hphase] at hover
      rw [wp_bind]
      refine wp_mono (spares_afterParse hE hfh m result hw₁ hanswered) (fun result w₂ h₂ => ?_)
        fun _ => h₁.toQuiet.trans
      obtain ⟨⟨hfailure, hretry⟩, hw₂, hkeeps₂⟩ := h₂
      have hkeeps : KeepsRound held w w₂ := h₁.keepsRound.trans hkeeps₂
      rw [wp_bind, wp_getMmc]
      refine wp_ite (fun _ => ?_) fun hends => ?_
      · exact wp_mono (ih hw₂) (fun _ _ h => ⟨h.1, h.2.1, hkeeps.trans h.2.2⟩) fun _ => hkeeps.toQuiet.trans
      · exact (wp_pure _ _ _ _).mpr
          ⟨⟨result, rfl, loop_over hfailure hretry hends⟩, hw₂, hkeeps⟩

omit hE hfh in
theorem mmcServerFailure_result (m : Mmc) (io : Mmc × MmcProto) (error : String) (errnum : Int) :
    wp (mmcServerFailure m io error errnum) (fun result _ => result ≠ .again) (fun _ => True) w := by
  rw [mmcServerFailure, wp_bind, wp_getMmc]
  refine wp_bind_last fun _ _ => wp_bind_last fun _ _ => (wp_pure _ _ _ _).mpr ?_
  change ((w.mmc io.1).io io.2).serverFailure.1 ≠ .again
  unfold MmcStream.serverFailure
  split
  · simp
  · simp
  · simp

omit hE hfh in
/-- Reading a datagram never asks for another one at once. -/
theorem fillBuffer_result (m : Mmc) (r : ReqId) :
    wp (fillBuffer E m r) (fun result _ => result ≠ .again) (fun _ => True) w := by
  refine wp_bind_last fun q w₁ => wp_ite (fun _ => ?_) fun _ => (wp_pure _ _ _ _).mpr (by simp)
  refine wp_bind_last fun io w₂ => (wp_bind _ _ _ _ _).mpr ((wp_getMmc _ _ _ _).mpr ?_)
  cases ((w₂.mmc io.1).io io.2).stream with
  | none => exact (wp_nullPointer _ _ _).mpr trivial
  | some c =>
    refine wp_bind_last fun _ _ => wp_bind_last fun datagram w₃ => ?_
    refine wp_ite (fun _ => mmcServerFailure_result m io _ _) fun _ => ?_
    refine wp_ite (fun _ => mmcServerFailure_result m io _ _) fun _ => ?_
    refine wp_bind_last fun _ _ => wp_bind_last fun q _ => wp_ite (fun _ => ?_) fun _ => ?_
    · refine wp_bind_last fun _ _ => wp_bind_last fun _ _ => wp_ite (fun _ => ?_) fun _ => ?_
      · exact (wp_pure _ _ _ _).mpr (by simp)
      · exact (wp_pure _ _ _ _).mpr (by simp)
    · exact wp_bind_last fun _ _ => wp_bind_last fun _ _ => (wp_pure _ _ _ _).mpr (by simp)

/-- A server from which no datagram was accepted is queued again. -/
theorem spares_afterRead (m : Mmc) {result : MmcResult} (hresult : result ≠ .ok) (hagain : result ≠ .again)
    (hw : w.Tidy held phase) :
    wp (afterRead E fh m result) (fun _ w' => Requeued held phase .read m w w') (Quiet w) w := by
  cases result with
  | failure => exact fails_mmcServerDeactivate hE m _ w
  | retry => exact fails_retrySlot hE hfh .read m MmcServer.readreq _ w
  | more => exact wp_mono (queueReading_queued m hw) (fun _ _ h => ⟨fun _ => h.1, h.2⟩) fun _ => id
  | done => exact absurd rfl hresult
  | again => exact absurd rfl hagain

/-- **Reading** leaves a server in the queue for the next round while it has responses to wait for. -/
theorem readServer_serves (api : SelectApi) (fuel : Nat) (m : Mmc) (hw : w.Tidy held phase)
    (hphase : phase.inSelect = true) :
    wp (readServer E fh api fuel m)
      (fun proceed w' => proceed = true ∧ Requeued held phase .read m w w') (Quiet w) w := by
  have hqueue {w₁ : World} (hw₁ : w₁.Tidy held phase) (hkeeps : KeepsRound held w w₁) :
      wp (do queueReading m; return true)
        (fun proceed w' => proceed = true ∧ Requeued held phase .read m w w') (Quiet w) w₁ := by
    rw [wp_bind]
    refine wp_mono (queueReading_queued m hw₁) (fun _ w₂ h₂ => ?_) fun _ => hkeeps.toQuiet.trans
    exact (wp_pure _ _ _ _).mpr ⟨rfl, fun _ => h₂.1, h₂.2.1, hkeeps.trans h₂.2.2⟩
  rw [readServer, wp_bind, wp_getMmc]
  cases hreq : (w.mmc m).readreq with
  | none => exact (wp_pure _ _ _ _).mpr ⟨rfl, fun hslot => absurd hreq hslot, hw, .refl held w⟩
  | some r =>
    have hr : r ∉ held := hw.not_held_of_readreq hreq
    have hline : w.Holds held (.line m) r := by
      change r ∈ (w.mmc m).readLine
      simp [MmcServer.readLine, hreq]
    dsimp only
    rw [wp_bind]
    refine wp_mono (calm_fdOf held r w) (fun fd w₁ h₁ => ?_) fun _ => id
    rw [wp_bind, wp_getPool]
    refine wp_ite (fun _ => ?_) fun _ => hqueue (hw.undisturbed h₁) h₁.keepsRound
    rw [wp_bind, wp_modifyPool]
    have hclear : Undisturbed held w₁ { w₁ with pool := w₁.pool.clearReady api .read fd } :=
      .of_same rfl (w₁.pool.lists_clearReady api .read fd) (w₁.pool.queues_clearReady api .read fd) rfl
        rfl rfl
    have h₂ := h₁.trans hclear
    have hw₂ := hw.undisturbed h₂
    have hudp := (hw₂.known r (.line m) ((h₂.holds _ r).mpr hline)).2
    rw [wp_bind]
    refine wp_mono (wp_and (fillBuffer_result m r) (calm_fillBuffer hr m hudp)) (fun filled w₃ h₃ => ?_)
      fun _ h => h₂.toQuiet.trans h.2
    have hu : Undisturbed held w w₃ := h₂.trans h₃.2
    have hw₃ := hw.undisturbed hu
    refine wp_ite (fun hfilled => ?_) fun _ => ?_
    · rw [wp_bind]
      refine wp_mono (spares_afterRead hE hfh m hfilled h₃.1 hw₃) (fun _ w₄ h₄ => ?_)
        fun _ => hu.toQuiet.trans
      exact (wp_pure _ _ _ _).mpr ⟨rfl, h₄.of_keeps hu.keepsRound⟩
    rw [wp_bind]
    refine wp_mono (readRequests_ends hE hfh m fuel hw₃ hphase) (fun result w₄ h₄ => ?_)
      fun _ => hu.toQuiet.trans
    obtain ⟨⟨x, rfl, hx⟩, hw₄, hkeeps₄⟩ := h₄
    have hkeeps : KeepsRound held w w₄ := hu.keepsRound.trans hkeeps₄
    dsimp only
    rw [wp_bind, wp_doWhen]
    refine ⟨fun _ => (wp_bind _ _ _ _ _).mp (hqueue hw₄ hkeeps), fun hnot => ?_⟩
    exact (wp_pure _ _ _ _).mpr
      ⟨rfl, fun hslot => absurd (hx.resolve_left hnot) hslot, hw₄, hkeeps⟩

/-! ### The loops -/

theorem serveServer_serves (api : SelectApi) (d : Direction) (b : Bool) (fuel : Nat) (m : Mmc)
    (hw : w.Tidy held phase) (hphase : phase.inSelect = true) :
    wp (serveServer E fh api d b fuel m)
      (fun proceed w' => proceed = true ∧ Requeued held phase d m w w') (Quiet w) w := by
  cases d with
  | write => exact sendServer_serves hE hfh api fuel b m hw hphase
  | read => exact readServer_serves hE hfh api fuel m hw hphase

/-- The servers of a round that the loop in direction `d` has yet to come to, from position `i` on. -/
def Phase.from (phase : Phase) (d : Direction) (queue : List Mmc) (i : Nat) : Phase :=
  { phase with todo := Function.update phase.todo d { m | m ∈ queue.drop i } }

omit hE hfh in
/-- A server that is queued for the next round need not be served in this one any more. -/
theorem World.Watched.served {d : Direction} {m : Mmc} {queue : List Mmc} {i : Nat}
    (h : w.Watched (phase.from d queue i)) (hm : queue[i]? = some m)
    (hqueued : (w.mmc m).slot d ≠ none → m ∈ w.pool.queue d w.pool.cur) :
    w.Watched (phase.from d queue (i + 1)) where
  inSelect := h.inSelect
  queued d' m' hslot := by
    refine (h.queued d' m' hslot).elim Or.inl fun htodo => ?_
    by_cases hd : d' = d
    · subst hd
      have hmem : m' ∈ queue.drop i := by simpa [Phase.from] using htodo
      rw [List.drop_eq_getElem_cons (List.getElem?_eq_some_iff.mp hm).1,
        (List.getElem?_eq_some_iff.mp hm).2] at hmem
      rcases List.mem_cons.mp hmem with heq | hmem
      · exact Or.inl (heq ▸ hqueued (heq ▸ hslot))
      · exact Or.inr (by simpa [Phase.from] using hmem)
    · right
      simpa [Phase.from, hd] using htodo

/-- **A loop of a round** ends with every server that it came to served. -/
theorem serverLoop_serves (api : SelectApi) (d : Direction) (b : Bool) (fuel i : Nat)
    (hb : b = !w.pool.cur) (hw : w.Tidy held (phase.from d (w.pool.queue d b) i))
    (hphase : phase.inSelect = true) :
    wp (serverLoop E fh api d b fuel i)
      (fun proceed w' => proceed = true ∧ w'.Tidy held (phase.from d [] 0) ∧ KeepsRound held w w')
      (Quiet w) w := by
  induction fuel generalizing w i with
  | zero => exact fails_outOfFuel _ w
  | succ fuel ih =>
    rw [serverLoop, wp_bind, wp_getPool]
    cases hm : (w.pool.queue d b)[i]? with
    | none =>
      have hdrop : (w.pool.queue d b).drop i = [] := List.drop_eq_nil_iff.mpr (List.getElem?_eq_none_iff.mp hm)
      have hsame : phase.from d (w.pool.queue d b) i = phase.from d [] 0 := by
        rw [Phase.from, Phase.from, hdrop, List.drop_nil]
      exact (wp_pure _ _ _ _).mpr ⟨rfl, hsame ▸ hw, .refl held w⟩
    | some m =>
      dsimp only
      rw [wp_bind]
      refine wp_mono (serveServer_serves hE hfh api d b fuel m hw hphase) (fun proceed w₁ h₁ => ?_)
        fun _ => id
      obtain ⟨rfl, hqueued, hw₁, hkeeps₁⟩ := h₁
      have hqueue : w₁.pool.queue d b = w.pool.queue d b := hb ▸ hkeeps₁.queue d
      rw [if_pos rfl]
      refine wp_mono (ih (i + 1) (hkeeps₁.cur ▸ hb) ?_) (fun _ w₂ h₂ => ?_) fun _ => hkeeps₁.toQuiet.trans
      · exact hqueue.symm ▸ hw₁.inPhase (hw₁.toWatched.served hm hqueued)
      · exact ⟨h₂.1, h₂.2.1, hkeeps₁.trans h₂.2.2⟩

/-- A server that has timed out fails in the end. -/
theorem spares_timeoutLoop (api : SelectApi) (d : Direction) (b : Bool) (result : Int) (fuel i : Nat) :
    Spares held phase (timeoutLoop E fh api d b result fuel i) := by
  induction fuel generalizing i with
  | zero => exact fails_outOfFuel.spares
  | succ fuel ih =>
    refine Calm.getPool.spares.bind fun p => ?_
    cases (p.queue d b)[i]? with
    | none => exact Spares.pure _
    | some m =>
      refine (calm_timedOut held api d m).spares.bind fun expired => Spares.ite ?_ (ih _)
      refine (Fails.bind_right (LeavesCommands.modifyPool _) fun _ => Fails.getMmc m fun s => ?_).spares
      refine Fails.bind_of (mmcSelectFailure_retry hE m (s.slot d) result) fun outcome hretry => ?_
      refine Fails.getMmc m fun s => Fails.bind_left ?_ _
      rw [doWhen, if_pos hretry]
      exact fails_mmcSelectRetry hE hfh .timeout m (s.slot d)

omit hE hfh in
/-- A part of a round that keeps the order, and what comes after it. -/
theorem wp_spares {α β : Type} {x : PoolM α} {f : α → PoolM β} {Q : β → World → Prop} {w₁ : World}
    (hx : Spares held phase x) (hw₁ : w₁.Tidy held phase) (hkeeps : KeepsRound held w w₁)
    (hf : ∀ a w₂, w₂.Tidy held phase → KeepsRound held w w₂ → wp (f a) Q (Quiet w) w₂) :
    wp (x >>= f) Q (Quiet w) w₁ :=
  (wp_bind _ _ _ _ _).mpr (wp_mono (hx w₁ hw₁) (fun a w₂ h₂ => hf a w₂ h₂.1 (hkeeps.trans h₂.2))
    fun _ => hkeeps.toQuiet.trans)

/-- A round over the servers queued in buffer `b`, before its loops come to any of them. -/
def Phase.start (inSelect : Bool) (p : MmcPool) (b : Bool) : Phase := ⟨inSelect, fun d => { m | m ∈ p.queue d b }⟩

omit hE hfh in
theorem Phase.from_zero {d : Direction} {queue : List Mmc} (h : phase.todo d = { m | m ∈ queue }) :
    phase.from d queue 0 = phase := by
  rw [Phase.from, List.drop_zero, ← h, Function.update_eq_self]

omit hE hfh in
/-- The queues are switched: the servers that were queued are those of the round. -/
theorem spares_mmcPoolSwitch (hw : w.Tidy held .between) :
    wp (modifyPool mmcPoolSwitch)
      (fun _ w' => (w'.pool.cur = !w.pool.cur ∧ (∀ d, w'.pool.queue d w.pool.cur = w.pool.queue d w.pool.cur)) ∧
        w'.Tidy held (.start false w.pool w.pool.cur) ∧ Keeps held w w') (Quiet w) w := by
  have hqueue (d : Direction) : (mmcPoolSwitch w.pool).queue d w.pool.cur = w.pool.queue d w.pool.cur := by
    cases d with
    | write => simp [mmcPoolSwitch, MmcPool.queue]
    | read => simp [mmcPoolSwitch, MmcPool.queue]
  refine (wp_modifyPool _ _ _ _).mpr ⟨⟨rfl, hqueue⟩, hw.pool rfl ⟨hw.inSelect, fun d m hslot => Or.inr ?_⟩,
    (Unmoved.of_pool w (by rfl)).keeps⟩
  exact (hw.queued d m hslot).resolve_right (Set.notMem_empty m)

/-- A round starts between two others. -/
theorem spares_startRound (api : SelectApi) (fuel : Nat) (hw : w.Tidy held .between) :
    wp (startRound E fh api fuel w.pool.cur)
      (fun b w' => b = !w'.pool.cur ∧ w'.Tidy held (.start true w'.pool b) ∧ Keeps held w w') (Quiet w) w := by
  rw [startRound, wp_bind]
  refine wp_mono (spares_mmcPoolSwitch hw) (fun _ w₁ h₁ => ?_) fun _ => id
  obtain ⟨⟨hcur, hqueue⟩, hw₁, hkeeps₁⟩ := h₁
  suffices hrest : wp _ (fun b w' => b = !w'.pool.cur ∧ w'.Tidy held (.start true w'.pool b) ∧
      Keeps held w₁ w') (Quiet w₁) w₁ from
    wp_mono hrest (fun _ _ h => ⟨h.1, h.2.1, hkeeps₁.trans h.2.2⟩) fun _ => hkeeps₁.toQuiet.trans
  refine wp_spares (calm_waitReady held api w.pool.cur).spares hw₁ (.refl held w₁) fun result w₂ hw₂ hkeeps₂ => ?_
  refine wp_spares Calm.getInTimeout.spares hw₂ hkeeps₂ fun outer w₃ hw₃ hkeeps₃ => ?_
  refine wp_spares (Calm.setInTimeout true).spares hw₃ hkeeps₃ fun _ w₄ hw₄ hkeeps₄ => ?_
  refine wp_spares (Spares.doWhen ?_) hw₄ hkeeps₄ fun _ w₅ hw₅ hkeeps₅ => ?_
  · exact (spares_timeoutLoop hE hfh api .write w.pool.cur result fuel 0).bind fun _ =>
      spares_timeoutLoop hE hfh api .read w.pool.cur result fuel 0
  refine wp_spares (Calm.setInTimeout outer).spares hw₅ hkeeps₅ fun _ w₆ hw₆ hkeeps₆ => ?_
  rw [wp_bind, wp_modifyPool]
  have hcur₆ : w₆.pool.cur = !w.pool.cur := hkeeps₆.cur.trans hcur
  have hqueue₆ (d : Direction) : w₆.pool.queue d w.pool.cur = w.pool.queue d w.pool.cur := by
    have hround := hkeeps₆.queue d
    rw [hcur, Bool.not_not] at hround
    exact hround.trans (hqueue d)
  refine (wp_pure _ _ _ _).mpr ⟨by simp [hcur₆], hw₆.pool rfl ⟨rfl, fun d m hslot => ?_⟩,
    hkeeps₆.toKeeps.trans (Unmoved.of_pool w₆ (by rfl)).keeps⟩
  refine (hw₆.queued d m hslot).imp (fun hmem => ?_) fun hmem => ?_
  · cases d with
    | write => exact hmem
    | read => exact hmem
  · have hmem : m ∈ w₆.pool.queue d w.pool.cur := (hqueue₆ d).symm ▸ hmem
    cases d with
    | write => exact hmem
    | read => exact hmem

/-- **A round keeps the order**: it leaves every server that has something to send or waits for a response
    in a queue for the next round. -/
theorem spares_mmcPoolSelect (fuel : Nat) (hw : w.Tidy held .between) :
    wp (mmcPoolSelect E fh fuel) (fun _ w' => w'.Tidy held .between ∧ Keeps held w w') (Quiet w) w := by
  rw [mmcPoolSelect, wp_bind]
  refine wp_mono ((Calm.step E (s := .round) trivial rfl : Calm held _) w) (fun _ w₁ h₁ => ?_) fun _ => id
  have hw₁ := hw.undisturbed h₁
  have hclosed : w₁.pool.inSelect = false := hw₁.inSelect
  rw [wp_bind, wp_getPool, wp_bind, beginRound, wp_bind, wp_getPool, hclosed]
  refine wp_mono (spares_startRound hE hfh _ fuel hw₁) (fun b w₂ h₂ => ?_) fun _ => h₁.toQuiet.trans
  obtain ⟨hb, hw₂, hkeeps₂⟩ := h₂
  have hkeeps := h₁.keeps.trans hkeeps₂
  set phase : Phase := .start true w₂.pool b
  have hwrite : phase.from .write (w₂.pool.queue .write b) 0 = phase := Phase.from_zero rfl
  rw [wp_bind]
  refine wp_mono (serverLoop_serves hE hfh _ .write b fuel 0 hb (hwrite.symm ▸ hw₂) rfl)
    (fun sent w₃ h₃ => ?_) fun _ => hkeeps.toQuiet.trans
  obtain ⟨rfl, hw₃, hkeeps₃⟩ := h₃
  have hqueue₃ : w₃.pool.queue .read b = w₂.pool.queue .read b := hb ▸ hkeeps₃.queue .read
  have hread : (phase.from .write [] 0).from .read (w₃.pool.queue .read b) 0 = phase.from .write [] 0 := by
    rw [hqueue₃]
    exact Phase.from_zero (by simp [Phase.from, phase, Phase.start])
  have hkeeps := hkeeps.trans hkeeps₃.toKeeps
  rw [wp_doWhen]
  refine ⟨fun _ => ?_, fun hnot => absurd rfl hnot⟩
  rw [wp_bind]
  refine wp_mono (serverLoop_serves hE hfh _ .read b fuel 0 (hkeeps₃.cur ▸ hb) (hread.symm ▸ hw₃) rfl)
    (fun received w₄ h₄ => ?_) fun _ => hkeeps.toQuiet.trans
  obtain ⟨rfl, hw₄, hkeeps₄⟩ := h₄
  have hkeeps := hkeeps.trans hkeeps₄.toKeeps
  rw [wp_doWhen]
  refine ⟨fun _ => (wp_modifyPool _ _ _ _).mpr ?_, fun hnot => absurd rfl hnot⟩
  refine ⟨hw₄.pool rfl ⟨rfl, fun d m hslot => Or.inl ?_⟩, hkeeps.trans (Unmoved.of_pool w₄ (by rfl)).keeps⟩
  have hqueued := hw₄.queued d m hslot
  cases d with
  | write => exact hqueued.resolve_right (by simp [Phase.from])
  | read => exact hqueued.resolve_right (by simp [Phase.from])

end Rounds

end PeclMemcache
