import PeclMemcache.Wiring

set_option autoImplicit false

/-! # No `NULL` pointer is followed

Every part of a round finds a request in the slot it looks at, and a stream behind the request: a server is
queued for a round only while its slot is taken, and a request that takes a slot has its stream. -/

namespace PeclMemcache

open Stateful

/-! ## Who is queued -/

/-- A server that is queued for the next round has a request in its slot, is queued once, and is none of
    those that the round under way has yet to come to. -/
structure World.Rostered (w : World) (todo : Direction → Set Mmc) : Prop where
  busy : ∀ d m, m ∈ w.pool.queue d w.pool.cur → (w.mmc m).slot d ≠ none ∧ m ∉ todo d
  nodup : ∀ d, (w.pool.queue d w.pool.cur).Nodup

section Invariants

variable {w w' : World} {m : Mmc} {r : ReqId} {todo todo' : Direction → Set Mmc} {held but but' : Set ReqId}
  {phase : Phase} {request : Option ReqId}

/-- Only `m` is moved in the queues, and only its slots are changed. -/
theorem World.Rostered.change (h : w.Rostered todo) (hsub : ∀ d, todo' d ⊆ todo d)
    (hslot : ∀ d m', m' ≠ m → (w'.mmc m').slot d = (w.mmc m').slot d)
    (hqueue : ∀ d m', m' ≠ m → m' ∈ w'.pool.queue d w'.pool.cur → m' ∈ w.pool.queue d w.pool.cur)
    (hself : ∀ d, m ∈ w'.pool.queue d w'.pool.cur → (w'.mmc m).slot d ≠ none ∧ m ∉ todo' d)
    (hnodup : ∀ d, (w'.pool.queue d w'.pool.cur).Nodup) : w'.Rostered todo' where
  busy d m' hmem := by
    by_cases hm : m' = m
    · exact hm ▸ hself d (hm ▸ hmem)
    · obtain ⟨hbusy, htodo⟩ := h.busy d m' (hqueue d m' hm hmem)
      exact ⟨hslot d m' hm ▸ hbusy, fun hmem => htodo (hsub d hmem)⟩
  nodup := hnodup

theorem World.Rostered.mono (h : w.Rostered todo) (hsub : ∀ d, todo' d ⊆ todo d) : w.Rostered todo' :=
  ⟨fun d m hm => ⟨(h.busy d m hm).1, fun hmem => (h.busy d m hm).2 (hsub d hmem)⟩, h.nodup⟩

theorem MmcPool.queue_cur_of_queues {p p' : MmcPool} (h : p'.queues = p.queues) (d : Direction) :
    p'.queue d p'.cur = p.queue d p.cur := by
  have hcur : p'.cur = p.cur := congrArg RoundQueues.cur h
  rw [MmcPool.queue_of_queues h, hcur]

theorem World.Rostered.same (h : w.Rostered todo) (hqueues : w'.pool.queues = w.pool.queues)
    (hslots : ∀ m, (w'.mmc m).slots = (w.mmc m).slots) : w'.Rostered todo := by
  have hqueue (d : Direction) : w'.pool.queue d w'.pool.cur = w.pool.queue d w.pool.cur :=
    MmcPool.queue_cur_of_queues hqueues d
  refine ⟨fun d m hm => ?_, fun d => hqueue d ▸ h.nodup d⟩
  rw [MmcServer.slot_of_slots (hslots m)]
  exact h.busy d m (hqueue d ▸ hm)

/-- A request takes the send slot, or joins a line. -/
theorem World.Wired.rewired (h : w.Wired but) (hr : Rewired m request w w')
    (hline : ∀ m' x, x ∈ (w'.mmc m').readLine → x ∉ (w'.mmc m').sendqueue → x ∉ but' →
      m' = m ∧ request = some x ∨
        request ≠ some x ∧ x ∈ (w.mmc m').readLine ∧ x ∉ (w.mmc m').sendqueue ∧ x ∉ but) :
    w'.Wired but' where
  live m' t := (hr.streams m' t).live (h.live m' t)
  assigned m' x hx hqueue hbut := by
    rcases hline m' x hx hqueue hbut with ⟨rfl, hrequest⟩ | ⟨hother, hx, hqueue, hbut⟩
    · exact hr.assigned (h.live m') x hrequest
    · obtain ⟨t, hio, hstream⟩ := h.assigned m' x hx hqueue hbut
      exact ⟨t, (hr.io x hother).trans hio, (hr.streams m' t).stream hstream⟩

theorem SameWiring.rewired (h : SameWiring w w') (m : Mmc) : Rewired m none w w' :=
  ⟨fun r _ => h.io r, h.streams, fun _ _ hr => by cases hr⟩

theorem Rewired.same {w'' : World} (h : Rewired m request w w') (hs : SameWiring w' w'') :
    Rewired m request w w'' where
  io r hr := (hs.io r).trans (h.io r hr)
  streams m t := (h.streams m t).trans (hs.streams m t)
  assigned hlive r hr := (h.assigned hlive r hr).same hs

/-- Requests have the streams they need, and servers that are queued have requests. -/
structure World.Grounded (w : World) (todo : Direction → Set Mmc) : Prop where
  wired : w.Wired ∅
  rostered : w.Rostered todo

theorem World.Grounded.mono (h : w.Grounded todo) (hsub : ∀ d, todo' d ⊆ todo d) : w.Grounded todo' :=
  ⟨h.wired, h.rostered.mono hsub⟩

/-- The state in which no part of a round follows a `NULL` pointer. -/
structure World.Sound (w : World) (held : Set ReqId) (phase : Phase) : Prop
    extends w.Tidy held phase, w.Grounded phase.todo

theorem World.Sound.undisturbed (h : w.Sound held phase) {held' : Set ReqId} (hu : Undisturbed held' w w')
    (hs : SameWiring w w') : w'.Sound held phase where
  toTidy := h.toTidy.undisturbed hu
  wired := h.wired.same hs hu.slots
  rostered := h.rostered.same hu.queues hu.slots

/-- A program that has to do with no line keeps such a state. -/
theorem World.Sound.ends_calm (h : w.Sound held phase) {α : Type} {x : PoolM α} {held' : Set ReqId}
    (hs : Steady x) (hc : Calm held' x) : Ends NotNull x (fun _ w' => w'.Sound held phase) w :=
  ends_mono ((hs w).and_wp (hc w)) fun _ _ h' => h.undisturbed h'.2 h'.1

theorem World.Sound.note (h : w.Sound held phase) {s : Step} (hs : s.service = none) :
    World.Sound { w with log := s :: w.log } held phase where
  toTidy := h.toTidy.note hs
  wired := h.wired.same (.of_same rfl rfl) fun _ => rfl
  rostered := ⟨h.rostered.busy, h.rostered.nodup⟩

/-- A request in a slot has a stream. -/
theorem World.Sound.assigned (h : w.Sound held phase) {d : Direction} (hr : (w.mmc m).slot d = some r) :
    w.Assigned m r := h.wired.slot (h.inLine m) hr

end Invariants

/-! ## Scheduling -/

section Schedule

variable {held : Set ReqId} {w w₁ : World} {m : Mmc} {r : ReqId} {request : Option ReqId}

/-- A request took the send slot, as `request` says, or joined the queue behind it, and is about to join the
    line for responses; everything else is as it was in `w`. -/
structure AcceptedAt (m : Mmc) (r : ReqId) (request : Option ReqId) (w w₁ : World) : Prop where
  rewired : Rewired m request w w₁
  request : request = some r ∨ request = none ∧ r ∈ (w₁.mmc m).sendqueue
  other : ∀ m', m' ≠ m → (w₁.mmc m').slots = (w.mmc m').slots
  readreq : (w₁.mmc m).readreq = (w.mmc m).readreq
  readqueue : (w₁.mmc m).readqueue = (w.mmc m).readqueue
  sendreq : (w₁.mmc m).sendreq ≠ none
  sendqueue : ∀ x ∈ (w.mmc m).sendqueue, x ∈ (w₁.mmc m).sendqueue
  sending : ∀ m', m' ≠ m → m' ∈ w₁.pool.queue .write w₁.pool.cur → m' ∈ w.pool.queue .write w.pool.cur
  nodup : (w₁.pool.queue .write w₁.pool.cur).Nodup
  reading : w₁.pool.queue .read w₁.pool.cur = w.pool.queue .read w.pool.cur

/-- The request has a stream once it is in the line, or is still in the send queue. -/
theorem AcceptedAt.wired (h : AcceptedAt m r request w w₁) (hw : w.Sound (insert r held) .between)
    {s : MmcServer} {w' : World} (hmmc : w'.mmc = Function.update w₁.mmc m s) (hreq : w'.req = w₁.req)
    (hio : ∀ t, s.io t = (w₁.mmc m).io t) (hqueue : s.sendqueue = (w₁.mmc m).sendqueue)
    (hline : ∀ x ∈ s.readLine, x ∈ (w.mmc m).readLine ∨ x = r) : w'.Wired ∅ := by
  have hsame : SameWiring w₁ w' := by
    refine ⟨fun x => by rw [hreq], fun m' t => ?_⟩
    rw [hmmc]
    exact (SameWiring.of_mmc w₁ fun t => (hio t).symm ▸ .rfl).streams m' t
  refine hw.wired.rewired (h.rewired.same hsame) fun m' x hx hnot hbut => ?_
  -- a request that waited before is not the new one, so its stream is the one it had
  have hold {m' : Mmc} (hx : x ∈ (w.mmc m').readLine) : request ≠ some x := by
    rcases h.request with rfl | ⟨rfl, _⟩
    · rintro ⟨⟩
      exact hw.not_line_of_held (Set.mem_insert r held) m' hx
    · simp
  by_cases hm : m' = m
  · subst hm
    rw [hmmc, Function.update_self] at hx hnot
    rcases hline x hx with hx | rfl
    · exact Or.inr ⟨hold hx, hx, fun hmem => hnot (hqueue ▸ h.sendqueue x hmem), hbut⟩
    · exact Or.inl ⟨rfl, h.request.resolve_right fun h => hnot (hqueue ▸ h.2)⟩
  · rw [hmmc, Function.update_of_ne hm] at hx hnot
    rw [MmcServer.readLine_of_slots (h.other m' hm)] at hx
    rw [show (w₁.mmc m').sendqueue = _ from congrArg Slots.sendqueue (h.other m' hm)] at hnot
    exact Or.inr ⟨hold hx, hx, hnot, hbut⟩

/-- Its server is queued for both directions, with requests in both slots. -/
theorem AcceptedAt.rostered (h : AcceptedAt m r request w w₁) (hw : w.Sound held .between) {s : MmcServer}
    {w' : World} (hmmc : w'.mmc = Function.update w₁.mmc m s) (hsend : s.sendreq = (w₁.mmc m).sendreq)
    (hread : s.readreq ≠ none)
    (hwrite : w'.pool.queue .write w'.pool.cur = w₁.pool.queue .write w₁.pool.cur)
    (hqueue : ∀ m', m' ≠ m → m' ∈ w'.pool.queue .read w'.pool.cur → m' ∈ w.pool.queue .read w.pool.cur)
    (hnodup : (w'.pool.queue .read w'.pool.cur).Nodup) : w'.Rostered Phase.between.todo := by
  refine hw.rostered.change (m := m) (fun _ _ => id) (fun d m' hm => ?_) (fun d m' hm hmem => ?_)
    (fun d _ => ⟨?_, Set.notMem_empty m⟩) fun d => ?_
  · rw [hmmc, Function.update_of_ne hm]
    exact MmcServer.slot_of_slots (h.other m' hm) d
  · cases d with
    | write => exact h.sending m' hm (hwrite ▸ hmem)
    | read => exact hqueue m' hm hmem
  · rw [hmmc, Function.update_self]
    cases d with
    | write => exact (show s.sendreq ≠ none from hsend ▸ h.sendreq)
    | read => exact hread
  · cases d with
    | write => exact hwrite ▸ h.nodup
    | read => exact hnodup

/-- The request joins the line for responses. -/
theorem AcceptedAt.scheduleRead (h : AcceptedAt m r request w w₁) (hw : w.Sound (insert r held) .between) :
    Ends NotNull (scheduleRead m r)
      (fun _ w' => w'.Grounded Phase.between.todo) w₁ := by
  rw [PeclMemcache.scheduleRead, ends_bind, ends_getMmc]
  refine ends_ite (fun hnone => ?_) fun hsome => ?_
  · simp only [ends_bind, ends_modifyMmc, ends_modifyPool, ends_pure]
    have hempty : (w₁.mmc m).readqueue = [] :=
      h.readqueue.trans ((hw.inLine m).readFirst (h.readreq ▸ hnone))
    refine ⟨h.wired hw rfl rfl (fun t => by cases t <;> rfl) rfl fun x hx => ?_,
      h.rostered hw rfl rfl (Option.some_ne_none r) rfl (fun x hx hmem => ?_) ?_⟩
    · simp only [MmcServer.readLine, hempty, Option.toList_some, List.append_nil,
        List.mem_singleton] at hx
      exact Or.inr hx
    · simp only [MmcPool.queue, MmcPool.reading, Function.update_self, mem_mmcQueuePush] at hmem
      exact h.reading ▸ hmem.resolve_right hx
    · simp only [MmcPool.queue, MmcPool.reading, Function.update_self]
      exact nodup_mmcQueuePush (show (w₁.pool.queue .read w₁.pool.cur).Nodup from
        h.reading ▸ hw.rostered.nodup .read) m
  · simp only [ends_bind, ends_modifyMmc, ends_pure]
    refine ⟨h.wired hw rfl rfl (fun t => by cases t <;> rfl) rfl fun x hx => ?_,
      h.rostered hw rfl rfl hsome rfl (fun x _ hmem => h.reading ▸ hmem)
        (h.reading ▸ hw.rostered.nodup .read)⟩
    simp only [MmcServer.readLine, List.mem_append, mem_mmcQueuePush] at hx ⊢
    rw [h.readreq, h.readqueue] at hx
    tauto

variable {E : Env} (hE : NoFailures E) {fh : Failover} (hhalts : ∀ m r, Halts (fh m r))

include hE hhalts

/-- `mmc_pool_schedule` leaves the request with a stream, or in the send queue. -/
theorem grounded_mmcPoolSchedule (m : Mmc) (hr : r ∉ held) (hw : w.Sound (insert r held) .between) :
    Ends NotNull (mmcPoolSchedule E fh m r)
      (fun _ w' => w'.Grounded Phase.between.todo) w := by
  rw [mmcPoolSchedule, ends_bind, ends_step]
  refine ⟨fun _ => ?_, fun _ => by simp⟩
  have hw₁ := hw.note (s := .schedule m r) rfl
  rw [ends_bind]
  refine ends_mono (hw₁.ends_calm (steady_mmcServerValid m) (calm_mmcServerValid held m))
    fun valid w₂ hw₂ => ?_
  refine ends_ite (fun _ => hhalts m r _ w₂) fun _ => ?_
  rw [ends_bind, ends_modifyReq]
  have hu₃ : Undisturbed held w₂ { w₂ with req := Function.update w₂.req r (w₂.req r).rewind } :=
    .of_req w₂ hr (.of_value rfl rfl) fun h => h
  have hw₃ := hw₂.undisturbed hu₃ (.of_req w₂ rfl)
  set w₃ : World := { w₂ with req := Function.update w₂.req r (w₂.req r).rewind }
  rw [ends_bind, ends_getMmc]
  refine ends_ite (fun hnone => ?_) fun hsome => ?_
  · rw [ends_bind]
    refine ends_mono ((wires_mmcPoolSlotSend hE m (some r) false w₃).and_wp
      (mmcPoolSlotSend_sent hE m (fun r _ => Set.notMem_empty r) false w₃))
      fun result w₄ h₄ => ?_
    obtain ⟨hs₄, hok, hu₄⟩ := h₄
    refine ends_ite (fun hfailed => absurd hok hfailed) fun _ => ?_
    simp only [ends_bind, ends_step, ends_modifyPool]
    refine ⟨fun _ => ?_, fun _ => by simp⟩
    have hslots := hu₄.slots m
    simp only [Function.update_self] at hslots
    have hqueue (d : Direction) : w₄.pool.queue d w₄.pool.cur = w₃.pool.queue d w₃.pool.cur :=
      MmcPool.queue_cur_of_queues hu₄.queues d
    have hsendreq : (w₄.mmc m).sendreq = some r := congrArg Slots.sendreq hslots
    have hsendqueue : (w₄.mmc m).sendqueue = (w₃.mmc m).sendqueue := congrArg Slots.sendqueue hslots
    refine AcceptedAt.scheduleRead ⟨hs₄.same (.of_same rfl rfl), Or.inl rfl, fun m' hm => ?_,
      congrArg Slots.readreq hslots, congrArg Slots.readqueue hslots, ?_, fun x hx => ?_,
      fun x hx hmem => ?_, ?_, hqueue .read⟩ hw₃
    · simpa [hm] using hu₄.slots m'
    · exact hsendreq ▸ Option.some_ne_none r
    · exact hsendqueue ▸ hx
    · simp only [MmcPool.queue, MmcPool.sending, Function.update_self, mem_mmcQueuePush] at hmem
      exact hqueue .write ▸ hmem.resolve_right hx
    · simp only [MmcPool.queue, MmcPool.sending, Function.update_self]
      exact nodup_mmcQueuePush (show (w₄.pool.queue .write w₄.pool.cur).Nodup from
        hqueue .write ▸ hw₃.rostered.nodup .write) m
  · simp only [ends_bind, ends_step, ends_modifyMmc]
    refine ⟨fun _ => ?_, fun _ => by simp⟩
    have hwiring : SameWiring w₃ { w₃ with
        log := .accept m r :: w₃.log
        mmc := Function.update w₃.mmc m
          { w₃.mmc m with sendqueue := mmcQueuePush (w₃.mmc m).sendqueue r } } :=
      (SameWiring.of_mmc w₃ fun t => by cases t <;> exact .rfl).trans (.of_same rfl rfl)
    refine AcceptedAt.scheduleRead ⟨hwiring.rewired m, Or.inr ⟨rfl, ?_⟩, fun m' hm => ?_, ?_, ?_, ?_,
      fun x hx => ?_, fun x _ => id, hw₃.rostered.nodup .write, rfl⟩ hw₃
    · simp
    · simp [hm]
    · simp
    · simp
    · simpa using hsome
    · simp [hx]

end Schedule

/-! ## Sending -/

/-- The next request has moved up into the send slot. -/
def MmcServer.shifted (s : MmcServer) : MmcServer :=
  { s with sendreq := s.sendqueue.head?, sendqueue := s.sendqueue.tail }

section Sending

variable {held but : Set ReqId} {phase : Phase} {todo todo' : Direction → Set Mmc} {w w' : World} {m : Mmc}
  {r : ReqId} {request : Option ReqId}

theorem SameWiring.then_rewired {w'' : World} (hs : SameWiring w w') (h : Rewired m request w' w'') :
    Rewired m request w w'' where
  io r hr := (h.io r hr).trans (hs.io r)
  streams m t := (hs.streams m t).trans (h.streams m t)
  assigned hlive := h.assigned fun t => (hs.streams m t).live (hlive t)

/-- What moving up leaves of the streams behind requests. -/
theorem World.Wired.shiftSend (h : w.Wired but) (hw : w.Tidy held phase)
    (hu : Undisturbed ∅ { w with mmc := Function.update w.mmc m (w.mmc m).shifted } w')
    (hr : Rewired m (w.mmc m).sendqueue.head? w w') : w'.Wired but := by
  refine h.rewired hr fun m' x hx hnot hbut => ?_
  have hslots := hu.slots m'
  by_cases hm : m' = m
  · subst hm
    simp only [Function.update_self] at hslots
    rw [MmcServer.readLine_of_slots hslots] at hx
    rw [show (w'.mmc m').sendqueue = (w.mmc m').sendqueue.tail from
      congrArg Slots.sendqueue hslots] at hnot
    by_cases hhead : (w.mmc m').sendqueue.head? = some x
    · exact Or.inl ⟨rfl, hhead⟩
    · -- a request that still has no stream is still in the queue
      refine Or.inr ⟨hhead, hx, fun hmem => ?_, hbut⟩
      rcases hqueue : (w.mmc m').sendqueue with _ | ⟨y, rest⟩
      · rw [hqueue] at hmem
        exact List.not_mem_nil hmem
      · rw [hqueue] at hmem hhead hnot
        rcases List.mem_cons.mp hmem with rfl | hmem
        · exact hhead rfl
        · exact hnot hmem
  · simp only [ne_eq, hm, not_false_eq_true, Function.update_of_ne] at hslots
    rw [MmcServer.readLine_of_slots hslots] at hx
    rw [show (w'.mmc m').sendqueue = _ from congrArg Slots.sendqueue hslots] at hnot
    refine Or.inr ⟨fun hhead => hm ?_, hx, hnot, hbut⟩
    have hline : x ∈ (w.mmc m).readLine :=
      (hw.inLine m).sendLine_subset (List.mem_append_right _ (List.mem_of_head? hhead))
    injection hw.one x (.line m') (.line m) hx hline

/-- What it leaves of the queues, where the server is not queued for sending. -/
theorem World.Rostered.shiftSend (h : w.Rostered todo) (htodo : m ∈ todo .write)
    (hu : Undisturbed held { w with mmc := Function.update w.mmc m (w.mmc m).shifted } w') :
    w'.Rostered todo := by
  refine World.Rostered.same ?_ hu.queues hu.slots
  refine h.change (m := m) (fun _ _ => id) (fun d m' hm => ?_) (fun _ _ _ => id) (fun d hmem => ?_) h.nodup
  · simp [hm]
  · cases d with
    | write => exact absurd htodo (h.busy .write m hmem).2
    | read => simpa [MmcServer.slot, MmcServer.shifted] using h.busy .read m hmem

variable {E : Env} (hE : NoFailures E) {fh : Failover} (hhalts : ∀ m r, Halts (fh m r))

include hE

theorem ends_shiftSend (m : Mmc) (w : World) :
    Ends NotNull (shiftSend E fh m)
      (fun _ w' => Undisturbed ∅ { w with mmc := Function.update w.mmc m (w.mmc m).shifted } w' ∧
        Rewired m (w.mmc m).sendqueue.head? w w') w := by
  simp only [shiftSend, ends_bind, ends_getMmc, ends_modifyMmc, ends_pure]
  refine ends_mono ((wires_mmcPoolSlotSend hE m _ true _).and_wp (mmcPoolSlotSend_sent hE m
    (fun r _ => Set.notMem_empty r) true _)) fun _ w' h' => ?_
  obtain ⟨hr, hsent⟩ := h'
  have hu := hsent.2
  simp only [Function.update_self, Function.update_idem] at hu
  exact ⟨hu, (SameWiring.of_mmc w fun t => by cases t <;> exact .rfl).then_rewired hr⟩

include hhalts

theorem halts_mmcSelectRetry (site : RetrySite) (m : Mmc) (r : ReqId) :
    Halts (mmcSelectRetry E fh site m (some r)) := by
  have hmodify (f : MmcServer → MmcServer) : Safe (modifyMmc m f) :=
    fun _ => (ends_modifyMmc _ _ _ _).mpr trivial
  have hget : Safe (getMmc m) := (Steady.getMmc m).safe
  have hpool (f : MmcPool → MmcPool) : Safe (modifyPool f) := (Steady.modifyPool f).safe
  have hshift : Safe (shiftSend E fh m) := fun w => ends_mono (ends_shiftSend hE m w) fun _ _ _ => trivial
  refine (Steady.step E _).safe.halts fun _ => (hmodify _).halts fun _ => hget.halts fun _ => ?_
  refine Safe.halts (.doWhen (hshift.bind fun _ => hget.bind fun _ => .doWhen (hpool _))) fun _ => ?_
  refine hget.halts fun _ => Safe.halts (.doWhen ?_) fun _ => (hhalts m r).bind_left _
  exact (hmodify _).bind fun _ => hget.bind fun _ => .doWhen (hpool _)

/-- What is done with the result of a send. -/
theorem sound_afterSend (b : Bool) (m : Mmc) (result : MmcResult) (hw : w.Sound held phase)
    (htodo : m ∈ phase.todo .write) (hsend : (w.mmc m).sendreq = some r) :
    Ends NotNull (afterSend E fh b m result)
      (fun _ w' => w'.Sound held phase ∧ (result = .more → (w'.mmc m).sendreq ≠ none)) w := by
  cases result with
  | failure => exact (halts_mmcServerDeactivate hE m).bind_left _ _ w
  | retry =>
    rw [afterSend, ends_bind, ends_getMmc, hsend]
    exact halts_mmcSelectRetry hE hhalts .send m r _ w
  | done =>
    have hne : (w.mmc m).sendreq ≠ none := hsend ▸ Option.some_ne_none r
    refine ends_mono ((ends_shiftSend hE m w).and_wp (spares_shiftSend hE m hw.toTidy hne))
      fun _ w' h' => ?_
    obtain ⟨⟨hu, hr⟩, ⟨htidy, _⟩, _⟩ := h'
    exact ⟨⟨htidy, hw.wired.shiftSend hw.toTidy hu hr, hw.rostered.shiftSend htodo hu⟩, by simp⟩
  | more => exact (ends_pure _ _ _).mpr ⟨hw, fun _ => hsend ▸ Option.some_ne_none r⟩
  | again => exact (ends_pure _ _ _).mpr ⟨hw, by simp⟩

theorem sound_sendRequests (b : Bool) (m : Mmc) (fuel : Nat) (hw : w.Sound held phase)
    (hphase : phase.inSelect = true) (htodo : m ∈ phase.todo .write) (hsend : (w.mmc m).sendreq ≠ none) :
    Ends NotNull (sendRequests E fh b m fuel)
      (fun result w' => w'.Sound held phase ∧ (result = some .more → (w'.mmc m).sendreq ≠ none)) w := by
  induction fuel generalizing w with
  | zero => exact halts_outOfFuel _ w
  | succ fuel ih =>
    obtain ⟨r, hr⟩ := Option.ne_none_iff_exists'.mp hsend
    rw [sendRequests, ends_bind, ends_getMmc, hr]
    dsimp only
    rw [ends_bind]
    have hheld : r ∉ held := hw.not_held_of_sendreq hr
    refine ends_mono ((ends_mmcRequestSend (hw.assigned (d := .write) hr)).and_wp
      (calm_mmcRequestSend hheld m w)) fun result w₁ h₁ => ?_
    obtain ⟨hs₁, hu₁⟩ := h₁
    have hw₁ := hw.undisturbed hu₁ hs₁
    rw [ends_bind, ends_getPool]
    refine ends_ite (fun hover => ?_) fun _ => ?_
    · simp [hw₁.inSelect, hphase] at hover
    rw [ends_bind]
    refine ends_mono (sound_afterSend hE hhalts b m result hw₁ htodo ((hu₁.sendreq m).trans hr))
      fun _ w₂ h₂ => ?_
    obtain ⟨hw₂, hmore⟩ := h₂
    rw [ends_bind, ends_getMmc]
    refine ends_ite (fun hagain => ih hw₂ hagain.1) fun _ => (ends_pure _ _ _).mpr ⟨hw₂, fun h => ?_⟩
    exact hmore (Option.some_inj.mp h)

omit hE hhalts in
/-- A server that has a request in its slot is queued for the next round. -/
theorem World.Rostered.requeue (h : w.Rostered todo) (hsub : ∀ d, todo' d ⊆ todo d) {d : Direction}
    (hslot : (w.mmc m).slot d ≠ none) (hdone : m ∉ todo' d) (hmmc : w'.mmc = w.mmc)
    (hqueue : w'.pool.queue d w'.pool.cur = mmcQueuePush (w.pool.queue d w.pool.cur) m)
    (hother : ∀ d', d' ≠ d → w'.pool.queue d' w'.pool.cur = w.pool.queue d' w.pool.cur) :
    w'.Rostered todo' := by
  refine h.change (m := m) hsub (fun _ _ _ => by rw [hmmc]) (fun d' m' hm hmem => ?_) (fun d' hmem => ?_)
    fun d' => ?_
  · by_cases hd : d' = d
    · subst hd
      rw [hqueue, mem_mmcQueuePush] at hmem
      exact hmem.resolve_right hm
    · exact hother d' hd ▸ hmem
  · by_cases hd : d' = d
    · subst hd
      exact ⟨hmmc ▸ hslot, hdone⟩
    · obtain ⟨hbusy, htodo⟩ := h.busy d' m (hother d' hd ▸ hmem)
      exact ⟨hmmc ▸ hbusy, fun hmem => htodo (hsub d' hmem)⟩
  · by_cases hd : d' = d
    · subst hd
      exact hqueue ▸ nodup_mmcQueuePush (h.nodup d') m
    · exact hother d' hd ▸ h.nodup d'

omit hE hhalts in
theorem grounded_queueSending (hw : w.Sound held phase) (hsub : ∀ d, todo' d ⊆ phase.todo d)
    (hsend : (w.mmc m).sendreq ≠ none) (hdone : m ∉ todo' .write) :
    Ends NotNull (queueSending m) (fun _ w' => w'.Grounded todo') w := by
  rw [queueSending, ends_modifyPool]
  refine ⟨hw.wired.same (.of_same rfl rfl) fun _ => rfl,
    hw.rostered.requeue (d := .write) hsub hsend hdone rfl ?_ fun d hd => ?_⟩
  · simp [MmcPool.queue, MmcPool.sending]
  · cases d with
    | write => exact absurd rfl hd
    | read => rfl

omit hE hhalts in
theorem grounded_queueReading (hw : w.Sound held phase) (hsub : ∀ d, todo' d ⊆ phase.todo d)
    (hread : (w.mmc m).readreq ≠ none) (hdone : m ∉ todo' .read) :
    Ends NotNull (queueReading m) (fun _ w' => w'.Grounded todo') w := by
  rw [queueReading, ends_modifyPool]
  refine ⟨hw.wired.same (.of_same rfl rfl) fun _ => rfl,
    hw.rostered.requeue (d := .read) hsub hread hdone rfl ?_ fun d hd => ?_⟩
  · simp [MmcPool.queue, MmcPool.reading]
  · cases d with
    | write => rfl
    | read => exact absurd rfl hd

/-- **Sending** follows no `NULL` pointer, and leaves none behind for the next round. -/
theorem grounded_sendServer (api : SelectApi) (fuel : Nat) (b : Bool) (m : Mmc) (hw : w.Sound held phase)
    (hphase : phase.inSelect = true) (htodo : m ∈ phase.todo .write) (hsub : ∀ d, todo' d ⊆ phase.todo d)
    (hdone : m ∉ todo' .write) :
    Ends NotNull (sendServer E fh api fuel b m) (fun _ w' => w'.Grounded todo') w := by
  have hqueue {w : World} (hw : w.Sound held phase) (hsend : (w.mmc m).sendreq ≠ none) :
      Ends NotNull (do queueSending m; return true) (fun _ w' => w'.Grounded todo') w := by
    rw [ends_bind]
    exact ends_mono (grounded_queueSending hw hsub hsend hdone) fun _ _ h => (ends_pure _ _ _).mpr h
  rw [sendServer, ends_bind, ends_getMmc]
  cases hreq : (w.mmc m).sendreq with
  | none => exact (ends_pure _ _ _).mpr (hw.toGrounded.mono hsub)
  | some r =>
    have hsend : (w.mmc m).sendreq ≠ none := hreq ▸ Option.some_ne_none r
    dsimp only
    rw [ends_bind]
    refine ends_mono (ends_fdOf (hw.assigned (d := .write) hreq)) fun fd w₁ h₁ => ?_
    rw [h₁, ends_bind, ends_getPool]
    refine ends_ite (fun _ => ?_) fun _ => hqueue hw hsend
    rw [ends_bind, ends_modifyPool, ends_bind]
    have hclear : Undisturbed held w { w with pool := w.pool.clearReady api .write fd } :=
      .of_same rfl (w.pool.lists_clearReady api .write fd) (w.pool.queues_clearReady api .write fd) rfl rfl
        rfl
    have hw₂ := hw.undisturbed hclear (.of_same rfl rfl)
    refine ends_mono (sound_sendRequests hE hhalts b m fuel hw₂ hphase htodo hsend)
      fun result w₃ h₃ => ?_
    obtain ⟨hw₃, hmore⟩ := h₃
    cases result with
    | none => exact (ends_pure _ _ _).mpr (hw₃.toGrounded.mono hsub)
    | some x =>
      dsimp only
      rw [ends_bind, ends_doWhen]
      refine ⟨fun hx => (ends_bind _ _ _ _).mp (hqueue hw₃ (hmore (hx ▸ rfl))), fun _ => ?_⟩
      exact (ends_pure _ _ _).mpr (hw₃.toGrounded.mono hsub)

end Sending

/-! ## Reading -/

section Reading

variable {held but : Set ReqId} {phase : Phase} {todo todo' : Direction → Set Mmc} {w w' : World} {m : Mmc}
  {r : ReqId}

theorem World.Wired.mono (h : w.Wired but) {but' : Set ReqId} (hsub : but ⊆ but') : w.Wired but' :=
  ⟨h.live, fun m x hx hqueue hbut => h.assigned m x hx hqueue fun hmem => hbut (hsub hmem)⟩

/-- A request that waits at one server does not wait at another. -/
theorem World.Tidy.line_unique (h : w.Tidy held phase) {m m' : Mmc} (hm : r ∈ (w.mmc m).readLine)
    (hm' : r ∈ (w.mmc m').readLine) : m' = m := by
  injection h.one r (.line m') (.line m) hm' hm

/-- The stream of a request that is in both slots is dropped: no other request needs one yet. -/
theorem World.Wired.disconnect (h : w.Wired ∅) (hw : w.Tidy held phase) (hread : (w.mmc m).readreq = some r)
    (hsend : (w.mmc m).sendreq = some r) (t : MmcProto)
    (hmmc : w'.mmc = Function.update w.mmc m ((w.mmc m).modifyIo t MmcStream.disconnect))
    (hreq : w'.req = w.req) : w'.Wired {r} := by
  have hin := hw.inLine m
  have hline : (w.mmc m).readLine = r :: (w.mmc m).readqueue := by simp [MmcServer.readLine, hread]
  have hsuffix : r :: (w.mmc m).sendqueue <:+ r :: (w.mmc m).readqueue := by
    have hsendLine : (w.mmc m).sendLine = r :: (w.mmc m).sendqueue := by simp [MmcServer.sendLine, hsend]
    exact hline ▸ hsendLine ▸ hin.suffix
  have hsame : (w.mmc m).sendqueue = (w.mmc m).readqueue := by
    rcases List.suffix_cons_iff.mp hsuffix with heq | htail
    · exact List.tail_eq_of_cons_eq heq
    · exact absurd (htail.subset List.mem_cons_self) (List.nodup_cons.mp (hline ▸ hin.nodup)).1
  refine ⟨fun m' t' => ?_, fun m' x hx hqueue hbut => ?_⟩
  · rw [hmmc]
    by_cases hm : m' = m
    · subst hm
      rw [Function.update_self]
      by_cases ht : t' = t
      · subst ht
        intro hlive
        cases t' <;> simp [MmcServer.modifyIo, MmcServer.io, MmcStream.disconnect] at hlive
      · rw [MmcServer.io_modifyIo_of_ne ht]
        exact h.live m' t'
    · rw [Function.update_of_ne hm]
      exact h.live m' t'
  · rw [hmmc] at hx hqueue
    by_cases hm : m' = m
    · subst hm
      rw [Function.update_self] at hx hqueue
      rw [MmcServer.readLine_of_slots (MmcServer.modifyIo_slots _ _ _), hline] at hx
      have hsendqueue : ((w.mmc m').modifyIo t MmcStream.disconnect).sendqueue = (w.mmc m').sendqueue :=
        congrArg Slots.sendqueue (MmcServer.modifyIo_slots _ _ _)
      rw [hsendqueue, hsame] at hqueue
      exact absurd ((List.mem_cons.mp hx).resolve_left hbut) hqueue
    · rw [Function.update_of_ne hm] at hx hqueue
      obtain ⟨t', hio, hstream⟩ := h.assigned m' x hx hqueue (Set.notMem_empty x)
      refine ⟨t', by rw [hreq]; exact hio, ?_⟩
      rw [hmmc, Function.update_of_ne hm]
      exact hstream

variable {E : Env} (hE : NoFailures E) {fh : Failover} (hhalts : ∀ m r, Halts (fh m r))

/-- The request that was answered leaves the line, with its stream or without. -/
theorem grounded_release (hw : w.Tidy held phase) (hwired : w.Wired {r}) (hrostered : w.Rostered todo)
    (hread : (w.mmc m).readreq = some r) (htodo : m ∈ todo .read) :
    Ends NotNull (do
        mmcPoolRelease E (← getMmc m).readreq
        shiftRead m)
      (fun _ w' => w'.Grounded todo) w := by
  have hline : (w.mmc m).readLine = r :: (w.mmc m).readqueue := by simp [MmcServer.readLine, hread]
  have hnodup := List.nodup_cons.mp (hline ▸ (hw.inLine m).nodup)
  simp only [mmcPoolRelease, noteRelease, shiftRead, ends_bind, ends_getMmc, hread, ends_step,
    ends_modifyPool, ends_modifyMmc]
  refine ⟨fun _ => ⟨?_, ?_⟩, fun _ => by simp⟩
  · refine hwired.rewired (SameWiring.rewired ?_ m) fun m' x hx hqueue _ => ?_
    · exact .of_update rfl rfl fun t => by cases t <;> exact .rfl
    refine Or.inr ⟨by simp, ?_⟩
    dsimp only at hx hqueue
    by_cases hm : m' = m
    · subst hm
      rw [Function.update_self] at hx hqueue
      have hx : x ∈ (w.mmc m').readqueue := MmcServer.readLine_shiftRead (w.mmc m') ▸ hx
      exact ⟨List.mem_append_right _ hx, hqueue, fun heq => hnodup.1 (Set.mem_singleton_iff.mp heq ▸ hx)⟩
    · rw [Function.update_of_ne hm] at hx hqueue
      refine ⟨hx, hqueue, fun heq => hm (hw.line_unique ?_ hx)⟩
      rw [hline, Set.mem_singleton_iff.mp heq]
      exact List.mem_cons_self
  · refine hrostered.change (m := m) (fun _ _ => id) (fun d m' hm => ?_) (fun _ _ _ => id) (fun d hmem => ?_)
      hrostered.nodup
    · simp [hm]
    · cases d with
      | write => simpa [MmcServer.slot] using hrostered.busy .write m hmem
      | read => exact absurd htodo (hrostered.busy .read m hmem).2

/-- What moving up and clearing leave of the queues, where the server is not queued for reading. -/
theorem rostered_clearSending {w₀ : World} (h : w₀.Rostered todo) (htodo : m ∈ todo .read)
    (hu : Undisturbed held { w₀ with mmc := Function.update w₀.mmc m (w₀.mmc m).shifted } w) :
    Ends NotNull (clearSending m) (fun _ w' => w'.Rostered todo ∧ SameWiring w w') w := by
  have hslot (d : Direction) (m' : Mmc) (hm : m' ≠ m) : (w.mmc m').slot d = (w₀.mmc m').slot d := by
    rw [MmcServer.slot_of_slots (hu.slots m')]
    simp [hm]
  have hqueue (d : Direction) : w.pool.queue d w.pool.cur = w₀.pool.queue d w₀.pool.cur :=
    MmcPool.queue_cur_of_queues hu.queues d
  rw [clearSending, ends_bind, ends_getMmc, ends_doWhen]
  refine ⟨fun hnone => ?_, fun hsome => ⟨?_, .refl w⟩⟩
  · rw [ends_modifyPool]
    refine ⟨h.change (m := m) (fun _ _ => id) hslot (fun d m' hm hmem => ?_) (fun d hmem => ?_) fun d => ?_,
      .of_same rfl rfl⟩
    · cases d with
      | write =>
        simp only [MmcPool.queue, MmcPool.sending, Function.update_self, mem_mmcQueueRemove] at hmem
        exact hqueue .write ▸ hmem.1
      | read => exact hqueue .read ▸ hmem
    · cases d with
      | write =>
        simp only [MmcPool.queue, MmcPool.sending, Function.update_self, mem_mmcQueueRemove] at hmem
        exact absurd rfl hmem.2
      | read => exact absurd htodo (h.busy .read m (hqueue .read ▸ hmem)).2
    · cases d with
      | write =>
        simp only [MmcPool.queue, MmcPool.sending, Function.update_self, mmcQueueRemove]
        exact (show (w.pool.queue .write w.pool.cur).Nodup from hqueue .write ▸ h.nodup .write).filter _
      | read => exact hqueue .read ▸ h.nodup .read
  · refine h.change (m := m) (fun _ _ => id) hslot (fun d m' _ hmem => hqueue d ▸ hmem) (fun d hmem => ?_)
      fun d => hqueue d ▸ h.nodup d
    cases d with
    | write => exact ⟨hsome, (h.busy .write m (hqueue .write ▸ hmem)).2⟩
    | read => exact absurd htodo (h.busy .read m (hqueue .read ▸ hmem)).2

include hE

/-- A request that is answered gives its slots to the next ones. -/
theorem grounded_completeReadreq (hw : w.Sound held phase) (hread : (w.mmc m).readreq = some r)
    (htodo : m ∈ phase.todo .read) :
    Ends NotNull (completeReadreq E fh m) (fun _ w' => w'.Grounded phase.todo) w := by
  rw [completeReadreq, ends_bind, ends_getMmc, ends_bind, ends_doWhen]
  refine ⟨fun hsame => ?_, fun _ => ?_⟩
  · obtain ⟨t, hio, _⟩ := hw.assigned (d := .read) hread
    have hsend : (w.mmc m).sendreq = some r := hsame.trans hread
    rw [hread]
    dsimp only
    rw [ends_bind, ends_ioOf hio, ends_bind, ends_step]
    refine ⟨fun _ => ?_, fun _ => by simp⟩
    rw [ends_bind, ends_modifyMmc]
    dsimp only
    -- the answer came before all of it was sent: the stream goes, and the request before another needs one
    set w₂ : World := { w with
      log := .earlyDone m r :: w.log
      mmc := Function.update w.mmc m ((w.mmc m).modifyIo t MmcStream.disconnect) }
    have hu₂ : Undisturbed held w w₂ :=
      (Undisturbed.of_mmc w m (MmcServer.modifyIo_slots _ _ _) (MmcServer.modifyIo_up t fun io _ => by
        simp [MmcStream.disconnect])).trans (.of_step _ (s := .earlyDone m r) trivial rfl)
    have hw₂ : w₂.Tidy held phase := hw.toTidy.undisturbed hu₂
    have hwired₂ : w₂.Wired {r} := hw.wired.disconnect hw.toTidy hread hsend t rfl rfl
    have hne : (w₂.mmc m).sendreq ≠ none := by simp [hu₂.sendreq m, hsend]
    rw [ends_bind]
    refine ends_mono ((ends_shiftSend hE m w₂).and_wp (spares_shiftSend hE m hw₂ hne))
      fun _ w₃ h₃ => ?_
    obtain ⟨⟨hu₃, hr₃⟩, ⟨hw₃, _⟩, hread₃, _⟩ := h₃
    have hwired₃ : w₃.Wired {r} := hwired₂.shiftSend hw₂ hu₃ hr₃
    refine ends_mono ((rostered_clearSending (hw.rostered.same hu₂.queues hu₂.slots) htodo hu₃).and_wp
      (spares_clearSending m hw₃)) fun _ w₄ h₄ => ?_
    obtain ⟨⟨hrostered, hs₄⟩, hmmc₄, _, hw₄, _⟩ := h₄
    refine grounded_release hw₄ (hwired₃.same hs₄ fun m' => by rw [hmmc₄]) hrostered ?_ htodo
    rw [hmmc₄, hread₃, hu₂.readreq m, hread]
  · exact grounded_release hw.toTidy (hw.wired.mono (Set.empty_subset _)) hw.rostered hread htodo

include hhalts

theorem sound_checkEof (hw : w.Sound held phase) (hread : (w.mmc m).readreq = some r) :
    Ends NotNull (checkEof E fh m) (fun _ w' => SameWiring w w' ∧ Undisturbed held w w') w := by
  obtain ⟨t, hio, hstream⟩ := hw.assigned (d := .read) hread
  obtain ⟨c, hc⟩ := Option.ne_none_iff_exists'.mp hstream
  rw [checkEof, ends_bind, ends_getMmc, hread]
  dsimp only
  rw [ends_bind, ends_ioOf hio, ends_bind, ends_getMmc]
  dsimp only
  rw [hc]
  dsimp only
  rw [ends_bind, ends_ask]
  refine ends_ite (fun _ => ?_) fun _ =>
    (ends_pure _ _ _).mpr ⟨.of_same rfl rfl, .of_same rfl rfl rfl rfl rfl rfl⟩
  -- the end of a connection is a failure or asks for a retry
  rw [ends_bind, ends_step]
  refine ⟨fun _ => ?_, fun _ => by simp⟩
  rw [ends_bind]
  refine ends_mono ((steady_mmcServerFailure m _ _ _ _).and_wp (calm_mmcServerFailure ∅ m _ _ _ _))
    fun result w₂ h₂ => ?_
  obtain ⟨_, hu₂⟩ := h₂
  refine ends_ite (fun _ => (halts_mmcServerDeactivate hE m).bind_left _ _ w₂) fun _ => ?_
  rw [ends_bind, ends_getMmc, show (w₂.mmc m).readreq = some r from (hu₂.readreq m).trans hread]
  exact (halts_mmcSelectRetry hE hhalts .read m r).bind_left _ _ w₂

/-- What is done with the result of a parse handler. -/
theorem sound_afterParse (m : Mmc) (result : MmcResult) (hw : w.Sound held phase)
    (hread : (w.mmc m).readreq = some r) (htodo : m ∈ phase.todo .read)
    (hanswered : result = .done → w.Answered m) :
    Ends NotNull (afterParse E fh m result)
      (fun result w' => w'.Sound held phase ∧ (result = .more → (w'.mmc m).readreq ≠ none)) w := by
  have hne : (w.mmc m).readreq ≠ none := hread ▸ Option.some_ne_none r
  cases result with
  | failure => exact (halts_mmcServerDeactivate hE m).bind_left _ _ w
  | retry =>
    rw [afterParse, ends_bind, ends_getMmc, hread]
    exact (halts_mmcSelectRetry hE hhalts .read m r).bind_left _ _ w
  | done =>
    rw [afterParse, ends_bind]
    refine ends_mono ((grounded_completeReadreq hE hw hread htodo).and_wp
      (spares_completeReadreq hE m hw.toTidy (hanswered rfl))) fun _ w' h' => ?_
    obtain ⟨hgrounded, htidy, _⟩ := h'
    exact (ends_pure _ _ _).mpr ⟨⟨htidy, hgrounded⟩, by simp⟩
  | more =>
    refine ends_mono (sound_checkEof hE hhalts hw hread) fun result w' h' => ?_
    obtain ⟨hs, hu⟩ := h'
    exact ⟨hw.undisturbed hu hs, fun _ => (hu.readreq m).symm ▸ hne⟩
  | again => exact (ends_pure _ _ _).mpr ⟨hw, by simp⟩

theorem sound_readRequests (m : Mmc) (fuel : Nat) (hw : w.Sound held phase)
    (hphase : phase.inSelect = true) (htodo : m ∈ phase.todo .read) (hread : (w.mmc m).readreq ≠ none) :
    Ends NotNull (readRequests E fh m fuel)
      (fun result w' => w'.Sound held phase ∧ (result = some .more → (w'.mmc m).readreq ≠ none)) w := by
  induction fuel generalizing w with
  | zero => exact halts_outOfFuel _ w
  | succ fuel ih =>
    obtain ⟨r, hr⟩ := Option.ne_none_iff_exists'.mp hread
    rw [readRequests, ends_bind, ends_getMmc, hr]
    dsimp only
    rw [ends_bind]
    have hheld : r ∉ held := hw.not_held_of_readreq hr
    refine ends_mono ((ends_parseReadreq (hw.assigned (d := .read) hr)).and_wp
      (parseReadreq_parsed hheld m w)) fun result w₁ h₁ => ?_
    obtain ⟨hs₁, hp₁⟩ := h₁
    have hw₁ : w₁.Sound held phase := ⟨hw.toTidy.parsed hr hp₁, hw.wired.same hs₁ hp₁.slots,
      hw.rostered.same hp₁.queues hp₁.slots⟩
    have hr₁ : (w₁.mmc m).readreq = some r := (hp₁.readreq m).trans hr
    have hanswered (hdone : result = .done) : w₁.Answered m := by
      intro r' hr'
      rw [hp₁.services, hdone, Option.some_inj.mp (hr'.symm.trans hr₁)]
      rfl
    rw [ends_bind, ends_getPool]
    refine ends_ite (fun hover => ?_) fun _ => ?_
    · simp [hw₁.inSelect, hphase] at hover
    rw [ends_bind]
    refine ends_mono (sound_afterParse hE hhalts m result hw₁ hr₁ htodo hanswered)
      fun result w₂ h₂ => ?_
    obtain ⟨hw₂, hmore⟩ := h₂
    rw [ends_bind, ends_getMmc]
    refine ends_ite (fun hagain => ih hw₂ hagain.1) fun _ => (ends_pure _ _ _).mpr ⟨hw₂, fun h => ?_⟩
    exact hmore (Option.some_inj.mp h)

/-- What is done when no datagram was accepted. -/
theorem grounded_afterRead (m : Mmc) (result : MmcResult) (hw : w.Sound held phase)
    (hread : (w.mmc m).readreq = some r) (hsub : ∀ d, todo' d ⊆ phase.todo d) (hdone : m ∉ todo' .read) :
    Ends NotNull (afterRead E fh m result) (fun _ w' => w'.Grounded todo') w := by
  have hgrounded : w.Grounded todo' := hw.toGrounded.mono hsub
  cases result with
  | failure => exact halts_mmcServerDeactivate hE m _ w
  | retry =>
    rw [afterRead, ends_bind, ends_getMmc, hread]
    exact halts_mmcSelectRetry hE hhalts .read m r _ w
  | more => exact grounded_queueReading hw hsub (hread ▸ Option.some_ne_none r) hdone
  | done => exact (ends_pure _ _ _).mpr hgrounded
  | again => exact (ends_pure _ _ _).mpr hgrounded

/-- **Reading** follows no `NULL` pointer, and leaves none behind for the next round. -/
theorem grounded_readServer (api : SelectApi) (fuel : Nat) (m : Mmc) (hw : w.Sound held phase)
    (hphase : phase.inSelect = true) (htodo : m ∈ phase.todo .read) (hsub : ∀ d, todo' d ⊆ phase.todo d)
    (hdone : m ∉ todo' .read) :
    Ends NotNull (readServer E fh api fuel m) (fun _ w' => w'.Grounded todo') w := by
  have hqueue {w : World} (hw : w.Sound held phase) (hread : (w.mmc m).readreq ≠ none) :
      Ends NotNull (do queueReading m; return true) (fun _ w' => w'.Grounded todo') w := by
    rw [ends_bind]
    exact ends_mono (grounded_queueReading hw hsub hread hdone) fun _ _ h => (ends_pure _ _ _).mpr h
  rw [readServer, ends_bind, ends_getMmc]
  cases hreq : (w.mmc m).readreq with
  | none => exact (ends_pure _ _ _).mpr (hw.toGrounded.mono hsub)
  | some r =>
    have hread : (w.mmc m).readreq ≠ none := hreq ▸ Option.some_ne_none r
    dsimp only
    rw [ends_bind]
    refine ends_mono (ends_fdOf (hw.assigned (d := .read) hreq)) fun fd w₁ h₁ => ?_
    rw [h₁, ends_bind, ends_getPool]
    refine ends_ite (fun _ => ?_) fun _ => hqueue hw hread
    rw [ends_bind, ends_modifyPool, ends_bind]
    have hclear : Undisturbed held w { w with pool := w.pool.clearReady api .read fd } :=
      .of_same rfl (w.pool.lists_clearReady api .read fd) (w.pool.queues_clearReady api .read fd) rfl rfl rfl
    have hw₂ := hw.undisturbed hclear (.of_same rfl rfl)
    have hline : r ∈ (w.mmc m).readLine := by simp [MmcServer.readLine, hreq]
    have hudp := (hw₂.known r (.line m) hline).2
    refine ends_mono ((ends_fillBuffer (hw₂.assigned (d := .read) hreq)).and_wp
      (calm_fillBuffer (hw.not_held_of_readreq hreq) m hudp)) fun filled w₃ h₃ => ?_
    obtain ⟨hs₃, hu₃⟩ := h₃
    have hw₃ := hw₂.undisturbed hu₃ hs₃
    have hreq₃ : (w₃.mmc m).readreq = some r := (hu₃.readreq m).trans hreq
    refine ends_ite (fun _ => ?_) fun _ => ?_
    · rw [ends_bind]
      exact ends_mono (grounded_afterRead hE hhalts m filled hw₃ hreq₃ hsub hdone) fun _ _ h =>
        (ends_pure _ _ _).mpr h
    rw [ends_bind]
    refine ends_mono (sound_readRequests hE hhalts m fuel hw₃ hphase htodo (hreq₃ ▸ Option.some_ne_none r))
      fun result w₄ h₄ => ?_
    obtain ⟨hw₄, hmore⟩ := h₄
    cases result with
    | none => exact (ends_pure _ _ _).mpr (hw₄.toGrounded.mono hsub)
    | some x =>
      dsimp only
      rw [ends_bind, ends_doWhen]
      refine ⟨fun hx => (ends_bind _ _ _ _).mp (hqueue hw₄ (hmore (hx ▸ rfl))), fun _ => ?_⟩
      exact (ends_pure _ _ _).mpr (hw₄.toGrounded.mono hsub)

end Reading

/-! ## Rounds -/

section Rounds

variable {held : Set ReqId} {phase : Phase} {todo : Direction → Set Mmc} {w w' : World} {m : Mmc}

/-- A server that is queued for the next round has a request with a stream in its slot. -/
theorem World.Sound.occupied (h : w.Sound held phase) {d : Direction}
    (hm : m ∈ w.pool.queue d w.pool.cur) : w.Occupied d m := by
  obtain ⟨r, hr⟩ := Option.ne_none_iff_exists'.mp (h.rostered.busy d m hm).1
  exact ⟨r, hr, h.assigned hr⟩

theorem World.Occupied.same {d : Direction} (h : w.Occupied d m) (hs : SameWiring w w')
    (hslots : (w'.mmc m).slots = (w.mmc m).slots) : w'.Occupied d m := by
  obtain ⟨r, hr, hassigned⟩ := h
  exact ⟨r, (MmcServer.slot_of_slots hslots d).trans hr, hassigned.same hs⟩

/-- The servers a loop has yet to come to are those of its queue from its position on. -/
theorem Phase.from_succ {queue : List Mmc} {i : Nat} (hm : queue[i]? = some m) (hnodup : queue.Nodup)
    (phase : Phase) (d : Direction) :
    m ∈ (phase.from d queue i).todo d ∧
      (∀ d', (phase.from d queue (i + 1)).todo d' ⊆ (phase.from d queue i).todo d') ∧
      m ∉ (phase.from d queue (i + 1)).todo d := by
  have hdrop : queue.drop i = m :: queue.drop (i + 1) := by
    rw [List.drop_eq_getElem_cons (List.getElem?_eq_some_iff.mp hm).1, (List.getElem?_eq_some_iff.mp hm).2]
  have hcons : (m :: queue.drop (i + 1)).Nodup := hdrop ▸ hnodup.sublist (List.drop_sublist i queue)
  have hfirst : m ∉ queue.drop (i + 1) := (List.nodup_cons.mp hcons).1
  refine ⟨by simp [Phase.from, hdrop], fun d' m' hm' => ?_, by simpa [Phase.from] using hfirst⟩
  by_cases hd : d' = d
  · subst hd
    simp only [Phase.from, Function.update_self, Set.mem_ofPred_eq] at hm' ⊢
    exact hdrop ▸ List.mem_cons_of_mem m hm'
  · simpa [Phase.from, hd] using hm'

theorem World.Rostered.of_empty (h : ∀ d, w.pool.queue d w.pool.cur = []) : w.Rostered todo :=
  ⟨fun d _ hm => absurd (h d ▸ hm) List.not_mem_nil, fun d => h d ▸ List.nodup_nil⟩

/-- After the switch no server is queued for the next round; the servers that were queued are those of this
    one. -/
theorem queue_mmcPoolSwitch (p : MmcPool) (d : Direction) :
    (mmcPoolSwitch p).queue d (!p.cur) = [] ∧ (mmcPoolSwitch p).queue d p.cur = p.queue d p.cur := by
  cases d with
  | write => simp [mmcPoolSwitch, MmcPool.queue]
  | read => simp [mmcPoolSwitch, MmcPool.queue]

variable {E : Env} (hE : NoFailures E) {fh : Failover} (hfh : ∀ m r, Fails (fh m r))
  (hhalts : ∀ m r, Halts (fh m r))

include hE hhalts

theorem grounded_serveServer (api : SelectApi) (d : Direction) (b : Bool) (fuel : Nat) (m : Mmc)
    (hw : w.Sound held phase) (hphase : phase.inSelect = true) (htodo : m ∈ phase.todo d)
    (hsub : ∀ d', todo d' ⊆ phase.todo d') (hdone : m ∉ todo d) :
    Ends NotNull (serveServer E fh api d b fuel m) (fun _ w' => w'.Grounded todo) w := by
  cases d with
  | write => exact grounded_sendServer hE hhalts api fuel b m hw hphase htodo hsub hdone
  | read => exact grounded_readServer hE hhalts api fuel m hw hphase htodo hsub hdone

omit hhalts in
/-- A timeout of a server with a stream asks for a retry, or fails. -/
theorem ends_mmcSelectFailure {r : ReqId} (result : Int) (h : w.Assigned m r) :
    Ends NotNull (mmcSelectFailure E fh m (some r) result)
      (fun outcome w' => outcome = .retry ∧ Undisturbed ∅ w w') w := by
  have hdeactivate (x : PoolM MmcResult) : Halts (do mmcServerDeactivate E fh m; x) :=
    (halts_mmcServerDeactivate hE m).bind_left fun _ => x
  suffices hends : Ends NotNull (mmcSelectFailure E fh m (some r) result) (fun _ => Undisturbed ∅ w) w from
    ends_mono (hends.and_wp (mmcSelectFailure_retry hE m (some r) result w)) fun _ _ h => ⟨h.2.1, h.1⟩
  obtain ⟨t, hio, _⟩ := h
  rw [mmcSelectFailure]
  refine ends_ite (fun _ => ?_) fun _ =>
    (steady_mmcServerSeterror m _ _).safe.halts (fun _ => hdeactivate _) _ w
  rw [ends_bind, ends_ioOf hio, ends_bind]
  refine ends_mono ((steady_mmcServerFailure m _ _ _ w).and_wp (calm_mmcServerFailure ∅ m _ _ _ w))
    fun outcome w₁ h₁ => ?_
  obtain ⟨_, hu₁⟩ := h₁
  exact ends_ite (fun _ => (ends_pure _ _ _).mpr hu₁) fun _ => hdeactivate _ _ w₁

/-- A timeout is a failure. -/
theorem ends_timeoutLoop (api : SelectApi) (d : Direction) (b : Bool) (result : Int) (fuel i : Nat)
    (h : ∀ m ∈ w.pool.queue d b, w.Occupied d m) :
    Ends NotNull (timeoutLoop E fh api d b result fuel i) (fun _ w' => w' = w) w := by
  induction fuel generalizing i with
  | zero => exact halts_outOfFuel _ w
  | succ fuel ih =>
    rw [timeoutLoop, ends_bind, ends_getPool]
    cases hm : (w.pool.queue d b)[i]? with
    | none => exact (ends_pure _ _ _).mpr rfl
    | some m =>
      have hoccupied := h m (List.mem_of_getElem? hm)
      dsimp only
      rw [ends_bind]
      refine ends_mono (ends_timedOut api hoccupied) fun expired w₁ h₁ => ?_
      rw [h₁]
      refine ends_ite (fun _ => ?_) fun _ => ih (i + 1)
      obtain ⟨r, hr, hassigned⟩ := hoccupied
      rw [ends_bind, dropFromRound, ends_modifyPool, ends_bind, ends_getMmc]
      dsimp only
      rw [hr, ends_bind]
      -- what the failure leaves is retried, and the retry stops
      refine ends_mono (ends_mmcSelectFailure hE result (hassigned.same (.of_same rfl rfl)))
        fun outcome w₂ h₂ => ?_
      obtain ⟨hretry, hu₂⟩ := h₂
      rw [ends_bind, ends_getMmc, MmcServer.slot_of_slots (hu₂.slots m), hr, doWhen, if_pos hretry]
      exact (halts_mmcSelectRetry hE hhalts .timeout m r).bind_left _ _ w₂

include hfh in
/-- **A loop of a round** follows no `NULL` pointer, and leaves none behind for the next round. -/
theorem sound_serverLoop (api : SelectApi) (d : Direction) (b : Bool) (fuel i : Nat) (hb : b = !w.pool.cur)
    (hnodup : (w.pool.queue d b).Nodup) (hw : w.Sound held (phase.from d (w.pool.queue d b) i))
    (hphase : phase.inSelect = true) :
    Ends NotNull (serverLoop E fh api d b fuel i) (fun _ w' => w'.Sound held (phase.from d [] 0)) w := by
  suffices hgrounded : Ends NotNull (serverLoop E fh api d b fuel i)
      (fun _ w' => w'.Grounded (phase.from d [] 0).todo) w from
    ends_mono (hgrounded.and_wp (serverLoop_serves hE hfh api d b fuel i hb hw.toTidy hphase))
      fun _ _ h => ⟨h.2.2.1, h.1⟩
  induction fuel generalizing w i with
  | zero => exact halts_outOfFuel _ w
  | succ fuel ih =>
    rw [serverLoop, ends_bind, ends_getPool]
    cases hm : (w.pool.queue d b)[i]? with
    | none =>
      have hdrop : (w.pool.queue d b).drop i = [] :=
        List.drop_eq_nil_iff.mpr (List.getElem?_eq_none_iff.mp hm)
      have hsame : phase.from d (w.pool.queue d b) i = phase.from d [] 0 := by
        rw [Phase.from, Phase.from, hdrop, List.drop_nil]
      exact (ends_pure _ _ _).mpr ⟨hw.wired, hsame ▸ hw.rostered⟩
    | some m =>
      obtain ⟨htodo, hsub, hdone⟩ := Phase.from_succ hm hnodup phase d
      dsimp only
      rw [ends_bind]
      refine ends_mono ((grounded_serveServer hE hhalts api d b fuel m hw hphase htodo hsub hdone).and_wp
        (serveServer_serves hE hfh api d b fuel m hw.toTidy hphase))
        fun proceed w₁ h₁ => ?_
      obtain ⟨⟨hwired, hrostered⟩, hproceed, hqueued, hw₁, hkeeps⟩ := h₁
      have hqueue : w₁.pool.queue d b = w.pool.queue d b := hb ▸ hkeeps.queue d
      rw [if_pos hproceed]
      refine ih (i + 1) (hkeeps.cur ▸ hb) (hqueue.symm ▸ hnodup) ?_
      have htidy := hw₁.inPhase (hw₁.toWatched.served hm hqueued)
      exact ⟨hqueue.symm ▸ htidy, hwired, hqueue.symm ▸ hrostered⟩

include hfh

/-- A round starts: its servers have requests with streams in their slots. -/
theorem sound_startRound (api : SelectApi) (fuel : Nat) (hw : w.Sound held .between) :
    Ends NotNull (startRound E fh api fuel w.pool.cur)
      (fun b w' => b = (!w'.pool.cur) ∧ w'.Sound held (.start true w'.pool b) ∧
        ∀ d, (w'.pool.queue d b).Nodup) w := by
  suffices hgrounded : Ends NotNull (startRound E fh api fuel w.pool.cur) (fun b w' => w'.Wired ∅ ∧
      (∀ d, w'.pool.queue d w'.pool.cur = []) ∧ ∀ d, w'.pool.queue d b = w.pool.queue d w.pool.cur) w from
    ends_mono (hgrounded.and_wp (spares_startRound hE hfh api fuel hw.toTidy))
      fun _ _ h => ⟨h.2.1, ⟨h.2.2.1, h.1.1, .of_empty h.1.2.1⟩, fun d => h.1.2.2 d ▸ hw.rostered.nodup d⟩
  rw [startRound, ends_bind, ends_modifyPool]
  set w₁ : World := { w with pool := mmcPoolSwitch w.pool }
  have hswitch : SameWiring w w₁ := .of_same rfl rfl
  have hoccupied (d : Direction) (m : Mmc) (hm : m ∈ w₁.pool.queue d w.pool.cur) : w₁.Occupied d m :=
    (hw.occupied ((queue_mmcPoolSwitch w.pool d).2 ▸ hm)).same hswitch rfl
  rw [ends_bind]
  refine ends_mono ((ends_waitReady api w.pool.cur hoccupied).and_wp (calm_waitReady held api w.pool.cur w₁))
    fun result w₂ h₂ => ?_
  obtain ⟨hs₂, hu₂⟩ := h₂
  have hqueue (d : Direction) (b : Bool) : w₂.pool.queue d b = w₁.pool.queue d b :=
    MmcPool.queue_of_queues hu₂.queues d b
  rw [ends_bind, ends_getInTimeout, ends_bind, ends_setInTimeout, ends_bind, ends_doWhen]
  set w₃ : World := { w₂ with inTimeout := true }
  -- the wait moved no server, so both loops find the slots taken; a loop that comes back found no timeout
  have hloop (d : Direction) : Ends NotNull (timeoutLoop E fh api d w.pool.cur result fuel 0)
      (fun _ w' => w' = w₃) w₃ :=
    ends_timeoutLoop hE hhalts api d w.pool.cur result fuel 0 fun m hm =>
      (hoccupied d m (hqueue d _ ▸ hm)).same (hs₂.trans (.of_same rfl rfl)) (hu₂.slots m)
  have hrest : Ends NotNull (do
      setInTimeout w₂.inTimeout
      modifyPool fun p => { p with inSelect := true }
      return w.pool.cur) (fun b w' => w'.Wired ∅ ∧ (∀ d, w'.pool.queue d w'.pool.cur = []) ∧
        ∀ d, w'.pool.queue d b = w.pool.queue d w.pool.cur) w₃ := by
    rw [ends_bind, ends_setInTimeout, ends_bind, ends_modifyPool]
    refine (ends_pure _ _ _).mpr ⟨?_, fun d => ?_, fun d => ?_⟩
    · exact (hw.wired.same (hswitch.trans hs₂) hu₂.slots).same (.of_same rfl rfl) fun _ => rfl
    · have hcur : w₂.pool.cur = !w.pool.cur := congrArg RoundQueues.cur hu₂.queues
      have hnone := (hqueue d (!w.pool.cur)).trans (queue_mmcPoolSwitch w.pool d).1
      cases d with
      | write => exact hcur ▸ hnone
      | read => exact hcur ▸ hnone
    · have hround := (hqueue d w.pool.cur).trans (queue_mmcPoolSwitch w.pool d).2
      cases d with
      | write => exact hround
      | read => exact hround
  refine ⟨fun _ => ?_, fun _ => hrest⟩
  rw [ends_bind]
  refine ends_mono (hloop .write) fun _ w₄ h₄ => ?_
  rw [h₄]
  exact ends_mono (hloop .read) fun _ w₅ h₅ => h₅ ▸ hrest

/-- **A round follows no `NULL` pointer**, and leaves none behind for the next one. -/
theorem sound_mmcPoolSelect (fuel : Nat) (hw : w.Sound held .between) :
    Ends NotNull (mmcPoolSelect E fh fuel) (fun _ w' => w'.Sound held .between) w := by
  suffices hgrounded : Ends NotNull (mmcPoolSelect E fh fuel)
      (fun _ w' => w'.Grounded Phase.between.todo) w from
    ends_mono (hgrounded.and_wp (spares_mmcPoolSelect hE hfh fuel hw.toTidy))
      fun _ _ h => ⟨h.2.1, h.1⟩
  rw [mmcPoolSelect, ends_bind, ends_step]
  refine ⟨fun _ => ?_, fun _ => by simp⟩
  have hw₁ := hw.note (s := .round) rfl
  have hclosed : w.pool.inSelect = false := hw.inSelect
  rw [ends_bind, ends_getPool, ends_bind, beginRound, ends_bind, ends_getPool]
  dsimp only
  rw [hclosed]
  refine ends_mono (sound_startRound hE hfh hhalts _ fuel hw₁) fun b w₂ h₂ => ?_
  obtain ⟨hb, hw₂, hnodup⟩ := h₂
  set phase : Phase := .start true w₂.pool b
  have hwrite : phase.from .write (w₂.pool.queue .write b) 0 = phase := Phase.from_zero rfl
  rw [ends_bind]
  refine ends_mono ((sound_serverLoop hE hfh hhalts _ .write b fuel 0 hb (hnodup .write) (hwrite.symm ▸ hw₂)
    rfl).and_wp (serverLoop_serves hE hfh _ .write b fuel 0 hb (hwrite.symm ▸ hw₂.toTidy) rfl))
    fun sent w₃ h₃ => ?_
  obtain ⟨hw₃, hsent, _, hkeeps₃⟩ := h₃
  have hqueue₃ : w₃.pool.queue .read b = w₂.pool.queue .read b := hb ▸ hkeeps₃.queue .read
  have hread : (phase.from .write [] 0).from .read (w₃.pool.queue .read b) 0 = phase.from .write [] 0 := by
    rw [hqueue₃]
    exact Phase.from_zero (by simp [Phase.from, phase, Phase.start])
  rw [ends_doWhen]
  refine ⟨fun _ => ?_, fun hnot => absurd hsent hnot⟩
  rw [ends_bind]
  refine ends_mono ((sound_serverLoop hE hfh hhalts _ .read b fuel 0 (hkeeps₃.cur ▸ hb)
    (hqueue₃ ▸ hnodup .read) (hread.symm ▸ hw₃) rfl).and_wp
    (serverLoop_serves hE hfh _ .read b fuel 0 (hkeeps₃.cur ▸ hb) (hread.symm ▸ hw₃.toTidy) rfl))
    fun received w₄ h₄ => ?_
  obtain ⟨hw₄, hreceived, _⟩ := h₄
  rw [ends_doWhen, ends_modifyPool]
  refine ⟨fun _ => ⟨?_, ?_⟩, fun hnot => absurd hreceived hnot⟩
  · exact hw₄.wired.same (.of_same rfl rfl) fun _ => rfl
  · have hqueue (d : Direction) (p : MmcPool) : ({ p with inSelect := false } : MmcPool).queue d p.cur =
        p.queue d p.cur := by
      cases d with
      | write => rfl
      | read => rfl
    exact ⟨fun d m hm => ⟨(hw₄.rostered.busy d m (hqueue d _ ▸ hm)).1, Set.notMem_empty m⟩,
      fun d => hqueue d w₄.pool ▸ hw₄.rostered.nodup d⟩

end Rounds

end PeclMemcache
