import PeclMemcache.Operations

set_option autoImplicit false

/-! # Redundant writes

`mmc_pool_schedule_key` schedules a request on the server of its key and copies of it on further
servers. The skip list of these servers holds the one that `mmc_pool_find` gave for the request, not
the one its failover handler may have moved it to; `mmc_pool_find_next` gives a skipped server when
its attempts are used up; and a request that was given up is on the free list, from which the next
copy is taken. -/

namespace PeclMemcache

open Stateful

/-! ## What is to be copied -/

/-- The command in a request, without the header of a datagram. -/
def MmcRequest.command (q : MmcRequest) : Bytes :=
  q.sendbuf.value.drop (if q.protocol = .udp then udpHeaderSize else 0)

/-- A copy has the command, the key and the parse handler of the original. -/
structure MmcRequest.CopyOf (copy q : MmcRequest) : Prop where
  protocol : copy.protocol = q.protocol
  command : copy.command = q.command
  key : copy.key.take copy.keyLen = q.key.take q.keyLen
  parse : copy.parse = q.parse

/-! ## Where the copies went -/

/-- The servers that were given a copy of `r`, the last one first: a copy is scheduled as soon as it is
    made. -/
def copyServers (r : ReqId) : List Step → List Mmc
  | .schedule m c :: .clone r' c' _ :: rest =>
    if r' = r ∧ c' = c then m :: copyServers r rest else copyServers r rest
  | _ :: rest => copyServers r rest
  | [] => []

/-- The servers that have received `r` itself. -/
def receivedBy (r : ReqId) (log : List Step) : List Mmc :=
  log.filterMap fun s => match s with
    | .accept m r' => if r' = r then some m else none
    | _ => none

/-- What a redundant write of the request `r`, with the contents `q`, has to be: the servers of the
    original and of the copies are pairwise distinct, and the copies are copies. -/
structure RedundantWrite (r : ReqId) (q : MmcRequest) (log : List Step) : Prop where
  distinct : (copyServers r log ++ receivedBy r log).Nodup
  copies : ∀ c made, .clone r c made ∈ log → made.CopyOf q

/-- What is copied of a request. -/
def MmcRequest.copied (q : MmcRequest) : MmcProto × Bytes × Bytes × Nat × Option ParseHandler :=
  (q.protocol, q.command, q.key, q.keyLen, q.parse)

/-- The original is not failed over, no server of the skip list is chosen for a copy, the object of the
    original is not handed out again, and no failed `memcache_get` is rescheduled meanwhile. -/
def Step.KeepsCopies (r : ReqId) : Step → Prop
  | .failover _ r' => r' ≠ r
  | .copyTarget m skip => m ∉ skip
  | .alloc c => c ≠ r
  | .valueFailover _ => False
  | _ => True

instance (r : ReqId) (s : Step) : Decidable (s.KeepsCopies r) :=
  match s with
  | .failover _ _ => inferInstanceAs (Decidable (_ ≠ _))
  | .copyTarget _ _ => inferInstanceAs (Decidable (_ ∉ _))
  | .alloc _ => inferInstanceAs (Decidable (_ ≠ _))
  | .valueFailover _ => .isFalse id
  | .release .. | .schedule .. | .accept .. | .build .. | .flush .. | .flushed ..
  | .schedulePending .. | .clearBuild .. | .connect .. | .connectFailed .. | .deactivate ..
  | .handed .. | .slot .. | .send .. | .parse .. | .eof .. | .earlyDone .. | .selectRetry ..
  | .removeReading .. | .round | .clone .. | .earlyReturn | .saslAuth => .isTrue trivial

/-- The header does not touch the command behind it. -/
theorem setUdpHeader_drop (reqid : Nat) (value : Bytes) :
    (setUdpHeader reqid value).drop udpHeaderSize = value.drop udpHeaderSize := by
  rcases value with _ | ⟨a, _ | ⟨b, _ | ⟨c, _ | ⟨d, rest⟩⟩⟩⟩ <;>
    simp [setUdpHeader, bigEndian, udpHeaderSize]

/-! ## What happens beside the copies -/

/-- The steps that neither make a copy nor put the original on a server. -/
def Step.Aside (r : ReqId) : Step → Prop
  | .clone _ _ _ => False
  | .accept _ r' => r' ≠ r
  | _ => True

/-- A run that makes no copy and neither changes nor schedules the original. -/
structure Beside (r : ReqId) (w w' : World) : Prop where
  log : ∃ steps : List Step, w'.log = steps ++ w.log ∧ ∀ s ∈ steps, s.Aside r
  copied : (w'.req r).copied = (w.req r).copied

/-- The same, whether or not it ends. -/
abbrev StaysBeside {α : Type} (r : ReqId) (x : PoolM α) : Prop :=
  Within (Beside r) (fun _ _ => True) x

section Beside

variable {α β : Type} {r : ReqId}

theorem Beside.of_eq {w w' : World} (hlog : w'.log = w.log)
    (hcopied : (w'.req r).copied = (w.req r).copied) : Beside r w w' :=
  ⟨⟨[], hlog, by simp⟩, hcopied⟩

theorem Beside.trans (w w' w'' : World) (h : Beside r w w') (h' : Beside r w' w'') :
    Beside r w w'' := by
  obtain ⟨steps, hlog, haside⟩ := h.log
  obtain ⟨steps', hlog', haside'⟩ := h'.log
  refine ⟨⟨steps' ++ steps, ?_, ?_⟩, h'.copied.trans h.copied⟩
  · rw [hlog', hlog, List.append_assoc]
  · intro s hs
    rcases List.mem_append.mp hs with hs | hs
    · exact haside' s hs
    · exact haside s hs

theorem Beside.of_beside {w w₁ w' : World} (h : Beside r w₁ w') (hlog : w₁.log = w.log)
    (hcopied : (w₁.req r).copied = (w.req r).copied) : Beside r w w' :=
  Beside.trans w w₁ w' (Beside.of_eq hlog hcopied) h

theorem beside_pure (a : α) : StaysBeside r (pure a : PoolM α) :=
  Within.pure (fun _ => Beside.of_eq rfl rfl) a

theorem beside_bind {x : PoolM α} {f : α → PoolM β} (hx : StaysBeside r x)
    (hf : ∀ a, StaysBeside r (f a)) : StaysBeside r (x >>= f) :=
  Within.bind Beside.trans (fun _ _ _ _ _ => trivial) hx hf

theorem beside_outOfFuel : StaysBeside r (outOfFuel : PoolM α) :=
  fun w => (wp_outOfFuel _ _ w).mpr trivial

theorem beside_ask (answer : Nat → α) : StaysBeside r (ask answer) :=
  fun w => (wp_ask _ _ _ w).mpr (Beside.of_eq rfl rfl)

theorem beside_getPool : StaysBeside r getPool :=
  fun w => (wp_getPool _ _ w).mpr (Beside.of_eq rfl rfl)

theorem beside_getMmc (m : Mmc) : StaysBeside r (getMmc m) :=
  fun w => (wp_getMmc _ _ _ w).mpr (Beside.of_eq rfl rfl)

theorem beside_getReq (c : ReqId) : StaysBeside r (getReq c) :=
  fun w => (wp_getReq _ _ _ w).mpr (Beside.of_eq rfl rfl)

theorem beside_modifyPool (f : MmcPool → MmcPool) : StaysBeside r (modifyPool f) :=
  fun w => (wp_modifyPool _ _ _ w).mpr (Beside.of_eq rfl rfl)

theorem beside_modifyMmc (m : Mmc) (f : MmcServer → MmcServer) : StaysBeside r (modifyMmc m f) :=
  fun w => (wp_modifyMmc _ _ _ _ w).mpr (Beside.of_eq rfl rfl)

/-- Another request may change in any way, the original in what is not copied. -/
theorem beside_modifyReq {c : ReqId} {f : MmcRequest → MmcRequest}
    (h : c = r → ∀ q, (f q).copied = q.copied) : StaysBeside r (modifyReq c f) := by
  intro w
  refine (wp_modifyReq _ _ _ _ w).mpr (Beside.of_eq rfl ?_)
  dsimp only
  by_cases hc : c = r
  · subst hc
    rw [Function.update_self]
    exact h rfl _
  · rw [Function.update_of_ne (Ne.symm hc)]

theorem beside_doWhen {c : Prop} [Decidable c] {x : PoolM Unit} (hx : StaysBeside r x) :
    StaysBeside r (doWhen c x) := Within.ite hx (beside_pure ())

theorem beside_forEach {f : α → PoolM Unit} (hf : ∀ x, StaysBeside r (f x)) (xs : List α) :
    StaysBeside r (forEach f xs) := by
  induction xs with
  | nil => exact beside_pure ()
  | cons x rest ih => exact beside_bind (hf x) fun _ => ih

variable {E : Env}

theorem beside_step {s : Step} (hs : s.Aside r) : StaysBeside r (step E s) := by
  intro w
  refine (wp_step _ _ _ _ w).mpr ⟨fun _ => ⟨⟨[s], rfl, ?_⟩, rfl⟩, fun _ => trivial⟩
  intro s' hs'
  exact List.mem_singleton.mp hs' ▸ hs

/-- What follows a step may rely on the step being allowed. -/
theorem beside_guarded {s : Step} {x : PoolM β} (hs : s.Aside r)
    (hx : (∃ w, E.allowed s w) → StaysBeside r x) : StaysBeside r (step E s >>= fun _ => x) := by
  by_cases h : ∃ w, E.allowed s w
  · exact beside_bind (beside_step hs) fun _ => hx h
  · intro w
    rw [wp_bind, wp_step]
    exact ⟨fun hallowed => absurd ⟨w, hallowed⟩ h, fun _ => trivial⟩

/-! ## Opening connections -/

theorem beside_mmcServerValid (m : Mmc) : StaysBeside r (mmcServerValid E m) :=
  beside_bind (beside_getMmc m) fun _ => Within.ite (beside_pure _) (Within.ite (beside_pure _)
    (beside_bind (beside_ask E.time) fun _ => beside_pure _))

theorem beside_findValidFrom (key : Bytes) (fuel i : Nat) :
    StaysBeside r (findValidFrom E key fuel i) := by
  induction fuel generalizing i with
  | zero =>
    exact beside_bind beside_getPool fun _ => beside_bind (beside_mmcServerValid _) fun _ =>
      beside_pure _
  | succ fuel ih =>
    exact beside_bind beside_getPool fun _ => beside_bind (beside_mmcServerValid _) fun _ =>
      Within.ite (ih _) (beside_pure _)

theorem beside_mmcPoolFind (key : Bytes) : StaysBeside r (mmcPoolFind E key) :=
  beside_bind beside_getPool fun _ => beside_bind (beside_mmcServerValid _) fun _ =>
    Within.ite (beside_findValidFrom key _ _) (beside_pure _)

theorem beside_mmcPoolRelease (c : ReqId) : StaysBeside r (mmcPoolRelease E (some c)) := by
  exact beside_bind (beside_step (s := .release c) trivial) fun _ => beside_modifyPool _

variable {fh : Failover} (hfh : ∀ m c, StaysBeside r (fh m c))

include hfh

theorem beside_mmcServerDeactivate (m : Mmc) : StaysBeside r (mmcServerDeactivate E fh m) := by
  refine beside_bind ?_ fun _ => beside_forEach (fun c => beside_bind (hfh m c) fun _ => beside_pure _) _
  refine beside_bind (beside_step trivial) fun _ => beside_bind (beside_ask E.time) fun _ => ?_
  refine beside_bind (beside_modifyMmc m _) fun _ => beside_bind (beside_modifyPool _) fun _ => ?_
  exact beside_bind (beside_getMmc m) fun _ => beside_bind (beside_modifyMmc m _) fun _ => beside_pure _

theorem beside_mmcPoolOpen (m : Mmc) (t : MmcProto) (cause : Option ReqId) :
    StaysBeside r (mmcPoolOpen E fh m t cause) := by
  have hconnect : StaysBeside r (mmcServerConnect E fh m t cause) := by
    refine beside_bind (beside_getMmc m) fun s => ?_
    refine beside_bind (beside_doWhen (beside_modifyMmc m _)) fun _ => ?_
    refine beside_bind (beside_ask _) fun answer => ?_
    rcases answer with ⟨c, _ | fd⟩
    · refine beside_bind (beside_step trivial) fun _ => beside_bind (beside_modifyMmc m _) fun _ => ?_
      exact beside_bind (beside_mmcServerDeactivate hfh m) fun _ => beside_pure _
    · exact beside_bind (beside_step trivial) fun _ => beside_bind (beside_modifyMmc m _) fun _ =>
        beside_pure _
  refine beside_bind (beside_getMmc m) fun s => ?_
  cases (s.io t).status with
  | connected => exact beside_pure _
  | unknown => exact beside_pure _
  | disconnected => exact hconnect
  | failed => exact hconnect

/-! ## Scheduling -/

omit hfh in
theorem beside_takeSlot (m : Mmc) (c old : Option ReqId) : StaysBeside r (takeSlot E m c old) :=
  beside_bind (beside_step trivial) fun _ => beside_bind (beside_modifyMmc m _) fun _ => beside_pure _

theorem beside_slotSendTcp (m : Mmc) (c : ReqId) (old : Option ReqId) (handleFailover : Bool) :
    StaysBeside r (slotSendTcp E fh m c old handleFailover) := by
  refine beside_bind (beside_mmcPoolOpen hfh m .tcp _) fun opened => Within.ite ?_ ?_
  · refine beside_bind (beside_modifyReq ?_) fun _ => beside_takeSlot m _ _
    intro _ q
    simp only [MmcRequest.copied, MmcRequest.command]
    split <;> rfl
  · refine beside_bind (beside_step trivial) fun _ => beside_bind (beside_modifyMmc m _) fun _ => ?_
    exact Within.ite (hfh m c) (beside_pure _)

theorem beside_mmcPoolSlotSend (m : Mmc) (request : Option ReqId) (handleFailover : Bool) :
    StaysBeside r (mmcPoolSlotSend E fh m request handleFailover) := by
  intro w
  unfold mmcPoolSlotSend
  rw [wp_bind, wp_getMmc]
  cases request with
  | none => exact beside_takeSlot m _ _ w
  | some c =>
    dsimp only
    rw [wp_bind, wp_getReq]
    have htcp := beside_slotSendTcp (E := E) hfh m c (w.mmc m).sendreq handleFailover
    refine wp_ite (fun hudp => ?_) fun _ => htcp w
    rw [wp_bind]
    refine wp_mono (beside_mmcPoolOpen hfh m .udp _ w) (fun opened w₁ h₁ => ?_) fun _ => id
    refine wp_ite (fun _ => ?_) fun _ => ?_
    · simp only [wp_bind, wp_getMmc, wp_modifyMmc, wp_modifyReq]
      refine wp_mono (beside_takeSlot (r := r) m _ _ _) (fun _ w' h => ?_) fun _ => id
      refine Beside.trans _ _ _ h₁ (h.of_beside rfl ?_)
      dsimp only
      by_cases hc : c = r
      · subst hc
        have hprotocol : (w₁.req c).protocol = .udp :=
          (congrArg Prod.fst h₁.copied).trans hudp.1
        rw [Function.update_self]
        simp only [MmcRequest.copied, MmcRequest.command, hprotocol, if_true]
        rw [setUdpHeader_drop]
      · rw [Function.update_of_ne (Ne.symm hc)]
    · exact wp_mono (htcp w₁) (fun _ w' => Beside.trans _ _ _ h₁) fun _ => id

omit hfh in
theorem beside_scheduleRead (m : Mmc) (c : ReqId) : StaysBeside r (scheduleRead m c) := by
  refine beside_bind (beside_getMmc m) fun s => Within.ite ?_ ?_
  · exact beside_bind (beside_modifyMmc m _) fun _ => beside_bind (beside_modifyPool _) fun _ =>
      beside_pure _
  · exact beside_bind (beside_modifyMmc m _) fun _ => beside_pure _

/-- Scheduling another request. -/
theorem schedule_beside {c : ReqId} (hc : c ≠ r) (m : Mmc) (w : World) :
    wp (mmcPoolSchedule E fh m c)
      (fun _ w' => Beside r { w with log := .schedule m c :: w.log } w') (fun _ => True) w := by
  unfold mmcPoolSchedule
  rw [wp_bind, wp_step]
  refine ⟨fun _ => ?_, fun _ => trivial⟩
  refine beside_bind (beside_mmcServerValid m) (fun _ => Within.ite (hfh m c) ?_) _
  refine beside_bind (beside_modifyReq fun h => absurd h hc) fun _ => beside_bind (beside_getMmc m) fun _ => ?_
  refine Within.ite ?_ ?_
  · refine beside_bind (beside_mmcPoolSlotSend hfh m _ _) fun result => Within.ite (hfh m c) ?_
    exact beside_bind (beside_step hc) fun _ => beside_bind (beside_modifyPool _) fun _ =>
      beside_scheduleRead m c
  · exact beside_bind (beside_step hc) fun _ => beside_bind (beside_modifyMmc m _) fun _ =>
      beside_scheduleRead m c

theorem beside_mmcPoolSchedule {c : ReqId} (hc : c ≠ r) (m : Mmc) :
    StaysBeside r (mmcPoolSchedule E fh m c) := by
  intro w
  have hstep : Beside r w { w with log := .schedule m c :: w.log } :=
    ⟨⟨[.schedule m c], rfl, by simp [Step.Aside]⟩, rfl⟩
  exact wp_mono (schedule_beside hfh hc m w) (fun _ w' => Beside.trans w _ w' hstep) fun _ => id

/-- Scheduling the original: one server receives it. -/
theorem schedule_original
    (hstop : ∀ m w, wp (fh m r) (fun _ _ => False) (fun _ => True) w) (m : Mmc) (w : World) :
    wp (mmcPoolSchedule E fh m r)
      (fun _ w' => ∃ w₁, Beside r w w₁ ∧ Beside r { w₁ with log := .accept m r :: w₁.log } w')
      (fun _ => True) w := by
  have hnever {Q : MmcResult → World → Prop} (w : World) : wp (fh m r) Q (fun _ => True) w :=
    wp_mono (hstop m w) (fun _ _ => False.elim) fun _ => id
  unfold mmcPoolSchedule
  rw [wp_bind]
  refine wp_mono (beside_step (r := r) (s := .schedule m r) trivial w) (fun _ w₁ h₁ => ?_) fun _ => id
  rw [wp_bind]
  refine wp_mono (beside_mmcServerValid (r := r) m w₁) (fun valid w₂ h₂ => ?_) fun _ => id
  replace h₂ := Beside.trans _ _ _ h₁ h₂
  refine wp_ite (fun _ => hnever w₂) fun _ => ?_
  rw [wp_bind]
  have hrewind : StaysBeside r (modifyReq r MmcRequest.rewind) := beside_modifyReq fun _ _ => rfl
  refine wp_mono (hrewind w₂) (fun _ w₃ h₃ => ?_) fun _ => id
  replace h₃ := Beside.trans _ _ _ h₂ h₃
  rw [wp_bind, wp_getMmc]
  have hread (w : World) := beside_scheduleRead (r := r) m r w
  refine wp_ite (fun _ => ?_) fun _ => ?_
  · rw [wp_bind]
    refine wp_mono (beside_mmcPoolSlotSend hfh m _ _ w₃) (fun result w₄ h₄ => ?_) fun _ => id
    replace h₄ := Beside.trans _ _ _ h₃ h₄
    refine wp_ite (fun _ => hnever w₄) fun _ => ?_
    simp only [wp_bind, wp_step, wp_modifyPool]
    refine ⟨fun _ => ?_, fun _ => trivial⟩
    exact wp_mono (hread _) (fun _ w' h => ⟨w₄, h₄, h.of_beside rfl rfl⟩) fun _ => id
  · simp only [wp_bind, wp_step, wp_modifyMmc]
    refine ⟨fun _ => ?_, fun _ => trivial⟩
    exact wp_mono (hread _) (fun _ w' h => ⟨w₃, h₃, h.of_beside rfl rfl⟩) fun _ => id

omit hfh

theorem beside_failoverTarget {c : ReqId} (hc : c ≠ r) (bound : Nat) (m : Mmc) :
    StaysBeside r (failoverTarget E c bound m) := by
  induction bound generalizing m with
  | zero =>
    exact beside_bind (beside_modifyReq fun h => absurd h hc) fun _ => beside_bind beside_getPool fun _ =>
      beside_bind (beside_getReq c) fun _ => beside_bind (beside_modifyReq fun h => absurd h hc) fun _ =>
        beside_bind (beside_mmcServerValid _) fun _ => beside_pure _
  | succ bound ih =>
    exact beside_bind (beside_modifyReq fun h => absurd h hc) fun _ => beside_bind beside_getPool fun _ =>
      beside_bind (beside_getReq c) fun _ => beside_bind (beside_modifyReq fun h => absurd h hc) fun _ =>
        beside_bind (beside_mmcServerValid _) fun _ => Within.ite (ih _) (beside_pure _)

variable (hE : ∀ s w, E.allowed s w → s.KeepsCopies r) {fuel : Nat}

include hE

/-- **A failover handler stays beside the original**: it is not called for the original. -/
theorem beside_failoverHandler (depth : Nat) (m : Mmc) (c : ReqId) :
    StaysBeside r (failoverHandler E fuel depth m c) := by
  induction depth generalizing m c with
  | zero => exact beside_outOfFuel
  | succ depth ih =>
    refine beside_guarded trivial fun hstep => ?_
    obtain ⟨w, hallowed⟩ := hstep
    have hc : c ≠ r := hE _ w hallowed
    refine beside_bind (beside_getReq c) fun q => ?_
    cases q.failoverHandler with
    | null => exact beside_bind (beside_mmcPoolRelease c) fun _ => beside_pure _
    | pool =>
      refine beside_bind (beside_getReq c) fun q => beside_bind beside_getPool fun p => Within.ite ?_ ?_
      · exact beside_bind (beside_failoverTarget hc _ m) fun _ => beside_mmcPoolSchedule ih hc _
      · exact beside_bind (beside_mmcPoolRelease c) fun _ => beside_pure _
    | value call =>
      refine beside_bind (beside_getReq c) fun q => Within.ite ?_ ?_
      · exact beside_bind (beside_mmcPoolRelease c) fun _ => beside_pure _
      · refine beside_guarded trivial fun hstep => ?_
        obtain ⟨w, hallowed⟩ := hstep
        exact (hE _ w hallowed).elim

/-- The handler is never run for the original. -/
theorem failoverHandler_original (depth : Nat) (m : Mmc) (w : World) :
    wp (failoverHandler E fuel depth m r) (fun _ _ => False) (fun _ => True) w := by
  cases depth with
  | zero => exact (wp_outOfFuel _ _ w).mpr trivial
  | succ depth =>
    unfold failoverHandler
    rw [wp_bind, wp_step]
    exact ⟨fun hallowed => absurd rfl (hE _ w hallowed), fun _ => trivial⟩

/-! ## Making copies -/

/-- A request that is handed out is not the original. -/
theorem alloc_beside (protocol : MmcProto) (failover : FailoverHandler) (w : World) :
    wp (mmcPoolRequestAlloc E protocol failover)
      (fun c w' => c ≠ r ∧ Beside r w w' ∧ (w'.req c).protocol = protocol) (fun _ => True) w := by
  have hpop : wp popFreeRequest (fun c w' => w'.log = w.log ∧ (c ≠ r → w'.req r = w.req r))
      (fun _ => True) w := by
    unfold popFreeRequest
    rw [wp_bind, wp_getPool]
    rcases w.pool.freeRequests with _ | ⟨_ | c, rest⟩
    · exact (wp_newRequest _ _ w).mpr ⟨rfl, fun hc => Function.update_of_ne hc.symm _ _⟩
    · simp only [wp_bind, wp_modifyPool, wp_newRequest, true_and]
      exact fun hc => Function.update_of_ne hc.symm _ _
    · simp only [wp_bind, wp_modifyPool, wp_modifyReq, wp_pure, true_and]
      exact fun hc => Function.update_of_ne hc.symm _ _
  unfold mmcPoolRequestAlloc
  rw [wp_bind]
  refine wp_mono hpop (fun c w₁ hpopped => ?_) fun _ => id
  obtain ⟨hlog, hreq⟩ := hpopped
  simp only [wp_bind, wp_step, wp_modifyReq, wp_pure]
  refine ⟨fun hallowed => ?_, fun _ => trivial⟩
  have hc : c ≠ r := hE _ w₁ hallowed
  refine ⟨hc, ⟨⟨[.alloc c], by rw [hlog]; rfl, by simp [Step.Aside]⟩, ?_⟩, ?_⟩
  · dsimp only
    rw [Function.update_of_ne hc.symm, hreq hc]
  · rw [Function.update_self]
    split <;> rfl

omit hE in
theorem copyRequest_copyOf (p : WireProtocol) {q clone : MmcRequest}
    (hprotocol : clone.protocol = q.protocol) (hkey : q.keyLen ≤ q.key.length) :
    (copyRequest p q clone).CopyOf q := by
  have htake : (q.key.take q.keyLen ++ clone.key.drop q.keyLen).take q.keyLen
      = q.key.take q.keyLen := by
    rw [List.take_append_of_le_length (by simp [hkey]), List.take_take, Nat.min_self]
  cases p <;> exact ⟨hprotocol, by
    simp only [MmcRequest.command, copyRequest, mmcBinaryCloneRequest, hprotocol], htake, rfl⟩

omit hE in
theorem MmcRequest.CopyOf.congr {made q q' : MmcRequest} (h : made.CopyOf q) (hq : q.copied = q'.copied) :
    made.CopyOf q' := by
  simp only [MmcRequest.copied, Prod.mk.injEq] at hq
  obtain ⟨hprotocol, hcommand, hkey, hkeyLen, hparse⟩ := hq
  exact ⟨h.protocol.trans hprotocol, h.command.trans hcommand, by rw [h.key, hkey, hkeyLen],
    h.parse.trans hparse⟩

/-- **A copy is a copy.** -/
theorem clone_beside (w : World) (hkey : (w.req r).keyLen ≤ (w.req r).key.length) :
    wp (mmcPoolCloneRequest E r)
      (fun c w' => c ≠ r ∧ ∃ made w₁, made.CopyOf (w.req r) ∧ Beside r w w₁ ∧
        w'.log = .clone r c made :: w₁.log ∧ (w'.req r).copied = (w₁.req r).copied)
      (fun _ => True) w := by
  unfold mmcPoolCloneRequest
  rw [wp_bind, wp_getReq, wp_bind]
  refine wp_mono (alloc_beside hE _ _ w) (fun c w₁ halloc => ?_) fun _ => id
  obtain ⟨hc, h₁, hprotocol⟩ := halloc
  simp only [wp_bind, wp_getReq, wp_getPool, wp_modifyReq, wp_step, wp_pure]
  refine ⟨fun _ => ⟨hc, _, w₁, ?_, h₁, rfl, ?_⟩, fun _ => trivial⟩
  · have hcopied := h₁.copied
    simp only [MmcRequest.copied, Prod.mk.injEq] at hcopied
    obtain ⟨hp, -, hk, hl, -⟩ := hcopied
    rw [Function.update_self]
    refine MmcRequest.CopyOf.congr (copyRequest_copyOf _ (hprotocol.trans hp.symm) ?_) h₁.copied
    rwa [hk, hl]
  · rw [Function.update_of_ne hc.symm]

/-! ## The loop over the copies -/

omit hE in
theorem copyServers_cons {s : Step} {log : List Step}
    (hs : (∀ m c, s ≠ .schedule m c) ∨ ∀ o c made, log.head? ≠ some (.clone o c made)) :
    copyServers r (s :: log) = copyServers r log := by
  rcases log with _ | ⟨s', log⟩
  · cases s <;> rfl
  · cases s
    case schedule m c =>
      rcases hs with hs | hs
      · exact absurd rfl (hs m c)
      · cases s' <;> first | rfl | exact absurd rfl (hs _ _ _)
    all_goals rfl

omit hE in
theorem receivedBy_cons {s : Step} (hs : ∀ m, s ≠ .accept m r) (log : List Step) :
    receivedBy r (s :: log) = receivedBy r log := by
  cases s
  case accept m c =>
    have hc : c ≠ r := fun hc => hs m (hc ▸ rfl)
    simp [receivedBy, hc]
  all_goals rfl

/-- Steps beside the copies do not show in the log. -/
structure SameCopies (r : ReqId) (log log' : List Step) : Prop where
  servers : copyServers r log' = copyServers r log
  received : receivedBy r log' = receivedBy r log
  made : ∀ o c made, .clone o c made ∈ log' → .clone o c made ∈ log
  head : (∀ o c made, log.head? ≠ some (.clone o c made)) →
    ∀ o c made, log'.head? ≠ some (.clone o c made)

omit hE in
theorem sameCopies_append {steps : List Step} (h : ∀ s ∈ steps, s.Aside r) {log : List Step}
    (hhead : ∀ o c made, log.head? ≠ some (.clone o c made)) :
    SameCopies r log (steps ++ log) := by
  induction steps with
  | nil => exact ⟨rfl, rfl, fun _ _ _ => id, id⟩
  | cons s steps ih =>
    have hs : s.Aside r := h s (List.mem_cons_self ..)
    have hrest := ih fun s' hs' => h s' (List.mem_cons_of_mem _ hs')
    have hclone : ∀ o c made, s ≠ .clone o c made := by
      rintro o c made rfl
      exact hs
    refine ⟨?_, ?_, ?_, ?_⟩
    · rw [List.cons_append, copyServers_cons (Or.inr (hrest.head hhead)), hrest.servers]
    · rw [List.cons_append, receivedBy_cons, hrest.received]
      rintro m rfl
      exact hs rfl
    · intro o c made hmade
      rcases List.mem_cons.mp hmade with heq | hmade
      · exact absurd heq.symm (hclone o c made)
      · exact hrest.made o c made hmade
    · intro _ o c made heq
      exact hclone o c made (Option.some.inj heq)

/-- What holds between the copies: the write so far is redundant, and its servers are among `used`. -/
structure Written (r : ReqId) (q : MmcRequest) (w₀ w : World) (used : List Mmc) : Prop where
  log : ∃ steps : List Step, w.log = steps ++ w₀.log ∧ RedundantWrite r q steps ∧
    (∀ m ∈ copyServers r steps ++ receivedBy r steps, m ∈ used) ∧
    ∀ o c made, steps.head? ≠ some (.clone o c made)
  copied : (w.req r).copied = q.copied

omit hE in
theorem Written.beside {q : MmcRequest} {w₀ w w' : World} {used : List Mmc}
    (h : Written r q w₀ w used) (hw : Beside r w w') : Written r q w₀ w' used := by
  obtain ⟨steps, hlog, hwrite, hused, hhead⟩ := h.log
  obtain ⟨steps', hlog', haside⟩ := hw.log
  have hsame := sameCopies_append haside hhead
  refine ⟨⟨steps' ++ steps, by rw [hlog', hlog, List.append_assoc], ⟨?_, ?_⟩, ?_, hsame.head hhead⟩,
    hw.copied.trans h.copied⟩
  · rw [hsame.servers, hsame.received]
    exact hwrite.distinct
  · intro c made hmade
    exact hwrite.copies c made (hsame.made r c made hmade)
  · rw [hsame.servers, hsame.received]
    exact hused

omit hE in
theorem Written.mono {q : MmcRequest} {w₀ w : World} {used used' : List Mmc}
    (h : Written r q w₀ w used) (hsub : ∀ m ∈ used, m ∈ used') : Written r q w₀ w used' := by
  obtain ⟨steps, hlog, hwrite, hused, hhead⟩ := h.log
  exact ⟨⟨steps, hlog, hwrite, fun m hm => hsub m (hused m hm), hhead⟩, h.copied⟩

omit hE in
/-- The original, received by its first server. -/
theorem Written.accept {q : MmcRequest} {w₀ w : World} (h : Written r q w₀ w []) (m : Mmc) :
    Written r q w₀ { w with log := .accept m r :: w.log } [m] := by
  obtain ⟨steps, hlog, hwrite, hused, -⟩ := h.log
  have hnone : copyServers r steps ++ receivedBy r steps = [] :=
    List.eq_nil_iff_forall_not_mem.mpr fun x hx => List.not_mem_nil (hused x hx)
  obtain ⟨hservers, hreceived⟩ := List.append_eq_nil_iff.mp hnone
  have hservers' : copyServers r (.accept m r :: steps) = [] := hservers
  have hreceived' : receivedBy r (.accept m r :: steps) = [m] := by
    rw [← List.singleton_append, receivedBy, List.filterMap_append, ← receivedBy, ← receivedBy,
      hreceived]
    simp [receivedBy]
  refine ⟨⟨.accept m r :: steps, by rw [hlog]; rfl, ⟨?_, ?_⟩, ?_, by simp⟩, h.copied⟩
  · rw [hservers', hreceived']
    exact List.nodup_singleton m
  · intro c made hmade
    simp only [List.mem_cons, reduceCtorEq, false_or] at hmade
    exact hwrite.copies c made hmade
  · rw [hservers', hreceived']
    exact fun x hx => hx

omit hE in
/-- A copy that was made and is about to be scheduled on a server that was not used. -/
theorem Written.copy {q : MmcRequest} {w₀ w w₁ : World} {used : List Mmc}
    (h : Written r q w₀ w used) {m : Mmc} (hm : m ∉ used) {c : ReqId} {made : MmcRequest}
    (hmade : made.CopyOf q) (hlog₁ : w₁.log = .schedule m c :: .clone r c made :: w.log)
    (hcopied : (w₁.req r).copied = (w.req r).copied) : Written r q w₀ w₁ (m :: used) := by
  obtain ⟨steps, hlog, hwrite, hused, hhead⟩ := h.log
  have hservers : copyServers r (.schedule m c :: .clone r c made :: steps)
      = m :: copyServers r steps := if_pos ⟨rfl, rfl⟩
  have hreceived : receivedBy r (.schedule m c :: .clone r c made :: steps)
      = receivedBy r steps := rfl
  refine ⟨⟨.schedule m c :: .clone r c made :: steps, by rw [hlog₁, hlog]; rfl, ⟨?_, ?_⟩, ?_,
    by simp⟩, hcopied.trans h.copied⟩
  · rw [hservers, hreceived, List.cons_append]
    exact List.nodup_cons.mpr ⟨fun hin => hm (hused m hin), hwrite.distinct⟩
  · intro c' made' hin
    simp only [List.mem_cons, reduceCtorEq, false_or, Step.clone.injEq] at hin
    rcases hin with ⟨-, -, rfl⟩ | hin
    · exact hmade
    · exact hwrite.copies c' made' hin
  · rw [hservers, hreceived, List.cons_append]
    intro m' hm'
    rcases List.mem_cons.mp hm' with rfl | hm'
    · exact List.mem_cons_self ..
    · exact List.mem_cons_of_mem _ (hused m' hm')

theorem scheduleCopies_written {fh : Failover} (hfh : ∀ m c, StaysBeside r (fh m c)) (key : Bytes)
    {q : MmcRequest} (hkey : q.keyLen ≤ q.key.length) {w₀ : World} :
    ∀ copies m skip i w, Written r q w₀ w (m :: skip) →
      wp (scheduleCopies E fh key r copies m skip i) (fun _ w' => ∃ used, Written r q w₀ w' used)
        (fun _ => True) w := by
  intro copies
  induction copies with
  | zero => exact fun m skip i w h => (wp_pure _ _ _ w).mpr ⟨_, h⟩
  | succ copies ih =>
    intro m skip i w h
    have hused : ∀ x ∈ m :: skip, x ∈ mmcQueuePush skip m := by
      intro x hx
      rw [mem_mmcQueuePush]
      exact (List.mem_cons.mp hx).symm
    unfold scheduleCopies
    rw [wp_bind, wp_getPool]
    generalize mmcPoolFindNext w.pool.findServer E.maxFailoverAttempts key (mmcQueuePush skip m) i
      = next
    obtain ⟨m', i'⟩ := next
    dsimp only
    rw [wp_bind, wp_step]
    refine ⟨fun hallowed => ?_, fun _ => trivial⟩
    have hnew : m' ∉ mmcQueuePush skip m := hE _ w hallowed
    have htarget : Written r q w₀ { w with log := .copyTarget m' (mmcQueuePush skip m) :: w.log }
        (mmcQueuePush skip m) :=
      (h.mono hused).beside ⟨⟨[_], rfl, by simp [Step.Aside]⟩, rfl⟩
    rw [wp_bind]
    refine wp_mono (beside_mmcServerValid (r := r) m' _) (fun valid w₁ h₁ => ?_) fun _ => id
    replace h₁ := htarget.beside h₁
    rw [wp_bind, wp_doWhen]
    refine ⟨fun _ => ?_, fun _ => ih _ _ _ _ (h₁.mono fun x => List.mem_cons_of_mem _)⟩
    have hkeyLen : (w₁.req r).keyLen ≤ (w₁.req r).key.length := by
      have hcopied := h₁.copied
      simp only [MmcRequest.copied, Prod.mk.injEq] at hcopied
      rw [hcopied.2.2.1, hcopied.2.2.2.1]
      exact hkey
    simp only [wp_bind, wp_pure]
    refine wp_mono (clone_beside hE w₁ hkeyLen) ?_ fun _ => id
    rintro c w₂ ⟨hc, made, w', hmade, hw', hlog, hcopied⟩
    refine wp_mono (schedule_beside hfh hc m' w₂) (fun _ w₃ h₃ => ?_) fun _ => id
    refine ih _ _ _ _ (Written.beside ?_ h₃)
    exact (h₁.beside hw').copy hnew (hmade.congr h₁.copied) (by rw [hlog]) hcopied

end Beside

/-- Every call of `mmc_pool_schedule_key` that returns has made a redundant write. -/
def WritesRedundantly (E : Env) (fuel depth : Nat) (key : Bytes) (r : ReqId) (redundancy : Nat)
    (w : World) : Prop :=
  wp (mmcPoolScheduleKey E (failoverHandler E fuel depth) key r redundancy)
    (fun _ w' => ∃ steps, w'.log = steps ++ w.log ∧ RedundantWrite r (w.req r) steps)
    (fun _ => True) w

theorem WritesRedundantly.distinct {E : Env} {fuel depth : Nat} {key : Bytes} {r : ReqId}
    {redundancy : Nat} {w : World} (h : WritesRedundantly E fuel depth key r redundancy w)
    (hlog : w.log = []) {log : List Step}
    (hrun : (mmcPoolScheduleKey E (failoverHandler E fuel depth) key r redundancy w).1.isOk = true ∧
      (mmcPoolScheduleKey E (failoverHandler E fuel depth) key r redundancy w).2.log = log) :
    (copyServers r log ++ receivedBy r log).Nodup := by
  obtain ⟨hok, rfl⟩ := hrun
  cases hx : mmcPoolScheduleKey E (failoverHandler E fuel depth) key r redundancy w with
  | mk result w' =>
    rw [hx] at hok
    cases result with
    | error e => cases hok
    | ok a =>
      obtain ⟨steps, hsteps, hwrite⟩ := h.1 a w' hx
      rw [hlog, List.append_nil] at hsteps
      rw [hsteps]
      exact hwrite.distinct

/-- Two servers, and a request that stores a value under the key `a`, which belongs to server 0. -/
def storing : World where
  pool := { servers := [0, 1], findServer := fun key => if key = [97] then 0 else 1 }
  mmc _ := {}
  req := Function.update (fun _ => {}) 0
    { key := [97], keyLen := 1, parse := some .asciiParseResponse, failoverHandler := .pool
      sendbuf := { value := [115, 101, 116] } }
  nextReq := 1

/-- The first connection cannot be opened. -/
def downFirst : Env where
  connect tick := if tick < 2 then none else some tick

/-- Both servers can be reached. -/
def bothUp : Env where
  connect := some
  allowed s _ := decide (s.KeepsCopies 0)

end PeclMemcache
