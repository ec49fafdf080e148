import PeclMemcache.Program

set_option autoImplicit false

/-! # Runs within a relation

Most of the pool code touches neither the build slots nor the pending queue. A relation of worlds that
allows every such change, and the few changes of the other kind, holds between the start and the end of
every run: this is proved here once, function by function, for all relations of that kind
(`Frame`). -/

namespace PeclMemcache

open Stateful

/-- The steps a frame allows anywhere. The others are bound to a change of a build slot or to the
    rescheduling of keys. -/
def Step.Plain : Step → Prop
  | .deactivate _ => False
  | .build _ _ => False
  | .flush _ => False
  | .flushed _ => False
  | .schedulePending _ _ => False
  | .clearBuild _ _ _ => False
  | .valueFailover _ => False
  | .handed _ _ => False
  | _ => True

/-- A preorder that allows every change but those to `buildreq`, to `pending` and to the keys of an API
    call, with what is left of it in a run that fails. -/
structure Frame (E : Env) (R S : World → World → Prop) : Prop where
  refl : ∀ w, R w w
  trans : ∀ w w' w'', R w w' → R w' w'' → R w w''
  fail : ∀ w w', R w w' → S w w'
  trans_fail : ∀ w w' w'', R w w' → S w' w'' → S w w''
  tick : ∀ w, R w { w with tick := w.tick + 1 }
  note : ∀ s w, s.Plain → E.allowed s w → R w { w with log := s :: w.log }
  pool : ∀ w p, p.pending = w.pool.pending → R w { w with pool := p }
  mmc : ∀ w m s, s.buildreq = (w.mmc m).buildreq →
    R w { w with mmc := Function.update w.mmc m s }
  req : ∀ w q n, R w { w with req := q, nextReq := n }
  call : ∀ w c x, x.keys = (w.call c).keys → R w { w with call := Function.update w.call c x }
  inTimeout : ∀ w b, R w { w with inTimeout := b }

namespace Frame

variable {E : Env} {R S : World → World → Prop} {α β : Type}

/-! ## The primitive operations -/

section Primitive

variable (hF : Frame E R S)

include hF

theorem pure (a : α) : Within R S (Pure.pure a : PoolM α) := Within.pure hF.refl a

theorem bind {x : PoolM α} {f : α → PoolM β} (hx : Within R S x) (hf : ∀ a, Within R S (f a)) :
    Within R S (x >>= f) := Within.bind hF.trans hF.trans_fail hx hf

theorem nullPointer : Within R S (nullPointer : PoolM α) :=
  fun w => (wp_nullPointer _ _ _).mpr (hF.fail w w (hF.refl w))

theorem outOfFuel : Within R S (outOfFuel : PoolM α) :=
  fun w => (wp_outOfFuel _ _ _).mpr (hF.fail w w (hF.refl w))

theorem doWhen {c : Prop} [Decidable c] {x : PoolM Unit} (hx : Within R S x) :
    Within R S (doWhen c x) := Within.ite hx (hF.pure ())

theorem ask (answer : Nat → α) : Within R S (ask answer) :=
  fun w => (wp_ask _ _ _ _).mpr (hF.tick w)

theorem step {s : Step} (hs : s.Plain) : Within R S (step E s) :=
  fun w => (wp_step _ _ _ _ _).mpr ⟨hF.note s w hs, fun _ => hF.fail w w (hF.refl w)⟩

theorem getPool : Within R S getPool := fun w => (wp_getPool _ _ _).mpr (hF.refl w)

theorem modifyPool {f : MmcPool → MmcPool} (hf : ∀ p, (f p).pending = p.pending) :
    Within R S (modifyPool f) := fun w => (wp_modifyPool _ _ _ _).mpr (hF.pool w _ (hf _))

theorem getMmc (m : Mmc) : Within R S (getMmc m) := fun w => (wp_getMmc _ _ _ _).mpr (hF.refl w)

theorem modifyMmc {m : Mmc} {f : MmcServer → MmcServer} (hf : ∀ s, (f s).buildreq = s.buildreq) :
    Within R S (modifyMmc m f) := fun w => (wp_modifyMmc _ _ _ _ _).mpr (hF.mmc w m _ (hf _))

theorem getReq (r : ReqId) : Within R S (getReq r) := fun w => (wp_getReq _ _ _ _).mpr (hF.refl w)

theorem modifyReq (r : ReqId) (f : MmcRequest → MmcRequest) : Within R S (modifyReq r f) :=
  fun w => (wp_modifyReq _ _ _ _ _).mpr (hF.req w _ _)

theorem newRequest : Within R S newRequest := fun w => (wp_newRequest _ _ _).mpr (hF.req w _ _)

theorem getCall (c : Nat) : Within R S (getCall c) :=
  fun w => (wp_getCall _ _ _ _).mpr (hF.refl w)

theorem modifyCall {c : Nat} {f : ApiCall → ApiCall} (hf : ∀ x, (f x).keys = x.keys) :
    Within R S (modifyCall c f) := fun w => (wp_modifyCall _ _ _ _ _).mpr (hF.call w c _ (hf _))

theorem setInTimeout (b : Bool) : Within R S (setInTimeout b) :=
  fun w => (wp_setInTimeout _ _ _ _).mpr (hF.inTimeout w b)

theorem getInTimeout : Within R S getInTimeout :=
  fun w => (wp_getInTimeout _ _ _).mpr (hF.refl w)

theorem forEach {f : α → PoolM Unit} (hf : ∀ x, Within R S (f x)) (xs : List α) :
    Within R S (forEach f xs) := by
  induction xs with
  | nil => exact hF.pure ()
  | cons x rest ih => exact hF.bind (hf x) fun _ => ih

end Primitive

/-- A coarser preorder than that of a frame is that of a frame. -/
theorem mono {R' S' : World → World → Prop} (hF : Frame E R S) (hR : ∀ w w', R w w' → R' w w')
    (htrans : ∀ w w' w'', R' w w' → R' w' w'' → R' w w'') (hfail : ∀ w w', R' w w' → S' w w')
    (htrans_fail : ∀ w w' w'', R' w w' → S' w' w'' → S' w w'') : Frame E R' S' where
  refl w := hR w w (hF.refl w)
  trans := htrans
  fail := hfail
  trans_fail := htrans_fail
  tick w := hR _ _ (hF.tick w)
  note s w hs he := hR _ _ (hF.note s w hs he)
  pool w p hp := hR _ _ (hF.pool w p hp)
  mmc w m s hs := hR _ _ (hF.mmc w m s hs)
  req w q n := hR _ _ (hF.req w q n)
  call w c x hx := hR _ _ (hF.call w c x hx)
  inTimeout w b := hR _ _ (hF.inTimeout w b)

end Frame

theorem modifyIo_buildreq (s : MmcServer) (t : MmcProto) (f : MmcStream → MmcStream) :
    (s.modifyIo t f).buildreq = s.buildreq := by
  cases t <;> rfl

theorem watch_pending (p : MmcPool) (api : SelectApi) (wfds rfds : List Nat) (report : SelectReport) :
    (p.watch api wfds rfds report).pending = p.pending := by
  cases api <;> rfl

theorem clearReady_pending (p : MmcPool) (api : SelectApi) (d : Direction) (fd : Nat) :
    (p.clearReady api d fd).pending = p.pending := by
  cases api <;> cases d <;> rfl

/-! ## Requests -/

section Functions

variable {E : Env} {R S : World → World → Prop} (hF : Frame E R S)

include hF

theorem within_ioOf (r : ReqId) : Within R S (ioOf r) := by
  refine hF.bind (hF.getReq r) fun q => ?_
  cases q.io with
  | none => exact hF.nullPointer
  | some io => exact hF.pure io

theorem within_fdOf (r : ReqId) : Within R S (fdOf r) :=
  hF.bind (within_ioOf hF r) fun io => hF.bind (hF.getMmc io.1) fun _ => hF.pure _

theorem within_mmcServerSeterror (m : Mmc) (error : String) (errnum : Int) :
    Within R S (mmcServerSeterror m error errnum) := hF.modifyMmc fun _ => rfl

theorem within_mmcServerFailure (m : Mmc) (io : Mmc × MmcProto) (error : String) (errnum : Int) :
    Within R S (mmcServerFailure m io error errnum) := by
  refine hF.bind (hF.getMmc io.1) fun s => ?_
  refine hF.bind (hF.modifyMmc fun s => modifyIo_buildreq s _ _) fun _ => ?_
  exact hF.bind (hF.doWhen (within_mmcServerSeterror hF m error errnum)) fun _ => hF.pure _

theorem within_mmcServerValid (m : Mmc) : Within R S (mmcServerValid E m) := by
  refine hF.bind (hF.getMmc m) fun s => ?_
  refine Within.ite (hF.pure _) (Within.ite (hF.pure _) ?_)
  exact hF.bind (hF.ask E.time) fun _ => hF.pure _

theorem within_noteRelease (r : Option ReqId) : Within R S (noteRelease E r) := by
  cases r with
  | none => exact hF.pure ()
  | some r => exact hF.step trivial

theorem within_mmcPoolRelease (r : Option ReqId) : Within R S (mmcPoolRelease E r) :=
  hF.bind (within_noteRelease hF r) fun _ => hF.modifyPool fun _ => rfl

theorem within_popFreeRequest : Within R S popFreeRequest := by
  refine hF.bind hF.getPool fun p => ?_
  rcases p.freeRequests with _ | ⟨_ | r, rest⟩
  · exact hF.newRequest
  · exact hF.bind (hF.modifyPool fun _ => rfl) fun _ => hF.newRequest
  · exact hF.bind (hF.modifyPool fun _ => rfl) fun _ =>
      hF.bind (hF.modifyReq r _) fun _ => hF.pure _

theorem within_mmcPoolRequestAlloc (protocol : MmcProto) (failover : FailoverHandler) :
    Within R S (mmcPoolRequestAlloc E protocol failover) :=
  hF.bind (within_popFreeRequest hF) fun _ => hF.bind (hF.step trivial) fun _ =>
    hF.bind (hF.modifyReq _ _) fun _ => hF.pure _

theorem within_mmcPoolRequest (protocol : MmcProto) (responseHandler : ResponseHandler) (call : Nat)
    (failover : FailoverHandler) :
    Within R S (mmcPoolRequest E protocol responseHandler call failover) :=
  hF.bind (within_mmcPoolRequestAlloc hF protocol failover) fun _ =>
    hF.bind (hF.modifyReq _ _) fun _ => hF.pure _

theorem within_mmcPoolRequestGet (protocol : MmcProto) (valueHandler : Option ValueHandler)
    (call : Nat) (failover : FailoverHandler) :
    Within R S (mmcPoolRequestGet E protocol valueHandler call failover) :=
  hF.bind (within_mmcPoolRequest hF protocol .null call failover) fun _ =>
    hF.bind (hF.modifyReq _ _) fun _ => hF.pure _

theorem within_mmcPoolCloneRequest (r : ReqId) : Within R S (mmcPoolCloneRequest E r) :=
  hF.bind (hF.getReq r) fun _ => hF.bind (within_mmcPoolRequestAlloc hF _ _) fun _ =>
    hF.bind (hF.getReq r) fun _ => hF.bind hF.getPool fun _ =>
      hF.bind (hF.modifyReq _ _) fun _ => hF.bind (hF.getReq _) fun _ =>
        hF.bind (hF.step trivial) fun _ => hF.pure _

/-! ## Servers -/

theorem within_findValidFrom (key : Bytes) (fuel i : Nat) : Within R S (findValidFrom E key fuel i) := by
  induction fuel generalizing i with
  | zero =>
    exact hF.bind hF.getPool fun _ => hF.bind (within_mmcServerValid hF _) fun _ => hF.pure _
  | succ fuel ih =>
    refine hF.bind hF.getPool fun p => ?_
    exact hF.bind (within_mmcServerValid hF _) fun _ => Within.ite (ih _) (hF.pure _)

theorem within_mmcPoolFind (key : Bytes) : Within R S (mmcPoolFind E key) :=
  hF.bind hF.getPool fun _ => hF.bind (within_mmcServerValid hF _) fun _ =>
    Within.ite (within_findValidFrom hF key _ _) (hF.pure _)

theorem within_scheduleRead (m : Mmc) (r : ReqId) : Within R S (scheduleRead m r) := by
  refine hF.bind (hF.getMmc m) fun s => Within.ite ?_ ?_
  · exact hF.bind (hF.modifyMmc fun _ => rfl) fun _ => hF.bind (hF.modifyPool fun _ => rfl) fun _ =>
      hF.pure _
  · exact hF.bind (hF.modifyMmc fun _ => rfl) fun _ => hF.pure _

/-! ## Reading and sending -/

theorem within_slotFds (d : Direction) (ms : List Mmc) : Within R S (slotFds d ms) := by
  induction ms with
  | nil => exact hF.pure _
  | cons m rest ih =>
    refine hF.bind (hF.getMmc m) fun s => ?_
    cases s.slot d with
    | none => exact hF.nullPointer
    | some r => exact hF.bind (within_fdOf hF r) fun _ => hF.bind ih fun _ => hF.pure _

theorem within_waitReady (api : SelectApi) (b : Bool) : Within R S (waitReady E api b) :=
  hF.bind hF.getPool fun _ => hF.bind (within_slotFds hF _ _) fun _ =>
    hF.bind (within_slotFds hF _ _) fun _ => hF.bind (hF.ask E.select) fun _ =>
      hF.bind (hF.modifyPool fun p => watch_pending p _ _ _ _) fun _ => hF.pure _

theorem within_clearSending (m : Mmc) : Within R S (clearSending m) :=
  hF.bind (hF.getMmc m) fun _ => hF.doWhen (hF.modifyPool fun _ => rfl)

theorem within_shiftRead (m : Mmc) : Within R S (shiftRead m) := hF.modifyMmc fun _ => rfl

theorem within_timedOut (api : SelectApi) (d : Direction) (m : Mmc) :
    Within R S (timedOut api d m) := by
  cases api with
  | poll => exact hF.pure _
  | select =>
    refine hF.bind (hF.getMmc m) fun s => ?_
    cases s.slot d with
    | none => exact hF.nullPointer
    | some r => exact hF.bind (within_fdOf hF r) fun _ => hF.bind hF.getPool fun _ => hF.pure _

theorem within_mmcRequestSend (m : Mmc) (r : ReqId) : Within R S (mmcRequestSend E m r) := by
  refine hF.bind (within_ioOf hF r) fun io => hF.bind (hF.getMmc io.1) fun s => ?_
  cases (s.io io.2).stream with
  | none => exact hF.nullPointer
  | some c =>
    refine hF.bind (hF.ask E.send) fun outcome => ?_
    cases outcome with
    | bytes n =>
      exact hF.bind (hF.getReq r) fun q => hF.bind (hF.step trivial) fun _ =>
        hF.bind (hF.modifyReq r _) fun _ => Within.ite (hF.pure _) (hF.pure _)
    | eagain => exact hF.pure _
    | error errnum => exact within_mmcServerFailure hF m io _ _

theorem within_queueSending (m : Mmc) : Within R S (queueSending m) := hF.modifyPool fun _ => rfl

theorem within_queueReading (m : Mmc) : Within R S (queueReading m) := hF.modifyPool fun _ => rfl

theorem within_mmcRequestReadUdp (m : Mmc) (r : ReqId) : Within R S (mmcRequestReadUdp E m r) := by
  refine hF.bind (within_ioOf hF r) fun io => hF.bind (hF.getMmc io.1) fun s => ?_
  cases (s.io io.2).stream with
  | none => exact hF.nullPointer
  | some c =>
    refine hF.bind (hF.modifyMmc fun s => modifyIo_buildreq s _ _) fun _ => ?_
    refine hF.bind (hF.ask E.recv) fun datagram => Within.ite (within_mmcServerFailure hF m io _ _) ?_
    refine Within.ite (within_mmcServerFailure hF m io _ _) ?_
    refine hF.bind (hF.modifyReq r _) fun _ => hF.bind (hF.getReq r) fun q => Within.ite ?_ ?_
    · exact hF.bind (hF.ask E.time) fun _ =>
        hF.bind (hF.modifyMmc fun s => modifyIo_buildreq s _ _) fun _ =>
          Within.ite (hF.pure _) (hF.pure _)
    · exact hF.bind (hF.modifyReq r _) fun _ =>
        hF.bind (hF.modifyMmc fun s => modifyIo_buildreq s _ _) fun _ => hF.pure _

theorem within_fillBuffer (m : Mmc) (r : ReqId) : Within R S (fillBuffer E m r) :=
  hF.bind (hF.getReq r) fun _ => Within.ite (within_mmcRequestReadUdp hF m r) (hF.pure _)

theorem within_parseReadreq (m : Mmc) (r : ReqId) : Within R S (parseReadreq E m r) := by
  refine hF.bind (within_ioOf hF r) fun io => hF.bind (hF.getMmc io.1) fun s => ?_
  cases (s.io io.2).stream with
  | none => exact hF.nullPointer
  | some c =>
    refine hF.bind (hF.ask E.parse) fun outcome => hF.bind (hF.getMmc io.1) fun s' => ?_
    refine hF.bind (hF.step trivial) fun _ => ?_
    refine hF.bind (hF.modifyMmc fun s => modifyIo_buildreq s _ _) fun _ => ?_
    refine hF.bind (hF.modifyReq r _) fun _ => hF.bind (hF.getReq r) fun q => ?_
    refine hF.bind (hF.modifyCall fun _ => rfl) fun _ => hF.bind (hF.doWhen ?_) fun _ => hF.pure _
    exact hF.bind (within_mmcServerFailure hF m io _ _) fun _ => hF.pure _

/-! ## Connections -/

/-- The parts of a frame that depend on how the build slots change: taking a server offline, opening a
    build slot, and rescheduling the keys of a multi-key get. `T` relates the worlds before and after a
    key is scheduled. -/
structure Builds (E : Env) (fuel : Nat) (R S T : World → World → Prop) : Prop where
  get : ∀ w w', R w w' → T w w'
  trans_get : ∀ w w' w'', R w w' → T w' w'' → T w w''
  get_trans : ∀ w w' w'', T w w' → R w' w'' → T w w''
  get_fail : ∀ w w' w'', T w w' → S w' w'' → S w w''
  takeOffline : ∀ m, Within R S (takeOffline E m)
  openBuild : ∀ fh m a key, (∀ r, Within R S (mmcPoolSchedule E fh m r)) →
    Within R S (mmcPoolSelect E fh fuel) → Within T S (openBuild E fuel fh m a key)
  valueFailover : ∀ fh r c, (∀ a zkey, Within T S (mmcPoolScheduleGet E fuel fh a zkey)) →
    Within R S (mmcValueFailoverHandler E fuel fh r c)

/-- Scheduling a key may keep no less than every other function. -/
theorem Builds.of_frame {fuel : Nat}
    (hoffline : ∀ m, Within R S (PeclMemcache.takeOffline E m))
    (hopen : ∀ fh m a key, (∀ r, Within R S (mmcPoolSchedule E fh m r)) →
      Within R S (mmcPoolSelect E fh fuel) →
      Within R S (PeclMemcache.openBuild E fuel fh m a key))
    (hvalue : ∀ fh r c, (∀ a zkey, Within R S (mmcPoolScheduleGet E fuel fh a zkey)) →
      Within R S (mmcValueFailoverHandler E fuel fh r c)) : Builds E fuel R S R where
  get _ _ := id
  trans_get := hF.trans
  get_trans := hF.trans
  get_fail := hF.trans_fail
  takeOffline := hoffline
  openBuild := hopen
  valueFailover := hvalue

variable {T : World → World → Prop} {fuel : Nat} (hB : Builds E fuel R S T) {fh : Failover}
  (hfh : ∀ m r, Within R S (fh m r))

include hB hfh

theorem within_mmcServerDeactivate (m : Mmc) : Within R S (mmcServerDeactivate E fh m) :=
  hF.bind (hB.takeOffline m) fun _ => hF.forEach (fun r => hF.bind (hfh m r) fun _ => hF.pure _) _

theorem within_mmcServerConnect (m : Mmc) (t : MmcProto) (cause : Option ReqId) :
    Within R S (mmcServerConnect E fh m t cause) := by
  refine hF.bind (hF.getMmc m) fun s => ?_
  refine hF.bind (hF.doWhen (hF.modifyMmc fun s => modifyIo_buildreq s _ _)) fun _ => ?_
  refine hF.bind (hF.ask _) fun c => ?_
  rcases c with ⟨c, _ | fd⟩
  · exact hF.bind (hF.step trivial) fun _ => hF.bind (within_mmcServerSeterror hF _ _ _) fun _ =>
      hF.bind (within_mmcServerDeactivate hF hB hfh m) fun _ => hF.pure _
  · refine hF.bind (hF.step trivial) fun _ => hF.bind (hF.modifyMmc fun s => ?_) fun _ => hF.pure _
    exact modifyIo_buildreq s _ _

theorem within_mmcPoolOpen (m : Mmc) (t : MmcProto) (cause : Option ReqId) :
    Within R S (mmcPoolOpen E fh m t cause) := by
  refine hF.bind (hF.getMmc m) fun s => ?_
  cases (s.io t).status with
  | connected => exact hF.pure _
  | unknown => exact hF.pure _
  | disconnected => exact within_mmcServerConnect hF hB hfh m t cause
  | failed => exact within_mmcServerConnect hF hB hfh m t cause

/-! ## Scheduling -/

theorem within_slotSendTcp (m : Mmc) (r : ReqId) (old : Option ReqId) (handleFailover : Bool) :
    Within R S (slotSendTcp E fh m r old handleFailover) := by
  refine hF.bind (within_mmcPoolOpen hF hB hfh m _ _) fun opened => Within.ite ?_ ?_
  · exact hF.bind (hF.modifyReq r _) fun _ => hF.bind (hF.step trivial) fun _ =>
      hF.bind (hF.modifyMmc fun _ => rfl) fun _ => hF.pure _
  · exact hF.bind (hF.step trivial) fun _ => hF.bind (hF.modifyMmc fun _ => rfl) fun _ =>
      Within.ite (hfh m r) (hF.pure _)

theorem within_mmcPoolSlotSend (m : Mmc) (request : Option ReqId) (handleFailover : Bool) :
    Within R S (mmcPoolSlotSend E fh m request handleFailover) := by
  have htake (r old : Option ReqId) : Within R S (takeSlot E m r old) :=
    hF.bind (hF.step trivial) fun _ => hF.bind (hF.modifyMmc fun _ => rfl) fun _ => hF.pure _
  refine hF.bind (hF.getMmc m) fun s => ?_
  cases request with
  | none => exact htake none s.sendreq
  | some r =>
    have htcp := within_slotSendTcp hF hB hfh m r s.sendreq handleFailover
    refine hF.bind (hF.getReq r) fun q => Within.ite ?_ htcp
    refine hF.bind (within_mmcPoolOpen hF hB hfh m _ _) fun opened => Within.ite ?_ htcp
    exact hF.bind (hF.getMmc m) fun s' => hF.bind (hF.modifyMmc fun _ => rfl) fun _ =>
      hF.bind (hF.modifyReq r _) fun _ => htake _ _

theorem within_mmcPoolSchedule (m : Mmc) (r : ReqId) : Within R S (mmcPoolSchedule E fh m r) := by
  refine hF.bind (hF.step trivial) fun _ => hF.bind (within_mmcServerValid hF m) fun valid => ?_
  refine Within.ite (hfh m r) (hF.bind (hF.modifyReq r _) fun _ => hF.bind (hF.getMmc m) fun s => ?_)
  refine Within.ite (hF.bind (within_mmcPoolSlotSend hF hB hfh m _ _) fun result => ?_) ?_
  · exact Within.ite (hfh m r) (hF.bind (hF.step trivial) fun _ =>
      hF.bind (hF.modifyPool fun _ => rfl) fun _ => within_scheduleRead hF m r)
  · exact hF.bind (hF.step trivial) fun _ => hF.bind (hF.modifyMmc fun _ => rfl) fun _ =>
      within_scheduleRead hF m r

theorem within_scheduleCopies (key : Bytes) (r : ReqId) (copies : Nat) (m : Mmc) (skip : List Mmc)
    (i : Nat) : Within R S (scheduleCopies E fh key r copies m skip i) := by
  induction copies generalizing m skip i with
  | zero => exact hF.pure _
  | succ copies ih =>
    refine hF.bind hF.getPool fun p => hF.bind (hF.step trivial) fun _ => ?_
    refine hF.bind (within_mmcServerValid hF _) fun valid => hF.bind (hF.doWhen ?_) fun _ => ih _ _ _
    exact hF.bind (within_mmcPoolCloneRequest hF r) fun clone =>
      hF.bind (within_mmcPoolSchedule hF hB hfh _ clone) fun _ => hF.pure _

theorem within_mmcPoolScheduleKey (key : Bytes) (r : ReqId) (redundancy : Nat) :
    Within R S (mmcPoolScheduleKey E fh key r redundancy) :=
  hF.bind (within_mmcPoolFind hF key) fun m =>
    hF.bind (within_mmcPoolSchedule hF hB hfh m r) fun _ =>
      hF.bind (hF.doWhen (hF.bind hF.getPool fun _ => within_scheduleCopies hF hB hfh _ _ _ _ _ _))
        fun _ => hF.pure _

/-! ## Rounds -/

theorem within_mmcSelectFailure (m : Mmc) (request : Option ReqId) (result : Int) :
    Within R S (mmcSelectFailure E fh m request result) := by
  have hdeactivate := within_mmcServerDeactivate hF hB hfh m
  refine Within.ite ?_ ?_
  · cases request with
    | none => exact hF.nullPointer
    | some r =>
      refine hF.bind (within_ioOf hF r) fun io => ?_
      refine hF.bind (within_mmcServerFailure hF m io _ _) fun outcome => ?_
      exact Within.ite (hF.pure _) (hF.bind hdeactivate fun _ => hF.pure _)
  · exact hF.bind (within_mmcServerSeterror hF m _ _) fun _ =>
      hF.bind hdeactivate fun _ => hF.pure _

theorem within_shiftSend (m : Mmc) : Within R S (shiftSend E fh m) :=
  hF.bind (hF.getMmc m) fun _ => hF.bind (hF.modifyMmc fun _ => rfl) fun _ =>
    hF.bind (within_mmcPoolSlotSend hF hB hfh m _ _) fun _ => hF.pure _

theorem within_mmcSelectRetry (site : RetrySite) (m : Mmc) (request : Option ReqId) :
    Within R S (mmcSelectRetry E fh site m request) := by
  cases request with
  | none => exact hF.nullPointer
  | some r =>
    refine hF.bind (hF.step trivial) fun _ => hF.bind (hF.modifyMmc fun _ => rfl) fun _ => ?_
    refine hF.bind (hF.getMmc m) fun s => hF.bind (hF.doWhen ?_) fun _ => ?_
    · exact hF.bind (within_shiftSend hF hB hfh m) fun _ => within_clearSending hF m
    · refine hF.bind (hF.getMmc m) fun s => hF.bind (hF.doWhen ?_) fun _ =>
        hF.bind (hfh m r) fun _ => hF.pure _
      exact hF.bind (within_shiftRead hF m) fun _ => hF.bind (hF.getMmc m) fun _ =>
        hF.doWhen (hF.modifyPool fun _ => rfl)

theorem within_timeoutLoop (api : SelectApi) (d : Direction) (b : Bool) (result : Int)
    (n i : Nat) : Within R S (timeoutLoop E fh api d b result n i) := by
  induction n generalizing i with
  | zero => exact hF.outOfFuel
  | succ n ih =>
    refine hF.bind hF.getPool fun p => ?_
    cases (p.queue d b)[i]? with
    | none => exact hF.pure _
    | some m =>
      refine hF.bind (within_timedOut hF api d m) fun expired => Within.ite ?_ (ih _)
      exact hF.bind (hF.modifyPool fun _ => rfl) fun _ => hF.bind (hF.getMmc m) fun _ =>
        hF.bind (within_mmcSelectFailure hF hB hfh m _ _) fun _ => hF.bind (hF.getMmc m) fun _ =>
          hF.bind (hF.doWhen (within_mmcSelectRetry hF hB hfh _ m _)) fun _ => ih _

theorem within_afterSend (b : Bool) (m : Mmc) (result : MmcResult) :
    Within R S (afterSend E fh b m result) := by
  cases result with
  | failure =>
    exact hF.bind (within_mmcServerDeactivate hF hB hfh m) fun _ => hF.bind (hF.step trivial) fun _ =>
      hF.modifyPool fun _ => rfl
  | retry => exact hF.bind (hF.getMmc m) fun _ => within_mmcSelectRetry hF hB hfh _ m _
  | done => exact within_shiftSend hF hB hfh m
  | more => exact hF.pure _
  | again => exact hF.pure _

theorem within_sendRequests (b : Bool) (m : Mmc) (n : Nat) :
    Within R S (sendRequests E fh b m n) := by
  induction n with
  | zero => exact hF.outOfFuel
  | succ n ih =>
    refine hF.bind (hF.getMmc m) fun s => ?_
    cases s.sendreq with
    | none => exact hF.nullPointer
    | some r =>
      refine hF.bind (within_mmcRequestSend hF m r) fun result => hF.bind hF.getPool fun p => ?_
      exact Within.ite (hF.pure _) (hF.bind (within_afterSend hF hB hfh b m result) fun _ =>
        hF.bind (hF.getMmc m) fun _ => Within.ite ih (hF.pure _))

theorem within_sendServer (api : SelectApi) (n : Nat) (b : Bool) (m : Mmc) :
    Within R S (sendServer E fh api n b m) := by
  refine hF.bind (hF.getMmc m) fun s => ?_
  cases s.sendreq with
  | none => exact hF.pure _
  | some r =>
    refine hF.bind (within_fdOf hF r) fun fd => hF.bind hF.getPool fun p => Within.ite ?_ ?_
    · refine hF.bind (hF.modifyPool fun _ => clearReady_pending _ _ _ _) fun _ => ?_
      refine hF.bind (within_sendRequests hF hB hfh b m n) fun result => ?_
      cases result with
      | none => exact hF.pure _
      | some result =>
        exact hF.bind (hF.doWhen (within_queueSending hF m)) fun _ => hF.pure _
    · exact hF.bind (within_queueSending hF m) fun _ => hF.pure _

theorem within_completeReadreq (m : Mmc) : Within R S (completeReadreq E fh m) := by
  refine hF.bind (hF.getMmc m) fun s => hF.bind (hF.doWhen ?_) fun _ => ?_
  · cases s.readreq with
    | none => exact hF.nullPointer
    | some r =>
      exact hF.bind (within_ioOf hF r) fun io => hF.bind (hF.step trivial) fun _ =>
        hF.bind (hF.modifyMmc fun s => modifyIo_buildreq s _ _) fun _ =>
          hF.bind (within_shiftSend hF hB hfh m) fun _ => within_clearSending hF m
  · exact hF.bind (hF.getMmc m) fun _ => hF.bind (within_mmcPoolRelease hF _) fun _ =>
      within_shiftRead hF m

theorem within_checkEof (m : Mmc) : Within R S (checkEof E fh m) := by
  refine hF.bind (hF.getMmc m) fun s => ?_
  cases s.readreq with
  | none => exact hF.nullPointer
  | some r =>
    refine hF.bind (within_ioOf hF r) fun io => hF.bind (hF.getMmc io.1) fun s' => ?_
    cases (s'.io io.2).stream with
    | none => exact hF.nullPointer
    | some c =>
      refine hF.bind (hF.ask E.eof) fun eof => Within.ite ?_ (hF.pure _)
      refine hF.bind (hF.step trivial) fun _ => ?_
      refine hF.bind (within_mmcServerFailure hF m io _ _) fun result => Within.ite ?_ ?_
      · exact hF.bind (within_mmcServerDeactivate hF hB hfh m) fun _ => hF.pure _
      · exact hF.bind (hF.getMmc m) fun _ =>
          hF.bind (within_mmcSelectRetry hF hB hfh _ m _) fun _ => hF.pure _

theorem within_afterParse (m : Mmc) (result : MmcResult) : Within R S (afterParse E fh m result) := by
  cases result with
  | failure => exact hF.bind (within_mmcServerDeactivate hF hB hfh m) fun _ => hF.pure _
  | retry =>
    exact hF.bind (hF.getMmc m) fun _ =>
      hF.bind (within_mmcSelectRetry hF hB hfh _ m _) fun _ => hF.pure _
  | done => exact hF.bind (within_completeReadreq hF hB hfh m) fun _ => hF.pure _
  | more => exact within_checkEof hF hB hfh m
  | again => exact hF.pure _

theorem within_readRequests (m : Mmc) (n : Nat) : Within R S (readRequests E fh m n) := by
  induction n with
  | zero => exact hF.outOfFuel
  | succ n ih =>
    refine hF.bind (hF.getMmc m) fun s => ?_
    cases s.readreq with
    | none => exact hF.nullPointer
    | some r =>
      refine hF.bind (within_parseReadreq hF m r) fun result => hF.bind hF.getPool fun p => ?_
      exact Within.ite (hF.pure _) (hF.bind (within_afterParse hF hB hfh m result) fun _ =>
        hF.bind (hF.getMmc m) fun _ => Within.ite ih (hF.pure _))

theorem within_afterRead (m : Mmc) (result : MmcResult) : Within R S (afterRead E fh m result) := by
  cases result with
  | failure => exact within_mmcServerDeactivate hF hB hfh m
  | retry => exact hF.bind (hF.getMmc m) fun _ => within_mmcSelectRetry hF hB hfh _ m _
  | more => exact within_queueReading hF m
  | done => exact hF.pure _
  | again => exact hF.pure _

theorem within_readServer (api : SelectApi) (n : Nat) (m : Mmc) :
    Within R S (readServer E fh api n m) := by
  refine hF.bind (hF.getMmc m) fun s => ?_
  cases s.readreq with
  | none => exact hF.pure _
  | some r =>
    refine hF.bind (within_fdOf hF r) fun fd => hF.bind hF.getPool fun p => Within.ite ?_ ?_
    · refine hF.bind (hF.modifyPool fun _ => clearReady_pending _ _ _ _) fun _ => ?_
      refine hF.bind (within_fillBuffer hF m r) fun filled => Within.ite ?_ ?_
      · exact hF.bind (within_afterRead hF hB hfh m filled) fun _ => hF.pure _
      · refine hF.bind (within_readRequests hF hB hfh m n) fun result => ?_
        cases result with
        | none => exact hF.pure _
        | some result => exact hF.bind (hF.doWhen (within_queueReading hF m)) fun _ => hF.pure _
    · exact hF.bind (within_queueReading hF m) fun _ => hF.pure _

theorem within_serveServer (api : SelectApi) (d : Direction) (b : Bool) (n : Nat) (m : Mmc) :
    Within R S (serveServer E fh api d b n m) := by
  cases d with
  | write => exact within_sendServer hF hB hfh api n b m
  | read => exact within_readServer hF hB hfh api n m

theorem within_serverLoop (api : SelectApi) (d : Direction) (b : Bool) (n i : Nat) :
    Within R S (serverLoop E fh api d b n i) := by
  induction n generalizing i with
  | zero => exact hF.outOfFuel
  | succ n ih =>
    refine hF.bind hF.getPool fun p => ?_
    cases (p.queue d b)[i]? with
    | none => exact hF.pure _
    | some m =>
      exact hF.bind (within_serveServer hF hB hfh api d b n m) fun _ => Within.ite (ih _) (hF.pure _)

theorem within_beginRound (api : SelectApi) (n : Nat) : Within R S (beginRound E fh api n) := by
  refine hF.bind hF.getPool fun p => Within.ite (hF.pure _) ?_
  refine hF.bind (hF.modifyPool fun _ => rfl) fun _ => hF.bind (within_waitReady hF api _) fun result => ?_
  refine hF.bind hF.getInTimeout fun outer => hF.bind (hF.setInTimeout true) fun _ => ?_
  refine hF.bind (hF.doWhen ?_) fun _ => ?_
  · exact hF.bind (within_timeoutLoop hF hB hfh api .write _ result n 0) fun _ =>
      within_timeoutLoop hF hB hfh api .read _ result n 0
  · exact hF.bind (hF.setInTimeout outer) fun _ => hF.bind (hF.modifyPool fun _ => rfl) fun _ =>
      hF.pure _

/-- **A round stays within the frame.** -/
theorem within_mmcPoolSelect (n : Nat) : Within R S (mmcPoolSelect E fh n) := by
  refine hF.bind (hF.step trivial) fun _ => hF.bind hF.getPool fun p => ?_
  refine hF.bind (within_beginRound hF hB hfh _ n) fun b => ?_
  refine hF.bind (within_serverLoop hF hB hfh _ .write b n 0) fun sent => hF.doWhen ?_
  exact hF.bind (within_serverLoop hF hB hfh _ .read b n 0) fun _ =>
    hF.doWhen (hF.modifyPool fun _ => rfl)

/-! ## Multi-key gets and failover handlers -/

omit hB hfh in
theorem within_endBuild (r : ReqId) : Within R S (endBuild r) :=
  hF.bind hF.getPool fun _ => hF.modifyReq r _

omit hB hfh in
theorem within_copyFailures (r : ReqId) (failed : Option ReqId) :
    Within R S (copyFailures r failed) := by
  cases failed with
  | none => exact hF.pure ()
  | some f => exact hF.bind (hF.getReq f) fun _ => hF.modifyReq r _

theorem within_mmcPoolScheduleGet (a : GetArgs) (zkey : ZKey) :
    Within T S (mmcPoolScheduleGet E fuel fh a zkey) := by
  intro w
  have hget {x : PoolM MmcResult} (hx : Within R S x) (w : World) :
      wp x (fun _ w' => T w w') (S w) w := wp_mono (hx w) (fun _ => hB.get w) fun _ => id
  unfold mmcPoolScheduleGet
  cases mmcPrepareKeyEx zkey.str E.keyPrefix with
  | none => exact hget (hF.pure _) w
  | some key =>
    dsimp only
    rw [wp_bind]
    refine wp_mono (within_mmcPoolFind hF key w) (fun m w₁ h₁ => ?_) fun _ => id
    rw [wp_bind]
    refine wp_mono (within_mmcServerValid hF m w₁) (fun valid w₂ h₂ => ?_) fun w₂ => hF.trans_fail _ _ _ h₁
    replace h₂ := hF.trans _ _ _ h₁ h₂
    refine wp_ite (fun _ => (wp_pure _ _ _ _).mpr (hB.get _ _ h₂)) fun _ => ?_
    rw [wp_bind]
    refine wp_mono (hB.openBuild fh m a key (within_mmcPoolSchedule hF hB hfh m)
      (within_mmcPoolSelect hF hB hfh fuel) w₂) (fun _ w₃ h₃ => ?_) fun w₃ => hF.trans_fail _ _ _ h₂
    replace h₃ := hB.trans_get _ _ _ h₂ h₃
    have happend : Within R S (appendBuild m zkey key) := by
      refine hF.bind (hF.getMmc m) fun s => ?_
      cases s.buildreq with
      | none => exact hF.nullPointer
      | some r => exact hF.bind hF.getPool fun _ => hF.bind (hF.modifyReq r _) fun _ => hF.pure _
    exact wp_mono (happend w₃) (fun _ w₄ => hB.get_trans _ _ _ h₃) fun w₄ => hB.get_fail _ _ _ h₃

omit hB hfh in
theorem within_failoverTarget (r : ReqId) (bound : Nat) (m : Mmc) :
    Within R S (failoverTarget E r bound m) := by
  induction bound generalizing m with
  | zero =>
    exact hF.bind (hF.modifyReq r _) fun _ => hF.bind hF.getPool fun _ => hF.bind (hF.getReq r) fun _ =>
      hF.bind (hF.modifyReq r _) fun _ => hF.bind (within_mmcServerValid hF _) fun _ => hF.pure _
  | succ bound ih =>
    exact hF.bind (hF.modifyReq r _) fun _ => hF.bind hF.getPool fun _ => hF.bind (hF.getReq r) fun _ =>
      hF.bind (hF.modifyReq r _) fun _ => hF.bind (within_mmcServerValid hF _) fun _ =>
        Within.ite (ih _) (hF.pure _)

theorem within_mmcPoolFailoverHandler (m : Mmc) (r : ReqId) :
    Within R S (mmcPoolFailoverHandler E fh m r) := by
  refine hF.bind (hF.getReq r) fun q => hF.bind hF.getPool fun p => Within.ite ?_ ?_
  · exact hF.bind (within_failoverTarget hF r _ m) fun _ => within_mmcPoolSchedule hF hB hfh _ r
  · exact hF.bind (within_mmcPoolRelease hF _) fun _ => hF.pure _

omit hfh in
/-- **Every call of a failover handler stays within the frame**, however deep the handlers nest. -/
theorem within_failoverHandler (depth : Nat) (m : Mmc) (r : ReqId) :
    Within R S (failoverHandler E fuel depth m r) := by
  induction depth generalizing m r with
  | zero => exact hF.outOfFuel
  | succ depth ih =>
    refine hF.bind (hF.step trivial) fun _ => hF.bind (hF.getReq r) fun q => ?_
    cases q.failoverHandler with
    | null => exact hF.bind (within_mmcPoolRelease hF _) fun _ => hF.pure _
    | pool => exact within_mmcPoolFailoverHandler hF hB ih m r
    | value c =>
      exact hB.valueFailover _ r c fun a zkey => within_mmcPoolScheduleGet hF hB ih a zkey

end Functions

end PeclMemcache
