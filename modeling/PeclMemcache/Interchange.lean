import PeclMemcache.Selectors

set_option autoImplicit false

/-! # `poll` does what `select` does

Function by function, the pool that asks with `poll()` does what the one that asks with `select()` does
(`mmcPoolSelect_lockstep`), and so does every sequence of operations on it. Only the functions of a round
look at the descriptors; of the others it is enough that they do not (`Blind`). -/

namespace PeclMemcache

open Stateful

@[simp]
theorem withSelector_freeRequests (p q : MmcPool) : (p.withSelector q).freeRequests = p.freeRequests := rfl

@[simp]
theorem withSelector_pending (p q : MmcPool) : (p.withSelector q).pending = p.pending := rfl

@[simp]
theorem withSelector_queue (p q : MmcPool) (d : Direction) (b : Bool) :
    (p.withSelector q).queue d b = p.queue d b := by
  cases d <;> rfl

@[simp]
theorem withSelector_selectApi (p q : MmcPool) : (p.withSelector q).selectApi = q.selectApi := rfl

section Functions

variable {E : Env} (hE : Interchangeable E) {b : Bool}

/-! ## Requests -/

theorem blind_ioOf (r : ReqId) : Blind b (ioOf r) := by
  refine Lockstep.bind (.getReq r) fun q => ?_
  cases q.io with
  | none => exact .nullPointer
  | some io => exact .pure io

theorem blind_fdOf (r : ReqId) : Blind b (fdOf r) :=
  (blind_ioOf r).bind fun io => Lockstep.bind (.getMmc io.1) fun _ => .pure _

theorem blind_mmcServerSeterror (m : Mmc) (error : String) (errnum : Int) :
    Blind b (mmcServerSeterror m error errnum) := .modifyMmc m _

theorem blind_mmcServerFailure (m : Mmc) (io : Mmc × MmcProto) (error : String) (errnum : Int) :
    Blind b (mmcServerFailure m io error errnum) := by
  refine Lockstep.bind (.getMmc io.1) fun s => Lockstep.bind (.modifyMmc io.1 _) fun _ => ?_
  exact (Lockstep.doWhen (blind_mmcServerSeterror m error errnum)).bind fun _ => .pure _

theorem blind_mmcServerValid (m : Mmc) : Blind b (mmcServerValid E m) := by
  refine Lockstep.bind (.getMmc m) fun s => .ite (.pure _) (.ite (.pure _) ?_)
  exact Lockstep.bind (.ask E.time) fun _ => .pure _

theorem blind_findValidFrom (key : Bytes) (fuel i : Nat) : Blind b (findValidFrom E key fuel i) := by
  induction fuel generalizing i with
  | zero => exact .getPool fun p q _ => (blind_mmcServerValid _).bind fun _ => .pure _
  | succ fuel ih =>
    exact .getPool fun p q _ => (blind_mmcServerValid _).bind fun _ => .ite (ih _) (.pure _)

theorem blind_mmcPoolFind (key : Bytes) : Blind b (mmcPoolFind E key) :=
  .getPool fun _ _ _ => (blind_mmcServerValid _).bind fun _ => .ite (blind_findValidFrom key _ _) (.pure _)

theorem blind_popFreeRequest : Blind b popFreeRequest := by
  refine .getPool fun p q _ => ?_
  rw [withSelector_freeRequests]
  rcases p.freeRequests with _ | ⟨_ | r, rest⟩
  · exact .newRequest
  · exact Lockstep.bind (.modifyPool fun _ _ => rfl) fun _ => .newRequest
  · exact Lockstep.bind (.modifyPool fun _ _ => rfl) fun _ => Lockstep.bind (.modifyReq r _) fun _ => .pure _

theorem blind_scheduleRead (m : Mmc) (r : ReqId) : Blind b (scheduleRead m r) := by
  refine Lockstep.bind (.getMmc m) fun s => .ite ?_ ?_
  · exact Lockstep.bind (.modifyMmc m _) fun _ => Lockstep.bind (.modifyPool fun _ _ => rfl) fun _ => .pure _
  · exact Lockstep.bind (.modifyMmc m _) fun _ => .pure _

theorem blind_slotFds (d : Direction) (ms : List Mmc) : Blind b (slotFds d ms) := by
  induction ms with
  | nil => exact .pure _
  | cons m rest ih =>
    refine Lockstep.bind (.getMmc m) fun s => ?_
    cases s.slot d with
    | none => exact .nullPointer
    | some r => exact (blind_fdOf r).bind fun _ => ih.bind fun _ => .pure _

theorem blind_clearSending (m : Mmc) : Blind b (clearSending m) :=
  Lockstep.bind (.getMmc m) fun _ => .doWhen (.modifyPool fun _ _ => rfl)

theorem blind_queueSending (m : Mmc) : Blind b (queueSending m) := .modifyPool fun _ _ => rfl

theorem blind_queueReading (m : Mmc) : Blind b (queueReading m) := .modifyPool fun _ _ => rfl

theorem blind_mmcRequestReadUdp (m : Mmc) (r : ReqId) : Blind b (mmcRequestReadUdp E m r) := by
  refine (blind_ioOf r).bind fun io => Lockstep.bind (.getMmc io.1) fun s => ?_
  cases (s.io io.2).stream with
  | none => exact .nullPointer
  | some c =>
    refine Lockstep.bind (.modifyMmc io.1 _) fun _ => Lockstep.bind (.ask E.recv) fun datagram => ?_
    refine .ite (blind_mmcServerFailure m io _ _) (.ite (blind_mmcServerFailure m io _ _) ?_)
    refine Lockstep.bind (.modifyReq r _) fun _ => Lockstep.bind (.getReq r) fun q => .ite ?_ ?_
    · exact Lockstep.bind (.ask E.time) fun _ => Lockstep.bind (.modifyMmc io.1 _) fun _ =>
        .ite (.pure _) (.pure _)
    · exact Lockstep.bind (.modifyReq r _) fun _ => Lockstep.bind (.modifyMmc io.1 _) fun _ => .pure _

theorem blind_fillBuffer (m : Mmc) (r : ReqId) : Blind b (fillBuffer E m r) :=
  Lockstep.bind (.getReq r) fun _ => .ite (blind_mmcRequestReadUdp m r) (.pure _)

theorem blind_copyFailures (r : ReqId) (failed : Option ReqId) : Blind b (copyFailures r failed) := by
  cases failed with
  | none => exact .pure ()
  | some f => exact Lockstep.bind (.getReq f) fun _ => .modifyReq r _

theorem blind_endBuild (r : ReqId) : Blind b (endBuild r) := .getPool fun _ _ _ => .modifyReq r _

theorem blind_appendBuild (m : Mmc) (zkey : ZKey) (key : Bytes) : Blind b (appendBuild m zkey key) := by
  refine Lockstep.bind (.getMmc m) fun s => ?_
  cases s.buildreq with
  | none => exact .nullPointer
  | some r => exact .getPool fun _ _ _ => Lockstep.bind (.modifyReq r _) fun _ => .pure _

theorem blind_failoverTarget (r : ReqId) (bound : Nat) (m : Mmc) :
    Blind b (failoverTarget E r bound m) := by
  induction bound generalizing m with
  | zero =>
    refine Lockstep.bind (.modifyReq r _) fun _ => .getPool fun p q _ => ?_
    refine Lockstep.bind (.getReq r) fun _ => Lockstep.bind (.modifyReq r _) fun _ => ?_
    exact (blind_mmcServerValid _).bind fun _ => .pure _
  | succ bound ih =>
    refine Lockstep.bind (.modifyReq r _) fun _ => .getPool fun p q _ => ?_
    refine Lockstep.bind (.getReq r) fun _ => Lockstep.bind (.modifyReq r _) fun _ => ?_
    exact (blind_mmcServerValid _).bind fun _ => .ite (ih _) (.pure _)

/-! ## What is recorded -/

include hE

theorem blind_mmcPoolRelease (r : Option ReqId) : Blind b (mmcPoolRelease E r) := by
  have hnote : Blind b (noteRelease E r) := by
    cases r with
    | none => exact .pure ()
    | some r => exact .step hE _
  exact hnote.bind fun _ => .modifyPool fun _ _ => rfl

theorem blind_mmcPoolRequestAlloc (protocol : MmcProto) (failover : FailoverHandler) :
    Blind b (mmcPoolRequestAlloc E protocol failover) :=
  blind_popFreeRequest.bind fun r => Lockstep.bind (.step hE _) fun _ =>
    Lockstep.bind (.modifyReq r _) fun _ => .pure r

theorem blind_mmcPoolRequest (protocol : MmcProto) (responseHandler : ResponseHandler) (call : Nat)
    (failover : FailoverHandler) : Blind b (mmcPoolRequest E protocol responseHandler call failover) :=
  (blind_mmcPoolRequestAlloc hE protocol failover).bind fun r =>
    Lockstep.bind (.modifyReq r _) fun _ => .pure r

theorem blind_mmcPoolRequestGet (protocol : MmcProto) (valueHandler : Option ValueHandler) (call : Nat)
    (failover : FailoverHandler) : Blind b (mmcPoolRequestGet E protocol valueHandler call failover) :=
  (blind_mmcPoolRequest hE protocol .null call failover).bind fun r =>
    Lockstep.bind (.modifyReq r _) fun _ => .pure r

theorem blind_mmcPoolCloneRequest (r : ReqId) : Blind b (mmcPoolCloneRequest E r) := by
  refine Lockstep.bind (.getReq r) fun q => (blind_mmcPoolRequestAlloc hE _ _).bind fun clone => ?_
  refine Lockstep.bind (.getReq r) fun q => .getPool fun _ _ _ => ?_
  refine Lockstep.bind (.modifyReq clone _) fun _ => Lockstep.bind (.getReq clone) fun _ => ?_
  exact Lockstep.bind (.step hE _) fun _ => .pure clone

theorem blind_takeOffline (m : Mmc) : Blind b (takeOffline E m) := by
  refine Lockstep.bind (.step hE _) fun _ => Lockstep.bind (.ask E.time) fun _ => ?_
  refine Lockstep.bind (.modifyMmc m _) fun _ => Lockstep.bind (.modifyPool fun _ _ => rfl) fun _ => ?_
  exact Lockstep.bind (.getMmc m) fun _ => Lockstep.bind (.modifyMmc m _) fun _ => .pure _

theorem blind_takeSlot (m : Mmc) (r old : Option ReqId) : Blind b (takeSlot E m r old) :=
  Lockstep.bind (.step hE _) fun _ => Lockstep.bind (.modifyMmc m _) fun _ => .pure _

theorem blind_mmcRequestSend (m : Mmc) (r : ReqId) : Blind b (mmcRequestSend E m r) := by
  refine (blind_ioOf r).bind fun io => Lockstep.bind (.getMmc io.1) fun s => ?_
  cases (s.io io.2).stream with
  | none => exact .nullPointer
  | some c =>
    refine Lockstep.bind (.ask E.send) fun outcome => ?_
    cases outcome with
    | bytes n =>
      exact Lockstep.bind (.getReq r) fun q => Lockstep.bind (.step hE _) fun _ =>
        Lockstep.bind (.modifyReq r _) fun _ => .ite (.pure _) (.pure _)
    | eagain => exact .pure _
    | error errnum => exact blind_mmcServerFailure m io _ _

theorem blind_parseReadreq (m : Mmc) (r : ReqId) : Blind b (parseReadreq E m r) := by
  refine (blind_ioOf r).bind fun io => Lockstep.bind (.getMmc io.1) fun s => ?_
  cases (s.io io.2).stream with
  | none => exact .nullPointer
  | some c =>
    refine Lockstep.bind (.ask E.parse) fun outcome => Lockstep.bind (.getMmc io.1) fun s' => ?_
    refine Lockstep.bind (.step hE _) fun _ => Lockstep.bind (.modifyMmc io.1 _) fun _ => ?_
    refine Lockstep.bind (.modifyReq r _) fun _ => Lockstep.bind (.getReq r) fun q => ?_
    refine Lockstep.bind (.modifyCall q.call _) fun _ => Lockstep.bind (.doWhen ?_) fun _ => .pure _
    exact (blind_mmcServerFailure m io _ _).bind fun _ => .pure _

theorem blind_beginBuild (m : Mmc) (a : GetArgs) : Blind b (beginBuild E m a) := by
  refine (blind_mmcPoolRequestGet hE _ _ _ _).bind fun r => Lockstep.bind (.step hE _) fun _ => ?_
  refine Lockstep.bind (.modifyMmc m _) fun _ => (blind_copyFailures r _).bind fun _ => ?_
  exact .getPool fun _ _ _ => .modifyReq r _

theorem blind_makeRequest (a : RequestArgs) : Blind b (makeRequest E a) :=
  (blind_mmcPoolRequest hE _ _ _ _).bind fun r => Lockstep.bind (.modifyReq r _) fun _ => .pure r

/-! ## Connections and scheduling -/

variable {fh : Failover} (hfh : ∀ m r, Blind b (fh m r))

include hfh

theorem blind_mmcServerDeactivate (m : Mmc) : Blind b (mmcServerDeactivate E fh m) :=
  (blind_takeOffline hE m).bind fun _ => .forEach (fun r => (hfh m r).bind fun _ => .pure _) _

theorem blind_mmcServerConnect (m : Mmc) (t : MmcProto) (cause : Option ReqId) :
    Blind b (mmcServerConnect E fh m t cause) := by
  refine Lockstep.bind (.getMmc m) fun s => Lockstep.bind (.doWhen (.modifyMmc m _)) fun _ => ?_
  refine Lockstep.bind (.ask _) fun c => ?_
  rcases c with ⟨c, _ | fd⟩
  · exact Lockstep.bind (.step hE _) fun _ => (blind_mmcServerSeterror m _ _).bind fun _ =>
      (blind_mmcServerDeactivate hE hfh m).bind fun _ => .pure _
  · exact Lockstep.bind (.step hE _) fun _ => Lockstep.bind (.modifyMmc m _) fun _ => .pure _

theorem blind_mmcPoolOpen (m : Mmc) (t : MmcProto) (cause : Option ReqId) :
    Blind b (mmcPoolOpen E fh m t cause) := by
  refine Lockstep.bind (.getMmc m) fun s => ?_
  cases (s.io t).status with
  | connected => exact .pure _
  | unknown => exact .pure _
  | disconnected => exact blind_mmcServerConnect hE hfh m t cause
  | failed => exact blind_mmcServerConnect hE hfh m t cause

theorem blind_slotSendTcp (m : Mmc) (r : ReqId) (old : Option ReqId) (handleFailover : Bool) :
    Blind b (slotSendTcp E fh m r old handleFailover) := by
  refine (blind_mmcPoolOpen hE hfh m _ _).bind fun opened => .ite ?_ ?_
  · exact Lockstep.bind (.modifyReq r _) fun _ => blind_takeSlot hE m _ _
  · exact Lockstep.bind (.step hE _) fun _ => Lockstep.bind (.modifyMmc m _) fun _ =>
      .ite (hfh m r) (.pure _)

theorem blind_mmcPoolSlotSend (m : Mmc) (request : Option ReqId) (handleFailover : Bool) :
    Blind b (mmcPoolSlotSend E fh m request handleFailover) := by
  refine Lockstep.bind (.getMmc m) fun s => ?_
  cases request with
  | none => exact blind_takeSlot hE m none s.sendreq
  | some r =>
    have htcp := blind_slotSendTcp hE hfh m r s.sendreq handleFailover
    refine Lockstep.bind (.getReq r) fun q => .ite ?_ htcp
    refine (blind_mmcPoolOpen hE hfh m _ _).bind fun opened => .ite ?_ htcp
    exact Lockstep.bind (.getMmc m) fun _ => Lockstep.bind (.modifyMmc m _) fun _ =>
      Lockstep.bind (.modifyReq r _) fun _ => blind_takeSlot hE m _ _

theorem blind_mmcPoolSchedule (m : Mmc) (r : ReqId) : Blind b (mmcPoolSchedule E fh m r) := by
  refine Lockstep.bind (.step hE _) fun _ => (blind_mmcServerValid m).bind fun valid => ?_
  refine .ite (hfh m r) (Lockstep.bind (.modifyReq r _) fun _ => Lockstep.bind (.getMmc m) fun s => ?_)
  refine .ite ((blind_mmcPoolSlotSend hE hfh m _ _).bind fun result => .ite (hfh m r) ?_) ?_
  · exact Lockstep.bind (.step hE _) fun _ => Lockstep.bind (.modifyPool fun _ _ => rfl) fun _ =>
      blind_scheduleRead m r
  · exact Lockstep.bind (.step hE _) fun _ => Lockstep.bind (.modifyMmc m _) fun _ =>
      blind_scheduleRead m r

theorem blind_scheduleCopies (key : Bytes) (r : ReqId) (copies : Nat) (m : Mmc) (skip : List Mmc)
    (i : Nat) : Blind b (scheduleCopies E fh key r copies m skip i) := by
  induction copies generalizing m skip i with
  | zero => exact .pure _
  | succ copies ih =>
    refine .getPool fun p q _ => Lockstep.bind (.step hE _) fun _ => ?_
    refine (blind_mmcServerValid _).bind fun valid => Lockstep.bind (.doWhen ?_) fun _ => ih _ _ _
    exact (blind_mmcPoolCloneRequest hE r).bind fun clone =>
      (blind_mmcPoolSchedule hE hfh _ clone).bind fun _ => .pure _

theorem blind_mmcPoolScheduleKey (key : Bytes) (r : ReqId) (redundancy : Nat) :
    Blind b (mmcPoolScheduleKey E fh key r redundancy) := by
  refine (blind_mmcPoolFind key).bind fun m => (blind_mmcPoolSchedule hE hfh m r).bind fun result => ?_
  refine Lockstep.bind (.doWhen ?_) fun _ => .pure result
  exact .getPool fun p q _ => blind_scheduleCopies hE hfh key r _ m [] 0

theorem blind_mmcPoolFailoverHandler (m : Mmc) (r : ReqId) :
    Blind b (mmcPoolFailoverHandler E fh m r) := by
  refine Lockstep.bind (.getReq r) fun q => .getPool fun p q' _ => .ite ?_ ?_
  · exact (blind_failoverTarget r _ m).bind fun m => blind_mmcPoolSchedule hE hfh m r
  · exact (blind_mmcPoolRelease hE _).bind fun _ => .pure _

/-! ## Sending and reading -/

theorem blind_shiftSend (m : Mmc) : Blind b (shiftSend E fh m) :=
  Lockstep.bind (.getMmc m) fun _ => Lockstep.bind (.modifyMmc m _) fun _ =>
    (blind_mmcPoolSlotSend hE hfh m _ _).bind fun _ => .pure _

theorem blind_mmcSelectFailure (m : Mmc) (request : Option ReqId) (result : Int) :
    Blind b (mmcSelectFailure E fh m request result) := by
  have hdeactivate := blind_mmcServerDeactivate hE hfh m
  refine .ite ?_ ((blind_mmcServerSeterror m _ _).bind fun _ => hdeactivate.bind fun _ => .pure _)
  cases request with
  | none => exact .nullPointer
  | some r =>
    refine (blind_ioOf r).bind fun io => (blind_mmcServerFailure m io _ _).bind fun outcome => ?_
    exact .ite (.pure _) (hdeactivate.bind fun _ => .pure _)

theorem blind_mmcSelectRetry (site : RetrySite) (m : Mmc) (request : Option ReqId) :
    Blind b (mmcSelectRetry E fh site m request) := by
  cases request with
  | none => exact .nullPointer
  | some r =>
    refine Lockstep.bind (.step hE _) fun _ => Lockstep.bind (.modifyMmc m _) fun _ => ?_
    refine Lockstep.bind (.getMmc m) fun s => Lockstep.bind (.doWhen ?_) fun _ => ?_
    · exact (blind_shiftSend hE hfh m).bind fun _ => blind_clearSending m
    · refine Lockstep.bind (.getMmc m) fun s => Lockstep.bind (.doWhen ?_) fun _ =>
        (hfh m r).bind fun _ => .pure _
      exact Lockstep.bind (.modifyMmc m _) fun _ => Lockstep.bind (.getMmc m) fun _ =>
        .doWhen (.modifyPool fun _ _ => rfl)

theorem blind_afterSend (c : Bool) (m : Mmc) (result : MmcResult) :
    Blind b (afterSend E fh c m result) := by
  cases result with
  | failure =>
    exact (blind_mmcServerDeactivate hE hfh m).bind fun _ => Lockstep.bind (.step hE _) fun _ =>
      .modifyPool fun _ _ => rfl
  | retry => exact Lockstep.bind (.getMmc m) fun _ => blind_mmcSelectRetry hE hfh _ m _
  | done => exact blind_shiftSend hE hfh m
  | more => exact .pure _
  | again => exact .pure _

theorem blind_sendRequests (c : Bool) (m : Mmc) (n : Nat) : Blind b (sendRequests E fh c m n) := by
  induction n with
  | zero => exact .outOfFuel
  | succ n ih =>
    refine Lockstep.bind (.getMmc m) fun s => ?_
    cases s.sendreq with
    | none => exact .nullPointer
    | some r =>
      refine (blind_mmcRequestSend hE m r).bind fun result => .getPool fun p q _ => .ite (.pure _) ?_
      exact (blind_afterSend hE hfh c m result).bind fun _ =>
        Lockstep.bind (.getMmc m) fun _ => .ite ih (.pure _)

theorem blind_completeReadreq (m : Mmc) : Blind b (completeReadreq E fh m) := by
  refine Lockstep.bind (.getMmc m) fun s => Lockstep.bind (.doWhen ?_) fun _ => ?_
  · cases s.readreq with
    | none => exact .nullPointer
    | some r =>
      refine (blind_ioOf r).bind fun io => Lockstep.bind (.step hE _) fun _ => ?_
      exact Lockstep.bind (.modifyMmc m _) fun _ =>
        (blind_shiftSend hE hfh m).bind fun _ => blind_clearSending m
  · exact Lockstep.bind (.getMmc m) fun _ => (blind_mmcPoolRelease hE _).bind fun _ => .modifyMmc m _

theorem blind_checkEof (m : Mmc) : Blind b (checkEof E fh m) := by
  refine Lockstep.bind (.getMmc m) fun s => ?_
  cases s.readreq with
  | none => exact .nullPointer
  | some r =>
    refine (blind_ioOf r).bind fun io => Lockstep.bind (.getMmc io.1) fun s' => ?_
    cases (s'.io io.2).stream with
    | none => exact .nullPointer
    | some c =>
      refine Lockstep.bind (.ask E.eof) fun eof => .ite (Lockstep.bind (.step hE _) fun _ => ?_) (.pure _)
      refine (blind_mmcServerFailure m io _ _).bind fun result => .ite ?_ ?_
      · exact (blind_mmcServerDeactivate hE hfh m).bind fun _ => .pure _
      · exact Lockstep.bind (.getMmc m) fun _ =>
          (blind_mmcSelectRetry hE hfh _ m _).bind fun _ => .pure _

theorem blind_afterParse (m : Mmc) (result : MmcResult) : Blind b (afterParse E fh m result) := by
  cases result with
  | failure => exact (blind_mmcServerDeactivate hE hfh m).bind fun _ => .pure _
  | retry =>
    exact Lockstep.bind (.getMmc m) fun _ => (blind_mmcSelectRetry hE hfh _ m _).bind fun _ => .pure _
  | done => exact (blind_completeReadreq hE hfh m).bind fun _ => .pure _
  | more => exact blind_checkEof hE hfh m
  | again => exact .pure _

theorem blind_readRequests (m : Mmc) (n : Nat) : Blind b (readRequests E fh m n) := by
  induction n with
  | zero => exact .outOfFuel
  | succ n ih =>
    refine Lockstep.bind (.getMmc m) fun s => ?_
    cases s.readreq with
    | none => exact .nullPointer
    | some r =>
      refine (blind_parseReadreq hE m r).bind fun result => .getPool fun p q _ => .ite (.pure _) ?_
      exact (blind_afterParse hE hfh m result).bind fun _ =>
        Lockstep.bind (.getMmc m) fun _ => .ite ih (.pure _)

theorem blind_afterRead (m : Mmc) (result : MmcResult) : Blind b (afterRead E fh m result) := by
  cases result with
  | failure => exact blind_mmcServerDeactivate hE hfh m
  | retry => exact Lockstep.bind (.getMmc m) fun _ => blind_mmcSelectRetry hE hfh _ m _
  | more => exact blind_queueReading m
  | done => exact .pure _
  | again => exact .pure _

/-! ## The loops of a round -/

omit hE hfh in
/-- A descriptor that is ready is taken out of what the pool keeps. -/
theorem lockstep_clearReady (d : Direction) (fd : Nat) :
    Lockstep b (modifyPool fun p => p.clearReady .select d fd)
      (modifyPool fun p => p.clearReady .poll d fd) := by
  rintro w _ ⟨⟨q, hq, rfl⟩, hin, hquiet⟩
  refine .ok ⟨⟨q.clearReady .poll d fd, hq.clearReady d fd, ?_⟩, hin, fun hb d' fd' => ?_⟩
  · cases d <;> rfl
  · rw [← Bool.not_eq_true, ready_clearReady_select, hquiet hb]
    simp

theorem lockstep_sendServer (n : Nat) (c : Bool) (m : Mmc) :
    Lockstep b (sendServer E fh .select n c m) (sendServer E fh .poll n c m) := by
  refine Lockstep.bind (.getMmc m) fun s => ?_
  cases s.sendreq with
  | none => exact .pure _
  | some r =>
    refine (blind_fdOf r).bind fun fd => .getPool fun p q hq => ?_
    change Lockstep b _ (if q.ready .poll .write fd = true then _ else _)
    rw [hq.ready]
    refine .ite ((lockstep_clearReady .write fd).bind fun _ => ?_) ?_
    · refine (blind_sendRequests hE hfh c m n).bind fun result => ?_
      cases result with
      | none => exact .pure _
      | some result => exact (Lockstep.doWhen (blind_queueSending m)).bind fun _ => .pure _
    · exact (blind_queueSending m).bind fun _ => .pure _

theorem lockstep_readServer (n : Nat) (m : Mmc) :
    Lockstep b (readServer E fh .select n m) (readServer E fh .poll n m) := by
  refine Lockstep.bind (.getMmc m) fun s => ?_
  cases s.readreq with
  | none => exact .pure _
  | some r =>
    refine (blind_fdOf r).bind fun fd => .getPool fun p q hq => ?_
    change Lockstep b _ (if q.ready .poll .read fd = true then _ else _)
    rw [hq.ready]
    refine .ite ((lockstep_clearReady .read fd).bind fun _ => ?_) ?_
    · refine (blind_fillBuffer m r).bind fun filled => ?_
      refine .ite ((blind_afterRead hE hfh m filled).bind fun _ => .pure _) ?_
      refine (blind_readRequests hE hfh m n).bind fun result => ?_
      cases result with
      | none => exact .pure _
      | some result => exact (Lockstep.doWhen (blind_queueReading m)).bind fun _ => .pure _
    · exact (blind_queueReading m).bind fun _ => .pure _

theorem lockstep_serverLoop (d : Direction) (c : Bool) (n i : Nat) :
    Lockstep b (serverLoop E fh .select d c n i) (serverLoop E fh .poll d c n i) := by
  induction n generalizing i with
  | zero => exact .outOfFuel
  | succ n ih =>
    refine .getPool fun p q _ => ?_
    rw [withSelector_queue]
    cases (p.queue d c)[i]? with
    | none => exact .pure _
    | some m =>
      have hserve : Lockstep b (serveServer E fh .select d c n m) (serveServer E fh .poll d c n m) := by
        cases d with
        | write => exact lockstep_sendServer hE hfh n c m
        | read => exact lockstep_readServer hE hfh n m
      exact hserve.bind fun proceed => .ite (ih _) (.pure _)

end Functions

/-! ## Timeouts -/

/-- The request in the slot has a stream. -/
def World.HasStream (w : World) (d : Direction) (m : Mmc) : Prop :=
  ∃ r io, (w.mmc m).slot d = some r ∧ (w.req r).io = some io

/-- Where nothing is ready, the loop for `select()` gives up on every server. -/
theorem timedOut_select {d : Direction} {m : Mmc} {w : World} (hquiet : w.pool.Quiet)
    (hstream : w.HasStream d m) : timedOut .select d m w = (.ok true, w) := by
  obtain ⟨r, io, hslot, hio⟩ := hstream
  have hwp : wp (timedOut .select d m) (fun a w' => a = true ∧ w' = w) (fun _ => False) w := by
    simp only [timedOut, fdOf, ioOf, wp_bind, wp_getMmc, hslot, wp_getReq, hio, wp_pure, wp_getPool]
    exact ⟨by rw [hquiet]; rfl, trivial⟩
  obtain ⟨_, _, hrun, rfl, rfl⟩ := exists_of_wp hwp
  exact hrun

theorem ioOf_fails {d : Direction} {m : Mmc} {r : ReqId} {w : World} (h : ¬ w.HasStream d m)
    (hslot : (w.mmc m).slot d = some r) : FailsWith .nullPointer (ioOf r) w := by
  have hio : (w.req r).io = none := by
    by_contra hne
    obtain ⟨io, hio⟩ := Option.ne_none_iff_exists'.mp hne
    exact h ⟨r, io, hslot, hio⟩
  unfold ioOf
  refine FailsWith.after (show getReq r w = (.ok (w.req r), w) from rfl) ?_
  rw [hio]
  exact ⟨w, rfl⟩

/-- Without a stream both crash, the loop for `poll()` a little later. -/
theorem timedOut_select_fails {d : Direction} {m : Mmc} {w : World} (h : ¬ w.HasStream d m) :
    FailsWith .nullPointer (timedOut .select d m) w := by
  rw [timedOut]
  refine FailsWith.after (show getMmc m w = (.ok (w.mmc m), w) from rfl) ?_
  cases hslot : (w.mmc m).slot d with
  | none => exact ⟨w, rfl⟩
  | some r =>
    exact ((ioOf_fails h hslot).bind _).bind _

theorem mmcSelectFailure_fails (E : Env) (fh : Failover) {d : Direction} {m : Mmc} {w : World}
    (h : ¬ w.HasStream d m) :
    FailsWith .nullPointer (mmcSelectFailure E fh m ((w.mmc m).slot d) 0) w := by
  unfold mmcSelectFailure
  rw [if_pos rfl]
  cases hslot : (w.mmc m).slot d with
  | none => exact ⟨w, rfl⟩
  | some r =>
    exact (ioOf_fails h hslot).bind _

section Rounds

variable {E : Env} (hE : Interchangeable E) {fh : Failover} (hfh : ∀ b m r, Blind b (fh m r)) {b : Bool}

include hE hfh

theorem lockstep_timeoutLoop (d : Direction) (c : Bool) (n i : Nat) :
    Lockstep true (timeoutLoop E fh .select d c 0 n i) (timeoutLoop E fh .poll d c 0 n i) := by
  induction n generalizing i with
  | zero => exact .outOfFuel
  | succ n ih =>
    refine .getPool fun p q _ => ?_
    rw [withSelector_queue]
    cases (p.queue d c)[i]? with
    | none => exact .pure _
    | some m =>
      intro w w' h
      have ⟨⟨q, hq, hw⟩, _, hquiet⟩ := h
      subst hw
      by_cases hstream : w.HasStream d m
      · have hexpired : EndAlike (fun a v v' => a = true ∧ Twin true v v') CutApart
            (timedOut .select d m w) (timedOut .poll d m { w with pool := w.pool.withSelector q }) := by
          rw [timedOut_select (hquiet rfl) hstream]
          exact .ok ⟨rfl, h⟩
        refine hexpired.bind fun expired => ?_
        rintro v v' ⟨rfl, hv⟩
        refine Lockstep.bind (x := dropFromRound c m) (y := dropFromRound c m) (.modifyPool fun _ _ => rfl)
          (fun _ => ?_) v v' hv
        refine Lockstep.bind (.getMmc m) fun s => ?_
        refine (blind_mmcSelectFailure hE (hfh true) m _ _).bind fun _ => ?_
        exact Lockstep.bind (.getMmc m) fun _ =>
          (Lockstep.doWhen (blind_mmcSelectRetry hE (hfh true) _ m _)).bind fun _ => ih _
      · refine FailsWith.endAlike (fun _ _ hne => absurd rfl hne) ((timedOut_select_fails hstream).bind _) ?_
        -- `poll` first takes the server out of the queues.
        refine FailsWith.after (a := true) rfl (FailsWith.after rfl (FailsWith.after rfl ?_))
        refine FailsWith.bind (mmcSelectFailure_fails E fh ?_) _
        exact hstream

/-! ## Rounds -/

omit hfh in
/-- What `select()` and `poll()` tell; when they tell nothing, nothing is ready. -/
theorem coupled_waitReady (c : Bool) :
    Coupled (Twin false) (fun result w w' => 0 ≤ result ∧ Twin false w w' ∧ (result = 0 → w.pool.Quiet))
      CutApart (waitReady E .select c) (waitReady E .poll c) := by
  refine Lockstep.coupled_getPool fun p q _ => ?_
  refine Coupled.bind (blind_slotFds .write _) fun wfds => ?_
  refine Coupled.bind (blind_slotFds .read _) fun rfds => ?_
  have hask : Coupled (Twin false) (fun report w w' => 0 ≤ report.result ∧ Twin false w w') CutApart
      (ask E.select) (ask E.select) := by
    rintro w _ ⟨⟨q, hq, rfl⟩, hin, hquiet⟩
    exact .ok ⟨hE.noError _, ⟨q, hq, rfl⟩, hin, hquiet⟩
  have hwatch (report : SelectReport) : Coupled (fun w w' => 0 ≤ report.result ∧ Twin false w w')
      (fun _ w w' => 0 ≤ report.result ∧ Twin false w w' ∧ (report.result = 0 → w.pool.Quiet)) CutApart
      (modifyPool fun p => p.watch .select wfds rfds report)
      (modifyPool fun p => p.watch .poll wfds rfds report) := by
    rintro w _ ⟨hreport, ⟨q, hq, rfl⟩, hin, -⟩
    exact .ok ⟨hreport, ⟨⟨q.watch .poll wfds rfds report, hq.watch wfds rfds hreport, rfl⟩, hin, nofun⟩,
      quiet_watch w.pool wfds rfds⟩
  exact hask.bind fun report => (hwatch report).bind fun _ => Coupled.pure _ fun _ _ => id

/-- The loops that give up on the servers. -/
theorem coupled_timeouts (c : Bool) (n : Nat) {result : Int} (hresult : 0 ≤ result) :
    Coupled (fun w w' => Apart w w' ∧ (result = 0 → Twin true w w')) (fun _ => Apart) CutApart
      (doWhen (result ≤ 0) do
        timeoutLoop E fh .select .write c result n 0
        timeoutLoop E fh .select .read c result n 0)
      (doWhen (result ≤ 0) do
        timeoutLoop E fh .poll .write c result n 0
        timeoutLoop E fh .poll .read c result n 0) := by
  refine Coupled.ite (fun hle => ?_) fun _ => Coupled.pure _ fun _ _ h => h.1
  obtain rfl : result = 0 := Int.le_antisymm hle hresult
  have hloops := (lockstep_timeoutLoop hE hfh .write c n 0).bind fun _ =>
    lockstep_timeoutLoop hE hfh .read c n 0
  exact Coupled.mono hloops (fun _ _ h => h.2 rfl) fun _ _ _ h => h.1

theorem lockstep_startRound (n : Nat) (c : Bool) :
    Lockstep false (startRound E fh .select n c) (startRound E fh .poll n c) := by
  refine Lockstep.bind (.modifyPool fun _ _ => rfl) fun _ => (coupled_waitReady hE c).bind fun result => ?_
  have houter : Coupled
      (fun w w' => 0 ≤ result ∧ Twin false w w' ∧ (result = 0 → w.pool.Quiet))
      (fun outer w w' => outer = false ∧ 0 ≤ result ∧ Apart w w' ∧ (result = 0 → w.pool.Quiet)) CutApart
      getInTimeout getInTimeout := by
    rintro w _ ⟨hresult, ⟨⟨q, hq, rfl⟩, hin, -⟩, hquiet⟩
    exact .ok ⟨hin, hresult, ⟨q, hq, rfl⟩, hquiet⟩
  refine houter.bind fun outer => ?_
  -- The loops run only when nothing is ready.
  have henter : Coupled
      (fun w w' => outer = false ∧ 0 ≤ result ∧ Apart w w' ∧ (result = 0 → w.pool.Quiet))
      (fun _ w w' => outer = false ∧ 0 ≤ result ∧ Apart w w' ∧ (result = 0 → Twin true w w')) CutApart
      (setInTimeout true) (setInTimeout true) := by
    rintro w _ ⟨houter, hresult, ⟨q, hq, rfl⟩, hquiet⟩
    exact .ok ⟨houter, hresult, ⟨q, hq, rfl⟩, fun h => ⟨⟨q, hq, rfl⟩, rfl, fun _ => hquiet h⟩⟩
  refine henter.bind fun _ => ?_
  rintro w w' ⟨rfl, hresult, h⟩
  have hleave : Coupled Apart (fun _ => Twin false) CutApart (setInTimeout false) (setInTimeout false) := by
    rintro v _ ⟨q, hq, rfl⟩
    exact .ok ⟨⟨q, hq, rfl⟩, rfl, nofun⟩
  refine (coupled_timeouts hE hfh c n hresult w w' h).bind fun _ => hleave.bind fun _ => ?_
  exact Lockstep.bind (.modifyPool fun _ _ => rfl) fun _ => .pure c

theorem lockstep_beginRound (n : Nat) :
    Lockstep false (beginRound E fh .select n) (beginRound E fh .poll n) :=
  .getPool fun _ _ _ => .ite (.pure _) (lockstep_startRound hE hfh n _)

/-- **A round with `poll()` does what one with `select()` does.** -/
theorem lockstep_mmcPoolSelect (n : Nat) : Blind false (mmcPoolSelect E fh n) := by
  have hfh' := hfh false
  refine Lockstep.bind (.step hE _) fun _ => Lockstep.getPool fun p q hq => ?_
  simp only [withSelector_selectApi, hq.select, hq.poll]
  refine (lockstep_beginRound hE hfh n).bind fun c => ?_
  refine (lockstep_serverLoop hE hfh' .write c n 0).bind fun sent => Lockstep.doWhen (c := sent) ?_
  exact (lockstep_serverLoop hE hfh' .read c n 0).bind fun received => Lockstep.doWhen (c := received)
    (.modifyPool fun _ _ => rfl)

/-! ## Multi-key gets -/

theorem blind_openBuild (n : Nat) (m : Mmc) (a : GetArgs) (key : Bytes) :
    Blind b (openBuild E n fh m a key) := by
  refine Lockstep.bind (.getMmc m) fun s => ?_
  cases s.buildreq with
  | none => exact Lockstep.bind (.modifyPool fun _ _ => rfl) fun _ => blind_beginBuild hE m a
  | some r =>
    refine Lockstep.bind (.getReq r) fun q => .doWhen ?_
    cases b with
    | false =>
      refine Lockstep.bind (.step hE _) fun _ => (blind_endBuild r).bind fun _ => ?_
      refine (blind_mmcPoolSchedule hE (hfh false) m r).bind fun _ => ?_
      exact (lockstep_mmcPoolSelect hE hfh n).bind fun _ =>
        (blind_beginBuild hE m a).bind fun _ => .step hE _
    | true =>
      -- In the middle of a timeout the run does not get here.
      have hflush : Coupled (Twin true) (fun _ _ _ => False) CutApart (step E (.flush m))
          (step E (.flush m)) := by
        rintro w w' ⟨hapart, hin, -⟩
        have hstop := hE.noFlush m w hin
        have hstop' := (hE.allowed (.flush m) w w' hapart).symm.trans hstop
        unfold step
        rw [if_neg (by simp [hstop]), if_neg (by simp [hstop'])]
        exact .error fun _ => hapart
      exact hflush.bind fun _ _ _ h => h.elim

theorem blind_mmcPoolScheduleGet (n : Nat) (a : GetArgs) (zkey : ZKey) :
    Blind b (mmcPoolScheduleGet E n fh a zkey) := by
  unfold mmcPoolScheduleGet
  cases mmcPrepareKeyEx zkey.str E.keyPrefix with
  | none => exact .pure _
  | some key =>
    refine (blind_mmcPoolFind key).bind fun m => (blind_mmcServerValid m).bind fun valid => ?_
    exact .ite (.pure _) ((blind_openBuild hE hfh n m a key).bind fun _ => blind_appendBuild m zkey key)

theorem blind_mmcValueFailoverHandler (n : Nat) (r : ReqId) (c : Nat) :
    Blind b (mmcValueFailoverHandler E n fh r c) := by
  have hkey (zkey : ZKey) : Blind b (rescheduleKey E n fh r c zkey) := by
    refine Lockstep.bind (.getCall c) fun call => .doWhen (Lockstep.bind (.step hE _) fun _ => ?_)
    exact Lockstep.bind (.getReq r) fun q => (blind_mmcPoolScheduleGet hE hfh n _ zkey).bind fun _ => .pure _
  refine Lockstep.bind (.getReq r) fun q => .ite ((blind_mmcPoolRelease hE _).bind fun _ => .pure _) ?_
  refine Lockstep.bind (.step hE _) fun _ => Lockstep.bind (.getCall c) fun call => ?_
  exact (Lockstep.forEach hkey _).bind fun _ => (blind_mmcPoolRelease hE _).bind fun _ => .pure _

omit hfh in
/-- A call of a failover handler, however deep the handlers nest. -/
theorem blind_failoverHandler (n depth : Nat) (b : Bool) (m : Mmc) (r : ReqId) :
    Blind b (failoverHandler E n depth m r) := by
  induction depth generalizing b m r with
  | zero => exact .outOfFuel
  | succ depth ih =>
    refine Lockstep.bind (.step hE _) fun _ => Lockstep.bind (.getReq r) fun q => ?_
    cases q.failoverHandler with
    | null => exact (blind_mmcPoolRelease hE _).bind fun _ => .pure _
    | pool => exact blind_mmcPoolFailoverHandler hE (ih b) m r
    | value c => exact blind_mmcValueFailoverHandler hE ih n r c

/-! ## Runs -/

theorem blind_mmcPoolSchedulePending (bound : Nat) : Blind false (mmcPoolSchedulePending E fh bound) := by
  induction bound with
  | zero => exact .outOfFuel
  | succ bound ih =>
    refine .getPool fun p q _ => ?_
    rw [withSelector_pending]
    cases p.pending with
    | nil => exact .pure _
    | cons m rest =>
      refine Lockstep.bind (.modifyPool fun _ _ => rfl) fun _ => Lockstep.bind ?_ fun _ => ih
      refine Lockstep.bind (.getMmc m) fun s => Lockstep.bind (.step hE _) fun _ => ?_
      cases s.buildreq with
      | none => exact .nullPointer
      | some r =>
        refine (blind_endBuild r).bind fun _ => (blind_mmcPoolSchedule hE (hfh false) m r).bind fun _ => ?_
        exact Lockstep.bind (.getMmc m) fun _ => Lockstep.bind (.step hE _) fun _ => .modifyMmc m _

theorem blind_mmcPoolRun (n : Nat) : Blind false (mmcPoolRun E n fh) := by
  have hloop (bound : Nat) : Blind false (runLoop E n fh bound) := by
    induction bound with
    | zero => exact .outOfFuel
    | succ bound ih =>
      refine .getPool fun p q _ => .ite ((lockstep_mmcPoolSelect hE hfh n).bind fun _ => ?_) (.pure _)
      exact (blind_mmcPoolSchedulePending hE hfh n).bind fun _ => ih
  exact (blind_mmcPoolSchedulePending hE hfh n).bind fun _ => hloop n

omit hfh in
theorem blind_exec (n depth : Nat) (op : PoolOp) : Blind false (op.exec E n depth) := by
  have hfh := blind_failoverHandler hE n depth
  cases op with
  | discard a => exact (blind_makeRequest hE a).bind fun r => blind_mmcPoolRelease hE _
  | schedule m a =>
    exact (blind_makeRequest hE a).bind fun r =>
      (blind_mmcPoolSchedule hE (hfh false) m r).bind fun _ => .pure _
  | scheduleKey a redundancy =>
    exact (blind_makeRequest hE a).bind fun r => Lockstep.bind (.getReq r) fun q =>
      (blind_mmcPoolScheduleKey hE (hfh false) _ r redundancy).bind fun _ => .pure _
  | scheduleGet a zkey => exact (blind_mmcPoolScheduleGet hE hfh n _ zkey).bind fun _ => .pure _
  | schedulePending => exact blind_mmcPoolSchedulePending hE hfh n
  | select => exact lockstep_mmcPoolSelect hE hfh n
  | run => exact blind_mmcPoolRun hE hfh n

end Rounds

/-- Two connections can be opened; the first question what is ready is not answered in time. -/
def lateAnswer : Env where
  connect n := some n
  select n := if n = 1 then { result := 0 } else
    { result := 2, writable := fun _ => true, readable := fun _ => true }
  send _ := .bytes 100
  parse _ := { verdict := .done }
  allowed s w := match s with
    | .flush _ => !w.inTimeout
    | _ => true

theorem lateAnswer_interchangeable : Interchangeable lateAnswer where
  noError n := by
    by_cases h : n = 1 <;> simp [lateAnswer, h]
  allowed s w w' h := by
    obtain ⟨q, -, rfl⟩ := h
    cases s <;> rfl
  noFlush m w h := by simp [lateAnswer, h]

/-- A new pool of two servers. -/
def twoFresh (api : SelectApi) : World where
  pool := { servers := [0, 1], findServer := fun key => if key.length = 1 then 0 else 1, selectApi := api }
  mmc _ := {}

theorem twoFresh_twin : Twin false (twoFresh .select) (twoFresh .poll) :=
  ⟨⟨(twoFresh .poll).pool, ⟨rfl, rfl, fun d _ => by cases d <;> rfl, List.nodup_nil⟩, rfl⟩, rfl, nofun⟩

/-- A request by key, and the pool is run. -/
def oneRequest : List PoolOp :=
  [.scheduleKey { content := fun q => { q with key := [107], keyLen := 1 } } 1, .run]

end PeclMemcache
