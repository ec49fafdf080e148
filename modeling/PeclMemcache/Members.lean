import PeclMemcache.Authentication

set_option autoImplicit false

/-! # The members of a pool

The two pairs of queues that rounds run over, and the queue of pending gets, hold pointers to servers.
The pool functions put there what they find in these queues and what the hash strategy gives them,
which are members of the pool; `mmc_pool_close` frees the members. -/

namespace PeclMemcache

open Stateful Machines

/-! ## References -/

/-- A queue of the pool holds the server. -/
def MmcPool.Refers (p : MmcPool) (m : Mmc) : Prop :=
  (∃ b, m ∈ p.sendingBuf b ∨ m ∈ p.readingBuf b) ∨ m ∈ p.pending

/-- The members of the pool and the lookup of its hash state, and no other server is in its queues. -/
structure MmcPool.Confined (members : List Mmc) (find : Bytes → Mmc) (p : MmcPool) : Prop where
  servers : p.servers = members
  findServer : p.findServer = find
  member : ∀ m, p.Refers m → m ∈ members

/-- A program that keeps the queues so, also where it does not come to its end. -/
def Confines {α : Type} (members : List Mmc) (find : Bytes → Mmc) (x : PoolM α) : Prop :=
  ∀ w, w.pool.Confined members find →
    wp x (fun _ w' => w'.pool.Confined members find) (fun w' => w'.pool.Confined members find) w

/-- A program that also gives a member of the pool. -/
def FindsMember (members : List Mmc) (find : Bytes → Mmc) (x : PoolM Mmc) : Prop :=
  ∀ w, w.pool.Confined members find →
    wp x (fun m w' => m ∈ members ∧ w'.pool.Confined members find)
      (fun w' => w'.pool.Confined members find) w

variable {α β : Type} {members : List Mmc} {find : Bytes → Mmc} {p : MmcPool} {m : Mmc}

namespace MmcPool.Confined

theorem sending (h : p.Confined members find) {b : Bool} (hm : m ∈ p.sendingBuf b) : m ∈ members :=
  h.member m (Or.inl ⟨b, Or.inl hm⟩)

theorem reading (h : p.Confined members find) {b : Bool} (hm : m ∈ p.readingBuf b) : m ∈ members :=
  h.member m (Or.inl ⟨b, Or.inr hm⟩)

theorem pending (h : p.Confined members find) (hm : m ∈ p.pending) : m ∈ members :=
  h.member m (Or.inr hm)

/-- Other queues, the servers of which are members or were in the queues. -/
theorem queues {p' : MmcPool} (h : p.Confined members find) (hservers : p'.servers = p.servers)
    (hfind : p'.findServer = p.findServer)
    (hsending : ∀ b, ∀ m ∈ p'.sendingBuf b, m ∈ members ∨ m ∈ p.sendingBuf b)
    (hreading : ∀ b, ∀ m ∈ p'.readingBuf b, m ∈ members ∨ m ∈ p.readingBuf b)
    (hpending : ∀ m ∈ p'.pending, m ∈ members ∨ m ∈ p.pending) : p'.Confined members find where
  servers := hservers.trans h.servers
  findServer := hfind.trans h.findServer
  member := by
    rintro m (⟨b, hm | hm⟩ | hm)
    · exact (hsending b m hm).elim id h.sending
    · exact (hreading b m hm).elim id h.reading
    · exact (hpending m hm).elim id h.pending

/-- Another part of the pool is written. -/
theorem same {p' : MmcPool} (h : p.Confined members find) (hservers : p'.servers = p.servers)
    (hfind : p'.findServer = p.findServer) (hsending : p'.sendingBuf = p.sendingBuf)
    (hreading : p'.readingBuf = p.readingBuf) (hpending : p'.pending = p.pending) :
    p'.Confined members find := by
  refine h.queues hservers hfind (fun b m hm => Or.inr ?_) (fun b m hm => Or.inr ?_) fun m hm => Or.inr ?_
  · exact hsending ▸ hm
  · exact hreading ▸ hm
  · exact hpending ▸ hm

theorem mem_update {buf : Bool → List Mmc} {c b : Bool} {queue : List Mmc}
    (hqueue : ∀ m ∈ queue, m ∈ members ∨ m ∈ buf c) (hm : m ∈ Function.update buf c queue b) :
    m ∈ members ∨ m ∈ buf b := by
  by_cases hb : b = c
  · subst hb
    rw [Function.update_self] at hm
    exact hqueue m hm
  · rw [Function.update_of_ne hb] at hm
    exact Or.inr hm

/-- One buffer of `sending` is written. -/
theorem updateSending (h : p.Confined members find) {c : Bool} {queue : List Mmc}
    (hqueue : ∀ m ∈ queue, m ∈ members ∨ m ∈ p.sendingBuf c) :
    { p with sendingBuf := Function.update p.sendingBuf c queue : MmcPool }.Confined members find :=
  h.queues rfl rfl (fun _ _ hm => mem_update hqueue hm) (fun _ _ => Or.inr) fun _ => Or.inr

/-- One buffer of `reading` is written. -/
theorem updateReading (h : p.Confined members find) {c : Bool} {queue : List Mmc}
    (hqueue : ∀ m ∈ queue, m ∈ members ∨ m ∈ p.readingBuf c) :
    { p with readingBuf := Function.update p.readingBuf c queue : MmcPool }.Confined members find :=
  h.queues rfl rfl (fun _ _ => Or.inr) (fun _ _ hm => mem_update hqueue hm) fun _ => Or.inr

theorem mem_push {queue : List Mmc} (hm : m ∈ members) :
    ∀ m' ∈ mmcQueuePush queue m, m' ∈ members ∨ m' ∈ queue := by
  intro m' hm'
  rcases (mem_mmcQueuePush queue m m').mp hm' with hold | rfl
  · exact Or.inr hold
  · exact Or.inl hm

theorem mem_remove {queue : List Mmc} :
    ∀ m' ∈ mmcQueueRemove queue m, m' ∈ members ∨ m' ∈ queue :=
  fun m' hm' => Or.inr ((mem_mmcQueueRemove queue m m').mp hm').1

end MmcPool.Confined

/-! ## Rules -/

namespace Confines

theorem of_same {x : PoolM α} (h : ∀ w, ∃ a w', x w = (.ok a, w') ∧ w'.pool = w.pool) :
    Confines members find x := by
  intro w hw
  obtain ⟨a, w', hrun, hpool⟩ := h w
  exact (wp_of_ok hrun _ _).mpr (hpool ▸ hw)

theorem pure (a : α) : Confines members find (Pure.pure a : PoolM α) := of_same fun w => ⟨a, w, rfl, rfl⟩

theorem bind {x : PoolM α} {f : α → PoolM β} (hx : Confines members find x)
    (hf : ∀ a, Confines members find (f a)) : Confines members find (x >>= f) := by
  intro w hw
  rw [wp_bind]
  exact wp_mono (hx w hw) (fun a w' hw' => hf a w' hw') fun _ => id

theorem ite {c : Prop} [Decidable c] {x y : PoolM α} (hx : Confines members find x)
    (hy : Confines members find y) : Confines members find (if c then x else y) :=
  fun w hw => wp_ite (fun _ => hx w hw) fun _ => hy w hw

theorem doWhen {c : Prop} [Decidable c] {x : PoolM Unit} (hx : Confines members find x) :
    Confines members find (doWhen c x) := ite hx (pure ())

theorem nullPointer : Confines members find (nullPointer : PoolM α) :=
  fun w hw => (wp_nullPointer _ _ w).mpr hw

theorem outOfFuel : Confines members find (outOfFuel : PoolM α) :=
  fun w hw => (wp_outOfFuel _ _ w).mpr hw

theorem ask (answer : Nat → α) : Confines members find (ask answer) := of_same fun _ => ⟨_, _, rfl, rfl⟩

theorem step (E : Env) (s : Step) : Confines members find (step E s) :=
  fun w hw => (wp_step _ _ _ _ w).mpr ⟨fun _ => hw, fun _ => hw⟩

theorem getMmc (m : Mmc) : Confines members find (getMmc m) := of_same fun _ => ⟨_, _, rfl, rfl⟩

theorem modifyMmc (m : Mmc) (f : MmcServer → MmcServer) : Confines members find (modifyMmc m f) :=
  of_same fun _ => ⟨_, _, rfl, rfl⟩

theorem getReq (r : ReqId) : Confines members find (getReq r) := of_same fun _ => ⟨_, _, rfl, rfl⟩

theorem modifyReq (r : ReqId) (f : MmcRequest → MmcRequest) : Confines members find (modifyReq r f) :=
  of_same fun _ => ⟨_, _, rfl, rfl⟩

theorem getCall (c : Nat) : Confines members find (getCall c) := of_same fun _ => ⟨_, _, rfl, rfl⟩

theorem modifyCall (c : Nat) (f : ApiCall → ApiCall) : Confines members find (modifyCall c f) :=
  of_same fun _ => ⟨_, _, rfl, rfl⟩

theorem newRequest : Confines members find newRequest := of_same fun _ => ⟨_, _, rfl, rfl⟩

theorem setInTimeout (b : Bool) : Confines members find (setInTimeout b) := of_same fun _ => ⟨_, _, rfl, rfl⟩

theorem getInTimeout : Confines members find getInTimeout := of_same fun _ => ⟨_, _, rfl, rfl⟩

theorem modifyPool {f : MmcPool → MmcPool}
    (hf : ∀ p, p.Confined members find → (f p).Confined members find) :
    Confines members find (modifyPool f) :=
  fun w hw => (wp_modifyPool _ _ _ w).mpr (hf w.pool hw)

/-- What follows a look at the pool may rely on its queues. -/
theorem bind_getPool {f : MmcPool → PoolM β}
    (hf : ∀ p, p.Confined members find → Confines members find (f p)) :
    Confines members find (getPool >>= f) := by
  intro w hw
  rw [wp_bind, wp_getPool]
  exact hf w.pool hw w hw

/-- What follows a lookup may rely on its result. -/
theorem bind_find {x : PoolM Mmc} {f : Mmc → PoolM β} (hx : FindsMember members find x)
    (hf : ∀ m ∈ members, Confines members find (f m)) : Confines members find (x >>= f) := by
  intro w hw
  rw [wp_bind]
  exact wp_mono (hx w hw) (fun m w' hw' => hf m hw'.1 w' hw'.2) fun _ => id

theorem forEach {f : α → PoolM Unit} (hf : ∀ x, Confines members find (f x)) (xs : List α) :
    Confines members find (forEach f xs) := by
  induction xs with
  | nil => exact pure ()
  | cons x rest ih => exact bind (hf x) fun _ => ih

end Confines

namespace FindsMember

theorem pure (hm : m ∈ members) : FindsMember members find (Pure.pure m) :=
  fun w hw => (wp_pure _ _ _ w).mpr ⟨hm, hw⟩

theorem bind {x : PoolM α} {f : α → PoolM Mmc} (hx : Confines members find x)
    (hf : ∀ a, FindsMember members find (f a)) : FindsMember members find (x >>= f) := by
  intro w hw
  rw [wp_bind]
  exact wp_mono (hx w hw) (fun a w' hw' => hf a w' hw') fun _ => id

theorem ite {c : Prop} [Decidable c] {x y : PoolM Mmc} (hx : FindsMember members find x)
    (hy : FindsMember members find y) : FindsMember members find (if c then x else y) :=
  fun w hw => wp_ite (fun _ => hx w hw) fun _ => hy w hw

theorem bind_getPool {f : MmcPool → PoolM Mmc}
    (hf : ∀ p, p.Confined members find → FindsMember members find (f p)) :
    FindsMember members find (getPool >>= f) := by
  intro w hw
  rw [wp_bind, wp_getPool]
  exact hf w.pool hw w hw

end FindsMember

/-! ## Requests and streams -/

section Functions

variable {E : Env}

theorem confines_ioOf (r : ReqId) : Confines members find (ioOf r) := by
  refine Confines.bind (Confines.getReq r) fun q => ?_
  cases q.io with
  | none => exact Confines.nullPointer
  | some io => exact Confines.pure io

theorem confines_fdOf (r : ReqId) : Confines members find (fdOf r) :=
  Confines.bind (confines_ioOf r) fun io => Confines.bind (Confines.getMmc io.1) fun _ => Confines.pure _

theorem confines_mmcServerFailure (m : Mmc) (io : Mmc × MmcProto) (error : String) (errnum : Int) :
    Confines members find (mmcServerFailure m io error errnum) := by
  refine Confines.bind (Confines.getMmc io.1) fun s => Confines.bind (Confines.modifyMmc _ _) fun _ => ?_
  exact Confines.bind (Confines.doWhen (Confines.modifyMmc _ _)) fun _ => Confines.pure _

theorem confines_mmcServerValid (m : Mmc) : Confines members find (mmcServerValid E m) := by
  refine Confines.bind (Confines.getMmc m) fun s => Confines.ite (Confines.pure _) ?_
  refine Confines.ite (Confines.pure _) ?_
  exact Confines.bind (Confines.ask E.time) fun _ => Confines.pure _

theorem confines_mmcPoolRelease (r : Option ReqId) : Confines members find (mmcPoolRelease E r) := by
  have hnote : Confines members find (noteRelease E r) := by
    cases r with
    | none => exact Confines.pure ()
    | some r => exact Confines.step E _
  exact Confines.bind hnote fun _ => Confines.modifyPool fun _ h => h.same rfl rfl rfl rfl rfl

theorem confines_mmcPoolRequestAlloc (protocol : MmcProto) (failover : FailoverHandler) :
    Confines members find (mmcPoolRequestAlloc E protocol failover) := by
  have hpop : Confines members find popFreeRequest := by
    refine Confines.bind_getPool fun p _ => ?_
    rcases p.freeRequests with _ | ⟨_ | r, rest⟩
    · exact Confines.newRequest
    · exact Confines.bind (Confines.modifyPool fun _ h => h.same rfl rfl rfl rfl rfl) fun _ =>
        Confines.newRequest
    · exact Confines.bind (Confines.modifyPool fun _ h => h.same rfl rfl rfl rfl rfl) fun _ =>
        Confines.bind (Confines.modifyReq r _) fun _ => Confines.pure _
  exact Confines.bind hpop fun r => Confines.bind (Confines.step E _) fun _ =>
    Confines.bind (Confines.modifyReq r _) fun _ => Confines.pure _

theorem confines_mmcPoolRequest (protocol : MmcProto) (handler : ResponseHandler) (call : Nat)
    (failover : FailoverHandler) :
    Confines members find (mmcPoolRequest E protocol handler call failover) :=
  Confines.bind (confines_mmcPoolRequestAlloc _ _) fun _ => Confines.bind (Confines.modifyReq _ _) fun _ =>
    Confines.pure _

theorem confines_mmcPoolCloneRequest (r : ReqId) : Confines members find (mmcPoolCloneRequest E r) :=
  Confines.bind (Confines.getReq r) fun _ => Confines.bind (confines_mmcPoolRequestAlloc _ _) fun _ =>
    Confines.bind (Confines.getReq r) fun _ => Confines.bind_getPool fun _ _ =>
      Confines.bind (Confines.modifyReq _ _) fun _ => Confines.bind (Confines.getReq _) fun _ =>
        Confines.bind (Confines.step E _) fun _ => Confines.pure _

/-! ## Finding servers -/

section Find

variable (hfind : ∀ key, find key ∈ members)

include hfind

theorem findNextFrom_mem (max : Nat) (key : Bytes) (skip : List Mmc) (fuel i : Nat) :
    (findNextFrom find max key skip fuel i).1 ∈ members := by
  induction fuel generalizing i with
  | zero => exact hfind _
  | succ fuel ih =>
    rw [findNextFrom]
    split
    · exact ih (i + 1)
    · exact hfind _

theorem mmcPoolFindNext_mem (hp : p.Confined members find) (max : Nat) (key : Bytes) (skip : List Mmc)
    (i : Nat) : (mmcPoolFindNext p.findServer max key skip i).1 ∈ members := by
  rw [hp.findServer]
  exact findNextFrom_mem hfind max key skip (max - i) i

theorem findsMember_findValidFrom (key : Bytes) (fuel i : Nat) :
    FindsMember members find (findValidFrom E key fuel i) := by
  induction fuel generalizing i with
  | zero =>
    refine FindsMember.bind_getPool fun p hp => ?_
    exact FindsMember.bind (confines_mmcServerValid _) fun _ =>
      FindsMember.pure (mmcPoolFindNext_mem hfind hp _ _ _ _)
  | succ fuel ih =>
    refine FindsMember.bind_getPool fun p hp => ?_
    exact FindsMember.bind (confines_mmcServerValid _) fun _ =>
      FindsMember.ite (ih _) (FindsMember.pure (mmcPoolFindNext_mem hfind hp _ _ _ _))

theorem findsMember_mmcPoolFindSized (key : Bytes) (keyLen : Nat) :
    FindsMember members find (mmcPoolFindSized E key keyLen) := by
  refine FindsMember.bind_getPool fun p hp => FindsMember.bind (confines_mmcServerValid _) fun _ => ?_
  refine FindsMember.ite (findsMember_findValidFrom hfind key _ _) (FindsMember.pure ?_)
  rw [hp.findServer]
  exact hfind _

theorem findsMember_mmcPoolFind (key : Bytes) : FindsMember members find (mmcPoolFind E key) := by
  have hsized : mmcPoolFind E key = mmcPoolFindSized E key key.length := by
    rw [mmcPoolFindSized, mmcPoolFind, List.take_length]
  rw [hsized]
  exact findsMember_mmcPoolFindSized hfind key _

end Find

/-! ## Connections -/

variable {fh : Failover} (hfh : ∀ m r, Confines members find (fh m r))

theorem confines_takeOffline (m : Mmc) : Confines members find (takeOffline E m) := by
  refine Confines.bind (Confines.step E _) fun _ => Confines.bind (Confines.ask _) fun _ => ?_
  refine Confines.bind (Confines.modifyMmc m _) fun _ => Confines.bind (Confines.modifyPool ?_) fun _ =>
    Confines.bind (Confines.getMmc m) fun _ => Confines.bind (Confines.modifyMmc m _) fun _ =>
      Confines.pure _
  intro p hp
  exact (hp.updateSending MmcPool.Confined.mem_remove).updateReading MmcPool.Confined.mem_remove

include hfh

theorem confines_mmcServerDeactivate (m : Mmc) : Confines members find (mmcServerDeactivate E fh m) :=
  Confines.bind (confines_takeOffline m) fun _ =>
    Confines.forEach (fun r => Confines.bind (hfh m r) fun _ => Confines.pure _) _

theorem confines_mmcPoolOpen (m : Mmc) (t : MmcProto) (cause : Option ReqId) :
    Confines members find (mmcPoolOpen E fh m t cause) := by
  have hconnect : Confines members find (mmcServerConnect E fh m t cause) := by
    refine Confines.bind (Confines.getMmc m) fun _ => ?_
    refine Confines.bind (Confines.doWhen (Confines.modifyMmc m _)) fun _ => ?_
    refine Confines.bind (Confines.ask _) fun answer => ?_
    rcases answer with ⟨c, _ | fd⟩
    · exact Confines.bind (Confines.step E _) fun _ => Confines.bind (Confines.modifyMmc m _) fun _ =>
        Confines.bind (confines_mmcServerDeactivate hfh m) fun _ => Confines.pure _
    · exact Confines.bind (Confines.step E _) fun _ => Confines.bind (Confines.modifyMmc m _) fun _ =>
        Confines.pure _
  refine Confines.bind (Confines.getMmc m) fun s => ?_
  cases (s.io t).status with
  | connected => exact Confines.pure _
  | unknown => exact Confines.pure _
  | disconnected => exact hconnect
  | failed => exact hconnect

/-! ## Scheduling -/

omit hfh in
theorem confines_takeSlot (m : Mmc) (r old : Option ReqId) :
    Confines members find (takeSlot E m r old) :=
  Confines.bind (Confines.step E _) fun _ => Confines.bind (Confines.modifyMmc m _) fun _ => Confines.pure _

theorem confines_slotSendTcp (m : Mmc) (r : ReqId) (old : Option ReqId) (handleFailover : Bool) :
    Confines members find (slotSendTcp E fh m r old handleFailover) := by
  refine Confines.bind (confines_mmcPoolOpen hfh m .tcp _) fun _ => Confines.ite ?_ ?_
  · exact Confines.bind (Confines.modifyReq r _) fun _ => confines_takeSlot m _ _
  · exact Confines.bind (Confines.step E _) fun _ => Confines.bind (Confines.modifyMmc m _) fun _ =>
      Confines.ite (hfh m r) (Confines.pure _)

theorem confines_mmcPoolSlotSend (m : Mmc) (request : Option ReqId) (handleFailover : Bool) :
    Confines members find (mmcPoolSlotSend E fh m request handleFailover) := by
  refine Confines.bind (Confines.getMmc m) fun s => ?_
  cases request with
  | none => exact confines_takeSlot m none _
  | some r =>
    have htcp := confines_slotSendTcp (E := E) hfh m r s.sendreq handleFailover
    refine Confines.bind (Confines.getReq r) fun _ => Confines.ite ?_ htcp
    refine Confines.bind (confines_mmcPoolOpen hfh m .udp _) fun _ => Confines.ite ?_ htcp
    exact Confines.bind (Confines.getMmc m) fun _ => Confines.bind (Confines.modifyMmc m _) fun _ =>
      Confines.bind (Confines.modifyReq r _) fun _ => confines_takeSlot m _ _

omit hfh in
theorem confines_scheduleRead (hm : m ∈ members) (r : ReqId) :
    Confines members find (scheduleRead m r) := by
  refine Confines.bind (Confines.getMmc m) fun _ => Confines.ite ?_ ?_
  · refine Confines.bind (Confines.modifyMmc m _) fun _ => Confines.bind (Confines.modifyPool ?_) fun _ =>
      Confines.pure _
    exact fun p hp => hp.updateReading (MmcPool.Confined.mem_push hm)
  · exact Confines.bind (Confines.modifyMmc m _) fun _ => Confines.pure _

/-- **Scheduling on a member** puts a member into the queues. -/
theorem confines_mmcPoolSchedule (hm : m ∈ members) (r : ReqId) :
    Confines members find (mmcPoolSchedule E fh m r) := by
  refine Confines.bind (Confines.step E _) fun _ => Confines.bind (confines_mmcServerValid m) fun _ => ?_
  refine Confines.ite (hfh m r) (Confines.bind (Confines.modifyReq r _) fun _ => ?_)
  refine Confines.bind (Confines.getMmc m) fun _ => Confines.ite ?_ ?_
  · refine Confines.bind (confines_mmcPoolSlotSend hfh m _ _) fun _ => Confines.ite (hfh m r) ?_
    refine Confines.bind (Confines.step E _) fun _ => Confines.bind (Confines.modifyPool ?_) fun _ =>
      confines_scheduleRead hm r
    exact fun p hp => hp.updateSending (MmcPool.Confined.mem_push hm)
  · exact Confines.bind (Confines.step E _) fun _ => Confines.bind (Confines.modifyMmc m _) fun _ =>
      confines_scheduleRead hm r

variable (hfind : ∀ key, find key ∈ members)

include hfind

theorem confines_scheduleCopies (key : Bytes) (r : ReqId) (copies : Nat) (m : Mmc) (skip : List Mmc)
    (i : Nat) : Confines members find (scheduleCopies E fh key r copies m skip i) := by
  induction copies generalizing m skip i with
  | zero => exact Confines.pure ()
  | succ copies ih =>
    refine Confines.bind_getPool fun p hp => ?_
    have hnext := mmcPoolFindNext_mem hfind hp E.maxFailoverAttempts key (mmcQueuePush skip m) i
    refine Confines.bind (Confines.step E _) fun _ => Confines.bind (confines_mmcServerValid _) fun _ => ?_
    refine Confines.bind (Confines.doWhen ?_) fun _ => ih _ _ _
    exact Confines.bind (confines_mmcPoolCloneRequest r) fun c =>
      Confines.bind (confines_mmcPoolSchedule hfh hnext c) fun _ => Confines.pure _

theorem confines_mmcPoolScheduleKeySized (key : Bytes) (keyLen : Nat) (r : ReqId) (redundancy : Nat) :
    Confines members find (mmcPoolScheduleKeySized E fh key keyLen r redundancy) := by
  refine Confines.bind_find (findsMember_mmcPoolFindSized hfind key keyLen) fun m hm => ?_
  refine Confines.bind (confines_mmcPoolSchedule hfh hm r) fun _ => ?_
  refine Confines.bind (Confines.doWhen (Confines.bind_getPool fun _ _ => ?_)) fun _ => Confines.pure _
  exact confines_scheduleCopies hfh hfind key r _ _ _ _

/-! ## Rounds -/

omit hfh hfind

theorem confines_waitReady (api : SelectApi) (b : Bool) : Confines members find (waitReady E api b) := by
  have hfds (d : Direction) (ms : List Mmc) : Confines members find (slotFds d ms) := by
    induction ms with
    | nil => exact Confines.pure _
    | cons m rest ih =>
      refine Confines.bind (Confines.getMmc m) fun s => ?_
      cases s.slot d with
      | none => exact Confines.nullPointer
      | some r => exact Confines.bind (confines_fdOf r) fun _ => Confines.bind ih fun _ => Confines.pure _
  refine Confines.bind_getPool fun p _ => Confines.bind (hfds _ _) fun _ => Confines.bind (hfds _ _) fun _ => ?_
  refine Confines.bind (Confines.ask E.select) fun _ => Confines.bind (Confines.modifyPool ?_) fun _ =>
    Confines.pure _
  intro p hp
  cases api <;> exact hp.same rfl rfl rfl rfl rfl

theorem confines_timedOut (api : SelectApi) (d : Direction) (m : Mmc) :
    Confines members find (timedOut api d m) := by
  cases api with
  | poll => exact Confines.pure _
  | select =>
    refine Confines.bind (Confines.getMmc m) fun s => ?_
    cases s.slot d with
    | none => exact Confines.nullPointer
    | some r => exact Confines.bind (confines_fdOf r) fun _ => Confines.bind_getPool fun _ _ => Confines.pure _

theorem confines_clearSending (m : Mmc) : Confines members find (clearSending m) :=
  Confines.bind (Confines.getMmc m) fun _ => Confines.doWhen (Confines.modifyPool fun _ hp =>
    hp.updateSending MmcPool.Confined.mem_remove)

theorem confines_mmcRequestSend (m : Mmc) (r : ReqId) : Confines members find (mmcRequestSend E m r) := by
  refine Confines.bind (confines_ioOf r) fun io => Confines.bind (Confines.getMmc io.1) fun s => ?_
  cases (s.io io.2).stream with
  | none => exact Confines.nullPointer
  | some c =>
    refine Confines.bind (Confines.ask E.send) fun outcome => ?_
    cases outcome with
    | bytes n =>
      exact Confines.bind (Confines.getReq r) fun _ => Confines.bind (Confines.step E _) fun _ =>
        Confines.bind (Confines.modifyReq r _) fun _ => Confines.ite (Confines.pure _) (Confines.pure _)
    | eagain => exact Confines.pure _
    | error errnum => exact confines_mmcServerFailure m io _ _

theorem confines_queueSending (hm : m ∈ members) : Confines members find (queueSending m) :=
  Confines.modifyPool fun _ hp => hp.updateSending (MmcPool.Confined.mem_push hm)

theorem confines_queueReading (hm : m ∈ members) : Confines members find (queueReading m) :=
  Confines.modifyPool fun _ hp => hp.updateReading (MmcPool.Confined.mem_push hm)

theorem confines_fillBuffer (m : Mmc) (r : ReqId) : Confines members find (fillBuffer E m r) := by
  have hread : Confines members find (mmcRequestReadUdp E m r) := by
    refine Confines.bind (confines_ioOf r) fun io => Confines.bind (Confines.getMmc io.1) fun s => ?_
    cases (s.io io.2).stream with
    | none => exact Confines.nullPointer
    | some c =>
      refine Confines.bind (Confines.modifyMmc _ _) fun _ => Confines.bind (Confines.ask E.recv) fun _ => ?_
      refine Confines.ite (confines_mmcServerFailure m io _ _) ?_
      refine Confines.ite (confines_mmcServerFailure m io _ _) ?_
      refine Confines.bind (Confines.modifyReq r _) fun _ => Confines.bind (Confines.getReq r) fun _ => ?_
      refine Confines.ite ?_ ?_
      · exact Confines.bind (Confines.ask E.time) fun _ => Confines.bind (Confines.modifyMmc _ _) fun _ =>
          Confines.ite (Confines.pure _) (Confines.pure _)
      · exact Confines.bind (Confines.modifyReq r _) fun _ => Confines.bind (Confines.modifyMmc _ _) fun _ =>
          Confines.pure _
  exact Confines.bind (Confines.getReq r) fun _ => Confines.ite hread (Confines.pure _)

theorem confines_parseReadreq (m : Mmc) (r : ReqId) : Confines members find (parseReadreq E m r) := by
  refine Confines.bind (confines_ioOf r) fun io => Confines.bind (Confines.getMmc io.1) fun s => ?_
  cases (s.io io.2).stream with
  | none => exact Confines.nullPointer
  | some c =>
    refine Confines.bind (Confines.ask E.parse) fun _ => Confines.bind (Confines.getMmc io.1) fun _ => ?_
    refine Confines.bind (Confines.step E _) fun _ => Confines.bind (Confines.modifyMmc _ _) fun _ => ?_
    refine Confines.bind (Confines.modifyReq r _) fun _ => Confines.bind (Confines.getReq r) fun _ => ?_
    refine Confines.bind (Confines.modifyCall _ _) fun _ => Confines.bind (Confines.doWhen ?_) fun _ =>
      Confines.pure _
    exact Confines.bind (confines_mmcServerFailure m io _ _) fun _ => Confines.pure _

include hfh

theorem confines_mmcSelectFailure (m : Mmc) (request : Option ReqId) (result : Int) :
    Confines members find (mmcSelectFailure E fh m request result) := by
  refine Confines.ite ?_ ?_
  · cases request with
    | none => exact Confines.nullPointer
    | some r =>
      refine Confines.bind (confines_ioOf r) fun io => ?_
      refine Confines.bind (confines_mmcServerFailure m io _ _) fun _ => Confines.ite (Confines.pure _) ?_
      exact Confines.bind (confines_mmcServerDeactivate hfh m) fun _ => Confines.pure _
  · exact Confines.bind (Confines.modifyMmc m _) fun _ =>
      Confines.bind (confines_mmcServerDeactivate hfh m) fun _ => Confines.pure _

theorem confines_shiftSend (m : Mmc) : Confines members find (shiftSend E fh m) :=
  Confines.bind (Confines.getMmc m) fun _ => Confines.bind (Confines.modifyMmc m _) fun _ =>
    Confines.bind (confines_mmcPoolSlotSend hfh m _ _) fun _ => Confines.pure _

theorem confines_mmcSelectRetry (site : RetrySite) (m : Mmc) (request : Option ReqId) :
    Confines members find (mmcSelectRetry E fh site m request) := by
  cases request with
  | none => exact Confines.nullPointer
  | some r =>
    refine Confines.bind (Confines.step E _) fun _ => Confines.bind (Confines.modifyMmc m _) fun _ => ?_
    refine Confines.bind (Confines.getMmc m) fun _ => Confines.bind (Confines.doWhen ?_) fun _ => ?_
    · exact Confines.bind (confines_shiftSend hfh m) fun _ => confines_clearSending m
    · refine Confines.bind (Confines.getMmc m) fun _ => Confines.bind (Confines.doWhen ?_) fun _ =>
        Confines.bind (hfh m r) fun _ => Confines.pure _
      refine Confines.bind (Confines.modifyMmc m _) fun _ => Confines.bind (Confines.getMmc m) fun _ => ?_
      exact Confines.doWhen (Confines.modifyPool fun _ hp => hp.updateReading MmcPool.Confined.mem_remove)

theorem confines_timeoutLoop (api : SelectApi) (d : Direction) (b : Bool) (result : Int) (fuel i : Nat) :
    Confines members find (timeoutLoop E fh api d b result fuel i) := by
  induction fuel generalizing i with
  | zero => exact Confines.outOfFuel
  | succ fuel ih =>
    refine Confines.bind_getPool fun p _ => ?_
    cases (p.queue d b)[i]? with
    | none => exact Confines.pure ()
    | some m =>
      refine Confines.bind (confines_timedOut api d m) fun _ => Confines.ite ?_ (ih _)
      refine Confines.bind (Confines.modifyPool fun p hp => ?_) fun _ => ?_
      · exact (hp.updateSending MmcPool.Confined.mem_remove).updateReading MmcPool.Confined.mem_remove
      · exact Confines.bind (Confines.getMmc m) fun _ =>
          Confines.bind (confines_mmcSelectFailure hfh m _ result) fun _ =>
            Confines.bind (Confines.getMmc m) fun _ =>
              Confines.bind (Confines.doWhen (confines_mmcSelectRetry hfh _ m _)) fun _ => ih _

theorem confines_afterSend (b : Bool) (m : Mmc) (result : MmcResult) :
    Confines members find (afterSend E fh b m result) := by
  cases result with
  | failure =>
    refine Confines.bind (confines_mmcServerDeactivate hfh m) fun _ => Confines.bind (Confines.step E _) fun _ => ?_
    exact Confines.modifyPool fun _ hp => hp.updateReading MmcPool.Confined.mem_remove
  | retry => exact Confines.bind (Confines.getMmc m) fun _ => confines_mmcSelectRetry hfh _ m _
  | done => exact confines_shiftSend hfh m
  | more => exact Confines.pure ()
  | again => exact Confines.pure ()

theorem confines_sendRequests (b : Bool) (m : Mmc) (fuel : Nat) :
    Confines members find (sendRequests E fh b m fuel) := by
  induction fuel with
  | zero => exact Confines.outOfFuel
  | succ fuel ih =>
    refine Confines.bind (Confines.getMmc m) fun s => ?_
    cases s.sendreq with
    | none => exact Confines.nullPointer
    | some r =>
      refine Confines.bind (confines_mmcRequestSend m r) fun _ => Confines.bind_getPool fun _ _ => ?_
      refine Confines.ite (Confines.pure _) (Confines.bind (confines_afterSend hfh b m _) fun _ => ?_)
      exact Confines.bind (Confines.getMmc m) fun _ => Confines.ite ih (Confines.pure _)

omit hfh in
theorem confines_clearReady (api : SelectApi) (d : Direction) (fd : Nat) :
    Confines members find (modifyPool fun p => p.clearReady api d fd) := by
  refine Confines.modifyPool fun p hp => ?_
  cases api <;> cases d <;> exact hp.same rfl rfl rfl rfl rfl

theorem confines_sendServer (hm : m ∈ members) (api : SelectApi) (fuel : Nat) (b : Bool) :
    Confines members find (sendServer E fh api fuel b m) := by
  refine Confines.bind (Confines.getMmc m) fun s => ?_
  cases s.sendreq with
  | none => exact Confines.pure _
  | some r =>
    refine Confines.bind (confines_fdOf r) fun fd => Confines.bind_getPool fun _ _ => Confines.ite ?_ ?_
    · refine Confines.bind (confines_clearReady api .write fd) fun _ => ?_
      refine Confines.bind (confines_sendRequests hfh b m fuel) fun result => ?_
      cases result with
      | none => exact Confines.pure _
      | some result =>
        exact Confines.bind (Confines.doWhen (confines_queueSending hm)) fun _ => Confines.pure _
    · exact Confines.bind (confines_queueSending hm) fun _ => Confines.pure _

theorem confines_completeReadreq (m : Mmc) : Confines members find (completeReadreq E fh m) := by
  refine Confines.bind (Confines.getMmc m) fun s => Confines.bind (Confines.doWhen ?_) fun _ => ?_
  · cases s.readreq with
    | none => exact Confines.nullPointer
    | some r =>
      exact Confines.bind (confines_ioOf r) fun _ => Confines.bind (Confines.step E _) fun _ =>
        Confines.bind (Confines.modifyMmc m _) fun _ => Confines.bind (confines_shiftSend hfh m) fun _ =>
          confines_clearSending m
  · exact Confines.bind (Confines.getMmc m) fun _ => Confines.bind (confines_mmcPoolRelease _) fun _ =>
      Confines.modifyMmc m _

theorem confines_checkEof (m : Mmc) : Confines members find (checkEof E fh m) := by
  refine Confines.bind (Confines.getMmc m) fun s => ?_
  cases s.readreq with
  | none => exact Confines.nullPointer
  | some r =>
    refine Confines.bind (confines_ioOf r) fun io => Confines.bind (Confines.getMmc io.1) fun s => ?_
    cases (s.io io.2).stream with
    | none => exact Confines.nullPointer
    | some c =>
      refine Confines.bind (Confines.ask E.eof) fun _ => Confines.ite ?_ (Confines.pure _)
      refine Confines.bind (Confines.step E _) fun _ => ?_
      refine Confines.bind (confines_mmcServerFailure m io _ _) fun _ => ?_
      refine Confines.ite ?_ ?_
      · exact Confines.bind (confines_mmcServerDeactivate hfh m) fun _ => Confines.pure _
      · exact Confines.bind (Confines.getMmc m) fun _ =>
          Confines.bind (confines_mmcSelectRetry hfh _ m _) fun _ => Confines.pure _

theorem confines_afterParse (m : Mmc) (result : MmcResult) :
    Confines members find (afterParse E fh m result) := by
  cases result with
  | failure => exact Confines.bind (confines_mmcServerDeactivate hfh m) fun _ => Confines.pure _
  | retry =>
    exact Confines.bind (Confines.getMmc m) fun _ =>
      Confines.bind (confines_mmcSelectRetry hfh _ m _) fun _ => Confines.pure _
  | done => exact Confines.bind (confines_completeReadreq hfh m) fun _ => Confines.pure _
  | more => exact confines_checkEof hfh m
  | again => exact Confines.pure _

theorem confines_readRequests (m : Mmc) (fuel : Nat) :
    Confines members find (readRequests E fh m fuel) := by
  induction fuel with
  | zero => exact Confines.outOfFuel
  | succ fuel ih =>
    refine Confines.bind (Confines.getMmc m) fun s => ?_
    cases s.readreq with
    | none => exact Confines.nullPointer
    | some r =>
      refine Confines.bind (confines_parseReadreq m r) fun _ => Confines.bind_getPool fun _ _ => ?_
      refine Confines.ite (Confines.pure _) (Confines.bind (confines_afterParse hfh m _) fun _ => ?_)
      exact Confines.bind (Confines.getMmc m) fun _ => Confines.ite ih (Confines.pure _)

theorem confines_readServer (hm : m ∈ members) (api : SelectApi) (fuel : Nat) :
    Confines members find (readServer E fh api fuel m) := by
  refine Confines.bind (Confines.getMmc m) fun s => ?_
  cases s.readreq with
  | none => exact Confines.pure _
  | some r =>
    refine Confines.bind (confines_fdOf r) fun fd => Confines.bind_getPool fun _ _ => Confines.ite ?_ ?_
    · refine Confines.bind (confines_clearReady api .read fd) fun _ => ?_
      refine Confines.bind (confines_fillBuffer m r) fun filled => Confines.ite ?_ ?_
      · refine Confines.bind ?_ fun _ => Confines.pure _
        cases filled with
        | failure => exact confines_mmcServerDeactivate hfh m
        | retry => exact Confines.bind (Confines.getMmc m) fun _ => confines_mmcSelectRetry hfh _ m _
        | more => exact confines_queueReading hm
        | done => exact Confines.pure ()
        | again => exact Confines.pure ()
      · refine Confines.bind (confines_readRequests hfh m fuel) fun result => ?_
        cases result with
        | none => exact Confines.pure _
        | some result =>
          exact Confines.bind (Confines.doWhen (confines_queueReading hm)) fun _ => Confines.pure _
    · exact Confines.bind (confines_queueReading hm) fun _ => Confines.pure _

/-- **The loop over a queue** meets members only. -/
theorem confines_serverLoop (api : SelectApi) (d : Direction) (b : Bool) (fuel i : Nat) :
    Confines members find (serverLoop E fh api d b fuel i) := by
  induction fuel generalizing i with
  | zero => exact Confines.outOfFuel
  | succ fuel ih =>
    refine Confines.bind_getPool fun p hp => ?_
    cases hnext : (p.queue d b)[i]? with
    | none => exact Confines.pure _
    | some m =>
      have hmem := List.mem_of_getElem? hnext
      refine Confines.bind ?_ fun _ => Confines.ite (ih _) (Confines.pure _)
      cases d with
      | write => exact confines_sendServer hfh (hp.sending hmem) api fuel b
      | read => exact confines_readServer hfh (hp.reading hmem) api fuel

theorem confines_startRound (api : SelectApi) (fuel : Nat) (b : Bool) :
    Confines members find (startRound E fh api fuel b) := by
  refine Confines.bind (Confines.modifyPool fun p hp => ?_) fun _ =>
    Confines.bind (confines_waitReady api b) fun _ => ?_
  · have hnil {buf : Bool → List Mmc} : ∀ m ∈ ([] : List Mmc), m ∈ members ∨ m ∈ buf (!p.cur) :=
      fun m hm => absurd hm List.not_mem_nil
    exact hp.queues rfl rfl (fun _ _ => MmcPool.Confined.mem_update hnil)
      (fun _ _ => MmcPool.Confined.mem_update hnil) fun _ => Or.inr
  · refine Confines.bind Confines.getInTimeout fun _ => Confines.bind (Confines.setInTimeout true) fun _ => ?_
    refine Confines.bind (Confines.doWhen ?_) fun _ => Confines.bind (Confines.setInTimeout _) fun _ =>
      Confines.bind (Confines.modifyPool fun _ hp => hp.same rfl rfl rfl rfl rfl) fun _ => Confines.pure _
    exact Confines.bind (confines_timeoutLoop hfh api _ b _ fuel 0) fun _ =>
      confines_timeoutLoop hfh api _ b _ fuel 0

/-- **A round** keeps the queues. -/
theorem confines_mmcPoolSelect (fuel : Nat) : Confines members find (mmcPoolSelect E fh fuel) := by
  refine Confines.bind (Confines.step E _) fun _ => Confines.bind_getPool fun p _ => ?_
  refine Confines.bind (Confines.bind_getPool fun p _ => Confines.ite (Confines.pure _)
    (confines_startRound hfh _ fuel _)) fun b => ?_
  refine Confines.bind (confines_serverLoop hfh _ _ _ fuel 0) fun _ => Confines.doWhen ?_
  refine Confines.bind (confines_serverLoop hfh _ _ _ fuel 0) fun _ => Confines.doWhen ?_
  exact Confines.modifyPool fun _ hp => hp.same rfl rfl rfl rfl rfl

/-! ## Multi-key gets and failover -/

omit hfh

theorem confines_beginBuild (m : Mmc) (a : GetArgs) : Confines members find (beginBuild E m a) := by
  refine Confines.bind (Confines.bind (confines_mmcPoolRequest _ _ _ _) fun _ =>
    Confines.bind (Confines.modifyReq _ _) fun _ => Confines.pure _) fun r => ?_
  refine Confines.bind (Confines.step E _) fun _ => Confines.bind (Confines.modifyMmc m _) fun _ => ?_
  refine Confines.bind ?_ fun _ => Confines.bind_getPool fun _ _ => Confines.modifyReq r _
  cases a.failedRequest with
  | none => exact Confines.pure ()
  | some f => exact Confines.bind (Confines.getReq f) fun _ => Confines.modifyReq r _

theorem confines_endBuild (r : ReqId) : Confines members find (endBuild r) :=
  Confines.bind_getPool fun _ _ => Confines.modifyReq r _

include hfh

theorem confines_openBuild (hm : m ∈ members) (fuel : Nat) (a : GetArgs) (key : Bytes) :
    Confines members find (openBuild E fuel fh m a key) := by
  refine Confines.bind (Confines.getMmc m) fun s => ?_
  cases s.buildreq with
  | none =>
    refine Confines.bind (Confines.modifyPool fun p hp => ?_) fun _ => confines_beginBuild m a
    exact hp.queues rfl rfl (fun _ _ => Or.inr) (fun _ _ => Or.inr) (MmcPool.Confined.mem_push hm)
  | some r =>
    refine Confines.bind (Confines.getReq r) fun _ => Confines.doWhen ?_
    refine Confines.bind (Confines.step E _) fun _ => Confines.bind (confines_endBuild r) fun _ => ?_
    refine Confines.bind (confines_mmcPoolSchedule hfh hm r) fun _ => ?_
    exact Confines.bind (confines_mmcPoolSelect hfh fuel) fun _ =>
      Confines.bind (confines_beginBuild m a) fun _ => Confines.step E _

include hfind

theorem confines_mmcPoolScheduleGet (fuel : Nat) (a : GetArgs) (zkey : ZKey) :
    Confines members find (mmcPoolScheduleGet E fuel fh a zkey) := by
  unfold mmcPoolScheduleGet
  cases mmcPrepareKeyEx zkey.str E.keyPrefix with
  | none => exact Confines.pure _
  | some key =>
    refine Confines.bind_find (findsMember_mmcPoolFind hfind key) fun m hm => ?_
    refine Confines.bind (confines_mmcServerValid m) fun _ => Confines.ite (Confines.pure _) ?_
    refine Confines.bind (confines_openBuild hfh hm fuel a key) fun _ => ?_
    refine Confines.bind (Confines.getMmc m) fun s => ?_
    cases s.buildreq with
    | none => exact Confines.nullPointer
    | some r => exact Confines.bind_getPool fun _ _ => Confines.bind (Confines.modifyReq r _) fun _ =>
        Confines.pure _

omit hfh

/-- The server a request is failed over to is a member. -/
theorem findsMember_failoverTarget (r : ReqId) (bound : Nat) (m : Mmc) :
    FindsMember members find (failoverTarget E r bound m) := by
  induction bound generalizing m with
  | zero =>
    refine FindsMember.bind (Confines.modifyReq r _) fun _ => FindsMember.bind_getPool fun p hp => ?_
    refine FindsMember.bind (Confines.getReq r) fun q => FindsMember.bind (Confines.modifyReq r _) fun _ => ?_
    exact FindsMember.bind (confines_mmcServerValid _) fun _ =>
      FindsMember.pure (mmcPoolFindNext_mem hfind hp _ _ _ _)
  | succ bound ih =>
    refine FindsMember.bind (Confines.modifyReq r _) fun _ => FindsMember.bind_getPool fun p hp => ?_
    refine FindsMember.bind (Confines.getReq r) fun q => FindsMember.bind (Confines.modifyReq r _) fun _ => ?_
    exact FindsMember.bind (confines_mmcServerValid _) fun _ =>
      FindsMember.ite (ih _) (FindsMember.pure (mmcPoolFindNext_mem hfind hp _ _ _ _))

/-- **The failover handlers** schedule on members. -/
theorem confines_failoverHandler (fuel depth : Nat) (m : Mmc) (r : ReqId) :
    Confines members find (failoverHandler E fuel depth m r) := by
  induction depth generalizing m r with
  | zero => exact Confines.outOfFuel
  | succ depth ih =>
    refine Confines.bind (Confines.step E _) fun _ => Confines.bind (Confines.getReq r) fun q => ?_
    cases q.failoverHandler with
    | null => exact Confines.bind (confines_mmcPoolRelease _) fun _ => Confines.pure _
    | pool =>
      refine Confines.bind (Confines.getReq r) fun _ => Confines.bind_getPool fun _ _ => Confines.ite ?_ ?_
      · exact Confines.bind_find (findsMember_failoverTarget hfind r _ m) fun _ hm =>
          confines_mmcPoolSchedule ih hm r
      · exact Confines.bind (confines_mmcPoolRelease _) fun _ => Confines.pure _
    | value c =>
      refine Confines.bind (Confines.getReq r) fun _ => Confines.ite ?_ ?_
      · exact Confines.bind (confines_mmcPoolRelease _) fun _ => Confines.pure _
      · refine Confines.bind (Confines.step E _) fun _ => Confines.bind (Confines.getCall c) fun _ => ?_
        refine Confines.bind (Confines.forEach (fun zkey => ?_) _) fun _ =>
          Confines.bind (confines_mmcPoolRelease _) fun _ => Confines.pure _
        refine Confines.bind (Confines.getCall c) fun _ => Confines.doWhen ?_
        refine Confines.bind (Confines.step E _) fun _ => Confines.bind (Confines.getReq r) fun _ => ?_
        exact Confines.bind (confines_mmcPoolScheduleGet ih hfind fuel _ zkey) fun _ => Confines.pure _

/-! ## Operations -/

omit hfind

include hfh

theorem confines_mmcPoolSchedulePending (bound : Nat) :
    Confines members find (mmcPoolSchedulePending E fh bound) := by
  induction bound with
  | zero => exact Confines.outOfFuel
  | succ bound ih =>
    refine Confines.bind_getPool fun p hp => ?_
    cases hpending : p.pending with
    | nil => exact Confines.pure ()
    | cons m rest =>
      have hm : m ∈ members := hp.pending (hpending ▸ List.mem_cons_self)
      have hserver : Confines members find (schedulePendingServer E fh m) := by
        refine Confines.bind (Confines.getMmc m) fun s => Confines.bind (Confines.step E _) fun _ => ?_
        cases s.buildreq with
        | none => exact Confines.nullPointer
        | some r =>
          exact Confines.bind (confines_endBuild r) fun _ =>
            Confines.bind (confines_mmcPoolSchedule hfh hm r) fun _ =>
              Confines.bind (Confines.getMmc m) fun _ => Confines.bind (Confines.step E _) fun _ =>
                Confines.modifyMmc m _
      refine Confines.bind (Confines.modifyPool fun p' hp' => ?_) fun _ => Confines.bind hserver fun _ => ih
      refine hp'.queues rfl rfl (fun _ _ => Or.inr) (fun _ _ => Or.inr) fun m' hm' => Or.inl ?_
      exact hp.pending (hpending ▸ List.mem_cons_of_mem m hm')

theorem confines_mmcPoolRun (fuel : Nat) : Confines members find (mmcPoolRun E fuel fh) := by
  have hloop (bound : Nat) : Confines members find (runLoop E fuel fh bound) := by
    induction bound with
    | zero => exact Confines.outOfFuel
    | succ bound ih =>
      refine Confines.bind_getPool fun _ _ => Confines.ite ?_ (Confines.pure ())
      exact Confines.bind (confines_mmcPoolSelect hfh fuel) fun _ =>
        Confines.bind (confines_mmcPoolSchedulePending hfh fuel) fun _ => ih
  exact Confines.bind (confines_mmcPoolSchedulePending hfh fuel) fun _ => hloop fuel

omit hfh

include hfind

/-- **An operation** keeps the queues, if it schedules on a member. -/
theorem confines_exec (fuel depth : Nat) (op : PoolOp) (hop : ∀ m a, op = .schedule m a → m ∈ members) :
    Confines members find (op.exec E fuel depth) := by
  have hfh := confines_failoverHandler (E := E) hfind fuel depth
  have hmake (a : RequestArgs) : Confines members find (makeRequest E a) :=
    Confines.bind (confines_mmcPoolRequest _ _ _ _) fun _ => Confines.bind (Confines.modifyReq _ _) fun _ =>
      Confines.pure _
  cases op with
  | discard a => exact Confines.bind (hmake a) fun _ => confines_mmcPoolRelease _
  | schedule m a =>
    exact Confines.bind (hmake a) fun r =>
      Confines.bind (confines_mmcPoolSchedule hfh (hop m a rfl) r) fun _ => Confines.pure _
  | scheduleKey a redundancy =>
    refine Confines.bind (hmake a) fun r => Confines.bind (Confines.getReq r) fun q => ?_
    rw [← mmcPoolScheduleKeySized_length]
    exact Confines.bind (confines_mmcPoolScheduleKeySized hfh hfind _ _ r redundancy) fun _ =>
      Confines.pure _
  | scheduleGet a zkey =>
    exact Confines.bind (confines_mmcPoolScheduleGet hfh hfind fuel _ zkey) fun _ => Confines.pure _
  | schedulePending => exact confines_mmcPoolSchedulePending hfh fuel
  | select => exact confines_mmcPoolSelect hfh fuel
  | run => exact confines_mmcPoolRun hfh fuel

end Functions

end PeclMemcache
