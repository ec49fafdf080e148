import PeclMemcache.Frame

set_option autoImplicit false

/-! # Runs of a pool

The operations an API function performs on the pool, and the runs made of them: an idle pool, then any
sequence of operations. -/

namespace PeclMemcache

open Stateful

/-! ## Operations -/

/-- The fields of a request that the encoders and `mmc_prepare_key` write. -/
def MmcRequest.withContent (q content : MmcRequest) : MmcRequest :=
  { q with
    key := content.key, keyLen := content.keyLen, parse := content.parse, value := content.value
    bin := content.bin, sendbuf := { q.sendbuf with value := content.sendbuf.value } }

/-- What an API function makes a request of; `content` is the encoder. -/
structure RequestArgs where
  protocol : MmcProto := .tcp
  responseHandler : ResponseHandler := .stored
  valueHandler : Option ValueHandler := none
  call : Nat := 0
  failover : FailoverHandler := .pool
  content : MmcRequest → MmcRequest := id

/-- Allocate a request and build its command. -/
def makeRequest (E : Env) (a : RequestArgs) : PoolM ReqId := do
  let r ← mmcPoolRequest E a.protocol a.responseHandler a.call a.failover
  modifyReq r fun q => { q.withContent (a.content q) with valueHandler := a.valueHandler }
  return r

/-- What API functions do with a pool. -/
inductive PoolOp
  /-- A request is built and released, its key or its value being invalid. -/
  | discard (a : RequestArgs)
  /-- A request is built and scheduled on a given server. -/
  | schedule (m : Mmc) (a : RequestArgs)
  /-- A request is built and scheduled by its key. -/
  | scheduleKey (a : RequestArgs) (redundancy : Nat)
  /-- A key of a multi-key get is scheduled. -/
  | scheduleGet (a : GetArgs) (zkey : ZKey)
  | schedulePending
  | select
  | run

variable (E : Env) (fuel depth : Nat)

/-- One operation. -/
def PoolOp.exec : PoolOp → PoolM Unit
  | .discard a => do
    let r ← makeRequest E a
    mmcPoolRelease E (some r)
  | .schedule m a => do
    let r ← makeRequest E a
    let _ ← mmcPoolSchedule E (failoverHandler E fuel depth) m r
  | .scheduleKey a redundancy => do
    let r ← makeRequest E a
    let q ← getReq r
    let _ ← mmcPoolScheduleKey E (failoverHandler E fuel depth) (q.key.take q.keyLen) r redundancy
  | .scheduleGet a zkey => do
    let _ ← mmcPoolScheduleGet E fuel (failoverHandler E fuel depth)
      { a with failedRequest := none } zkey
  | .schedulePending => mmcPoolSchedulePending E (failoverHandler E fuel depth) fuel
  | .select => mmcPoolSelect E (failoverHandler E fuel depth) fuel
  | .run => mmcPoolRun E fuel (failoverHandler E fuel depth)

/-- A sequence of operations. -/
def runOps (ops : List PoolOp) : PoolM Unit := forEach (PoolOp.exec E fuel depth) ops

/-! ## Invariants of runs -/

section Invariants

variable {E fuel depth}

theorem within_makeRequest {R S : World → World → Prop} (hF : Frame E R S) (a : RequestArgs) :
    Within R S (makeRequest E a) :=
  hF.bind (within_mmcPoolRequest hF _ _ _ _) fun _ => hF.bind (hF.modifyReq _ _) fun _ => hF.pure _

variable {I X : World → Prop} (hfail : ∀ w, I w → X w) {fh : Failover}
  (hselect : ∀ w, I w → wp (mmcPoolSelect E fh fuel) (fun _ => I) X w)
  (hserver : ∀ w m rest, I w → w.pool.pending = m :: rest →
    wp (schedulePendingServer E fh m) (fun _ => I) X { w with pool := { w.pool with pending := rest } })

include hfail hserver

/-- What scheduling the get of the server at the head of the queue keeps, the whole loop keeps. -/
theorem wp_mmcPoolSchedulePending (bound : Nat) {w : World} (hw : I w) :
    wp (mmcPoolSchedulePending E fh bound) (fun _ => I) X w := by
  induction bound generalizing w with
  | zero => exact (wp_outOfFuel _ _ _).mpr (hfail w hw)
  | succ bound ih =>
    rw [mmcPoolSchedulePending, wp_bind, wp_getPool]
    cases hp : w.pool.pending with
    | nil => exact (wp_pure _ _ _ _).mpr hw
    | cons m rest =>
      simp only [wp_bind, wp_modifyPool]
      exact wp_mono (hserver w m rest hw hp) (fun _ _ => ih) fun _ => id

include hselect

/-- What a round and the scheduling of pending gets keep, `mmc_pool_run` keeps. -/
theorem wp_mmcPoolRun {w : World} (hw : I w) : wp (mmcPoolRun E fuel fh) (fun _ => I) X w := by
  have hpending {w : World} (hw : I w) := wp_mmcPoolSchedulePending hfail hserver fuel hw
  have hloop : ∀ (bound : Nat) (w : World), I w → wp (runLoop E fuel fh bound) (fun _ => I) X w := by
    intro bound
    induction bound with
    | zero => exact fun w hw => (wp_outOfFuel _ _ _).mpr (hfail w hw)
    | succ bound ih =>
      intro w hw
      rw [runLoop, wp_bind, wp_getPool]
      refine wp_ite (fun _ => ?_) fun _ => (wp_pure _ _ _ _).mpr hw
      simp only [wp_bind]
      refine wp_mono (hselect w hw) (fun _ w' hw' => ?_) fun _ => id
      exact wp_mono (hpending hw') (fun _ => ih) fun _ => id
  rw [mmcPoolRun, wp_bind]
  exact wp_mono (hpending hw) (fun _ => hloop fuel) fun _ => id

end Invariants

section Frames

variable {E fuel depth} {R S T : World → World → Prop} (hF : Frame E R S)
  (hB : Builds E fuel R S T) {I J X : World → Prop} (hfail : ∀ w, I w → X w)
  (hI : ∀ w w', I w → R w w' → I w') (hX : ∀ w w', I w → S w w' → X w')
  (hserver : ∀ w m rest, I w → w.pool.pending = m :: rest →
    wp (schedulePendingServer E (failoverHandler E fuel depth) m) (fun _ => I) X
      { w with pool := { w.pool with pending := rest } })

include hF hB hfail hI hX hserver

/-- An operation keeps an invariant that a frame respects, if scheduling the get of a pending server
    keeps it, too. What scheduling a key makes of the invariant may be weaker. -/
theorem wp_exec (hJ : ∀ w, I w → J w) (hT : ∀ w w', I w → T w w' → J w') (op : PoolOp) {w : World}
    (hw : I w) : wp (op.exec E fuel depth) (fun _ => J) X w := by
  have hfh := within_failoverHandler hF hB depth
  have hwithin {x : PoolM Unit} (hx : Within R S x) : wp x (fun _ => J) X w :=
    wp_mono (hx w) (fun _ w' h => hJ w' (hI w w' hw h)) fun w' => hX w w' hw
  have hselect (w : World) (hw : I w) :
      wp (mmcPoolSelect E (failoverHandler E fuel depth) fuel) (fun _ => I) X w :=
    wp_mono (within_mmcPoolSelect hF hB hfh fuel w) (fun _ w' => hI w w' hw) fun w' => hX w w' hw
  have hrun {x : PoolM Unit} (hx : wp x (fun _ => I) X w) : wp x (fun _ => J) X w :=
    wp_mono hx (fun _ => hJ) fun _ => id
  cases op with
  | discard a =>
    exact hwithin (hF.bind (within_makeRequest hF a) fun _ => within_mmcPoolRelease hF _)
  | schedule m a =>
    exact hwithin (hF.bind (within_makeRequest hF a) fun r =>
      hF.bind (within_mmcPoolSchedule hF hB hfh m r) fun _ => hF.pure _)
  | scheduleKey a redundancy =>
    exact hwithin (hF.bind (within_makeRequest hF a) fun r => hF.bind (hF.getReq r) fun q =>
      hF.bind (within_mmcPoolScheduleKey hF hB hfh _ r redundancy) fun _ => hF.pure _)
  | scheduleGet a zkey =>
    simp only [PoolOp.exec, wp_bind, wp_pure]
    exact wp_mono (within_mmcPoolScheduleGet hF hB hfh _ zkey w) (fun _ w' => hT w w' hw)
      fun w' => hX w w' hw
  | schedulePending => exact hrun (wp_mmcPoolSchedulePending hfail hserver fuel hw)
  | select => exact hrun (hselect w hw)
  | run => exact hrun (wp_mmcPoolRun hfail hselect hserver hw)

/-- **An invariant that a frame respects holds in every run**, if scheduling the get of a pending
    server keeps it, too. -/
theorem wp_runOps (hT : ∀ w w', I w → T w w' → I w') (ops : List PoolOp) {w : World} (hw : I w) :
    wp (runOps E fuel depth ops) (fun _ => I) X w :=
  wp_forEach (fun op _ hw => wp_exec hF hB hfail hI hX hserver (fun _ => id) hT op hw) ops hw

end Frames

/-! ## Idle pools -/

/-- A server without requests. -/
structure MmcServer.Idle (s : MmcServer) : Prop where
  sendreq : s.sendreq = none
  readreq : s.readreq = none
  buildreq : s.buildreq = none
  sendqueue : s.sendqueue = []
  readqueue : s.readqueue = []

instance (s : MmcServer) : Decidable s.Idle :=
  decidable_of_iff (s.sendreq = none ∧ s.readreq = none ∧ s.buildreq = none ∧ s.sendqueue = [] ∧
      s.readqueue = [])
    ⟨fun ⟨h₁, h₂, h₃, h₄, h₅⟩ => ⟨h₁, h₂, h₃, h₄, h₅⟩,
      fun h => ⟨h.sendreq, h.readreq, h.buildreq, h.sendqueue, h.readqueue⟩⟩

/-- A pool at the start of a run: no requests anywhere, nothing recorded. The streams of the servers
    may be connected or not, persistent or failed; two streams never share a connection, and no
    connection is newer than the run. -/
structure World.Initial (w : World) : Prop where
  idle : ∀ m, (w.mmc m).Idle
  pending : w.pool.pending = []
  sending : ∀ b, w.pool.sendingBuf b = []
  reading : ∀ b, w.pool.readingBuf b = []
  inSelect : w.pool.inSelect = false
  inTimeout : w.inTimeout = false
  freeRequests : w.pool.freeRequests = []
  log : w.log = []
  opened : ∀ m t c, ((w.mmc m).io t).stream = some c → c < w.tick
  distinct : ∀ m t m' t' c, ((w.mmc m).io t).stream = some c →
    ((w.mmc m').io t').stream = some c → m = m' ∧ t = t'

/-- The arguments `memcache_get` passes for an array of keys. -/
def multiGet (call : Nat) : GetArgs where
  protocol := .udp
  op := .get
  valueHandler := some .multi
  call
  failover := .value call
  failedRequest := none

/-- A pool of servers that were never used, added with the given retry interval, and the API calls
    `call`. -/
def World.fresh (servers : List Mmc) (findServer : Bytes → Mmc) (retryInterval : Int)
    (call : Nat → ApiCall) : World where
  pool := { servers, findServer }
  mmc _ := { tcp := { retryInterval } }
  call

theorem World.fresh_initial (servers : List Mmc) (findServer : Bytes → Mmc) (retryInterval : Int)
    (call : Nat → ApiCall) : (World.fresh servers findServer retryInterval call).Initial where
  idle _ := ⟨rfl, rfl, rfl, rfl, rfl⟩
  pending := rfl
  sending _ := rfl
  reading _ := rfl
  inSelect := rfl
  inTimeout := rfl
  freeRequests := rfl
  log := rfl
  opened m t c h := by cases t <;> cases h
  distinct m t m' t' c h := by cases t <;> cases h

end PeclMemcache
