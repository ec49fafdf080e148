import PeclMemcache.Select

set_option autoImplicit false

/-! # Multi-key gets and failover handlers

`mmc_pool_schedule_get`, the three failover handlers, and the recursion they close: a handler
schedules the request or its keys on other servers, which may fail in turn. `failoverHandler depth`
is the call of a request's handler with at most `depth` nested calls of handlers. -/

namespace PeclMemcache

variable (E : Env)

/-! ## Keys -/

/-- A byte of a prepared key: anything up to the space becomes an underscore. -/
def keyByte (b : UInt8) : UInt8 := if 32 < b then b else 95

/-- `mmc_prepare_key_ex`: the prepared key, or `none` for an empty one. The lengths are `unsigned
    int`, and so is their sum. -/
def mmcPrepareKeyEx (key keyPrefix : Bytes) : Option Bytes :=
  let keyLen := key.length % 2 ^ 32
  if keyLen = 0 then none
  else
    let resultLen := min ((keyPrefix.length + keyLen) % 2 ^ 32) MMC_MAX_KEY_LEN
    some (((keyPrefix ++ key).map keyByte).take resultLen)

theorem length_of_mmcPrepareKeyEx {key keyPrefix prepared : Bytes}
    (h : mmcPrepareKeyEx key keyPrefix = some prepared) : prepared.length ≤ MMC_MAX_KEY_LEN := by
  unfold mmcPrepareKeyEx at h
  dsimp only at h
  split at h
  · cases h
  · cases h
    rw [List.length_take]
    exact Nat.le_trans (Nat.min_le_left _ _) (Nat.min_le_right _ _)

/-! ## Building multi-key gets -/

/-- `protocol->begin_get`. -/
def protocolBeginGet (p : WireProtocol) (op : MmcOp) (q : MmcRequest) : MmcRequest :=
  match p with
  | .ascii => mmcAsciiBeginGet q op
  | .binary => mmcBinaryBeginGet q

/-- `protocol->append_get`. -/
def protocolAppendGet (p : WireProtocol) (zkey : ZKey) (key : Bytes) (q : MmcRequest) :
    MmcRequest :=
  match p with
  | .ascii => mmcAsciiAppendGet q key
  | .binary => mmcBinaryAppendGet q zkey key

/-- `protocol->end_get`. -/
def protocolEndGet (p : WireProtocol) (q : MmcRequest) : MmcRequest :=
  match p with
  | .ascii => mmcAsciiEndGet q
  | .binary => mmcBinaryEndGet q

/-- The arguments of `mmc_pool_schedule_get` a new request is begun with. -/
structure GetArgs where
  protocol : MmcProto
  op : MmcOp
  valueHandler : Option ValueHandler
  call : Nat
  failover : FailoverHandler
  failedRequest : Option ReqId

/-- Copy the record of failed servers from the request a new one replaces. -/
def copyFailures (r : ReqId) : Option ReqId → PoolM Unit
  | some f => do
    let failed ← getReq f
    modifyReq r fun q => { q with
      failedServers := failed.failedServers, failedIndex := failed.failedIndex }
  | none => pure ()

/-- Put a new request into the build slot of the server and begin the command. -/
def beginBuild (m : Mmc) (a : GetArgs) : PoolM Unit := do
  let r ← mmcPoolRequestGet E a.protocol a.valueHandler a.call a.failover
  step E (.build m r)
  modifyMmc m fun s => { s with buildreq := some r }
  copyFailures r a.failedRequest
  let protocol := (← getPool).protocol
  modifyReq r (protocolBeginGet protocol a.op)

/-- `end_get` on the request being built. -/
def endBuild (r : ReqId) : PoolM Unit := do
  let protocol := (← getPool).protocol
  modifyReq r (protocolEndGet protocol)

/-- Whether the datagram being built has no room for another key. -/
def datagramFull (a : GetArgs) (q : MmcRequest) (key : Bytes) : Prop :=
  a.protocol = .udp ∧ MMC_MAX_UDP_LEN < q.sendbuf.value.length + key.length + 3

instance (a : GetArgs) (q : MmcRequest) (key : Bytes) : Decidable (datagramFull a q key) := by
  unfold datagramFull; infer_instance

/-- `append_get` on `mmc->buildreq`. -/
def appendBuild (m : Mmc) (zkey : ZKey) (key : Bytes) : PoolM MmcResult := do
  match (← getMmc m).buildreq with
  | none => nullPointer
  | some r =>
    let protocol := (← getPool).protocol
    modifyReq r (protocolAppendGet protocol zkey key)
    return .ok

variable (fuel : Nat)

/-- Make sure `mmc->buildreq` has room for the key, flushing a full datagram. -/
def openBuild (fh : Failover) (m : Mmc) (a : GetArgs) (key : Bytes) : PoolM Unit := do
  match (← getMmc m).buildreq with
  | none =>
    modifyPool fun p => { p with pending := mmcQueuePush p.pending m }
    beginBuild E m a
  | some r =>
    doWhen (datagramFull a (← getReq r) key) do
      step E (.flush m)
      endBuild r
      let _ ← mmcPoolSchedule E fh m r
      mmcPoolSelect E fh fuel
      beginBuild E m a
      step E (.flushed m)

/-- `mmc_pool_schedule_get`. -/
def mmcPoolScheduleGet (fh : Failover) (a : GetArgs) (zkey : ZKey) : PoolM MmcResult := do
  match mmcPrepareKeyEx zkey.str E.keyPrefix with
  | none => return .failure
  | some key =>
    let m ← mmcPoolFind E key
    let valid ← mmcServerValid E m
    if !valid then return .failure
    else
      openBuild E fuel fh m a key
      appendBuild m zkey key

/-! ## Failover handlers -/

/-- `mmc_pool_failover_handler_null`. -/
def mmcPoolFailoverHandlerNull (r : ReqId) : PoolM MmcResult := do
  mmcPoolRelease E (some r)
  return .failure

/-- The loop of `mmc_pool_failover_handler`, `bound` being what is left of the probes. -/
def failoverTarget (r : ReqId) : Nat → Mmc → PoolM Mmc
  | bound, m => do
    modifyReq r fun q => { q with failedServers := mmcQueuePush q.failedServers m }
    let p ← getPool
    let q ← getReq r
    let (m, i) := mmcPoolFindNext p.findServer E.maxFailoverAttempts q.key q.failedServers
      q.failedIndex
    modifyReq r fun q => { q with failedIndex := i }
    let valid ← mmcServerValid E m
    match bound with
    | 0 => return m
    | bound + 1 =>
      if !valid && i < E.maxFailoverAttempts && q.failedServers.length < p.servers.length then
        failoverTarget r bound m
      else return m

/-- `mmc_pool_failover_handler`. -/
def mmcPoolFailoverHandler (fh : Failover) (m : Mmc) (r : ReqId) : PoolM MmcResult := do
  let q ← getReq r
  let p ← getPool
  if E.allowFailover && q.failedIndex < E.maxFailoverAttempts
      && q.failedServers.length < p.servers.length then
    let m ← failoverTarget E r (E.maxFailoverAttempts - q.failedIndex) m
    mmcPoolSchedule E fh m r
  else
    mmcPoolRelease E (some r)
    return .failure

/-- Hand one key of the call to `mmc_pool_schedule_get` unless it has a result. -/
def rescheduleKey (fh : Failover) (r : ReqId) (c : Nat) (zkey : ZKey) : PoolM Unit := do
  let call ← getCall c
  doWhen (zkey.str ∉ call.results) do
    step E (.handed c zkey)
    let q ← getReq r
    let _ ← mmcPoolScheduleGet E fuel fh
      { protocol := .udp, op := if call.gets then .gets else .get, valueHandler := q.valueHandler,
        call := q.call, failover := q.failoverHandler, failedRequest := some r } zkey

/-- `mmc_value_failover_handler`. -/
def mmcValueFailoverHandler (fh : Failover) (r : ReqId) (c : Nat) : PoolM MmcResult := do
  let q ← getReq r
  if !E.allowFailover || E.maxFailoverAttempts ≤ q.failedServers.length then
    mmcPoolRelease E (some r)
    return .failure
  else
    step E (.valueFailover c)
    let call ← getCall c
    forEach (rescheduleKey E fuel fh r c) call.keys
    mmcPoolRelease E (some r)
    return .ok

/-- The call of `request->failover_handler`. -/
def failoverHandler : Nat → Failover
  | 0 => fun _ _ => outOfFuel
  | depth + 1 => fun m r => do
    step E (.failover m r)
    match (← getReq r).failoverHandler with
    | .null => mmcPoolFailoverHandlerNull E r
    | .pool => mmcPoolFailoverHandler E (failoverHandler depth) m r
    | .value c => mmcValueFailoverHandler E fuel (failoverHandler depth) r c

/-! ## Running the pool -/

/-- The body of the loop of `mmc_pool_schedule_pending` for the server it popped. -/
def schedulePendingServer (fh : Failover) (m : Mmc) : PoolM Unit := do
  let build := (← getMmc m).buildreq
  step E (.schedulePending m build)
  match build with
  | none => nullPointer
  | some r =>
    endBuild r
    let _ ← mmcPoolSchedule E fh m r
    let build := (← getMmc m).buildreq
    step E (.clearBuild m r build)
    modifyMmc m fun s => { s with buildreq := none }

/-- `mmc_pool_schedule_pending`. -/
def mmcPoolSchedulePending (fh : Failover) : Nat → PoolM Unit
  | 0 => outOfFuel
  | bound + 1 => do
    match (← getPool).pending with
    | [] => return ()
    | m :: rest =>
      modifyPool fun p => { p with pending := rest }
      schedulePendingServer E fh m
      mmcPoolSchedulePending fh bound

/-- The loop of `mmc_pool_run`. -/
def runLoop (fh : Failover) : Nat → PoolM Unit
  | 0 => outOfFuel
  | bound + 1 => do
    let p ← getPool
    if p.reading ≠ [] ∨ p.sending ≠ [] then
      mmcPoolSelect E fh fuel
      mmcPoolSchedulePending E fh fuel
      runLoop fh bound
    else return ()

/-- `mmc_pool_run`. -/
def mmcPoolRun (fh : Failover) : PoolM Unit := do
  mmcPoolSchedulePending E fh fuel
  runLoop E fuel fh fuel

end PeclMemcache
