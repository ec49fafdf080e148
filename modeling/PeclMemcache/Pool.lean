import PeclMemcache.World

set_option autoImplicit false

/-! # The server pool

The functions of `memcache_pool.c` that schedule requests on servers, open and drop connections, and
fail requests over. They call each other in a circle, and every circle goes through a call of
`request->failover_handler`; so each takes that call as the parameter `fh`, and `failoverHandler` in
`Failover.lean` ties the knot. -/

namespace PeclMemcache

/-- A call `request->failover_handler(pool, mmc, request, request->failover_handler_param)`. -/
abbrev Failover := Mmc → ReqId → PoolM MmcResult

/-- Run an action if a condition holds. -/
def doWhen (c : Prop) [Decidable c] (x : PoolM Unit) : PoolM Unit := if c then x else pure ()

variable (E : Env)

/-! ## Streams -/

/-- `_mmc_server_disconnect` on the stream; whether the descriptor of a persistent stream is closed
    with it makes no difference to the struct. -/
def MmcStream.disconnect (io : MmcStream) : MmcStream :=
  { io with
    buffer := {}
    stream := none
    fd := if io.stream.isSome then 0 else io.fd
    status := .disconnected }

/-- The two assignments of `mmc_server_deactivate` after the disconnect. -/
def MmcStream.markFailed (io : MmcStream) (time : Int) : MmcStream :=
  { io with status := .failed, failed := time }

/-- What `mmc_server_connect` writes once the stream is open. -/
def MmcStream.opened (io : MmcStream) (c fd : Nat) (t : MmcProto) : MmcStream :=
  { io with stream := some c, fd, status := .connected, buffered := t = .udp }

/-- `mmc_server_sleep`. -/
def mmcServerSleep (s : MmcServer) : MmcServer :=
  { s with
    tcp := { s.tcp with buffer := {} }
    udp := { s.udp with buffer := {} }
    sendreq := none, readreq := none, buildreq := none, sendqueue := [], readqueue := []
    error := none }

/-- The stream `request->io` points to. -/
def ioOf (r : ReqId) : PoolM (Mmc × MmcProto) := do
  match (← getReq r).io with
  | some io => pure io
  | none => nullPointer

/-- `request->io->fd`. -/
def fdOf (r : ReqId) : PoolM Nat := do
  let (m, t) ← ioOf r
  return ((← getMmc m).io t).fd

/-- `mmc_server_seterror`. -/
def mmcServerSeterror (m : Mmc) (error : String) (errnum : Int) : PoolM Unit :=
  modifyMmc m fun s => { s with error := some error, errnum }

/-- `mmc_server_failure`. -/
def mmcServerFailure (m : Mmc) (io : Mmc × MmcProto) (error : String) (errnum : Int) :
    PoolM MmcResult := do
  let (result, stream) := ((← getMmc io.1).io io.2).serverFailure
  modifyMmc io.1 fun s => s.modifyIo io.2 fun _ => stream
  doWhen (result = .failure) (mmcServerSeterror m error errnum)
  return result

/-- `mmc_server_valid`. -/
def mmcServerValid (m : Mmc) : PoolM Bool := do
  let s ← getMmc m
  if s.tcp.status ≠ .failed then return true
  else if s.tcp.retryInterval < 0 then return false
  else
    let time ← ask E.time
    return decide (s.tcp.failed + s.tcp.retryInterval ≤ time)

/-! ## Requests -/

/-- Record the release of a request; nothing is recorded for `NULL`. -/
def noteRelease : Option ReqId → PoolM Unit
  | some r => step E (.release r)
  | none => pure ()

/-- `mmc_pool_release`. -/
def mmcPoolRelease (r : Option ReqId) : PoolM Unit := do
  noteRelease E r
  modifyPool fun p => { p with freeRequests := mmcQueuePush p.freeRequests r }

/-- `protocol->reset_request`. -/
def resetRequest : WireProtocol → MmcRequest → MmcRequest
  | .ascii => mmcAsciiResetRequest
  | .binary => mmcBinaryResetRequest

/-- `mmc_queue_pop` on the free list, else `protocol->create_request`. -/
def popFreeRequest : PoolM ReqId := do
  let p ← getPool
  match p.freeRequests with
  | some r :: rest =>
    modifyPool fun p => { p with freeRequests := rest }
    modifyReq r (resetRequest p.protocol)
    return r
  | none :: rest =>
    modifyPool fun p => { p with freeRequests := rest }
    newRequest
  | [] => newRequest

/-- `mmc_pool_request_alloc`. -/
def mmcPoolRequestAlloc (protocol : MmcProto) (failover : FailoverHandler) : PoolM ReqId := do
  let r ← popFreeRequest
  step E (.alloc r)
  modifyReq r fun q =>
    let q := { q with protocol, failoverHandler := failover }
    if protocol = .udp then q.appendSend (List.replicate udpHeaderSize 0) else q
  return r

/-- `mmc_pool_request`. -/
def mmcPoolRequest (protocol : MmcProto) (responseHandler : ResponseHandler) (call : Nat)
    (failover : FailoverHandler) : PoolM ReqId := do
  let r ← mmcPoolRequestAlloc E protocol failover
  modifyReq r fun q => { q with responseHandler, call }
  return r

/-- `mmc_pool_request_get`. -/
def mmcPoolRequestGet (protocol : MmcProto) (valueHandler : Option ValueHandler) (call : Nat)
    (failover : FailoverHandler) : PoolM ReqId := do
  let r ← mmcPoolRequest E protocol .null call failover
  modifyReq r fun q => { q with valueHandler }
  return r

/-- The copying part of `mmc_pool_clone_request`. -/
def copyRequest (protocol : WireProtocol) (q clone : MmcRequest) : MmcRequest :=
  let clone := { clone with
    responseHandler := q.responseHandler
    call := q.call
    valueHandler := q.valueHandler
    parse := q.parse
    key := q.key.take q.keyLen ++ clone.key.drop q.keyLen
    keyLen := q.keyLen
    sendbuf := { clone.sendbuf with value := q.sendbuf.value } }
  match protocol with
  | .ascii => clone
  | .binary => mmcBinaryCloneRequest clone q

/-- `mmc_pool_clone_request`. -/
def mmcPoolCloneRequest (r : ReqId) : PoolM ReqId := do
  let clone ← mmcPoolRequestAlloc E (← getReq r).protocol .null
  let q ← getReq r
  let protocol := (← getPool).protocol
  modifyReq clone (copyRequest protocol q)
  let made ← getReq clone
  step E (.clone r clone made)
  return clone

/-! ## Finding servers -/

/-- `"%s-%d"`. -/
def keytmp (key : Bytes) (i : Nat) : Bytes := key ++ [45] ++ decimal i

/-- The probes of `mmc_pool_find_next`, `fuel` being `max - i`. -/
def findNextFrom (find : Bytes → Mmc) (max : Nat) (key : Bytes) (skip : List Mmc) :
    Nat → Nat → Mmc × Nat
  | 0, i => (find (keytmp key i), i + 1)
  | fuel + 1, i =>
    let m := find (keytmp key i)
    if m ∈ skip ∧ i + 1 < max then findNextFrom find max key skip fuel (i + 1) else (m, i + 1)

/-- `mmc_pool_find_next`: the server and the new `*last_index`. -/
def mmcPoolFindNext (find : Bytes → Mmc) (max : Nat) (key : Bytes) (skip : List Mmc) (i : Nat) :
    Mmc × Nat :=
  findNextFrom find max key skip (max - i) i

/-- The probes end at the first server that is not skipped, or at the limit. -/
theorem findNextFrom_cases {find : Bytes → Mmc} {max : Nat} {key : Bytes} {skip : List Mmc} :
    ∀ fuel i, i + fuel = max → 0 < fuel →
      ∃ j, i ≤ j ∧ j < max ∧
        findNextFrom find max key skip fuel i = (find (keytmp key j), j + 1) ∧
        (∀ k, i ≤ k → k < j → find (keytmp key k) ∈ skip) ∧
        (find (keytmp key j) ∉ skip ∨ j + 1 = max) := by
  intro fuel
  induction fuel with
  | zero => intro i _ h; exact absurd h (Nat.lt_irrefl 0)
  | succ fuel ih =>
    intro i hi _
    rw [findNextFrom]
    split
    · next hskip =>
      obtain ⟨j, hij, hj, hfind, hbetween, hlast⟩ := ih (i + 1) (by omega) (by omega)
      refine ⟨j, by omega, hj, hfind, ?_, hlast⟩
      intro k hik hkj
      rcases Nat.eq_or_lt_of_le hik with rfl | hik
      · exact hskip.1
      · exact hbetween k hik hkj
    · next hstop =>
      refine ⟨i, Nat.le_refl i, by omega, rfl, fun k hik hki => by omega, ?_⟩
      rcases not_and_or.mp hstop with hnew | hlast
      · exact Or.inl hnew
      · exact Or.inr (by omega)

/-- The failover loop of `mmc_pool_find`, `fuel` being `max_failover_attempts - i`. -/
def findValidFrom (key : Bytes) : Nat → Nat → PoolM Mmc
  | fuel, i => do
    let (m, i') := mmcPoolFindNext (← getPool).findServer E.maxFailoverAttempts key [] i
    let valid ← mmcServerValid E m
    match fuel with
    | 0 => return m
    | fuel + 1 =>
      if !valid && i' < E.maxFailoverAttempts then findValidFrom key fuel i' else return m

/-- `mmc_pool_find`. -/
def mmcPoolFind (key : Bytes) : PoolM Mmc := do
  let m := (← getPool).findServer key
  let valid ← mmcServerValid E m
  if !valid && E.allowFailover then findValidFrom E key E.maxFailoverAttempts 0 else return m

/-! ## Dropping and opening connections -/

/-- The requests `mmc_server_deactivate` hands to their failover handlers. -/
def MmcServer.failing (s : MmcServer) : List ReqId :=
  let push (q : List ReqId) (r : Option ReqId) := match r with
    | some r => mmcQueuePush q r
    | none => q
  push (push s.readqueue s.readreq) s.buildreq

/-- The first part of `mmc_server_deactivate`: the server is disconnected, marked as failed and taken
    out of the queues of the pool, and its requests are handed to the caller. -/
def takeOffline (m : Mmc) : PoolM (List ReqId) := do
  step E (.deactivate m)
  let time ← ask E.time
  modifyMmc m fun s => { s with
    tcp := s.tcp.disconnect.markFailed time, udp := s.udp.disconnect.markFailed time }
  modifyPool fun p => { p with
    sendingBuf := Function.update p.sendingBuf p.cur (mmcQueueRemove p.sending m)
    readingBuf := Function.update p.readingBuf p.cur (mmcQueueRemove p.reading m) }
  let failing := (← getMmc m).failing
  modifyMmc m fun s => { s with
    sendqueue := [], sendreq := none, readqueue := [], readreq := none, buildreq := none }
  return failing

variable (fh : Failover)

/-- `mmc_server_deactivate`. -/
def mmcServerDeactivate (m : Mmc) : PoolM Unit := do
  let failing ← takeOffline E m
  forEach (fun r => do let _ ← fh m r) failing

/-- `mmc_server_connect`, opening the stream for the request `cause`. -/
def mmcServerConnect (m : Mmc) (t : MmcProto) (cause : Option ReqId) : PoolM MmcResult := do
  doWhen (((← getMmc m).io t).stream.isSome)
    (modifyMmc m fun s => s.modifyIo t MmcStream.disconnect)
  let (c, fd) ← ask fun tick => (tick, E.connect tick)
  match fd with
  | some fd =>
    step E (.connect m t c cause)
    modifyMmc m fun s => { s.modifyIo t fun io => io.opened c fd t with error := none }
    return .ok
  | none =>
    step E (.connectFailed m t cause)
    mmcServerSeterror m "Connection failed" 0
    mmcServerDeactivate E fh m
    return .failure

/-- `mmc_pool_open`. -/
def mmcPoolOpen (m : Mmc) (t : MmcProto) (cause : Option ReqId) : PoolM MmcResult := do
  match ((← getMmc m).io t).status with
  | .connected => return .ok
  | .unknown => return .ok
  | .disconnected => mmcServerConnect E fh m t cause
  | .failed => mmcServerConnect E fh m t cause

/-! ## Scheduling -/

/-- Write the UDP header: the request id and a total of one datagram. -/
def setUdpHeader (reqid : Nat) (value : Bytes) : Bytes :=
  bigEndian 2 reqid ++ (value.drop 2).take 2 ++ bigEndian 2 1 ++ value.drop 6

/-- Whether `mmc_pool_slot_send` tries the datagram stream. -/
def wantsUdp (s : MmcServer) (q : MmcRequest) : Prop :=
  q.protocol = .udp ∧ s.udp.port ≠ 0 ∧ q.sendbuf.value.length ≤ s.udp.chunkSize

instance (s : MmcServer) (q : MmcRequest) : Decidable (wantsUdp s q) := by
  unfold wantsUdp; infer_instance

/-- The last lines of `mmc_pool_slot_send`: the request takes the send slot. -/
def takeSlot (m : Mmc) (r old : Option ReqId) : PoolM MmcResult := do
  step E (.slot m r old)
  modifyMmc m fun s => { s with sendreq := r }
  return .ok

/-- The TCP branch of `mmc_pool_slot_send` and the one for a server that cannot be reached. -/
def slotSendTcp (m : Mmc) (r : ReqId) (old : Option ReqId) (handleFailover : Bool) :
    PoolM MmcResult := do
  let opened ← mmcPoolOpen E fh m .tcp (some r)
  if opened = .ok then
    modifyReq r fun q => { q with
      sendbuf := if q.protocol = .udp then { q.sendbuf with idx := q.sendbuf.idx + udpHeaderSize }
        else q.sendbuf
      io := some (m, .tcp)
      read := false }
    takeSlot E m (some r) old
  else
    step E (.slot m none old)
    modifyMmc m fun s => { s with sendreq := none }
    if handleFailover then fh m r else return .failure

/-- `mmc_pool_slot_send`. -/
def mmcPoolSlotSend (m : Mmc) (request : Option ReqId) (handleFailover : Bool) :
    PoolM MmcResult := do
  let s ← getMmc m
  match request with
  | none => takeSlot E m none s.sendreq
  | some r =>
    if wantsUdp s (← getReq r) then
      let opened ← mmcPoolOpen E fh m .udp (some r)
      if opened = .ok then
        let reqid := (← getMmc m).reqid
        modifyMmc m fun s => { s with reqid := (reqid + 1) % 2 ^ 16 }
        modifyReq r fun q => { q with
          io := some (m, .udp), read := true, udp := { reqid, seqid := 0, total := 0 },
          sendbuf := { q.sendbuf with value := setUdpHeader reqid q.sendbuf.value } }
        takeSlot E m (some r) s.sendreq
      else slotSendTcp E fh m r s.sendreq handleFailover
    else slotSendTcp E fh m r s.sendreq handleFailover

/-- The second half of `mmc_pool_schedule`: the request joins the line for responses. -/
def scheduleRead (m : Mmc) (r : ReqId) : PoolM MmcResult := do
  if (← getMmc m).readreq = none then
    modifyMmc m fun s => { s with readreq := some r }
    modifyPool fun p => { p with
      readingBuf := Function.update p.readingBuf p.cur (mmcQueuePush p.reading m) }
    return .ok
  else
    modifyMmc m fun s => { s with readqueue := mmcQueuePush s.readqueue r }
    return .ok

/-- What `mmc_pool_schedule` resets: the start position of the command and the read buffer. -/
def MmcRequest.rewind (q : MmcRequest) : MmcRequest :=
  { q with sendbuf := { q.sendbuf with idx := 0 }, readbuf := q.readbuf.reset }

/-- `mmc_pool_schedule`. -/
def mmcPoolSchedule (m : Mmc) (r : ReqId) : PoolM MmcResult := do
  step E (.schedule m r)
  let valid ← mmcServerValid E m
  if !valid then fh m r
  else
    modifyReq r MmcRequest.rewind
    if (← getMmc m).sendreq = none then
      let result ← mmcPoolSlotSend E fh m (some r) false
      if result ≠ .ok then fh m r
      else
        step E (.accept m r)
        modifyPool fun p => { p with
          sendingBuf := Function.update p.sendingBuf p.cur (mmcQueuePush p.sending m) }
        scheduleRead m r
    else
      step E (.accept m r)
      modifyMmc m fun s => { s with sendqueue := mmcQueuePush s.sendqueue r }
      scheduleRead m r

/-- The loop of `mmc_pool_schedule_key` over the further copies: `m` is the server used last. -/
def scheduleCopies (key : Bytes) (r : ReqId) : Nat → Mmc → List Mmc → Nat → PoolM Unit
  | 0, _, _, _ => return ()
  | copies + 1, m, skip, i => do
    let skip := mmcQueuePush skip m
    let (m, i) := mmcPoolFindNext (← getPool).findServer E.maxFailoverAttempts key skip i
    step E (.copyTarget m skip)
    let valid ← mmcServerValid E m
    doWhen valid do
      let clone ← mmcPoolCloneRequest E r
      let _ ← mmcPoolSchedule E fh m clone
    scheduleCopies key r copies m skip i

/-- The servers that are chosen for the copies, valid or not. -/
def copyTargets (find : Bytes → Mmc) (max : Nat) (key : Bytes) : Nat → Mmc → List Mmc → Nat → List Mmc
  | 0, _, _, _ => []
  | copies + 1, m, skip, i =>
    let skip := mmcQueuePush skip m
    let next := mmcPoolFindNext find max key skip i
    next.1 :: copyTargets find max key copies next.1 skip next.2

/-- `mmc_pool_schedule_key`. -/
def mmcPoolScheduleKey (key : Bytes) (r : ReqId) (redundancy : Nat) : PoolM MmcResult := do
  let m ← mmcPoolFind E key
  let result ← mmcPoolSchedule E fh m r
  doWhen (1 < redundancy) do
    let servers := (← getPool).servers.length
    scheduleCopies E fh key r (min (redundancy - 1) (servers - 1)) m [] 0
  return result

end PeclMemcache
