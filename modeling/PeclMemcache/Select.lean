import PeclMemcache.Pool

set_option autoImplicit false

/-! # Select rounds

`mmc_pool_select_impl` and `mmc_pool_poll`. The two differ only in how they ask the operating system
which descriptors are ready and in what they do on a timeout, so they are one definition with the
interface as a parameter. The `for` loops of a round run over a queue that the functions they call
may change; they are indexed by a position in it, as in the source, with a bound `fuel` on the number
of iterations. -/

namespace PeclMemcache

variable (E : Env) (fh : Failover)

/-! ## Readiness of descriptors -/

/-- The direction a descriptor is watched for. -/
inductive Direction
  | write
  | read
  deriving DecidableEq, Repr

/-- `mmc->sendreq` or `mmc->readreq`. -/
def MmcServer.slot (s : MmcServer) : Direction → Option ReqId
  | .write => s.sendreq
  | .read => s.readreq

/-- The queue a loop of the round runs over: buffer `b` of `sending` or of `reading`. -/
def MmcPool.queue (p : MmcPool) (d : Direction) (b : Bool) : List Mmc :=
  match d with
  | .write => p.sendingBuf b
  | .read => p.readingBuf b

def PollFd.reported (x : PollFd) : Direction → Bool
  | .write => x.rpollout
  | .read => x.rpollin

def PollFd.clear (x : PollFd) : Direction → PollFd
  | .write => { x with rpollout := false }
  | .read => { x with rpollin := false }

/-- `mmc_pool_add_poll_event`. -/
def addPollEvent (d : Direction) (fd : Nat) : List PollFd → List PollFd
  | [] => [{ fd, pollin := d = .read, pollout := d = .write }]
  | x :: rest =>
    if x.fd = fd then
      { x with pollin := x.pollin || d = .read, pollout := x.pollout || d = .write } :: rest
    else x :: addPollEvent d fd rest

/-- Clear the event found by `mmc_pool_poll_event_idx`. -/
def clearPollEvent (d : Direction) (fd : Nat) : List PollFd → List PollFd
  | [] => []
  | x :: rest =>
    if x.fd = fd ∧ x.reported d then x.clear d :: rest else x :: clearPollEvent d fd rest

/-- `FD_ISSET`, or `mmc_pool_poll_event_idx` finding an entry. -/
def MmcPool.ready (p : MmcPool) (api : SelectApi) (d : Direction) (fd : Nat) : Bool :=
  match api, d with
  | .select, .write => p.wfds.contains fd
  | .select, .read => p.rfds.contains fd
  | .poll, d => p.pollfds.any fun x => x.fd = fd && x.reported d

/-- `FD_CLR`, or clearing the event in `revents`. -/
def MmcPool.clearReady (p : MmcPool) (api : SelectApi) (d : Direction) (fd : Nat) : MmcPool :=
  match api, d with
  | .select, .write => { p with wfds := p.wfds.filter fun x => x ≠ fd }
  | .select, .read => { p with rfds := p.rfds.filter fun x => x ≠ fd }
  | .poll, d => { p with pollfds := clearPollEvent d fd p.pollfds }

/-! ## Setting up a round -/

/-- `mmc_pool_switch`. -/
def mmcPoolSwitch (p : MmcPool) : MmcPool :=
  { p with
    cur := !p.cur
    sendingBuf := Function.update p.sendingBuf (!p.cur) []
    readingBuf := Function.update p.readingBuf (!p.cur) [] }

/-- The descriptors of the requests in the slots of the given servers. -/
def slotFds (d : Direction) : List Mmc → PoolM (List Nat)
  | [] => return []
  | m :: rest => do
    match (← getMmc m).slot d with
    | none => nullPointer
    | some r =>
      let fd ← fdOf r
      let fds ← slotFds d rest
      return fd :: fds

/-- The bits `select()` leaves set, those `poll()` reports. -/
def MmcPool.watch (p : MmcPool) (api : SelectApi) (wfds rfds : List Nat) (report : SelectReport) :
    MmcPool :=
  match api with
  | .select =>
    { p with
      wfds := if report.result = 0 then [] else wfds.filter report.writable
      rfds := if report.result = 0 then [] else rfds.filter report.readable }
  | .poll =>
    let asked := rfds.foldl (fun l fd => addPollEvent .read fd l)
      (wfds.foldl (fun l fd => addPollEvent .write fd l) [])
    { p with
      pollfds := asked.map fun x => { x with
        rpollin := 0 < report.result && x.pollin && report.readable x.fd
        rpollout := 0 < report.result && x.pollout && report.writable x.fd } }

/-- The call of `select()` or `poll()` on the servers queued in buffer `b`. -/
def waitReady (api : SelectApi) (b : Bool) : PoolM Int := do
  let p ← getPool
  let wfds ← slotFds .write (p.sendingBuf b)
  let rfds ← slotFds .read (p.readingBuf b)
  let report ← ask E.select
  modifyPool fun p => p.watch api wfds rfds report
  return report.result

/-! ## Failures -/

/-- `mmc_select_failure`. -/
def mmcSelectFailure (m : Mmc) (request : Option ReqId) (result : Int) : PoolM MmcResult := do
  if result = 0 then
    match request with
    | none => nullPointer
    | some r =>
      let io ← ioOf r
      let outcome ← mmcServerFailure m io "Network timeout" 0
      if outcome = .retry then return .retry
      else
        mmcServerDeactivate E fh m
        return .failure
  else
    mmcServerSeterror m "Unknown select() error" 0
    mmcServerDeactivate E fh m
    return .failure

/-- `mmc_pool_slot_send(pool, mmc, mmc_queue_pop(&(mmc->sendqueue)), 1)`. -/
def shiftSend (m : Mmc) : PoolM Unit := do
  let next := (← getMmc m).sendqueue.head?
  modifyMmc m fun s => { s with sendqueue := s.sendqueue.tail }
  let _ ← mmcPoolSlotSend E fh m next true

/-- Remove a server from `pool->sending` if its send slot is empty. -/
def clearSending (m : Mmc) : PoolM Unit := do
  doWhen ((← getMmc m).sendreq = none) (modifyPool fun p => { p with
    sendingBuf := Function.update p.sendingBuf p.cur (mmcQueueRemove p.sending m) })

/-- `mmc->readreq = mmc_queue_pop(&(mmc->readqueue))`. -/
def shiftRead (m : Mmc) : PoolM Unit :=
  modifyMmc m fun s => { s with readreq := s.readqueue.head?, readqueue := s.readqueue.tail }

/-- `mmc_select_retry`. -/
def mmcSelectRetry (site : RetrySite) (m : Mmc) (request : Option ReqId) : PoolM Unit := do
  match request with
  | none => nullPointer
  | some r =>
    step E (.selectRetry site m r)
    modifyMmc m fun s => { s with
      sendqueue := mmcQueueRemove s.sendqueue r, readqueue := mmcQueueRemove s.readqueue r }
    doWhen ((← getMmc m).sendreq = some r) do
      shiftSend E fh m
      clearSending m
    doWhen ((← getMmc m).readreq = some r) do
      shiftRead m
      doWhen ((← getMmc m).readreq = none) (modifyPool fun p => { p with
        readingBuf := Function.update p.readingBuf p.cur (mmcQueueRemove p.reading m) })
    let _ ← fh m r

/-- Remove a server from both queues of the round. -/
def dropFromRound (b : Bool) (m : Mmc) : PoolM Unit :=
  modifyPool fun p => { p with
    sendingBuf := Function.update p.sendingBuf b (mmcQueueRemove (p.sendingBuf b) m)
    readingBuf := Function.update p.readingBuf b (mmcQueueRemove (p.readingBuf b) m) }

/-- Whether the timeout loop gives up on the request in the slot: `select` leaves alone the servers
    whose bit is still set, `poll` gives up on all. -/
def timedOut (api : SelectApi) (d : Direction) (m : Mmc) : PoolM Bool := do
  match api with
  | .poll => return true
  | .select =>
    match (← getMmc m).slot d with
    | none => nullPointer
    | some r =>
      let fd ← fdOf r
      return !(← getPool).ready api d fd

/-- One loop over the servers of the round after `select()` or `poll()` returned `result <= 0`. -/
def timeoutLoop (api : SelectApi) (d : Direction) (b : Bool) (result : Int) : Nat → Nat → PoolM Unit
  | 0, _ => outOfFuel
  | fuel + 1, i => do
    match ((← getPool).queue d b)[i]? with
    | none => return ()
    | some m =>
      let expired ← timedOut api d m
      if expired then
        dropFromRound b m
        let outcome ← mmcSelectFailure E fh m ((← getMmc m).slot d) result
        let request := (← getMmc m).slot d
        doWhen (outcome = .retry) (mmcSelectRetry E fh .timeout m request)
        timeoutLoop api d b result fuel i
      else timeoutLoop api d b result fuel (i + 1)

/-! ## Sending -/

/-- `mmc_request_send`. -/
def mmcRequestSend (m : Mmc) (r : ReqId) : PoolM MmcResult := do
  let io ← ioOf r
  let s ← getMmc io.1
  match (s.io io.2).stream with
  | none => nullPointer
  | some c =>
    let outcome ← ask E.send
    match outcome with
    | .bytes n =>
      let q ← getReq r
      let left := q.sendbuf.value.length - q.sendbuf.idx
      let n := min n (min left (s.io io.2).chunkSize)
      step E (.send m r c n)
      modifyReq r fun q => { q with sendbuf := { q.sendbuf with idx := q.sendbuf.idx + n } }
      if q.sendbuf.value.length ≤ q.sendbuf.idx + n then return .done else return .more
    | .eagain => return .more
    | .error errnum => mmcServerFailure m io "send failed" errnum

/-- The `switch` over the result of a send. -/
def afterSend (b : Bool) (m : Mmc) (result : MmcResult) : PoolM Unit := do
  match result with
  | .failure =>
    mmcServerDeactivate E fh m
    step E (.removeReading m b)
    modifyPool fun p => { p with
      readingBuf := Function.update p.readingBuf b (mmcQueueRemove (p.readingBuf b) m) }
  | .retry => mmcSelectRetry E fh .send m (← getMmc m).sendreq
  | .done => shiftSend E fh m
  | _ => return ()

/-- The `do` loop over the requests of one server that wants to send: the last result, or `none` when
    the round was completed by another one meanwhile. -/
def sendRequests (b : Bool) (m : Mmc) : Nat → PoolM (Option MmcResult)
  | 0 => outOfFuel
  | fuel + 1 => do
    match (← getMmc m).sendreq with
    | none => nullPointer
    | some r =>
      let result ← mmcRequestSend E m r
      if !(← getPool).inSelect then return none
      else
        afterSend E fh b m result
        if (← getMmc m).sendreq ≠ none ∧ (result = .done ∨ result = .again) then
          sendRequests b m fuel
        else return some result

/-- `mmc_queue_push(pool->sending, mmc)`. -/
def queueSending (m : Mmc) : PoolM Unit :=
  modifyPool fun p => { p with
    sendingBuf := Function.update p.sendingBuf p.cur (mmcQueuePush p.sending m) }

/-- `mmc_queue_push(pool->reading, mmc)`. -/
def queueReading (m : Mmc) : PoolM Unit :=
  modifyPool fun p => { p with
    readingBuf := Function.update p.readingBuf p.cur (mmcQueuePush p.reading m) }

/-- The body of the send loop for one server; `false` when the round is over. -/
def sendServer (api : SelectApi) (fuel : Nat) (b : Bool) (m : Mmc) : PoolM Bool := do
  match (← getMmc m).sendreq with
  | none => return true
  | some r =>
    let fd ← fdOf r
    if (← getPool).ready api .write fd then
      modifyPool fun p => p.clearReady api .write fd
      match ← sendRequests E fh b m fuel with
      | none => return false
      | some result =>
        doWhen (result = .more) (queueSending m)
        return true
    else
      queueSending m
      return true

/-! ## Reading -/

/-- The header fields of a datagram: request id, sequence number and total. -/
def udpHeader (datagram : Bytes) : Nat × Nat × Nat :=
  (ofBigEndian (datagram.take 2), ofBigEndian ((datagram.drop 2).take 2),
    ofBigEndian ((datagram.drop 4).take 2))

/-- The read buffer once a datagram was accepted. Behind unread data the header is moved out, but the
    length still counts it. -/
def acceptDatagram (buffer : MmcBuffer) (datagram : Bytes) : MmcBuffer :=
  if buffer.idx > 0 then
    { buffer with
      value := buffer.value ++ datagram.drop udpHeaderSize
        ++ datagram.drop (datagram.length - udpHeaderSize) }
  else { value := buffer.value ++ datagram, idx := udpHeaderSize }

/-- `mmc_request_read_udp`. -/
def mmcRequestReadUdp (m : Mmc) (r : ReqId) : PoolM MmcResult := do
  let io ← ioOf r
  match ((← getMmc io.1).io io.2).stream with
  | none => nullPointer
  | some _ =>
    modifyMmc io.1 fun s => s.modifyIo io.2 fun x =>
      if x.buffer.value.length ≤ x.buffer.idx then { x with buffer := x.buffer.reset } else x
    let datagram := (← ask E.recv).take (MMC_MAX_UDP_LEN + 1)
    if datagram.length < udpHeaderSize then
      mmcServerFailure m io "Failed te read complete UDP header from stream" 0
    else if MMC_MAX_UDP_LEN < datagram.length then
      mmcServerFailure m io "Server sent packet larger than MMC_MAX_UDP_LEN bytes" 0
    else
      let (reqid, seqid, total) := udpHeader datagram
      modifyReq r fun q =>
        if q.udp.total = 0 ∧ q.udp.reqid = reqid then { q with udp := { q.udp with seqid, total } }
        else q
      let q ← getReq r
      if q.udp.reqid ≠ reqid ∨ q.udp.seqid ≠ seqid then
        let time ← ask E.time
        modifyMmc io.1 fun s => s.modifyIo io.2 fun x => x.markFailed time
        if reqid < q.udp.reqid then return .more else return .retry
      else
        modifyReq r fun q => { q with
          udp := { q.udp with seqid := (q.udp.seqid + 1) % 2 ^ 16 } }
        modifyMmc io.1 fun s => s.modifyIo io.2 fun x =>
          { x with buffer := acceptDatagram x.buffer datagram }
        return .ok

/-- `request->read(mmc, request)`, if there is a read handler. -/
def fillBuffer (m : Mmc) (r : ReqId) : PoolM MmcResult := do
  if (← getReq r).read then mmcRequestReadUdp E m r else return .ok

/-- The call `request->parse(mmc, request)`: what the handler does with the data that is there is the
    environment's choice, see `ParseOutcome`. -/
def parseReadreq (m : Mmc) (r : ReqId) : PoolM MmcResult := do
  let io ← ioOf r
  match ((← getMmc io.1).io io.2).stream with
  | none => nullPointer
  | some c =>
    let outcome ← ask E.parse
    let status := ((← getMmc io.1).io io.2).status
    let result : MmcResult := match outcome.verdict with
      | .more => .more
      | .again => .again
      | .done => .done
      | .failure => .failure
      | .serverFailure =>
        if status = .disconnected ∨ status = .unknown then .retry else .failure
    step E (.parse m r c outcome.consumes result)
    modifyMmc io.1 fun s => s.modifyIo io.2 fun x => { x with
      buffer := { x.buffer with idx := x.buffer.idx + outcome.consumes }, input := outcome.input }
    modifyReq r fun q => { q with parse := outcome.parse }
    let call := (← getReq r).call
    modifyCall call fun x => { x with
      results := x.results ++ outcome.values, stored := x.stored || outcome.stores }
    doWhen (outcome.verdict = .serverFailure) do
      let _ ← mmcServerFailure m io "Malformed server response" 0
    return result

/-- Completion of `readreq`: the request might be done before all of it was sent. -/
def completeReadreq (m : Mmc) : PoolM Unit := do
  let s ← getMmc m
  doWhen (s.sendreq = s.readreq) do
    match s.readreq with
    | none => nullPointer
    | some r =>
      let io ← ioOf r
      step E (.earlyDone m r)
      modifyMmc m fun s => s.modifyIo io.2 MmcStream.disconnect
      shiftSend E fh m
      clearSending m
  mmcPoolRelease E (← getMmc m).readreq
  shiftRead m

/-- The end of a stream that the parse handler wants more data from: the new result. -/
def checkEof (m : Mmc) : PoolM MmcResult := do
  match (← getMmc m).readreq with
  | none => nullPointer
  | some r =>
    let io ← ioOf r
    match ((← getMmc io.1).io io.2).stream with
    | none => nullPointer
    | some c =>
      let eof ← ask E.eof
      if eof then
        step E (.eof m r c)
        let result ← mmcServerFailure m io "Read failed (socket was unexpectedly closed)" 0
        if result = .failure then mmcServerDeactivate E fh m
        else mmcSelectRetry E fh .read m (← getMmc m).readreq
        return result
      else return .more

/-- The `switch` over the result of a parse handler: the value of `result` after it. -/
def afterParse (m : Mmc) (result : MmcResult) : PoolM MmcResult := do
  match result with
  | .failure =>
    mmcServerDeactivate E fh m
    return .failure
  | .retry =>
    mmcSelectRetry E fh .read m (← getMmc m).readreq
    return .retry
  | .done =>
    completeReadreq E fh m
    return .done
  | .more => checkEof E fh m
  | .again => return .again

/-- The `do` loop over the requests of one server that has data: the last result, or `none` when the
    round was completed by another one meanwhile. -/
def readRequests (m : Mmc) : Nat → PoolM (Option MmcResult)
  | 0 => outOfFuel
  | fuel + 1 => do
    match (← getMmc m).readreq with
    | none => nullPointer
    | some r =>
      let result ← parseReadreq E m r
      if !(← getPool).inSelect then return none
      else
        let result ← afterParse E fh m result
        if (← getMmc m).readreq ≠ none ∧ (result = .done ∨ result = .again) then
          readRequests m fuel
        else return some result

/-- The `switch` over a failed `request->read`. -/
def afterRead (m : Mmc) (result : MmcResult) : PoolM Unit := do
  match result with
  | .failure => mmcServerDeactivate E fh m
  | .retry => mmcSelectRetry E fh .read m (← getMmc m).readreq
  | .more => queueReading m
  | _ => return ()

/-- The body of the read loop for one server; `false` when the round is over. -/
def readServer (api : SelectApi) (fuel : Nat) (m : Mmc) : PoolM Bool := do
  match (← getMmc m).readreq with
  | none => return true
  | some r =>
    let fd ← fdOf r
    if (← getPool).ready api .read fd then
      modifyPool fun p => p.clearReady api .read fd
      let filled ← fillBuffer E m r
      if filled ≠ .ok then
        afterRead E fh m filled
        return true
      else
        match ← readRequests E fh m fuel with
        | none => return false
        | some result =>
          doWhen (result = .more) (queueReading m)
          return true
    else
      queueReading m
      return true

/-! ## The round -/

/-- The body of the loop over one of the queues of a round. -/
def serveServer (api : SelectApi) (d : Direction) (b : Bool) (fuel : Nat) (m : Mmc) : PoolM Bool :=
  match d with
  | .write => sendServer E fh api fuel b m
  | .read => readServer E fh api fuel m

/-- The loop of a round over the servers of one of its queues; `false` when the round is over. -/
def serverLoop (api : SelectApi) (d : Direction) (b : Bool) : Nat → Nat → PoolM Bool
  | 0, _ => outOfFuel
  | fuel + 1, i => do
    match ((← getPool).queue d b)[i]? with
    | none => return true
    | some m =>
      let proceed ← serveServer E fh api d b fuel m
      if proceed then serverLoop api d b fuel (i + 1) else return false

/-- A new round over the servers queued in buffer `b`, up to its loops. -/
def startRound (api : SelectApi) (fuel : Nat) (b : Bool) : PoolM Bool := do
  modifyPool mmcPoolSwitch
  let result ← waitReady E api b
  let outer ← getInTimeout
  setInTimeout true
  doWhen (result ≤ 0) do
    timeoutLoop E fh api .write b result fuel 0
    timeoutLoop E fh api .read b result fuel 0
  setInTimeout outer
  modifyPool fun p => { p with inSelect := true }
  return b

/-- The start of a round, unless it helps to complete another one: the buffer it runs over. -/
def beginRound (api : SelectApi) (fuel : Nat) : PoolM Bool := do
  let p ← getPool
  if p.inSelect then return !p.cur else startRound E fh api fuel p.cur

/-- `mmc_pool_select_impl` or `mmc_pool_poll`, as `pool->select_api` says. -/
def mmcPoolSelect (fuel : Nat) : PoolM Unit := do
  step E .round
  let api := (← getPool).selectApi
  let b ← beginRound E fh api fuel
  let sent ← serverLoop E fh api .write b fuel 0
  doWhen sent do
    let received ← serverLoop E fh api .read b fuel 0
    doWhen received (modifyPool fun p => { p with inSelect := false })

end PeclMemcache
