import PeclMemcache.Queue
import PeclMemcache.BinaryProtocol

set_option autoImplicit false

/-! # The state the pool functions work on

A pool function runs in `PoolM`: it reads and writes a `World` (the pool, the two heaps, the API
calls in progress) and may stop on a `Fault`. Everything outside the client comes from an `Env`:
the ini settings and, for every moment `tick`, what the operating system and the servers answer to
the question asked at that moment. A statement about every `Env` is one about every order of partial
sends, partial reads, timeouts, errors and reconnects.

`World.log` records, newest first, the steps of the run that the theorems talk about; the code never
reads it. `Env.allowed` restricts a run to steps that meet a condition on the state before them: a
run stops, with `Fault.stopped`, at the first step that is not allowed. The code as it is runs with
every step allowed. -/

namespace PeclMemcache

/-! ## Steps and worlds -/

/-- Why a run has no final state: a `NULL` pointer was followed, a loop or a recursion bound of the
    model was used up, or a step outside `Env.allowed` was reached. -/
inductive Fault
  | nullPointer
  | fuel
  | stopped
  deriving DecidableEq, Repr

/-- The three callers of `mmc_select_retry` in a round. -/
inductive RetrySite
  | timeout
  | send
  | read
  deriving DecidableEq, Repr

/-- The recorded steps. Each is recorded when it is about to happen, so `Env.allowed` sees the state
    before it. -/
inductive Step
  /-- `mmc_pool_request_alloc` hands out a request. -/
  | alloc (r : ReqId)
  /-- `mmc_pool_release`. -/
  | release (r : ReqId)
  /-- `mmc_pool_schedule` is entered. -/
  | schedule (m : Mmc) (r : ReqId)
  /-- `mmc_pool_schedule` is about to put the request into the slots and queues of the server. -/
  | accept (m : Mmc) (r : ReqId)
  /-- `mmc_pool_schedule_get` is about to put a new request into `buildreq`. -/
  | build (m : Mmc) (r : ReqId)
  /-- `mmc_pool_schedule_get` found the datagram full and is about to flush it. -/
  | flush (m : Mmc)
  /-- The flush is over, the next datagram begun. -/
  | flushed (m : Mmc)
  /-- `mmc_pool_schedule_pending` has popped the server, whose `buildreq` is `build`. -/
  | schedulePending (m : Mmc) (build : Option ReqId)
  /-- `mmc_pool_schedule_pending` has scheduled `r` and is about to overwrite `buildreq`, which is
      `build`, with `NULL`. -/
  | clearBuild (m : Mmc) (r : ReqId) (build : Option ReqId)
  /-- A stream of the server is about to be opened as connection `c`; `cause` is the request
      `mmc_pool_slot_send` opens it for. -/
  | connect (m : Mmc) (t : MmcProto) (c : Nat) (cause : Option ReqId)
  /-- Opening a stream failed. -/
  | connectFailed (m : Mmc) (t : MmcProto) (cause : Option ReqId)
  /-- `mmc_server_deactivate` is entered. -/
  | deactivate (m : Mmc)
  /-- A failover handler is about to be called. -/
  | failover (m : Mmc) (r : ReqId)
  /-- `mmc_pool_slot_send` is about to write `sendreq`, which held `old` when it was entered. -/
  | slot (m : Mmc) (r : Option ReqId) (old : Option ReqId)
  /-- `mmc_request_send` got `n` bytes of the request into connection `c`. -/
  | send (m : Mmc) (r : ReqId) (c : Nat) (n : Nat)
  /-- The parse handler of `readreq` is about to consume `n` bytes of connection `c` and to return
      `result`. -/
  | parse (m : Mmc) (r : ReqId) (c : Nat) (n : Nat) (result : MmcResult)
  /-- `php_stream_eof` is true for connection `c`. -/
  | eof (m : Mmc) (r : ReqId) (c : Nat)
  /-- A request was completed before all of it was sent; its connection is about to be closed. -/
  | earlyDone (m : Mmc) (r : ReqId)
  /-- `mmc_select_retry` is entered. -/
  | selectRetry (site : RetrySite) (m : Mmc) (r : ReqId)
  /-- After a failed send the server is about to be removed from the reading queue `b`. -/
  | removeReading (m : Mmc) (b : Bool)
  /-- `mmc_pool_select` is entered. -/
  | round
  /-- `mmc_value_failover_handler` got past its budget test. -/
  | valueFailover (call : Nat)
  /-- `mmc_value_failover_handler` hands a key to `mmc_pool_schedule_get`. -/
  | handed (call : Nat) (key : ZKey)
  /-- `mmc_pool_find_next` chose a server for a further copy, `skip` being the skip list. -/
  | copyTarget (m : Mmc) (skip : List Mmc)
  /-- `mmc_pool_clone_request` made the copy `made` of a request. -/
  | clone (original copy : ReqId) (made : MmcRequest)
  /-- An API function is about to return without running the pool, a schedule having failed. -/
  | earlyReturn
  /-- `php_mmc_pool_addserver` is about to schedule an authentication request. -/
  | saslAuth
  deriving DecidableEq, Repr

/-- An API call: the keys of a `memcache_get` on an array, whether CAS tokens were asked for, the
    keys its result array already contains, and whether a handler has written its return value. -/
structure ApiCall where
  keys : List ZKey := []
  gets : Bool := false
  results : List Bytes := []
  stored : Bool := false
  deriving Repr

/-- Everything the pool functions read and write. `tick` counts the questions asked so far and
    `inTimeout` is set while a round is in its timeout loops. -/
structure World where
  pool : MmcPool
  mmc : Mmc → MmcServer
  req : ReqId → MmcRequest := fun _ => {}
  nextReq : ReqId := 0
  call : Nat → ApiCall := fun _ => {}
  nextCall : Nat := 0
  tick : Nat := 0
  inTimeout : Bool := false
  log : List Step := []

/-! ## The environment -/

/-- What `send()` answers. -/
inductive SendOutcome
  | bytes (n : Nat)
  | eagain
  | error (errnum : Int)
  deriving Repr

/-- What the parse handler makes of the data that is there: it asks for more, wants another loop, is
    done, has a response it answers with `mmc_server_failure`, or fails outright. -/
inductive ParseVerdict
  | more
  | again
  | done
  | serverFailure
  | failure
  deriving DecidableEq, Repr

/-- One call of a parse handler: its verdict, the number of bytes it consumed, the keys it passed to
    the value handler, whether the response handler wrote its result, and what it leaves in
    `request->parse` and in the line buffer of the stream. -/
structure ParseOutcome where
  verdict : ParseVerdict
  consumes : Nat := 0
  values : List Bytes := []
  stores : Bool := false
  parse : Option ParseHandler := none
  input : Bytes := []

/-- What `select()` or `poll()` reports. -/
structure SelectReport where
  result : Int
  writable : Nat → Bool := fun _ => false
  readable : Nat → Bool := fun _ => false

/-- The settings and the answers of everything outside the client. -/
structure Env where
  allowFailover : Bool := true
  maxFailoverAttempts : Nat := 20
  redundancy : Nat := 1
  keyPrefix : Bytes := []
  /-- The descriptor of a newly opened stream, or `none` when it cannot be opened. -/
  connect : Nat → Option Nat := fun _ => none
  select : Nat → SelectReport := fun _ => { result := 0 }
  send : Nat → SendOutcome := fun _ => .eagain
  /-- The datagram a read of a UDP stream returns. -/
  recv : Nat → Bytes := fun _ => []
  parse : Nat → ParseOutcome := fun _ => { verdict := .more }
  eof : Nat → Bool := fun _ => false
  time : Nat → Int := fun _ => 0
  allowed : Step → World → Bool := fun _ _ => true

/-! ## The monad and its primitive operations -/

/-- A fault keeps the world it occurred in, so that what holds of every run holds of the runs that do
    not end, too: each of their prefixes is the run with some bound of the model used up. -/
abbrev PoolM := ExceptT Fault (StateM World)

/-- The code follows a `NULL` pointer. -/
def nullPointer {α : Type} : PoolM α := fun w => (.error .nullPointer, w)

/-- A bound of the model is used up. -/
def outOfFuel {α : Type} : PoolM α := fun w => (.error .fuel, w)

/-- Ask the environment. -/
def ask {α : Type} (answer : Nat → α) : PoolM α := fun w =>
  (.ok (answer w.tick), { w with tick := w.tick + 1 })

/-- Record a step, if it is allowed. -/
def step (E : Env) (s : Step) : PoolM Unit := fun w =>
  if E.allowed s w then (.ok (), { w with log := s :: w.log }) else (.error .stopped, w)

def getPool : PoolM MmcPool := fun w => (.ok w.pool, w)

def modifyPool (f : MmcPool → MmcPool) : PoolM Unit := fun w =>
  (.ok (), { w with pool := f w.pool })

def getMmc (m : Mmc) : PoolM MmcServer := fun w => (.ok (w.mmc m), w)

def modifyMmc (m : Mmc) (f : MmcServer → MmcServer) : PoolM Unit := fun w =>
  (.ok (), { w with mmc := Function.update w.mmc m (f (w.mmc m)) })

def getReq (r : ReqId) : PoolM MmcRequest := fun w => (.ok (w.req r), w)

def modifyReq (r : ReqId) (f : MmcRequest → MmcRequest) : PoolM Unit := fun w =>
  (.ok (), { w with req := Function.update w.req r (f (w.req r)) })

def getCall (c : Nat) : PoolM ApiCall := fun w => (.ok (w.call c), w)

def modifyCall (c : Nat) (f : ApiCall → ApiCall) : PoolM Unit := fun w =>
  (.ok (), { w with call := Function.update w.call c (f (w.call c)) })

/-- `emalloc` of a request, zeroed. -/
def newRequest : PoolM ReqId := fun w =>
  (.ok w.nextReq, { w with
    nextReq := w.nextReq + 1, req := Function.update w.req w.nextReq {} })

/-- Note that a round enters or leaves its timeout loops. -/
def setInTimeout (b : Bool) : PoolM Unit := fun w => (.ok (), { w with inTimeout := b })

def getInTimeout : PoolM Bool := fun w => (.ok w.inTimeout, w)

/-- Run `f` on every item of a list, in order. -/
def forEach {α : Type} (f : α → PoolM Unit) : List α → PoolM Unit
  | [] => pure ()
  | x :: rest => do
    f x
    forEach f rest

end PeclMemcache
