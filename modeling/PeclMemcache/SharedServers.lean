import PeclMemcache.Machines
import PeclMemcache.Queue
import PeclMemcache.Types

set_option autoImplicit false

/-! # Pools that share persistent servers

`mmc_find_persistent` gives one server object to every pool that asks for it. The slots and queues for
requests are in the server, but which servers are to be serviced, whether a round is under way and who
gets released requests is kept in each pool. Modelled are the pools and their servers, the requests in
slots and queues, and the nesting of operations through user code. What a server answers and when, which
servers fail and in which order a round comes to them is left open; so is what is not about sharing: the
keys and the bytes of the requests, and the order of the servers in the queues of a pool, of which the
two copies count as one. -/

namespace PeclMemcache

open Machines

/-! ## Servers and pools -/

/-- The slots and queues of a server, with the requests in them. -/
structure SharedServer where
  sendreq : Option ReqId := none
  readreq : Option ReqId := none
  buildreq : Option ReqId := none
  sendqueue : List ReqId := []
  readqueue : List ReqId := []
  deriving DecidableEq, Repr

namespace SharedServer

variable (x : SharedServer)

/-- The requests that wait for an answer or are being built. -/
def active : List ReqId := x.readreq.toList ++ x.readqueue ++ x.buildreq.toList

/-- All requests in the slots and queues. -/
def held : List ReqId := x.active ++ x.sendreq.toList ++ x.sendqueue

/-- The next request is shifted into the send slot. -/
def shiftSend : SharedServer := { x with sendreq := x.sendqueue.head?, sendqueue := x.sendqueue.tail }

/-- The next request is shifted into the read slot. -/
def shiftRead : SharedServer := { x with readreq := x.readqueue.head?, readqueue := x.readqueue.tail }

/-- `mmc_pool_schedule`, as far as the server is concerned. -/
def schedule (r : ReqId) : SharedServer :=
  { x with
    sendreq := x.sendreq.or (some r)
    sendqueue := if x.sendreq = none then x.sendqueue else mmcQueuePush x.sendqueue r
    readreq := x.readreq.or (some r)
    readqueue := if x.readreq = none then x.readqueue else mmcQueuePush x.readqueue r }

/-- The read slot after a response: a request that was answered before all of it was sent leaves the
    send slot, too. -/
def complete (r : ReqId) : SharedServer :=
  if x.sendreq = some r then x.shiftSend.shiftRead else x.shiftRead

/-- `mmc_select_retry`, as far as the server is concerned. -/
def drop (r : ReqId) : SharedServer :=
  let x := { x with
    sendqueue := mmcQueueRemove x.sendqueue r, readqueue := mmcQueueRemove x.readqueue r }
  let x := if x.sendreq = some r then x.shiftSend else x
  if x.readreq = some r then x.shiftRead else x

end SharedServer

/-- A pool: its servers, those that are to be sent to, read from and whose requests are being built, and
    whether a round is under way. -/
structure SharingPool where
  servers : List Mmc := []
  sending : Finset Mmc := ∅
  reading : Finset Mmc := ∅
  pending : Finset Mmc := ∅
  inSelect : Bool := false

/-- What is under way: an operation of a pool that schedules its requests; `mmc_pool_run`;
    `mmc_pool_select`, between two handlers or in the `parse` handler for a server; the calls of failover
    handlers, with the requests that are left. -/
inductive SharingFrame
  | operation (p : Nat)
  | running (p : Nat)
  | selecting (p : Nat)
  | parsing (p : Nat) (m : Mmc)
  | failing (p : Nat) (rest : List ReqId)
  deriving DecidableEq, Repr

/-- The pool that is at work. -/
def SharingFrame.pool : SharingFrame → Nat
  | .operation p | .running p | .selecting p | .parsing p _ | .failing p _ => p

/-- An operation itself. -/
def SharingFrame.isBase : SharingFrame → Bool
  | .operation _ | .running _ => true
  | _ => false

/-- What a pool does to a request. -/
inductive Deed
  | appended
  | completed
  | released
  | slept
  deriving DecidableEq, Repr

/-- The servers, the pools, the requests with the pools that allocated them, what is under way, the
    innermost first, and what pools have done to requests. A request is finished when it was completed,
    released or dropped. -/
structure SharingState where
  server : Mmc → SharedServer := fun _ => {}
  pool : Nat → SharingPool := fun _ => {}
  owner : ReqId → Nat := fun _ => 0
  finished : ReqId → Bool := fun _ => false
  requests : Nat := 0
  stack : List SharingFrame := []
  deeds : List (Deed × Nat × ReqId) := []

/-- Steps of user code (`enter`, `addServer`, `close`) and of the innermost function. `refuse` is a new
    request whose server is not valid, `failover none` a request that is given up. -/
inductive SharingAction
  | enter (p : Nat)
  | addServer (p : Nat) (m : Mmc)
  | close (p : Nat)
  | schedule (m : Mmc)
  | refuse
  | scheduleGet (m : Mmc) (full : Bool)
  | run
  | pend (m : Mmc)
  | select
  | sent (m : Mmc)
  | parse (m : Mmc)
  | parsed (done : Bool)
  | retry (sending : Bool) (m : Mmc)
  | deactivate (m : Mmc)
  | failover (target : Option Mmc)
  | endFailover
  | endSelect
  | leave
  deriving DecidableEq, Repr

namespace SharingState

variable (s : SharingState)

/-! ## Steps -/

def setServer (m : Mmc) (x : SharedServer) : SharingState :=
  { s with server := Function.update s.server m x }

def setPool (p : Nat) (x : SharingPool) : SharingState :=
  { s with pool := Function.update s.pool p x }

def push (frame : SharingFrame) : SharingState := { s with stack := frame :: s.stack }

/-- `mmc_pool_request_get`. -/
def newRequest (p : Nat) : SharingState :=
  { s with
    owner := Function.update s.owner s.requests p
    finished := Function.update s.finished s.requests false
    requests := s.requests + 1 }

/-- The end of a request. -/
def finish (deed : Deed) (p : Nat) (r : ReqId) : SharingState :=
  { s with
    finished := Function.update s.finished r true
    deeds := (deed, p, r) :: s.deeds }

/-- Whether the server stays among those to be serviced. -/
def keepIf (keep : Prop) [Decidable keep] (servers : Finset Mmc) (m : Mmc) : Finset Mmc :=
  if keep then servers else servers.erase m

/-- `mmc_pool_schedule`: the pool services the server if the slots were empty. -/
def schedule (p : Nat) (m : Mmc) (r : ReqId) : SharingState :=
  let x := s.server m
  let pool := s.pool p
  (s.setServer m (x.schedule r)).setPool p { pool with
    sending := if x.sendreq = none then insert m pool.sending else pool.sending
    reading := if x.readreq = none then insert m pool.reading else pool.reading }

/-- A new request in `mmc->buildreq`. -/
def build (p : Nat) (m : Mmc) : SharingState :=
  (s.newRequest p).setServer m { s.server m with buildreq := some s.requests }

/-- `mmc_pool_schedule_get`. -/
def scheduleGet (p : Nat) (m : Mmc) (full : Bool) : SharingState :=
  match (s.server m).buildreq with
  | none =>
    let pool := s.pool p
    (s.setPool p { pool with pending := insert m pool.pending }).build p m
  | some r =>
    if full then (s.schedule p m r).build p m
    else { s with deeds := (.appended, p, r) :: s.deeds }

/-- A server taken from `pool->pending` by `mmc_pool_schedule_pending`. -/
def schedulePending (p : Nat) (m : Mmc) (r : ReqId) : SharingState :=
  let pool := s.pool p
  let s := (s.setPool p { pool with pending := pool.pending.erase m }).schedule p m r
  s.setServer m { s.server m with buildreq := none }

/-- All of a request was sent. -/
def sent (p : Nat) (m : Mmc) : SharingState :=
  let x := (s.server m).shiftSend
  let pool := s.pool p
  (s.setServer m x).setPool p { pool with sending := keepIf (x.sendreq ≠ none) pool.sending m }

/-- The request in the read slot was answered. -/
def complete (p : Nat) (m : Mmc) (r : ReqId) : SharingState :=
  let x := (s.server m).complete r
  let pool := s.pool p
  ((s.setServer m x).setPool p { pool with
    sending := keepIf ((s.server m).sendreq = some r → x.sendreq ≠ none) pool.sending m
    reading := keepIf (x.readreq ≠ none) pool.reading m }).finish .completed p r

/-- `mmc_select_retry` in a round, where a server is not added to the queue again after a retry. -/
def retry (p : Nat) (sending : Bool) (m : Mmc) (r : ReqId) : SharingState :=
  let x := (s.server m).drop r
  let pool := s.pool p
  ((s.setServer m x).setPool p { pool with
    sending := keepIf (sending = false ∧ ((s.server m).sendreq = some r → x.sendreq ≠ none))
      pool.sending m
    reading := keepIf (sending = true ∧ ((s.server m).readreq = some r → x.readreq ≠ none))
      pool.reading m }).push (.failing p [r])

/-- `mmc_server_deactivate` up to the calls of the failover handlers. -/
def deactivate (p : Nat) (m : Mmc) : SharingState :=
  let x := s.server m
  let pool := s.pool p
  ((s.setServer m {}).setPool p { pool with
    sending := pool.sending.erase m
    reading := pool.reading.erase m }).push
      (.failing p (x.readqueue ++ x.readreq.toList ++ x.buildreq.toList))

/-- `mmc_pool_close`, with `mmc_server_sleep` for every server. -/
def close (p : Nat) : SharingState :=
  let servers := (s.pool p).servers
  { s.setPool p { s.pool p with servers := [] } with
    server := fun m => if m ∈ servers then {} else s.server m
    finished := fun r => s.finished r || decide (∃ m ∈ servers, r ∈ (s.server m).active)
    deeds := (servers.flatMap fun m => (s.server m).held.map fun r => (.slept, p, r))
      ++ s.deeds }

/-- A step of the innermost function. -/
def performAt (a : SharingAction) (frame : SharingFrame) (rest : List SharingFrame) :
    Option SharingState :=
  match a, frame with
  | .schedule m, .operation p =>
    if m ∈ (s.pool p).servers then some ((s.newRequest p).schedule p m s.requests) else none
  | .refuse, .operation p => some ((s.newRequest p).push (.failing p [s.requests]))
  | .scheduleGet m full, .operation p =>
    if m ∈ (s.pool p).servers then some (s.scheduleGet p m full) else none
  | .scheduleGet m full, .failing p (_ :: _) =>
    if m ∈ (s.pool p).servers then some (s.scheduleGet p m full) else none
  | .run, .operation p => some { s with stack := .running p :: rest }
  | .pend m, .running p =>
    if m ∈ (s.pool p).pending then
      match (s.server m).buildreq with
      | none => none -- a `NULL` pointer is followed
      | some r => some (s.schedulePending p m r)
    else none
  | .select, .running p =>
    some ((s.setPool p { s.pool p with inSelect := true }).push (.selecting p))
  | .sent m, .selecting p => if m ∈ (s.pool p).sending then some (s.sent p m) else none
  | .parse m, .selecting p =>
    if m ∈ (s.pool p).reading then
      match (s.server m).readreq with
      | none => some (s.setPool p { s.pool p with reading := (s.pool p).reading.erase m })
      | some _ => some { s with stack := .parsing p m :: rest }
    else none
  | .parsed done, .parsing p m =>
    -- someone may have helped to complete the round
    if (s.pool p).inSelect then
      let s := { s with stack := .selecting p :: rest }
      if done then
        match (s.server m).readreq with
        | none => none -- a `NULL` pointer is followed
        | some r => some (s.complete p m r)
      else some s
    else some { s with stack := rest }
  | .retry sending m, .selecting p =>
    if m ∈ (if sending then (s.pool p).sending else (s.pool p).reading) then
      match if sending then (s.server m).sendreq else (s.server m).readreq with
      | none => none
      | some r => some (s.retry p sending m r)
    else none
  | .deactivate m, frame =>
    match frame with
    | .parsing .. => none
    | frame => some (s.deactivate frame.pool m)
  | .failover none, .failing p (r :: rs) =>
    some ({ s with stack := .failing p rs :: rest }.finish .released p r)
  | .failover (some m), .failing p (r :: rs) =>
    if m ∈ (s.pool p).servers then
      some ({ s with stack := .failing p rs :: rest }.schedule p m r)
    else none
  | .endFailover, .failing _ [] => some { s with stack := rest }
  | .endSelect, .selecting p =>
    some { s.setPool p { s.pool p with inSelect := false } with stack := rest }
  | .leave, .running p =>
    -- a nested run looks at one of the two pairs of queues only
    if (∃ frame ∈ rest, frame.pool = p) ∨
        ((s.pool p).sending = ∅ ∧ (s.pool p).reading = ∅ ∧ (s.pool p).pending = ∅) then
      some { s with stack := rest }
    else none
  | _, _ => none

/-- A step, if it is possible. User code runs during unserialisation, in failure callbacks and in error
    handlers, so a further operation, of any pool, can begin anywhere. -/
def perform (a : SharingAction) : Option SharingState :=
  match a, s.stack with
  | .enter p, _ => some (s.push (.operation p))
  | .addServer p m, _ =>
    some (s.setPool p { s.pool p with servers := m :: (s.pool p).servers })
  | .close p, _ => some (s.close p)
  | _, [] => none
  | a, frame :: rest => s.performAt a frame rest

/-! ## No interference -/

/-- Pools append to, complete, release and drop requests of their own only; and once no operation of a
    pool is under way, none of its requests is left. -/
structure NoInterference : Prop where
  own : ∀ d ∈ s.deeds, s.owner d.2.2 = d.2.1
  completed : ∀ p, (∀ frame ∈ s.stack, frame.pool ≠ p) →
    ∀ r < s.requests, s.owner r = p → s.finished r = true

/-- The server holds requests of the pool only. -/
def HoldsOnly (m : Mmc) (p : Nat) : Prop := ∀ r ∈ (s.server m).held, s.owner r = p

instance (m : Mmc) (p : Nat) : Decidable (s.HoldsOnly m p) := by unfold HoldsOnly; infer_instance

/-- The innermost round of the pool is in the `parse` handler for the server. -/
def parsesNow (p : Nat) (m : Mmc) : List SharingFrame → Bool
  | [] => false
  | .parsing q m' :: rest => if q = p then m' = m else parsesNow p m rest
  | .selecting q :: rest => if q = p then false else parsesNow p m rest
  | _ :: rest => parsesNow p m rest

/-- The condition. A pool puts a request into a server, and takes one down, only while the server holds
    no request of another pool; a server that fails has no request being built and is not in the `parse`
    handler of the round; a request is only sent again if no other one waits behind it; and a pool is
    closed only while its servers hold no request. -/
def Alone (a : SharingAction) : Prop :=
  match a, s.stack with
  | .schedule m, frame :: _ => s.HoldsOnly m frame.pool
  | .scheduleGet m _, frame :: _ => s.HoldsOnly m frame.pool
  | .failover (some m), frame :: _ => s.HoldsOnly m frame.pool
  | .deactivate m, frame :: rest => s.HoldsOnly m frame.pool ∧ (s.server m).buildreq = none ∧
      parsesNow frame.pool m (frame :: rest) = false
  | .retry true m, _ => ∀ r ∈ (s.server m).sendreq, ((s.server m).drop r).sendreq = none
  | .retry false m, _ => ∀ r ∈ (s.server m).readreq, ((s.server m).drop r).readreq = none
  | .close p, _ => ∀ m ∈ (s.pool p).servers, (s.server m).held = []
  | _, _ => True

instance (a : SharingAction) : Decidable (s.Alone a) := by
  unfold Alone
  split <;> infer_instance

end SharingState

/-! ## What happens in a server -/

namespace SharedServer

variable {x : SharedServer} {r a : ReqId}

theorem mem_active : a ∈ x.active ↔ x.readreq = some a ∨ a ∈ x.readqueue ∨ x.buildreq = some a := by
  simp [active]

theorem mem_held :
    a ∈ x.held ↔ a ∈ x.active ∨ x.sendreq = some a ∨ a ∈ x.sendqueue := by
  simp [held]

theorem eq_empty_of_held (h : x.held = []) : x = {} := by
  obtain ⟨sendreq, readreq, buildreq, sendqueue, readqueue⟩ := x
  have hno : ∀ a, a ∉ held ⟨sendreq, readreq, buildreq, sendqueue, readqueue⟩ := by
    intro a
    rw [h]
    exact List.not_mem_nil
  simp only [mem_held, mem_active, not_or] at hno
  have hsend : sendreq = none := Option.eq_none_iff_forall_ne_some.mpr fun a => (hno a).2.1
  have hread : readreq = none := Option.eq_none_iff_forall_ne_some.mpr fun a => (hno a).1.1
  have hbuild : buildreq = none := Option.eq_none_iff_forall_ne_some.mpr fun a => (hno a).1.2.2
  have hsends : sendqueue = [] := List.eq_nil_iff_forall_not_mem.mpr fun a => (hno a).2.2
  have hreads : readqueue = [] := List.eq_nil_iff_forall_not_mem.mpr fun a => (hno a).1.2.1
  rw [hsend, hread, hbuild, hsends, hreads]

/-- Requests wait in a queue only while the slot is taken. -/
structure Slotted (x : SharedServer) : Prop where
  send : x.sendreq = none → x.sendqueue = []
  read : x.readreq = none → x.readqueue = []

theorem slotted_schedule (x : SharedServer) (r : ReqId) : Slotted (x.schedule r) := by
  constructor
  · intro hnone
    simp [SharedServer.schedule] at hnone
  · intro hnone
    simp [SharedServer.schedule] at hnone

theorem Slotted.shiftSend (h : Slotted x) : Slotted x.shiftSend := by
  refine ⟨fun hnone => ?_, h.read⟩
  have hempty : x.sendqueue = [] := List.head?_eq_none_iff.mp hnone
  simp [SharedServer.shiftSend, hempty]

theorem Slotted.shiftRead (h : Slotted x) : Slotted x.shiftRead := by
  refine ⟨h.send, fun hnone => ?_⟩
  have hempty : x.readqueue = [] := List.head?_eq_none_iff.mp hnone
  simp [SharedServer.shiftRead, hempty]

theorem Slotted.complete (h : Slotted x) (r : ReqId) : Slotted (x.complete r) := by
  unfold SharedServer.complete
  split
  · exact h.shiftSend.shiftRead
  · exact h.shiftRead

/-- The request taken out of the queues. -/
theorem Slotted.dequeue (h : Slotted x) (r : ReqId) :
    Slotted { x with
      sendqueue := mmcQueueRemove x.sendqueue r, readqueue := mmcQueueRemove x.readqueue r } := by
  constructor
  · intro hnone
    dsimp only at hnone ⊢
    rw [h.send hnone]
    rfl
  · intro hnone
    dsimp only at hnone ⊢
    rw [h.read hnone]
    rfl

theorem Slotted.drop (h : Slotted x) (r : ReqId) : Slotted (x.drop r) := by
  have hqueues := h.dequeue r
  unfold SharedServer.drop
  dsimp only
  split
  · split
    · exact hqueues.shiftSend.shiftRead
    · exact hqueues.shiftSend
  · split
    · exact hqueues.shiftRead
    · exact hqueues

theorem active_schedule : a ∈ (x.schedule r).active ↔ a ∈ x.active ∨ a = r := by
  rw [mem_active, mem_active, SharedServer.schedule]
  cases x.readreq with
  | none => simp; grind
  | some b => simp; grind

theorem held_schedule (h : a ∈ (x.schedule r).held) : a ∈ x.held ∨ a = r := by
  rw [mem_held, active_schedule] at h
  rw [mem_held]
  unfold SharedServer.schedule at h
  cases hsend : x.sendreq with
  | none => simp [hsend] at h; grind
  | some b => simp [hsend] at h; grind

/-- The request being built is scheduled, and what is built next takes its place. -/
theorem active_schedule_build (h : x.buildreq = some r) (b : Option ReqId) (ha : a ∈ x.active) :
    a ∈ SharedServer.active { x.schedule r with buildreq := b } := by
  rw [mem_active] at ha ⊢
  dsimp only [SharedServer.schedule]
  cases hread : x.readreq with
  | none => simp [hread, h] at ha ⊢; grind
  | some c => simp [hread, h] at ha ⊢; grind

theorem active_shiftSend : a ∈ x.shiftSend.active ↔ a ∈ x.active := by
  rw [mem_active, mem_active]
  rfl

/-- What was in the read slot is gone, and everything else stays. -/
theorem active_shiftRead (h : x.readreq = some r) :
    (a ∈ x.active → a = r ∨ a ∈ x.shiftRead.active) ∧ (a ∈ x.shiftRead.active → a ∈ x.active) := by
  rw [mem_active, mem_active, SharedServer.shiftRead, h]
  cases x.readqueue with
  | nil => simp; grind
  | cons b rest => simp; grind

theorem held_shiftSend (h : a ∈ x.shiftSend.held) : a ∈ x.held := by
  rw [mem_held, active_shiftSend] at h
  rw [mem_held]
  unfold SharedServer.shiftSend at h
  cases hqueue : x.sendqueue with
  | nil => simp [hqueue] at h; grind
  | cons b rest => simp [hqueue] at h; grind

theorem held_shiftRead (hread : x.readreq = some r) (h : a ∈ x.shiftRead.held) : a ∈ x.held := by
  rw [mem_held] at h ⊢
  exact h.imp_left (active_shiftRead hread).2

theorem active_complete (h : x.readreq = some r) (ha : a ∈ x.active) :
    a = r ∨ a ∈ (x.complete r).active := by
  unfold SharedServer.complete
  split
  · exact (@active_shiftRead x.shiftSend r a h).1 (active_shiftSend.mpr ha)
  · exact (active_shiftRead h).1 ha

theorem held_complete (h : x.readreq = some r) (ha : a ∈ (x.complete r).held) : a ∈ x.held := by
  unfold SharedServer.complete at ha
  split at ha
  · exact held_shiftSend (@held_shiftRead x.shiftSend r a h ha)
  · exact held_shiftRead h ha

/-- A slot with another request is left alone. -/
theorem complete_sendreq (h : x.sendreq ≠ some r) : (x.complete r).sendreq = x.sendreq := by
  rw [SharedServer.complete, if_neg h]
  rfl

theorem complete_buildreq (x : SharedServer) (r : ReqId) : (x.complete r).buildreq = x.buildreq := by
  unfold SharedServer.complete
  split <;> rfl

theorem drop_sendreq (h : x.sendreq ≠ some r) : (x.drop r).sendreq = x.sendreq := by
  unfold SharedServer.drop
  dsimp only
  rw [if_neg h]
  split <;> rfl

theorem drop_readreq (h : x.readreq ≠ some r) : (x.drop r).readreq = x.readreq := by
  by_cases hsend : x.sendreq = some r
  · simp [SharedServer.drop, SharedServer.shiftSend, hsend, h]
  · simp [SharedServer.drop, hsend, h]

theorem drop_buildreq (x : SharedServer) (r : ReqId) : (x.drop r).buildreq = x.buildreq := by
  unfold SharedServer.drop
  dsimp only
  split
  · split <;> rfl
  · split <;> rfl

theorem active_dequeue (r : ReqId) :
    (a ∈ x.active → a = r ∨ a ∈ SharedServer.active { x with
      sendqueue := mmcQueueRemove x.sendqueue r, readqueue := mmcQueueRemove x.readqueue r }) ∧
    (a ∈ SharedServer.active { x with
      sendqueue := mmcQueueRemove x.sendqueue r, readqueue := mmcQueueRemove x.readqueue r } →
      a ∈ x.active) := by
  simp only [mem_active, mem_mmcQueueRemove]
  grind

theorem held_dequeue {r : ReqId} (h : a ∈ SharedServer.held { x with
    sendqueue := mmcQueueRemove x.sendqueue r, readqueue := mmcQueueRemove x.readqueue r }) :
    a ∈ x.held := by
  simp only [mem_held, mem_active, mem_mmcQueueRemove] at h ⊢
  grind

theorem active_drop (ha : a ∈ x.active) : a = r ∨ a ∈ (x.drop r).active := by
  rcases (active_dequeue r).1 ha with rfl | hqueues
  · exact Or.inl rfl
  · unfold SharedServer.drop
    dsimp only
    split
    · split
      · next hread => exact (active_shiftRead hread).1 (active_shiftSend.mpr hqueues)
      · exact Or.inr (active_shiftSend.mpr hqueues)
    · split
      · next hread => exact (active_shiftRead hread).1 hqueues
      · exact Or.inr hqueues

theorem held_drop (ha : a ∈ (x.drop r).held) : a ∈ x.held := by
  unfold SharedServer.drop at ha
  dsimp only at ha
  split at ha
  · split at ha
    · next hread => exact held_dequeue (held_shiftSend (held_shiftRead hread ha))
    · exact held_dequeue (held_shiftSend ha)
  · split at ha
    · next hread => exact held_dequeue (held_shiftRead hread ha)
    · exact held_dequeue ha

end SharedServer

/-! ## Servers that serve one pool -/

namespace SharingState

variable {s s' : SharingState} {p : Nat} {m : Mmc}

/-- The server is at the disposal of the pool: all its requests are the pool's, and the pool services it
    exactly while there are some, as no other pool does. -/
structure ServedBy (s : SharingState) (m : Mmc) (p : Nat) : Prop where
  held : ∀ r ∈ (s.server m).held, r < s.requests ∧ s.owner r = p
  slotted : (s.server m).Slotted
  sending : m ∈ (s.pool p).sending ↔ (s.server m).sendreq ≠ none
  reading : m ∈ (s.pool p).reading ↔ (s.server m).readreq ≠ none
  pending : m ∈ (s.pool p).pending ↔ (s.server m).buildreq ≠ none
  others : ∀ q ≠ p, m ∉ (s.pool q).sending ∧ m ∉ (s.pool q).reading ∧ m ∉ (s.pool q).pending

/-- An idle server is at the disposal of every pool. -/
theorem ServedBy.of_holdsOnly {q : Nat} (h : s.ServedBy m q) (honly : s.HoldsOnly m p) :
    s.ServedBy m p := by
  by_cases hpq : q = p
  · rwa [← hpq]
  · -- all requests would belong to both
    have hempty : (s.server m).held = [] := by
      refine List.eq_nil_iff_forall_not_mem.mpr fun r hr => hpq ?_
      rw [← (h.held r hr).2, honly r hr]
    have hserver := SharedServer.eq_empty_of_held hempty
    have hidle : ∀ q', m ∉ (s.pool q').sending ∧ m ∉ (s.pool q').reading ∧ m ∉ (s.pool q').pending := by
      intro q'
      by_cases hq : q' = q
      · subst hq
        rw [h.sending, h.reading, h.pending, hserver]
        exact ⟨fun hne => hne rfl, fun hne => hne rfl, fun hne => hne rfl⟩
      · exact h.others q' hq
    refine ⟨fun r hr => absurd (hempty ▸ hr) List.not_mem_nil, h.slotted, ?_, ?_, ?_,
      fun q' _ => hidle q'⟩
    · exact iff_of_false (hidle p).1 (by rw [hserver]; exact fun hne => hne rfl)
    · exact iff_of_false (hidle p).2.1 (by rw [hserver]; exact fun hne => hne rfl)
    · exact iff_of_false (hidle p).2.2 (by rw [hserver]; exact fun hne => hne rfl)

theorem ServedBy.of_sending {q : Nat} (h : s.ServedBy m q) (hm : m ∈ (s.pool p).sending) :
    s.ServedBy m p := by
  have hpq : p = q := by
    by_contra hne
    exact (h.others p hne).1 hm
  rwa [hpq]

theorem ServedBy.of_reading {q : Nat} (h : s.ServedBy m q) (hm : m ∈ (s.pool p).reading) :
    s.ServedBy m p := by
  have hpq : p = q := by
    by_contra hne
    exact (h.others p hne).2.1 hm
  rwa [hpq]

theorem ServedBy.of_pending {q : Nat} (h : s.ServedBy m q) (hm : m ∈ (s.pool p).pending) :
    s.ServedBy m p := by
  have hpq : p = q := by
    by_contra hne
    exact (h.others p hne).2.2 hm
  rwa [hpq]

/-- A step changes nothing but server `m` and what pool `p` has noted about it. -/
structure Touches (s s' : SharingState) (p : Nat) (m : Mmc) : Prop where
  server : ∀ m' ≠ m, s'.server m' = s.server m'
  lists : ∀ q m', (q ≠ p ∨ m' ≠ m) → (m' ∈ (s'.pool q).sending ↔ m' ∈ (s.pool q).sending) ∧
    (m' ∈ (s'.pool q).reading ↔ m' ∈ (s.pool q).reading) ∧
    (m' ∈ (s'.pool q).pending ↔ m' ∈ (s.pool q).pending)
  owner : ∀ r < s.requests, s'.owner r = s.owner r
  requests : s.requests ≤ s'.requests

theorem Touches.refl (s : SharingState) (p : Nat) (m : Mmc) : s.Touches s p m :=
  ⟨fun _ _ => rfl, fun _ _ _ => ⟨Iff.rfl, Iff.rfl, Iff.rfl⟩, fun _ _ => rfl, Nat.le_refl _⟩

theorem Touches.trans {s'' : SharingState} (h : s.Touches s' p m) (h' : s'.Touches s'' p m) :
    s.Touches s'' p m where
  server m' hm := (h'.server m' hm).trans (h.server m' hm)
  lists q m' hother :=
    have hfirst := h.lists q m' hother
    have hsecond := h'.lists q m' hother
    ⟨hsecond.1.trans hfirst.1, hsecond.2.1.trans hfirst.2.1, hsecond.2.2.trans hfirst.2.2⟩
  owner r hr := (h'.owner r (Nat.lt_of_lt_of_le hr h.requests)).trans (h.owner r hr)
  requests := Nat.le_trans h.requests h'.requests

/-- The requests of server `m` are the pool's, and the pool has noted which of the slots for sending and
    reading are taken. -/
structure Services (s : SharingState) (p : Nat) (m : Mmc) : Prop where
  held : ∀ r ∈ (s.server m).held, r < s.requests ∧ s.owner r = p
  slotted : (s.server m).Slotted
  sending : m ∈ (s.pool p).sending ↔ (s.server m).sendreq ≠ none
  reading : m ∈ (s.pool p).reading ↔ (s.server m).readreq ≠ none

/-- The same, for all slots. -/
structure Settles (s : SharingState) (p : Nat) (m : Mmc) : Prop extends Services s p m where
  pending : m ∈ (s.pool p).pending ↔ (s.server m).buildreq ≠ none

theorem ServedBy.settles (h : s.ServedBy m p) : s.Settles p m :=
  ⟨⟨h.held, h.slotted, h.sending, h.reading⟩, h.pending⟩

theorem Settles.servedBy (h : s'.Settles p m) (hbefore : s.ServedBy m p) (htouches : s.Touches s' p m) :
    s'.ServedBy m p where
  held := h.held
  slotted := h.slotted
  sending := h.sending
  reading := h.reading
  pending := h.pending
  others q hq := by
    obtain ⟨hsending, hreading, hpending⟩ := htouches.lists q m (Or.inl hq)
    rw [hsending, hreading, hpending]
    exact hbefore.others q hq

/-- **The other servers** serve the pools they served. -/
theorem served_of_touches (h : ∀ m, ∃ q, s.ServedBy m q) (htouches : s.Touches s' p m)
    (hm : s'.ServedBy m p) : ∀ m', ∃ q, s'.ServedBy m' q := by
  intro m'
  by_cases hother : m' = m
  · subst hother
    exact ⟨p, hm⟩
  · obtain ⟨q, hq⟩ := h m'
    have hlists := fun q' => htouches.lists q' m' (Or.inr hother)
    have hserver := htouches.server m' hother
    refine ⟨q, ?_, ?_, ?_, ?_, ?_, ?_⟩
    · intro r hr
      rw [hserver] at hr
      obtain ⟨hlt, howner⟩ := hq.held r hr
      exact ⟨Nat.lt_of_lt_of_le hlt htouches.requests, (htouches.owner r hlt).trans howner⟩
    · rw [hserver]
      exact hq.slotted
    · rw [hserver, (hlists q).1]
      exact hq.sending
    · rw [hserver, (hlists q).2.1]
      exact hq.reading
    · rw [hserver, (hlists q).2.2]
      exact hq.pending
    · intro q' hq'
      rw [(hlists q').1, (hlists q').2.1, (hlists q').2.2]
      exact hq.others q' hq'

/-! ## What the steps change -/

@[simp]
theorem setServer_server_self (s : SharingState) (m : Mmc) (x : SharedServer) :
    (s.setServer m x).server m = x := Function.update_self _ _ _

@[simp]
theorem setPool_pool_self (s : SharingState) (p : Nat) (x : SharingPool) :
    (s.setPool p x).pool p = x := Function.update_self _ _ _

@[simp]
theorem setServer_pool (s : SharingState) (m : Mmc) (x : SharedServer) :
    (s.setServer m x).pool = s.pool := rfl

@[simp]
theorem setPool_server (s : SharingState) (p : Nat) (x : SharingPool) :
    (s.setPool p x).server = s.server := rfl

@[simp]
theorem mem_keepIf (keep : Prop) [Decidable keep] (servers : Finset Mmc) (m : Mmc) :
    m ∈ keepIf keep servers m ↔ keep ∧ m ∈ servers := by
  unfold keepIf
  split <;> simp [*]

theorem mem_keepIf_other {keep : Prop} [Decidable keep] {servers : Finset Mmc} {m m' : Mmc}
    (h : m' ≠ m) : m' ∈ keepIf keep servers m ↔ m' ∈ servers := by
  unfold keepIf
  split <;> simp [h]

theorem touches_setServer (s : SharingState) (p : Nat) (m : Mmc) (x : SharedServer) :
    s.Touches (s.setServer m x) p m :=
  { Touches.refl s p m with server := fun _ hm => Function.update_of_ne hm _ _ }

/-- The lists are the same away from server `m`. -/
def SameElsewhere (m : Mmc) (x y : SharingPool) : Prop :=
  ∀ m' ≠ m, (m' ∈ x.sending ↔ m' ∈ y.sending) ∧ (m' ∈ x.reading ↔ m' ∈ y.reading) ∧
    (m' ∈ x.pending ↔ m' ∈ y.pending)

theorem touches_setPool (s : SharingState) {p : Nat} {m : Mmc} {x : SharingPool}
    (h : SameElsewhere m x (s.pool p)) : s.Touches (s.setPool p x) p m := by
  refine { Touches.refl s p m with lists := fun q m' hother => ?_ }
  by_cases hq : q = p
  · subst hq
    rw [setPool_pool_self]
    exact h m' (hother.resolve_left fun hne => hne rfl)
  · have hpool : (s.setPool p x).pool q = s.pool q := Function.update_of_ne hq _ _
    rw [hpool]
    exact ⟨Iff.rfl, Iff.rfl, Iff.rfl⟩

theorem touches_stack (s : SharingState) (p : Nat) (m : Mmc) (stack : List SharingFrame) :
    s.Touches { s with stack } p m :=
  ⟨fun _ _ => rfl, fun _ _ _ => ⟨Iff.rfl, Iff.rfl, Iff.rfl⟩, fun _ _ => rfl, Nat.le_refl _⟩

theorem touches_push (s : SharingState) (p : Nat) (m : Mmc) (frame : SharingFrame) :
    s.Touches (s.push frame) p m := touches_stack s p m (frame :: s.stack)

theorem touches_finish (s : SharingState) (deed : Deed) (p : Nat) (m : Mmc) (r : ReqId) :
    s.Touches (s.finish deed p r) p m :=
  ⟨fun _ _ => rfl, fun _ _ _ => ⟨Iff.rfl, Iff.rfl, Iff.rfl⟩, fun _ _ => rfl, Nat.le_refl _⟩

theorem touches_newRequest (s : SharingState) (p : Nat) (m : Mmc) : s.Touches (s.newRequest p) p m :=
  { Touches.refl s p m with
    owner := fun _ hr => Function.update_of_ne (Nat.ne_of_lt hr) _ _
    requests := Nat.le_succ _ }

theorem touches_schedule (s : SharingState) (p : Nat) (m : Mmc) (r : ReqId) :
    s.Touches (s.schedule p m r) p m := by
  refine (touches_setServer s p m _).trans (touches_setPool _ fun m' hm => ⟨?_, ?_, Iff.rfl⟩)
  · dsimp only
    split <;> simp [hm]
  · dsimp only
    split <;> simp [hm]

theorem touches_build (s : SharingState) (p : Nat) (m : Mmc) : s.Touches (s.build p m) p m :=
  (touches_newRequest s p m).trans (touches_setServer _ p m _)

theorem touches_scheduleGet (s : SharingState) (p : Nat) (m : Mmc) (full : Bool) :
    s.Touches (s.scheduleGet p m full) p m := by
  unfold SharingState.scheduleGet
  split
  · have hinsert : s.Touches
        (s.setPool p { s.pool p with pending := insert m (s.pool p).pending }) p m :=
      touches_setPool s fun m' hm => ⟨Iff.rfl, Iff.rfl, by simp [hm]⟩
    exact hinsert.trans (touches_build _ p m)
  · split
    · exact (touches_schedule s p m _).trans (touches_build _ p m)
    · exact ⟨fun _ _ => rfl, fun _ _ _ => ⟨Iff.rfl, Iff.rfl, Iff.rfl⟩, fun _ _ => rfl, Nat.le_refl _⟩

theorem touches_schedulePending (s : SharingState) (p : Nat) (m : Mmc) (r : ReqId) :
    s.Touches (s.schedulePending p m r) p m := by
  have herase : s.Touches
      (s.setPool p { s.pool p with pending := (s.pool p).pending.erase m }) p m :=
    touches_setPool s fun m' hm => ⟨Iff.rfl, Iff.rfl, by simp [hm]⟩
  exact (herase.trans (touches_schedule _ p m r)).trans (touches_setServer _ p m _)

theorem touches_set (s : SharingState) (p : Nat) (m : Mmc) (x : SharedServer) (y : SharingPool)
    (h : SameElsewhere m y (s.pool p)) : s.Touches ((s.setServer m x).setPool p y) p m :=
  (touches_setServer s p m x).trans (touches_setPool _ h)

theorem touches_sent (s : SharingState) (p : Nat) (m : Mmc) : s.Touches (s.sent p m) p m := by
  refine touches_set s p m _ _ ?_
  exact fun m' hm => ⟨mem_keepIf_other hm, Iff.rfl, Iff.rfl⟩

theorem touches_complete (s : SharingState) (p : Nat) (m : Mmc) (r : ReqId) :
    s.Touches (s.complete p m r) p m := by
  refine (touches_set s p m _ _ ?_).trans (touches_finish _ _ p m r)
  exact fun m' hm => ⟨mem_keepIf_other hm, mem_keepIf_other hm, Iff.rfl⟩

theorem touches_retry (s : SharingState) (p : Nat) (sending : Bool) (m : Mmc) (r : ReqId) :
    s.Touches (s.retry p sending m r) p m := by
  refine (touches_set s p m _ _ ?_).trans (touches_push _ p m _)
  exact fun m' hm => ⟨mem_keepIf_other hm, mem_keepIf_other hm, Iff.rfl⟩

theorem touches_deactivate (s : SharingState) (p : Nat) (m : Mmc) :
    s.Touches (s.deactivate p m) p m := by
  refine (touches_set s p m _ _ ?_).trans (touches_push _ p m _)
  exact fun m' hm => ⟨by simp [hm], by simp [hm], Iff.rfl⟩

/-! ## The server a step is about -/

theorem Services.newRequest (h : s.Services p m) : (s.newRequest p).Services p m where
  held r hr := by
    obtain ⟨hlt, howner⟩ := h.held r hr
    exact ⟨Nat.lt_succ_of_lt hlt, ((touches_newRequest s p m).owner r hlt).trans howner⟩
  slotted := h.slotted
  sending := h.sending
  reading := h.reading

theorem Services.schedule (h : s.Services p m) {r : ReqId} (hr : r < s.requests)
    (howner : s.owner r = p) : (s.schedule p m r).Services p m := by
  have hserver : (s.schedule p m r).server m = (s.server m).schedule r := by
    simp [SharingState.schedule]
  refine ⟨?_, ?_, ?_, ?_⟩
  · intro r' hr'
    rw [hserver] at hr'
    rcases SharedServer.held_schedule hr' with hold | rfl
    · exact h.held r' hold
    · exact ⟨hr, howner⟩
  · rw [hserver]
    exact SharedServer.slotted_schedule _ r
  · rw [hserver]
    have hold := h.sending
    simp only [SharingState.schedule, setPool_pool_self, SharedServer.schedule]
    split <;> simp_all
  · rw [hserver]
    have hold := h.reading
    simp only [SharingState.schedule, setPool_pool_self, SharedServer.schedule]
    split <;> simp_all

theorem schedule_pending (s : SharingState) (p : Nat) (m : Mmc) (r : ReqId) :
    ((s.schedule p m r).pool p).pending = (s.pool p).pending ∧
      ((s.schedule p m r).server m).buildreq = (s.server m).buildreq := by
  simp [SharingState.schedule, SharedServer.schedule]

theorem Settles.schedule (h : s.Settles p m) {r : ReqId} (hr : r < s.requests) (howner : s.owner r = p) :
    (s.schedule p m r).Settles p m := by
  refine ⟨h.toServices.schedule hr howner, ?_⟩
  rw [(schedule_pending s p m r).1, (schedule_pending s p m r).2]
  exact h.pending

/-- The build slot is filled, and the pool knows. -/
theorem Services.build (h : s.Services p m) (hpending : m ∈ (s.pool p).pending) :
    (s.build p m).Settles p m := by
  have hnew := h.newRequest
  have hserver : (s.build p m).server m = { s.server m with buildreq := some s.requests } := by
    simp [SharingState.build, SharingState.newRequest]
  refine ⟨⟨?_, ?_, ?_, ?_⟩, ?_⟩
  · intro r hr
    rw [hserver, SharedServer.mem_held, SharedServer.mem_active] at hr
    have hheld := hnew.held r
    rw [SharedServer.mem_held, SharedServer.mem_active] at hheld
    rcases hr with (hread | hqueue | hbuild) | hsend
    · exact hheld (Or.inl (Or.inl hread))
    · exact hheld (Or.inl (Or.inr (Or.inl hqueue)))
    · cases hbuild
      exact ⟨Nat.lt_succ_self _, Function.update_self _ _ _⟩
    · exact hheld (Or.inr hsend)
  · rw [hserver]
    exact ⟨h.slotted.send, h.slotted.read⟩
  · rw [hserver]
    exact h.sending
  · rw [hserver]
    exact h.reading
  · rw [hserver]
    exact iff_of_true hpending (Option.some_ne_none _)

theorem Settles.scheduleGet (h : s.Settles p m) (full : Bool) :
    (s.scheduleGet p m full).Settles p m := by
  unfold SharingState.scheduleGet
  split
  · have hinsert : (s.setPool p
        { s.pool p with pending := insert m (s.pool p).pending }).Services p m :=
      ⟨h.held, h.slotted, by simpa using h.sending, by simpa using h.reading⟩
    exact hinsert.build (by simp)
  · next r hbuild =>
    split
    · have hheld := h.held r (SharedServer.mem_held.mpr (Or.inl
        (SharedServer.mem_active.mpr (Or.inr (Or.inr hbuild)))))
      refine (h.toServices.schedule hheld.1 hheld.2).build ?_
      rw [(schedule_pending s p m r).1]
      exact h.pending.mpr (by simp [hbuild])
    · exact ⟨⟨h.held, h.slotted, h.sending, h.reading⟩, h.pending⟩

theorem Settles.schedulePending (h : s.Settles p m) {r : ReqId} (hbuild : (s.server m).buildreq = some r) :
    (s.schedulePending p m r).Settles p m := by
  have hheld := h.held r (SharedServer.mem_held.mpr (Or.inl
    (SharedServer.mem_active.mpr (Or.inr (Or.inr hbuild)))))
  have herase : (s.setPool p
      { s.pool p with pending := (s.pool p).pending.erase m }).Services p m :=
    ⟨h.held, h.slotted, by simpa using h.sending, by simpa using h.reading⟩
  have hschedule := herase.schedule hheld.1 hheld.2
  unfold SharingState.schedulePending
  dsimp only
  refine ⟨⟨?_, ?_, ?_, ?_⟩, ?_⟩
  · intro r' hr'
    refine hschedule.held r' ?_
    rw [setServer_server_self, SharedServer.mem_held, SharedServer.mem_active] at hr'
    rw [SharedServer.mem_held, SharedServer.mem_active]
    rcases hr' with (hread | hqueue | hnone) | hsend
    · exact Or.inl (Or.inl hread)
    · exact Or.inl (Or.inr (Or.inl hqueue))
    · cases hnone
    · exact Or.inr hsend
  · rw [setServer_server_self]
    exact ⟨hschedule.slotted.send, hschedule.slotted.read⟩
  · rw [setServer_server_self]
    exact hschedule.sending
  · rw [setServer_server_self]
    exact hschedule.reading
  · rw [setServer_server_self]
    simp [SharingState.schedule]

theorem Settles.sent (h : s.Settles p m) (hsending : (s.server m).sendreq ≠ none) :
    (s.sent p m).Settles p m := by
  have hserver : (s.sent p m).server m = (s.server m).shiftSend := by simp [SharingState.sent]
  have hpool : (s.sent p m).pool p = { s.pool p with
      sending := keepIf ((s.server m).shiftSend.sendreq ≠ none) (s.pool p).sending m } := by
    simp [SharingState.sent]
  refine ⟨⟨?_, ?_, ?_, ?_⟩, ?_⟩
  · rw [hserver]
    exact fun r hr => h.held r (SharedServer.held_shiftSend hr)
  · rw [hserver]
    exact h.slotted.shiftSend
  · rw [hserver, hpool, mem_keepIf]
    exact and_iff_left (h.sending.mpr hsending)
  · rw [hserver, hpool]
    exact h.reading
  · rw [hserver, hpool]
    exact h.pending

/-- A server is kept if the slot it is kept for is left alone or filled again. -/
theorem mem_keepIf_slot {slot slot' : Option ReqId} {r : ReqId} {servers : Finset Mmc} {m : Mmc}
    (h : m ∈ servers ↔ slot ≠ none) (hother : slot ≠ some r → slot' = slot) :
    m ∈ keepIf (slot = some r → slot' ≠ none) servers m ↔ slot' ≠ none := by
  rw [mem_keepIf]
  by_cases hslot : slot = some r
  · have hmem : m ∈ servers := h.mpr (by simp [hslot])
    simp [hslot, hmem]
  · rw [hother hslot, h]
    simp [hslot]

theorem Settles.complete (h : s.Settles p m) {r : ReqId} (hread : (s.server m).readreq = some r) :
    (s.complete p m r).Settles p m := by
  have hserver : (s.complete p m r).server m = (s.server m).complete r := by
    simp [SharingState.complete, SharingState.finish]
  have hpool : (s.complete p m r).pool p = { s.pool p with
      sending := keepIf ((s.server m).sendreq = some r → ((s.server m).complete r).sendreq ≠ none)
        (s.pool p).sending m
      reading := keepIf (((s.server m).complete r).readreq ≠ none) (s.pool p).reading m } := by
    simp [SharingState.complete, SharingState.finish]
  refine ⟨⟨?_, ?_, ?_, ?_⟩, ?_⟩
  · rw [hserver]
    exact fun r' hr' => h.held r' (SharedServer.held_complete hread hr')
  · rw [hserver]
    exact h.slotted.complete r
  · rw [hserver, hpool]
    exact mem_keepIf_slot h.sending SharedServer.complete_sendreq
  · rw [hserver, hpool, mem_keepIf]
    exact and_iff_left (h.reading.mpr (by simp [hread]))
  · rw [hserver, hpool, SharedServer.complete_buildreq]
    exact h.pending

theorem Settles.retry (h : s.Settles p m) {sending : Bool} {r : ReqId}
    (hlast : if sending then ((s.server m).drop r).sendreq = none
      else ((s.server m).drop r).readreq = none) :
    (s.retry p sending m r).Settles p m := by
  have hserver : (s.retry p sending m r).server m = (s.server m).drop r := by
    simp [SharingState.retry, SharingState.push]
  have hpool : (s.retry p sending m r).pool p = { s.pool p with
      sending := keepIf (sending = false ∧
        ((s.server m).sendreq = some r → ((s.server m).drop r).sendreq ≠ none)) (s.pool p).sending m
      reading := keepIf (sending = true ∧
        ((s.server m).readreq = some r → ((s.server m).drop r).readreq ≠ none))
        (s.pool p).reading m } := by
    simp [SharingState.retry, SharingState.push]
  have hsend := @mem_keepIf_slot _ _ r _ _ h.sending
    (@SharedServer.drop_sendreq (s.server m) r)
  have hread := @mem_keepIf_slot _ _ r _ _ h.reading
    (@SharedServer.drop_readreq (s.server m) r)
  rw [mem_keepIf] at hsend hread
  refine ⟨⟨?_, ?_, ?_, ?_⟩, ?_⟩
  · rw [hserver]
    exact fun r' hr' => h.held r' (SharedServer.held_drop hr')
  · rw [hserver]
    exact h.slotted.drop r
  · rw [hserver, hpool, mem_keepIf]
    cases sending with
    | true => simpa using hlast
    | false => simpa using hsend
  · rw [hserver, hpool, mem_keepIf]
    cases sending with
    | true => simpa using hread
    | false => simpa using hlast
  · rw [hserver, hpool, SharedServer.drop_buildreq]
    exact h.pending

theorem Settles.deactivate (h : s.Settles p m) (hbuild : (s.server m).buildreq = none) :
    (s.deactivate p m).Settles p m := by
  have hserver : (s.deactivate p m).server m = {} := by
    simp [SharingState.deactivate, SharingState.push]
  have hpool : (s.deactivate p m).pool p = { s.pool p with
      sending := (s.pool p).sending.erase m, reading := (s.pool p).reading.erase m } := by
    simp [SharingState.deactivate, SharingState.push]
  have hpending : m ∉ (s.pool p).pending := fun hm => h.pending.mp hm hbuild
  refine ⟨⟨?_, ?_, ?_, ?_⟩, ?_⟩
  · rw [hserver]
    exact fun r hr => absurd hr List.not_mem_nil
  · rw [hserver]
    exact ⟨fun _ => rfl, fun _ => rfl⟩
  · rw [hserver, hpool]
    simp
  · rw [hserver, hpool]
    simp
  · rw [hserver, hpool]
    exact iff_of_false hpending (fun hne => hne rfl)

end SharingState

end PeclMemcache
