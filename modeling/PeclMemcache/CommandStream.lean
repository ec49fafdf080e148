import PeclMemcache.Transport
import PeclMemcache.Redundancy
import PeclMemcache.Machines

set_option autoImplicit false

/-! # The commands on a connection

How far a request was sent is an index into its buffer, which `mmc_pool_schedule` resets,
`mmc_pool_slot_send` moves behind the room for the UDP header, and `mmc_request_send` advances by what the
socket took. On the TCP connection of a server the commands should follow each other, each of them
complete and without that room. -/

namespace PeclMemcache

open Machines

/-! ## The send line of a server -/

/-- The room for the UDP header in front of a command. -/
def MmcRequest.reserved (q : MmcRequest) : Nat := if q.protocol = .udp then udpHeaderSize else 0

/-- What of the command was sent. -/
def MmcRequest.progress (q : MmcRequest) : Bytes := q.command.take (q.sendbuf.idx - q.reserved)

/-- A server with the requests; when each was scheduled, in a count of all that were; the requests
    whose `mmc_pool_slot_send` found that the UDP stream cannot be connected and goes on when the
    failover handlers return; and how many calls of it found that the TCP stream cannot be. `written` is
    what was sent for the last TCP connection, and `done` the commands that were sent on it completely,
    with the times at which they were scheduled. -/
structure SendLine where
  m : Mmc
  server : MmcServer
  req : ReqId → MmcRequest
  scheduled : ReqId → Nat := fun _ => 0
  clock : Nat := 1
  connections : Nat := 0
  refused : List ReqId := []
  unreachable : Nat := 0
  written : Bytes := []
  done : List (Nat × Bytes) := []

/-- The descriptors that the streams get if they can be connected, and the time. -/
structure Reachable where
  udp : Option Nat := none
  tcp : Option Nat := none
  time : Int := 0

/-- What happens to the send line. -/
inductive LineAction
  /-- Something else is done to the request: it is allocated, built, cloned, or it waits at another
      server. -/
  | elsewhere (r : ReqId) (q : MmcRequest)
  /-- `mmc_pool_schedule`. -/
  | schedule (r : ReqId) (fds : Reachable)
  /-- `mmc_request_send` with a socket that takes up to `n` bytes. -/
  | send (n : Nat) (fds : Reachable)
  /-- `mmc_server_failure` on the stream of the request, and `mmc_select_retry` or
      `mmc_server_deactivate`. `other` is that stream if the request has been moved to another server. -/
  | failure (r : ReqId) (other : MmcStream) (fds : Reachable)
  /-- A datagram shows that a packet was lost, and perhaps the request is to be retried. -/
  | lost (r : ReqId) (again : Bool) (fds : Reachable)
  /-- The request in the send slot has its response already. -/
  | early (fds : Reachable)
  /-- `mmc_pool_slot_send` goes on with the `i`-th request whose datagram was refused. -/
  | refused (i : Nat) (fds : Reachable)
  /-- `mmc_pool_slot_send` goes on when the TCP stream could not be connected. -/
  | unreachable
  | deactivate (time : Int)
  | disconnect (t : MmcProto)
  /-- `mmc_server_sleep`. -/
  | sleep
  /-- `mmc_find_persistent` finds the server. -/
  | reuse

namespace SendLine

/-- `mmc_server_deactivate`. -/
def deactivated (s : SendLine) (time : Int) : SendLine :=
  { s with server := { s.server.offline time with sendreq := none, sendqueue := [] } }

/-- The TCP branch of `mmc_pool_slot_send`, and the one for a server that cannot be reached. -/
def slotSendTcp (s : SendLine) (r : ReqId) (fds : Reachable) : SendLine :=
  let q := s.req r
  let taken := { q with
    sendbuf := { q.sendbuf with idx := q.sendbuf.idx + q.reserved }
    io := some (s.m, .tcp)
    read := false }
  if s.server.tcp.needsConnect then
    match fds.tcp with
    | some fd =>
      -- a new connection, nothing was sent on it
      { s with
        server := { s.server.ensureOpen .tcp s.connections fd with sendreq := some r }
        connections := s.connections + 1
        req := Function.update s.req r taken
        written := []
        done := [] }
    | none => { s with unreachable := s.unreachable + 1 }.deactivated fds.time
  else
    { s with
      server := { s.server with sendreq := some r }
      req := Function.update s.req r taken }

/-- `mmc_pool_slot_send`. -/
def slotSend (s : SendLine) (r : ReqId) (fds : Reachable) : SendLine :=
  let q := s.req r
  let taken := { q with
    io := some (s.m, .udp)
    read := true
    udp := { reqid := s.server.reqid }
    sendbuf := { q.sendbuf with value := setUdpHeader s.server.reqid q.sendbuf.value } }
  if wantsUdp s.server q then
    if s.server.udp.needsConnect ∧ fds.udp = none then
      { s with refused := r :: s.refused }.deactivated fds.time
    else
      { s with
        server := { s.server.ensureOpen .udp s.connections (fds.udp.getD 0) with
          sendreq := some r
          reqid := (s.server.reqid + 1) % 2 ^ 16 }
        connections := s.connections + 1
        req := Function.update s.req r taken }
  else s.slotSendTcp r fds

/-- `mmc_pool_slot_send(pool, mmc, mmc_queue_pop(&(mmc->sendqueue)), 1)`. -/
def shift (s : SendLine) (fds : Reachable) : SendLine :=
  match s.server.sendqueue with
  | [] => { s with server := { s.server with sendreq := none } }
  | r :: rest => { s with server := { s.server with sendqueue := rest } }.slotSend r fds

/-- `mmc_select_retry` as far as the send line is concerned. -/
def selectRetry (s : SendLine) (r : ReqId) (fds : Reachable) : SendLine :=
  let s := { s with server := { s.server with sendqueue := mmcQueueRemove s.server.sendqueue r } }
  if s.server.sendreq = some r then s.shift fds else s

/-- `mmc_request_send` took `n` bytes of the request in the send slot. -/
def sent (s : SendLine) (r : ReqId) (t : MmcProto) (n : Nat) : SendLine :=
  let q := s.req r
  { s with
    req := Function.update s.req r { q with
      sendbuf := { q.sendbuf with idx := q.sendbuf.idx + n } }
    written := if t = .tcp then s.written ++ (q.sendbuf.value.drop q.sendbuf.idx).take n else s.written }

/-- One action, where it is possible: what is scheduled has the room it was allocated with. -/
def perform (s : SendLine) : LineAction → Option SendLine
  | .elsewhere r q => some { s with req := Function.update s.req r q }
  | .schedule r fds =>
    if (s.req r).reserved ≤ (s.req r).sendbuf.value.length then
      let s := { s with
        req := Function.update s.req r (s.req r).rewind
        scheduled := Function.update s.scheduled r s.clock
        clock := s.clock + 1 }
      if s.server.sendreq = none then some (s.slotSend r fds)
      else some { s with
        server := { s.server with sendqueue := mmcQueuePush s.server.sendqueue r } }
    else none
  | .send n fds =>
    match s.server.sendreq with
    | some r =>
      let q := s.req r
      match q.io with
      | some (m, t) =>
        if m = s.m then
          let s' := s.sent r t
            (min n (min (q.sendbuf.value.length - q.sendbuf.idx) (s.server.io t).chunkSize))
          if (s'.req r).sendbuf.value.length ≤ (s'.req r).sendbuf.idx then
            some ({ s' with
              done := if t = MmcProto.tcp then s.done ++ [(s.scheduled r, q.command)] else s.done }.shift fds)
          else some s'
        else none
      | none => none
    | none => none
  | .failure r other fds =>
    match (s.req r).io with
    | some (m, t) =>
      let failed := (if m = s.m then s.server.io t else other).serverFailure
      let s' := if m = s.m then { s with server := s.server.modifyIo t fun _ => failed.2 } else s
      some (if failed.1 = .failure then s'.deactivated fds.time else s'.selectRetry r fds)
    | none => none
  | .lost r again fds =>
    if (s.req r).io = some (s.m, .udp) then
      let s' := { s with server := { s.server with udp := s.server.udp.markFailed fds.time } }
      some (if again then s'.selectRetry r fds else s')
    else none
  | .early fds =>
    match s.server.sendreq with
    | some r =>
      match (s.req r).io with
      | some (m, t) =>
        if m = s.m then
          some ({ s with server := s.server.modifyIo t MmcStream.disconnect }.shift fds)
        else none
      | none => none
    | none => none
  | .refused i fds =>
    match s.refused[i]? with
    | some r => some ({ s with refused := s.refused.eraseIdx i }.slotSendTcp r fds)
    | none => none
  | .unreachable =>
    if 0 < s.unreachable then
      some { s with
        server := { s.server with sendreq := none }
        unreachable := s.unreachable - 1 }
    else none
  | .deactivate time => some (s.deactivated time)
  | .disconnect t => some { s with server := s.server.modifyIo t MmcStream.disconnect }
  | .sleep => some { s with server := { s.server with sendreq := none, sendqueue := [] } }
  | .reuse =>
    if s.server.tcp.status = .connected then
      some { s with server := { s.server with tcp := { s.server.tcp with status := .unknown } } }
    else some s

/-- The request that is being sent on the TCP connection. -/
def onTcp (s : SendLine) : Option ReqId :=
  s.server.sendreq.filter fun r => (s.req r).io.map Prod.snd = some MmcProto.tcp

/-- **A clean stream of commands**: unless the connection is about to be replaced, what was sent for it
    is the complete commands in the order in which they were scheduled, each once, and what was sent of
    the one in the send slot. -/
structure Clean (s : SendLine) : Prop where
  written : s.server.tcp.needsConnect = false ∨ s.onTcp ≠ none →
    s.written = s.done.flatMap Prod.snd ++ (s.onTcp.map fun r => (s.req r).progress).getD []
  order : (s.done.map Prod.fst).Pairwise (· < ·)

/-- The condition. What waits in the send line is not scheduled once more and not changed from elsewhere;
    when `mmc_pool_slot_send` goes on after a stream could not be connected, the failover handlers have
    left the request and the server alone; and no persistent server is put to sleep with a command that
    is sent in part. -/
def Careful (s : SendLine) : LineAction → Prop
  | .elsewhere r _ => r ∉ s.server.sendLine
  | .schedule r _ => r ∉ s.server.sendLine
  | .refused i _ => s.server.sendLine = [] ∧ s.server.tcp.needsConnect ∧
    ∀ r ∈ s.refused[i]?, (s.req r).sendbuf.idx = 0
  | .unreachable => s.server.sendLine = []
  | .sleep => ∀ r ∈ s.onTcp, (s.req r).sendbuf.idx ≤ (s.req r).reserved
  | _ => True

instance (s : SendLine) (a : LineAction) : Decidable (s.Careful a) := by
  cases a <;> unfold SendLine.Careful <;> infer_instance

end SendLine

/-! ## Small lemmas -/

/-- A request is retried when its stream is to be connected again. -/
theorem MmcStream.needsConnect_serverFailure {io : MmcStream} (h : io.serverFailure.1 ≠ .failure) :
    io.serverFailure.2.needsConnect := by
  unfold serverFailure at h ⊢
  split at h
  · rename_i hstatus
    simp only [needsConnect, hstatus]
  · rfl
  · exact absurd rfl h

theorem MmcServer.ensureOpen_udp_tcp (s : MmcServer) (c fd : Nat) :
    (s.ensureOpen .udp c fd).tcp = s.tcp := by
  unfold ensureOpen
  split <;> rfl

theorem MmcServer.ensureOpen_sendqueue (s : MmcServer) (t : MmcProto) (c fd : Nat) :
    (s.ensureOpen t c fd).sendqueue = s.sendqueue := by
  unfold ensureOpen
  split
  · cases t <;> rfl
  · rfl

namespace SendLine

variable {s : SendLine} {r : ReqId}

/-! ## The invariant -/

/-- What the stamps say: the commands that were sent and the requests `line` follow each other in the
    order in which they were scheduled. -/
structure Ordered (s : SendLine) (line : List ReqId) : Prop where
  scheduled : ∀ r, s.scheduled r < s.clock
  past : ∀ t ∈ s.done.map Prod.fst, t < s.clock
  order : (s.done.map Prod.fst ++ line.map s.scheduled).Pairwise (· < ·)

/-- `line` waits, and nothing is in the send slot. -/
structure Ready (s : SendLine) (line : List ReqId) : Prop extends s.Ordered line where
  waiting : ∀ r ∈ line, (s.req r).sendbuf.idx = 0
  complete : s.server.tcp.needsConnect = false → s.written = s.done.flatMap Prod.snd

/-- The request in the send slot is at home there; over TCP it follows the commands that were sent. -/
def Slotted (s : SendLine) (r : ReqId) : Prop :=
  ∃ t, (s.req r).io = some (s.m, t) ∧ (t = .tcp → (s.req r).reserved ≤ (s.req r).sendbuf.idx ∧
    s.written = s.done.flatMap Prod.snd ++ (s.req r).progress)

/-- The invariant. -/
structure InOrder (s : SendLine) : Prop extends s.Ordered s.server.sendLine where
  waiting : ∀ r ∈ s.server.sendqueue, (s.req r).sendbuf.idx = 0
  sendFirst : s.server.sendreq = none → s.server.sendqueue = []
  slot : ∀ r ∈ s.server.sendreq, s.Slotted r
  complete : s.server.tcp.needsConnect = false → s.onTcp = none →
    s.written = s.done.flatMap Prod.snd

theorem Ordered.sublist {line line' : List ReqId} (h : s.Ordered line') (hsub : line.Sublist line') :
    s.Ordered line where
  scheduled := h.scheduled
  past := h.past
  order := h.order.sublist ((List.Sublist.refl _).append (hsub.map _))

theorem onTcp_of_io {t : MmcProto} (hreq : s.server.sendreq = some r)
    (hio : (s.req r).io = some (s.m, t)) : s.onTcp = if t = .tcp then some r else none := by
  rw [onTcp, hreq]
  cases t <;> simp [hio]

/-- A run in order has a clean stream of commands. -/
theorem InOrder.clean (h : s.InOrder) : s.Clean where
  written hopen := by
    cases hreq : s.server.sendreq with
    | none =>
      have hnone : s.onTcp = none := by
        rw [onTcp, hreq]
        rfl
      rw [hnone]
      rcases hopen with hopen | hsome
      · simpa using h.complete hopen hnone
      · exact absurd hnone hsome
    | some r =>
      obtain ⟨t, hio, htcp⟩ := h.slot r hreq
      have hon := onTcp_of_io hreq hio
      cases t with
      | tcp =>
        rw [hon]
        exact (htcp rfl).2
      | udp =>
        rw [hon] at hopen ⊢
        rcases hopen with hopen | hsome
        · simpa using h.complete hopen hon
        · exact absurd rfl hsome
  order := (List.pairwise_append.mp h.order).1

/-! ## Taking the send slot -/

theorem Ordered.inOrder_empty (h : s.Ordered []) (hreq : s.server.sendreq = none)
    (hqueue : s.server.sendqueue = [])
    (hcomplete : s.server.tcp.needsConnect = false → s.written = s.done.flatMap Prod.snd) :
    s.InOrder where
  toOrdered := by
    rw [MmcServer.sendLine, hreq, hqueue]
    exact h
  waiting := by
    rw [hqueue]
    exact fun _ hr => absurd hr List.not_mem_nil
  sendFirst _ := hqueue
  slot := by
    rw [hreq]
    exact fun _ hr => absurd hr (by simp)
  complete hopen _ := hcomplete hopen

theorem Ordered.deactivated {line : List ReqId} (h : s.Ordered line) (time : Int) :
    (s.deactivated time).InOrder := by
  have hnil := h.sublist (List.nil_sublist line)
  exact Ordered.inOrder_empty ⟨hnil.scheduled, hnil.past, hnil.order⟩ rfl rfl (fun hopen => by cases hopen)

/-- A request is slotted, and the others wait behind it. -/
theorem Ordered.inOrder_slot {t : MmcProto} (h : s.Ordered (r :: s.server.sendqueue))
    (hreq : s.server.sendreq = some r) (hwaiting : ∀ r ∈ s.server.sendqueue, (s.req r).sendbuf.idx = 0)
    (hio : (s.req r).io = some (s.m, t))
    (htcp : t = .tcp → (s.req r).reserved ≤ (s.req r).sendbuf.idx ∧
      s.written = s.done.flatMap Prod.snd ++ (s.req r).progress)
    (hudp : t = .udp → s.server.tcp.needsConnect = false → s.written = s.done.flatMap Prod.snd) :
    s.InOrder where
  toOrdered := by
    rw [MmcServer.sendLine, hreq]
    exact h
  waiting := hwaiting
  sendFirst hnone := by cases hreq.symm.trans hnone
  slot := by
    intro r' hr'
    cases hreq.symm.trans hr'
    exact ⟨t, hio, htcp⟩
  complete hopen hnone := by
    rw [onTcp_of_io hreq hio] at hnone
    cases t with
    | tcp => cases hnone
    | udp => exact hudp rfl hopen

/-- A request that waits is not in the queue behind it. -/
theorem Ordered.not_mem {line : List ReqId} (h : s.Ordered (r :: line)) : r ∉ line := by
  intro hmem
  have hpair := (List.pairwise_append.mp h.order).2.1
  rw [List.map_cons, List.pairwise_cons] at hpair
  exact absurd (hpair.1 _ (List.mem_map_of_mem hmem)) (lt_irrefl _)

/-- The others wait whatever becomes of the first request. -/
theorem Ordered.others {line : List ReqId} (h : s.Ordered (r :: line))
    (hwaiting : ∀ r ∈ line, (s.req r).sendbuf.idx = 0) (q : MmcRequest) :
    ∀ r' ∈ line, (Function.update s.req r q r').sendbuf.idx = 0 := by
  intro r' hr'
  have hne : r' ≠ r := by
    rintro rfl
    exact h.not_mem hr'
  rw [Function.update_of_ne hne]
  exact hwaiting r' hr'

theorem Ready.others {line : List ReqId} (h : s.Ready (r :: line)) (q : MmcRequest) :
    ∀ r' ∈ line, (Function.update s.req r q r').sendbuf.idx = 0 :=
  h.toOrdered.others (fun r' hr' => h.waiting r' (List.mem_cons_of_mem r hr')) q

/-- **The TCP branch of `mmc_pool_slot_send`** puts a request that waits into the send slot, behind the
    commands that were sent, or at the start of a new connection. -/
theorem Ready.slotSendTcp (h : s.Ready (r :: s.server.sendqueue)) (fds : Reachable) :
    (s.slotSendTcp r fds).InOrder := by
  have hidx := h.waiting r List.mem_cons_self
  -- the command starts behind the room for the header
  have hprogress : (s.req r).command.take ((s.req r).sendbuf.idx + (s.req r).reserved -
      (s.req r).reserved) = [] := by
    rw [hidx, Nat.zero_add, Nat.sub_self, List.take_zero]
  have hbehind := Nat.le_add_left (s.req r).reserved (s.req r).sendbuf.idx
  unfold SendLine.slotSendTcp
  dsimp only
  split
  · split
    · rename_i fd _
      have hqueue := s.server.ensureOpen_sendqueue .tcp s.connections fd
      refine Ordered.inOrder_slot (r := r) (t := .tcp) ⟨h.scheduled, by simp, ?_⟩ rfl ?_ ?_ ?_ (by simp)
      · dsimp only
        rw [hqueue]
        exact (List.pairwise_append.mp h.order).2.1
      · dsimp only
        rw [hqueue]
        exact h.others _
      · dsimp only
        rw [Function.update_self]
      · dsimp only
        rw [Function.update_self]
        exact fun _ => ⟨hbehind, hprogress.symm⟩
    · have hsame : { s with unreachable := s.unreachable + 1 }.Ordered (r :: s.server.sendqueue) :=
        ⟨h.scheduled, h.past, h.order⟩
      exact hsame.deactivated _
  · rename_i hopen
    refine Ordered.inOrder_slot (r := r) (t := .tcp) ⟨h.scheduled, h.past, h.order⟩ rfl (h.others _) ?_ ?_
      (by simp)
    · dsimp only
      rw [Function.update_self]
    · dsimp only
      rw [Function.update_self]
      refine fun _ => ⟨hbehind, ?_⟩
      rw [h.complete (by simpa using hopen)]
      exact (congrArg _ hprogress).trans (List.append_nil _) |>.symm

/-- **`mmc_pool_slot_send`** puts a request that waits into the send slot. -/
theorem Ready.slotSend (h : s.Ready (r :: s.server.sendqueue)) (fds : Reachable) :
    (s.slotSend r fds).InOrder := by
  unfold SendLine.slotSend
  dsimp only
  split
  · split
    · have hsame : { s with refused := r :: s.refused }.Ordered (r :: s.server.sendqueue) :=
        ⟨h.scheduled, h.past, h.order⟩
      exact hsame.deactivated _
    · have hqueue := s.server.ensureOpen_sendqueue .udp s.connections (fds.udp.getD 0)
      have htcp := s.server.ensureOpen_udp_tcp s.connections (fds.udp.getD 0)
      refine Ordered.inOrder_slot (r := r) (t := .udp) ⟨h.scheduled, h.past, ?_⟩ rfl ?_ ?_ (by simp) ?_
      · dsimp only
        rw [hqueue]
        exact h.order
      · dsimp only
        rw [hqueue]
        exact h.others _
      · dsimp only
        rw [Function.update_self]
      · dsimp only
        rw [htcp]
        exact fun _ => h.complete
  · exact h.slotSendTcp fds

/-- The next request is shifted into the slot. -/
theorem Ready.shift (h : s.Ready s.server.sendqueue) (fds : Reachable) : (s.shift fds).InOrder := by
  unfold SendLine.shift
  split
  · rename_i hnil
    rw [hnil] at h
    exact Ordered.inOrder_empty ⟨h.scheduled, h.past, h.order⟩ rfl hnil h.complete
  · rename_i r rest hqueue
    rw [hqueue] at h
    have hrest : Ready { s with server := { s.server with sendqueue := rest } } (r :: rest) :=
      ⟨⟨h.scheduled, h.past, h.order⟩, h.waiting, h.complete⟩
    exact hrest.slotSend fds

/-! ## What a step does -/

/-- What waits when the slot is free and the connection is complete, or about to be replaced. -/
theorem InOrder.ready {line : List ReqId} (h : s.InOrder) (hsub : line.Sublist s.server.sendqueue)
    (hcomplete : s.server.tcp.needsConnect = false → s.written = s.done.flatMap Prod.snd) :
    s.Ready line where
  toOrdered := h.toOrdered.sublist (hsub.trans (List.sublist_append_right _ _))
  waiting r hr := h.waiting r (hsub.subset hr)
  complete := hcomplete

/-- Something happens to the streams, and the TCP stream is not made ready by it. -/
theorem InOrder.streams {server : MmcServer} (h : s.InOrder) (hreq : server.sendreq = s.server.sendreq)
    (hqueue : server.sendqueue = s.server.sendqueue)
    (hneeds : server.tcp.needsConnect = false → s.server.tcp.needsConnect = false) :
    InOrder { s with server } where
  scheduled := h.scheduled
  past := h.past
  order := by
    rw [MmcServer.sendLine, hreq, hqueue]
    exact h.order
  waiting := by
    rw [hqueue]
    exact h.waiting
  sendFirst := by
    rw [hreq, hqueue]
    exact h.sendFirst
  slot := by
    rw [hreq]
    exact h.slot
  complete hopen hnone := by
    refine h.complete (hneeds hopen) ?_
    rw [onTcp, hreq] at hnone
    exact hnone

/-- **`mmc_select_retry`**, when the request in the slot is not sent over TCP or its connection is about
    to be replaced. -/
theorem InOrder.selectRetry (h : s.InOrder) (fds : Reachable)
    (hslot : s.server.sendreq = some r → s.server.tcp.needsConnect = false → s.onTcp = none) :
    (s.selectRetry r fds).InOrder := by
  have hsub : (mmcQueueRemove s.server.sendqueue r).Sublist s.server.sendqueue := List.filter_sublist
  unfold SendLine.selectRetry
  dsimp only
  split
  · rename_i hreq
    have hready := h.ready hsub fun hopen => h.complete hopen (hslot hreq hopen)
    have hremoved : Ready { s with server := { s.server with
        sendqueue := mmcQueueRemove s.server.sendqueue r } } (mmcQueueRemove s.server.sendqueue r) :=
      ⟨⟨hready.scheduled, hready.past, hready.order⟩, hready.waiting, hready.complete⟩
    exact hremoved.shift fds
  · have hline := h.toOrdered.sublist ((List.Sublist.refl _).append hsub)
    refine ⟨⟨hline.scheduled, hline.past, hline.order⟩, ?_, ?_, h.slot, h.complete⟩
    · exact fun r' hr' => h.waiting r' (hsub.subset hr')
    · intro hnone
      change mmcQueueRemove s.server.sendqueue r = []
      rw [h.sendFirst hnone]
      rfl

theorem InOrder.deactivated (h : s.InOrder) (time : Int) : (s.deactivated time).InOrder :=
  h.toOrdered.deactivated time

/-- A request that does not wait here is changed. -/
theorem InOrder.update (h : s.InOrder) (hr : r ∉ s.server.sendLine) (q : MmcRequest) :
    InOrder { s with req := Function.update s.req r q } where
  toOrdered := ⟨h.scheduled, h.past, h.order⟩
  waiting := by
    intro r' hr'
    have hne : r' ≠ r := by
      rintro rfl
      exact hr (List.mem_append_right _ hr')
    dsimp only
    rw [Function.update_of_ne hne]
    exact h.waiting r' hr'
  sendFirst := h.sendFirst
  slot := by
    intro r' hr'
    have hne : r' ≠ r := by
      rintro rfl
      exact hr (List.mem_append_left _ (Option.mem_toList.mpr hr'))
    unfold Slotted
    dsimp only
    rw [Function.update_of_ne hne]
    exact h.slot r' hr'
  complete hopen hnone := by
    refine h.complete hopen ?_
    cases hreq : s.server.sendreq with
    | none =>
      rw [onTcp, hreq]
      rfl
    | some r' =>
      have hne : r' ≠ r := by
        rintro rfl
        exact hr (List.mem_append_left _ (Option.mem_toList.mpr hreq))
      rw [onTcp, hreq] at hnone ⊢
      simpa [Option.filter, Function.update_of_ne hne] using hnone

theorem sent_req (s : SendLine) (r : ReqId) (t : MmcProto) (n : Nat) :
    (s.sent r t n).req r = { s.req r with
      sendbuf := { (s.req r).sendbuf with idx := (s.req r).sendbuf.idx + n } } :=
  Function.update_self ..

theorem sent_command (s : SendLine) (r : ReqId) (t : MmcProto) (n : Nat) :
    ((s.sent r t n).req r).command = (s.req r).command := by
  rw [s.sent_req]
  rfl

/-- **`mmc_request_send`** sends the next bytes of the command. -/
theorem InOrder.sent {t : MmcProto} (h : s.InOrder) (hreq : s.server.sendreq = some r)
    (hio : (s.req r).io = some (s.m, t)) (n : Nat) : (s.sent r t n).InOrder := by
  obtain ⟨t', hio', htcp⟩ := h.slot r hreq
  cases hio.symm.trans hio'
  have hline : s.Ordered (r :: s.server.sendqueue) := by
    have := h.toOrdered
    rw [MmcServer.sendLine, hreq] at this
    exact this
  refine Ordered.inOrder_slot (r := r) (t := t) ⟨h.scheduled, h.past, hline.order⟩ hreq
    (hline.others h.waiting _) ?_ ?_ ?_
  · rw [s.sent_req]
    exact hio
  · rintro rfl
    obtain ⟨hbehind, hwritten⟩ := htcp rfl
    rw [s.sent_req, SendLine.sent]
    dsimp only
    rw [if_pos rfl, hwritten, List.append_assoc]
    refine ⟨hbehind.trans (Nat.le_add_right _ _), congrArg _ ?_⟩
    -- what was sent and what is sent now
    have hnext : (s.req r).sendbuf.value.drop (s.req r).sendbuf.idx
        = (s.req r).command.drop ((s.req r).sendbuf.idx - (s.req r).reserved) := by
      rw [show (s.req r).command = (s.req r).sendbuf.value.drop (s.req r).reserved from rfl,
        List.drop_drop, Nat.add_sub_cancel' hbehind]
    rw [hnext, MmcRequest.progress, ← List.take_add]
    change _ = (s.req r).command.take ((s.req r).sendbuf.idx + n - (s.req r).reserved)
    rw [Nat.sub_add_comm hbehind]
  · rintro rfl hopen
    rw [SendLine.sent]
    dsimp only
    rw [if_neg (by simp)]
    exact h.complete hopen (onTcp_of_io hreq hio)

/-- A command that is sent completely is done, and the next request is shifted into the slot. -/
theorem InOrder.sentAll {t : MmcProto} (h : s.InOrder) (hreq : s.server.sendreq = some r)
    (hio : (s.req r).io = some (s.m, t)) (hall : (s.req r).sendbuf.value.length ≤ (s.req r).sendbuf.idx)
    (fds : Reachable) : ({ s with
      done := if t = MmcProto.tcp then s.done ++ [(s.scheduled r, (s.req r).command)]
        else s.done }.shift fds).InOrder := by
  obtain ⟨t', hio', htcp⟩ := h.slot r hreq
  cases hio.symm.trans hio'
  have horder := h.order
  rw [MmcServer.sendLine, hreq] at horder
  have hsub : s.server.sendqueue.Sublist s.server.sendLine := List.sublist_append_right _ _
  refine Ready.shift ?_ fds
  cases t with
  | tcp =>
    obtain ⟨-, hwritten⟩ := htcp rfl
    have hprogress : (s.req r).progress = (s.req r).command := by
      refine List.take_of_length_le ?_
      rw [show (s.req r).command = (s.req r).sendbuf.value.drop (s.req r).reserved from rfl,
        List.length_drop]
      exact Nat.sub_le_sub_right hall _
    refine ⟨⟨h.scheduled, ?_, ?_⟩, h.waiting, fun _ => ?_⟩
    · intro stamp hstamp
      rw [if_pos rfl, List.map_append, List.mem_append] at hstamp
      rcases hstamp with hold | hnew
      · exact h.past stamp hold
      · rw [List.mem_singleton.mp hnew]
        exact h.scheduled r
    · rw [if_pos rfl, List.map_append, List.append_assoc]
      exact horder
    · rw [if_pos rfl, List.flatMap_append, List.flatMap_singleton]
      exact hwritten.trans (congrArg _ hprogress)
  | udp =>
    have hready := h.ready (List.Sublist.refl _) fun hopen => h.complete hopen (onTcp_of_io hreq hio)
    exact ⟨⟨hready.scheduled, hready.past, hready.order⟩, hready.waiting, hready.complete⟩

/-- **`mmc_pool_schedule`** puts a request into the slot, or at the end of the line. -/
theorem InOrder.schedule {s' : SendLine} {fds : Reachable} (h : s.InOrder) (hr : r ∉ s.server.sendLine)
    (hstep : s.perform (.schedule r fds) = some s') : s'.InOrder := by
  rw [SendLine.perform] at hstep
  dsimp only at hstep
  have hstamps : s.server.sendLine.map (Function.update s.scheduled r s.clock)
      = s.server.sendLine.map s.scheduled := by
    refine List.map_congr_left fun r' hr' => Function.update_of_ne ?_ _ _
    rintro rfl
    exact hr hr'
  -- the request is the last one of all
  have hlast : (s.done.map Prod.fst ++ (s.server.sendLine ++ [r]).map
      (Function.update s.scheduled r s.clock)).Pairwise (· < ·) := by
    rw [List.map_append, hstamps, ← List.append_assoc, List.map_singleton, Function.update_self,
      List.pairwise_append]
    refine ⟨h.order, List.pairwise_singleton _ _, fun stamp hstamp new hnew => ?_⟩
    rw [List.mem_singleton.mp hnew]
    rcases List.mem_append.mp hstamp with hdone | hline
    · exact h.past stamp hdone
    · obtain ⟨r', -, rfl⟩ := List.mem_map.mp hline
      exact h.scheduled r'
  have hscheduled : ∀ r', Function.update s.scheduled r s.clock r' < s.clock + 1 := by
    intro r'
    by_cases heq : r' = r
    · rw [heq, Function.update_self]
      exact Nat.lt_succ_self _
    · rw [Function.update_of_ne heq]
      exact (h.scheduled r').trans (Nat.lt_succ_self _)
  have hpast : ∀ stamp ∈ s.done.map Prod.fst, stamp < s.clock + 1 :=
    fun stamp hstamp => (h.past stamp hstamp).trans (Nat.lt_succ_self _)
  have hupdate := h.update hr (s.req r).rewind
  split at hstep
  · split at hstep
    · rename_i hnone
      cases hstep
      have hnil := h.sendFirst hnone
      refine Ready.slotSend (s := { s with
        req := Function.update s.req r (s.req r).rewind
        scheduled := Function.update s.scheduled r s.clock
        clock := s.clock + 1 }) ⟨⟨hscheduled, hpast, ?_⟩, ?_, fun hopen => h.complete hopen ?_⟩ fds
      · dsimp only
        rw [MmcServer.sendLine, hnone, hnil] at hlast
        rw [hnil]
        exact hlast
      · dsimp only
        rw [hnil]
        intro r' hr'
        rw [List.mem_singleton.mp hr', Function.update_self]
        rfl
      · rw [onTcp, hnone]
        rfl
    · rename_i hsome
      cases hstep
      have hfresh : r ∉ s.server.sendqueue := fun hmem => hr (List.mem_append_right _ hmem)
      refine ⟨⟨hscheduled, hpast, ?_⟩, ?_, fun hnone => absurd hnone hsome, hupdate.slot, hupdate.complete⟩
      · dsimp only
        rw [mmcQueuePush_of_not_mem hfresh, MmcServer.sendLine, ← List.append_assoc]
        exact hlast
      · dsimp only
        rw [mmcQueuePush_of_not_mem hfresh]
        intro r' hr'
        rcases List.mem_append.mp hr' with hold | hnew
        · exact hupdate.waiting r' hold
        · rw [List.mem_singleton.mp hnew, Function.update_self]
          rfl
  · cases hstep

/-- **A stream fails.** Unless the server is taken offline, that stream is about to be replaced. -/
theorem InOrder.failure {s' : SendLine} {other : MmcStream} {fds : Reachable} (h : s.InOrder)
    (hstep : s.perform (.failure r other fds) = some s') : s'.InOrder := by
  rw [SendLine.perform] at hstep
  split at hstep
  · rename_i m t hio
    dsimp only at hstep
    cases hstep
    by_cases hm : m = s.m
    · subst hm
      rw [if_pos rfl, if_pos rfl]
      split
      · have hsame : Ordered { s with server := s.server.modifyIo t fun _ =>
            (s.server.io t).serverFailure.2 } s.server.sendLine := ⟨h.scheduled, h.past, h.order⟩
        exact hsame.deactivated _
      · rename_i hretry
        have hneeds := (s.server.io t).needsConnect_serverFailure hretry
        cases t with
        | tcp =>
          have hfailed : InOrder { s with server := s.server.modifyIo .tcp fun _ =>
              (s.server.io .tcp).serverFailure.2 } :=
            h.streams rfl rfl fun hopen => by cases hneeds.symm.trans hopen
          exact hfailed.selectRetry fds fun _ hopen => by cases hneeds.symm.trans hopen
        | udp =>
          have hfailed : InOrder { s with server := s.server.modifyIo .udp fun _ =>
              (s.server.io .udp).serverFailure.2 } := h.streams rfl rfl id
          exact hfailed.selectRetry fds fun hreq _ => onTcp_of_io (t := .udp) hreq hio
    · rw [if_neg hm, if_neg hm]
      split
      · exact h.deactivated _
      · refine h.selectRetry fds fun hreq _ => ?_
        -- what is in the slot has not been moved
        obtain ⟨t', hio', -⟩ := h.slot r hreq
        cases hio.symm.trans hio'
        exact absurd rfl hm
  · cases hstep

/-- **`mmc_pool_slot_send` goes on** with a request that was left alone, on a new connection. -/
theorem InOrder.refused (h : s.InOrder) (hline : s.server.sendLine = [])
    (hneeds : s.server.tcp.needsConnect) (hidx : (s.req r).sendbuf.idx = 0) (refused : List ReqId)
    (fds : Reachable) : ({ s with refused }.slotSendTcp r fds).InOrder := by
  have hnil : s.server.sendqueue = [] := (List.append_eq_nil_iff.mp hline).2
  cases hfd : fds.tcp with
  | none =>
    have hsame : Ordered { s with refused, unreachable := s.unreachable + 1 } s.server.sendLine :=
      ⟨h.scheduled, h.past, h.order⟩
    rw [SendLine.slotSendTcp, if_pos hneeds, hfd]
    exact hsame.deactivated _
  | some fd =>
    -- what was sent before does not matter for the new connection
    have hfresh : Ready { s with refused, written := [], done := [] } (r :: s.server.sendqueue) := by
      rw [hnil]
      refine ⟨⟨h.scheduled, by simp, by simp⟩, ?_, fun _ => rfl⟩
      intro r' hr'
      rw [List.mem_singleton.mp hr']
      exact hidx
    have hslotted := hfresh.slotSendTcp fds
    rw [SendLine.slotSendTcp, if_pos hneeds, hfd] at hslotted ⊢
    exact hslotted

/-- **A step that is careful** keeps the invariant. -/
theorem InOrder.perform {s' : SendLine} {a : LineAction} (h : s.InOrder) (hcareful : s.Careful a)
    (hstep : s.perform a = some s') : s'.InOrder := by
  cases a with
  | elsewhere r q =>
    cases hstep
    exact h.update hcareful q
  | schedule r fds => exact h.schedule hcareful hstep
  | send n fds =>
    rw [SendLine.perform] at hstep
    split at hstep
    · rename_i r hreq
      dsimp only at hstep
      split at hstep
      · rename_i m t hio
        split at hstep
        · rename_i hm
          subst hm
          have hsent := h.sent hreq hio
            (min n (min ((s.req r).sendbuf.value.length - (s.req r).sendbuf.idx) (s.server.io t).chunkSize))
          split at hstep
          · rename_i hall
            cases hstep
            have hio' : ((s.sent r t (min n (min ((s.req r).sendbuf.value.length -
                (s.req r).sendbuf.idx) (s.server.io t).chunkSize))).req r).io = some (s.m, t) := by
              rw [s.sent_req]
              exact hio
            have hshifted := hsent.sentAll hreq hio' hall fds
            rw [s.sent_command] at hshifted
            exact hshifted
          · cases hstep
            exact hsent
        · cases hstep
      · cases hstep
    · cases hstep
  | failure r other fds => exact h.failure hstep
  | lost r again fds =>
    rw [SendLine.perform] at hstep
    split at hstep
    · rename_i hio
      dsimp only at hstep
      cases hstep
      have hmarked : InOrder { s with server := { s.server with
          udp := s.server.udp.markFailed fds.time } } := h.streams rfl rfl id
      split
      · exact hmarked.selectRetry fds fun hreq _ => onTcp_of_io (t := .udp) hreq hio
      · exact hmarked
    · cases hstep
  | early fds =>
    rw [SendLine.perform] at hstep
    split at hstep
    · rename_i r hreq
      split at hstep
      · rename_i m t hio
        split at hstep
        · rename_i hm
          subst hm
          cases hstep
          cases t with
          | tcp =>
            have hclosed : InOrder { s with server := s.server.modifyIo .tcp MmcStream.disconnect } :=
              h.streams rfl rfl fun hopen => by cases hopen
            exact (hclosed.ready (List.Sublist.refl _) fun hopen => by cases hopen).shift fds
          | udp =>
            have hclosed : InOrder { s with server := s.server.modifyIo .udp MmcStream.disconnect } :=
              h.streams rfl rfl id
            exact (hclosed.ready (List.Sublist.refl _) fun hopen =>
              h.complete hopen (onTcp_of_io hreq hio)).shift fds
        · cases hstep
      · cases hstep
    · cases hstep
  | refused i fds =>
    rw [SendLine.perform] at hstep
    split at hstep
    · rename_i r hr
      cases hstep
      obtain ⟨hline, hneeds, hwaiting⟩ := hcareful
      exact h.refused hline hneeds (hwaiting r hr) _ fds
    · cases hstep
  | unreachable =>
    rw [SendLine.perform] at hstep
    split at hstep
    · cases hstep
      obtain ⟨hnone, hnil⟩ := List.append_eq_nil_iff.mp hcareful
      have hslot : s.server.sendreq = none := Option.toList_eq_nil_iff.mp hnone
      have hempty := h.toOrdered.sublist (List.nil_sublist _)
      refine Ordered.inOrder_empty ⟨h.scheduled, h.past, hempty.order⟩ rfl hnil fun hopen => ?_
      refine h.complete hopen ?_
      rw [onTcp, hslot]
      rfl
    · cases hstep
  | deactivate time =>
    cases hstep
    exact h.deactivated time
  | disconnect t =>
    cases hstep
    cases t with
    | tcp => exact h.streams rfl rfl fun hopen => by cases hopen
    | udp => exact h.streams rfl rfl id
  | sleep =>
    cases hstep
    refine Ordered.inOrder_empty ⟨h.scheduled, h.past, (h.toOrdered.sublist (List.nil_sublist _)).order⟩
      rfl rfl fun hopen => ?_
    have hwritten := h.clean.written (Or.inl hopen)
    cases hon : s.onTcp with
    | none => exact h.complete hopen hon
    | some r =>
      -- nothing was sent of what was in the slot
      have hnothing : (s.req r).progress = [] := by
        rw [MmcRequest.progress, Nat.sub_eq_zero_of_le (hcareful r hon), List.take_zero]
      rw [hon] at hwritten
      simpa [hnothing] using hwritten
  | reuse =>
    rw [SendLine.perform] at hstep
    split at hstep
    · rename_i hstatus
      cases hstep
      refine h.streams rfl rfl fun _ => ?_
      rw [MmcStream.needsConnect, hstatus]
    · cases hstep
      exact h

end SendLine

/-! ## The functions of the pool -/

section Link

open Stateful

variable (E : Env) (fh : Failover)

/-- The send line of a server in a pool, when the next connection is `c`. -/
def World.sendLine (w : World) (m : Mmc) (c : Nat) : SendLine :=
  { m, server := w.mmc m, req := w.req, connections := c }

/-- `mmc_request_send` sends on the stream of the request what the send line says. -/
theorem wp_mmcRequestSend {m : Mmc} {r : ReqId} {t : MmcProto} {c n : Nat} {w : World}
    (hio : (w.req r).io = some (m, t)) (hstream : ((w.mmc m).io t).stream = some c)
    (hsend : E.send w.tick = .bytes n) :
    wp (mmcRequestSend E m r) (fun result w' =>
      let sent := (w.sendLine m c).sent r t (min n (min
        ((w.req r).sendbuf.value.length - (w.req r).sendbuf.idx) ((w.mmc m).io t).chunkSize))
      w'.req = sent.req ∧ w'.mmc m = sent.server ∧
        result = if (sent.req r).sendbuf.value.length ≤ (sent.req r).sendbuf.idx then .done else .more)
      (fun _ => True) w := by
  simp only [mmcRequestSend, ioOf, wp_bind, wp_getReq, hio, wp_pure, wp_getMmc, hstream, wp_ask, hsend,
    wp_step, wp_modifyReq]
  refine ⟨fun _ => ?_, fun _ => trivial⟩
  rw [SendLine.sent_req]
  split
  · rename_i hall
    refine (wp_pure _ _ _ _).mpr ⟨?_, rfl, (if_pos hall).symm⟩
    simp only [World.sendLine, SendLine.sent, hio]
  · rename_i hmore
    refine (wp_pure _ _ _ _).mpr ⟨?_, rfl, (if_neg hmore).symm⟩
    simp only [World.sendLine, SendLine.sent, hio]

/-- `mmc_pool_slot_send` puts the request into the send slot as the send line says, on a stream that can
    be opened. -/
theorem wp_mmcPoolSlotSend_sendLine {m : Mmc} {r : ReqId} (handleFailover : Bool) {w : World}
    (hopen : Openable E w m (if wantsUdp (w.mmc m) (w.req r) then .udp else .tcp)) :
    wp (mmcPoolSlotSend E fh m (some r) handleFailover) (fun result w' => result = .ok ∧
      ∃ c fds, w'.mmc m = ((w.sendLine m c).slotSend r fds).server ∧
        w'.req = ((w.sendLine m c).slotSend r fds).req) (fun _ => True) w := by
  simp only [mmcPoolSlotSend, wp_bind, wp_getMmc, wp_getReq]
  refine wp_ite (fun hwants => ?_) fun hwants => ?_
  · rw [if_pos hwants] at hopen
    refine (wp_bind _ _ _ _ _).mpr (wp_mono (wp_mmcPoolOpen E fh (some r) (fun _ _ _ => trivial) hopen) ?_ fun _ => id)
    rintro _ w₁ ⟨rfl, ⟨⟨c, fd, hmmc⟩, hreq, -, -, -⟩⟩
    have hreqid : (w₁.mmc m).reqid = (w.mmc m).reqid := by
      rw [hmmc, MmcServer.ensureOpen]
      split <;> rfl
    simp only [if_true, wp_bind, wp_getMmc, wp_modifyMmc, wp_modifyReq, takeSlot, wp_step, wp_pure,
      Function.update_self, hreqid, true_and]
    refine ⟨fun _ => ⟨c, { udp := some fd }, ?_⟩, fun _ => trivial⟩
    have hslot : (w.sendLine m c).slotSend r { udp := some fd } = { w.sendLine m c with
        server := { (w.mmc m).ensureOpen .udp c fd with
          sendreq := some r
          reqid := ((w.mmc m).reqid + 1) % 2 ^ 16 }
        connections := c + 1
        req := Function.update w.req r { w.req r with
          io := some (m, .udp)
          read := true
          udp := { reqid := (w.mmc m).reqid }
          sendbuf := { (w.req r).sendbuf with
            value := setUdpHeader (w.mmc m).reqid (w.req r).sendbuf.value } } } := by
      rw [SendLine.slotSend, World.sendLine]
      dsimp only
      rw [if_pos hwants, if_neg (by simp)]
      rfl
    rw [hslot, hmmc, hreq]
    exact ⟨rfl, rfl⟩
  · rw [if_neg hwants] at hopen
    rw [slotSendTcp, wp_bind]
    refine wp_mono (wp_mmcPoolOpen E fh (some r) (fun _ _ _ => trivial) hopen) ?_ fun _ => id
    rintro _ w₁ ⟨rfl, ⟨⟨c, fd, hmmc⟩, hreq, -, -, -⟩⟩
    simp only [if_true, wp_bind, wp_modifyMmc, wp_modifyReq, takeSlot, wp_step, wp_pure,
      Function.update_self, true_and]
    refine ⟨fun _ => ⟨c, { tcp := some fd }, ?_⟩, fun _ => trivial⟩
    have hbehind : (if (w.req r).protocol = .udp then
        { (w.req r).sendbuf with idx := (w.req r).sendbuf.idx + udpHeaderSize } else (w.req r).sendbuf)
        = { (w.req r).sendbuf with idx := (w.req r).sendbuf.idx + (w.req r).reserved } := by
      rw [MmcRequest.reserved]
      split <;> rfl
    rw [SendLine.slotSend, World.sendLine]
    dsimp only
    rw [if_neg hwants, SendLine.slotSendTcp, hmmc, hreq, hbehind]
    dsimp only
    split
    · exact ⟨rfl, rfl⟩
    · rename_i hready
      have hsame : (w.mmc m).ensureOpen .tcp c fd = w.mmc m := if_neg hready
      rw [hsame]
      exact ⟨rfl, rfl⟩

end Link

/-! ## Runs -/

/-- A server without a UDP port. -/
def tcpServer : MmcServer where
  tcp := { port := 11211 }

/-- The command "get a", with room for the header of a datagram and without. -/
def roomyGet : ReqId → MmcRequest
  | 0 => {
      sendbuf := { value := List.replicate udpHeaderSize 0 ++ [103, 101, 116, 32, 97, 13, 10] }
      protocol := .udp }
  | _ => { sendbuf := { value := [103, 101, 116, 32, 97, 13, 10] } }

/-- Two commands are scheduled, and sent in pieces. -/
def twoCommands : List LineAction :=
  [.schedule 0 { tcp := some 5 }, .schedule 1 {}, .send 3 {}, .send 0 {}, .send 9 {}, .send 5 {}]

end PeclMemcache
