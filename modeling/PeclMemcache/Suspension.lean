import PeclMemcache.Transport
import PeclMemcache.Machines

set_option autoImplicit false

/-! # Suspension after a packet loss

`mmc_request_read_udp` marks the UDP stream as failed when a packet was lost, so that no more datagrams
are sent for a while. The choice between the streams is made later, in `mmc_pool_slot_send`, which
connects a failed stream again at once. -/

namespace PeclMemcache

open Machines

/-! ## One server over many requests -/

/-- A request scheduled on the server, and whether datagrams were suspended then. -/
structure ScheduledRequest where
  request : MmcRequest
  suspended : Bool

/-- What was sent: its transport, and whether datagrams were suspended when the request was scheduled
    and when it was sent. -/
structure SentRequest where
  transport : MmcProto
  scheduled : Bool
  suspended : Bool
  deriving DecidableEq

/-- A server, the clock and the connections so far; the requests scheduled there, those whose
    `mmc_pool_slot_send` found that no datagram could be sent and goes on when the failover handlers
    return, and the one in the send slot with its transport. Beside it, the times at which
    a packet was found lost, the answers of the failover handlers to it, and what was sent. -/
structure SendSide where
  server : MmcServer
  now : Int := 0
  connections : Nat := 0
  scheduled : List ScheduledRequest := []
  refused : List ScheduledRequest := []
  slot : Option (MmcProto × ScheduledRequest) := none
  lost : List Int := []
  answers : List (Option MmcRequest) := []
  sent : List SentRequest := []

/-- Datagrams should be suspended: the retry interval of the stream is not over since a packet was
    lost. -/
def SendSide.suspended (s : SendSide) : Bool :=
  s.lost.any fun t => s.now < t + s.server.udp.retryInterval

/-- What happens to the server. A descriptor is what a connection gets if it can be made. -/
inductive SendAction
  | wait (n : Nat)
  /-- `mmc_pool_schedule`. -/
  | schedule (q : MmcRequest)
  /-- `mmc_pool_slot_send` takes the `i`-th request and tries the UDP stream. -/
  | slotUdp (i : Nat) (fd : Option Nat)
  /-- It takes the `i`-th request, which must not go into a datagram, and tries the TCP stream. -/
  | slotTcp (i : Nat) (fd : Option Nat)
  /-- It goes on with the `i`-th request that could not be sent in a datagram. -/
  | refusedTcp (i : Nat) (fd : Option Nat)
  /-- `mmc_request_send`. -/
  | send
  /-- The send slot becomes free. -/
  | clear
  /-- The `i`-th request is taken out of the queue. -/
  | remove (i : Nat)
  /-- `mmc_request_read_udp` for a request with these fields. If it is to be retried, its failover
      handler schedules `again` on this server, or nothing. -/
  | datagram (udp : UdpFields) (received : Bytes) (again : Option MmcRequest)
  /-- `mmc_server_failure` on a stream. -/
  | failure (t : MmcProto)
  | disconnect (t : MmcProto)
  | deactivate
  /-- `mmc_find_persistent` finds the server. -/
  | reuse (retryInterval : Int)

/-- `mmc_server_deactivate`. -/
def SendSide.deactivated (s : SendSide) : SendSide :=
  { s with server := s.server.offline s.now, scheduled := [], slot := none }

/-- `mmc_pool_schedule` without the validity check. -/
def SendSide.push (s : SendSide) (q : MmcRequest) : SendSide :=
  { s with scheduled := s.scheduled ++ [{ request := q, suspended := s.suspended }] }

/-- A stream is opened for the request, which takes the send slot; `none` if it cannot be opened. -/
def SendSide.slotSend (s : SendSide) (t : MmcProto) (q : ScheduledRequest) (fd : Option Nat) :
    Option SendSide :=
  if (s.server.io t).needsConnect then
    fd.map fun fd => { s with
      server := s.server.ensureOpen t s.connections fd
      connections := s.connections + 1
      slot := some (t, q) }
  else some { s with slot := some (t, q) }

/-- The stream after `mmc_find_persistent`. -/
def MmcStream.reused (io : MmcStream) : MmcStream :=
  if io.status = .connected then { io with status := .unknown } else io

/-- The server after `mmc_find_persistent`. -/
def MmcServer.reused (s : MmcServer) (retryInterval : Int) : MmcServer :=
  { s with tcp := { s.tcp with retryInterval }.reused, udp := s.udp.reused }

/-- One action, where it is possible. -/
def SendSide.perform (s : SendSide) : SendAction → Option SendSide
  | .wait n => some { s with now := s.now + n }
  | .schedule q => some (s.push q)
  | .slotUdp i fd =>
    match s.scheduled[i]? with
    | some q =>
      if wantsUdp s.server q.request then
        let s := { s with scheduled := s.scheduled.eraseIdx i }
        match s.slotSend .udp q fd with
        | some s => some s
        | none => some { s.deactivated with refused := q :: s.refused }
      else none
    | none => none
  | .slotTcp i fd =>
    match s.scheduled[i]? with
    | some q =>
      if wantsUdp s.server q.request then none
      else
        let s := { s with scheduled := s.scheduled.eraseIdx i }
        some ((s.slotSend .tcp q fd).getD s.deactivated)
    | none => none
  | .refusedTcp i fd =>
    match s.refused[i]? with
    | some q =>
      let s := { s with refused := s.refused.eraseIdx i }
      some ((s.slotSend .tcp q fd).getD s.deactivated)
    | none => none
  | .send =>
    match s.slot with
    | some (transport, q) => some { s with
        sent := { transport, scheduled := q.suspended, suspended := s.suspended } :: s.sent }
    | none => none
  | .clear => some { s with slot := none }
  | .remove i => some { s with scheduled := s.scheduled.eraseIdx i }
  | .datagram udp received again =>
    let (result, _, stream) := s.server.udp.readDatagram udp received s.now
    let s' := { s with server := { s.server with udp := stream } }
    match (readUdp udp s.server.udp.buffer received).1, result with
    | none, .failure => some s'.deactivated
    | none, _ => some s'
    | some .more, _ => some { s' with lost := s.now :: s.lost }
    | some .retry, _ =>
      let s' := { s' with lost := s.now :: s.lost, answers := again :: s.answers }
      some (match again with
        | some q => s'.push q
        | none => s')
    | some _, _ => some s'
  | .failure t =>
    let s' := { s with server := s.server.modifyIo t fun io => io.serverFailure.2 }
    some (if (s.server.io t).serverFailure.1 = .failure then s'.deactivated else s')
  | .disconnect t => some { s with server := s.server.modifyIo t MmcStream.disconnect }
  | .deactivate => some s.deactivated
  | .reuse retryInterval => some { s with server := s.server.reused retryInterval }

/-! ## Suspension -/

/-- What is sent while datagrams are suspended, and what was scheduled meanwhile, is sent over TCP; and
    the request that found the packet lost is scheduled on the server again. -/
structure SendSide.Suspends (s : SendSide) : Prop where
  tcp : ∀ x ∈ s.sent, x.suspended ∨ x.scheduled → x.transport = .tcp
  again : ∀ answer ∈ s.answers, answer ≠ none

/-- The datagram shows that a packet was lost. -/
def SendSide.Loses (s : SendSide) (udp : UdpFields) (received : Bytes) : Prop :=
  (readUdp udp s.server.udp.buffer received).1 = some .more ∨
    (readUdp udp s.server.udp.buffer received).1 = some .retry

instance (s : SendSide) (udp : UdpFields) (received : Bytes) : Decidable (s.Loses udp received) := by
  unfold SendSide.Loses
  infer_instance

/-- The condition. A request that fits into a datagram, and was scheduled or comes to the slot while
    they are suspended, finds that the UDP stream cannot be connected; when a packet is found lost the
    send slot does not hold a request for the UDP stream, and a request that is to be retried is
    scheduled on the server again. -/
def SendSide.Careful (s : SendSide) : SendAction → Prop
  | .slotUdp i fd => ∀ q ∈ s.scheduled[i]?, s.suspended ∨ q.suspended →
    s.server.udp.needsConnect ∧ fd = none
  | .datagram udp received again =>
    (s.Loses udp received → ∀ x ∈ s.slot, x.1 = .tcp) ∧
      ((readUdp udp s.server.udp.buffer received).1 = some .retry → again ≠ none)
  | _ => True

instance (s : SendSide) (a : SendAction) : Decidable (s.Careful a) := by
  cases a <;> unfold SendSide.Careful <;> infer_instance

/-! ## The retry interval stays -/

theorem MmcStream.ensureOpen_retryInterval (io : MmcStream) (c fd : Nat) (t : MmcProto) :
    (io.ensureOpen c fd t).retryInterval = io.retryInterval := by
  unfold ensureOpen
  split
  · split <;> rfl
  · rfl

theorem MmcServer.ensureOpen_retryInterval (s : MmcServer) (t : MmcProto) (c fd : Nat) :
    (s.ensureOpen t c fd).udp.retryInterval = s.udp.retryInterval := by
  cases t with
  | tcp =>
    unfold ensureOpen
    split <;> rfl
  | udp =>
    rw [← s.udp.ensureOpen_retryInterval c fd .udp, ← show _ = s.udp.ensureOpen c fd .udp from
      s.io_ensureOpen .udp c fd]
    rfl

theorem MmcStream.serverFailure_retryInterval (io : MmcStream) :
    io.serverFailure.2.retryInterval = io.retryInterval := by
  unfold serverFailure
  split <;> rfl

theorem MmcStream.readDatagram_retryInterval (io : MmcStream) (udp : UdpFields) (received : Bytes)
    (time : Int) : (io.readDatagram udp received time).2.2.retryInterval = io.retryInterval := by
  unfold readDatagram
  split
  · exact serverFailure_retryInterval _
  · rfl
  · rfl

theorem MmcStream.reused_retryInterval (io : MmcStream) :
    io.reused.retryInterval = io.retryInterval := by
  unfold reused
  split <;> rfl

/-! ## The invariant -/

variable {s s' : SendSide}

/-- The invariant: what is in the send slot for the UDP stream was not scheduled while datagrams were
    suspended, and they are not suspended now. -/
structure SendSide.Guarded (s : SendSide) : Prop extends s.Suspends where
  slot : ∀ x ∈ s.slot, x.1 = .udp → s.suspended = false ∧ x.2.suspended = false

/-- Nothing happens to what was lost or sent, and the request in the send slot stays there or is taken
    out. -/
structure SendSide.Quiet (s s' : SendSide) : Prop where
  now : s'.now = s.now
  retryInterval : s'.server.udp.retryInterval = s.server.udp.retryInterval
  lost : s'.lost = s.lost
  answers : s'.answers = s.answers
  sent : s'.sent = s.sent
  slot : s'.slot = s.slot ∨ s'.slot = none

theorem SendSide.Quiet.suspended (h : s.Quiet s') : s'.suspended = s.suspended := by
  rw [SendSide.suspended, SendSide.suspended, h.now, h.lost, h.retryInterval]

theorem SendSide.Guarded.quiet (h : s.Guarded) (hs : s.Quiet s') : s'.Guarded where
  tcp := by
    rw [hs.sent]
    exact h.tcp
  again := by
    rw [hs.answers]
    exact h.again
  slot := by
    rw [hs.suspended]
    rcases hs.slot with hsame | hnone
    · rw [hsame]
      exact h.slot
    · simp [hnone]

theorem SendSide.quiet_deactivated (s : SendSide) : s.Quiet s.deactivated :=
  ⟨rfl, rfl, rfl, rfl, rfl, Or.inr rfl⟩

theorem SendSide.Quiet.trans {s'' : SendSide} (h : s.Quiet s') (h' : s'.Quiet s'') : s.Quiet s'' where
  now := h'.now.trans h.now
  retryInterval := h'.retryInterval.trans h.retryInterval
  lost := h'.lost.trans h.lost
  answers := h'.answers.trans h.answers
  sent := h'.sent.trans h.sent
  slot := by
    rcases h'.slot with hsame | hnone
    · rw [hsame]
      exact h.slot
    · exact Or.inr hnone

/-- A request takes the send slot. -/
theorem SendSide.Guarded.slotSend (h : s.Guarded) {t : MmcProto} {q : ScheduledRequest}
    {fd : Option Nat} (hq : t = .udp → s.suspended = false ∧ q.suspended = false)
    (hs : s.slotSend t q fd = some s') : s'.Guarded := by
  unfold SendSide.slotSend at hs
  have htaken : ∀ s', s'.now = s.now → s'.server.udp.retryInterval = s.server.udp.retryInterval →
      s'.lost = s.lost → s'.answers = s.answers → s'.sent = s.sent → s'.slot = some (t, q) →
      SendSide.Guarded s' := by
    intro s' hnow hretry hlost hanswers hsent hslot
    have hsame : s'.suspended = s.suspended := by
      rw [SendSide.suspended, SendSide.suspended, hnow, hlost, hretry]
    refine ⟨⟨by rw [hsent]; exact h.tcp, by rw [hanswers]; exact h.again⟩, ?_⟩
    rw [hslot, hsame]
    rintro _ ⟨⟩ ht
    exact hq ht
  split at hs
  · obtain ⟨fd, -, rfl⟩ := Option.map_eq_some_iff.mp hs
    exact htaken _ rfl (MmcServer.ensureOpen_retryInterval _ _ _ _) rfl rfl rfl rfl
  · cases hs
    exact htaken _ rfl rfl rfl rfl rfl rfl

/-- A stream that cannot be opened takes the server offline. -/
theorem SendSide.Guarded.slotTcp (h : s.Guarded) (q : ScheduledRequest) (fd : Option Nat) :
    ((s.slotSend .tcp q fd).getD s.deactivated).Guarded := by
  cases hslot : s.slotSend .tcp q fd with
  | none => exact h.quiet s.quiet_deactivated
  | some s' => exact h.slotSend (by simp) hslot

/-- **A loss** that finds nothing for the UDP stream in the send slot. -/
theorem SendSide.Guarded.loses (h : s.Guarded) {lost : List Int} {answers : List (Option MmcRequest)}
    {server : MmcServer} (hslot : ∀ x ∈ s.slot, x.1 = .tcp) (hanswers : ∀ a ∈ answers, a ≠ none) :
    SendSide.Guarded { s with server, lost, answers } where
  tcp := h.tcp
  again := hanswers
  slot := by
    intro x hx hudp
    rw [hslot x hx] at hudp
    cases hudp

theorem SendSide.Guarded.push (h : s.Guarded) (q : MmcRequest) : (s.push q).Guarded :=
  h.quiet ⟨rfl, rfl, rfl, rfl, rfl, Or.inl rfl⟩

/-! ## Runs -/

theorem SendSide.slotSend_none (s : SendSide) (t : MmcProto) (q : ScheduledRequest)
    (hneeds : (s.server.io t).needsConnect) : s.slotSend t q none = none := by
  rw [SendSide.slotSend, if_pos hneeds]
  rfl

/-- A datagram that is read: the server fails, or a packet was lost, or nothing of the kind. -/
theorem SendSide.guarded_datagram (h : s.Guarded) {udp : UdpFields} {received : Bytes}
    {again : Option MmcRequest} (hallowed : s.Careful (.datagram udp received again))
    (hstep : s.perform (.datagram udp received again) = some s') : s'.Guarded := by
  obtain ⟨hslot, hagain⟩ := hallowed
  rw [SendSide.perform] at hstep
  have hquiet : s.Quiet { s with server := { s.server with
      udp := (s.server.udp.readDatagram udp received s.now).2.2 } } :=
    ⟨rfl, MmcStream.readDatagram_retryInterval _ _ _ _, rfl, rfl, rfl, Or.inl rfl⟩
  dsimp only at hstep
  split at hstep
  · cases hstep
    exact h.quiet (hquiet.trans (SendSide.quiet_deactivated _))
  · cases hstep
    exact h.quiet hquiet
  · rename_i hmore
    cases hstep
    exact h.loses (hslot (Or.inl hmore)) h.again
  · rename_i hretry
    cases hstep
    have hloses : SendSide.Guarded { s with
        server := { s.server with
          udp := (s.server.udp.readDatagram udp received s.now).2.2 }
        lost := s.now :: s.lost
        answers := again :: s.answers } :=
      h.loses (hslot (Or.inr hretry)) (List.forall_mem_cons.mpr ⟨hagain hretry, h.again⟩)
    cases again with
    | none => exact hloses
    | some q => exact hloses.push q
  · cases hstep
    exact h.quiet hquiet

/-- **A step that is allowed** keeps the invariant. -/
theorem SendSide.guarded_perform {a : SendAction} (h : s.Guarded) (hallowed : s.Careful a)
    (hstep : s.perform a = some s') : s'.Guarded := by
  cases a with
  | wait n =>
    cases hstep
    refine ⟨⟨h.tcp, h.again⟩, fun x hx hudp => ?_⟩
    obtain ⟨hnow, hthen⟩ := h.slot x hx hudp
    refine ⟨?_, hthen⟩
    rw [SendSide.suspended, List.any_eq_false] at hnow ⊢
    intro t ht
    have := hnow t ht
    simp only [decide_eq_true_eq, not_lt] at this ⊢
    omega
  | schedule q =>
    cases hstep
    exact h.push q
  | slotUdp i fd =>
    rw [SendSide.perform] at hstep
    split at hstep
    · rename_i q hq
      split at hstep
      · have htaken : SendSide.Guarded { s with scheduled := s.scheduled.eraseIdx i } :=
          h.quiet ⟨rfl, rfl, rfl, rfl, rfl, Or.inl rfl⟩
        dsimp only at hstep
        split at hstep
        · rename_i s₁ hslot
          cases hstep
          refine htaken.slotSend (fun _ => ?_) hslot
          -- while datagrams are suspended the stream could not be opened
          by_contra hsuspended
          have hrisk : s.suspended = true ∨ q.suspended = true := by
            by_contra hnone
            rw [not_or, Bool.not_eq_true, Bool.not_eq_true] at hnone
            exact hsuspended hnone
          obtain ⟨hneeds, rfl⟩ := hallowed q hq hrisk
          have hnone := SendSide.slotSend_none { s with scheduled := s.scheduled.eraseIdx i } .udp q
            hneeds
          cases hnone.symm.trans hslot
        · cases hstep
          exact htaken.quiet ⟨rfl, rfl, rfl, rfl, rfl, Or.inr rfl⟩
      · cases hstep
    · cases hstep
  | slotTcp i fd =>
    rw [SendSide.perform] at hstep
    split at hstep
    · split at hstep
      · cases hstep
      · cases hstep
        have htaken : SendSide.Guarded { s with scheduled := s.scheduled.eraseIdx i } :=
          h.quiet ⟨rfl, rfl, rfl, rfl, rfl, Or.inl rfl⟩
        exact htaken.slotTcp _ fd
    · cases hstep
  | refusedTcp i fd =>
    rw [SendSide.perform] at hstep
    split at hstep
    · cases hstep
      have htaken : SendSide.Guarded { s with refused := s.refused.eraseIdx i } :=
        h.quiet ⟨rfl, rfl, rfl, rfl, rfl, Or.inl rfl⟩
      exact htaken.slotTcp _ fd
    · cases hstep
  | send =>
    rw [SendSide.perform] at hstep
    split at hstep
    · rename_i transport q hslot
      cases hstep
      refine ⟨⟨List.forall_mem_cons.mpr ⟨fun hsuspended => ?_, h.tcp⟩, h.again⟩, h.slot⟩
      cases transport with
      | tcp => rfl
      | udp =>
        obtain ⟨hnow, hthen⟩ := h.slot (.udp, q) hslot rfl
        rcases hsuspended with hsuspended | hsuspended
        · exact absurd (hnow.symm.trans hsuspended) (by simp)
        · exact absurd (hthen.symm.trans hsuspended) (by simp)
    · cases hstep
  | clear =>
    cases hstep
    exact h.quiet ⟨rfl, rfl, rfl, rfl, rfl, Or.inr rfl⟩
  | remove i =>
    cases hstep
    exact h.quiet ⟨rfl, rfl, rfl, rfl, rfl, Or.inl rfl⟩
  | datagram udp received again => exact SendSide.guarded_datagram h hallowed hstep
  | failure t =>
    cases hstep
    have hquiet : s.Quiet { s with
        server := s.server.modifyIo t fun io => io.serverFailure.2 } := by
      refine ⟨rfl, ?_, rfl, rfl, rfl, Or.inl rfl⟩
      cases t with
      | tcp => rfl
      | udp => exact MmcStream.serverFailure_retryInterval _
    split
    · exact h.quiet (hquiet.trans (SendSide.quiet_deactivated _))
    · exact h.quiet hquiet
  | disconnect t =>
    cases hstep
    refine h.quiet ⟨rfl, ?_, rfl, rfl, rfl, Or.inl rfl⟩
    cases t <;> rfl
  | deactivate =>
    cases hstep
    exact h.quiet s.quiet_deactivated
  | reuse retryInterval =>
    cases hstep
    exact h.quiet ⟨rfl, MmcStream.reused_retryInterval _, rfl, rfl, rfl, Or.inl rfl⟩

/-- A request for the UDP stream, with the header before its command. -/
def udpGet : MmcRequest where
  sendbuf := { value := List.replicate udpHeaderSize 0 ++ [103, 101, 116, 32, 97, 13, 10] }
  protocol := .udp

/-- A server with a UDP port. -/
def udpServer : MmcServer where
  tcp := { port := 11211 }
  udp := { port := 11211 }

/-- A request is sent in a datagram, and the answer to it is complete. -/
def oneDatagram : List SendAction :=
  [.schedule udpGet, .slotUdp 0 (some 5), .send, .clear,
    .datagram {} [0, 0, 0, 0, 0, 1, 0, 0, 69] none]

end PeclMemcache
