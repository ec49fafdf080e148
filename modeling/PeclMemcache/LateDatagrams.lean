import PeclMemcache.Transport
import PeclMemcache.Machines

set_option autoImplicit false

/-! # Datagrams that come late

A server numbers the requests it gets in datagrams with a counter of 16 bits, and the client takes a
datagram for a late one if its id is smaller than the id it waits for. A late datagram should be
discarded, and the request that is being read should get its response all the same. -/

namespace PeclMemcache

open Machines

/-! ## The requests of a server -/

/-- A request that waits for its response on the UDP stream: its number among the requests sent there,
    the connection it was sent on, and its header fields. -/
structure UdpWaiting where
  number : Nat
  connection : Nat
  udp : UdpFields
  deriving DecidableEq

/-- The UDP side of a server: the stream, the counter `mmc->reqid`, how many requests were sent and
    connections made, and the requests that wait, the first of them being read. -/
structure UdpServer where
  stream : MmcStream := {}
  reqid : Nat := 0
  sent : Nat := 0
  connections : Nat := 0
  waiting : List UdpWaiting := []

/-- What happens on the UDP side of a server. -/
inductive UdpAction
  /-- `mmc_pool_slot_send` sends a request in a datagram, on a stream with the descriptor `fd` if it has
      to be connected. -/
  | send (fd : Nat)
  /-- A datagram is read that the request accepts. -/
  | own (received : Bytes)
  /-- A datagram is read that carries the id of the `j`-th request, which does not wait any more. -/
  | late (j : Nat) (received : Bytes) (time : Int)
  /-- The parser takes up to `n` bytes. -/
  | consume (n : Nat)
  /-- The request is complete. -/
  | complete
  /-- `mmc_find_persistent` finds the server. -/
  | reuse
  /-- `mmc_server_deactivate`: the requests are failed over. -/
  | deactivate (time : Int)

/-- `mmc_pool_slot_send` with a request that goes into a datagram. -/
def UdpServer.slotSend (s : UdpServer) (fd : Nat) : UdpServer :=
  let stream := s.stream.ensureOpen s.connections fd .udp
  { s with
    stream
    reqid := (s.reqid + 1) % 2 ^ 16
    sent := s.sent + 1
    connections := s.connections + 1
    waiting := s.waiting ++
      [{ number := s.sent, connection := stream.stream.getD 0, udp := { reqid := s.reqid } }] }

/-- The server is taken offline. -/
def UdpServer.deactivated (s : UdpServer) (time : Int) : UdpServer :=
  { s with stream := s.stream.disconnect.markFailed time, waiting := [] }

/-- `mmc_request_read_udp` for the request `q` in front of `rest`, and what `mmc_pool_select` does with
    the result: a request that is retried leaves the line. -/
def UdpServer.readFor (s : UdpServer) (q : UdpWaiting) (rest : List UdpWaiting) (received : Bytes)
    (time : Int) : UdpServer :=
  let (result, udp, stream) := s.stream.readDatagram q.udp received time
  match result with
  | .failure => { s with stream }.deactivated time
  | .retry => { s with stream, waiting := rest }
  | _ => { s with stream, waiting := { q with udp } :: rest }

/-- One action, where it is possible. -/
def UdpServer.perform (s : UdpServer) : UdpAction → Option UdpServer
  | .send fd => some (s.slotSend fd)
  | .own received =>
    match s.waiting with
    | q :: rest =>
      if (s.stream.readDatagram q.udp received 0).1 = .ok then some (s.readFor q rest received 0)
      else none
    | [] => none
  | .late j received time =>
    match s.waiting with
    | q :: rest =>
      if j < s.sent ∧ (∀ q ∈ s.waiting, q.number ≠ j) ∧ (udpHeader received).1 = j % 2 ^ 16 then
        some (s.readFor q rest received time)
      else none
    | [] => none
  | .consume n =>
    some { s with stream := { s.stream with buffer := { s.stream.buffer with
      idx := s.stream.buffer.idx + min n s.stream.buffer.unread.length } } }
  | .complete => some { s with waiting := s.waiting.tail }
  | .reuse =>
    if s.stream.status = .connected then
      some { s with stream := { s.stream with status := .unknown } }
    else some s
  | .deactivate time => some (s.deactivated time)

/-! ## Harmless datagrams -/

/-- Nothing is lost: what waits for a response does so on the connection it was sent on. -/
def UdpServer.Reachable (s : UdpServer) : Prop :=
  ∀ q ∈ s.waiting, s.stream.stream = some q.connection

/-- The datagram is discarded: the read asks for more, the requests wait as before, nothing becomes
    readable, and the next datagram is read as if this one had not come. -/
structure UdpServer.Discards (s : UdpServer) (received : Bytes) (time : Int) (s' : UdpServer) :
    Prop where
  result : ∀ q ∈ s.waiting.head?, (s.stream.readDatagram q.udp received time).1 = .more
  waiting : s'.waiting = s.waiting
  unread : s'.stream.buffer.unread = s.stream.buffer.unread
  next : ∀ udp received,
    readUdp udp s'.stream.buffer received = readUdp udp s.stream.buffer received

/-- A late datagram is discarded, and after each action every request that waits is still on its
    connection. -/
def UdpServer.Harmless (s : UdpServer) (a : UdpAction) : Prop :=
  ∀ s', s.perform a = some s' →
    s'.Reachable ∧ ∀ j received time, a = .late j received time → s.Discards received time s'

/-- The condition. A late datagram is a whole one, and its number is below that of the request that is
    read also in the last 16 bits; no request is sent while another one waits on a stream that is
    marked as failed. -/
def UdpServer.Allowed (s : UdpServer) : UdpAction → Prop
  | .late j received _ => udpHeaderSize ≤ received.length ∧ received.length ≤ MMC_MAX_UDP_LEN ∧
    ∀ q ∈ s.waiting.head?, j % 2 ^ 16 < q.number % 2 ^ 16
  | .send _ => s.stream.status = .failed → s.waiting = []
  | _ => True

instance (s : UdpServer) (a : UdpAction) : Decidable (s.Allowed a) := by
  cases a <;> unfold UdpServer.Allowed <;> infer_instance

/-! ## Reading a late datagram -/

theorem MmcStream.serverFailure_ne_more (io : MmcStream) : io.serverFailure.1 ≠ .more := by
  unfold serverFailure
  split <;> simp

theorem MmcStream.serverFailure_ne_ok (io : MmcStream) : io.serverFailure.1 ≠ .ok := by
  unfold serverFailure
  split <;> simp

/-- **Asking for more**: that is the answer to whole datagrams with a smaller id. -/
theorem readDatagram_eq_more_iff (io : MmcStream) (udp : UdpFields) (received : Bytes) (time : Int) :
    (io.readDatagram udp received time).1 = .more ↔
      udpHeaderSize ≤ received.length ∧ received.length ≤ MMC_MAX_UDP_LEN ∧
        (udpHeader received).1 < udp.reqid := by
  unfold MmcStream.readDatagram readUdp
  dsimp only
  have hsame : ∀ header, (udp.adopt header).reqid = udp.reqid := by
    intro header
    unfold UdpFields.adopt
    split <;> rfl
  have hlength : (received.take (MMC_MAX_UDP_LEN + 1)).length = min (MMC_MAX_UDP_LEN + 1) received.length :=
    List.length_take
  have hsize : udpHeaderSize ≤ MMC_MAX_UDP_LEN := by decide
  by_cases hshort : received.length < udpHeaderSize
  · rw [if_pos (by omega)]
    constructor
    · exact fun h => absurd h (MmcStream.serverFailure_ne_more _)
    · omega
  rw [if_neg (by omega)]
  by_cases hlong : MMC_MAX_UDP_LEN < received.length
  · rw [if_pos (by omega)]
    constructor
    · exact fun h => absurd h (MmcStream.serverFailure_ne_more _)
    · omega
  rw [if_neg (by omega), List.take_of_length_le (by omega), hsame]
  by_cases hmatch : udp.reqid ≠ (udpHeader received).1 ∨
      (udp.adopt (udpHeader received)).seqid ≠ (udpHeader received).2.1
  · rw [if_pos hmatch]
    by_cases hlt : (udpHeader received).1 < udp.reqid
    · rw [if_pos hlt]
      simp [hlt]
      omega
    · rw [if_neg hlt]
      simp [hlt]
  · rw [if_neg hmatch]
    simp
    omega

/-- What asks for more is marked as failed, and nothing else has changed. -/
theorem readDatagram_of_more {io : MmcStream} {udp : UdpFields} {received : Bytes} {time : Int}
    (h : (io.readDatagram udp received time).1 = .more) :
    io.readDatagram udp received time
      = (.more, udp, { io with buffer := readyBuffer io.buffer }.markFailed time) := by
  unfold MmcStream.readDatagram at h ⊢
  rcases readUdp_cases udp io.buffer received with ⟨-, hudp, hbuffer⟩ | ⟨hok, -⟩
  · rcases hread : readUdp udp io.buffer received with ⟨result, udp', buffer⟩
    rw [hread] at h hudp hbuffer
    obtain rfl : udp' = udp := hudp
    obtain rfl : buffer = readyBuffer io.buffer := hbuffer
    rcases result with _ | result
    · exact absurd h (MmcStream.serverFailure_ne_more _)
    · cases result with
      | more => rfl
      | _ => simp at h
  · rcases hread : readUdp udp io.buffer received with ⟨result, udp', buffer⟩
    rw [hread] at h hok
    obtain rfl : result = some .ok := hok
    simp at h

/-- What is accepted changes the fields of the request and the buffer. -/
theorem readDatagram_of_ok {io : MmcStream} {udp : UdpFields} {received : Bytes} {time : Int}
    (h : (io.readDatagram udp received time).1 = .ok) :
    ∃ udp' buffer, Accepted udp io.buffer received udp' buffer ∧
      io.readDatagram udp received time = (.ok, udp', { io with buffer }) := by
  unfold MmcStream.readDatagram at h ⊢
  rcases readUdp_cases udp io.buffer received with ⟨hnot, -⟩ | ⟨hok, haccepted⟩
  · rcases hread : readUdp udp io.buffer received with ⟨result, udp', buffer⟩
    rw [hread] at h hnot
    rcases result with _ | result
    · exact absurd h (MmcStream.serverFailure_ne_ok _)
    · cases result with
      | done => exact absurd rfl hnot
      | _ => simp at h
  · rcases hread : readUdp udp io.buffer received with ⟨result, udp', buffer⟩
    rw [hread] at hok haccepted
    obtain rfl : result = some .ok := hok
    exact ⟨udp', buffer, haccepted, rfl⟩

/-! ## Runs -/

/-- The invariant: the ids of the requests that wait are their numbers, and each waits on its
    connection; a stream that is open has one, and nothing waits on one that was closed. -/
structure UdpServer.Numbered (s : UdpServer) : Prop where
  reqid : s.reqid = s.sent % 2 ^ 16
  number : ∀ q ∈ s.waiting, q.udp.reqid = q.number % 2 ^ 16
  reachable : s.Reachable
  opened : s.stream.needsConnect = false → s.stream.stream.isSome
  closed : s.stream.status = .disconnected → s.waiting = []
  connection : ∀ c, s.stream.stream = some c → c < s.connections

/-- The first state of a server. -/
theorem UdpServer.numbered_new (port : Nat) : UdpServer.Numbered { stream := { port } } where
  reqid := rfl
  number := by simp
  reachable := by simp [UdpServer.Reachable]
  opened := by simp [MmcStream.needsConnect]
  closed := by simp
  connection := by simp

variable {s s' : UdpServer}

/-- A request that is sent finds the stream open or nothing waiting. -/
theorem UdpServer.Numbered.slotSend (h : s.Numbered) {fd : Nat}
    (hallowed : s.stream.status = .failed → s.waiting = []) : (s.slotSend fd).Numbered := by
  by_cases hneeds : s.stream.needsConnect
  · have hnone : s.waiting = [] := by
      unfold MmcStream.needsConnect at hneeds
      cases hstatus : s.stream.status with
      | connected => simp [hstatus] at hneeds
      | unknown => simp [hstatus] at hneeds
      | disconnected => exact h.closed hstatus
      | failed => exact hallowed hstatus
    refine ⟨?_, ?_, ?_, ?_, ?_, ?_⟩
    · simp [UdpServer.slotSend, h.reqid]
    · simp [UdpServer.slotSend, hnone, h.reqid]
    · simp [UdpServer.Reachable, UdpServer.slotSend, hnone, MmcStream.ensureOpen, hneeds,
        MmcStream.opened]
    · simp [UdpServer.slotSend, MmcStream.ensureOpen, hneeds, MmcStream.opened]
    · simp [UdpServer.slotSend, MmcStream.ensureOpen, hneeds, MmcStream.opened]
    · simp [UdpServer.slotSend, MmcStream.ensureOpen, hneeds, MmcStream.opened]
  · obtain ⟨c, hc⟩ := Option.isSome_iff_exists.mp (h.opened (by simpa using hneeds))
    have hsame : s.stream.ensureOpen s.connections fd .udp = s.stream := if_neg hneeds
    have hlt := h.connection c hc
    refine ⟨?_, ?_, ?_, ?_, ?_, ?_⟩
    · simp [UdpServer.slotSend, h.reqid]
    · intro q hq
      simp only [UdpServer.slotSend, List.mem_append, List.mem_singleton] at hq
      rcases hq with hq | rfl
      · exact h.number q hq
      · exact h.reqid
    · intro q hq
      simp only [UdpServer.slotSend, hsame, List.mem_append, List.mem_singleton] at hq ⊢
      rcases hq with hq | rfl
      · exact h.reachable q hq
      · simp [hc]
    · simpa [UdpServer.slotSend, hsame] using h.opened
    · simp only [UdpServer.slotSend, hsame]
      intro hdown
      simp [MmcStream.needsConnect, hdown] at hneeds
    · simp only [UdpServer.slotSend, hsame]
      intro c' hc'
      have := h.connection c' hc'
      omega

/-- A request that is sent on a failed stream while others wait leaves them behind. -/
theorem UdpServer.not_reachable_slotSend (h : s.Numbered) {fd : Nat} (hfailed : s.stream.status = .failed)
    (hwaiting : s.waiting ≠ []) : ¬(s.slotSend fd).Reachable := by
  obtain ⟨q, hq⟩ := List.exists_mem_of_ne_nil _ hwaiting
  intro hreachable
  have hold := h.connection _ (h.reachable q hq)
  have hnew := hreachable q (List.mem_append_left _ hq)
  simp [UdpServer.slotSend, MmcStream.ensureOpen, MmcStream.needsConnect, hfailed,
    MmcStream.opened] at hnew
  omega

/-- What the other actions do: the counters stay, the stream is not closed, and the requests that wait
    did so before. -/
structure UdpServer.Continues (s s' : UdpServer) : Prop where
  reqid : s'.reqid = s.reqid
  sent : s'.sent = s.sent
  connections : s'.connections = s.connections
  stream : s'.stream.stream = s.stream.stream
  needsConnect : s'.stream.needsConnect = false → s.stream.needsConnect = false
  disconnected : s'.stream.status = .disconnected → s.stream.status = .disconnected
  waiting : ∀ q ∈ s'.waiting, ∃ q₀ ∈ s.waiting,
    q.number = q₀.number ∧ q.connection = q₀.connection ∧ q.udp.reqid = q₀.udp.reqid

theorem UdpServer.Numbered.continues (h : s.Numbered) (hs : s.Continues s') : s'.Numbered where
  reqid := by rw [hs.reqid, hs.sent, h.reqid]
  number := by
    intro q hq
    obtain ⟨q₀, hq₀, hnumber, -, hreqid⟩ := hs.waiting q hq
    rw [hreqid, hnumber, h.number q₀ hq₀]
  reachable := by
    intro q hq
    obtain ⟨q₀, hq₀, -, hconnection, -⟩ := hs.waiting q hq
    rw [hs.stream, hconnection, h.reachable q₀ hq₀]
  opened := by
    intro hopen
    rw [hs.stream]
    exact h.opened (hs.needsConnect hopen)
  closed := by
    intro hclosed
    refine List.eq_nil_iff_forall_not_mem.mpr fun q hq => ?_
    obtain ⟨q₀, hq₀, -⟩ := hs.waiting q hq
    rw [h.closed (hs.disconnected hclosed)] at hq₀
    cases hq₀
  connection := by
    intro c hc
    rw [hs.connections]
    exact h.connection c (hs.stream ▸ hc)

/-- The request that is read may get other fields, with the same id. -/
theorem UdpServer.waiting_head {q : UdpWaiting} {rest : List UdpWaiting} {udp : UdpFields}
    (hreqid : udp.reqid = q.udp.reqid) (q' : UdpWaiting) (hq' : q' ∈ { q with udp } :: rest) :
    ∃ q₀ ∈ q :: rest, q'.number = q₀.number ∧ q'.connection = q₀.connection ∧
      q'.udp.reqid = q₀.udp.reqid := by
  rcases List.mem_cons.mp hq' with rfl | hrest
  · exact ⟨q, List.mem_cons_self, rfl, rfl, hreqid⟩
  · exact ⟨q', List.mem_cons_of_mem _ hrest, rfl, rfl, rfl⟩

theorem UdpServer.continues_own {q : UdpWaiting} {rest : List UdpWaiting} {received : Bytes}
    (hwaiting : s.waiting = q :: rest) {time : Int}
    (hok : (s.stream.readDatagram q.udp received time).1 = .ok) :
    s.Continues (s.readFor q rest received time) := by
  obtain ⟨udp, buffer, haccepted, hread⟩ := readDatagram_of_ok hok
  rw [UdpServer.readFor, hread]
  refine ⟨rfl, rfl, rfl, rfl, id, id, ?_⟩
  rw [hwaiting]
  exact UdpServer.waiting_head haccepted.udp_reqid

/-- A datagram that asks for more marks the stream as failed, and no more. -/
theorem UdpServer.readFor_of_more {q : UdpWaiting} {rest : List UdpWaiting} {received : Bytes}
    (hwaiting : s.waiting = q :: rest) {time : Int}
    (hmore : (s.stream.readDatagram q.udp received time).1 = .more) :
    s.readFor q rest received time = { s with
      stream := { s.stream with buffer := readyBuffer s.stream.buffer }.markFailed time } := by
  rw [UdpServer.readFor, readDatagram_of_more hmore, hwaiting]

theorem UdpServer.continues_of_more {time : Int} : s.Continues { s with
    stream := { s.stream with buffer := readyBuffer s.stream.buffer }.markFailed time } where
  reqid := rfl
  sent := rfl
  connections := rfl
  stream := rfl
  needsConnect h := by simp [MmcStream.markFailed, MmcStream.needsConnect] at h
  disconnected h := by simp [MmcStream.markFailed] at h
  waiting q hq := ⟨q, hq, rfl, rfl, rfl⟩

theorem readyBuffer_readyBuffer (b : MmcBuffer) : readyBuffer (readyBuffer b) = readyBuffer b := by
  by_cases h : b.value.length ≤ b.idx
  · have hreset : readyBuffer b = b.reset := if_pos h
    rw [hreset]
    rfl
  · have hsame : readyBuffer b = b := if_neg h
    rw [hsame, hsame]

theorem readUdp_readyBuffer (udp : UdpFields) (b : MmcBuffer) (received : Bytes) :
    readUdp udp (readyBuffer b) received = readUdp udp b received := by
  rw [readUdp, readUdp, readyBuffer_readyBuffer]

/-- **A step that is allowed** keeps the invariant. -/
theorem UdpServer.numbered_perform {a : UdpAction} (h : s.Numbered) (hallowed : s.Allowed a)
    (hstep : s.perform a = some s') : s'.Numbered := by
  cases a with
  | send fd =>
    cases hstep
    exact h.slotSend hallowed
  | own received =>
    rw [perform] at hstep
    rcases hwaiting : s.waiting with _ | ⟨q, rest⟩
    · rw [hwaiting] at hstep
      cases hstep
    · rw [hwaiting] at hstep
      dsimp only at hstep
      split at hstep
      · rename_i hok
        cases hstep
        exact h.continues (continues_own hwaiting hok)
      · cases hstep
  | late j received time =>
    rw [perform] at hstep
    rcases hwaiting : s.waiting with _ | ⟨q, rest⟩
    · rw [hwaiting] at hstep
      cases hstep
    · rw [hwaiting] at hstep
      dsimp only at hstep
      split at hstep
      · rename_i hlate
        cases hstep
        obtain ⟨hsize, hlong, hless⟩ := hallowed
        have hmore : (s.stream.readDatagram q.udp received time).1 = .more := by
          refine (readDatagram_eq_more_iff _ _ _ _).mpr ⟨hsize, hlong, ?_⟩
          rw [hlate.2.2, h.number q (by simp [hwaiting])]
          exact hless q (by simp [hwaiting])
        rw [readFor_of_more hwaiting hmore]
        exact h.continues continues_of_more
      · cases hstep
  | consume n =>
    cases hstep
    exact h.continues ⟨rfl, rfl, rfl, rfl, id, id, fun q hq => ⟨q, hq, rfl, rfl, rfl⟩⟩
  | complete =>
    cases hstep
    exact h.continues ⟨rfl, rfl, rfl, rfl, id, id,
      fun q hq => ⟨q, List.mem_of_mem_tail hq, rfl, rfl, rfl⟩⟩
  | reuse =>
    rw [perform] at hstep
    split at hstep
    · rename_i hconnected
      cases hstep
      refine h.continues ⟨rfl, rfl, rfl, rfl, fun _ => ?_, ?_, fun q hq => ⟨q, hq, rfl, rfl, rfl⟩⟩
      · simp [MmcStream.needsConnect, hconnected]
      · simp
    · cases hstep
      exact h
  | deactivate time =>
    cases hstep
    exact ⟨h.reqid, by simp [deactivated], by simp [deactivated, Reachable],
      by simp [deactivated, MmcStream.markFailed, MmcStream.needsConnect],
      by simp [deactivated, MmcStream.markFailed],
      by simp [deactivated, MmcStream.markFailed, MmcStream.disconnect]⟩

/-- A late datagram is harmless if and only if it asks for more. -/
theorem UdpServer.harmless_late_iff (h : s.Numbered) {j : Nat} {received : Bytes} {time : Int}
    (hstep : s.perform (.late j received time) = some s') :
    s.Harmless (.late j received time) ↔ s.Allowed (.late j received time) := by
  have hcopy := hstep
  rw [perform] at hstep
  rcases hwaiting : s.waiting with _ | ⟨q, rest⟩
  · rw [hwaiting] at hstep
    cases hstep
  rw [hwaiting] at hstep
  dsimp only at hstep
  split at hstep
  · rename_i hlate
    cases hstep
    have hmore : (s.stream.readDatagram q.udp received time).1 = .more ↔
        s.Allowed (.late j received time) := by
      rw [readDatagram_eq_more_iff, hlate.2.2, h.number q (by simp [hwaiting]), Allowed, hwaiting]
      simp
    rw [← hmore]
    constructor
    · intro hharmless
      exact ((hharmless _ hcopy).2 j received time rfl).result q (by simp [hwaiting])
    · intro hm s' hs'
      cases hcopy.symm.trans hs'
      rw [readFor_of_more hwaiting hm]
      refine ⟨(h.continues continues_of_more).reachable, ?_⟩
      rintro _ _ _ ⟨⟩
      refine ⟨by simpa [hwaiting] using hm, rfl, ?_, ?_⟩
      · exact readyBuffer_unread _
      · exact fun udp received => readUdp_readyBuffer udp _ received
  · cases hstep

/-- **A step is harmless** if and only if it is allowed. -/
theorem UdpServer.harmless_step_iff {a : UdpAction} (h : s.Numbered)
    (hstep : s.perform a = some s') : s.Harmless a ↔ s.Allowed a := by
  have hkept : s.Allowed a → (∀ j received time, a ≠ .late j received time) → s.Harmless a := by
    intro hallowed hnot t ht
    exact ⟨(numbered_perform h hallowed ht).reachable, fun j received time ha =>
      absurd ha (hnot j received time)⟩
  cases a with
  | send fd =>
    constructor
    · intro hharmless hfailed
      by_contra hwaiting
      exact not_reachable_slotSend h hfailed hwaiting (hharmless _ rfl).1
    · exact fun hallowed => hkept hallowed (by simp)
  | late j received time => exact harmless_late_iff h hstep
  | own received => exact ⟨fun _ => trivial, fun h => hkept h (by simp)⟩
  | consume n => exact ⟨fun _ => trivial, fun h => hkept h (by simp)⟩
  | complete => exact ⟨fun _ => trivial, fun h => hkept h (by simp)⟩
  | reuse => exact ⟨fun _ => trivial, fun h => hkept h (by simp)⟩
  | deactivate time => exact ⟨fun _ => trivial, fun h => hkept h (by simp)⟩

/-- **Late datagrams**: over all runs of a server, each of its steps is harmless if and only if each is
    allowed. -/
theorem harmless_iff_allowed {port : Nat} {actions : List UdpAction} {s : UdpServer}
    (hrun : performAll UdpServer.perform actions { stream := { port } } = some s) :
    Obeys UdpServer.perform UdpServer.Harmless actions { stream := { port } } ↔
      Obeys UdpServer.perform UdpServer.Allowed actions { stream := { port } } := by
  have hsame : ∀ s a s', UdpServer.Numbered s → UdpServer.perform s a = some s' →
      (s.Harmless a ↔ s.Allowed a) := fun s a s' h hstep => UdpServer.harmless_step_iff h hstep
  have hkeep : ∀ s a s', UdpServer.Numbered s → s.Harmless a → UdpServer.perform s a = some s' →
      UdpServer.Numbered s' := fun s a s' h hharmless hstep =>
    UdpServer.numbered_perform h ((hsame s a s' h hstep).mp hharmless) hstep
  exact obeys_congr hkeep hsame (UdpServer.numbered_new port) hrun

/-- The second request is read while a datagram of the first one comes. -/
theorem harmless_secondRequest :
    Obeys UdpServer.perform UdpServer.Harmless
      [.send 5, .complete, .send 5, .late 0 [0, 0, 0, 0, 0, 1, 0, 0] 100,
        .own [0, 1, 0, 0, 0, 1, 0, 0, 69], .complete] {} :=
  (harmless_iff_allowed (s := _) rfl).mpr (by decide)

/-- Requests that are sent and completed one after the other. -/
def oneByOne : Nat → List UdpAction
  | 0 => []
  | n + 1 => .send 5 :: .complete :: oneByOne n

theorem performAll_oneByOne (allowed : UdpServer → UdpAction → Prop) (actions : List UdpAction)
    (n : Nat) : ∀ s : UdpServer, s.Numbered → s.waiting = [] → ∃ s', s'.Numbered ∧ s'.waiting = [] ∧
      s'.sent = s.sent + n ∧
      performAll UdpServer.perform (oneByOne n ++ actions) s = performAll UdpServer.perform actions s' ∧
      (Obeys UdpServer.perform allowed (oneByOne n ++ actions) s →
        Obeys UdpServer.perform allowed actions s') := by
  induction n with
  | zero => exact fun s h hwaiting => ⟨s, h, hwaiting, rfl, rfl, id⟩
  | succ n ih =>
    intro s h hwaiting
    have hsent : (s.slotSend 5).Numbered := h.slotSend fun _ => hwaiting
    have hdone : UdpServer.Numbered { s.slotSend 5 with waiting := (s.slotSend 5).waiting.tail } :=
      UdpServer.numbered_perform (a := .complete) hsent trivial rfl
    obtain ⟨s', hs', hwaiting', hcount, hrun, hobeys⟩ := ih _ hdone
      (by simp [UdpServer.slotSend, hwaiting])
    refine ⟨s', hs', hwaiting', ?_, hrun, fun hall => hobeys hall.2.2⟩
    rw [hcount]
    simp only [UdpServer.slotSend]
    omega

/-- **The wrap**: when 65536 requests were sent and the next one is read, a datagram of the last one
    before it, whose id is 65535, is not discarded. -/
theorem wrappedId_not_harmless :
    ¬Obeys UdpServer.perform UdpServer.Harmless
      (oneByOne 65536 ++ [.send 5, .late 65535 [255, 255, 0, 0, 0, 1, 0, 0] 100]) {} := by
  intro hobeys
  obtain ⟨s, h, hwaiting, hsent, -, htail⟩ := performAll_oneByOne UdpServer.Harmless
    [.send 5, .late 65535 [255, 255, 0, 0, 0, 1, 0, 0] 100] 65536 {} (UdpServer.numbered_new 0) rfl
  have hsent : s.sent = 65536 := by simpa using hsent
  have hreqid : s.reqid = 0 := by simp [h.reqid, hsent]
  obtain ⟨q, hline, hnumber, hudp⟩ :
      ∃ q, (s.slotSend 5).waiting = [q] ∧ q.number = 65536 ∧ q.udp = { reqid := 0 } := by
    simp [UdpServer.slotSend, hwaiting, hsent, hreqid]
  obtain ⟨-, hlate, -⟩ := htail hobeys
  have hstep : (s.slotSend 5).perform (.late 65535 [255, 255, 0, 0, 0, 1, 0, 0] 100) = some
      ((s.slotSend 5).readFor q [] [255, 255, 0, 0, 0, 1, 0, 0] 100) := by
    rw [UdpServer.perform, hline]
    refine if_pos ⟨?_, by simp [hnumber], by decide⟩
    simp [UdpServer.slotSend, hsent]
  have hmore := ((hlate _ hstep).2 _ _ _ rfl).result q (by rw [hline]; rfl)
  rw [readDatagram_eq_more_iff, hudp] at hmore
  exact absurd hmore (by decide)

end PeclMemcache
