import PeclMemcache.Program

set_option autoImplicit false

/-! # Responses in datagrams

The reads of a UDP stream, one datagram at a time, for the requests that wait for their responses on
it one after the other. A datagram belongs behind the ones of its request that were delivered before;
anything else has to be discarded or to send the request to the other stream. -/

namespace PeclMemcache

/-! ## One read -/

/-- The buffer before a read: empty again if all of it was consumed. -/
def readyBuffer (buffer : MmcBuffer) : MmcBuffer :=
  if buffer.value.length ≤ buffer.idx then buffer.reset else buffer

/-- The header fields of a request when a datagram with this header comes. -/
def UdpFields.adopt (udp : UdpFields) (header : Nat × Nat × Nat) : UdpFields :=
  if udp.total = 0 ∧ udp.reqid = header.1 then { udp with seqid := header.2.1, total := header.2.2 }
  else udp

/-- What `mmc_request_read_udp` does with a datagram: the result, or `none` for a failure of the
    server, and the header fields of the request and the buffer of the stream after it. -/
def readUdp (udp : UdpFields) (buffer : MmcBuffer) (received : Bytes) :
    Option MmcResult × UdpFields × MmcBuffer :=
  let datagram := received.take (MMC_MAX_UDP_LEN + 1)
  let header := udpHeader datagram
  let udp' := udp.adopt header
  if datagram.length < udpHeaderSize then (none, udp, readyBuffer buffer)
  else if MMC_MAX_UDP_LEN < datagram.length then (none, udp, readyBuffer buffer)
  else if udp'.reqid ≠ header.1 ∨ udp'.seqid ≠ header.2.1 then
    (some (if header.1 < udp'.reqid then .more else .retry), udp', readyBuffer buffer)
  else
    (some .ok, { udp' with seqid := (udp'.seqid + 1) % 2 ^ 16 },
      acceptDatagram (readyBuffer buffer) datagram)

theorem MmcServer.io_modifyIo (s : MmcServer) (t : MmcProto) (f : MmcStream → MmcStream) :
    (s.modifyIo t f).io t = f (s.io t) := by
  cases t <;> rfl

/-- The stream and the header fields of the request after `mmc_request_read_udp` at the given time. A
    datagram of another request, or out of sequence, marks the stream as failed. -/
def MmcStream.readDatagram (io : MmcStream) (udp : UdpFields) (received : Bytes) (time : Int) :
    MmcResult × UdpFields × MmcStream :=
  match readUdp udp io.buffer received with
  | (none, udp, buffer) =>
    let (result, io) := { io with buffer }.serverFailure
    (result, udp, io)
  | (some .ok, udp, buffer) => (.ok, udp, { io with buffer })
  | (some result, udp, buffer) => (result, udp, { io with buffer }.markFailed time)

/-- The result of the read, the request and its stream after it. -/
structure ReadsTo (m : Mmc) (t : MmcProto) (r : ReqId) (expected : MmcResult × UdpFields × MmcStream)
    (result : MmcResult) (w : World) : Prop where
  result : result = expected.1
  udp : (w.req r).udp = expected.2.1
  stream : (w.mmc m).io t = expected.2.2

open Stateful in
/-- A failure of the server leaves the fields of the request alone. -/
theorem wp_mmcServerFailure_readsTo {m : Mmc} {t : MmcProto} {r : ReqId} {error : String}
    {errnum : Int} {w : World} : wp (mmcServerFailure m (m, t) error errnum)
      (ReadsTo m t r (((w.mmc m).io t).serverFailure.1, (w.req r).udp,
        ((w.mmc m).io t).serverFailure.2)) (fun _ => False) w := by
  simp only [mmcServerFailure, mmcServerSeterror, doWhen, wp_bind, wp_getMmc, wp_modifyMmc]
  refine wp_ite (fun _ => ?_) fun _ => ?_
  · simp only [wp_modifyMmc, wp_pure]
    refine ⟨rfl, rfl, ?_⟩
    cases t <;> simp [MmcServer.modifyIo, MmcServer.io]
  · simp only [wp_pure]
    refine ⟨rfl, rfl, ?_⟩
    cases t <;> simp [MmcServer.modifyIo, MmcServer.io]

open Stateful in
/-- **`mmc_request_read_udp` reads like that**: the result, the header fields and the stream. -/
theorem wp_mmcRequestReadUdp (E : Env) {m : Mmc} {t : MmcProto} {r : ReqId} {w : World}
    (hio : (w.req r).io = some (m, t)) (hstream : ((w.mmc m).io t).stream ≠ none) :
    wp (mmcRequestReadUdp E m r) (ReadsTo m t r
      (((w.mmc m).io t).readDatagram (w.req r).udp (E.recv w.tick) (E.time (w.tick + 1))))
      (fun _ => False) w := by
  obtain ⟨c, hc⟩ := Option.ne_none_iff_exists'.mp hstream
  simp only [mmcRequestReadUdp, ioOf, wp_bind, wp_getReq, wp_getMmc, hio, wp_pure, hc, wp_modifyMmc,
    wp_ask]
  unfold MmcStream.readDatagram readUdp
  dsimp only
  generalize (E.recv w.tick).take (MMC_MAX_UDP_LEN + 1) = datagram
  set w₁ : World := { w with
    mmc := Function.update w.mmc m ((w.mmc m).modifyIo t fun x =>
      if x.buffer.value.length ≤ x.buffer.idx then { x with buffer := x.buffer.reset } else x)
    tick := w.tick + 1 } with hw₁
  have hready : (w₁.mmc m).io t
      = { (w.mmc m).io t with buffer := readyBuffer ((w.mmc m).io t).buffer } := by
    simp only [hw₁, Function.update_self, MmcServer.io_modifyIo, readyBuffer]
    split <;> rfl
  have hfailure : ∀ error errnum, wp (mmcServerFailure m (m, t) error errnum) (ReadsTo m t r
      (({ (w.mmc m).io t with buffer := readyBuffer ((w.mmc m).io t).buffer }).serverFailure.1,
        (w.req r).udp,
        ({ (w.mmc m).io t with buffer := readyBuffer ((w.mmc m).io t).buffer }).serverFailure.2))
      (fun _ => False) w₁ := by
    intro error errnum
    rw [← hready]
    exact wp_mmcServerFailure_readsTo
  split
  · exact hfailure _ _
  · split
    · exact hfailure _ _
    · set q : MmcRequest :=
        if (w.req r).udp.total = 0 ∧ (w.req r).udp.reqid = (udpHeader datagram).1 then
          { w.req r with udp := { (w.req r).udp with
            seqid := (udpHeader datagram).2.1, total := (udpHeader datagram).2.2 } }
        else w.req r with hq
      have hinit : (w.req r).udp.adopt (udpHeader datagram) = q.udp := by
        rw [hq, UdpFields.adopt]
        split <;> rfl
      simp only [wp_bind, wp_modifyReq, wp_getReq, Function.update_self]
      rw [hinit]
      change wp (if q.udp.reqid ≠ (udpHeader datagram).1 ∨ q.udp.seqid ≠ (udpHeader datagram).2.1
        then _ else _) _ _ { w₁ with req := Function.update w₁.req r q }
      split
      · simp only [wp_bind, wp_ask, wp_modifyMmc]
        have hmarked : ((w₁.mmc m).modifyIo t fun x => x.markFailed (E.time w₁.tick)).io t
            = ({ (w.mmc m).io t with buffer := readyBuffer ((w.mmc m).io t).buffer }).markFailed
              (E.time (w.tick + 1)) := by
          rw [MmcServer.io_modifyIo, hready]
        refine wp_ite (fun hlt => ?_) fun hlt => ?_
        · rw [if_pos hlt]
          exact (wp_pure _ _ _ _).mpr ⟨rfl, by simp, by simpa using hmarked⟩
        · rw [if_neg hlt]
          exact (wp_pure _ _ _ _).mpr ⟨rfl, by simp, by simpa using hmarked⟩
      · simp only [wp_bind, wp_modifyReq, wp_modifyMmc, wp_pure]
        refine ⟨rfl, by simp, ?_⟩
        simp [MmcServer.io_modifyIo, hready]

/-! ## The requests on one stream -/

/-- A stream and the request that reads from it: the bytes its parser has taken and the datagrams it
    accepted. -/
structure UdpStream where
  udp : UdpFields
  buffer : MmcBuffer := {}
  consumed : Bytes := []
  accepted : List Bytes := []

/-- A datagram is read, the parser takes up to `n` bytes, or the next request, sent with its own id,
    becomes the one that reads. -/
inductive UdpEvent
  | read (datagram : Bytes)
  | consume (n : Nat)
  | next (reqid : Nat)

/-- The bytes in the buffer that were not taken yet. -/
def MmcBuffer.unread (b : MmcBuffer) : Bytes := b.value.drop b.idx

/-- The stream after an event. -/
def UdpStream.after (s : UdpStream) : UdpEvent → UdpStream
  | .read datagram =>
    let (result, udp, buffer) := readUdp s.udp s.buffer datagram
    { s with
      udp, buffer
      accepted := if result = some .ok then s.accepted ++ [datagram] else s.accepted }
  | .consume n =>
    let taken := s.buffer.unread.take n
    { s with
      buffer := { s.buffer with idx := s.buffer.idx + taken.length }
      consumed := s.consumed ++ taken }
  | .next reqid => { udp := { reqid }, buffer := s.buffer }

/-- A stream just opened, with the first request sent on it. -/
def UdpStream.opened (reqid : Nat) : UdpStream where
  udp := { reqid }

/-- The bytes made available to the parser of the request. -/
def UdpStream.available (s : UdpStream) : Bytes := s.consumed ++ s.buffer.unread

/-- The payload of a datagram. -/
def payload (datagram : Bytes) : Bytes := datagram.drop udpHeaderSize

/-- What is available is the payloads of the datagrams that carry the id of the request, in sequence
    order from 0, and no other datagram was accepted. -/
structure UdpStream.InOrder (s : UdpStream) : Prop where
  sequence : ∀ i datagram, s.accepted[i]? = some datagram →
    (udpHeader datagram).1 = s.udp.reqid ∧ (udpHeader datagram).2.1 = i
  available : s.available = s.accepted.flatMap payload

/-- The condition on an event: a datagram of the request comes only when nothing is left in the
    buffer, the first one it accepts is the one it expects, and its number is not the last of 16
    bits; nothing is left in the buffer when the next request begins. -/
def UdpEvent.Fits (s : UdpStream) : UdpEvent → Prop
  | .read datagram => udpHeaderSize ≤ datagram.length → datagram.length ≤ MMC_MAX_UDP_LEN →
    (udpHeader datagram).1 = s.udp.reqid →
    s.buffer.unread = [] ∧ (s.udp.total = 0 → (udpHeader datagram).2.1 = s.udp.seqid) ∧
      (udpHeader datagram).2.1 + 1 < 2 ^ 16
  | .consume _ => True
  | .next _ => s.buffer.unread = []

/-- Every event of a run meets its condition. -/
def Fitting : UdpStream → List UdpEvent → Prop
  | _, [] => True
  | s, e :: es => e.Fits s ∧ Fitting (s.after e) es

/-! ## What a read can do -/

/-- A datagram that was accepted. -/
structure Accepted (udp : UdpFields) (buffer : MmcBuffer) (datagram : Bytes) (udp' : UdpFields)
    (buffer' : MmcBuffer) : Prop where
  complete : udpHeaderSize ≤ datagram.length
  short : datagram.length ≤ MMC_MAX_UDP_LEN
  reqid : (udpHeader datagram).1 = udp.reqid
  seqid : udp.total ≠ 0 → (udpHeader datagram).2.1 = udp.seqid
  udp_reqid : udp'.reqid = udp.reqid
  udp_seqid : udp'.seqid = ((udpHeader datagram).2.1 + 1) % 2 ^ 16
  buffer : buffer' = acceptDatagram (readyBuffer buffer) datagram

/-- The header fields change only where they then agree with the datagram. -/
theorem UdpFields.adopt_cases (udp : UdpFields) (header : Nat × Nat × Nat) :
    udp.adopt header = udp ∨
      (udp.total = 0 ∧ (udp.adopt header).reqid = header.1 ∧
        (udp.adopt header).seqid = header.2.1) := by
  unfold adopt
  split
  · rename_i h
    exact Or.inr ⟨h.1, h.2, rfl⟩
  · exact Or.inl rfl

/-- **A read** either accepts the datagram, or leaves the request and the unread bytes as they
    were. -/
theorem readUdp_cases (udp : UdpFields) (buffer : MmcBuffer) (datagram : Bytes) :
    ((readUdp udp buffer datagram).1 ≠ some .ok ∧ (readUdp udp buffer datagram).2.1 = udp ∧
        (readUdp udp buffer datagram).2.2 = readyBuffer buffer) ∨
      ((readUdp udp buffer datagram).1 = some .ok ∧ Accepted udp buffer datagram
        (readUdp udp buffer datagram).2.1 (readUdp udp buffer datagram).2.2) := by
  unfold readUdp
  dsimp only
  split
  · exact Or.inl ⟨by simp, rfl, rfl⟩
  · split
    · exact Or.inl ⟨by simp, rfl, rfl⟩
    · rename_i hlong hshort
      -- a datagram that is not too long was not cut
      have hcut : datagram.take (MMC_MAX_UDP_LEN + 1) = datagram := by
        rw [List.length_take] at hshort
        exact List.take_of_length_le (by omega)
      rw [hcut] at hlong hshort ⊢
      rcases udp.adopt_cases (udpHeader datagram) with hinit | ⟨htotal, hreqid, hseqid⟩
      · rw [hinit]
        split
        · refine Or.inl ⟨?_, rfl, rfl⟩
          split <;> simp
        · rename_i hmatch
          rw [not_or, not_not, not_not] at hmatch
          exact Or.inr ⟨rfl, Nat.le_of_not_lt hlong, Nat.le_of_not_lt hshort, hmatch.1.symm,
            fun _ => hmatch.2.symm, rfl, by rw [hmatch.2], rfl⟩
      · have hsame : (udp.adopt (udpHeader datagram)).reqid = udp.reqid := by
          unfold UdpFields.adopt
          split <;> rfl
        rw [if_neg (by simp [hreqid, hseqid])]
        exact Or.inr ⟨rfl, Nat.le_of_not_lt hlong, Nat.le_of_not_lt hshort, hreqid.symm.trans hsame,
          fun h => absurd htotal h, hsame, by rw [hseqid], rfl⟩

theorem readyBuffer_unread (b : MmcBuffer) : (readyBuffer b).unread = b.unread := by
  unfold readyBuffer
  split
  · rename_i h
    rw [MmcBuffer.unread, MmcBuffer.unread, List.drop_of_length_le h]
    rfl
  · rfl

/-- Behind a buffer with nothing unread, what an accepted datagram makes available is its payload. -/
theorem acceptDatagram_unread {b : MmcBuffer} (h : b.unread = []) {datagram : Bytes} :
    (acceptDatagram (readyBuffer b) datagram).unread = payload datagram := by
  have hempty : readyBuffer b = {} := by
    rw [readyBuffer, if_pos (List.drop_eq_nil_iff.mp h)]
    rfl
  rw [hempty]
  rfl

/-! ## What becomes readable -/

/-- The bytes that become readable are the payload of the datagram, behind those that were not read
    yet. -/
def Accounted (udp : UdpFields) (buffer : MmcBuffer) (datagram : Bytes) : Prop :=
  (readUdp udp buffer datagram).1 = some .ok →
    (readUdp udp buffer datagram).2.2.unread = buffer.unread ++ payload datagram

/-- The condition: nothing is left to read, or nothing was read yet and what is left does not change
    when the header is put behind it and as many bytes are taken from its front. -/
def HeaderSkipped (buffer : MmcBuffer) (datagram : Bytes) : Prop :=
  buffer.unread = [] ∨ buffer.idx = 0 ∧
    (buffer.unread ++ datagram.take udpHeaderSize).drop udpHeaderSize = buffer.unread

instance (buffer : MmcBuffer) (datagram : Bytes) : Decidable (HeaderSkipped buffer datagram) := by
  unfold HeaderSkipped
  infer_instance

theorem readyBuffer_of_unread {b : MmcBuffer} (h : b.unread ≠ []) : readyBuffer b = b :=
  if_neg fun hle => h (List.drop_eq_nil_iff.mpr hle)

/-- Behind bytes that were read the header is moved out, but the length still counts it: the last
    bytes of the datagram are readable twice. -/
theorem acceptDatagram_unread_moved {b : MmcBuffer} (hidx : 0 < b.idx)
    (hle : b.idx ≤ b.value.length) (datagram : Bytes) :
    (acceptDatagram b datagram).unread
      = b.unread ++ payload datagram ++ datagram.drop (datagram.length - udpHeaderSize) := by
  rw [acceptDatagram, if_pos hidx, MmcBuffer.unread, MmcBuffer.unread, payload, List.append_assoc,
    List.drop_append_of_le_length hle, List.append_assoc]

/-- Where nothing was read the index skips the first bytes of the buffer, whosever they are. -/
theorem acceptDatagram_unread_skipped {b : MmcBuffer} (hidx : b.idx = 0) {datagram : Bytes}
    (hlen : udpHeaderSize ≤ datagram.length) : (acceptDatagram b datagram).unread
      = (b.unread ++ datagram.take udpHeaderSize).drop udpHeaderSize ++ payload datagram := by
  have hvalue : b.unread = b.value := by rw [MmcBuffer.unread, hidx, List.drop_zero]
  rw [acceptDatagram, if_neg (by omega), hvalue, payload, MmcBuffer.unread]
  rw [← List.drop_append_of_le_length (by simp; omega), List.append_assoc, List.take_append_drop]

/-- **Accounting of the buffer.** After an accepted datagram exactly its payload is readable behind what
    was readable before if and only if the header could be skipped. -/
theorem accounted_iff {udp : UdpFields} {buffer : MmcBuffer} {datagram : Bytes}
    (h : (readUdp udp buffer datagram).1 = some .ok) :
    Accounted udp buffer datagram ↔ HeaderSkipped buffer datagram := by
  rcases readUdp_cases udp buffer datagram with ⟨hresult, -⟩ | ⟨-, haccepted⟩
  · exact absurd h hresult
  have hbuffer := haccepted.buffer
  have hcomplete := haccepted.complete
  rw [Accounted, hbuffer]
  by_cases hunread : buffer.unread = []
  · rw [acceptDatagram_unread hunread, hunread]
    exact ⟨fun _ => Or.inl hunread, fun _ _ => rfl⟩
  rw [readyBuffer_of_unread hunread]
  rcases Nat.eq_zero_or_pos buffer.idx with hidx | hidx
  · rw [acceptDatagram_unread_skipped hidx hcomplete, List.append_left_inj]
    exact ⟨fun hsame => Or.inr ⟨hidx, hsame h⟩, fun hskip _ => (hskip.resolve_left hunread).2⟩
  · have hle : buffer.idx ≤ buffer.value.length := by
      by_contra hlt
      exact hunread (List.drop_eq_nil_iff.mpr (by omega))
    rw [acceptDatagram_unread_moved hidx hle]
    constructor
    · intro hsame
      have hlength := congrArg List.length (hsame h)
      have hsize : udpHeaderSize = 8 := rfl
      simp only [List.length_append, List.length_drop] at hlength
      omega
    · rintro (hnil | ⟨hzero, -⟩)
      · exact absurd hnil hunread
      · omega

/-- A datagram with the payload `a` for the request 3. -/
def datagramA : Bytes := [0, 3, 0, 0, 0, 1, 0, 0, 97]

theorem accounted_datagramA : Accounted { reqid := 3 } {} datagramA :=
  (accounted_iff (by decide)).mpr (Or.inl rfl)

/-- One byte of an earlier datagram is not read yet. -/
theorem unreadByte_not_accounted :
    ¬ Accounted { reqid := 3 } { value := [0, 2, 0, 0, 0, 1, 0, 0, 120, 121], idx := 9 } datagramA := by
  intro h
  exact absurd (h (by decide)) (by decide)

/-! ## Runs -/

/-- The invariant: the datagrams so far came in order, and the next number is expected. -/
structure UdpStream.Synced (s : UdpStream) : Prop extends s.InOrder where
  expects : s.udp.seqid = s.accepted.length

theorem UdpStream.synced_opened (reqid : Nat) : (UdpStream.opened reqid).Synced :=
  ⟨⟨by simp [opened], rfl⟩, rfl⟩

/-- **The step lemma**: an event that meets its condition keeps the datagrams in order. -/
theorem UdpStream.Synced.after {s : UdpStream} (h : s.Synced) {e : UdpEvent} (he : e.Fits s) :
    (s.after e).Synced := by
  cases e with
  | read datagram =>
    rcases readUdp_cases s.udp s.buffer datagram with ⟨hresult, hudp, hbuffer⟩ | ⟨hresult, haccepted⟩
    · refine ⟨⟨?_, ?_⟩, ?_⟩
      · simpa only [UdpStream.after, hudp, if_neg hresult] using h.sequence
      · simpa only [UdpStream.after, UdpStream.available, hbuffer, if_neg hresult, readyBuffer_unread]
          using h.available
      · simpa only [UdpStream.after, hudp, if_neg hresult] using h.expects
    · obtain ⟨hunread, hfirst, hlast⟩ := he haccepted.complete haccepted.short haccepted.reqid
      have hseqid : (udpHeader datagram).2.1 = s.accepted.length := by
        rw [← h.expects]
        by_cases htotal : s.udp.total = 0
        · exact hfirst htotal
        · exact haccepted.seqid htotal
      refine ⟨⟨?_, ?_⟩, ?_⟩
      · intro i d hd
        simp only [UdpStream.after, if_pos hresult] at hd ⊢
        rw [haccepted.udp_reqid]
        by_cases hi : i < s.accepted.length
        · rw [List.getElem?_append_left hi] at hd
          exact h.sequence i d hd
        · rw [List.getElem?_append_right (Nat.le_of_not_lt hi), List.getElem?_singleton] at hd
          split at hd
          · cases hd
            exact ⟨haccepted.reqid, by omega⟩
          · cases hd
      · have hbefore := h.available
        rw [UdpStream.available, hunread, List.append_nil] at hbefore
        simp only [UdpStream.after, UdpStream.available, if_pos hresult, haccepted.buffer,
          acceptDatagram_unread hunread, hbefore, List.flatMap_append, List.flatMap_singleton]
      · simp only [UdpStream.after, if_pos hresult, haccepted.udp_seqid, List.length_append,
          List.length_singleton]
        rw [Nat.mod_eq_of_lt hlast, hseqid]
  | consume n =>
    refine ⟨⟨h.sequence, ?_⟩, h.expects⟩
    have hunread : (s.buffer.value.drop (s.buffer.idx + (s.buffer.unread.take n).length))
        = s.buffer.unread.drop n := by
      rw [← List.drop_drop, ← MmcBuffer.unread, List.length_take]
      rcases Nat.le_total n s.buffer.unread.length with hle | hle
      · rw [Nat.min_eq_left hle]
      · rw [Nat.min_eq_right hle, List.drop_length, List.drop_of_length_le hle]
    calc (s.after (.consume n)).available
        = (s.consumed ++ s.buffer.unread.take n) ++ s.buffer.unread.drop n := by
          rw [← hunread]
          rfl
      _ = s.available := by
          rw [List.append_assoc, List.take_append_drop, UdpStream.available]
      _ = s.accepted.flatMap payload := h.available
  | next reqid =>
    have hunread : s.buffer.unread = [] := he
    refine ⟨⟨by simp [UdpStream.after], ?_⟩, rfl⟩
    simp [UdpStream.after, UdpStream.available, hunread]

/-- **The run lemma**: the datagrams are in order after every run that meets the condition. -/
theorem UdpStream.Synced.afterAll {events : List UdpEvent} {s : UdpStream} (hs : s.Synced)
    (h : Fitting s events) : (events.foldl UdpStream.after s).Synced := by
  induction events generalizing s with
  | nil => exact hs
  | cons e es ih => exact ih (hs.after h.1) h.2

theorem fitting_take {events : List UdpEvent} {s : UdpStream} (h : Fitting s events) (n : Nat) :
    Fitting s (events.take n) := by
  induction events generalizing s n with
  | nil => simpa using h
  | cons e es ih =>
    cases n with
    | zero => trivial
    | succ n => exact ⟨h.1, ih h.2 n⟩

/-- **Responses in datagrams come in order**: in a run whose events meet the condition, the bytes made
    available to the parser of the request are, at every point, the payloads of its datagrams from
    number 0 on. -/
theorem inOrder_of_fitting (reqid : Nat) (events : List UdpEvent)
    (h : Fitting (.opened reqid) events) (n : Nat) :
    ((events.take n).foldl UdpStream.after (.opened reqid)).InOrder :=
  ((UdpStream.synced_opened reqid).afterAll (fitting_take h n)).toInOrder

/-- Two datagrams of a response, a duplicate of the first and one of another request. -/
def twoDatagrams : List UdpEvent :=
  [.read [0, 3, 0, 0, 0, 2, 0, 0, 97], .consume 1, .read [0, 2, 0, 0, 0, 1, 0, 0, 120],
    .read [0, 3, 0, 0, 0, 2, 0, 0, 97], .read [0, 3, 0, 1, 0, 2, 0, 0, 98]]

theorem inOrder_twoDatagrams :
    ((twoDatagrams.take 5).foldl UdpStream.after (.opened 3)).InOrder := by
  refine inOrder_of_fitting 3 twoDatagrams ⟨?_, ?_, ?_, ?_, ?_, trivial⟩ 5
  · exact fun _ _ _ => ⟨by decide, by decide, by decide⟩
  · trivial
  · exact fun _ _ h => absurd h (by decide)
  · exact fun _ _ _ => ⟨by decide, by decide, by decide⟩
  · exact fun _ _ _ => ⟨by decide, by decide, by decide⟩

/-- The first datagram that comes has the number 1, and its payload is delivered. -/
theorem firstDatagram_not_inOrder :
    ¬ ((UdpStream.opened 0).after (.read [0, 0, 0, 1, 0, 2, 0, 0, 98])).InOrder := by
  intro h
  have hsequence := h.sequence 0 [0, 0, 0, 1, 0, 2, 0, 0, 98] (by decide)
  exact absurd hsequence.2 (by decide)

end PeclMemcache
