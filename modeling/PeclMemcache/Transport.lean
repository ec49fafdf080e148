import PeclMemcache.Datagrams

set_option autoImplicit false

/-! # The transport of a request

`mmc_pool_slot_send` sends a request in a datagram if it may, and over the TCP stream otherwise, and
opens the stream it has chosen. What becomes of the streams is given here as functions, for the
machines that look at one server over many requests. -/

namespace PeclMemcache

open Stateful

/-! ## Opening a stream -/

/-- The stream has to be connected before it is used. -/
def MmcStream.needsConnect (io : MmcStream) : Bool :=
  match io.status with
  | .connected => false
  | .unknown => false
  | .disconnected => true
  | .failed => true

/-- The stream as `mmc_pool_open` leaves it if a connection `c` can be made. -/
def MmcStream.ensureOpen (io : MmcStream) (c fd : Nat) (t : MmcProto) : MmcStream :=
  if io.needsConnect then (if io.stream.isSome then io.disconnect else io).opened c fd t else io

/-- The server after `mmc_pool_open`. -/
def MmcServer.ensureOpen (s : MmcServer) (t : MmcProto) (c fd : Nat) : MmcServer :=
  if (s.io t).needsConnect then
    { s.modifyIo t fun io => io.ensureOpen c fd t with error := none }
  else s

/-- Both streams as `mmc_server_deactivate` leaves them. -/
def MmcServer.offline (s : MmcServer) (time : Int) : MmcServer :=
  { s with tcp := s.tcp.disconnect.markFailed time, udp := s.udp.disconnect.markFailed time }

/-- The stream can be used: it is open, or a connection can be made now. -/
def Openable (E : Env) (w : World) (m : Mmc) (t : MmcProto) : Prop :=
  ((w.mmc m).io t).needsConnect → E.connect w.tick ≠ none

theorem MmcServer.io_ensureOpen (s : MmcServer) (t : MmcProto) (c fd : Nat) :
    (s.ensureOpen t c fd).io t = (s.io t).ensureOpen c fd t := by
  unfold ensureOpen
  split
  · cases t <;> rfl
  · rename_i h
    rw [MmcStream.ensureOpen, if_neg h]

/-- The world after the stream was opened: nothing but the server has changed. -/
structure OpenedFrom (m : Mmc) (t : MmcProto) (w w' : World) : Prop where
  mmc : ∃ c fd, w'.mmc m = (w.mmc m).ensureOpen t c fd
  req : w'.req = w.req
  others : ∀ m' ≠ m, w'.mmc m' = w.mmc m'
  pool : w'.pool = w.pool
  nextReq : w'.nextReq = w.nextReq

variable (E : Env) (fh : Failover)

/-- **Opening a stream** that can be opened. -/
theorem wp_mmcPoolOpen {m : Mmc} {t : MmcProto} (cause : Option ReqId) {X : World → Prop}
    (hX : ∀ s w, ¬E.allowed s w → X w) {w : World} (h : Openable E w m t) :
    wp (mmcPoolOpen E fh m t cause) (fun result w' => result = .ok ∧ OpenedFrom m t w w') X w := by
  by_cases hneeds : ((w.mmc m).io t).needsConnect
  · obtain ⟨fd, hfd⟩ := Option.ne_none_iff_exists'.mp (h hneeds)
    have hconnect : wp (mmcServerConnect E fh m t cause)
        (fun result w' => result = .ok ∧ OpenedFrom m t w w') X w := by
      simp only [mmcServerConnect, wp_bind, wp_getMmc, doWhen]
      refine wp_ite (fun hopen => ?_) fun hclosed => ?_
      · simp only [wp_modifyMmc, wp_ask, hfd, wp_bind, wp_step, wp_pure, true_and]
        refine ⟨fun _ => ⟨⟨w.tick, fd, ?_⟩, rfl, fun m' hm' => ?_, rfl, rfl⟩, hX _ _⟩
        · dsimp only
          rw [Function.update_self, Function.update_self, MmcServer.ensureOpen, if_pos hneeds]
          cases t <;> simp only [MmcServer.io] at hopen hneeds <;>
            simp only [MmcServer.modifyIo, MmcStream.ensureOpen, if_pos hneeds, if_pos hopen]
        · dsimp only
          rw [Function.update_of_ne hm', Function.update_of_ne hm']
      · simp only [wp_pure, wp_ask, hfd, wp_bind, wp_step, wp_modifyMmc, true_and]
        refine ⟨fun _ => ⟨⟨w.tick, fd, ?_⟩, rfl, fun m' hm' => Function.update_of_ne hm' _ _, rfl, rfl⟩,
          hX _ _⟩
        dsimp only
        rw [Function.update_self, MmcServer.ensureOpen, if_pos hneeds]
        cases t <;> simp only [MmcServer.io] at hclosed hneeds <;>
          simp only [MmcServer.modifyIo, MmcStream.ensureOpen, if_pos hneeds, if_neg hclosed]
    rw [mmcPoolOpen, wp_bind, wp_getMmc]
    cases hstatus : ((w.mmc m).io t).status with
    | connected => simp [MmcStream.needsConnect, hstatus] at hneeds
    | unknown => simp [MmcStream.needsConnect, hstatus] at hneeds
    | disconnected => exact hconnect
    | failed => exact hconnect
  · have hsame : OpenedFrom m t w w :=
      ⟨⟨0, 0, by rw [MmcServer.ensureOpen, if_neg hneeds]⟩, rfl, fun _ _ => rfl, rfl, rfl⟩
    rw [mmcPoolOpen, wp_bind, wp_getMmc]
    cases hstatus : ((w.mmc m).io t).status with
    | connected => exact (wp_pure _ _ _ _).mpr ⟨rfl, hsame⟩
    | unknown => exact (wp_pure _ _ _ _).mpr ⟨rfl, hsame⟩
    | disconnected => simp [MmcStream.needsConnect, hstatus] at hneeds
    | failed => simp [MmcStream.needsConnect, hstatus] at hneeds

/-! ## Choosing a stream -/

/-- **Datagrams**: a request that wants it goes into a datagram if the UDP stream can be opened, with
    the next id of the server. -/
theorem wp_mmcPoolSlotSend_udp {m : Mmc} {r : ReqId} (handleFailover : Bool) {w : World}
    (hwants : wantsUdp (w.mmc m) (w.req r)) (hopen : Openable E w m .udp) :
    wp (mmcPoolSlotSend E fh m (some r) handleFailover)
      (fun result w' => result = .ok ∧ (w'.req r).io = some (m, .udp) ∧
        (w'.req r).udp = { reqid := (w.mmc m).reqid } ∧
        (w'.mmc m).reqid = ((w.mmc m).reqid + 1) % 2 ^ 16 ∧
        ∃ c fd, (w'.mmc m).udp = (w.mmc m).udp.ensureOpen c fd .udp) (fun _ => True) w := by
  simp only [mmcPoolSlotSend, wp_bind, wp_getMmc, wp_getReq, if_pos hwants]
  refine wp_mono (wp_mmcPoolOpen E fh (some r) (fun _ _ _ => trivial) hopen) ?_ fun _ => id
  rintro _ w₁ ⟨rfl, ⟨⟨c, fd, hmmc⟩, hreq, -, -, -⟩⟩
  have hreqid : (w₁.mmc m).reqid = (w.mmc m).reqid := by
    rw [hmmc, MmcServer.ensureOpen]
    split <;> rfl
  have hudp : (w₁.mmc m).udp = (w.mmc m).udp.ensureOpen c fd .udp := by
    rw [hmmc]
    exact MmcServer.io_ensureOpen _ .udp _ _
  simp only [if_true, wp_bind, wp_getMmc, wp_modifyMmc, wp_modifyReq, takeSlot, wp_step, wp_pure,
    Function.update_self, hreqid, true_and]
  exact ⟨fun _ => ⟨c, fd, hudp⟩, fun _ => trivial⟩

/-- **The other requests** go over the TCP stream if it can be opened. -/
theorem wp_mmcPoolSlotSend_tcp {m : Mmc} {r : ReqId} (handleFailover : Bool) {w : World}
    (hwants : ¬wantsUdp (w.mmc m) (w.req r)) (hopen : Openable E w m .tcp) :
    wp (mmcPoolSlotSend E fh m (some r) handleFailover)
      (fun result w' => result = .ok ∧ (w'.req r).io = some (m, .tcp) ∧
        (w'.mmc m).reqid = (w.mmc m).reqid ∧
        ∃ c fd, (w'.mmc m).tcp = (w.mmc m).tcp.ensureOpen c fd .tcp) (fun _ => True) w := by
  simp only [mmcPoolSlotSend, slotSendTcp, wp_bind, wp_getMmc, wp_getReq, if_neg hwants]
  refine wp_mono (wp_mmcPoolOpen E fh (some r) (fun _ _ _ => trivial) hopen) ?_ fun _ => id
  rintro _ w₁ ⟨rfl, ⟨⟨c, fd, hmmc⟩, hreq, -, -, -⟩⟩
  have hreqid : (w₁.mmc m).reqid = (w.mmc m).reqid := by
    rw [hmmc, MmcServer.ensureOpen]
    split <;> rfl
  have htcp : (w₁.mmc m).tcp = (w.mmc m).tcp.ensureOpen c fd .tcp := by
    rw [hmmc]
    exact MmcServer.io_ensureOpen _ .tcp _ _
  simp only [if_true, wp_bind, wp_modifyMmc, wp_modifyReq, takeSlot, wp_step, wp_pure,
    Function.update_self, true_and]
  exact ⟨fun _ => ⟨hreqid, c, fd, htcp⟩, fun _ => trivial⟩

end PeclMemcache
