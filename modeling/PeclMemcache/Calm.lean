import PeclMemcache.Opaque
import PeclMemcache.Redundancy
import PeclMemcache.Turns

set_option autoImplicit false

/-! # Runs in which no server fails

Where no server is deactivated and no failover handler is called, most of the pool code moves no request
between slots, queues and the free list, and writes no request but the one it works on. No program that
neither hands out requests nor schedules them changes the commands in them. -/

namespace PeclMemcache

open Stateful

/-- The runs of `E` end where a server would be deactivated or a failover handler be called. -/
structure NoFailures (E : Env) : Prop where
  deactivate : ∀ m w, E.allowed (.deactivate m) w = false
  failover : ∀ m r w, E.allowed (.failover m r) w = false

/-! ## What stays as it is -/

/-- A request has the command of another one; the header of a datagram may be filled in. -/
structure MmcRequest.SameCommand (q q' : MmcRequest) : Prop where
  protocol : q'.protocol = q.protocol
  command : q'.command = q.command
  length : udpHeaderSize ≤ q.sendbuf.value.length →
    q'.sendbuf.value.length = q.sendbuf.value.length

/-- The steps that neither hand out a request nor schedule one. -/
def Step.Quiet : Step → Prop
  | .alloc _ => False
  | .schedule _ _ => False
  | _ => True

/-- No request is handed out or scheduled, and the commands in all of them stay. -/
structure Quiet (w w' : World) : Prop where
  sameCommand : ∀ r, (w.req r).SameCommand (w'.req r)
  quiet : ∃ steps, w'.log = steps ++ w.log ∧ ∀ s ∈ steps, s.Quiet

/-- A program that leaves the commands alone. -/
def LeavesCommands {α : Type} (x : PoolM α) : Prop := Within Quiet Quiet x

/-- A program that never ends with a result, and leaves the commands alone until it fails. -/
def Fails {α : Type} (x : PoolM α) : Prop := ∀ Q w, wp x Q (Quiet w) w

/-- The slots and queues of a server. -/
structure Slots where
  sendreq : Option ReqId
  readreq : Option ReqId
  buildreq : Option ReqId
  sendqueue : List ReqId
  readqueue : List ReqId

def MmcServer.slots (s : MmcServer) : Slots where
  sendreq := s.sendreq
  readreq := s.readreq
  buildreq := s.buildreq
  sendqueue := s.sendqueue
  readqueue := s.readqueue

/-- A request that reads datagrams is assigned to the datagram stream of a server. -/
def MmcRequest.ReadsUdp (q : MmcRequest) : Prop := q.read = true → ∃ m, q.io = some (m, .udp)

/-- The parts of the pool that say where requests are, and its configuration. -/
structure PoolLists where
  free : List (Option ReqId)
  pending : List Mmc
  protocol : WireProtocol
  findServer : Bytes → Mmc

def MmcPool.lists (p : MmcPool) : PoolLists where
  free := p.freeRequests
  pending := p.pending
  protocol := p.protocol
  findServer := p.findServer

/-- The parts of the pool that say which servers a round comes to. -/
structure RoundQueues where
  inSelect : Bool
  cur : Bool
  sendingBuf : Bool → List Mmc
  readingBuf : Bool → List Mmc

def MmcPool.queues (p : MmcPool) : RoundQueues where
  inSelect := p.inSelect
  cur := p.cur
  sendingBuf := p.sendingBuf
  readingBuf := p.readingBuf

/-- What a step does to the lines of the servers: a request that is accepted joins one, is served when its
    response is parsed, and leaves when it is released. -/
def Step.service : Step → Option (Turns.Event Mmc ReqId)
  | .accept m r => some (.join m r)
  | .parse m r _ _ result => some (.serve m r (result = .done))
  | .release r => some (.leave r)
  | _ => none

/-- What has happened to the lines of the servers, the last event first. -/
def World.services (w : World) : List (Turns.Event Mmc ReqId) := w.log.filterMap Step.service

/-- All requests stay where they are, those of `held` are not written, and no server comes to be marked
    as failed. -/
structure Unmoved (held : Set ReqId) (w w' : World) : Prop extends Quiet w w' where
  slots : ∀ m, (w'.mmc m).slots = (w.mmc m).slots
  lists : w'.pool.lists = w.pool.lists
  nextReq : w'.nextReq = w.nextReq
  req : ∀ r ∈ held, w'.req r = w.req r
  readsUdp : ∀ r, (w.req r).ReadsUdp → (w'.req r).ReadsUdp
  up : ∀ m, (w.mmc m).tcp.status ≠ .failed → (w'.mmc m).tcp.status ≠ .failed

/-- In addition no request is accepted, served or released, and the rounds come to the same servers. -/
structure Undisturbed (held : Set ReqId) (w w' : World) : Prop extends Unmoved held w w' where
  queues : w'.pool.queues = w.pool.queues
  services : w'.services = w.services

/-- A program that disturbs nothing where it ends with a result. -/
def Calm {α : Type} (held : Set ReqId) (x : PoolM α) : Prop :=
  Within (Undisturbed held) Quiet x

namespace MmcRequest.SameCommand

variable {q q' q'' : MmcRequest}

theorem refl (q : MmcRequest) : q.SameCommand q := ⟨rfl, rfl, fun _ => rfl⟩

theorem trans (h : q.SameCommand q') (h' : q'.SameCommand q'') : q.SameCommand q'' where
  protocol := h'.protocol.trans h.protocol
  command := h'.command.trans h.command
  length hlen := (h'.length ((h.length hlen).symm ▸ hlen)).trans (h.length hlen)

theorem of_value (hprotocol : q'.protocol = q.protocol)
    (hvalue : q'.sendbuf.value = q.sendbuf.value) : q.SameCommand q' where
  protocol := hprotocol
  command := by rw [MmcRequest.command, MmcRequest.command, hprotocol, hvalue]
  length _ := by rw [hvalue]

/-- The header of a datagram is filled in. -/
theorem udpHeader {sent : MmcRequest} {reqid : Nat} (hprotocol : q.protocol = .udp)
    (hsent : sent.protocol = q.protocol)
    (hvalue : sent.sendbuf.value = setUdpHeader reqid q.sendbuf.value) : q.SameCommand sent where
  protocol := hsent
  command := by
    simp only [MmcRequest.command, hsent, hprotocol, if_true, hvalue, setUdpHeader_drop]
  length hlen := by
    rw [hvalue]
    simp only [setUdpHeader, List.length_append, bigEndian_length, List.length_take, List.length_drop]
    unfold udpHeaderSize at hlen
    omega

end MmcRequest.SameCommand

namespace Quiet

variable {w w' w'' : World}

theorem of_same (hreq : w'.req = w.req) (hlog : w'.log = w.log) : Quiet w w' where
  sameCommand r := hreq ▸ .refl _
  quiet := ⟨[], hlog, by simp⟩

theorem refl (w : World) : Quiet w w := of_same rfl rfl

theorem of_step {s : Step} (hs : s.Quiet) (hreq : w'.req = w.req) (hlog : w'.log = s :: w.log) :
    Quiet w w' where
  sameCommand r := hreq ▸ .refl _
  quiet := ⟨[s], hlog, by simpa using hs⟩

theorem of_req (w : World) {r : ReqId} {q : MmcRequest} (hq : (w.req r).SameCommand q) :
    Quiet w { w with req := Function.update w.req r q } where
  sameCommand r' := by
    by_cases heq : r' = r
    · subst heq
      simpa using hq
    · simpa [heq] using MmcRequest.SameCommand.refl (w.req r')
  quiet := ⟨[], rfl, by simp⟩

theorem trans (h : Quiet w w') (h' : Quiet w' w'') : Quiet w w'' where
  sameCommand r := (h.sameCommand r).trans (h'.sameCommand r)
  quiet := by
    obtain ⟨steps, hlog, hquiet⟩ := h.quiet
    obtain ⟨steps', hlog', hquiet'⟩ := h'.quiet
    refine ⟨steps' ++ steps, by rw [hlog', hlog, List.append_assoc], fun s hs => ?_⟩
    rcases List.mem_append.mp hs with hs | hs
    · exact hquiet' s hs
    · exact hquiet s hs

end Quiet

namespace Unmoved

variable {held : Set ReqId} {w w' w'' : World}

theorem refl (held : Set ReqId) (w : World) : Unmoved held w w where
  toQuiet := .refl w
  slots _ := rfl
  lists := rfl
  nextReq := rfl
  req _ _ := rfl
  readsUdp _ := id
  up _ := id

theorem trans (h : Unmoved held w w') (h' : Unmoved held w' w'') :
    Unmoved held w w'' where
  toQuiet := h.toQuiet.trans h'.toQuiet
  slots m := (h'.slots m).trans (h.slots m)
  lists := h'.lists.trans h.lists
  nextReq := h'.nextReq.trans h.nextReq
  req r hr := (h'.req r hr).trans (h.req r hr)
  readsUdp r hr := h'.readsUdp r (h.readsUdp r hr)
  up m hm := h'.up m (h.up m hm)

theorem of_mmc (w : World) (m : Mmc) {s : MmcServer} (hslots : s.slots = (w.mmc m).slots)
    (hup : (w.mmc m).tcp.status ≠ .failed → s.tcp.status ≠ .failed) :
    Unmoved held w { w with mmc := Function.update w.mmc m s } where
  toQuiet := .of_same rfl rfl
  slots m' := by
    by_cases hm : m' = m
    · subst hm
      simpa using hslots
    · simp [hm]
  lists := rfl
  nextReq := rfl
  req _ _ := rfl
  readsUdp _ := id
  up m' := by
    by_cases hm : m' = m
    · subst hm
      simpa using hup
    · simp [hm]

theorem of_req (w : World) {r : ReqId} {q : MmcRequest} (hr : r ∉ held)
    (hcommand : (w.req r).SameCommand q) (hq : (w.req r).ReadsUdp → q.ReadsUdp) :
    Unmoved held w { w with req := Function.update w.req r q } where
  toQuiet := .of_req w hcommand
  slots _ := rfl
  lists := rfl
  nextReq := rfl
  req r' hr' := by
    have hne : r' ≠ r := fun heq => hr (heq ▸ hr')
    simp [hne]
  readsUdp r' := by
    by_cases heq : r' = r
    · subst heq
      simpa using hq
    · simp [heq]
  up _ := id

theorem of_same (hmmc : w'.mmc = w.mmc) (hlists : w'.pool.lists = w.pool.lists)
    (hreq : w'.req = w.req) (hnext : w'.nextReq = w.nextReq) (hquiet : Quiet w w') :
    Unmoved held w w' where
  toQuiet := hquiet
  slots m := by rw [hmmc]
  lists := hlists
  nextReq := hnext
  req r _ := by rw [hreq]
  readsUdp r := by rw [hreq]; exact id
  up m := by rw [hmmc]; exact id

theorem of_pool (w : World) {p : MmcPool} (hlists : p.lists = w.pool.lists) :
    Unmoved held w { w with pool := p } := of_same rfl hlists rfl rfl (.of_same rfl rfl)

end Unmoved

theorem World.services_step {w : World} {s : Step} (h : s.service = none) :
    World.services { w with log := s :: w.log } = w.services := List.filterMap_cons_none h

namespace Undisturbed

variable {held : Set ReqId} {w w' w'' : World}

theorem refl (held : Set ReqId) (w : World) : Undisturbed held w w := ⟨.refl held w, rfl, rfl⟩

theorem trans (h : Undisturbed held w w') (h' : Undisturbed held w' w'') : Undisturbed held w w'' where
  toUnmoved := h.toUnmoved.trans h'.toUnmoved
  queues := h'.queues.trans h.queues
  services := h'.services.trans h.services

theorem of_mmc (w : World) (m : Mmc) {s : MmcServer} (hslots : s.slots = (w.mmc m).slots)
    (hup : (w.mmc m).tcp.status ≠ .failed → s.tcp.status ≠ .failed) :
    Undisturbed held w { w with mmc := Function.update w.mmc m s } :=
  ⟨.of_mmc w m hslots hup, rfl, rfl⟩

theorem of_req (w : World) {r : ReqId} {q : MmcRequest} (hr : r ∉ held)
    (hcommand : (w.req r).SameCommand q) (hq : (w.req r).ReadsUdp → q.ReadsUdp) :
    Undisturbed held w { w with req := Function.update w.req r q } :=
  ⟨.of_req w hr hcommand hq, rfl, rfl⟩

/-- A change of something that is neither about servers nor about requests. -/
theorem of_same (hmmc : w'.mmc = w.mmc) (hlists : w'.pool.lists = w.pool.lists)
    (hqueues : w'.pool.queues = w.pool.queues) (hreq : w'.req = w.req) (hnext : w'.nextReq = w.nextReq)
    (hlog : w'.log = w.log) : Undisturbed held w w' where
  toUnmoved := .of_same hmmc hlists hreq hnext (.of_same hreq hlog)
  queues := hqueues
  services := congrArg (List.filterMap Step.service) hlog

theorem of_step (w : World) {s : Step} (hs : s.Quiet) (hservice : s.service = none) :
    Undisturbed held w { w with log := s :: w.log } where
  toUnmoved := .of_same rfl rfl rfl rfl (.of_step hs rfl rfl)
  queues := rfl
  services := World.services_step hservice

end Undisturbed

theorem MmcServer.modifyIo_slots (s : MmcServer) (t : MmcProto) (f : MmcStream → MmcStream) :
    (s.modifyIo t f).slots = s.slots := by
  cases t <;> rfl

theorem MmcServer.modifyIo_up {s : MmcServer} (t : MmcProto) {f : MmcStream → MmcStream}
    (hf : ∀ io : MmcStream, io.status ≠ .failed → (f io).status ≠ .failed)
    (hs : s.tcp.status ≠ .failed) : (s.modifyIo t f).tcp.status ≠ .failed := by
  cases t with
  | tcp => exact hf _ hs
  | udp => exact hs

theorem MmcStream.serverFailure_up (io : MmcStream) (h : io.status ≠ .failed) :
    io.serverFailure.2.status ≠ .failed := by
  unfold MmcStream.serverFailure
  split
  · exact h
  · simp
  · exact h

theorem MmcPool.lists_watch (p : MmcPool) (api : SelectApi) (wfds rfds : List Nat)
    (report : SelectReport) : (p.watch api wfds rfds report).lists = p.lists := by
  cases api <;> rfl

theorem MmcPool.lists_clearReady (p : MmcPool) (api : SelectApi) (d : Direction) (fd : Nat) :
    (p.clearReady api d fd).lists = p.lists := by
  cases api <;> cases d <;> rfl

theorem MmcPool.queues_watch (p : MmcPool) (api : SelectApi) (wfds rfds : List Nat)
    (report : SelectReport) : (p.watch api wfds rfds report).queues = p.queues := by
  cases api <;> rfl

theorem MmcPool.queues_clearReady (p : MmcPool) (api : SelectApi) (d : Direction) (fd : Nat) :
    (p.clearReady api d fd).queues = p.queues := by
  cases api <;> cases d <;> rfl

/-! ## The rules -/

section Rules

variable {α β : Type}

theorem Fails.bind_left {x : PoolM α} (hx : Fails x) (f : α → PoolM β) : Fails (x >>= f) :=
  fun Q w => (wp_bind x f Q _ w).mpr (hx _ w)

theorem Fails.ite {c : Prop} [Decidable c] {x y : PoolM α} (hx : Fails x) (hy : Fails y) :
    Fails (if c then x else y) := fun Q w => wp_ite (fun _ => hx Q w) fun _ => hy Q w

theorem LeavesCommands.bind {x : PoolM α} {f : α → PoolM β} (hx : LeavesCommands x)
    (hf : ∀ a, LeavesCommands (f a)) : LeavesCommands (x >>= f) :=
  Within.bind (R := Quiet) (S := Quiet) (fun _ _ _ => Quiet.trans) (fun _ _ _ => Quiet.trans) hx hf

theorem LeavesCommands.doWhen {c : Prop} [Decidable c] {x : PoolM Unit} (hx : LeavesCommands x) :
    LeavesCommands (doWhen c x) := Within.ite hx (Within.pure Quiet.refl ())

theorem LeavesCommands.modifyMmc (m : Mmc) (f : MmcServer → MmcServer) :
    LeavesCommands (modifyMmc m f) := fun _ => (wp_modifyMmc _ _ _ _ _).mpr (.of_same rfl rfl)

theorem LeavesCommands.modifyPool (f : MmcPool → MmcPool) : LeavesCommands (modifyPool f) :=
  fun _ => (wp_modifyPool _ _ _ _).mpr (.of_same rfl rfl)

theorem LeavesCommands.getMmc (m : Mmc) : LeavesCommands (getMmc m) :=
  fun w => (wp_getMmc _ _ _ _).mpr (.refl w)

theorem LeavesCommands.step (E : Env) {s : Step} (hs : s.Quiet) : LeavesCommands (step E s) :=
  fun w => (wp_step _ _ _ _ _).mpr ⟨fun _ => .of_step hs rfl rfl, fun _ => .refl w⟩

theorem Fails.bind_right {x : PoolM α} (hx : LeavesCommands x) {f : α → PoolM β}
    (hf : ∀ a, Fails (f a)) : Fails (x >>= f) :=
  fun Q w => (wp_bind x f Q _ w).mpr
    (wp_mono (hx w) (fun a w' hq => wp_mono (hf a Q w') (fun _ _ => id) fun _ => hq.trans) fun _ => id)

/-- A program fails if it fails on all results its first part can have. -/
theorem Fails.bind_of {x : PoolM α} {f : α → PoolM β} {P : α → Prop}
    (hx : ∀ w, wp x (fun a w' => P a ∧ Quiet w w') (Quiet w) w) (hf : ∀ a, P a → Fails (f a)) :
    Fails (x >>= f) := by
  intro Q w
  rw [wp_bind]
  refine wp_mono (hx w) (fun a w' h => ?_) fun _ => id
  exact wp_mono (hf a h.1 Q w') (fun _ _ => id) fun _ => h.2.trans

theorem fails_nullPointer : Fails (nullPointer : PoolM α) :=
  fun _ w => (wp_nullPointer _ _ _).mpr (.refl w)

theorem fails_outOfFuel : Fails (outOfFuel : PoolM α) :=
  fun _ w => (wp_outOfFuel _ _ _).mpr (.refl w)

theorem fails_step {E : Env} {s : Step} (hs : ∀ w, E.allowed s w = false) : Fails (step E s) :=
  fun Q w => (wp_step _ _ _ Q w).mpr ⟨fun h => by simp [hs w] at h, fun _ => .refl w⟩

theorem Fails.calm {x : PoolM α} (hx : Fails x) (held : Set ReqId) : Calm held x :=
  fun w => hx _ w

theorem Calm.leavesCommands {held : Set ReqId} {x : PoolM α} (hx : Calm held x) : LeavesCommands x :=
  fun w => wp_mono (hx w) (fun _ _ h => h.toQuiet) fun _ => id

namespace Calm

variable {held : Set ReqId}

theorem pure (a : α) : Calm held (Pure.pure a : PoolM α) := Within.pure (Undisturbed.refl held) a

theorem bind {x : PoolM α} {f : α → PoolM β} (hx : Calm held x) (hf : ∀ a, Calm held (f a)) :
    Calm held (x >>= f) :=
  Within.bind (R := Undisturbed held) (S := Quiet) (fun _ _ _ => Undisturbed.trans)
    (fun _ _ _ h => h.toQuiet.trans) hx hf

theorem ite {c : Prop} [Decidable c] {x y : PoolM α} (hx : Calm held x) (hy : Calm held y) :
    Calm held (if c then x else y) := Within.ite hx hy

theorem doWhen {c : Prop} [Decidable c] {x : PoolM Unit} (hx : Calm held x) :
    Calm held (doWhen c x) := Within.ite hx (pure ())

theorem ask (answer : Nat → α) : Calm held (ask answer) :=
  fun _ => (wp_ask _ _ _ _).mpr (Undisturbed.of_same rfl rfl rfl rfl rfl rfl)

theorem step (E : Env) {s : Step} (hs : s.Quiet) (hservice : s.service = none) :
    Calm held (step E s) :=
  fun w => (wp_step _ _ _ _ _).mpr ⟨fun _ => .of_step w hs hservice, fun _ => .refl w⟩

theorem getPool : Calm held getPool := fun w => (wp_getPool _ _ _).mpr (Undisturbed.refl held w)

theorem modifyPool {f : MmcPool → MmcPool} (hf : ∀ p, (f p).lists = p.lists)
    (hqueues : ∀ p, (f p).queues = p.queues) : Calm held (modifyPool f) :=
  fun _ => (wp_modifyPool _ _ _ _).mpr (.of_same rfl (hf _) (hqueues _) rfl rfl rfl)

theorem getMmc (m : Mmc) : Calm held (getMmc m) :=
  fun w => (wp_getMmc _ _ _ _).mpr (Undisturbed.refl held w)

theorem modifyMmc {m : Mmc} {f : MmcServer → MmcServer} (hslots : ∀ s, (f s).slots = s.slots)
    (hup : ∀ s, s.tcp.status ≠ .failed → (f s).tcp.status ≠ .failed) :
    Calm held (modifyMmc m f) :=
  fun w => (wp_modifyMmc _ _ _ _ _).mpr (Undisturbed.of_mmc w m (hslots _) (hup _))

theorem modifyIo {m : Mmc} {t : MmcProto} {f : MmcStream → MmcStream}
    (hf : ∀ io : MmcStream, io.status ≠ .failed → (f io).status ≠ .failed) :
    Calm held (PeclMemcache.modifyMmc m fun s => s.modifyIo t f) :=
  modifyMmc (fun s => s.modifyIo_slots t f) fun _ => MmcServer.modifyIo_up t hf

theorem getReq (r : ReqId) : Calm held (getReq r) :=
  fun w => (wp_getReq _ _ _ _).mpr (Undisturbed.refl held w)

theorem modifyReq {r : ReqId} {f : MmcRequest → MmcRequest} (hr : r ∉ held)
    (hcommand : ∀ q : MmcRequest, q.SameCommand (f q)) (hf : ∀ q, q.ReadsUdp → (f q).ReadsUdp) :
    Calm held (modifyReq r f) :=
  fun w => (wp_modifyReq _ _ _ _ _).mpr (Undisturbed.of_req w hr (hcommand _) (hf _))

theorem getCall (c : Nat) : Calm held (getCall c) :=
  fun w => (wp_getCall _ _ _ _).mpr (Undisturbed.refl held w)

theorem modifyCall (c : Nat) (f : ApiCall → ApiCall) : Calm held (modifyCall c f) :=
  fun _ => (wp_modifyCall _ _ _ _ _).mpr (Undisturbed.of_same rfl rfl rfl rfl rfl rfl)

theorem setInTimeout (b : Bool) : Calm held (setInTimeout b) :=
  fun _ => (wp_setInTimeout _ _ _ _).mpr (Undisturbed.of_same rfl rfl rfl rfl rfl rfl)

theorem getInTimeout : Calm held getInTimeout :=
  fun w => (wp_getInTimeout _ _ _).mpr (Undisturbed.refl held w)

end Calm

theorem Fails.getMmc (m : Mmc) {f : MmcServer → PoolM β} (hf : ∀ s, Fails (f s)) :
    Fails (PeclMemcache.getMmc m >>= f) := Fails.bind_right (LeavesCommands.getMmc m) hf

end Rules

/-! ## Functions that disturb nothing -/

section Functions

variable {E : Env} (held : Set ReqId)

theorem calm_ioOf (r : ReqId) : Calm held (ioOf r) := by
  refine (Calm.getReq r).bind fun q => ?_
  cases q.io with
  | none => exact fails_nullPointer.calm held
  | some io => exact Calm.pure io

theorem calm_fdOf (r : ReqId) : Calm held (fdOf r) :=
  (calm_ioOf held r).bind fun io => (Calm.getMmc io.1).bind fun _ => Calm.pure _

theorem calm_mmcServerSeterror (m : Mmc) (error : String) (errnum : Int) :
    Calm held (mmcServerSeterror m error errnum) := Calm.modifyMmc (fun _ => rfl) fun _ => id

theorem calm_mmcServerFailure (m : Mmc) (io : Mmc × MmcProto) (error : String) (errnum : Int) :
    Calm held (mmcServerFailure m io error errnum) := by
  intro w
  -- the stream written is the one read just before
  unfold mmcServerFailure
  rw [wp_bind, wp_getMmc]
  dsimp only
  rw [wp_bind, wp_modifyMmc]
  have hio : Undisturbed held w { w with
      mmc := Function.update w.mmc io.1
        ((w.mmc io.1).modifyIo io.2 fun _ => ((w.mmc io.1).io io.2).serverFailure.2) } := by
    refine Undisturbed.of_mmc w io.1 (MmcServer.modifyIo_slots _ _ _) fun hup => ?_
    cases hio : io.2 with
    | tcp => exact MmcStream.serverFailure_up _ hup
    | udp => exact hup
  have hrest : Calm held (do
      doWhen (((w.mmc io.1).io io.2).serverFailure.1 = .failure) (mmcServerSeterror m error errnum)
      return ((w.mmc io.1).io io.2).serverFailure.1) :=
    (Calm.doWhen (calm_mmcServerSeterror held m error errnum)).bind fun _ => Calm.pure _
  exact wp_mono (hrest _) (fun _ _ => hio.trans) fun _ => hio.toQuiet.trans

theorem calm_mmcServerValid (m : Mmc) : Calm held (mmcServerValid E m) := by
  refine (Calm.getMmc m).bind fun s => Calm.ite (Calm.pure _) (Calm.ite (Calm.pure _) ?_)
  exact (Calm.ask E.time).bind fun _ => Calm.pure _

theorem calm_findValidFrom (key : Bytes) (fuel i : Nat) : Calm held (findValidFrom E key fuel i) := by
  induction fuel generalizing i with
  | zero => exact Calm.getPool.bind fun p => (calm_mmcServerValid held _).bind fun _ => Calm.pure _
  | succ fuel ih =>
    exact Calm.getPool.bind fun p => (calm_mmcServerValid held _).bind fun _ =>
      Calm.ite (ih _) (Calm.pure _)

theorem calm_mmcPoolFind (key : Bytes) : Calm held (mmcPoolFind E key) :=
  Calm.getPool.bind fun _ => (calm_mmcServerValid held _).bind fun _ =>
    Calm.ite (calm_findValidFrom held key _ _) (Calm.pure _)

/-! ### Descriptors -/

theorem calm_slotFds (d : Direction) (ms : List Mmc) : Calm held (slotFds d ms) := by
  induction ms with
  | nil => exact Calm.pure _
  | cons m rest ih =>
    refine (Calm.getMmc m).bind fun s => ?_
    cases s.slot d with
    | none => exact fails_nullPointer.calm held
    | some r => exact (calm_fdOf held r).bind fun _ => ih.bind fun _ => Calm.pure _

theorem calm_waitReady (api : SelectApi) (b : Bool) : Calm held (waitReady E api b) :=
  Calm.getPool.bind fun _ => (calm_slotFds held _ _).bind fun _ => (calm_slotFds held _ _).bind fun _ =>
    (Calm.ask E.select).bind fun _ => (Calm.modifyPool (fun p => p.lists_watch _ _ _ _) fun p => p.queues_watch _ _ _ _).bind fun _ =>
      Calm.pure _

theorem calm_timedOut (api : SelectApi) (d : Direction) (m : Mmc) : Calm held (timedOut api d m) := by
  cases api with
  | poll => exact Calm.pure _
  | select =>
    refine (Calm.getMmc m).bind fun s => ?_
    cases s.slot d with
    | none => exact fails_nullPointer.calm held
    | some r => exact (calm_fdOf held r).bind fun _ => Calm.getPool.bind fun _ => Calm.pure _

/-! ### Sending and reading -/

variable {held} {r : ReqId} (hr : r ∉ held)

include hr

theorem calm_mmcRequestSend (m : Mmc) : Calm held (mmcRequestSend E m r) := by
  refine (calm_ioOf held r).bind fun io => (Calm.getMmc io.1).bind fun s => ?_
  cases (s.io io.2).stream with
  | none => exact fails_nullPointer.calm held
  | some c =>
    refine (Calm.ask E.send).bind fun outcome => ?_
    cases outcome with
    | bytes n =>
      refine (Calm.getReq r).bind fun q => Calm.bind (Calm.step E trivial rfl) fun _ => ?_
      exact Calm.bind (Calm.modifyReq hr (fun _ => .of_value rfl rfl) fun _ h => h) fun _ =>
        Calm.ite (Calm.pure _) (Calm.pure _)
    | eagain => exact Calm.pure _
    | error errnum => exact calm_mmcServerFailure held m io _ _

/-- The response of a request is parsed: it is served at the server, and nothing else is disturbed. -/
structure Parsed (held : Set ReqId) (m : Mmc) (r : ReqId) (result : MmcResult) (w w' : World) : Prop
    extends Unmoved held w w' where
  queues : w'.pool.queues = w.pool.queues
  services : w'.services = .serve m r (result = .done) :: w.services

theorem parseReadreq_parsed (m : Mmc) (w : World) :
    wp (parseReadreq E m r) (fun result w' => Parsed held m r result w w') (Quiet w) w := by
  rw [parseReadreq, wp_bind]
  refine wp_mono (calm_ioOf held r w) (fun io w₁ h₁ => ?_) fun _ => id
  rw [wp_bind, wp_getMmc]
  cases ((w₁.mmc io.1).io io.2).stream with
  | none => exact (wp_nullPointer _ _ _).mpr h₁.toQuiet
  | some c =>
    dsimp only
    rw [wp_bind, wp_ask, wp_bind, wp_getMmc, wp_bind, wp_step]
    refine ⟨fun _ => ?_, fun _ => h₁.toQuiet.trans (.of_same rfl rfl)⟩
    -- The parse is recorded; what comes after it is calm.
    have hquiet (result : MmcResult) (n : Nat) :
        Quiet w₁ { w₁ with tick := w₁.tick + 1, log := .parse m r c n result :: w₁.log } :=
      .of_step (s := .parse m r c n result) trivial rfl rfl
    refine wp_mono (wp_and ((?_ : Calm held _) _) (wp_bind_last fun _ _ => wp_bind_last fun _ _ =>
      wp_bind_last fun _ _ => wp_bind_last fun _ _ => wp_bind_last fun _ _ => (wp_pure _ (fun result _ =>
        result = _) _ _).mpr rfl)) (fun result w' h' => ?_) fun w' h' =>
      (h₁.toQuiet.trans (hquiet _ _)).trans h'.1
    · refine Calm.bind (Calm.modifyIo fun _ h => h) fun _ => ?_
      refine Calm.bind (Calm.modifyReq hr (fun _ => .of_value rfl rfl) fun _ h => h) fun _ => ?_
      refine (Calm.getReq r).bind fun q => (Calm.modifyCall _ _).bind fun _ => (Calm.doWhen ?_).bind fun _ =>
        Calm.pure _
      exact (calm_mmcServerFailure held m io _ _).bind fun _ => Calm.pure _
    · have hrecorded (result : MmcResult) (n : Nat) :
          Unmoved held w₁ { w₁ with tick := w₁.tick + 1, log := .parse m r c n result :: w₁.log } :=
        .of_same rfl rfl rfl rfl (hquiet result n)
      obtain ⟨h', rfl⟩ := h'
      refine ⟨(h₁.toUnmoved.trans (hrecorded _ _)).trans h'.toUnmoved, h'.queues.trans h₁.queues, ?_⟩
      rw [h'.services, ← h₁.services]
      rfl

/-- A datagram out of order marks the stream of the request as failed, which is not the stream that
    decides whether the server is valid. -/
theorem calm_fillBuffer (m : Mmc) {w : World} (hread : (w.req r).ReadsUdp) :
    wp (fillBuffer E m r) (fun _ w' => Undisturbed held w w') (Quiet w) w := by
  rw [fillBuffer, wp_bind, wp_getReq]
  refine wp_ite (fun h => ?_) fun _ => (wp_pure _ _ _ _).mpr (Undisturbed.refl held w)
  obtain ⟨m', hio⟩ := hread h
  rw [mmcRequestReadUdp, ioOf]
  simp only [wp_bind, wp_getReq, hio, wp_pure, wp_getMmc]
  refine (?_ : Calm held _) w
  cases ((w.mmc m').io .udp).stream with
  | none => exact fails_nullPointer.calm held
  | some c =>
    have hudp {f : MmcStream → MmcStream} :
        Calm held (modifyMmc m' fun s => s.modifyIo .udp f) := Calm.modifyMmc (fun _ => rfl) fun _ => id
    have hfailure (error : String) := calm_mmcServerFailure held m (m', .udp) error 0
    refine hudp.bind fun _ => (Calm.ask E.recv).bind fun datagram => ?_
    refine Calm.ite (hfailure _) (Calm.ite (hfailure _) ?_)
    refine Calm.bind (Calm.modifyReq hr (fun q => ?_) fun q hq => ?_) fun _ =>
      (Calm.getReq r).bind fun q => ?_
    · split
      · exact .of_value rfl rfl
      · exact .refl q
    · split
      · exact hq
      · exact hq
    refine Calm.ite ?_ ?_
    · exact (Calm.ask E.time).bind fun _ => hudp.bind fun _ => Calm.ite (Calm.pure _) (Calm.pure _)
    · exact Calm.bind (Calm.modifyReq hr (fun _ => .of_value rfl rfl) fun _ h => h) fun _ =>
        hudp.bind fun _ => Calm.pure _

end Functions

/-! ## Functions that run into a failure -/

section Failures

variable {E : Env} (hE : NoFailures E)

include hE

theorem fails_failoverHandler (fuel depth : Nat) (m : Mmc) (r : ReqId) :
    Fails (failoverHandler E fuel depth m r) := by
  cases depth with
  | zero => exact fails_outOfFuel
  | succ depth => exact (fails_step fun w => hE.failover m r w).bind_left _

variable {fh : Failover}

theorem fails_mmcServerDeactivate (m : Mmc) : Fails (mmcServerDeactivate E fh m) :=
  ((fails_step fun w => hE.deactivate m w).bind_left _).bind_left _

/-- A timeout either ends in a failure or asks for a retry. -/
theorem mmcSelectFailure_retry (m : Mmc) (request : Option ReqId) (result : Int) (w : World) :
    wp (mmcSelectFailure E fh m request result) (fun outcome w' => outcome = .retry ∧ Quiet w w')
      (Quiet w) w := by
  have hdeactivate (x : PoolM MmcResult) : Fails (do mmcServerDeactivate E fh m; x) :=
    (fails_mmcServerDeactivate hE m).bind_left fun _ => x
  unfold mmcSelectFailure
  refine wp_ite (fun _ => ?_) fun _ => ?_
  · cases request with
    | none => exact fails_nullPointer _ w
    | some r =>
      refine (wp_bind _ _ _ _ _).mpr (wp_mono (calm_ioOf ∅ r w) (fun io w₁ h₁ => ?_) fun _ => id)
      refine (wp_bind _ _ _ _ _).mpr (wp_mono (calm_mmcServerFailure ∅ m io _ _ w₁)
        (fun outcome w₂ h₂ => ?_) fun _ => h₁.toQuiet.trans)
      have hq : Quiet w w₂ := h₁.toQuiet.trans h₂.toQuiet
      refine wp_ite (fun _ => (wp_pure _ _ _ _).mpr ⟨rfl, hq⟩) fun _ => ?_
      exact wp_mono (hdeactivate _ _ w₂) (fun _ _ => id) fun _ => hq.trans
  · refine (wp_bind _ _ _ _ _).mpr ?_
    refine wp_mono (calm_mmcServerSeterror ∅ m _ _ w) (fun _ w₁ h₁ => ?_) fun _ => id
    exact wp_mono (hdeactivate _ _ w₁) (fun _ _ => id) fun _ => h₁.toQuiet.trans

theorem calm_mmcServerConnect (held : Set ReqId) (m : Mmc) (t : MmcProto) (cause : Option ReqId) :
    Calm held (mmcServerConnect E fh m t cause) := by
  refine (Calm.getMmc m).bind fun s => ?_
  refine Calm.bind (Calm.doWhen (Calm.modifyIo fun io _ => ?_)) fun _ => (Calm.ask _).bind fun c => ?_
  · simp [MmcStream.disconnect]
  rcases c with ⟨c, _ | fd⟩
  · exact Calm.bind (Calm.step E trivial rfl) fun _ => (calm_mmcServerSeterror held m _ _).bind fun _ =>
      ((fails_mmcServerDeactivate hE m).bind_left _).calm held
  · refine Calm.bind (Calm.step E trivial rfl) fun _ => Calm.bind (Calm.modifyMmc (fun s => ?_) fun s h => ?_) fun _ =>
      Calm.pure _
    · exact MmcServer.modifyIo_slots s t _
    · exact MmcServer.modifyIo_up t (fun io _ => by simp [MmcStream.opened]) h

theorem calm_mmcPoolOpen (held : Set ReqId) (m : Mmc) (t : MmcProto) (cause : Option ReqId) :
    Calm held (mmcPoolOpen E fh m t cause) := by
  refine (Calm.getMmc m).bind fun s => ?_
  cases (s.io t).status with
  | connected => exact Calm.pure _
  | unknown => exact Calm.pure _
  | disconnected => exact calm_mmcServerConnect hE held m t cause
  | failed => exact calm_mmcServerConnect hE held m t cause

/-- A stream that cannot be opened is a failure. -/
theorem mmcServerConnect_ok (m : Mmc) (t : MmcProto) (cause : Option ReqId) (w : World) :
    wp (mmcServerConnect E fh m t cause) (fun opened _ => opened = .ok) (fun _ => True) w := by
  simp only [mmcServerConnect, wp_bind, wp_getMmc]
  have hdrop : Calm ∅ (modifyMmc m fun s => s.modifyIo t MmcStream.disconnect) :=
    Calm.modifyIo fun io _ => by simp [MmcStream.disconnect]
  refine wp_mono (hdrop.doWhen w) (fun _ w₁ _ => ?_) fun _ _ => trivial
  rw [wp_ask]
  rcases E.connect w₁.tick with _ | fd
  · refine (wp_bind _ _ _ _ _).mpr ((wp_step _ _ _ _ _).mpr ⟨fun _ => ?_, fun _ => trivial⟩)
    refine wp_mono (Fails.bind_right (calm_mmcServerSeterror ∅ m _ _).leavesCommands
      (fun _ => (fails_mmcServerDeactivate hE m).bind_left _) _ _) (fun _ _ => id) fun _ _ => trivial
  · simp only [wp_bind, wp_step, wp_modifyMmc, wp_pure]
    exact ⟨fun _ => trivial, fun _ => trivial⟩

theorem mmcPoolOpen_ok (m : Mmc) (t : MmcProto) (cause : Option ReqId) (w : World) :
    wp (mmcPoolOpen E fh m t cause) (fun opened _ => opened = .ok) (fun _ => True) w := by
  rw [mmcPoolOpen, wp_bind, wp_getMmc]
  cases ((w.mmc m).io t).status with
  | connected => exact (wp_pure _ _ _ _).mpr rfl
  | unknown => exact (wp_pure _ _ _ _).mpr rfl
  | disconnected => exact mmcServerConnect_ok hE m t cause w
  | failed => exact mmcServerConnect_ok hE m t cause w

end Failures

end PeclMemcache
