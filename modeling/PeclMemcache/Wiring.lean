import PeclMemcache.InHand
import PeclMemcache.Distribution

set_option autoImplicit false

/-! # The streams behind requests

A request that is sent or answered points to a stream of its server. While no server fails the stream is
there, so no part of a round follows a `NULL` pointer on its way to it: here function by function, up to
the send slot of a server. -/

namespace PeclMemcache

open Stateful

/-! ## Streams -/

/-- A stream whose status says that it is connected, or may be, is there. -/
def MmcStream.Live (io : MmcStream) : Prop :=
  io.status = .connected ∨ io.status = .unknown → io.stream ≠ none

/-- A stream that was there is there, and its status says nothing new. -/
structure MmcStream.StaysOpen (io io' : MmcStream) : Prop where
  stream : io.stream ≠ none → io'.stream ≠ none
  live : io.Live → io'.Live

/-- No request is moved to another stream, and no stream is lost. -/
structure SameWiring (w w' : World) : Prop where
  io : ∀ r, (w'.req r).io = (w.req r).io
  streams : ∀ m t, ((w.mmc m).io t).StaysOpen ((w'.mmc m).io t)

theorem MmcStream.StaysOpen.rfl {io : MmcStream} : io.StaysOpen io := ⟨id, id⟩

theorem MmcStream.StaysOpen.of_stream {io io' : MmcStream} (h : io'.stream ≠ none) : io.StaysOpen io' :=
  ⟨fun _ => h, fun _ _ => h⟩

theorem MmcStream.StaysOpen.of_eq {io io' : MmcStream} (hstream : io'.stream = io.stream)
    (hstatus : io'.status = io.status) : io.StaysOpen io' where
  stream h := hstream ▸ h
  live h hlive := hstream ▸ h (hstatus ▸ hlive)

/-- The stream is no longer said to be connected. -/
theorem MmcStream.StaysOpen.of_status {io io' : MmcStream} (hstream : io'.stream = io.stream)
    (hconnected : io'.status ≠ .connected) (hunknown : io'.status ≠ .unknown) : io.StaysOpen io' where
  stream h := hstream ▸ h
  live _ hlive := absurd hlive (not_or.mpr ⟨hconnected, hunknown⟩)

theorem MmcStream.StaysOpen.trans {io io' io'' : MmcStream} (h : io.StaysOpen io')
    (h' : io'.StaysOpen io'') : io.StaysOpen io'' :=
  ⟨fun hio => h'.stream (h.stream hio), fun hio => h'.live (h.live hio)⟩

theorem MmcStream.staysOpen_serverFailure (io : MmcStream) : io.StaysOpen io.serverFailure.2 := by
  unfold MmcStream.serverFailure
  split
  · exact .rfl
  · exact .of_status rfl (by simp) (by simp)
  · exact .rfl

theorem MmcServer.staysOpen_modifyIo {s : MmcServer} {t : MmcProto} {f : MmcStream → MmcStream}
    (hf : (s.io t).StaysOpen (f (s.io t))) (t' : MmcProto) :
    (s.io t').StaysOpen ((s.modifyIo t f).io t') := by
  cases t with
  | tcp =>
    cases t' with
    | tcp => exact hf
    | udp => exact .rfl
  | udp =>
    cases t' with
    | tcp => exact .rfl
    | udp => exact hf

theorem MmcServer.io_modifyIo_of_ne {s : MmcServer} {t t' : MmcProto} (h : t' ≠ t)
    (f : MmcStream → MmcStream) : (s.modifyIo t f).io t' = s.io t' := by
  cases t with
  | tcp =>
    cases t' with
    | tcp => exact absurd rfl h
    | udp => rfl
  | udp =>
    cases t' with
    | tcp => rfl
    | udp => exact absurd rfl h

namespace SameWiring

variable {w w' w'' : World}

theorem refl (w : World) : SameWiring w w := ⟨fun _ => rfl, fun _ _ => .rfl⟩

theorem trans (h : SameWiring w w') (h' : SameWiring w' w'') : SameWiring w w'' where
  io r := (h'.io r).trans (h.io r)
  streams m t := (h.streams m t).trans (h'.streams m t)

theorem of_same (hmmc : w'.mmc = w.mmc) (hreq : w'.req = w.req) : SameWiring w w' where
  io r := by rw [hreq]
  streams m t := hmmc ▸ .rfl

theorem of_req (w : World) {r : ReqId} {q : MmcRequest} (hq : q.io = (w.req r).io) :
    SameWiring w { w with req := Function.update w.req r q } where
  io r' := by
    by_cases heq : r' = r
    · subst heq
      simpa using hq
    · simp [heq]
  streams _ _ := .rfl

theorem of_update {m : Mmc} {s : MmcServer} (hreq : w'.req = w.req)
    (hmmc : w'.mmc = Function.update w.mmc m s) (hs : ∀ t, ((w.mmc m).io t).StaysOpen (s.io t)) :
    SameWiring w w' where
  io r := by rw [hreq]
  streams m' t := by
    rw [hmmc]
    by_cases hm : m' = m
    · subst hm
      simpa using hs t
    · simpa [hm] using MmcStream.StaysOpen.rfl

theorem of_mmc (w : World) {m : Mmc} {s : MmcServer} (hs : ∀ t, ((w.mmc m).io t).StaysOpen (s.io t)) :
    SameWiring w { w with mmc := Function.update w.mmc m s } := of_update rfl rfl hs

end SameWiring

/-! ## Programs that follow no `NULL` pointer -/

/-- The error is not that a `NULL` pointer was followed. -/
abbrev NotNull (e : Fault) : Prop := e ≠ .nullPointer

/-- A program that follows no `NULL` pointer and leaves all streams to their requests. -/
def Steady {α : Type} (x : PoolM α) : Prop := Leads NotNull SameWiring x

/-- A program that follows no `NULL` pointer. -/
def Safe {α : Type} (x : PoolM α) : Prop := Leads NotNull (fun _ _ => True) x

/-- A program that does not end with a result, and follows no `NULL` pointer until it stops. -/
def Halts {α : Type} (x : PoolM α) : Prop := ∀ Q w, Ends NotNull x Q w

section Rules

variable {α β : Type}

namespace Steady

theorem pure (a : α) : Steady (Pure.pure a : PoolM α) := Leads.pure SameWiring.refl a

theorem bind {x : PoolM α} {f : α → PoolM β} (hx : Steady x) (hf : ∀ a, Steady (f a)) :
    Steady (x >>= f) := Leads.bind (R := SameWiring) (fun _ _ _ => SameWiring.trans) hx hf

theorem ite {c : Prop} [Decidable c] {x y : PoolM α} (hx : Steady x) (hy : Steady y) :
    Steady (if c then x else y) := Leads.ite hx hy

theorem doWhen {c : Prop} [Decidable c] {x : PoolM Unit} (hx : Steady x) : Steady (doWhen c x) :=
  Leads.ite hx (pure ())

theorem ask (answer : Nat → α) : Steady (ask answer) :=
  fun _ => (ends_ask _ _ _).mpr (.of_same rfl rfl)

theorem step (E : Env) (s : Step) : Steady (step E s) :=
  fun _ => (ends_step _ _ _ _).mpr ⟨fun _ => .of_same rfl rfl, fun _ => by simp⟩

theorem getPool : Steady getPool := fun w => (ends_getPool _ _).mpr (.refl w)

theorem modifyPool (f : MmcPool → MmcPool) : Steady (modifyPool f) :=
  fun _ => (ends_modifyPool _ _ _).mpr (.of_same rfl rfl)

theorem getMmc (m : Mmc) : Steady (getMmc m) := fun w => (ends_getMmc _ _ _).mpr (.refl w)

theorem modifyMmc {m : Mmc} {f : MmcServer → MmcServer}
    (hf : ∀ s : MmcServer, ∀ t, (s.io t).StaysOpen ((f s).io t)) : Steady (modifyMmc m f) :=
  fun w => (ends_modifyMmc _ _ _ _).mpr (.of_mmc w (hf _))

theorem modifyIo {m : Mmc} {t : MmcProto} {f : MmcStream → MmcStream}
    (hf : ∀ io : MmcStream, io.StaysOpen (f io)) :
    Steady (PeclMemcache.modifyMmc m fun s => s.modifyIo t f) :=
  modifyMmc fun _ => MmcServer.staysOpen_modifyIo (hf _)

theorem getReq (r : ReqId) : Steady (getReq r) := fun w => (ends_getReq _ _ _).mpr (.refl w)

theorem modifyReq {r : ReqId} {f : MmcRequest → MmcRequest} (hf : ∀ q, (f q).io = q.io) :
    Steady (modifyReq r f) := fun w => (ends_modifyReq _ _ _ _).mpr (.of_req w (hf _))

theorem modifyCall (c : Nat) (f : ApiCall → ApiCall) : Steady (modifyCall c f) := fun w => by
  have hok : PeclMemcache.modifyCall c f w =
    (.ok (), { w with call := Function.update w.call c (f (w.call c)) }) := rfl
  exact (ends_of_ok hok _).mpr (.of_same rfl rfl)

end Steady

theorem ends_setInTimeout {F : Fault → Prop} (b : Bool) (Q : Unit → World → Prop) (w : World) :
    Ends F (setInTimeout b) Q w ↔ Q () { w with inTimeout := b } := ends_of_ok rfl Q

theorem ends_getInTimeout {F : Fault → Prop} (Q : Bool → World → Prop) (w : World) :
    Ends F getInTimeout Q w ↔ Q w.inTimeout w := ends_of_ok rfl Q

theorem Halts.bind_left {x : PoolM α} (hx : Halts x) (f : α → PoolM β) : Halts (x >>= f) :=
  fun Q w => (ends_bind x f Q w).mpr (hx _ w)

theorem halts_outOfFuel : Halts (outOfFuel : PoolM α) :=
  fun _ _ => (ends_outOfFuel _ _).mpr (by simp)

theorem halts_step {E : Env} {s : Step} (hs : ∀ w, E.allowed s w = false) : Halts (step E s) :=
  fun Q w => (ends_step _ _ Q w).mpr ⟨fun h => by simp [hs w] at h, fun _ => by simp⟩

theorem Steady.safe {x : PoolM α} (hx : Steady x) : Safe x :=
  fun w => ends_mono (hx w) fun _ _ _ => trivial

theorem Safe.bind {x : PoolM α} {f : α → PoolM β} (hx : Safe x) (hf : ∀ a, Safe (f a)) :
    Safe (x >>= f) := Leads.bind (fun _ _ _ _ _ => trivial) hx hf

theorem Safe.doWhen {c : Prop} [Decidable c] {x : PoolM Unit} (hx : Safe x) : Safe (doWhen c x) :=
  Leads.ite hx (Steady.pure ()).safe

/-- What comes after a program that follows no `NULL` pointer may stop. -/
theorem Safe.halts {x : PoolM α} {f : α → PoolM β} (hx : Safe x) (hf : ∀ a, Halts (f a)) :
    Halts (x >>= f) := fun Q w =>
  (ends_bind x f Q w).mpr (ends_mono (hx w) fun a w' _ => hf a Q w')

end Rules

/-! ## Functions that do not follow pointers -/

section Functions

variable {E : Env}

theorem steady_mmcServerSeterror (m : Mmc) (error : String) (errnum : Int) :
    Steady (mmcServerSeterror m error errnum) :=
  Steady.modifyMmc fun s t => by cases t <;> exact .rfl

theorem steady_mmcServerFailure (m : Mmc) (io : Mmc × MmcProto) (error : String) (errnum : Int) :
    Steady (mmcServerFailure m io error errnum) := by
  intro w
  -- the stream written is the one read just before
  rw [mmcServerFailure, ends_bind, ends_getMmc]
  dsimp only
  rw [ends_bind, ends_modifyMmc]
  have hio : SameWiring w { w with
      mmc := Function.update w.mmc io.1
        ((w.mmc io.1).modifyIo io.2 fun _ => ((w.mmc io.1).io io.2).serverFailure.2) } :=
    .of_mmc w (MmcServer.staysOpen_modifyIo (MmcStream.staysOpen_serverFailure _))
  have hrest : Steady (do
      doWhen (((w.mmc io.1).io io.2).serverFailure.1 = .failure) (mmcServerSeterror m error errnum)
      return ((w.mmc io.1).io io.2).serverFailure.1) :=
    (steady_mmcServerSeterror m error errnum).doWhen.bind fun _ => Steady.pure _
  exact ends_mono (hrest _) fun _ _ => hio.trans

theorem steady_mmcServerValid (m : Mmc) : Steady (mmcServerValid E m) :=
  (Steady.getMmc m).bind fun _ => Steady.ite (Steady.pure _)
    (Steady.ite (Steady.pure _) ((Steady.ask E.time).bind fun _ => Steady.pure _))

theorem steady_findValidFrom (key : Bytes) (fuel i : Nat) : Steady (findValidFrom E key fuel i) := by
  induction fuel generalizing i with
  | zero => exact Steady.getPool.bind fun _ => (steady_mmcServerValid _).bind fun _ => Steady.pure _
  | succ fuel ih =>
    exact Steady.getPool.bind fun _ => (steady_mmcServerValid _).bind fun _ =>
      Steady.ite (ih _) (Steady.pure _)

theorem steady_mmcPoolFind (key : Bytes) : Steady (mmcPoolFind E key) :=
  Steady.getPool.bind fun _ => (steady_mmcServerValid _).bind fun _ =>
    Steady.ite (steady_findValidFrom key _ _) (Steady.pure _)

/-! ### Functions that hand requests out -/

/-- Nothing is sent or answered, and no server is queued for a round; a server may get another request to
    build. -/
structure SameLines (w w' : World) : Prop where
  mmc : ∀ m, ∃ build, w'.mmc m = { w.mmc m with buildreq := build }
  queues : w'.pool.queues = w.pool.queues

namespace SameLines

variable {w w' w'' : World}

theorem of_same (hmmc : w'.mmc = w.mmc) (hqueues : w'.pool.queues = w.pool.queues) : SameLines w w' :=
  ⟨fun m => ⟨(w.mmc m).buildreq, by rw [hmmc]⟩, hqueues⟩

theorem refl (w : World) : SameLines w w := .of_same rfl rfl

theorem trans (h : SameLines w w') (h' : SameLines w' w'') : SameLines w w'' where
  mmc m := by
    obtain ⟨build, hm⟩ := h.mmc m
    obtain ⟨build', hm'⟩ := h'.mmc m
    exact ⟨build', by rw [hm', hm]⟩
  queues := h'.queues.trans h.queues

theorem of_build (m : Mmc) (build : Option ReqId)
    (hmmc : w'.mmc = Function.update w.mmc m { w.mmc m with buildreq := build })
    (hqueues : w'.pool.queues = w.pool.queues) : SameLines w w' where
  mmc m' := by
    rw [hmmc]
    by_cases hm : m' = m
    · exact ⟨build, by rw [hm, Function.update_self]⟩
    · exact ⟨(w.mmc m').buildreq, by rw [Function.update_of_ne hm]⟩
  queues := hqueues

end SameLines

/-- A program that follows no `NULL` pointer and leaves the lines of the servers alone. -/
def LeavesLines {α : Type} (x : PoolM α) : Prop := Leads NotNull SameLines x

namespace LeavesLines

variable {α β : Type}

theorem pure (a : α) : LeavesLines (Pure.pure a : PoolM α) := Leads.pure SameLines.refl a

theorem bind {x : PoolM α} {f : α → PoolM β} (hx : LeavesLines x) (hf : ∀ a, LeavesLines (f a)) :
    LeavesLines (x >>= f) := Leads.bind (R := SameLines) (fun _ _ _ => SameLines.trans) hx hf

theorem step (E : Env) (s : Step) : LeavesLines (step E s) :=
  fun _ => (ends_step _ _ _ _).mpr ⟨fun _ => .of_same rfl rfl, fun _ => by simp⟩

theorem getPool : LeavesLines getPool := fun w => (ends_getPool _ _).mpr (.refl w)

theorem modifyPool {f : MmcPool → MmcPool} (hf : ∀ p, (f p).queues = p.queues) : LeavesLines (modifyPool f) :=
  fun _ => (ends_modifyPool _ _ _).mpr (.of_same rfl (hf _))

theorem getReq (r : ReqId) : LeavesLines (getReq r) := fun w => (ends_getReq _ _ _).mpr (.refl w)

theorem modifyReq (r : ReqId) (f : MmcRequest → MmcRequest) : LeavesLines (modifyReq r f) :=
  fun _ => (ends_modifyReq _ _ _ _).mpr (.of_same rfl rfl)

end LeavesLines

theorem leavesLines_popFreeRequest : LeavesLines popFreeRequest := by
  have hnew : LeavesLines newRequest := fun w => (ends_newRequest _ _).mpr (.of_same rfl rfl)
  refine LeavesLines.getPool.bind fun p => ?_
  rcases p.freeRequests with _ | ⟨_ | r, rest⟩
  · exact hnew
  · exact LeavesLines.bind (LeavesLines.modifyPool fun _ => rfl) fun _ => hnew
  · exact LeavesLines.bind (LeavesLines.modifyPool fun _ => rfl) fun _ => (LeavesLines.modifyReq r _).bind
      fun _ => LeavesLines.pure r

theorem leavesLines_mmcPoolRequestAlloc (protocol : MmcProto) (failover : FailoverHandler) :
    LeavesLines (mmcPoolRequestAlloc E protocol failover) :=
  leavesLines_popFreeRequest.bind fun r => (LeavesLines.step E _).bind fun _ =>
    (LeavesLines.modifyReq r _).bind fun _ => LeavesLines.pure r

theorem leavesLines_mmcPoolRequest (protocol : MmcProto) (responseHandler : ResponseHandler) (call : Nat)
    (failover : FailoverHandler) : LeavesLines (mmcPoolRequest E protocol responseHandler call failover) :=
  (leavesLines_mmcPoolRequestAlloc protocol failover).bind fun r => (LeavesLines.modifyReq r _).bind fun _ =>
    LeavesLines.pure r

theorem leavesLines_mmcPoolRequestGet (protocol : MmcProto) (valueHandler : Option ValueHandler) (call : Nat)
    (failover : FailoverHandler) : LeavesLines (mmcPoolRequestGet E protocol valueHandler call failover) :=
  (leavesLines_mmcPoolRequest protocol .null call failover).bind fun r => (LeavesLines.modifyReq r _).bind
    fun _ => LeavesLines.pure r

theorem leavesLines_makeRequest (a : RequestArgs) : LeavesLines (makeRequest E a) :=
  (leavesLines_mmcPoolRequest a.protocol a.responseHandler a.call a.failover).bind fun r =>
    (LeavesLines.modifyReq r _).bind fun _ => LeavesLines.pure r

theorem leavesLines_mmcPoolCloneRequest (r : ReqId) : LeavesLines (mmcPoolCloneRequest E r) :=
  (LeavesLines.getReq r).bind fun _ => (leavesLines_mmcPoolRequestAlloc _ _).bind fun clone =>
    (LeavesLines.getReq r).bind fun _ => LeavesLines.getPool.bind fun _ =>
      (LeavesLines.modifyReq clone _).bind fun _ => (LeavesLines.getReq clone).bind fun _ =>
        (LeavesLines.step E _).bind fun _ => LeavesLines.pure clone

end Functions

/-! ## Requests that have a stream -/

/-- The request points to a stream of the server, which is there. -/
def World.Assigned (w : World) (m : Mmc) (r : ReqId) : Prop :=
  ∃ t, (w.req r).io = some (m, t) ∧ ((w.mmc m).io t).stream ≠ none

/-- A request that is sent or was sent has a stream to be answered on, unless it is one of `but`. -/
structure World.Wired (w : World) (but : Set ReqId) : Prop where
  live : ∀ m t, ((w.mmc m).io t).Live
  assigned : ∀ m r, r ∈ (w.mmc m).readLine → r ∉ (w.mmc m).sendqueue → r ∉ but → w.Assigned m r

section Assigned

variable {E : Env} {w w' : World} {m : Mmc} {r : ReqId} {but : Set ReqId}

theorem World.Assigned.same (h : w.Assigned m r) (hs : SameWiring w w') : w'.Assigned m r := by
  obtain ⟨t, hio, hstream⟩ := h
  exact ⟨t, (hs.io r).trans hio, (hs.streams m t).stream hstream⟩

theorem World.Wired.same (h : w.Wired but) (hs : SameWiring w w')
    (hslots : ∀ m, (w'.mmc m).slots = (w.mmc m).slots) : w'.Wired but where
  live m t := (hs.streams m t).live (h.live m t)
  assigned m r hline hqueue hbut := by
    rw [MmcServer.readLine_of_slots (hslots m)] at hline
    rw [show (w'.mmc m).sendqueue = _ from congrArg Slots.sendqueue (hslots m)] at hqueue
    exact (h.assigned m r hline hqueue hbut).same hs

/-- The request in the send slot is not in the queue behind it. -/
theorem MmcServer.InLine.sendreq_not_queued {s : MmcServer} (h : s.InLine) (hr : s.sendreq = some r) :
    r ∉ s.sendqueue := by
  have hnodup : s.sendLine.Nodup := h.nodup.sublist h.suffix.sublist
  rw [MmcServer.sendLine, hr] at hnodup
  exact (List.nodup_cons.mp hnodup).1

/-- Nor is the one in the read slot: it comes first in both lines or in neither. -/
theorem MmcServer.InLine.readreq_not_queued {s : MmcServer} (h : s.InLine) (hr : s.readreq = some r) :
    r ∉ s.sendqueue := by
  intro hqueue
  have hline : s.readLine = r :: s.readqueue := by simp [MmcServer.readLine, hr]
  have hsuffix : s.sendLine <:+ r :: s.readqueue := hline ▸ h.suffix
  have hnodup : (r :: s.readqueue).Nodup := hline ▸ h.nodup
  rcases List.suffix_cons_iff.mp hsuffix with heq | htail
  · cases hsend : s.sendreq with
    | none =>
      rw [h.sendFirst hsend] at hqueue
      exact List.not_mem_nil hqueue
    | some x =>
      rw [MmcServer.sendLine, hsend] at heq
      injection heq with hx _
      exact h.sendreq_not_queued hsend (hx ▸ hqueue)
  · have hmem : r ∈ s.sendLine := List.mem_append_right _ hqueue
    exact (List.nodup_cons.mp hnodup).1 (htail.subset hmem)

/-- A request in a slot has a stream. -/
theorem World.Wired.slot (h : w.Wired ∅) (hin : (w.mmc m).InLine) {d : Direction}
    (hr : (w.mmc m).slot d = some r) : w.Assigned m r := by
  cases d with
  | write =>
    have hline : r ∈ (w.mmc m).sendLine := by
      rw [MmcServer.sendLine, show (w.mmc m).sendreq = some r from hr]
      exact List.mem_cons_self
    exact h.assigned m r (hin.sendLine_subset hline) (hin.sendreq_not_queued hr) (Set.notMem_empty r)
  | read =>
    have hline : r ∈ (w.mmc m).readLine := by
      rw [MmcServer.readLine, show (w.mmc m).readreq = some r from hr]
      exact List.mem_cons_self
    exact h.assigned m r hline (hin.readreq_not_queued hr) (Set.notMem_empty r)

theorem ends_ioOf {F : Fault → Prop} {io : Mmc × MmcProto} (h : (w.req r).io = some io)
    (Q : Mmc × MmcProto → World → Prop) : Ends F (ioOf r) Q w ↔ Q io w := by
  rw [ioOf, ends_bind, ends_getReq, h]
  exact ends_pure _ _ _

theorem ends_fdOf (h : w.Assigned m r) : Ends NotNull (fdOf r) (fun _ w' => w' = w) w := by
  obtain ⟨t, hio, _⟩ := h
  rw [fdOf, ends_bind, ends_ioOf hio, ends_bind, ends_getMmc, ends_pure]

/-! ### Sending and reading -/

theorem ends_mmcRequestSend (h : w.Assigned m r) :
    Ends NotNull (mmcRequestSend E m r) (fun _ => SameWiring w) w := by
  obtain ⟨t, hio, hstream⟩ := h
  obtain ⟨c, hc⟩ := Option.ne_none_iff_exists'.mp hstream
  rw [mmcRequestSend, ends_bind, ends_ioOf hio, ends_bind, ends_getMmc]
  dsimp only
  rw [hc]
  refine (?_ : Steady _) w
  refine (Steady.ask E.send).bind fun outcome => ?_
  cases outcome with
  | bytes n =>
    exact (Steady.getReq r).bind fun q => (Steady.step E _).bind fun _ =>
      Steady.bind (Steady.modifyReq fun _ => rfl) fun _ => Steady.ite (Steady.pure _) (Steady.pure _)
  | eagain => exact Steady.pure _
  | error errnum => exact steady_mmcServerFailure m _ _ _

theorem ends_fillBuffer (h : w.Assigned m r) :
    Ends NotNull (fillBuffer E m r) (fun _ => SameWiring w) w := by
  obtain ⟨t, hio, hstream⟩ := h
  obtain ⟨c, hc⟩ := Option.ne_none_iff_exists'.mp hstream
  rw [fillBuffer, ends_bind, ends_getReq]
  refine ends_ite (fun _ => ?_) fun _ => (ends_pure _ _ _).mpr (.refl w)
  rw [mmcRequestReadUdp, ends_bind, ends_ioOf hio, ends_bind, ends_getMmc]
  dsimp only
  rw [hc]
  refine (?_ : Steady _) w
  refine Steady.bind (Steady.modifyIo fun io => ?_) fun _ => (Steady.ask E.recv).bind fun datagram => ?_
  · split
    · exact .of_eq rfl rfl
    · exact .rfl
  refine Steady.ite (steady_mmcServerFailure m _ _ _) (Steady.ite (steady_mmcServerFailure m _ _ _) ?_)
  refine Steady.bind (Steady.modifyReq fun q => ?_) fun _ => (Steady.getReq r).bind fun q => ?_
  · split
    · rfl
    · rfl
  refine Steady.ite ?_ ?_
  · refine (Steady.ask E.time).bind fun _ => Steady.bind (Steady.modifyIo fun io => ?_) fun _ =>
      Steady.ite (Steady.pure _) (Steady.pure _)
    exact .of_status rfl (by simp [MmcStream.markFailed]) (by simp [MmcStream.markFailed])
  · exact Steady.bind (Steady.modifyReq fun _ => rfl) fun _ =>
      Steady.bind (Steady.modifyIo fun _ => .of_eq rfl rfl) fun _ => Steady.pure _

theorem ends_parseReadreq (h : w.Assigned m r) :
    Ends NotNull (parseReadreq E m r) (fun _ => SameWiring w) w := by
  obtain ⟨t, hio, hstream⟩ := h
  obtain ⟨c, hc⟩ := Option.ne_none_iff_exists'.mp hstream
  rw [parseReadreq, ends_bind, ends_ioOf hio, ends_bind, ends_getMmc]
  dsimp only
  rw [hc]
  refine (?_ : Steady _) w
  refine (Steady.ask E.parse).bind fun outcome => (Steady.getMmc m).bind fun s => ?_
  refine (Steady.step E _).bind fun _ => Steady.bind (Steady.modifyIo fun _ => .of_eq rfl rfl) fun _ => ?_
  refine Steady.bind (Steady.modifyReq fun _ => rfl) fun _ => (Steady.getReq r).bind fun q => ?_
  refine (Steady.modifyCall _ _).bind fun _ => (Steady.doWhen ?_).bind fun _ => Steady.pure _
  exact (steady_mmcServerFailure m _ _ _).bind fun _ => Steady.pure _

/-! ### Descriptors -/

/-- The slot of the server has a request, and the request a stream. -/
def World.Occupied (w : World) (d : Direction) (m : Mmc) : Prop :=
  ∃ r, (w.mmc m).slot d = some r ∧ w.Assigned m r

theorem ends_slotFds {d : Direction} {ms : List Mmc} (h : ∀ m ∈ ms, w.Occupied d m) :
    Ends NotNull (slotFds d ms) (fun _ w' => w' = w) w := by
  induction ms with
  | nil => exact (ends_pure _ _ _).mpr rfl
  | cons m rest ih =>
    obtain ⟨r, hslot, hr⟩ := h m List.mem_cons_self
    rw [slotFds, ends_bind, ends_getMmc, hslot]
    dsimp only
    rw [ends_bind]
    refine ends_mono (ends_fdOf hr) fun fd w₁ h₁ => ?_
    rw [h₁, ends_bind]
    exact ends_mono (ih fun m' hm' => h m' (List.mem_cons_of_mem m hm')) fun _ _ h₂ =>
      (ends_pure _ _ _).mpr h₂

theorem ends_waitReady (api : SelectApi) (b : Bool)
    (h : ∀ d, ∀ m ∈ w.pool.queue d b, w.Occupied d m) :
    Ends NotNull (waitReady E api b) (fun _ => SameWiring w) w := by
  rw [waitReady, ends_bind, ends_getPool, ends_bind]
  refine ends_mono (ends_slotFds (h .write)) fun wfds w₁ h₁ => ?_
  rw [h₁, ends_bind]
  refine ends_mono (ends_slotFds (h .read)) fun rfds w₂ h₂ => ?_
  rw [h₂]
  exact ((Steady.ask E.select).bind fun _ => (Steady.modifyPool _).bind fun _ => Steady.pure _) w

theorem ends_timedOut (api : SelectApi) {d : Direction} (h : w.Occupied d m) :
    Ends NotNull (timedOut api d m) (fun _ w' => w' = w) w := by
  obtain ⟨r, hslot, hr⟩ := h
  cases api with
  | poll => exact (ends_pure _ _ _).mpr rfl
  | select =>
    rw [timedOut, ends_bind, ends_getMmc, hslot]
    dsimp only
    rw [ends_bind]
    refine ends_mono (ends_fdOf hr) fun fd w₁ h₁ => ?_
    rw [ends_bind, ends_getPool]
    exact (ends_pure _ _ _).mpr h₁

end Assigned

/-! ## Connections -/

section Connections

variable {E : Env} (hE : NoFailures E) {fh : Failover} {w w' : World} {m : Mmc}

/-- The request points to a stream of the server; the other requests, and all streams, are as before. -/
structure Rewired (m : Mmc) (request : Option ReqId) (w w' : World) : Prop where
  io : ∀ r, request ≠ some r → (w'.req r).io = (w.req r).io
  streams : ∀ m t, ((w.mmc m).io t).StaysOpen ((w'.mmc m).io t)
  assigned : (∀ t, ((w.mmc m).io t).Live) → ∀ r, request = some r → w'.Assigned m r

theorem wires_takeSlot (m : Mmc) (r old : Option ReqId) {Q : MmcResult → World → Prop}
    (hQ : Q .ok { w with
      log := .slot m r old :: w.log
      mmc := Function.update w.mmc m { w.mmc m with sendreq := r } }) :
    Ends NotNull (takeSlot E m r old) Q w := by
  simp only [takeSlot, ends_bind, ends_step, ends_modifyMmc, ends_pure]
  exact ⟨fun _ => hQ, fun _ => by simp⟩

/-- A request that points to a stream that is there takes the send slot. -/
theorem Rewired.takeSlot {r : ReqId} {q : MmcRequest} {t : MmcProto} (hs : SameWiring w w')
    (hio : q.io = some (m, t)) (hstream : (∀ t, ((w.mmc m).io t).Live) → ((w'.mmc m).io t).stream ≠ none)
    {log : List Step} {s : MmcServer} (hserver : ∀ t, ((w'.mmc m).io t).StaysOpen (s.io t)) :
    Rewired m (some r) w { w' with
      req := Function.update w'.req r q, log := log, mmc := Function.update w'.mmc m s } where
  io x hx := by
    have hne : x ≠ r := fun heq => hx (heq ▸ rfl)
    simpa [hne] using hs.io x
  streams m' t' := by
    by_cases hm : m' = m
    · subst hm
      simpa using (hs.streams m' t').trans (hserver t')
    · simpa [hm] using hs.streams m' t'
  assigned hlive x hx := by
    cases hx
    exact ⟨t, by simpa using hio, by simpa using (hserver t).stream (hstream hlive)⟩

include hE

theorem halts_mmcServerDeactivate (m : Mmc) : Halts (mmcServerDeactivate E fh m) :=
  ((halts_step fun w => hE.deactivate m w).bind_left _).bind_left _

theorem ends_mmcServerConnect (m : Mmc) (t : MmcProto) (cause : Option ReqId) (w : World) :
    Ends NotNull (mmcServerConnect E fh m t cause)
      (fun _ w' => SameWiring w w' ∧ ((w'.mmc m).io t).stream ≠ none) w := by
  have hclose : Ends NotNull (doWhen ((w.mmc m).io t).stream.isSome
      (modifyMmc m fun s => s.modifyIo t MmcStream.disconnect)) (fun _ w' => w'.req = w.req ∧
        (∀ m', m' ≠ m → w'.mmc m' = w.mmc m') ∧ ∀ t', t' ≠ t → (w'.mmc m).io t' = (w.mmc m).io t') w := by
    rw [ends_doWhen, ends_modifyMmc]
    refine ⟨fun _ => ⟨rfl, fun m' hm => Function.update_of_ne hm _ _, fun t' ht => ?_⟩,
      fun _ => ⟨rfl, fun _ _ => rfl, fun _ _ => rfl⟩⟩
    simpa using MmcServer.io_modifyIo_of_ne ht MmcStream.disconnect
  rw [mmcServerConnect, ends_bind, ends_getMmc, ends_bind]
  refine ends_mono hclose fun _ w₁ h₁ => ?_
  obtain ⟨hreq, hother, hstream⟩ := h₁
  rw [ends_bind, ends_ask]
  dsimp only
  cases E.connect w₁.tick with
  | some fd =>
    simp only [ends_bind, ends_step, ends_modifyMmc, ends_pure, Function.update_self]
    refine ⟨fun _ => ?_, fun _ => by simp⟩
    set s : MmcServer :=
      { (w₁.mmc m).modifyIo t fun io => io.opened w₁.tick fd t with error := none } with hs
    have hopened : (s.io t).stream ≠ none := by
      rw [hs]
      cases t <;> simp [MmcServer.modifyIo, MmcServer.io, MmcStream.opened]
    refine ⟨⟨fun r => by rw [hreq], fun m' t' => ?_⟩, by simpa using hopened⟩
    dsimp only
    by_cases hm : m' = m
    · subst hm
      rw [Function.update_self]
      by_cases ht : t' = t
      · exact ht ▸ .of_stream hopened
      · have hsame : s.io t' = (w.mmc m').io t' :=
          (MmcServer.io_modifyIo_of_ne (s := w₁.mmc m') ht _).trans (hstream t' ht)
        exact hsame ▸ .rfl
    · rw [Function.update_of_ne hm, hother m' hm]
      exact .rfl
  | none =>
    refine ((Steady.step E _).safe.halts fun _ => ?_) _ _
    exact (steady_mmcServerSeterror m _ _).safe.halts fun _ =>
      (halts_mmcServerDeactivate hE m).bind_left _

theorem ends_mmcPoolOpen (m : Mmc) (t : MmcProto) (cause : Option ReqId) (w : World) :
    Ends NotNull (mmcPoolOpen E fh m t cause) (fun opened w' => opened = .ok ∧ SameWiring w w' ∧
      (((w.mmc m).io t).Live → ((w'.mmc m).io t).stream ≠ none)) w := by
  suffices hopen : Ends NotNull (mmcPoolOpen E fh m t cause) (fun _ w' => SameWiring w w' ∧
      (((w.mmc m).io t).Live → ((w'.mmc m).io t).stream ≠ none)) w from
    ends_mono (hopen.and_wp (mmcPoolOpen_ok hE m t cause w)) fun _ _ h => ⟨h.2, h.1⟩
  have hconnect : Ends NotNull (mmcServerConnect E fh m t cause) (fun _ w' => SameWiring w w' ∧
      (((w.mmc m).io t).Live → ((w'.mmc m).io t).stream ≠ none)) w :=
    ends_mono (ends_mmcServerConnect hE m t cause w) fun _ _ h => ⟨h.1, fun _ => h.2⟩
  rw [mmcPoolOpen, ends_bind, ends_getMmc]
  cases hstatus : ((w.mmc m).io t).status with
  | connected => exact (ends_pure _ _ _).mpr ⟨.refl w, fun hlive => hlive (Or.inl hstatus)⟩
  | unknown => exact (ends_pure _ _ _).mpr ⟨.refl w, fun hlive => hlive (Or.inr hstatus)⟩
  | disconnected => exact hconnect
  | failed => exact hconnect

theorem wires_slotSendTcp (m : Mmc) (r : ReqId) (old : Option ReqId) (handleFailover : Bool)
    {w₁ : World} (h : SameWiring w w₁) :
    Ends NotNull (slotSendTcp E fh m r old handleFailover) (fun _ => Rewired m (some r) w) w₁ := by
  rw [slotSendTcp, ends_bind]
  refine ends_mono (ends_mmcPoolOpen hE m .tcp (some r) w₁) fun opened w₂ h₂ => ?_
  obtain ⟨hok, h₂, hstream⟩ := h₂
  refine ends_ite (fun _ => ?_) fun hfailed => absurd hok hfailed
  rw [ends_bind, ends_modifyReq]
  refine wires_takeSlot m (some r) old (Rewired.takeSlot (t := .tcp) (h.trans h₂) rfl ?_ fun t => ?_)
  · exact fun hlive => hstream ((h.streams m .tcp).live (hlive .tcp))
  · cases t with
    | tcp => exact .rfl
    | udp => exact .rfl

/-- **A request takes the send slot** of a server, once its stream is open. -/
theorem wires_mmcPoolSlotSend (m : Mmc) (request : Option ReqId) (handleFailover : Bool) (w : World) :
    Ends NotNull (mmcPoolSlotSend E fh m request handleFailover) (fun _ => Rewired m request w) w := by
  rw [mmcPoolSlotSend, ends_bind, ends_getMmc]
  cases request with
  | none =>
    refine wires_takeSlot m none _ ⟨fun _ _ => rfl, fun m' t => ?_, fun _ r hr => by cases hr⟩
    exact (SameWiring.of_mmc w (fun t => by cases t <;> exact .rfl)).streams m' t
  | some r =>
    dsimp only
    rw [ends_bind, ends_getReq]
    refine ends_ite (fun _ => ?_) fun _ => wires_slotSendTcp hE m r _ _ (.refl w)
    rw [ends_bind]
    refine ends_mono (ends_mmcPoolOpen hE m .udp (some r) w) fun opened w₂ h₂ => ?_
    obtain ⟨hok, h₂, hstream⟩ := h₂
    refine ends_ite (fun _ => ?_) fun hfailed => absurd hok hfailed
    simp only [ends_bind, ends_getMmc, ends_modifyMmc, ends_modifyReq]
    refine wires_takeSlot m (some r) _ ?_
    simp only [Function.update_self, Function.update_idem]
    refine Rewired.takeSlot (t := .udp) h₂ rfl (fun hlive => hstream (hlive .udp)) fun t => ?_
    cases t with
    | tcp => exact .rfl
    | udp => exact .rfl

end Connections

end PeclMemcache
