import PeclMemcache.Coupling
import PeclMemcache.Operations

set_option autoImplicit false

/-! # `select` and `poll`

A pool that asks the operating system with `select()` and one that asks with `poll()` run side by side
(`Lockstep`). They keep what they were told in different forms, and what counts is that the same descriptors
are ready in both (`Matches`). A timeout is handled alike as long as nothing is ready meanwhile, which a
further round in between would change. -/

namespace PeclMemcache

open Stateful

/-! ## Ready descriptors -/

/-- The events asked for. -/
def PollFd.asks (x : PollFd) : Direction → Bool
  | .write => x.pollout
  | .read => x.pollin

theorem fd_addPollEvent (d : Direction) (fd : Nat) (l : List PollFd) :
    (addPollEvent d fd l).map (·.fd) = if fd ∈ l.map (·.fd) then l.map (·.fd) else l.map (·.fd) ++ [fd] := by
  induction l with
  | nil => rfl
  | cons x rest ih =>
    by_cases hfd : x.fd = fd
    · simp [addPollEvent, hfd]
    · rw [addPollEvent, if_neg hfd, List.map_cons, ih, List.map_cons]
      by_cases hmem : fd ∈ rest.map (·.fd)
      · rw [if_pos hmem, if_pos (List.mem_cons_of_mem _ hmem)]
      · rw [if_neg hmem, if_neg (List.not_mem_cons_of_ne_of_not_mem (Ne.symm hfd) hmem)]
        rfl

theorem nodup_addPollEvent (d : Direction) (fd : Nat) {l : List PollFd} (h : (l.map (·.fd)).Nodup) :
    ((addPollEvent d fd l).map (·.fd)).Nodup := by
  rw [fd_addPollEvent]
  split
  · exact h
  · next hmem => exact List.nodup_append.mpr ⟨h, List.nodup_singleton _, by simpa using hmem⟩

/-- An event is asked for once it was added, and no other one is. -/
theorem asks_addPollEvent (d d' : Direction) (fd fd' : Nat) (l : List PollFd) :
    (∃ x ∈ addPollEvent d fd l, x.fd = fd' ∧ x.asks d' = true) ↔
      (fd' = fd ∧ d' = d) ∨ ∃ x ∈ l, x.fd = fd' ∧ x.asks d' = true := by
  induction l with
  | nil => cases d <;> cases d' <;> simp [addPollEvent, PollFd.asks, @eq_comm _ fd]
  | cons x rest ih =>
    by_cases hfd : x.fd = fd
    · rw [addPollEvent, if_pos hfd]
      simp only [List.exists_mem_cons_iff]
      cases d <;> cases d' <;> grind [PollFd.asks]
    · rw [addPollEvent, if_neg hfd]
      simp only [List.exists_mem_cons_iff, ih]
      tauto

/-- All events of one direction. -/
theorem asks_addPollEvents (d d' : Direction) (fds : List Nat) (fd' : Nat) (l : List PollFd) :
    (∃ x ∈ fds.foldl (fun l fd => addPollEvent d fd l) l, x.fd = fd' ∧ x.asks d' = true) ↔
      (fd' ∈ fds ∧ d' = d) ∨ ∃ x ∈ l, x.fd = fd' ∧ x.asks d' = true := by
  induction fds generalizing l with
  | nil => simp
  | cons fd fds ih =>
    rw [List.foldl_cons, ih, asks_addPollEvent, List.mem_cons]
    tauto

theorem nodup_addPollEvents (d : Direction) (fds : List Nat) {l : List PollFd} (h : (l.map (·.fd)).Nodup) :
    ((fds.foldl (fun l fd => addPollEvent d fd l) l).map (·.fd)).Nodup := by
  induction fds generalizing l with
  | nil => exact h
  | cons fd fds ih => exact ih (nodup_addPollEvent d fd h)

theorem reported_clear (x : PollFd) (d d' : Direction) :
    (x.clear d).reported d' = (x.reported d' && d' ≠ d) := by
  cases d <;> cases d' <;> simp [PollFd.clear, PollFd.reported]

theorem fd_clear (x : PollFd) (d : Direction) : (x.clear d).fd = x.fd := by
  cases d <;> rfl

theorem fd_clearPollEvent (d : Direction) (fd : Nat) (l : List PollFd) :
    (clearPollEvent d fd l).map (·.fd) = l.map (·.fd) := by
  induction l with
  | nil => rfl
  | cons x rest ih =>
    rw [clearPollEvent]
    split
    · simp [fd_clear]
    · simp [ih]

/-- Where no descriptor is listed twice, one entry is all that there is to clear. -/
theorem reported_clearPollEvent (d d' : Direction) (fd fd' : Nat) {l : List PollFd}
    (h : (l.map (·.fd)).Nodup) :
    (∃ x ∈ clearPollEvent d fd l, x.fd = fd' ∧ x.reported d' = true) ↔
      (∃ x ∈ l, x.fd = fd' ∧ x.reported d' = true) ∧ ¬ (fd' = fd ∧ d' = d) := by
  induction l with
  | nil => simp [clearPollEvent]
  | cons x rest ih =>
    rw [List.map_cons, List.nodup_cons] at h
    have hrest : ∀ y ∈ rest, y.fd ≠ x.fd := fun y hy heq => h.1 (heq ▸ List.mem_map_of_mem hy)
    rw [clearPollEvent]
    by_cases hx : x.fd = fd ∧ x.reported d = true
    · rw [if_pos hx]
      simp only [List.exists_mem_cons_iff, fd_clear, reported_clear]
      grind
    · rw [if_neg hx]
      simp only [List.exists_mem_cons_iff, ih h.2]
      grind

theorem ready_poll {p : MmcPool} {d : Direction} {fd : Nat} :
    p.ready .poll d fd = true ↔ ∃ x ∈ p.pollfds, x.fd = fd ∧ x.reported d = true := by
  simp [MmcPool.ready, List.any_eq_true]

theorem ready_clearReady_select (p : MmcPool) (d d' : Direction) (fd fd' : Nat) :
    (p.clearReady .select d fd).ready .select d' fd' = true ↔
      p.ready .select d' fd' = true ∧ ¬ (fd' = fd ∧ d' = d) := by
  cases d <;> cases d' <;> simp [MmcPool.clearReady, MmcPool.ready]

/-! ## Pools that differ in what they ask with -/

/-- The pool, with what another one keeps of the descriptors. -/
def MmcPool.withSelector (p q : MmcPool) : MmcPool :=
  { p with selectApi := q.selectApi, wfds := q.wfds, rfds := q.rfds, pollfds := q.pollfds }

/-- One asks with `select()`, the other one with `poll()`, and the same descriptors are ready. -/
structure Matches (p q : MmcPool) : Prop where
  select : p.selectApi = .select
  poll : q.selectApi = .poll
  ready : ∀ d fd, q.ready .poll d fd = p.ready .select d fd
  nodup : (q.pollfds.map (·.fd)).Nodup

/-- No descriptor is ready. -/
def MmcPool.Quiet (p : MmcPool) : Prop := ∀ d fd, p.ready .select d fd = false

theorem Matches.clearReady {p q : MmcPool} (h : Matches p q) (d : Direction) (fd : Nat) :
    Matches (p.clearReady .select d fd) (q.clearReady .poll d fd) where
  select := by cases d <;> exact h.select
  poll := h.poll
  ready d' fd' := by
    rw [Bool.eq_iff_iff, ready_clearReady_select, ← h.ready, ready_poll, ready_poll]
    exact reported_clearPollEvent d d' fd fd' h.nodup
  nodup := by
    show ((clearPollEvent d fd q.pollfds).map (·.fd)).Nodup
    rw [fd_clearPollEvent]
    exact h.nodup

/-- What the operating system tells of a descriptor. -/
def SelectReport.tells (report : SelectReport) : Direction → Nat → Bool
  | .write => report.writable
  | .read => report.readable

theorem ready_watch_select {p : MmcPool} {wfds rfds : List Nat} {report : SelectReport} {d : Direction}
    {fd : Nat} : (p.watch .select wfds rfds report).ready .select d fd = true ↔
      report.result ≠ 0 ∧ (fd ∈ rfds ∧ d = .read ∨ fd ∈ wfds ∧ d = .write) ∧
        report.tells d fd = true := by
  cases d <;> by_cases h : report.result = 0 <;>
    simp [MmcPool.watch, MmcPool.ready, SelectReport.tells, h]

theorem ready_watch_poll {p : MmcPool} {wfds rfds : List Nat} {report : SelectReport} {d : Direction}
    {fd : Nat} : (p.watch .poll wfds rfds report).ready .poll d fd = true ↔
      0 < report.result ∧ (fd ∈ rfds ∧ d = .read ∨ fd ∈ wfds ∧ d = .write) ∧
        report.tells d fd = true := by
  have hasked :=
    (asks_addPollEvents .read d rfds fd (wfds.foldl (fun l fd => addPollEvent .write fd l) [])).trans
      (or_congr_right (asks_addPollEvents .write d wfds fd []))
  simp only [List.not_mem_nil, false_and, exists_false, or_false] at hasked
  rw [ready_poll, ← hasked]
  constructor
  · rintro ⟨_, hx, rfl, hreported⟩
    obtain ⟨y, hy, rfl⟩ := List.mem_map.mp hx
    cases d <;> simp only [PollFd.reported, Bool.and_eq_true, decide_eq_true_eq] at hreported
    · exact ⟨hreported.1.1, ⟨y, hy, rfl, hreported.1.2⟩, hreported.2⟩
    · exact ⟨hreported.1.1, ⟨y, hy, rfl, hreported.1.2⟩, hreported.2⟩
  · rintro ⟨hresult, ⟨y, hy, rfl, hasks⟩, htells⟩
    refine ⟨_, List.mem_map_of_mem hy, rfl, ?_⟩
    cases d <;> simp_all [PollFd.reported, PollFd.asks, SelectReport.tells]

/-- Both are told the same. -/
theorem Matches.watch {p q : MmcPool} (h : Matches p q) (wfds rfds : List Nat) {report : SelectReport}
    (hreport : 0 ≤ report.result) :
    Matches (p.watch .select wfds rfds report) (q.watch .poll wfds rfds report) where
  select := h.select
  poll := h.poll
  ready d fd := by
    have hpositive : 0 < report.result ↔ report.result ≠ 0 := by omega
    rw [Bool.eq_iff_iff, ready_watch_poll, ready_watch_select, hpositive]
  nodup := by
    have hmap : ((q.watch .poll wfds rfds report).pollfds.map (·.fd)) =
        (rfds.foldl (fun l fd => addPollEvent .read fd l)
          (wfds.foldl (fun l fd => addPollEvent .write fd l) [])).map (·.fd) := by
      simp [MmcPool.watch]
    rw [hmap]
    exact nodup_addPollEvents .read rfds (nodup_addPollEvents .write wfds List.nodup_nil)

/-- Nothing is ready when the time is over. -/
theorem quiet_watch (p : MmcPool) (wfds rfds : List Nat) {report : SelectReport} (h : report.result = 0) :
    (p.watch .select wfds rfds report).Quiet := by
  intro d fd
  rw [← Bool.not_eq_true, ready_watch_select]
  exact fun hready => hready.1 h

/-! ## Worlds that differ in what they ask with -/

/-- The worlds are the same but for what the pool keeps of the descriptors. -/
def Apart (w w' : World) : Prop :=
  ∃ q, Matches w.pool q ∧ w' = { w with pool := w.pool.withSelector q }

/-- The same, inside or outside of the timeout loops; inside nothing is ready. -/
def Twin (inTimeout : Bool) (w w' : World) : Prop :=
  Apart w w' ∧ w.inTimeout = inTimeout ∧ (inTimeout = true → w.pool.Quiet)

/-- Where a run is cut off. Only at a `NULL` pointer the two may have come differently far. -/
def CutApart (e : Fault) (w w' : World) : Prop := e ≠ .nullPointer → Apart w w'

/-- Two programs that do the same in such worlds. -/
def Lockstep {α : Type} (inTimeout : Bool) (x y : PoolM α) : Prop :=
  Coupled (Twin inTimeout) (fun _ => Twin inTimeout) CutApart x y

/-- A program that does the same whatever the pool asks with. -/
abbrev Blind {α : Type} (inTimeout : Bool) (x : PoolM α) : Prop := Lockstep inTimeout x x

/-- Runs that do not depend on what the pool asks with. The two calls differ in what they leave behind
    when they fail, and another round in the middle of a timeout makes descriptors ready, which only the
    loops for `select()` look at. -/
structure Interchangeable (E : Env) : Prop where
  noError : ∀ n, 0 ≤ (E.select n).result
  allowed : ∀ s w w', Apart w w' → E.allowed s w = E.allowed s w'
  noFlush : ∀ m w, w.inTimeout = true → E.allowed (.flush m) w = false

namespace Lockstep

variable {E : Env} {b : Bool} {α β : Type}

theorem pure (a : α) : Blind b (Pure.pure a) := Coupled.pure a fun _ _ => id

theorem bind {x y : PoolM α} {f g : α → PoolM β} (hx : Lockstep b x y) (hf : ∀ a, Lockstep b (f a) (g a)) :
    Lockstep b (x >>= f) (y >>= g) := Coupled.bind hx hf

theorem ite {c : Prop} [Decidable c] {x y x' y' : PoolM α} (hx : Lockstep b x y) (hx' : Lockstep b x' y') :
    Lockstep b (if c then x else x') (if c then y else y') := Coupled.ite (fun _ => hx) fun _ => hx'

theorem doWhen {c : Prop} [Decidable c] {x y : PoolM Unit} (hx : Lockstep b x y) :
    Lockstep b (doWhen c x) (doWhen c y) := ite hx (pure ())

theorem forEach {f : α → PoolM Unit} (hf : ∀ x, Blind b (f x)) (xs : List α) : Blind b (forEach f xs) := by
  induction xs with
  | nil => exact pure ()
  | cons x rest ih => exact bind (hf x) fun _ => ih

theorem nullPointer : Blind b (nullPointer : PoolM α) :=
  fun _ _ _ => .error fun h => absurd rfl h

theorem outOfFuel : Blind b (outOfFuel : PoolM α) := fun _ _ h => .error fun _ => h.1

/-! ## The primitive operations -/

/-- A step of the state that keeps away from the descriptors. -/
theorem of_ok (f : World → α) (g : World → World)
    (hf : ∀ w q, f { w with pool := w.pool.withSelector q } = f w)
    (hg : ∀ w q, g { w with pool := w.pool.withSelector q } =
      { g w with pool := (g w).pool.withSelector q })
    (htimeout : ∀ w, (g w).inTimeout = w.inTimeout) :
    Blind b (fun w => (.ok (f w), g w) : PoolM α) := by
  refine Coupled.of_ok f f g g ?_
  rintro w _ ⟨⟨q, hq, rfl⟩, hin, hquiet⟩
  -- With its own descriptors put back the pool is what it was, so `g` leaves them alone.
  have hself : (g w).pool = (g w).pool.withSelector w.pool := congrArg World.pool (hg w w.pool)
  have hmatches : Matches (g w).pool q := by
    rw [hself]
    exact ⟨hq.select, hq.poll, hq.ready, hq.nodup⟩
  refine ⟨(hf w q).symm, ⟨q, hmatches, hg w q⟩, (htimeout w).trans hin, fun hb d fd => ?_⟩
  rw [hself]
  exact hquiet hb d fd

theorem ask (answer : Nat → α) : Blind b (ask answer) :=
  of_ok (fun w => answer w.tick) _ (fun _ _ => rfl) (fun _ _ => rfl) fun _ => rfl

theorem getMmc (m : Mmc) : Blind b (getMmc m) :=
  of_ok (fun w => w.mmc m) _ (fun _ _ => rfl) (fun _ _ => rfl) fun _ => rfl

theorem modifyMmc (m : Mmc) (f : MmcServer → MmcServer) :
    Blind b (modifyMmc m f) :=
  of_ok (fun _ => ()) _ (fun _ _ => rfl) (fun _ _ => rfl) fun _ => rfl

theorem getReq (r : ReqId) : Blind b (getReq r) :=
  of_ok (fun w => w.req r) _ (fun _ _ => rfl) (fun _ _ => rfl) fun _ => rfl

theorem modifyReq (r : ReqId) (f : MmcRequest → MmcRequest) :
    Blind b (modifyReq r f) :=
  of_ok (fun _ => ()) _ (fun _ _ => rfl) (fun _ _ => rfl) fun _ => rfl

theorem newRequest : Blind b newRequest :=
  of_ok (fun w => w.nextReq) _ (fun _ _ => rfl) (fun _ _ => rfl) fun _ => rfl

theorem getCall (c : Nat) : Blind b (getCall c) :=
  of_ok (fun w => w.call c) _ (fun _ _ => rfl) (fun _ _ => rfl) fun _ => rfl

theorem modifyCall (c : Nat) (f : ApiCall → ApiCall) :
    Blind b (modifyCall c f) :=
  of_ok (fun _ => ()) _ (fun _ _ => rfl) (fun _ _ => rfl) fun _ => rfl

theorem modifyPool {f : MmcPool → MmcPool} (hf : ∀ p q, f (p.withSelector q) = (f p).withSelector q) :
    Blind b (modifyPool f) :=
  of_ok (fun _ => ()) _ (fun _ _ => rfl) (fun w q => by rw [hf]) fun _ => rfl

/-- What follows may use all that the two pools have in common. -/
theorem coupled_getPool {Q : β → World → World → Prop} {f g : MmcPool → PoolM β}
    (hf : ∀ p q, Matches p q → Coupled (Twin b) Q CutApart (f p) (g (p.withSelector q))) :
    Coupled (Twin b) Q CutApart (getPool >>= f) (getPool >>= g) := by
  intro w w' h
  have ⟨⟨q, hq, hw⟩, _⟩ := h
  subst hw
  exact hf w.pool q hq w _ h

theorem getPool {f g : MmcPool → PoolM β}
    (hf : ∀ p q, Matches p q → Lockstep b (f p) (g (p.withSelector q))) :
    Lockstep b (getPool >>= f) (getPool >>= g) := coupled_getPool hf

theorem step (hE : Interchangeable E) (s : Step) : Blind b (step E s) := by
  rintro w _ ⟨⟨q, hq, rfl⟩, hin, hquiet⟩
  have hallowed := hE.allowed s w _ ⟨q, hq, rfl⟩
  unfold PeclMemcache.step
  rw [← hallowed]
  split
  · exact .ok ⟨⟨q, hq, rfl⟩, hin, hquiet⟩
  · exact .error fun _ => ⟨q, hq, rfl⟩

end Lockstep

end PeclMemcache
