import PeclMemcache.Endings
import PeclMemcache.Failover

set_option autoImplicit false

/-! # Runs that leave a request in hand

A request that `mmc_pool_schedule` was handed is neither on a server nor free until it is scheduled or
released. The pool functions that run in the meantime leave it alone, and they end: here function by
function, up to the connections of a server. The functions that fail over other requests are left as
parameters; nothing of a multi-key get is ever flushed. -/

namespace PeclMemcache

open Stateful

/-! ## Rules for the primitive operations -/

section Primitive

variable {F : Fault → Prop} (E : Env)

@[simp]
theorem ends_outOfFuel {α : Type} (Q : α → World → Prop) (w : World) :
    Ends F (outOfFuel : PoolM α) Q w ↔ F .fuel := ends_of_error rfl Q

@[simp]
theorem ends_ask {α : Type} (answer : Nat → α) (Q : α → World → Prop) (w : World) :
    Ends F (ask answer) Q w ↔ Q (answer w.tick) { w with tick := w.tick + 1 } := ends_of_ok rfl Q

@[simp]
theorem ends_step (s : Step) (Q : Unit → World → Prop) (w : World) :
    Ends F (step E s) Q w ↔
      (E.allowed s w → Q () { w with log := s :: w.log }) ∧ (¬ E.allowed s w → F .stopped) := by
  by_cases hs : E.allowed s w
  · have hok : step E s w = (.ok (), { w with log := s :: w.log }) := if_pos hs
    simp [ends_of_ok hok, hs]
  · have herror : step E s w = (.error .stopped, w) := if_neg hs
    simp [ends_of_error herror, hs]

@[simp]
theorem ends_getPool (Q : MmcPool → World → Prop) (w : World) :
    Ends F getPool Q w ↔ Q w.pool w := ends_of_ok rfl Q

@[simp]
theorem ends_modifyPool (f : MmcPool → MmcPool) (Q : Unit → World → Prop) (w : World) :
    Ends F (modifyPool f) Q w ↔ Q () { w with pool := f w.pool } := ends_of_ok rfl Q

@[simp]
theorem ends_getMmc (m : Mmc) (Q : MmcServer → World → Prop) (w : World) :
    Ends F (getMmc m) Q w ↔ Q (w.mmc m) w := ends_of_ok rfl Q

@[simp]
theorem ends_modifyMmc (m : Mmc) (f : MmcServer → MmcServer) (Q : Unit → World → Prop) (w : World) :
    Ends F (modifyMmc m f) Q w ↔ Q () { w with mmc := Function.update w.mmc m (f (w.mmc m)) } :=
  ends_of_ok rfl Q

@[simp]
theorem ends_getReq (r : ReqId) (Q : MmcRequest → World → Prop) (w : World) :
    Ends F (getReq r) Q w ↔ Q (w.req r) w := ends_of_ok rfl Q

@[simp]
theorem ends_modifyReq (r : ReqId) (f : MmcRequest → MmcRequest) (Q : Unit → World → Prop)
    (w : World) :
    Ends F (modifyReq r f) Q w ↔ Q () { w with req := Function.update w.req r (f (w.req r)) } :=
  ends_of_ok rfl Q

@[simp]
theorem ends_getCall (c : Nat) (Q : ApiCall → World → Prop) (w : World) :
    Ends F (getCall c) Q w ↔ Q (w.call c) w := ends_of_ok rfl Q

@[simp]
theorem ends_newRequest (Q : ReqId → World → Prop) (w : World) :
    Ends F newRequest Q w ↔ Q w.nextReq { w with
      nextReq := w.nextReq + 1, req := Function.update w.req w.nextReq {} } :=
  ends_of_ok rfl Q

@[simp]
theorem ends_doWhen (c : Prop) [Decidable c] (x : PoolM Unit) (Q : Unit → World → Prop) (w : World) :
    Ends F (doWhen c x) Q w ↔ (c → Ends F x Q w) ∧ (¬ c → Q () w) := by
  unfold doWhen
  split
  · next h => simp [h]
  · next h => simp [h]

/-- What every item's run keeps, the run over the list keeps. -/
theorem sustains_forEach {α : Type} {f : α → PoolM Unit} {I : World → Prop} {xs : List α}
    (hf : ∀ x ∈ xs, Sustains F I (f x)) : Sustains F I (forEach f xs) := by
  induction xs with
  | nil => exact .pure ()
  | cons x rest ih =>
    exact (hf x List.mem_cons_self).bind fun _ => ih fun y hy => hf y (List.mem_cons_of_mem x hy)

end Primitive

/-! ## Where a request is -/

/-- No slot and no queue of the server holds the request. -/
structure MmcServer.Lacks (s : MmcServer) (r : ReqId) : Prop where
  sending : r ∉ s.sendLine
  reading : r ∉ s.readLine
  build : s.buildreq ≠ some r

/-- The request is allocated, neither queued on a server nor free. -/
structure InHand (r : ReqId) (w : World) : Prop where
  known : r < w.nextReq
  free : some r ∉ w.pool.freeRequests
  lacks : ∀ m, (w.mmc m).Lacks r

/-- The datagram a multi-key get is built in is full. -/
def Step.isFlush : Step → Bool
  | .flush _ => true
  | _ => false

/-! ## The probes that are left -/

/-- The probes `mmc_pool_failover_handler` may still make for a request. -/
def MmcRequest.probesLeft (E : Env) (q : MmcRequest) : Nat :=
  if q.failoverHandler = .pool then E.maxFailoverAttempts - q.failedIndex else 0

/-- The probes it may still make for the requests of a set. -/
def World.probesLeft (E : Env) (among : Finset ReqId) (w : World) : Nat :=
  ∑ x ∈ among, (w.req x).probesLeft E

/-- The handler of a request is not made `mmc_pool_failover_handler`, and its probes only go on. -/
structure MmcRequest.Sinks (q q' : MmcRequest) : Prop where
  handler : q'.failoverHandler = .pool → q.failoverHandler = .pool
  index : q'.failoverHandler = .pool → q.failedIndex ≤ q'.failedIndex

theorem MmcRequest.Sinks.rfl {q : MmcRequest} : q.Sinks q := ⟨id, fun _ => Nat.le_refl _⟩

theorem MmcRequest.Sinks.of_eq {q q' : MmcRequest} (hhandler : q'.failoverHandler = q.failoverHandler)
    (hindex : q'.failedIndex = q.failedIndex) : q.Sinks q' :=
  ⟨fun h => hhandler ▸ h, fun _ => Nat.le_of_eq hindex.symm⟩

variable {E : Env} {among among' : Finset ReqId} {r x : ReqId} {i n : Nat}

theorem MmcRequest.Sinks.probesLeft_le {q q' : MmcRequest} (h : q.Sinks q') :
    q'.probesLeft E ≤ q.probesLeft E := by
  unfold MmcRequest.probesLeft
  split
  · next hpool =>
    have := h.index hpool
    rw [if_pos (h.handler hpool)]
    omega
  · exact Nat.zero_le _

theorem World.probesLeft_le {w w' : World} (h : ∀ x, (w.req x).Sinks (w'.req x)) :
    w'.probesLeft E among ≤ w.probesLeft E among :=
  Finset.sum_le_sum fun x _ => (h x).probesLeft_le

theorem World.probesLeft_lt {w w' : World} (h : ∀ x, (w.req x).Sinks (w'.req x)) (hx : x ∈ among)
    (hlt : (w'.req x).probesLeft E < (w.req x).probesLeft E) :
    w'.probesLeft E among < w.probesLeft E among :=
  Finset.sum_lt_sum (fun x _ => (h x).probesLeft_le) ⟨x, hx, hlt⟩

/-! ## A request in hand while others are failed over -/

/-- The single-key request `r` is in hand at probe `i`; only requests of `among` may have the same
    handler, and `n` bounds the probes left for them. -/
structure Aside (E : Env) (r : ReqId) (i : Nat) (among : Finset ReqId) (n : Nat) (w : World) : Prop
    extends InHand r w where
  handler : (w.req r).failoverHandler = .pool
  index : (w.req r).failedIndex = i
  pools : ∀ x, (w.req x).failoverHandler = .pool → x ∈ among
  probes : w.probesLeft E among ≤ n

theorem Aside.mono {w : World} (h : Aside E r i among n w) (hsub : among ⊆ among') {n' : Nat}
    (hn : n ≤ n') : Aside E r i among' n' w where
  toInHand := h.toInHand
  handler := h.handler
  index := h.index
  pools x hx := hsub (h.pools x hx)
  probes := by
    have hsum : w.probesLeft E among = w.probesLeft E among' :=
      Finset.sum_subset hsub fun x _ hx => if_neg fun hpool => hx (h.pools x hpool)
    rw [← hsum]
    exact Nat.le_trans h.probes hn

/-- A request with another handler need not be counted. -/
theorem Aside.erase {w : World} (h : Aside E r i among n w)
    (hx : (w.req x).failoverHandler ≠ .pool) : Aside E r i (among.erase x) n w where
  toInHand := h.toInHand
  handler := h.handler
  index := h.index
  pools y hy := Finset.mem_erase.mpr ⟨fun hyx => hx (hyx ▸ hy), h.pools y hy⟩
  probes := Nat.le_trans (Finset.sum_le_sum_of_subset (Finset.erase_subset x among)) h.probes

/-- What one step may do while `r` is in hand. -/
structure Spared (r : ReqId) (w w' : World) : Prop where
  known : w.nextReq ≤ w'.nextReq
  free : some r ∈ w'.pool.freeRequests → some r ∈ w.pool.freeRequests
  lacks : ∀ m, (w.mmc m).Lacks r → (w'.mmc m).Lacks r
  handler : (w'.req r).failoverHandler = (w.req r).failoverHandler
  index : (w'.req r).failedIndex = (w.req r).failedIndex
  sinks : ∀ x, (w.req x).Sinks (w'.req x)

theorem Aside.spared {w w' : World} (h : Aside E r i among n w) (hs : Spared r w w') :
    Aside E r i among n w' where
  known := Nat.lt_of_lt_of_le h.known hs.known
  free hfree := h.free (hs.free hfree)
  lacks m := hs.lacks m (h.lacks m)
  handler := hs.handler.trans h.handler
  index := hs.index.trans h.index
  pools x hx := h.pools x ((hs.sinks x).handler hx)
  probes := Nat.le_trans (World.probesLeft_le hs.sinks) h.probes

/-- Only the clock and the record have gone on, or a part of the pool that holds no request. -/
theorem Aside.of_same {w w' : World} (h : Aside E r i among n w) (hnext : w'.nextReq = w.nextReq)
    (hfree : w'.pool.freeRequests = w.pool.freeRequests) (hmmc : w'.mmc = w.mmc)
    (hreq : w'.req = w.req) : Aside E r i among n w' :=
  h.spared ⟨Nat.le_of_eq hnext.symm, fun hr => hfree ▸ hr, fun m hm => hmmc ▸ hm, by rw [hreq],
    by rw [hreq], fun x => by rw [hreq]; exact .rfl⟩

theorem Aside.tick {w : World} (h : Aside E r i among n w) (tick : Nat) :
    Aside E r i among n { w with tick := tick } := h.of_same rfl rfl rfl rfl

theorem Aside.log {w : World} (h : Aside E r i among n w) (log : List Step) :
    Aside E r i among n { w with log := log } := h.of_same rfl rfl rfl rfl

theorem Aside.pool {w : World} (h : Aside E r i among n w) {p : MmcPool}
    (hp : p.freeRequests = w.pool.freeRequests) : Aside E r i among n { w with pool := p } :=
  h.of_same rfl hp rfl rfl

theorem Aside.mmc {w : World} (h : Aside E r i among n w) (m : Mmc) {s : MmcServer}
    (hs : (w.mmc m).Lacks r → s.Lacks r) :
    Aside E r i among n { w with mmc := Function.update w.mmc m s } := by
  refine h.spared ⟨Nat.le_refl _, id, fun m' hm' => ?_, rfl, rfl, fun _ => .rfl⟩
  by_cases hm : m' = m
  · subst hm
    simpa using hs hm'
  · simpa [hm] using hm'

/-- A request is changed: another one, or `r` in neither its handler nor its index. -/
theorem Aside.req {w : World} (h : Aside E r i among n w) (x : ReqId) {q : MmcRequest}
    (hsinks : (w.req x).Sinks q)
    (hr : x = r → q.failoverHandler = (w.req x).failoverHandler ∧
      q.failedIndex = (w.req x).failedIndex) :
    Aside E r i among n { w with req := Function.update w.req x q } := by
  refine h.spared ⟨Nat.le_refl _, id, fun _ => id, ?_, ?_, fun y => ?_⟩
  · by_cases hx : r = x
    · subst hx
      simpa using (hr rfl).1
    · simp [hx]
  · by_cases hx : r = x
    · subst hx
      simpa using (hr rfl).2
    · simp [hx]
  · by_cases hy : y = x
    · subst hy
      simpa using hsinks
    · simpa [hy] using MmcRequest.Sinks.rfl

/-- The change leaves the handler and the index alone. -/
theorem Aside.write {w : World} (h : Aside E r i among n w) (x : ReqId) {q : MmcRequest}
    (hhandler : q.failoverHandler = (w.req x).failoverHandler)
    (hindex : q.failedIndex = (w.req x).failedIndex) :
    Aside E r i among n { w with req := Function.update w.req x q } :=
  h.req x (.of_eq hhandler hindex) fun _ => ⟨hhandler, hindex⟩

/-! ## Servers, requests and keys -/

/-- A run that stops does so at a step that is not allowed. -/
abbrev stopped (e : Fault) : Prop := e = .stopped

theorem sustains_step (s : Step) : Sustains stopped (Aside E r i among n) (step E s) :=
  fun _ h => (ends_step _ _ _ _).mpr ⟨fun _ => h.log _, fun _ => rfl⟩

/-- Asking whether a server is valid takes time at most. -/
theorem ends_mmcServerValid (m : Mmc) (w : World) :
    Ends stopped (mmcServerValid E m) (fun _ w' => ∃ tick, w' = { w with tick := tick }) w := by
  rw [mmcServerValid, ends_bind, ends_getMmc]
  refine ends_ite (fun _ => ?_) fun _ => ends_ite (fun _ => ?_) fun _ => ?_
  · exact (ends_pure _ _ _).mpr ⟨w.tick, rfl⟩
  · exact (ends_pure _ _ _).mpr ⟨w.tick, rfl⟩
  · rw [ends_bind, ends_ask, ends_pure]
    exact ⟨_, rfl⟩

theorem sustains_mmcServerValid (m : Mmc) :
    Sustains stopped (Aside E r i among n) (mmcServerValid E m) := by
  intro w h
  refine ends_mono (ends_mmcServerValid m w) ?_
  rintro _ _ ⟨tick, rfl⟩
  exact h.tick tick

theorem sustains_mmcPoolRelease (hx : x ≠ r) :
    Sustains stopped (Aside E r i among n) (mmcPoolRelease E (some x)) := by
  refine (sustains_step _).bind fun _ w h => ?_
  rw [ends_modifyPool]
  refine h.spared ⟨Nat.le_refl _, fun hr => ?_, fun _ => id, rfl, rfl, fun _ => .rfl⟩
  rw [mem_mmcQueuePush] at hr
  rcases hr with hr | hr
  · exact hr
  · exact absurd (Option.some.inj hr).symm hx

/-- What `mmc_pool_request_alloc` hands out is another request; its old content does not matter, it
    gets a new handler. -/
theorem ends_mmcPoolRequestAlloc (protocol : MmcProto) {failover : FailoverHandler}
    (hfailover : failover ≠ .pool) {w : World} (h : Aside E r i among n w) :
    Ends stopped (mmcPoolRequestAlloc E protocol failover)
      (fun x w' => Aside E r i among n w' ∧ x ≠ r ∧ (w'.req x).failoverHandler ≠ .pool) w := by
  -- the request is written before its handler is; both writes together let its probes sink
  have hfinish (x : ReqId) (hx : x ≠ r) (p : MmcPool) (q : MmcRequest) (next : Nat)
      (hnext : w.nextReq ≤ next) (hfree : some r ∈ p.freeRequests → some r ∈ w.pool.freeRequests) :
      Ends stopped (do
          step E (.alloc x)
          modifyReq x fun q =>
            let q := { q with protocol, failoverHandler := failover }
            if protocol = .udp then q.appendSend (List.replicate udpHeaderSize 0) else q
          return x)
        (fun x w' => Aside E r i among n w' ∧ x ≠ r ∧ (w'.req x).failoverHandler ≠ .pool)
        { w with pool := p, nextReq := next, req := Function.update w.req x q } := by
    simp only [ends_bind, ends_step, ends_modifyReq, ends_pure, Function.update_self,
      Function.update_idem]
    refine ⟨fun _ => ?_, fun _ => trivial⟩
    have hhandler : (if protocol = .udp then
        ({ q with protocol, failoverHandler := failover } : MmcRequest).appendSend
          (List.replicate udpHeaderSize 0)
        else { q with protocol, failoverHandler := failover }).failoverHandler ≠ .pool := by
      split <;> exact hfailover
    refine ⟨h.spared ⟨hnext, hfree, fun _ => id, ?_, ?_, fun y => ?_⟩, hx, hhandler⟩
    · simp [Ne.symm hx]
    · simp [Ne.symm hx]
    · by_cases hy : y = x
      · subst hy
        simp only [Function.update_self]
        exact ⟨fun hpool => absurd hpool hhandler, fun hpool => absurd hpool hhandler⟩
      · simpa [hy] using MmcRequest.Sinks.rfl
  have hnew : w.nextReq ≠ r := Nat.ne_of_gt h.known
  rw [mmcPoolRequestAlloc, ends_bind, popFreeRequest, ends_bind, ends_getPool]
  rcases hfree : w.pool.freeRequests with _ | ⟨_ | x, rest⟩
  · rw [ends_newRequest]
    exact hfinish _ hnew w.pool _ _ (Nat.le_succ _) id
  · rw [ends_bind, ends_modifyPool, ends_newRequest]
    exact hfinish _ hnew { w.pool with freeRequests := rest } _ _ (Nat.le_succ _) fun hr => by
      rw [hfree]
      exact List.mem_cons_of_mem _ hr
  · have hx : x ≠ r := by
      rintro rfl
      exact h.free (by rw [hfree]; exact List.mem_cons_self)
    rw [ends_bind, ends_modifyPool, ends_bind, ends_modifyReq, ends_pure]
    exact hfinish x hx { w.pool with freeRequests := rest } _ _ (Nat.le_refl _) fun hr => by
      rw [hfree]
      exact List.mem_cons_of_mem _ hr

theorem ends_mmcPoolRequestGet (protocol : MmcProto) (valueHandler : Option ValueHandler) (call : Nat)
    {failover : FailoverHandler} (hfailover : failover ≠ .pool) {w : World}
    (h : Aside E r i among n w) :
    Ends stopped (mmcPoolRequestGet E protocol valueHandler call failover)
      (fun x w' => Aside E r i among n w' ∧ x ≠ r ∧ (w'.req x).failoverHandler ≠ .pool) w := by
  rw [mmcPoolRequestGet, ends_bind, mmcPoolRequest, ends_bind]
  refine ends_mono (ends_mmcPoolRequestAlloc protocol hfailover h) ?_
  rintro x w' ⟨h', hx, hpool⟩
  simp only [ends_bind, ends_modifyReq, ends_pure, Function.update_self, Function.update_idem]
  exact ⟨h'.write x rfl rfl, hx, hpool⟩

theorem sustains_findValidFrom (key : Bytes) (bound j : Nat) :
    Sustains stopped (Aside E r i among n) (findValidFrom E key bound j) := by
  induction bound generalizing j with
  | zero =>
    intro w h
    rw [findValidFrom, ends_bind, ends_getPool]
    exact (sustains_mmcServerValid _).bind (fun _ => .pure _) w h
  | succ bound ih =>
    intro w h
    rw [findValidFrom, ends_bind, ends_getPool]
    exact (sustains_mmcServerValid _).bind (fun _ => .ite (ih _) (.pure _)) w h

theorem sustains_mmcPoolFind (key : Bytes) :
    Sustains stopped (Aside E r i among n) (mmcPoolFind E key) := by
  intro w h
  rw [mmcPoolFind, ends_bind, ends_getPool]
  exact (sustains_mmcServerValid _).bind
    (fun _ => .ite (sustains_findValidFrom key _ _) (.pure _)) w h

/-! ## Multi-key gets -/

theorem kept_protocolBeginGet (p : WireProtocol) (op : MmcOp) (q : MmcRequest) :
    (protocolBeginGet p op q).failoverHandler = q.failoverHandler ∧
      (protocolBeginGet p op q).failedIndex = q.failedIndex := by
  cases p with
  | binary => exact ⟨rfl, rfl⟩
  | ascii =>
    unfold protocolBeginGet mmcAsciiBeginGet
    dsimp only
    split <;> exact ⟨rfl, rfl⟩

theorem kept_protocolAppendGet (p : WireProtocol) (zkey : ZKey) (key : Bytes) (q : MmcRequest) :
    (protocolAppendGet p zkey key q).failoverHandler = q.failoverHandler ∧
      (protocolAppendGet p zkey key q).failedIndex = q.failedIndex := by
  cases p with
  | ascii => exact ⟨rfl, rfl⟩
  | binary =>
    unfold protocolAppendGet mmcBinaryAppendGet MmcRequest.pushKey
    dsimp only
    split <;> exact ⟨rfl, rfl⟩

/-- A new request takes over the record of failed servers; it has no probes to make. -/
theorem ends_copyFailures {w : World} (h : Aside E r i among n w)
    (hx : x ≠ r) (hpool : (w.req x).failoverHandler ≠ .pool) (failed : Option ReqId) :
    Ends stopped (copyFailures x failed)
      (fun _ w' => Aside E r i among n w' ∧ w'.mmc = w.mmc) w := by
  cases failed with
  | none => exact (ends_pure _ _ _).mpr ⟨h, rfl⟩
  | some f =>
    rw [copyFailures, ends_bind, ends_getReq, ends_modifyReq]
    exact ⟨h.req x ⟨fun hq => absurd hq hpool, fun hq => absurd hq hpool⟩ fun hr => absurd hr hx, rfl⟩

theorem ends_beginBuild (m : Mmc) {a : GetArgs} (ha : a.failover ≠ .pool) {w : World}
    (h : Aside E r i among n w) :
    Ends stopped (beginBuild E m a)
      (fun _ w' => Aside E r i among n w' ∧ (w'.mmc m).buildreq ≠ none) w := by
  rw [beginBuild, ends_bind]
  refine ends_mono (ends_mmcPoolRequestGet a.protocol a.valueHandler a.call ha h)
    ?_
  rintro x w₁ ⟨h₁, hx, hpool⟩
  rw [ends_bind, ends_step]
  refine ⟨fun _ => ?_, fun _ => rfl⟩
  rw [ends_bind, ends_modifyMmc, ends_bind]
  have h₂ := (h₁.log (.build m x :: w₁.log)).mmc m (s := { w₁.mmc m with buildreq := some x })
    fun hm => ⟨hm.sending, hm.reading, fun hb => hx (Option.some.inj hb)⟩
  refine ends_mono (ends_copyFailures h₂ hx hpool a.failedRequest) ?_
  rintro _ w₃ ⟨h₃, hmmc⟩
  rw [ends_bind, ends_getPool, ends_modifyReq]
  have hbegin := kept_protocolBeginGet w₃.pool.protocol a.op (w₃.req x)
  refine ⟨h₃.write x hbegin.1 hbegin.2, ?_⟩
  simp [hmmc]

/-- No datagram is flushed, so a key is put into the request that is there or into a new one. -/
theorem ends_openBuild (hE : ∀ s w, E.allowed s w → s.isFlush = false) (fuel : Nat)
    (fh : Failover) (m : Mmc) {a : GetArgs} (ha : a.failover ≠ .pool) (key : Bytes) {w : World} (h : Aside E r i among n w) :
    Ends stopped (openBuild E fuel fh m a key)
      (fun _ w' => Aside E r i among n w' ∧ (w'.mmc m).buildreq ≠ none) w := by
  rw [openBuild, ends_bind, ends_getMmc]
  cases hbuild : (w.mmc m).buildreq with
  | none =>
    rw [ends_bind, ends_modifyPool]
    exact ends_beginBuild m ha (h.pool rfl)
  | some x =>
    rw [ends_bind, ends_getReq, ends_doWhen, ends_bind, ends_step]
    refine ⟨fun _ => ⟨fun hflush => absurd (hE _ _ hflush) Bool.true_eq_false.mp, fun _ => rfl⟩, fun _ => ⟨h, ?_⟩⟩
    rw [hbuild]
    exact Option.some_ne_none x

theorem sustains_mmcPoolScheduleGet (hE : ∀ s w, E.allowed s w → s.isFlush = false) (fuel : Nat)
    (fh : Failover) {a : GetArgs} (ha : a.failover ≠ .pool) (zkey : ZKey) :
    Sustains stopped (Aside E r i among n) (mmcPoolScheduleGet E fuel fh a zkey) := by
  unfold mmcPoolScheduleGet
  split
  · exact .pure _
  · next key _ =>
    refine (sustains_mmcPoolFind key).bind fun m => (sustains_mmcServerValid m).bind fun valid => ?_
    refine .ite (.pure _) fun w h => ?_
    rw [ends_bind]
    refine ends_mono (ends_openBuild hE fuel fh m ha key h) ?_
    rintro _ w' ⟨h', hbuild⟩
    rw [appendBuild, ends_bind, ends_getMmc]
    cases hx : (w'.mmc m).buildreq with
    | none => exact absurd hx hbuild
    | some x =>
      simp only [ends_bind, ends_getPool, ends_modifyReq, ends_pure]
      have happend := kept_protocolAppendGet w'.pool.protocol zkey key (w'.req x)
      exact h'.write x happend.1 happend.2

/-- The handler of a multi-key get hands its keys to new requests with its own handler. -/
theorem sustains_mmcValueFailoverHandler (hE : ∀ s w, E.allowed s w → s.isFlush = false) (fuel : Nat)
    (fh : Failover) (hx : x ≠ r) (c : Nat) {w : World} (h : Aside E r i among n w)
    (hpool : (w.req x).failoverHandler ≠ .pool) :
    Ends stopped (mmcValueFailoverHandler E fuel fh x c) (fun _ => Aside E r i among n) w := by
  have hkey (zkey : ZKey) : Sustains stopped (Aside E r i (among.erase x) n)
      (rescheduleKey E fuel fh x c zkey) := by
    intro w h
    have hother : (w.req x).failoverHandler ≠ .pool := fun hq =>
      absurd (h.pools x hq) (Finset.notMem_erase x among)
    rw [rescheduleKey, ends_bind, ends_getCall, ends_doWhen]
    refine ⟨fun _ => ?_, fun _ => h⟩
    rw [ends_bind, ends_step]
    refine ⟨fun _ => ?_, fun _ => rfl⟩
    rw [ends_bind, ends_getReq]
    exact (sustains_mmcPoolScheduleGet hE fuel fh hother zkey).bind (fun _ => .pure _) _ (h.log _)
  have hhandler : Sustains stopped (Aside E r i (among.erase x) n)
      (mmcValueFailoverHandler E fuel fh x c) := by
    intro w h
    rw [mmcValueFailoverHandler, ends_bind, ends_getReq]
    refine ends_ite (fun _ => ?_) fun _ => ?_
    · exact (sustains_mmcPoolRelease hx).bind (fun _ => .pure _) w h
    · refine (sustains_step _).bind (fun _ w h => ?_) w h
      rw [ends_bind, ends_getCall]
      exact (sustains_forEach fun zkey _ => hkey zkey).bind
        (fun _ => (sustains_mmcPoolRelease hx).bind fun _ => .pure _) w h
  exact ends_mono (hhandler w (h.erase hpool)) fun _ w' h' =>
    h'.mono (Finset.erase_subset x among) (Nat.le_refl n)

/-! ## Connections -/

theorem MmcServer.Lacks.not_mem_failing {s : MmcServer} (h : s.Lacks r) : r ∉ s.failing := by
  have hread := h.reading
  have hbuild := h.build
  simp only [MmcServer.readLine, List.mem_append, Option.mem_toList, not_or] at hread
  unfold MmcServer.failing
  cases hr : s.readreq <;> cases hb : s.buildreq <;> simp_all [eq_comm]

theorem MmcServer.Lacks.modifyIo {s : MmcServer} (h : s.Lacks r) (t : MmcProto)
    (f : MmcStream → MmcStream) : (s.modifyIo t f).Lacks r := by
  cases t <;> exact ⟨h.sending, h.reading, h.build⟩

theorem MmcServer.Lacks.slot {s : MmcServer} (h : s.Lacks r) {x : Option ReqId} (hx : x ≠ some r) :
    { s with sendreq := x : MmcServer }.Lacks r := by
  have hsend := h.sending
  simp only [MmcServer.sendLine, List.mem_append, Option.mem_toList, not_or] at hsend
  refine ⟨?_, h.reading, h.build⟩
  simp only [MmcServer.sendLine, List.mem_append, Option.mem_toList, not_or]
  exact ⟨hx, hsend.2⟩

theorem ends_takeOffline (m : Mmc) {w : World} (h : Aside E r i among n w) :
    Ends stopped (takeOffline E m) (fun failing w' => Aside E r i among n w' ∧ r ∉ failing) w := by
  simp only [takeOffline, ends_bind, ends_step, ends_ask, ends_modifyMmc, ends_modifyPool,
    ends_getMmc, ends_pure]
  refine ⟨fun _ => ?_, fun _ => trivial⟩
  have hoffline := (((h.log (.deactivate m :: w.log)).tick (w.tick + 1)).mmc m
    (s := { w.mmc m with
      tcp := (w.mmc m).tcp.disconnect.markFailed (E.time w.tick)
      udp := (w.mmc m).udp.disconnect.markFailed (E.time w.tick) })
    fun hm => ⟨hm.sending, hm.reading, hm.build⟩).pool (p := { w.pool with
      sendingBuf := Function.update w.pool.sendingBuf w.pool.cur (mmcQueueRemove w.pool.sending m)
      readingBuf := Function.update w.pool.readingBuf w.pool.cur (mmcQueueRemove w.pool.reading m) })
    rfl
  refine ⟨hoffline.mmc m fun _ => ⟨?_, ?_, Option.some_ne_none r ∘ Eq.symm⟩,
    (hoffline.lacks m).not_mem_failing⟩
  · exact List.not_mem_nil
  · exact List.not_mem_nil

section

variable {fh : Failover} (hfh : ∀ m x, x ≠ r → Sustains stopped (Aside E r i among n) (fh m x))

include hfh

theorem sustains_mmcServerDeactivate (m : Mmc) :
    Sustains stopped (Aside E r i among n) (mmcServerDeactivate E fh m) := by
  intro w h
  rw [mmcServerDeactivate, ends_bind]
  refine ends_mono (ends_takeOffline m h) ?_
  rintro failing w' ⟨h', hr⟩
  refine sustains_forEach (fun x hx => ?_) w' h'
  have hxr : x ≠ r := fun hxr => hr (hxr ▸ hx)
  exact (hfh m x hxr).bind fun _ => .pure _

theorem sustains_mmcServerConnect (m : Mmc) (t : MmcProto) (cause : Option ReqId) :
    Sustains stopped (Aside E r i among n) (mmcServerConnect E fh m t cause) := by
  intro w h
  have hclose : Ends stopped (doWhen ((w.mmc m).io t).stream.isSome
      (modifyMmc m fun s => s.modifyIo t MmcStream.disconnect)) (fun _ => Aside E r i among n) w := by
    rw [ends_doWhen, ends_modifyMmc]
    exact ⟨fun _ => h.mmc m fun hm => hm.modifyIo t _, fun _ => h⟩
  rw [mmcServerConnect, ends_bind, ends_getMmc, ends_bind]
  refine ends_mono hclose fun _ w h => ?_
  rw [ends_bind, ends_ask]
  dsimp only
  cases E.connect w.tick with
  | some fd =>
    refine (sustains_step _).bind (fun _ w h => ?_) _ (h.tick _)
    rw [ends_bind, ends_modifyMmc, ends_pure]
    refine h.mmc m fun hm => ?_
    cases t <;> exact ⟨hm.sending, hm.reading, hm.build⟩
  | none =>
    refine (sustains_step _).bind (fun _ w h => ?_) _ (h.tick _)
    rw [ends_bind, mmcServerSeterror, ends_modifyMmc]
    exact (sustains_mmcServerDeactivate hfh m).bind (fun _ => .pure _) _
      (h.mmc m fun hm => ⟨hm.sending, hm.reading, hm.build⟩)

theorem sustains_mmcPoolOpen (m : Mmc) (t : MmcProto) (cause : Option ReqId) :
    Sustains stopped (Aside E r i among n) (mmcPoolOpen E fh m t cause) := by
  intro w h
  rw [mmcPoolOpen, ends_bind, ends_getMmc]
  cases ((w.mmc m).io t).status with
  | connected => exact (ends_pure _ _ _).mpr h
  | unknown => exact (ends_pure _ _ _).mpr h
  | disconnected => exact sustains_mmcServerConnect hfh m t cause w h
  | failed => exact sustains_mmcServerConnect hfh m t cause w h

end

end PeclMemcache
