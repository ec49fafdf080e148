import PeclMemcache.Rounds

set_option autoImplicit false

/-! # Requests that are handed out

`mmc_pool_request_alloc` takes a request that nobody holds: one from the free list, or a new one. Between
the operations of the API only the build slots hold requests. -/

namespace PeclMemcache

open Stateful

/-! ## Handing out and taking back -/

section Handing

variable {held : Set ReqId} {phase : Phase} {w w' : World} {r : ReqId}

/-- A change of a request that leaves its stream alone keeps the order. -/
theorem World.Tidy.modifyReq (h : w.Tidy held phase) {q : MmcRequest}
    (hq : (w.req r).ReadsUdp → q.ReadsUdp) :
    World.Tidy { w with req := Function.update w.req r q } held phase where
  toAccounted := by
    refine h.toAccounted.of_holds (fun p x => ?_) rfl fun x hx => ?_
    · cases p with
      | line m => exact Iff.rfl
      | free => exact Iff.rfl
      | held => exact Iff.rfl
    · by_cases heq : x = r
      · subst heq
        simpa using hq hx
      · simpa [heq] using hx
  toServed := h.toServed.of_same rfl fun _ => rfl
  toWatched := h.toWatched.of_queues rfl fun _ _ => rfl
  inLine := h.inLine
  freeNodup := h.freeNodup
  up := h.up

/-- The build slots are no part of the order. -/
theorem World.Tidy.setBuild (h : w.Tidy held phase) (m : Mmc) (b : Option ReqId) :
    World.Tidy { w with mmc := Function.update w.mmc m { w.mmc m with buildreq := b } } held phase := by
  have hin := h.inLine m
  exact h.sameLine ⟨hin.suffix, hin.sendFirst, hin.readFirst, hin.nodup⟩ rfl rfl id rfl

/-- A request that was free or new is held. -/
theorem World.Tidy.take (h : w.Tidy held phase) (hmmc : w'.mmc = w.mmc)
    (hfree : ∀ x, some x ∈ w'.pool.freeRequests ↔ x ≠ r ∧ some x ∈ w.pool.freeRequests)
    (hnodup : w'.pool.freeRequests.Nodup) (hline : ∀ m, r ∉ (w.mmc m).readLine) (hheld : r ∉ held)
    (hnext : w.nextReq ≤ w'.nextReq) (hnew : ∀ x, x ≠ r → x < w'.nextReq → x < w.nextReq)
    (hothers : ∀ x, x ≠ r → w'.req x = w.req x) (hr : r < w'.nextReq ∧ (w'.req r).ReadsUdp)
    (hservices : w'.services = w.services) (hqueues : w'.pool.queues = w.pool.queues) :
    w'.Tidy (insert r held) phase where
  toAccounted := by
    refine h.toAccounted.place (r := r) (p := .held) (fun q x => ?_) hnext hnew
      (fun x hx => (hothers x hx) ▸ id) hr
    cases q with
    | line m =>
      change x ∈ (w'.mmc m).readLine ↔ x ≠ r ∧ x ∈ (w.mmc m).readLine ∨ _
      rw [hmmc]
      refine ⟨fun hx => Or.inl ⟨fun heq => hline m (heq ▸ hx), hx⟩, fun hx => ?_⟩
      exact (hx.resolve_right fun h => by cases h.2).2
    | free =>
      refine (hfree x).trans ⟨Or.inl, fun hx => hx.resolve_right fun h => by cases h.2⟩
    | held =>
      change x ∈ insert r held ↔ x ≠ r ∧ x ∈ held ∨ _
      simp only [Set.mem_insert_iff, and_true]
      refine ⟨fun hx => hx.elim Or.inr fun hx => Or.inl ⟨fun heq => hheld (heq ▸ hx), hx⟩, fun hx => ?_⟩
      exact hx.elim (fun hx => Or.inr hx.2) Or.inl
  toServed := h.toServed.of_same hservices fun m => by rw [hmmc]
  toWatched := h.toWatched.of_queues hqueues fun d m => by rw [hmmc]
  inLine m := hmmc ▸ h.inLine m
  freeNodup := hnodup
  up m := hmmc ▸ h.up m

/-- A request that is held goes to the free list. -/
theorem World.Tidy.giveBack (h : w.Tidy (insert r held) phase) (hr : r ∉ held) (hmmc : w'.mmc = w.mmc)
    (hfree : w'.pool.freeRequests = mmcQueuePush w.pool.freeRequests (some r)) (hreq : w'.req = w.req)
    (hnext : w'.nextReq = w.nextReq) (hservices : w'.services = .leave r :: w.services)
    (hqueues : w'.pool.queues = w.pool.queues) : w'.Tidy held phase where
  toAccounted := by
    have hmem : r ∈ insert r held := Set.mem_insert r held
    refine h.toAccounted.place (r := r) (p := .free) (fun q x => ?_) hnext.ge
      (fun x _ hx => hnext ▸ hx) (fun x _ => hreq ▸ id) ?_
    · cases q with
      | line m =>
        change x ∈ (w'.mmc m).readLine ↔ x ≠ r ∧ x ∈ (w.mmc m).readLine ∨ _
        rw [hmmc]
        refine ⟨fun hx => Or.inl ⟨fun heq => h.not_line_of_held hmem m (heq ▸ hx), hx⟩, fun hx => ?_⟩
        exact (hx.resolve_right fun h => by cases h.2).2
      | free =>
        change some x ∈ w'.pool.freeRequests ↔ x ≠ r ∧ some x ∈ w.pool.freeRequests ∨ _
        simp only [hfree, mem_mmcQueuePush, Option.some_inj, and_true]
        refine ⟨fun hx => hx.imp_left fun hx => ?_, fun hx => hx.imp_left And.right⟩
        exact ⟨fun heq => h.not_held_of_free (heq ▸ hx) hmem, hx⟩
      | held =>
        change x ∈ held ↔ x ≠ r ∧ x ∈ insert r held ∨ _
        refine ⟨fun hx => Or.inl ⟨fun heq => hr (heq ▸ hx), Set.mem_insert_of_mem r hx⟩, fun hx => ?_⟩
        have hx := hx.resolve_right fun h => by cases h.2
        exact (Set.mem_insert_iff.mp hx.2).resolve_left hx.1
    · rw [hreq, hnext]
      exact h.known r .held hmem
  toServed := by
    have habsent (m : Mmc) : r ∉ Turns.line m w.services := by
      rw [h.line]
      exact h.not_line_of_held (Set.mem_insert r held) m
    refine ⟨hservices ▸ ⟨fun m hmem => absurd hmem (habsent m), h.inTurn⟩, fun m => ?_⟩
    rw [hservices, Turns.line_leave_of_not_mem (habsent m), h.line, hmmc]
  toWatched := h.toWatched.of_queues hqueues fun d m => by rw [hmmc]
  inLine m := hmmc ▸ h.inLine m
  freeNodup := hfree ▸ nodup_mmcQueuePush h.freeNodup _
  up m := hmmc ▸ h.up m

end Handing

/-! ## The commands of requests -/

/-- What the encoders of a protocol see of a request. -/
structure MmcRequest.EncodesAs (p : WireProtocol) (q q' : MmcRequest) : Prop where
  protocol : q'.protocol = q.protocol
  value : q'.sendbuf.value = q.sendbuf.value
  keys : p = .binary → q'.bin.keys = q.bin.keys

/-- A request as `mmc_pool_request_alloc` hands it out: with room for the header of a datagram if it is to
    be delivered in one. -/
def allocated (protocol : MmcProto) : MmcRequest :=
  if protocol = .udp then ({ protocol } : MmcRequest).appendSend (List.replicate udpHeaderSize 0)
  else { protocol }

namespace MmcRequest.EncodesAs

variable {p : WireProtocol} {q q' q'' : MmcRequest}

theorem trans (h : q.EncodesAs p q') (h' : q'.EncodesAs p q'') : q.EncodesAs p q'' where
  protocol := h'.protocol.trans h.protocol
  value := h'.value.trans h.value
  keys hp := (h'.keys hp).trans (h.keys hp)

theorem sameCommand (h : q.EncodesAs p q') : q.SameCommand q' := .of_value h.protocol h.value

theorem appendSend (h : q.EncodesAs p q') (b : Bytes) :
    (q.appendSend b).EncodesAs p (q'.appendSend b) :=
  ⟨h.protocol, by simp [MmcRequest.appendSend, h.value], h.keys⟩

theorem pushKey (h : q.EncodesAs .binary q') (zkey : ZKey) :
    (q.pushKey zkey).EncodesAs .binary (q'.pushKey zkey) := by
  have hkeys : q'.bin.keys = q.bin.keys := h.keys rfl
  unfold MmcRequest.pushKey
  rw [hkeys]
  by_cases hold : q.bin.keys.any fun k => k.ptr = zkey.ptr
  · rw [if_pos hold, if_pos hold]
    exact h
  · rw [if_neg hold, if_neg hold]
    exact ⟨h.protocol, h.value, fun _ => rfl⟩

theorem beginGet (h : q.EncodesAs p q') (op : MmcOp) :
    (protocolBeginGet p op q).EncodesAs p (protocolBeginGet p op q') := by
  cases p with
  | ascii =>
    have hparse : MmcRequest.EncodesAs .ascii { q with parse := some .asciiParseValue }
        { q' with parse := some .asciiParseValue } := ⟨h.protocol, h.value, h.keys⟩
    change (mmcAsciiBeginGet q op).EncodesAs .ascii (mmcAsciiBeginGet q' op)
    unfold mmcAsciiBeginGet
    by_cases hop : op = .gets
    · simp only [if_pos hop]
      exact hparse.appendSend _
    · simp only [if_neg hop]
      exact hparse.appendSend _
  | binary => exact ⟨h.protocol, h.value, h.keys⟩

theorem appendGet (h : q.EncodesAs p q') (zkey : ZKey) (key : Bytes) :
    (protocolAppendGet p zkey key q).EncodesAs p (protocolAppendGet p zkey key q') := by
  cases p with
  | ascii => exact (h.appendSend _).appendSend _
  | binary =>
    change (mmcBinaryAppendGet q zkey key).EncodesAs .binary (mmcBinaryAppendGet q' zkey key)
    unfold mmcBinaryAppendGet
    rw [h.keys rfl]
    exact ((h.appendSend _).appendSend _).pushKey zkey

theorem endGet (h : q.EncodesAs p q') : (protocolEndGet p q).EncodesAs p (protocolEndGet p q') := by
  cases p with
  | ascii => exact h.appendSend _
  | binary =>
    change (mmcBinaryEndGet q).EncodesAs .binary (mmcBinaryEndGet q')
    unfold mmcBinaryEndGet
    rw [h.keys rfl]
    exact h.appendSend _

end MmcRequest.EncodesAs

theorem protocolBeginGet_readsUdp (p : WireProtocol) (op : MmcOp) {q : MmcRequest} (hq : q.ReadsUdp) :
    (protocolBeginGet p op q).ReadsUdp := by
  cases p with
  | ascii =>
    change (mmcAsciiBeginGet q op).ReadsUdp
    unfold mmcAsciiBeginGet
    split
    · exact hq
    · exact hq
  | binary => exact hq

theorem protocolAppendGet_readsUdp (p : WireProtocol) (zkey : ZKey) (key : Bytes) {q : MmcRequest}
    (hq : q.ReadsUdp) : (protocolAppendGet p zkey key q).ReadsUdp := by
  cases p with
  | ascii => exact hq
  | binary =>
    change (mmcBinaryAppendGet q zkey key).ReadsUdp
    unfold mmcBinaryAppendGet MmcRequest.pushKey
    split
    · exact hq
    · exact hq

theorem protocolEndGet_readsUdp (p : WireProtocol) {q : MmcRequest} (hq : q.ReadsUdp) :
    (protocolEndGet p q).ReadsUdp := by
  cases p with
  | ascii => exact hq
  | binary => exact hq

/-! ## `mmc_pool_request_alloc` -/

section Alloc

variable {held : Set ReqId} {w w' : World} {r : ReqId}

/-- What the request handed out is not: held, or in a slot or a queue. -/
structure Fresh (held : Set ReqId) (r : ReqId) (w w' : World) : Prop extends SameSlots w w' where
  fresh : r ∉ held
  tidy : w'.Tidy (insert r held) .between
  mmc : w'.mmc = w.mmc
  others : ∀ x, x ≠ r → w'.req x = w.req x

/-- A request is popped from the free list or created. -/
structure Popped (held : Set ReqId) (r : ReqId) (w w' : World) : Prop extends Fresh held r w w' where
  log : w'.log = w.log
  value : (w'.req r).sendbuf.value = []
  keys : w.pool.protocol = .binary → (w'.req r).bin.keys = []

/-- A request is handed out; what the encoders see of it is `q`. -/
structure HandedOut (held : Set ReqId) (q : MmcRequest) (r : ReqId) (w w' : World) : Prop
    extends Fresh held r w w' where
  log : w'.log = .alloc r :: w.log
  encodes : q.EncodesAs w.pool.protocol (w'.req r)

theorem resetRequest_readsUdp (p : WireProtocol) {q : MmcRequest} (hq : q.ReadsUdp) :
    (resetRequest p q).ReadsUdp := by
  cases p with
  | ascii => exact hq
  | binary => exact hq

theorem resetRequest_value (p : WireProtocol) (q : MmcRequest) :
    (resetRequest p q).sendbuf.value = [] := by
  cases p <;> rfl

theorem World.Tidy.not_line_of_free (h : w.Tidy held .between) (hr : some r ∈ w.pool.freeRequests) (m : Mmc) :
    r ∉ (w.mmc m).readLine := fun hline => by cases h.one r .free (.line m) hr hline

/-- A new request is nowhere. -/
theorem World.Tidy.newRequest_popped (h : w.Tidy held .between) {free : List (Option ReqId)}
    (hsub : free.Sublist w.pool.freeRequests)
    (hall : ∀ x, some x ∈ free ↔ some x ∈ w.pool.freeRequests) :
    Popped held w.nextReq w { w with
      pool := { w.pool with freeRequests := free }
      nextReq := w.nextReq + 1
      req := Function.update w.req w.nextReq {} } where
  toSameSlots := ⟨fun _ => rfl, rfl, rfl, rfl⟩
  fresh hheld := absurd (h.known _ .held hheld).1 (Nat.lt_irrefl _)
  tidy := by
    have hnew : ¬ w.nextReq < w.nextReq := Nat.lt_irrefl _
    refine h.take rfl (fun x => ?_) (h.freeNodup.sublist hsub) (fun m hline => ?_) (fun hheld => ?_)
      (Nat.le_succ _) (fun x hx hlt => ?_) (fun x hx => Function.update_of_ne hx _ _)
      ⟨Nat.lt_succ_self _, fun hread => ?_⟩ rfl rfl
    · rw [← hall x]
      exact ⟨fun hx => ⟨fun heq => hnew (heq ▸ (h.known x .free ((hall x).mp hx)).1), hx⟩, And.right⟩
    · exact absurd (h.known _ (.line m) hline).1 hnew
    · exact absurd (h.known _ .held hheld).1 hnew
    · exact Nat.lt_of_le_of_ne (Nat.le_of_lt_succ hlt) hx
    · simp at hread
  mmc := rfl
  others x hx := Function.update_of_ne hx _ _
  log := rfl
  value := by simp
  keys _ := by simp

theorem popFreeRequest_popped (h : w.Tidy held .between) :
    wp popFreeRequest (fun r w' => Popped held r w w') (fun _ => False) w := by
  rw [popFreeRequest, wp_bind, wp_getPool]
  rcases hfree : w.pool.freeRequests with _ | ⟨_ | r, rest⟩
  · rw [wp_newRequest]
    exact h.newRequest_popped (List.Sublist.refl _) fun _ => Iff.rfl
  · simp only [wp_bind, wp_modifyPool, wp_newRequest]
    exact h.newRequest_popped (hfree ▸ List.sublist_cons_self _ _) fun x => by simp [hfree]
  · simp only [wp_bind, wp_modifyPool, wp_modifyReq, wp_pure]
    have hr : some r ∈ w.pool.freeRequests := hfree ▸ List.mem_cons_self
    have hnodup := hfree ▸ h.freeNodup
    refine ⟨⟨⟨fun _ => rfl, rfl, rfl, rfl⟩, h.not_held_of_free hr, ?_, rfl,
      fun x hx => Function.update_of_ne hx _ _⟩, rfl, ?_, fun hp => ?_⟩
    · refine h.take rfl (fun x => ?_) (List.nodup_cons.mp hnodup).2 (h.not_line_of_free hr)
        (h.not_held_of_free hr) (Nat.le_refl _) (fun _ _ => id) (fun x hx => Function.update_of_ne hx _ _)
        ⟨?_, ?_⟩ rfl rfl
      · rw [hfree, List.mem_cons, Option.some_inj]
        refine ⟨fun hx => ⟨fun heq => (List.nodup_cons.mp hnodup).1 (heq ▸ hx), Or.inr hx⟩, fun hx => ?_⟩
        exact hx.2.resolve_left hx.1
      · exact (h.known r .free hr).1
      · simpa using resetRequest_readsUdp w.pool.protocol (h.known r .free hr).2
    · simp [resetRequest_value]
    · simp [resetRequest, hp, mmcBinaryResetRequest, mmcRequestReset]

/-- The content of the request that was handed out is written. -/
theorem Fresh.write (h : Fresh held r w w') {q : MmcRequest}
    (hudp : (w'.req r).ReadsUdp → q.ReadsUdp) {log : List Step}
    (hlog : log.filterMap Step.service = w'.services) :
    Fresh held r w { w' with req := Function.update w'.req r q, log := log } where
  toSameSlots := ⟨h.build, h.pending, h.protocol, h.findServer⟩
  fresh := h.fresh
  tidy := (h.tidy.modifyReq hudp).of_unchanged rfl rfl rfl rfl rfl hlog
  mmc := h.mmc
  others x hx := (Function.update_of_ne hx _ _).trans (h.others x hx)

theorem HandedOut.write {q q₁ q₂ : MmcRequest} (h : HandedOut held q r w w')
    (hudp : (w'.req r).ReadsUdp → q₂.ReadsUdp) (henc : q₁.EncodesAs w.pool.protocol q₂) :
    HandedOut held q₁ r w { w' with req := Function.update w'.req r q₂ } where
  toFresh := h.toFresh.write hudp rfl
  log := h.log
  encodes := by simpa using henc

theorem mmcPoolRequestAlloc_handedOut (E : Env) (protocol : MmcProto) (failover : FailoverHandler)
    (h : w.Tidy held .between) :
    wp (mmcPoolRequestAlloc E protocol failover) (HandedOut held (allocated protocol) · w)
      (fun w' => ∃ r, Popped held r w w') w := by
  rw [mmcPoolRequestAlloc, wp_bind]
  refine wp_mono (popFreeRequest_popped h) (fun r w₁ h₁ => ?_) fun _ => False.elim
  simp only [wp_bind, wp_step, wp_modifyReq, wp_pure]
  refine ⟨fun _ => ?_, fun _ => ⟨r, h₁⟩⟩
  refine ⟨h₁.toFresh.write (fun hread => ?_) (World.services_step (s := .alloc r) rfl), by rw [h₁.log], ?_⟩
  · split
    · exact hread
    · exact hread
  · simp only [Function.update_self, allocated]
    split
    · exact ⟨rfl, by simp [MmcRequest.appendSend, h₁.value], h₁.keys⟩
    · exact ⟨rfl, h₁.value, h₁.keys⟩

theorem mmcPoolRequest_handedOut (E : Env) (protocol : MmcProto) (responseHandler : ResponseHandler)
    (call : Nat) (failover : FailoverHandler) (h : w.Tidy held .between) :
    wp (mmcPoolRequest E protocol responseHandler call failover) (HandedOut held (allocated protocol) · w)
      (fun w' => ∃ r, Popped held r w w') w := by
  rw [mmcPoolRequest, wp_bind]
  refine wp_mono (mmcPoolRequestAlloc_handedOut E protocol failover h) (fun r w₁ h₁ => ?_) fun _ => id
  simp only [wp_bind, wp_modifyReq, wp_pure]
  exact h₁.write id (h₁.encodes.trans ⟨rfl, rfl, fun _ => rfl⟩)

theorem mmcPoolRequestGet_handedOut (E : Env) (protocol : MmcProto) (valueHandler : Option ValueHandler)
    (call : Nat) (failover : FailoverHandler) (h : w.Tidy held .between) :
    wp (mmcPoolRequestGet E protocol valueHandler call failover) (HandedOut held (allocated protocol) · w)
      (fun w' => ∃ r, Popped held r w w') w := by
  rw [mmcPoolRequestGet, wp_bind]
  refine wp_mono (mmcPoolRequest_handedOut E protocol .null call failover h) (fun r w₁ h₁ => ?_) fun _ => id
  simp only [wp_bind, wp_modifyReq, wp_pure]
  exact h₁.write id (h₁.encodes.trans ⟨rfl, rfl, fun _ => rfl⟩)

end Alloc

end PeclMemcache
