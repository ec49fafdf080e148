import PeclMemcache.Handing
import PeclMemcache.Packing

set_option autoImplicit false

/-! # Multi-key gets under construction

`mmc_pool_schedule_get` builds one request for each server, and while the datagram of one of them is full
it sends the request off and runs a round before it builds the next. -/

namespace PeclMemcache

open Stateful Packing

/-! ## What was sent -/

/-- The requests that steps, the last one first, scheduled on a server, in order; `none` for one that was
    handed out again since. -/
def scheduledOn (m : Mmc) : List Step → List (Option ReqId)
  | [] => []
  | .schedule m' r :: rest =>
    if m' = m then scheduledOn m rest ++ [some r] else scheduledOn m rest
  | .alloc r :: rest => (scheduledOn m rest).map fun x => if x = some r then none else x
  | _ :: rest => scheduledOn m rest

theorem scheduledOn_quiet {s : Step} (hs : s.Quiet) (m : Mmc) (rest : List Step) :
    scheduledOn m (s :: rest) = scheduledOn m rest := by
  cases s with
  | alloc r => exact hs.elim
  | schedule m r => exact hs.elim
  | _ => rfl

theorem scheduledOn_append {steps : List Step} (hsteps : ∀ s ∈ steps, s.Quiet) (m : Mmc)
    (rest : List Step) : scheduledOn m (steps ++ rest) = scheduledOn m rest := by
  induction steps with
  | nil => rfl
  | cons s steps ih =>
    rw [List.cons_append, scheduledOn_quiet (hsteps s List.mem_cons_self)]
    exact ih fun s' hs' => hsteps s' (List.mem_cons_of_mem _ hs')

/-- The request in question was scheduled and is not held; it has the command of `q`. -/
def Carries (held : Set ReqId) (w : World) (x : Option ReqId) (q : MmcRequest) : Prop :=
  ∀ r, x = some r → r ∉ held ∧ q.SameCommand (w.req r)

/-- Since `w₀` the requests `sent` were scheduled, in order; none of them is held. -/
def Sent (held : Set ReqId) (sent : Mmc → List MmcRequest) (w₀ w : World) : Prop :=
  ∃ steps, w.log = steps ++ w₀.log ∧ ∀ m, List.Forall₂ (Carries held w) (scheduledOn m steps) (sent m)

namespace Sent

variable {held held' : Set ReqId} {sent : Mmc → List MmcRequest} {w₀ w w' : World} {r : ReqId}

theorem start (held : Set ReqId) (w₀ : World) : Sent held (fun _ => []) w₀ w₀ :=
  ⟨[], rfl, fun _ => .nil⟩

theorem quiet (h : Sent held sent w₀ w) (hq : Quiet w w') : Sent held sent w₀ w' := by
  obtain ⟨steps, hlog, hsent⟩ := h
  obtain ⟨steps', hlog', hquiet⟩ := hq.quiet
  refine ⟨steps' ++ steps, by rw [hlog', hlog, List.append_assoc], fun m => ?_⟩
  rw [scheduledOn_append hquiet]
  refine (hsent m).imp fun x q hx r hr => ?_
  exact ⟨(hx r hr).1, (hx r hr).2.trans (hq.sameCommand r)⟩

theorem subset (h : Sent held sent w₀ w) (hsub : held' ⊆ held) : Sent held' sent w₀ w := by
  obtain ⟨steps, hlog, hsent⟩ := h
  exact ⟨steps, hlog, fun m => (hsent m).imp fun x q hx r hr => ⟨fun hmem => (hx r hr).1 (hsub hmem),
    (hx r hr).2⟩⟩

/-- Requests that are held are written. -/
theorem write (h : Sent held sent w₀ w) (hreq : ∀ x, x ∉ held → w'.req x = w.req x)
    (hlog : w'.log = w.log) : Sent held sent w₀ w' := by
  obtain ⟨steps, hlog₀, hsent⟩ := h
  refine ⟨steps, hlog.trans hlog₀, fun m => (hsent m).imp fun x q hx r hr => ?_⟩
  exact ⟨(hx r hr).1, hreq r (hx r hr).1 ▸ (hx r hr).2⟩

/-- A request is handed out. -/
theorem alloc (h : Sent held sent w₀ w) (hlog : w'.log = .alloc r :: w.log)
    (hreq : ∀ x, x ≠ r → w'.req x = w.req x) : Sent (insert r held) sent w₀ w' := by
  obtain ⟨steps, hlog₀, hsent⟩ := h
  refine ⟨.alloc r :: steps, by rw [hlog, hlog₀, List.cons_append], fun m => ?_⟩
  rw [scheduledOn, List.forall₂_map_left_iff]
  refine (hsent m).imp fun x q hx r' hr' => ?_
  by_cases heq : x = some r
  · rw [if_pos heq] at hr'
    cases hr'
  · rw [if_neg heq] at hr'
    obtain ⟨hheld, hcommand⟩ := hx r' hr'
    have hne : r' ≠ r := fun h => heq (h ▸ hr')
    refine ⟨fun hmem => ?_, hreq r' hne ▸ hcommand⟩
    exact (Set.mem_insert_iff.mp hmem).elim hne hheld

/-- A request that was held is scheduled. -/
theorem schedule (h : Sent (insert r held) sent w₀ w) (hr : r ∉ held) {q : MmcRequest}
    (hq : q.SameCommand (w.req r)) (m : Mmc) :
    Sent held (Function.update sent m (sent m ++ [q])) w₀ { w with log := .schedule m r :: w.log } := by
  obtain ⟨steps, hlog₀, hsent⟩ := h.subset (Set.subset_insert r held)
  refine ⟨.schedule m r :: steps, congrArg (List.cons _) hlog₀, fun m' => ?_⟩
  rw [scheduledOn]
  by_cases hm : m = m'
  · subst hm
    rw [if_pos rfl, Function.update_self]
    refine List.rel_append (hsent m) (.cons (fun r' hr' => ?_) .nil)
    cases hr'
    exact ⟨hr, hq⟩
  · rw [if_neg hm, Function.update_of_ne (Ne.symm hm)]
    exact hsent m'

end Sent

/-- In `w`, every request scheduled since `w₀` has, as long as it waits at its server, the command of the
    request that `requests` has in its place. -/
def Delivers (requests : Mmc → List MmcRequest) (w₀ w : World) : Prop :=
  ∃ steps, w.log = steps ++ w₀.log ∧ ∀ m, ∃ sent, sent <+: requests m ∧
    List.Forall₂ (fun x q => ∀ r, x = some r → r ∈ (w.mmc m).readLine → q.SameCommand (w.req r))
      (scheduledOn m steps) sent

section Delivers

variable {held : Set ReqId} {sent requests requests' : Mmc → List MmcRequest} {w₀ w w' : World}

theorem Delivers.mono (h : Delivers requests w₀ w) (hpre : ∀ m, requests m <+: requests' m) :
    Delivers requests' w₀ w := by
  obtain ⟨steps, hlog, hsent⟩ := h
  refine ⟨steps, hlog, fun m => ?_⟩
  obtain ⟨done, hdone, hcommands⟩ := hsent m
  exact ⟨done, hdone.trans (hpre m), hcommands⟩

theorem Sent.delivers (h : Sent held sent w₀ w) : Delivers sent w₀ w := by
  obtain ⟨steps, hlog, hsent⟩ := h
  exact ⟨steps, hlog, fun m => ⟨sent m, List.prefix_refl _,
    (hsent m).imp fun x q hx r hr _ => (hx r hr).2⟩⟩

/-- A request that was just taken from the free list waits nowhere. -/
theorem Sent.delivers_popped (h : Sent held sent w₀ w) {r : ReqId} (hr : Popped held r w w') :
    Delivers sent w₀ w' := by
  obtain ⟨steps, hlog, hsent⟩ := h
  refine ⟨steps, hr.log.trans hlog, fun m => ⟨sent m, List.prefix_refl _, ?_⟩⟩
  refine (hsent m).imp fun x q hx r' hr' hline => ?_
  have hne : r' ≠ r := fun heq =>
    hr.tidy.not_line_of_held (Set.mem_insert r held) m (heq ▸ hline)
  exact hr.others r' hne ▸ (hx r' hr').2

end Delivers

/-! ## Build slots -/

/-- The requests in the build slots. -/
def World.builds (w : World) : Set ReqId := {r | ∃ m, (w.mmc m).buildreq = some r}

/-- Those of the other servers. -/
def World.buildsBut (w : World) (m : Mmc) : Set ReqId := {r | ∃ m', m' ≠ m ∧ (w.mmc m').buildreq = some r}

/-- The state of a pool between operations: only the build slots hold requests, each its own, and exactly
    the servers with one are pending. -/
structure World.Orderly (w : World) : Prop where
  tidy : w.Tidy w.builds .between
  distinct : ∀ m m' r, (w.mmc m).buildreq = some r → (w.mmc m').buildreq = some r → m = m'
  nodup : w.pool.pending.Nodup
  pending : ∀ m, m ∈ w.pool.pending ↔ (w.mmc m).buildreq ≠ none

/-- The requests of a server as bins for keys. -/
def requestPacker (p : WireProtocol) (a : GetArgs) : Packer (ZKey × Bytes) MmcRequest where
  empty := protocolBeginGet p a.op (allocated a.protocol)
  put q k := protocolAppendGet p k.1 k.2 q
  full q k := decide (datagramFull a q k.2)

/-- The requests that were closed. -/
def closedGets (p : WireProtocol) (bins : Mmc → Bins MmcRequest) (m : Mmc) : List MmcRequest :=
  (bins m).closed.map (protocolEndGet p)

/-- The pool while multi-key gets are built: the closed bins of a server were sent, the bin at hand is in
    its build slot. -/
structure Gathering (p : WireProtocol) (bins : Mmc → Bins MmcRequest) (w₀ w : World) : Prop
    extends w.Orderly where
  protocol : w.pool.protocol = p
  findServer : w.pool.findServer = w₀.pool.findServer
  sent : Sent w.builds (closedGets p bins) w₀ w
  building : ∀ m, Option.Rel (fun q r => q.EncodesAs p (w.req r)) (bins m).current (w.mmc m).buildreq

section Builds

variable {p : WireProtocol} {bins : Mmc → Bins MmcRequest} {w₀ w w' : World} {m : Mmc} {r : ReqId}

theorem World.Orderly.not_mem_buildsBut (h : w.Orderly) (hr : (w.mmc m).buildreq = some r) :
    r ∉ w.buildsBut m := by
  rintro ⟨m', hm, hr'⟩
  exact hm (h.distinct m' m r hr' hr)

theorem World.builds_of_some (hr : (w.mmc m).buildreq = some r) :
    w.builds = insert r (w.buildsBut m) := by
  ext x
  constructor
  · rintro ⟨m', hx⟩
    by_cases hm : m' = m
    · subst hm
      exact Or.inl (Option.some_inj.mp (hx.symm.trans hr))
    · exact Or.inr ⟨m', hm, hx⟩
  · rintro (rfl | ⟨m', _, hx⟩)
    · exact ⟨m, hr⟩
    · exact ⟨m', hx⟩

theorem World.builds_of_none (hr : (w.mmc m).buildreq = none) : w.builds = w.buildsBut m := by
  ext x
  constructor
  · rintro ⟨m', hx⟩
    refine ⟨m', fun hm => ?_, hx⟩
    rw [hm, hr] at hx
    cases hx
  · rintro ⟨m', _, hx⟩
    exact ⟨m', hx⟩

/-- The other build slots are as before. -/
theorem World.buildsBut_congr (hother : ∀ m', m' ≠ m → (w'.mmc m').buildreq = (w.mmc m').buildreq) :
    w'.buildsBut m = w.buildsBut m := by
  ext x
  refine exists_congr fun m' => and_congr_right fun hm => ?_
  rw [hother m' hm]

/-- While the build slot of `m` is worked on, nothing happens to the others. -/
structure SetAside (m : Mmc) (sent : Mmc → List MmcRequest) (w₀ w w' : World) : Prop where
  build : ∀ m', (w'.mmc m').buildreq = (w.mmc m').buildreq
  protocol : w'.pool.protocol = w.pool.protocol
  findServer : w'.pool.findServer = w.pool.findServer
  tidy : w'.Tidy (w.buildsBut m) .between
  sent : Sent (w.buildsBut m) sent w₀ w'
  req : ∀ x ∈ w.buildsBut m, w'.req x = w.req x

/-- The build slot of `m` has a request with what the encoders made of `q`, and nothing happened to the
    others. -/
structure Slotted (p : WireProtocol) (m : Mmc) (q : MmcRequest) (sent : Mmc → List MmcRequest)
    (w₀ w w' : World) : Prop where
  slot : ∃ r, (w'.mmc m).buildreq = some r ∧ r ∉ w.buildsBut m ∧ q.EncodesAs p (w'.req r)
  other : ∀ m', m' ≠ m → (w'.mmc m').buildreq = (w.mmc m').buildreq
  tidy : w'.Tidy w'.builds .between
  sent : Sent w'.builds sent w₀ w'
  req : ∀ x ∈ w.buildsBut m, w'.req x = w.req x
  nodup : w'.pool.pending.Nodup
  pending : ∀ m', m' ∈ w'.pool.pending ↔ m' = m ∨ m' ∈ w.pool.pending
  protocol : w'.pool.protocol = w.pool.protocol
  findServer : w'.pool.findServer = w.pool.findServer

theorem rel_encodesAs_congr {current : Option MmcRequest} {build : Option ReqId}
    (h : Option.Rel (fun q r => q.EncodesAs p (w.req r)) current build)
    (hreq : ∀ r, build = some r → w'.req r = w.req r) :
    Option.Rel (fun q r => q.EncodesAs p (w'.req r)) current build := by
  cases h with
  | none => exact .none
  | some h => exact .some (hreq _ rfl ▸ h)

/-- One build slot has changed. -/
theorem Gathering.settle (h : Gathering p bins w₀ w) {b : Bins MmcRequest}
    (hother : ∀ m', m' ≠ m → (w'.mmc m').buildreq = (w.mmc m').buildreq)
    (hfresh : ∀ r, (w'.mmc m).buildreq = some r → r ∉ w.buildsBut m)
    (htidy : w'.Tidy w'.builds .between) (hsent : Sent w'.builds (closedGets p (Function.update bins m b)) w₀ w')
    (hreq : ∀ x ∈ w.buildsBut m, w'.req x = w.req x)
    (hrel : Option.Rel (fun q r => q.EncodesAs p (w'.req r)) b.current (w'.mmc m).buildreq)
    (hnodup : w'.pool.pending.Nodup)
    (hpending : ∀ m', m' ≠ m → (m' ∈ w'.pool.pending ↔ m' ∈ w.pool.pending))
    (hself : m ∈ w'.pool.pending ↔ (w'.mmc m).buildreq ≠ none)
    (hprotocol : w'.pool.protocol = w.pool.protocol)
    (hfind : w'.pool.findServer = w.pool.findServer) :
    Gathering p (Function.update bins m b) w₀ w' where
  tidy := htidy
  distinct m₁ m₂ r h₁ h₂ := by
    have hne {m' : Mmc} (hm : m' ≠ m) (hr : (w'.mmc m).buildreq = some r)
        (hr' : (w'.mmc m').buildreq = some r) : False :=
      hfresh r hr ⟨m', hm, (hother m' hm) ▸ hr'⟩
    by_cases hm₁ : m₁ = m
    · by_cases hm₂ : m₂ = m
      · exact hm₁.trans hm₂.symm
      · exact (hne hm₂ (hm₁ ▸ h₁) h₂).elim
    · by_cases hm₂ : m₂ = m
      · exact (hne hm₁ (hm₂ ▸ h₂) h₁).elim
      · exact h.distinct m₁ m₂ r ((hother m₁ hm₁) ▸ h₁) ((hother m₂ hm₂) ▸ h₂)
  nodup := hnodup
  pending m' := by
    by_cases hm : m' = m
    · exact hm ▸ hself
    · rw [hpending m' hm, hother m' hm]
      exact h.pending m'
  protocol := hprotocol.trans h.protocol
  findServer := hfind.trans h.findServer
  sent := hsent
  building m' := by
    by_cases hm : m' = m
    · subst hm
      rw [Function.update_self]
      exact hrel
    · rw [Function.update_of_ne hm, hother m' hm]
      exact rel_encodesAs_congr (h.building m') fun r hr => hreq r ⟨m', hm, hr⟩

/-- `append_get` on the request in the build slot. -/
theorem Slotted.append {q : MmcRequest} {sent : Mmc → List MmcRequest} (h : Gathering p bins w₀ w)
    (hs : Slotted p m q sent w₀ w w') {b : Bins MmcRequest} (zkey : ZKey) (key : Bytes)
    (hsent : sent = closedGets p (Function.update bins m b))
    (hcurrent : b.current = some (protocolAppendGet p zkey key q)) :
    wp (appendBuild m zkey key) (fun _ => Gathering p (Function.update bins m b) w₀) (fun _ => False)
      w' := by
  obtain ⟨r, hr, hfresh, hencodes⟩ := hs.slot
  have hp : w'.pool.protocol = p := hs.protocol.trans h.protocol
  simp only [appendBuild, wp_bind, wp_getMmc, hr, wp_getPool, wp_modifyReq, wp_pure, hp]
  set w'' : World := { w' with
    req := Function.update w'.req r (protocolAppendGet p zkey key (w'.req r)) }
  have hmem : r ∈ w'.builds := ⟨m, hr⟩
  have hbuilds : w''.builds = w'.builds := rfl
  refine h.settle hs.other (fun r' hr' => ?_) ?_ ?_ (fun x hx => ?_) ?_ hs.nodup
    (fun m' hm => ?_) ?_ hs.protocol hs.findServer
  · have heq : r' = r := Option.some_inj.mp (hr'.symm.trans hr)
    exact heq ▸ hfresh
  · rw [hbuilds]
    exact hs.tidy.modifyReq (protocolAppendGet_readsUdp p zkey key)
  · rw [hbuilds, ← hsent]
    refine hs.sent.write (fun x hx => ?_) rfl
    have hne : x ≠ r := fun heq => hx (heq ▸ hmem)
    exact Function.update_of_ne hne _ _
  · have hne : x ≠ r := fun heq => hfresh (heq ▸ hx)
    exact (Function.update_of_ne hne _ _).trans (hs.req x hx)
  · have hbuild : (w''.mmc m).buildreq = some r := hr
    rw [hcurrent, hbuild]
    refine .some ?_
    simp only [w'', Function.update_self]
    exact hencodes.appendGet zkey key
  · rw [hs.pending m']
    exact or_iff_right hm
  · have hbuild : (w''.mmc m).buildreq = some r := hr
    rw [hbuild]
    simpa using (hs.pending m).mpr (Or.inl rfl)

/-- The server of the build slot that is worked on is pending. -/
structure PendingWith (m : Mmc) (w w' : World) : Prop where
  nodup : w'.pool.pending.Nodup
  pending : ∀ m', m' ∈ w'.pool.pending ↔ m' = m ∨ m' ∈ w.pool.pending

theorem HandedOut.slotted {sent : Mmc → List MmcRequest} {q : MmcRequest} {w₁ w₂ : World}
    (ha : SetAside m sent w₀ w w₁) (hp : PendingWith m w w₁) (hh : HandedOut (w.buildsBut m) q r w₁ w₂) :
    Slotted w₁.pool.protocol m q sent w₀ w { w₂ with
      log := .build m r :: w₂.log
      mmc := Function.update w₂.mmc m { w₂.mmc m with buildreq := some r } } := by
  set w₃ : World := { w₂ with
    log := .build m r :: w₂.log
    mmc := Function.update w₂.mmc m { w₂.mmc m with buildreq := some r } }
  have hslot : (w₃.mmc m).buildreq = some r := by simp [w₃]
  have hother (m' : Mmc) (hm : m' ≠ m) : (w₃.mmc m').buildreq = (w.mmc m').buildreq := by
    have hmmc : w₃.mmc m' = w₁.mmc m' := by simp [w₃, hm, hh.mmc]
    rw [hmmc, ha.build m']
  have hbuilds : w₃.builds = insert r (w.buildsBut m) := by
    rw [World.builds_of_some hslot, World.buildsBut_congr hother]
  refine ⟨⟨r, hslot, hh.fresh, hh.encodes⟩, hother, ?_, ?_, fun x hx => ?_, ?_, fun m' => ?_, ?_, ?_⟩
  · rw [hbuilds]
    exact (hh.tidy.setBuild m (some r)).of_unchanged rfl rfl rfl rfl rfl (World.services_step rfl)
  · rw [hbuilds]
    have hsent := ha.sent.alloc hh.log hh.others
    exact hsent.quiet (.of_step (s := .build m r) trivial rfl rfl)
  · have hne : x ≠ r := fun heq => hh.fresh (heq ▸ hx)
    exact (hh.others x hne).trans (ha.req x hx)
  · exact hh.pending ▸ hp.nodup
  · have hpending : w₃.pool.pending = w₁.pool.pending := hh.pending
    rw [hpending]
    exact hp.pending m'
  · exact hh.protocol.trans ha.protocol
  · exact hh.findServer.trans ha.findServer

/-- `begin_get` on a request that was just handed out. -/
theorem beginBuild_slotted (E : Env) {a : GetArgs} (hargs : a.failedRequest = none)
    {sent : Mmc → List MmcRequest} {w₁ : World} (ha : SetAside m sent w₀ w w₁)
    (hp : PendingWith m w w₁) :
    wp (beginBuild E m a)
      (fun _ => Slotted w₁.pool.protocol m (requestPacker w₁.pool.protocol a).empty sent w₀ w)
      (Delivers sent w₀) w₁ := by
  rw [beginBuild, wp_bind]
  refine wp_mono (mmcPoolRequestGet_handedOut E a.protocol a.valueHandler a.call a.failover ha.tidy)
    (fun r w₂ hh => ?_) fun v ⟨r, hr⟩ => ha.sent.delivers_popped hr
  simp only [wp_bind, wp_step, wp_modifyMmc, hargs, copyFailures, wp_pure, wp_getPool, wp_modifyReq]
  refine ⟨fun _ => ?_, fun _ => (ha.sent.alloc hh.log hh.others).delivers⟩
  have hbegun : HandedOut (w.buildsBut m) (requestPacker w₁.pool.protocol a).empty r w₁ { w₂ with
      req := Function.update w₂.req r (protocolBeginGet w₁.pool.protocol a.op (w₂.req r)) } :=
    hh.write (protocolBeginGet_readsUdp _ _) (hh.encodes.beginGet a.op)
  have hprotocol : w₂.pool.protocol = w₁.pool.protocol := hh.protocol
  rw [hprotocol]
  exact hbegun.slotted ha hp

/-- The caller of `mmc_pool_schedule_get` has a server: what stands in its build slot is as good as put
    aside. -/
theorem Gathering.setAside_none (h : Gathering p bins w₀ w) (hr : (w.mmc m).buildreq = none)
    (hpool : w'.pool = { w.pool with pending := w'.pool.pending })
    (hw' : w' = { w with pool := w'.pool }) : SetAside m (closedGets p bins) w₀ w w' := by
  rw [hw', hpool]
  refine ⟨fun _ => rfl, rfl, rfl, ?_, ?_, fun _ _ => rfl⟩
  · rw [← World.builds_of_none hr]
    exact h.tidy.of_unchanged rfl rfl rfl rfl rfl rfl
  · rw [← World.builds_of_none hr]
    exact h.sent.write (fun _ _ => rfl) rfl

section Schedule

variable {E : Env} (hE : NoFailures E) {fh : Failover} (hfh : ∀ m r, Fails (fh m r))

include hE hfh

/-- `end_get` and `mmc_pool_schedule`: the request in the build slot joins the line of its server. -/
theorem endAndSchedule_setAside (h : Gathering p bins w₀ w) {q : MmcRequest}
    (hcurrent : (bins m).current = some q) (hr : (w.mmc m).buildreq = some r)
    {sent : Mmc → List MmcRequest}
    (hsent : sent = Function.update (closedGets p bins) m (closedGets p bins m ++ [protocolEndGet p q]))
    {w₁ : World} (hmmc : w₁.mmc = w.mmc) (hreq : w₁.req = w.req) (hnext : w₁.nextReq = w.nextReq)
    (hfree : w₁.pool.freeRequests = w.pool.freeRequests) (hqueues : w₁.pool.queues = w.pool.queues)
    (hprotocol : w₁.pool.protocol = w.pool.protocol) (hfind : w₁.pool.findServer = w.pool.findServer)
    {s : Step} (hs : s.Quiet) (hservice : s.service = none) (hlog : w₁.log = s :: w.log) :
    wp (endBuild r)
      (fun _ w₂ => wp (mmcPoolSchedule E fh m r)
        (fun _ w₃ => SetAside m sent w₀ w w₃ ∧ w₃.pool.pending = w₁.pool.pending)
        (Delivers sent w₀) w₂)
      (Delivers sent w₀) w₁ := by
  have hp : w₁.pool.protocol = p := hprotocol.trans h.protocol
  have hencodes : q.EncodesAs p (w.req r) := by
    have hrel := h.building m
    rw [hcurrent, hr] at hrel
    cases hrel with
    | some hrel => exact hrel
  have hfresh : r ∉ w.buildsBut m := h.toOrderly.not_mem_buildsBut hr
  have hbuilds : w.builds = insert r (w.buildsBut m) := World.builds_of_some hr
  simp only [endBuild, wp_bind, wp_getPool, wp_modifyReq, hp]
  set w₂ : World := { w₁ with req := Function.update w₁.req r (protocolEndGet p (w₁.req r)) }
  have hservices : w₁.services = w.services := by
    rw [World.services, hlog]
    exact List.filterMap_cons_none hservice
  have htidy : w₂.Tidy (insert r (w.buildsBut m)) .between :=
    (hbuilds ▸ h.tidy.of_unchanged hmmc hfree hqueues hreq hnext hservices).modifyReq (protocolEndGet_readsUdp p)
  have hsent₁ : Sent (insert r (w.buildsBut m)) (closedGets p bins) w₀ w₁ :=
    hbuilds ▸ h.sent.quiet (.of_step hs hreq hlog)
  have hothers (x : ReqId) (hx : x ≠ r) : w₂.req x = w.req x :=
    (Function.update_of_ne hx _ _).trans (congrFun hreq x)
  have hsent₂ : Sent (insert r (w.buildsBut m)) (closedGets p bins) w₀ w₂ := by
    refine hsent₁.write (fun x hx => Function.update_of_ne ?_ _ _) rfl
    rintro rfl
    exact hx (Set.mem_insert x _)
  have hcommand : (protocolEndGet p q).SameCommand (w₂.req r) := by
    have hw₂ : w₂.req r = protocolEndGet p (w.req r) := by simp [w₂, hreq]
    exact hw₂ ▸ hencodes.endGet.sameCommand
  have hscheduled := hsent₂.schedule hfresh hcommand m
  rw [← hsent] at hscheduled
  have hdone : Delivers sent w₀ w₂ := by
    refine hsent₂.delivers.mono fun m' => ?_
    rw [hsent]
    by_cases hm : m' = m
    · subst hm
      simp
    · simp [hm]
  refine wp_mono (spares_mmcPoolSchedule hE hfh m hfresh htidy) (fun _ w₃ h₃ => ?_) fun w₃ h₃ => ?_
  · obtain ⟨htidy₃, hkeeps⟩ := h₃
    refine ⟨⟨fun m' => ?_, ?_, ?_, htidy₃, hscheduled.quiet hkeeps.toQuiet, fun x hx => ?_⟩,
      hkeeps.pending⟩
    · rw [hkeeps.build m']
      exact congrArg MmcServer.buildreq (congrFun hmmc m')
    · exact hkeeps.protocol.trans hprotocol
    · exact hkeeps.findServer.trans hfind
    · exact (hkeeps.req x hx).trans (hothers x fun heq => hfresh (heq ▸ hx))
  · rcases h₃ with rfl | hquiet
    · exact hdone
    · exact (hscheduled.quiet hquiet).delivers

/-- The datagram is full: it is sent off, and after a round the next one is begun. -/
theorem flush_slotted (fuel : Nat) {a : GetArgs} (hargs : a.failedRequest = none)
    (h : Gathering p bins w₀ w) {q : MmcRequest} (hcurrent : (bins m).current = some q)
    (hr : (w.mmc m).buildreq = some r) {sent : Mmc → List MmcRequest}
    (hsent : sent = Function.update (closedGets p bins) m (closedGets p bins m ++ [protocolEndGet p q])) :
    wp (do
        step E (.flush m)
        endBuild r
        let _ ← mmcPoolSchedule E fh m r
        mmcPoolSelect E fh fuel
        beginBuild E m a
        step E (.flushed m))
      (fun _ => Slotted p m (requestPacker p a).empty sent w₀ w) (Delivers sent w₀) w := by
  have hgrown (m' : Mmc) : closedGets p bins m' <+: sent m' := by
    rw [hsent]
    by_cases hm : m' = m
    · subst hm
      simp
    · simp [hm]
  rw [wp_bind, wp_step]
  refine ⟨fun _ => ?_, fun _ => h.sent.delivers.mono hgrown⟩
  rw [wp_bind]
  refine wp_mono (endAndSchedule_setAside hE hfh h hcurrent hr hsent rfl rfl rfl rfl rfl rfl rfl
    (s := .flush m) trivial rfl rfl) (fun _ w₂ h₂ => ?_) fun _ => id
  rw [wp_bind]
  refine wp_mono h₂ (fun _ w₃ h₃ => ?_) fun _ => id
  obtain ⟨ha, hpending⟩ := h₃
  rw [wp_bind]
  refine wp_mono (spares_mmcPoolSelect hE hfh fuel ha.tidy) (fun _ w₄ h₄ => ?_)
    fun _ hquiet => (ha.sent.quiet hquiet).delivers
  obtain ⟨htidy₄, hkeeps⟩ := h₄
  have ha₄ : SetAside m sent w₀ w w₄ := by
    refine ⟨fun m' => (hkeeps.build m').trans (ha.build m'), hkeeps.protocol.trans ha.protocol,
      hkeeps.findServer.trans ha.findServer, htidy₄, ha.sent.quiet hkeeps.toQuiet, fun x hx => ?_⟩
    exact (hkeeps.req x hx).trans (ha.req x hx)
  have hpending₄ : w₄.pool.pending = w.pool.pending := hkeeps.pending.trans hpending
  have hp₄ : PendingWith m w w₄ := by
    refine ⟨hpending₄ ▸ h.nodup, fun m' => ?_⟩
    rw [hpending₄]
    have hself : m ∈ w.pool.pending := (h.pending m).mpr (by simp [hr])
    exact ⟨Or.inr, fun hm => hm.elim (fun heq => heq ▸ hself) id⟩
  have hprotocol : w₄.pool.protocol = p := ha₄.protocol.trans h.protocol
  rw [wp_bind]
  refine wp_mono (beginBuild_slotted E hargs ha₄ hp₄) (fun _ w₅ h₅ => ?_) fun _ => id
  rw [hprotocol] at h₅
  rw [wp_step]
  refine ⟨fun _ => ?_, fun _ => h₅.sent.delivers⟩
  exact { h₅ with
    tidy := h₅.tidy.of_unchanged rfl rfl rfl rfl rfl (World.services_step rfl)
    sent := h₅.sent.quiet (.of_step (s := .flushed m) trivial rfl rfl) }

omit hE hfh in
theorem datagramFull_congr {a : GetArgs} {q q' : MmcRequest} (h : q.EncodesAs p q') (key : Bytes) :
    datagramFull a q' key ↔ datagramFull a q key := by
  unfold datagramFull
  rw [h.value]

omit hE hfh in
theorem closedGets_update (b : Bins MmcRequest) :
    closedGets p (Function.update bins m b) =
      Function.update (closedGets p bins) m (b.closed.map (protocolEndGet p)) := by
  funext m'
  by_cases hm : m' = m
  · subst hm
    simp [closedGets]
  · simp [closedGets, hm]

/-- The build slot has room for a key. -/
theorem openBuild_slotted (fuel : Nat) {a : GetArgs} (hargs : a.failedRequest = none)
    (h : Gathering p bins w₀ w) (zkey : ZKey) (key : Bytes) {b : Bins MmcRequest}
    (hb : b = (requestPacker p a).pack (bins m) (zkey, key)) :
    wp (openBuild E fuel fh m a key)
      (fun _ w' => ∃ q, Slotted p m q (closedGets p (Function.update bins m b)) w₀ w w' ∧
        b.current = some (protocolAppendGet p zkey key q))
      (Delivers (closedGets p (Function.update bins m b)) w₀) w := by
  have hrel := h.building m
  rw [openBuild, wp_bind, wp_getMmc]
  cases hr : (w.mmc m).buildreq with
  | none =>
    have hcurrent : (bins m).current = none := by
      rw [hr] at hrel
      cases hrel' : (bins m).current with
      | none => rfl
      | some q =>
        rw [hrel'] at hrel
        cases hrel
    have hb' : b = ⟨(bins m).closed,
        some ((requestPacker p a).put (requestPacker p a).empty (zkey, key))⟩ := by
      rw [hb, Packer.pack, hcurrent]
    have hclosed : closedGets p (Function.update bins m b) = closedGets p bins := by
      rw [closedGets_update, hb']
      exact Function.update_eq_self m _
    rw [hclosed]
    simp only [wp_bind, wp_modifyPool]
    have ha : SetAside m (closedGets p bins) w₀ w
        { w with pool := { w.pool with pending := mmcQueuePush w.pool.pending m } } :=
      h.setAside_none hr rfl rfl
    have hp : PendingWith m w { w with pool := { w.pool with pending := mmcQueuePush w.pool.pending m } } :=
      ⟨nodup_mmcQueuePush h.nodup m, fun m' => by simp [or_comm]⟩
    refine wp_mono (beginBuild_slotted E hargs ha hp) (fun _ w' hs => ?_) fun _ => id
    have hprotocol : w.pool.protocol = p := h.protocol
    simp only [hprotocol] at hs
    exact ⟨_, hs, by rw [hb']; rfl⟩
  | some r =>
    rw [hr] at hrel
    cases hcurrent : (bins m).current with
    | none =>
      rw [hcurrent] at hrel
      cases hrel
    | some q =>
      rw [hcurrent] at hrel
      have hencodes : q.EncodesAs p (w.req r) := by
        cases hrel with
        | some hrel => exact hrel
      dsimp only
      rw [wp_bind, wp_getReq, wp_doWhen, datagramFull_congr hencodes]
      refine ⟨fun hfull => ?_, fun hroom => ?_⟩
      · have hb' : b = ⟨(bins m).closed ++ [q],
            some ((requestPacker p a).put (requestPacker p a).empty (zkey, key))⟩ := by
          rw [hb, Packer.pack, hcurrent]
          exact if_pos (decide_eq_true hfull)
        refine wp_mono (flush_slotted hE hfh fuel hargs h hcurrent hr ?_)
          (fun _ w' hs => ⟨_, hs, by rw [hb']; rfl⟩) fun _ => id
        rw [closedGets_update, hb', List.map_append]
        rfl
      · have hb' : b = ⟨(bins m).closed, some ((requestPacker p a).put q (zkey, key))⟩ := by
          rw [hb, Packer.pack, hcurrent]
          exact if_neg (by simpa [requestPacker] using hroom)
        have hclosed : closedGets p (Function.update bins m b) = closedGets p bins := by
          rw [closedGets_update, hb']
          exact Function.update_eq_self m _
        rw [hclosed]
        refine ⟨q, ⟨⟨r, hr, h.toOrderly.not_mem_buildsBut hr, hencodes⟩, fun _ _ => rfl, h.tidy, h.sent,
          fun _ _ => rfl, h.nodup, fun m' => ?_, rfl, rfl⟩, by rw [hb']; rfl⟩
        have hself : m ∈ w.pool.pending := (h.pending m).mpr (by simp [hr])
        exact ⟨Or.inr, fun hm => hm.elim (fun heq => heq ▸ hself) id⟩

omit hE hfh in
theorem mmcServerValid_of_up (hup : (w.mmc m).tcp.status ≠ .failed) {Q : Bool → World → Prop}
    (X : World → Prop) (hQ : Q true w) : wp (mmcServerValid E m) Q X w := by
  rw [mmcServerValid, wp_bind, wp_getMmc]
  exact wp_ite (fun _ => (wp_pure _ _ _ _).mpr hQ) fun h => absurd hup h

omit hE hfh in
/-- While no server has failed, a key belongs to the server the hash gives for it. -/
theorem mmcPoolFind_of_up (hup : ∀ m, (w.mmc m).tcp.status ≠ .failed) (key : Bytes)
    {Q : Mmc → World → Prop} (X : World → Prop) (hQ : Q (w.pool.findServer key) w) :
    wp (mmcPoolFind E key) Q X w := by
  rw [mmcPoolFind, wp_bind, wp_getPool]
  dsimp only
  rw [wp_bind]
  refine mmcServerValid_of_up (hup _) X (wp_ite (fun h => ?_) fun _ => (wp_pure _ _ _ _).mpr hQ)
  simp at h

/-- **`mmc_pool_schedule_get` packs its key** into the request of the server the key belongs to. -/
theorem gathering_mmcPoolScheduleGet (fuel : Nat) {a : GetArgs} (hargs : a.failedRequest = none)
    (h : Gathering p bins w₀ w) {zkey : ZKey} {key : Bytes}
    (hkey : mmcPrepareKeyEx zkey.str E.keyPrefix = some key) (hm : m = w₀.pool.findServer key)
    {b : Bins MmcRequest} (hb : b = (requestPacker p a).pack (bins m) (zkey, key)) :
    wp (mmcPoolScheduleGet E fuel fh a zkey) (fun _ => Gathering p (Function.update bins m b) w₀)
      (Delivers (closedGets p (Function.update bins m b)) w₀) w := by
  have hfind : w.pool.findServer key = m := by rw [h.findServer, hm]
  simp only [mmcPoolScheduleGet, hkey]
  rw [wp_bind]
  refine mmcPoolFind_of_up h.tidy.up key _ ?_
  rw [hfind, wp_bind]
  refine mmcServerValid_of_up (h.tidy.up m) _ (wp_ite (fun hinvalid => ?_) fun _ => ?_)
  · simp at hinvalid
  rw [wp_bind]
  refine wp_mono (openBuild_slotted hE hfh fuel hargs h zkey key hb) (fun _ w' hs => ?_) fun _ => id
  obtain ⟨q, hs, hcurrent⟩ := hs
  exact wp_mono (hs.append h zkey key rfl hcurrent) (fun _ _ => id) fun _ => False.elim

omit hE hfh in
/-- A key that `mmc_prepare_key` refuses changes nothing. -/
theorem mmcPoolScheduleGet_invalid (fuel : Nat) (a : GetArgs) {zkey : ZKey}
    (hkey : mmcPrepareKeyEx zkey.str E.keyPrefix = none) {Q : MmcResult → World → Prop}
    (X : World → Prop) (hQ : Q .failure w) : wp (mmcPoolScheduleGet E fuel fh a zkey) Q X w := by
  simp only [mmcPoolScheduleGet, hkey, wp_pure]
  exact hQ

/-! ### Pending gets -/

/-- The bin at hand is closed. -/
def closeBin (b : Bins MmcRequest) : Bins MmcRequest := { closed := b.all, current := none }

theorem gathering_schedulePendingServer (h : Gathering p bins w₀ w) {rest : List Mmc}
    (hpending : w.pool.pending = m :: rest) :
    wp (schedulePendingServer E fh m)
      (fun _ w' => Gathering p (Function.update bins m (closeBin (bins m))) w₀ w' ∧ w'.pool.pending = rest)
      (Delivers (closedGets p (Function.update bins m (closeBin (bins m)))) w₀)
      { w with pool := { w.pool with pending := rest } } := by
  have hmem : m ∈ w.pool.pending := hpending ▸ List.mem_cons_self
  have hnodup : (m :: rest).Nodup := hpending ▸ h.nodup
  obtain ⟨r, hr⟩ := Option.ne_none_iff_exists'.mp ((h.pending m).mp hmem)
  have hrel := h.building m
  rw [hr] at hrel
  cases hcurrent : (bins m).current with
  | none =>
    rw [hcurrent] at hrel
    cases hrel
  | some q =>
  set sent := closedGets p (Function.update bins m (closeBin (bins m))) with hdef
  have hsent : sent = Function.update (closedGets p bins) m (closedGets p bins m ++ [protocolEndGet p q]) := by
    rw [hdef, closedGets_update, closeBin, Bins.all, hcurrent, Option.toList_some, List.map_append]
    rfl
  have hgrown (m' : Mmc) : closedGets p bins m' <+: sent m' := by
    rw [hsent]
    by_cases hm : m' = m
    · subst hm
      simp
    · simp [hm]
  rw [schedulePendingServer, wp_bind, wp_getMmc]
  dsimp only
  rw [hr, wp_bind, wp_step]
  refine ⟨fun _ => ?_, fun _ => (h.sent.write (fun _ _ => rfl) rfl).delivers.mono hgrown⟩
  dsimp only
  rw [wp_bind]
  refine wp_mono (endAndSchedule_setAside hE hfh h hcurrent hr hsent rfl rfl rfl rfl rfl rfl rfl
    (s := .schedulePending m (some r)) trivial rfl rfl) (fun _ w₂ h₂ => ?_) fun _ => id
  rw [wp_bind]
  refine wp_mono h₂ (fun _ w₃ h₃ => ?_) fun _ => id
  obtain ⟨ha, hrest⟩ := h₃
  simp only [wp_bind, wp_getMmc, wp_step, wp_modifyMmc]
  refine ⟨fun _ => ?_, fun _ => ha.sent.delivers⟩
  set w₄ : World := { w₃ with
    log := .clearBuild m r (w₃.mmc m).buildreq :: w₃.log
    mmc := Function.update w₃.mmc m { w₃.mmc m with buildreq := none } } with hw₄
  have hslot : (w₄.mmc m).buildreq = none := by simp [hw₄]
  have hother (m' : Mmc) (hm : m' ≠ m) : (w₄.mmc m').buildreq = (w.mmc m').buildreq := by
    rw [← ha.build m']
    simp [hw₄, hm]
  have hbuilds : w₄.builds = w.buildsBut m := by
    rw [World.builds_of_none hslot, World.buildsBut_congr hother]
  refine ⟨h.settle hother (fun r' hr' => ?_) ?_ ?_ ha.req ?_ ?_ (fun m' hm => ?_) ?_ ha.protocol
    ha.findServer, hrest⟩
  · rw [hslot] at hr'
    cases hr'
  · rw [hbuilds]
    exact (ha.tidy.setBuild m none).of_unchanged rfl rfl rfl rfl rfl (World.services_step rfl)
  · rw [hbuilds]
    exact ha.sent.quiet (.of_step (s := .clearBuild m r (w₃.mmc m).buildreq) trivial rfl rfl)
  · rw [hslot]
    exact .none
  · exact hrest ▸ (List.nodup_cons.mp hnodup).2
  · change m' ∈ w₃.pool.pending ↔ _
    rw [hrest, hpending]
    simp [hm]
  · rw [hslot]
    change m ∈ w₃.pool.pending ↔ _
    rw [hrest]
    simpa using (List.nodup_cons.mp hnodup).1

/-- All bins at hand are closed. -/
def closeBins (bins : Mmc → Bins MmcRequest) (m : Mmc) : Bins MmcRequest := closeBin (bins m)

omit hE hfh in
theorem closeBin_of_none {b : Bins MmcRequest} (h : b.current = none) : closeBin b = b := by
  obtain ⟨closed, current⟩ := b
  simp only at h
  simp [closeBin, Bins.all, h]

omit hE hfh in
theorem closeBins_update : closeBins (Function.update bins m (closeBin (bins m))) = closeBins bins := by
  funext m'
  by_cases hm : m' = m
  · subst hm
    rw [closeBins, Function.update_self]
    exact closeBin_of_none rfl
  · rw [closeBins, Function.update_of_ne hm, closeBins]

omit hE hfh in
theorem closedGets_closeBins (m : Mmc) : closedGets p bins m <+: closedGets p (closeBins bins) m := by
  rw [closedGets, closedGets, closeBins, closeBin, Bins.all, List.map_append]
  exact List.prefix_append _ _

omit hE hfh in
/-- Without pending gets there are no bins at hand. -/
theorem Gathering.closeBins_of_nil (h : Gathering p bins w₀ w) (hpending : w.pool.pending = []) :
    closeBins bins = bins := by
  funext m
  refine closeBin_of_none ?_
  have hbuild : (w.mmc m).buildreq = none := by
    by_contra hbuild
    have hmem := (h.pending m).mpr hbuild
    rw [hpending] at hmem
    exact List.not_mem_nil hmem
  have hrel := h.building m
  rw [hbuild] at hrel
  cases hcurrent : (bins m).current with
  | none => rfl
  | some q =>
    rw [hcurrent] at hrel
    cases hrel

theorem gathering_mmcPoolSchedulePending (bound : Nat) (h : Gathering p bins w₀ w) :
    wp (mmcPoolSchedulePending E fh bound)
      (fun _ w' => Gathering p (closeBins bins) w₀ w' ∧ w'.pool.pending = [])
      (Delivers (closedGets p (closeBins bins)) w₀) w := by
  induction bound generalizing bins w with
  | zero => exact (wp_outOfFuel _ _ _).mpr (h.sent.delivers.mono closedGets_closeBins)
  | succ bound ih =>
    rw [mmcPoolSchedulePending, wp_bind, wp_getPool]
    cases hpending : w.pool.pending with
    | nil =>
      rw [h.closeBins_of_nil hpending]
      exact (wp_pure _ _ _ _).mpr ⟨h, hpending⟩
    | cons m rest =>
      dsimp only
      rw [wp_bind, wp_modifyPool, wp_bind]
      refine wp_mono (gathering_schedulePendingServer hE hfh h hpending) (fun _ w' h' => ?_) fun w' h' => ?_
      · have hrest := ih h'.1
        rwa [closeBins_update] at hrest
      · refine h'.mono fun m' => ?_
        rw [← closeBins_update (m := m)]
        exact closedGets_closeBins m'

omit hE hfh in
/-- The build slots are left alone. -/
theorem Gathering.keeps (h : Gathering p bins w₀ w) (htidy : w'.Tidy w.builds .between)
    (hk : Keeps w.builds w w') : Gathering p bins w₀ w' := by
  have hbuilds : w'.builds = w.builds := by
    ext x
    exact exists_congr fun m => by rw [hk.build m]
  refine ⟨⟨hbuilds ▸ htidy, fun m m' r hr hr' => ?_, hk.pending ▸ h.nodup, fun m => ?_⟩,
    hk.protocol.trans h.protocol, hk.findServer.trans h.findServer,
    hbuilds ▸ h.sent.quiet hk.toQuiet, fun m => ?_⟩
  · exact h.distinct m m' r (hk.build m ▸ hr) (hk.build m' ▸ hr')
  · rw [hk.pending, hk.build m]
    exact h.pending m
  · rw [hk.build m]
    exact rel_encodesAs_congr (h.building m) fun r hr => hk.req r ⟨m, hr⟩

/-- **`mmc_pool_run` sends the bins at hand** and runs rounds that leave the gets alone. -/
theorem gathering_mmcPoolRun (fuel : Nat) (h : Gathering p bins w₀ w) :
    wp (mmcPoolRun E fuel fh) (fun _ w' => Gathering p (closeBins bins) w₀ w' ∧ w'.pool.pending = [])
      (Delivers (closedGets p (closeBins bins)) w₀) w := by
  have hloop (bound : Nat) (w : World) (h : Gathering p (closeBins bins) w₀ w ∧ w.pool.pending = []) :
      wp (runLoop E fuel fh bound) (fun _ w' => Gathering p (closeBins bins) w₀ w' ∧ w'.pool.pending = [])
        (Delivers (closedGets p (closeBins bins)) w₀) w := by
    induction bound generalizing w with
    | zero => exact (wp_outOfFuel _ _ _).mpr h.1.sent.delivers
    | succ bound ih =>
      rw [runLoop, wp_bind, wp_getPool]
      refine wp_ite (fun _ => ?_) fun _ => (wp_pure _ _ _ _).mpr h
      rw [wp_bind]
      refine wp_mono (spares_mmcPoolSelect hE hfh fuel h.1.tidy) (fun _ w₁ h₁ => ?_)
        fun _ hquiet => (h.1.sent.quiet hquiet).delivers
      have hg : Gathering p (closeBins bins) w₀ w₁ := h.1.keeps h₁.1 h₁.2
      have hnil : w₁.pool.pending = [] := h₁.2.pending.trans h.2
      have hpending := gathering_mmcPoolSchedulePending hE hfh fuel hg
      rw [hg.closeBins_of_nil hnil] at hpending
      rw [wp_bind]
      exact wp_mono hpending (fun _ w₂ h₂ => ih w₂ h₂) fun _ => id
  rw [mmcPoolRun, wp_bind]
  exact wp_mono (gathering_mmcPoolSchedulePending hE hfh fuel h) (fun _ => hloop fuel) fun _ => id

end Schedule

end Builds

end PeclMemcache
