import PeclMemcache.Calm

set_option autoImplicit false

/-! # Custody of requests

While no server fails, every request is in one place: it waits for the response of one server, it is on
the free list, or whoever built it still holds it. A request that is held is written by nobody else. -/

namespace PeclMemcache

open Stateful

/-! ## Places -/

/-- Where a request can be. -/
inductive Place
  | line (m : Mmc)
  | free
  | held

/-- What is in a place; `held` are the requests in nobody's hands but the caller's. -/
def World.Holds (w : World) (held : Set ReqId) : Place → ReqId → Prop
  | .line m, r => r ∈ (w.mmc m).readLine
  | .free, r => some r ∈ w.pool.freeRequests
  | .held, r => r ∈ held

/-- No request is in two places, and none is lost. -/
structure World.Accounted (w : World) (held : Set ReqId) : Prop where
  one : ∀ r p p', w.Holds held p r → w.Holds held p' r → p = p'
  placed : ∀ r, r < w.nextReq → ∃ p, w.Holds held p r
  known : ∀ r p, w.Holds held p r → r < w.nextReq ∧ (w.req r).ReadsUdp

/-- The lines of a server: a request is sent and answered in its turn, and what is still to be sent is
    the end of what is still to be answered. -/
structure MmcServer.InLine (s : MmcServer) : Prop where
  suffix : s.sendLine <:+ s.readLine
  sendFirst : s.sendreq = none → s.sendqueue = []
  readFirst : s.readreq = none → s.readqueue = []
  nodup : s.readLine.Nodup

/-- The requests in the lines of the servers are those that were accepted and not released, and were
    released in turn. -/
structure World.Served (w : World) : Prop where
  inTurn : Turns.InTurn w.services
  line : ∀ m, Turns.line m w.services = (w.mmc m).readLine

/-- The response of the first request in the line of a server was just read to its end. -/
def World.Answered (w : World) (m : Mmc) : Prop :=
  ∀ r, (w.mmc m).readreq = some r → w.services.head? = some (.serve m r true)

/-- How far a round has come: whether its loops run, and the servers that they have yet to come to. -/
structure Phase where
  inSelect : Bool
  todo : Direction → Set Mmc

/-- No round is under way. -/
def Phase.between : Phase := ⟨false, fun _ => ∅⟩

/-- A server with a request in its send or read slot is queued for the next round, or this round has yet
    to come to it. -/
structure World.Watched (w : World) (phase : Phase) : Prop where
  inSelect : w.pool.inSelect = phase.inSelect
  queued : ∀ d m, (w.mmc m).slot d ≠ none → m ∈ w.pool.queue d w.pool.cur ∨ m ∈ phase.todo d

/-- The state of a pool none of whose servers has failed. -/
structure World.Tidy (w : World) (held : Set ReqId) (phase : Phase) : Prop
    extends w.Accounted held, w.Served, w.Watched phase where
  inLine : ∀ m, (w.mmc m).InLine
  freeNodup : w.pool.freeRequests.Nodup
  up : ∀ m, (w.mmc m).tcp.status ≠ .failed

/-- The build slots, the servers whose gets are pending and the configuration of the pool stay. -/
structure SameSlots (w w' : World) : Prop where
  build : ∀ m, (w'.mmc m).buildreq = (w.mmc m).buildreq
  pending : w'.pool.pending = w.pool.pending
  protocol : w'.pool.protocol = w.pool.protocol
  findServer : w'.pool.findServer = w.pool.findServer

/-- The queues that a round runs over stay. -/
structure SameRound (w w' : World) : Prop where
  cur : w'.pool.cur = w.pool.cur
  queue : ∀ d, w'.pool.queue d (!w.pool.cur) = w.pool.queue d (!w.pool.cur)

/-- What happens to other requests leaves the requests in `held` and the build slots alone. -/
structure Keeps (held : Set ReqId) (w w' : World) : Prop extends Quiet w w', SameSlots w w' where
  req : ∀ r ∈ held, w'.req r = w.req r

/-- In addition the queues of the round stay. -/
structure KeepsRound (held : Set ReqId) (w w' : World) : Prop extends Keeps held w w', SameRound w w'

theorem SameSlots.refl (w : World) : SameSlots w w := ⟨fun _ => rfl, rfl, rfl, rfl⟩

theorem SameSlots.trans {w w' w'' : World} (h : SameSlots w w') (h' : SameSlots w' w'') :
    SameSlots w w'' where
  build m := (h'.build m).trans (h.build m)
  pending := h'.pending.trans h.pending
  protocol := h'.protocol.trans h.protocol
  findServer := h'.findServer.trans h.findServer

theorem SameRound.refl (w : World) : SameRound w w := ⟨rfl, fun _ => rfl⟩

theorem SameRound.trans {w w' w'' : World} (h : SameRound w w') (h' : SameRound w' w'') :
    SameRound w w'' where
  cur := h'.cur.trans h.cur
  queue d := by rw [← h.queue d, ← h.cur, h'.queue d]

theorem MmcPool.queue_of_queues {p p' : MmcPool} (h : p'.queues = p.queues) (d : Direction) (b : Bool) :
    p'.queue d b = p.queue d b := by
  cases d with
  | write => exact congrFun (congrArg RoundQueues.sendingBuf h) b
  | read => exact congrFun (congrArg RoundQueues.readingBuf h) b

theorem SameRound.of_queues {w w' : World} (h : w'.pool.queues = w.pool.queues) : SameRound w w' where
  cur := congrArg RoundQueues.cur h
  queue d := MmcPool.queue_of_queues h d _

/-- A change of a server that leaves its build slot alone. -/
theorem SameSlots.of_mmc {w w' : World} {m : Mmc} {s : MmcServer}
    (hmmc : w'.mmc = Function.update w.mmc m s) (hs : s.buildreq = (w.mmc m).buildreq)
    (hpending : w'.pool.pending = w.pool.pending) (hprotocol : w'.pool.protocol = w.pool.protocol)
    (hfind : w'.pool.findServer = w.pool.findServer) : SameSlots w w' where
  build m' := by
    rw [hmmc]
    by_cases hm : m' = m
    · subst hm
      simpa using hs
    · simp [hm]
  pending := hpending
  protocol := hprotocol
  findServer := hfind

theorem MmcServer.readLine_of_slots {s s' : MmcServer} (h : s'.slots = s.slots) :
    s'.readLine = s.readLine := by
  have hreq : s'.readreq = s.readreq := congrArg Slots.readreq h
  have hqueue : s'.readqueue = s.readqueue := congrArg Slots.readqueue h
  rw [MmcServer.readLine, MmcServer.readLine, hreq, hqueue]

theorem MmcServer.sendLine_of_slots {s s' : MmcServer} (h : s'.slots = s.slots) :
    s'.sendLine = s.sendLine := by
  have hreq : s'.sendreq = s.sendreq := congrArg Slots.sendreq h
  have hqueue : s'.sendqueue = s.sendqueue := congrArg Slots.sendqueue h
  rw [MmcServer.sendLine, MmcServer.sendLine, hreq, hqueue]

theorem headToList_append_tail {α : Type} (l : List α) : l.head?.toList ++ l.tail = l := by
  cases l <;> rfl

namespace MmcServer.InLine

variable {s s' : MmcServer} {r : ReqId}

theorem of_slots (h : s.InLine) (hslots : s'.slots = s.slots) : s'.InLine where
  suffix := by
    rw [MmcServer.readLine_of_slots hslots, MmcServer.sendLine_of_slots hslots]
    exact h.suffix
  sendFirst hnone := by
    have hreq : s'.sendreq = s.sendreq := congrArg Slots.sendreq hslots
    have hqueue : s'.sendqueue = s.sendqueue := congrArg Slots.sendqueue hslots
    exact hqueue.trans (h.sendFirst (hreq ▸ hnone))
  readFirst hnone := by
    have hreq : s'.readreq = s.readreq := congrArg Slots.readreq hslots
    have hqueue : s'.readqueue = s.readqueue := congrArg Slots.readqueue hslots
    exact hqueue.trans (h.readFirst (hreq ▸ hnone))
  nodup := by
    rw [MmcServer.readLine_of_slots hslots]
    exact h.nodup

/-- A request in the send slot waits for its response. -/
theorem sendLine_subset (h : s.InLine) : s.sendLine ⊆ s.readLine := h.suffix.subset

/-- The next request takes the send slot. -/
theorem shiftSend (h : s.InLine) :
    { s with sendreq := s.sendqueue.head?, sendqueue := s.sendqueue.tail : MmcServer }.InLine where
  suffix := by
    change s.sendqueue.head?.toList ++ s.sendqueue.tail <:+ s.readLine
    rw [headToList_append_tail]
    exact (List.suffix_append _ _).trans h.suffix
  sendFirst hnone := by
    have hnil : s.sendqueue = [] := List.head?_eq_none_iff.mp hnone
    change s.sendqueue.tail = []
    rw [hnil]
    rfl
  readFirst := h.readFirst
  nodup := h.nodup

/-- The next request takes the read slot, once the request in it is sent. -/
theorem shiftRead (h : s.InLine) (hread : s.readreq = some r) (hsend : r ∉ s.sendLine) :
    { s with readreq := s.readqueue.head?, readqueue := s.readqueue.tail : MmcServer }.InLine where
  suffix := by
    change s.sendLine <:+ s.readqueue.head?.toList ++ s.readqueue.tail
    rw [headToList_append_tail]
    have hsuffix : s.sendLine <:+ r :: s.readqueue := by
      have := h.suffix
      rw [MmcServer.readLine, hread] at this
      exact this
    rcases List.suffix_cons_iff.mp hsuffix with heq | htail
    · exact absurd (heq ▸ List.mem_cons_self) hsend
    · exact htail
  sendFirst := h.sendFirst
  readFirst hnone := by
    have hnil : s.readqueue = [] := List.head?_eq_none_iff.mp hnone
    change s.readqueue.tail = []
    rw [hnil]
    rfl
  nodup := by
    change (s.readqueue.head?.toList ++ s.readqueue.tail).Nodup
    rw [headToList_append_tail]
    exact h.nodup.sublist (List.sublist_append_right _ _)

/-- A request that is nowhere else joins both lines. -/
theorem join (h : s.InLine) (hr : r ∉ s.readLine) (hsend : s'.sendLine = s.sendLine ++ [r])
    (hread : s'.readLine = s.readLine ++ [r]) (hsendFirst : s'.sendreq = none → s'.sendqueue = [])
    (hreadFirst : s'.readreq = none → s'.readqueue = []) : s'.InLine where
  suffix := by
    rw [hsend, hread]
    obtain ⟨before, hbefore⟩ := h.suffix
    exact ⟨before, by rw [← hbefore, List.append_assoc]⟩
  sendFirst := hsendFirst
  readFirst := hreadFirst
  nodup := by
    rw [hread]
    exact h.nodup.append (List.nodup_singleton r) (by simpa using hr)

end MmcServer.InLine

/-! ## Moving requests -/

namespace Keeps

variable {held held' : Set ReqId} {w w' w'' : World}

theorem refl (held : Set ReqId) (w : World) : Keeps held w w :=
  ⟨.refl w, .refl w, fun _ _ => rfl⟩

theorem trans (h : Keeps held w w') (h' : Keeps held w' w'') : Keeps held w w'' where
  toQuiet := h.toQuiet.trans h'.toQuiet
  toSameSlots := h.toSameSlots.trans h'.toSameSlots
  req r hr := (h'.req r hr).trans (h.req r hr)

end Keeps

theorem Unmoved.keeps {held : Set ReqId} {w w' : World} (h : Unmoved held w w') :
    Keeps held w w' where
  toQuiet := h.toQuiet
  build m := congrArg Slots.buildreq (h.slots m)
  pending := congrArg PoolLists.pending h.lists
  protocol := congrArg PoolLists.protocol h.lists
  findServer := congrArg PoolLists.findServer h.lists
  req := h.req

theorem KeepsRound.refl (held : Set ReqId) (w : World) : KeepsRound held w w := ⟨.refl held w, .refl w⟩

theorem KeepsRound.trans {held : Set ReqId} {w w' w'' : World} (h : KeepsRound held w w')
    (h' : KeepsRound held w' w'') : KeepsRound held w w'' :=
  ⟨h.toKeeps.trans h'.toKeeps, h.toSameRound.trans h'.toSameRound⟩

theorem Undisturbed.keepsRound {held : Set ReqId} {w w' : World} (h : Undisturbed held w w') :
    KeepsRound held w w' := ⟨h.keeps, .of_queues h.queues⟩

theorem Parsed.keepsRound {held : Set ReqId} {m : Mmc} {r : ReqId} {result : MmcResult} {w w' : World}
    (h : Parsed held m r result w w') : KeepsRound held w w' := ⟨h.keeps, .of_queues h.queues⟩

section Moving

variable {held held' held'' : Set ReqId} {phase phase' : Phase} {w w' : World} {r : ReqId} {p : Place}

/-- A request that was nowhere else, or is taken from where it was, is put into a place. -/
theorem World.Accounted.place (h : w.Accounted held)
    (hplace : ∀ q x, w'.Holds held' q x ↔ x ≠ r ∧ w.Holds held q x ∨ x = r ∧ q = p)
    (hnext : w.nextReq ≤ w'.nextReq) (hnew : ∀ x, x ≠ r → x < w'.nextReq → x < w.nextReq)
    (hreq : ∀ x, x ≠ r → (w.req x).ReadsUdp → (w'.req x).ReadsUdp)
    (hr : r < w'.nextReq ∧ (w'.req r).ReadsUdp) : w'.Accounted held' where
  one x q q' hq hq' := by
    rcases (hplace q x).mp hq with ⟨hx, hold⟩ | ⟨hx, rfl⟩
    · rcases (hplace q' x).mp hq' with ⟨_, hold'⟩ | ⟨hx', _⟩
      · exact h.one x q q' hold hold'
      · exact absurd hx' hx
    · rcases (hplace q' x).mp hq' with ⟨hx', _⟩ | ⟨_, rfl⟩
      · exact absurd hx hx'
      · rfl
  placed x hx := by
    by_cases heq : x = r
    · exact ⟨p, (hplace p x).mpr (Or.inr ⟨heq, rfl⟩)⟩
    · obtain ⟨q, hq⟩ := h.placed x (hnew x heq hx)
      exact ⟨q, (hplace q x).mpr (Or.inl ⟨heq, hq⟩)⟩
  known x q hq := by
    rcases (hplace q x).mp hq with ⟨hx, hold⟩ | ⟨rfl, _⟩
    · obtain ⟨hknown, hudp⟩ := h.known x q hold
      exact ⟨lt_of_lt_of_le hknown hnext, hreq x hx hudp⟩
    · exact hr

/-- Where every place has what it had, all is accounted for. -/
theorem World.Accounted.of_holds (h : w.Accounted held)
    (hholds : ∀ q x, w'.Holds held q x ↔ w.Holds held q x) (hnext : w'.nextReq = w.nextReq)
    (hreq : ∀ x, (w.req x).ReadsUdp → (w'.req x).ReadsUdp) : w'.Accounted held where
  one x q q' hq hq' := h.one x q q' ((hholds q x).mp hq) ((hholds q' x).mp hq')
  placed x hx := by
    obtain ⟨q, hq⟩ := h.placed x (hnext ▸ hx)
    exact ⟨q, (hholds q x).mpr hq⟩
  known x q hq := by
    obtain ⟨hknown, hudp⟩ := h.known x q ((hholds q x).mp hq)
    exact ⟨hnext ▸ hknown, hreq x hudp⟩

theorem Unmoved.readLine (h : Unmoved held w w') (m : Mmc) :
    (w'.mmc m).readLine = (w.mmc m).readLine := MmcServer.readLine_of_slots (h.slots m)

theorem Unmoved.sendreq (h : Unmoved held w w') (m : Mmc) : (w'.mmc m).sendreq = (w.mmc m).sendreq :=
  congrArg Slots.sendreq (h.slots m)

theorem Unmoved.readreq (h : Unmoved held w w') (m : Mmc) : (w'.mmc m).readreq = (w.mmc m).readreq :=
  congrArg Slots.readreq (h.slots m)

theorem Unmoved.freeRequests (h : Unmoved held w w') :
    w'.pool.freeRequests = w.pool.freeRequests := congrArg PoolLists.free h.lists

theorem Unmoved.holds (h : Unmoved held w w') (q : Place) (x : ReqId) :
    w'.Holds held' q x ↔ w.Holds held' q x := by
  cases q with
  | line m =>
    change x ∈ (w'.mmc m).readLine ↔ x ∈ (w.mmc m).readLine
    rw [h.readLine m]
  | free =>
    change some x ∈ w'.pool.freeRequests ↔ some x ∈ w.pool.freeRequests
    rw [h.freeRequests]
  | held => exact Iff.rfl

theorem World.Served.of_same (h : w.Served) (hservices : w'.services = w.services)
    (hline : ∀ m, (w'.mmc m).readLine = (w.mmc m).readLine) : w'.Served where
  inTurn := hservices ▸ h.inTurn
  line m := by rw [hservices, hline m, h.line m]

theorem World.Watched.intro (hselect : w.pool.inSelect = phase.inSelect)
    (hsending : ∀ m, (w.mmc m).sendreq ≠ none → m ∈ w.pool.sending ∨ m ∈ phase.todo .write)
    (hreading : ∀ m, (w.mmc m).readreq ≠ none → m ∈ w.pool.reading ∨ m ∈ phase.todo .read) :
    w.Watched phase where
  inSelect := hselect
  queued d m := by
    cases d with
    | write => exact hsending m
    | read => exact hreading m

theorem World.Watched.sending (h : w.Watched phase) (m : Mmc) (hm : (w.mmc m).sendreq ≠ none) :
    m ∈ w.pool.sending ∨ m ∈ phase.todo .write := h.queued .write m hm

theorem World.Watched.reading (h : w.Watched phase) (m : Mmc) (hm : (w.mmc m).readreq ≠ none) :
    m ∈ w.pool.reading ∨ m ∈ phase.todo .read := h.queued .read m hm

theorem World.Watched.of_queues (h : w.Watched phase) (hqueues : w'.pool.queues = w.pool.queues)
    (hslot : ∀ d m, (w'.mmc m).slot d = (w.mmc m).slot d) : w'.Watched phase where
  inSelect := (congrArg RoundQueues.inSelect hqueues).trans h.inSelect
  queued d m hm := by
    have hcur : w'.pool.cur = w.pool.cur := congrArg RoundQueues.cur hqueues
    rw [MmcPool.queue_of_queues hqueues, hcur]
    exact h.queued d m (hslot d m ▸ hm)

theorem MmcServer.slot_of_slots {s s' : MmcServer} (h : s'.slots = s.slots) (d : Direction) :
    s'.slot d = s.slot d := by
  cases d with
  | write => exact congrArg Slots.sendreq h
  | read => exact congrArg Slots.readreq h

/-- Where nothing is disturbed, everything stays in order. -/
theorem World.Tidy.undisturbed (h : w.Tidy held' phase) (hu : Undisturbed held w w') :
    w'.Tidy held' phase where
  toAccounted := h.toAccounted.of_holds hu.holds hu.nextReq hu.readsUdp
  toServed := h.toServed.of_same hu.services hu.readLine
  toWatched := h.toWatched.of_queues hu.queues fun d m => MmcServer.slot_of_slots (hu.slots m) d
  inLine m := (h.inLine m).of_slots (hu.slots m)
  freeNodup := hu.freeRequests ▸ h.freeNodup
  up m := hu.up m (h.up m)

theorem World.Answered.of_same {m : Mmc} (h : w.Answered m) (hread : (w'.mmc m).readreq = (w.mmc m).readreq)
    (hservices : w'.services = w.services) : w'.Answered m := fun r hr => hservices ▸ h r (hread ▸ hr)

theorem Undisturbed.answered {m : Mmc} (hu : Undisturbed held w w') (h : w.Answered m) : w'.Answered m :=
  h.of_same (hu.readreq m) hu.services

/-- The response of the first request in a line is parsed. -/
theorem World.Tidy.parsed (h : w.Tidy held' phase) {m : Mmc} (hread : (w.mmc m).readreq = some r)
    {result : MmcResult} (hp : Parsed held m r result w w') : w'.Tidy held' phase where
  toAccounted := h.toAccounted.of_holds hp.holds hp.nextReq hp.readsUdp
  inTurn := by
    rw [hp.services]
    refine ⟨?_, h.inTurn⟩
    rw [h.line m, MmcServer.readLine, hread]
    rfl
  line m' := by
    rw [hp.services, hp.readLine]
    exact h.line m'
  toWatched := h.toWatched.of_queues hp.queues fun d m' => MmcServer.slot_of_slots (hp.slots m') d
  inLine m' := (h.inLine m').of_slots (hp.slots m')
  freeNodup := hp.freeRequests ▸ h.freeNodup
  up m' := hp.up m' (h.up m')

/-- The order is one of slots, queues and lists. -/
theorem World.Tidy.of_same (h : w.Tidy held phase) (hmmc : w'.mmc = w.mmc)
    (hfree : w'.pool.freeRequests = w.pool.freeRequests) (hwatched : w'.Watched phase')
    (hreq : w'.req = w.req) (hnext : w'.nextReq = w.nextReq) (hservices : w'.services = w.services) :
    w'.Tidy held phase' where
  toAccounted := by
    refine h.toAccounted.of_holds (fun p x => ?_) hnext fun x => hreq ▸ id
    cases p with
    | line m =>
      change x ∈ (w'.mmc m).readLine ↔ x ∈ (w.mmc m).readLine
      rw [hmmc]
    | free =>
      change some x ∈ w'.pool.freeRequests ↔ some x ∈ w.pool.freeRequests
      rw [hfree]
    | held => exact Iff.rfl
  toServed := h.toServed.of_same hservices fun m => by rw [hmmc]
  toWatched := hwatched
  inLine m := hmmc ▸ h.inLine m
  freeNodup := hfree ▸ h.freeNodup
  up m := hmmc ▸ h.up m

/-- Nothing of the order is changed. -/
theorem World.Tidy.of_unchanged (h : w.Tidy held phase) (hmmc : w'.mmc = w.mmc)
    (hfree : w'.pool.freeRequests = w.pool.freeRequests) (hqueues : w'.pool.queues = w.pool.queues)
    (hreq : w'.req = w.req) (hnext : w'.nextReq = w.nextReq) (hservices : w'.services = w.services) :
    w'.Tidy held phase :=
  h.of_same hmmc hfree (h.toWatched.of_queues hqueues fun _ _ => by rw [hmmc]) hreq hnext hservices

/-- The pool is changed. -/
theorem World.Tidy.pool (h : w.Tidy held phase) {p : MmcPool} (hlists : p.lists = w.pool.lists)
    (hwatched : World.Watched { w with pool := p } phase') :
    World.Tidy { w with pool := p } held phase' :=
  h.of_same rfl (congrArg PoolLists.free hlists) hwatched rfl rfl rfl

/-- Another look at the same state. -/
theorem World.Tidy.inPhase (h : w.Tidy held phase) (hwatched : w.Watched phase') :
    w.Tidy held phase' := h.of_same rfl rfl hwatched rfl rfl rfl

/-- A step is recorded. -/
theorem World.Tidy.note (h : w.Tidy held phase) {s : Step} (hs : s.service = none) :
    World.Tidy { w with log := s :: w.log } held phase :=
  h.of_unchanged rfl rfl rfl rfl rfl (services_step hs)

theorem World.Tidy.not_held_of_line (h : w.Tidy held phase) {m : Mmc} (hr : r ∈ (w.mmc m).readLine) :
    r ∉ held := fun hheld => by cases h.one r (.line m) .held hr hheld

theorem World.Tidy.not_held_of_free (h : w.Tidy held phase) (hr : some r ∈ w.pool.freeRequests) :
    r ∉ held := fun hheld => by cases h.one r .free .held hr hheld

theorem World.Tidy.not_line_of_held (h : w.Tidy held phase) (hr : r ∈ held) (m : Mmc) :
    r ∉ (w.mmc m).readLine := fun hline => h.not_held_of_line hline hr

theorem World.Tidy.not_held_of_readreq (h : w.Tidy held phase) {m : Mmc}
    (hr : (w.mmc m).readreq = some r) : r ∉ held :=
  h.not_held_of_line (m := m) (by simp [MmcServer.readLine, hr])

theorem World.Tidy.not_held_of_sendreq (h : w.Tidy held phase) {m : Mmc}
    (hr : (w.mmc m).sendreq = some r) : r ∉ held :=
  h.not_held_of_line ((h.inLine m).sendLine_subset (by simp [MmcServer.sendLine, hr]))

/-- A change of a server that leaves the line of responses alone keeps the order. -/
theorem World.Tidy.sameLine (h : w.Tidy held phase) {m : Mmc} {s : MmcServer} (hin : s.InLine)
    (hline : s.readLine = (w.mmc m).readLine) (hup : s.tcp = (w.mmc m).tcp)
    (hsend : s.sendreq ≠ none → (w.mmc m).sendreq ≠ none) (hread : s.readreq = (w.mmc m).readreq) :
    World.Tidy { w with mmc := Function.update w.mmc m s } held phase := by
  have hlines (m' : Mmc) : (Function.update w.mmc m s m').readLine = (w.mmc m').readLine := by
    by_cases hm : m' = m
    · subst hm
      simpa using hline
    · simp [hm]
  have hholds (q : Place) (x : ReqId) :
      World.Holds { w with mmc := Function.update w.mmc m s } held q x ↔ w.Holds held q x := by
    cases q with
    | line m' =>
      change x ∈ (Function.update w.mmc m s m').readLine ↔ x ∈ (w.mmc m').readLine
      rw [hlines m']
    | free => exact Iff.rfl
    | held => exact Iff.rfl
  have hwatched : World.Watched { w with mmc := Function.update w.mmc m s } phase := by
    refine .intro h.inSelect (fun m' hm' => ?_) fun m' hm' => ?_
    · by_cases hm : m' = m
      · subst hm
        exact h.sending m' (hsend (by simpa using hm'))
      · exact h.sending m' (by simpa [hm] using hm')
    · by_cases hm : m' = m
      · subst hm
        exact h.reading m' (hread ▸ by simpa using hm')
      · exact h.reading m' (by simpa [hm] using hm')
  refine ⟨h.toAccounted.of_holds hholds rfl fun _ => id, h.toServed.of_same rfl hlines, hwatched,
    fun m' => ?_, h.freeNodup, fun m' => ?_⟩
  · by_cases hm : m' = m
    · subst hm
      simpa using hin
    · simpa [hm] using h.inLine m'
  · by_cases hm : m' = m
    · subst hm
      simpa [hup] using h.up m'
    · simpa [hm] using h.up m'

/-- A request that is held joins the lines of a server. -/
theorem World.Tidy.join (h : w.Tidy (insert r held) phase) (hr : r ∉ held) {m : Mmc}
    (hother : ∀ m', m' ≠ m → (w'.mmc m').slots = (w.mmc m').slots) (hin : (w'.mmc m).InLine)
    (hline : (w'.mmc m).readLine = (w.mmc m).readLine ++ [r])
    (hlists : w'.pool.lists = w.pool.lists) (hnext : w'.nextReq = w.nextReq)
    (hreq : ∀ x, (w.req x).ReadsUdp → (w'.req x).ReadsUdp)
    (hup : ∀ m, (w'.mmc m).tcp.status ≠ .failed)
    (hservices : w'.services = .join m r :: w.services) (hwatched : w'.Watched phase) :
    w'.Tidy held phase where
  toAccounted := by
    have hfree : w'.pool.freeRequests = w.pool.freeRequests := congrArg PoolLists.free hlists
    have hmem : r ∈ insert r held := Set.mem_insert r held
    obtain ⟨hknown, hudp⟩ := h.known r .held hmem
    have hline' (m' : Mmc) (hm : m' ≠ m) : (w'.mmc m').readLine = (w.mmc m').readLine :=
      MmcServer.readLine_of_slots (hother m' hm)
    refine h.toAccounted.place (r := r) (p := .line m) (fun q x => ?_) hnext.ge
      (fun x _ hx => hnext ▸ hx) (fun x _ => hreq x) ⟨hnext ▸ hknown, hreq r hudp⟩
    -- whatever is in a place now was there before, except for the request that joins
    cases q with
    | line m' =>
      change x ∈ (w'.mmc m').readLine ↔ x ≠ r ∧ x ∈ (w.mmc m').readLine ∨ _
      by_cases hm : m' = m
      · subst hm
        have hne (hx : x ∈ (w.mmc m').readLine) : x ≠ r :=
          fun heq => h.not_line_of_held hmem m' (heq ▸ hx)
        simp only [hline, List.mem_append, List.mem_singleton, and_true]
        exact ⟨fun hx => hx.imp_left fun hx => ⟨hne hx, hx⟩, fun hx => hx.imp_left And.right⟩
      · rw [hline' m' hm]
        have hne (hx : x ∈ (w.mmc m').readLine) : x ≠ r :=
          fun heq => h.not_line_of_held hmem m' (heq ▸ hx)
        have hplace : ¬ (Place.line m' = .line m) := fun heq => hm (by injection heq)
        exact ⟨fun hx => Or.inl ⟨hne hx, hx⟩, fun hx => (hx.resolve_right fun h => hplace h.2).2⟩
    | free =>
      change some x ∈ w'.pool.freeRequests ↔ x ≠ r ∧ some x ∈ w.pool.freeRequests ∨ _
      rw [hfree]
      have hne (hx : some x ∈ w.pool.freeRequests) : x ≠ r :=
        fun heq => h.not_held_of_free (heq ▸ hx) hmem
      exact ⟨fun hx => Or.inl ⟨hne hx, hx⟩, fun hx => (hx.resolve_right fun h => by cases h.2).2⟩
    | held =>
      change x ∈ held ↔ x ≠ r ∧ x ∈ insert r held ∨ _
      refine ⟨fun hx => Or.inl ⟨fun heq => hr (heq ▸ hx), Set.mem_insert_of_mem r hx⟩, fun hx => ?_⟩
      have hx := hx.resolve_right fun h => by cases h.2
      exact (Set.mem_insert_iff.mp hx.2).resolve_left hx.1
  toServed := by
    refine ⟨hservices ▸ h.inTurn, fun m' => ?_⟩
    rw [hservices]
    by_cases hm : m' = m
    · subst hm
      rw [Turns.line_join_self, h.line, hline]
    · rw [Turns.line_join_of_ne (Ne.symm hm), h.line, MmcServer.readLine_of_slots (hother m' hm)]
  toWatched := hwatched
  inLine m' := by
    by_cases hm : m' = m
    · exact hm ▸ hin
    · exact (h.inLine m').of_slots (hother m' hm)
  freeNodup := by
    have hfree : w'.pool.freeRequests = w.pool.freeRequests := congrArg PoolLists.free hlists
    rw [hfree]
    exact h.freeNodup
  up := hup

end Moving

/-! ## Programs that keep the order -/

section Rules

variable {α β : Type} {held : Set ReqId} {phase : Phase}

/-- A program of a round that keeps the order in a pool, started in `w`. -/
def SparesFrom (held : Set ReqId) (phase : Phase) (w : World) (x : PoolM α) : Prop :=
  wp x (fun _ w' => w'.Tidy held phase ∧ KeepsRound held w w') (Quiet w) w

/-- A program of a round that keeps the order and what the caller holds, wherever it ends with a
    result. -/
def Spares (held : Set ReqId) (phase : Phase) (x : PoolM α) : Prop :=
  ∀ w, w.Tidy held phase → SparesFrom held phase w x

theorem SparesFrom.bind {w : World} {x : PoolM α} {f : α → PoolM β} (hx : SparesFrom held phase w x)
    (hf : ∀ a, Spares held phase (f a)) : SparesFrom held phase w (x >>= f) := by
  refine (wp_bind _ _ _ _ _).mpr (wp_mono hx (fun a w₁ h₁ => ?_) fun _ => id)
  exact wp_mono (hf a w₁ h₁.1) (fun _ w₂ h₂ => ⟨h₂.1, h₁.2.trans h₂.2⟩) fun _ => h₁.2.toQuiet.trans

theorem Spares.bind {x : PoolM α} {f : α → PoolM β} (hx : Spares held phase x)
    (hf : ∀ a, Spares held phase (f a)) : Spares held phase (x >>= f) := fun w hw => (hx w hw).bind hf

theorem Spares.pure (a : α) : Spares held phase (Pure.pure a : PoolM α) :=
  fun w hw => (wp_pure _ _ _ _).mpr ⟨hw, KeepsRound.refl held w⟩

theorem Spares.ite {c : Prop} [Decidable c] {x y : PoolM α} (hx : Spares held phase x)
    (hy : Spares held phase y) : Spares held phase (if c then x else y) :=
  fun w hw => wp_ite (fun _ => hx w hw) fun _ => hy w hw

theorem Spares.doWhen {c : Prop} [Decidable c] {x : PoolM Unit} (hx : Spares held phase x) :
    Spares held phase (doWhen c x) := Spares.ite hx (Spares.pure ())

/-- What disturbs nothing keeps the order. -/
theorem SparesFrom.of_undisturbed {w : World} (hw : w.Tidy held phase) {x : PoolM α}
    (hx : wp x (fun _ w' => Undisturbed held w w') (Quiet w) w) : SparesFrom held phase w x :=
  wp_mono hx (fun _ _ hu => ⟨hw.undisturbed hu, hu.keepsRound⟩) fun _ => id

theorem Calm.spares {x : PoolM α} (hx : Calm held x) : Spares held phase x :=
  fun w hw => SparesFrom.of_undisturbed hw (hx w)

theorem Fails.spares {x : PoolM α} (hx : Fails x) : Spares held phase x := fun w _ => hx _ w

/-- A look at a server: the rest may use what is known of it. -/
theorem Spares.getMmc {m : Mmc} {f : MmcServer → PoolM α}
    (hf : ∀ w, w.Tidy held phase → SparesFrom held phase w (f (w.mmc m))) :
    Spares held phase (PeclMemcache.getMmc m >>= f) :=
  fun w hw => (wp_bind _ _ _ _ _).mpr ((wp_getMmc _ _ _ _).mpr (hf w hw))

end Rules

/-! ## Slots -/

section Slots

variable {held : Set ReqId} {w w' : World}

/-- The same change of the slots of a server, made after what disturbs nothing. -/
theorem Undisturbed.modifyMmc (h : Undisturbed held w w') (m : Mmc) {f : MmcServer → MmcServer}
    (g : Slots → Slots) (hslots : ∀ s, (f s).slots = g s.slots) (htcp : ∀ s, (f s).tcp = s.tcp) :
    Undisturbed held { w with mmc := Function.update w.mmc m (f (w.mmc m)) }
      { w' with mmc := Function.update w'.mmc m (f (w'.mmc m)) } where
  toQuiet := ⟨h.sameCommand, h.quiet⟩
  slots m' := by
    by_cases hm : m' = m
    · subst hm
      simp [hslots, h.slots]
    · simp [hm, h.slots]
  lists := h.lists
  nextReq := h.nextReq
  req := h.req
  readsUdp := h.readsUdp
  up m' := by
    by_cases hm : m' = m
    · subst hm
      simpa [htcp] using h.up m'
    · simpa [hm] using h.up m'
  queues := h.queues
  services := h.services

variable {E : Env} (hE : NoFailures E) {fh : Failover}

/-- What `mmc_pool_slot_send` has done once it ends with a result. -/
def SlotSent (held : Set ReqId) (m : Mmc) (request : Option ReqId) (w : World) (result : MmcResult)
    (w' : World) : Prop :=
  result = .ok ∧ Undisturbed held
    { w with mmc := Function.update w.mmc m { w.mmc m with sendreq := request } } w'

theorem takeSlot_sent (m : Mmc) (request old : Option ReqId) {w₁ : World}
    (h : Undisturbed held w w₁) :
    wp (takeSlot E m request old) (SlotSent held m request w) (Quiet w) w₁ := by
  simp only [takeSlot, wp_bind, wp_step, wp_modifyMmc, wp_pure]
  refine ⟨fun _ => ⟨rfl, ?_⟩, fun _ => h.toQuiet⟩
  have hsent := h.modifyMmc m (f := fun s => { s with sendreq := request })
    (fun s => { s with sendreq := request }) (fun _ => rfl) fun _ => rfl
  exact hsent.trans (.of_step _ trivial rfl)

include hE

theorem mmcPoolOpen_sent (m : Mmc) (t : MmcProto) (cause : Option ReqId) {w₁ : World}
    (h : Undisturbed held w w₁) :
    wp (mmcPoolOpen E fh m t cause) (fun opened w₂ => opened = .ok ∧ Undisturbed held w w₂)
      (Quiet w) w₁ :=
  wp_mono (wp_and (mmcPoolOpen_ok hE m t cause w₁) (calm_mmcPoolOpen hE held m t cause w₁))
    (fun _ _ h₂ => ⟨h₂.1, h.trans h₂.2⟩) fun _ h₂ => h.toQuiet.trans h₂.2

theorem slotSendTcp_sent (m : Mmc) {r : ReqId} (hr : r ∉ held) (old : Option ReqId)
    (handleFailover : Bool) {w₁ : World} (h : Undisturbed held w w₁) :
    wp (slotSendTcp E fh m r old handleFailover) (SlotSent held m (some r) w) (Quiet w) w₁ := by
  rw [slotSendTcp, wp_bind]
  refine wp_mono (mmcPoolOpen_sent hE m .tcp (some r) h) (fun opened w₂ ⟨hok, h₂⟩ => ?_) fun _ => id
  refine wp_ite (fun _ => ?_) fun hfailed => absurd hok hfailed
  rw [wp_bind, wp_modifyReq]
  refine takeSlot_sent m (some r) old (h₂.trans (Undisturbed.of_req w₂ hr ?_ fun _ hread => ?_))
  · refine .of_value rfl ?_
    dsimp only
    split
    · rfl
    · rfl
  · cases hread

/-- `mmc_pool_slot_send` puts the request into the send slot. -/
theorem mmcPoolSlotSend_sent (m : Mmc) {request : Option ReqId}
    (hr : ∀ r, request = some r → r ∉ held) (handleFailover : Bool) (w : World) :
    wp (mmcPoolSlotSend E fh m request handleFailover) (SlotSent held m request w) (Quiet w)
      w := by
  rw [mmcPoolSlotSend, wp_bind, wp_getMmc]
  cases request with
  | none => exact takeSlot_sent m none _ (Undisturbed.refl held w)
  | some r =>
    have hr := hr r rfl
    dsimp only
    rw [wp_bind, wp_getReq]
    refine wp_ite (fun hudp => ?_) fun _ => slotSendTcp_sent hE m hr _ _ (Undisturbed.refl held w)
    rw [wp_bind]
    refine wp_mono (mmcPoolOpen_sent hE m .udp (some r) (Undisturbed.refl held w))
      (fun opened w₂ ⟨hok, h₂⟩ => ?_) fun _ => id
    refine wp_ite (fun _ => ?_) fun hfailed => absurd hok hfailed
    simp only [wp_bind, wp_getMmc, wp_modifyMmc, wp_modifyReq]
    refine takeSlot_sent m (some r) _ (h₂.trans ?_)
    have hprotocol : (w₂.req r).protocol = .udp := ((h₂.sameCommand r).protocol).trans hudp.1
    refine (Undisturbed.of_mmc w₂ m ?_ ?_).trans (Undisturbed.of_req _ hr ?_ fun _ _ => ⟨m, rfl⟩)
    · rfl
    · exact id
    · exact .udpHeader hprotocol rfl rfl

/-- The send slot and the send queue of a server move up by one. -/
theorem spares_shiftSend {phase : Phase} (m : Mmc) {w : World} (hw : w.Tidy held phase)
    (hsend : (w.mmc m).sendreq ≠ none) :
    wp (shiftSend E fh m) (fun _ w' => (w'.Tidy held phase ∧ KeepsRound held w w') ∧
        (w'.mmc m).readreq = (w.mmc m).readreq ∧ (w'.mmc m).sendLine = (w.mmc m).sendqueue ∧
        w'.services = w.services)
      (Quiet w) w := by
  have hnext : ∀ r, (w.mmc m).sendqueue.head? = some r → r ∉ held := fun r hr =>
    hw.not_held_of_line ((hw.inLine m).sendLine_subset
      (List.mem_append_right _ (List.mem_of_head? hr)))
  simp only [shiftSend, wp_bind, wp_getMmc, wp_modifyMmc, wp_pure]
  refine wp_mono (mmcPoolSlotSend_sent hE m hnext true _) (fun _ w₂ hsent => ?_)
    fun _ h => ⟨h.sameCommand, h.quiet⟩
  have h₂ := hsent.2
  set shifted : MmcServer :=
    { w.mmc m with sendreq := (w.mmc m).sendqueue.head?, sendqueue := (w.mmc m).sendqueue.tail }
  have hmmc : Function.update (Function.update w.mmc m
      { w.mmc m with sendqueue := (w.mmc m).sendqueue.tail }) m
      { Function.update w.mmc m { w.mmc m with sendqueue := (w.mmc m).sendqueue.tail } m with
        sendreq := (w.mmc m).sendqueue.head? } = Function.update w.mmc m shifted := by
    simp [shifted]
  simp only [hmmc] at h₂
  have hshifted : KeepsRound held w { w with mmc := Function.update w.mmc m shifted } :=
    ⟨⟨.of_same rfl rfl, .of_mmc rfl rfl rfl rfl rfl, fun _ _ => rfl⟩, .of_queues rfl⟩
  have htidy := hw.sameLine (m := m) (s := shifted) (hw.inLine m).shiftSend rfl rfl (fun _ => hsend) rfl
  refine ⟨⟨htidy.undisturbed h₂, hshifted.trans h₂.keepsRound⟩, ?_, ?_, h₂.services⟩
  · have hreadreq : (w₂.mmc m).readreq = _ := congrArg Slots.readreq (h₂.slots m)
    rw [hreadreq]
    simp [MmcServer.slots, shifted]
  · rw [MmcServer.sendLine_of_slots (h₂.slots m)]
    simp [MmcServer.sendLine, shifted, headToList_append_tail]

omit hE in
/-- A request that joined the send line joins the line for responses. -/
theorem spares_scheduleRead {phase : Phase} {r : ReqId} (hr : r ∉ held) {m : Mmc}
    (hw : w.Tidy (insert r held) phase)
    {s : MmcServer} (hsend : s.sendLine = (w.mmc m).sendLine ++ [r])
    (hsendFirst : s.sendreq = none → s.sendqueue = []) (hreadreq : s.readreq = (w.mmc m).readreq)
    (hreadqueue : s.readqueue = (w.mmc m).readqueue) (hbuild : s.buildreq = (w.mmc m).buildreq)
    (htcp : s.tcp = (w.mmc m).tcp) {w₁ : World}
    (h₁ : Unmoved held { w with mmc := Function.update w.mmc m s } w₁)
    (hservices : w₁.services = .join m r :: w.services) (hselect : w₁.pool.inSelect = w.pool.inSelect)
    (hsending : ∀ x, x ∈ w.pool.sending → x ∈ w₁.pool.sending)
    (hqueued : m ∈ w₁.pool.sending ∨ m ∈ phase.todo .write) (hreading : w₁.pool.reading = w.pool.reading) :
    wp (scheduleRead m r) (fun _ w' => w'.Tidy held phase ∧ Keeps held w w') (fun _ => False) w₁ := by
  have hslots : (w₁.mmc m).slots = s.slots := by simpa using h₁.slots m
  have hsendLine : (w₁.mmc m).sendLine = s.sendLine := MmcServer.sendLine_of_slots hslots
  have hin := hw.inLine m
  have hline : r ∉ (w.mmc m).readLine := hw.not_line_of_held (Set.mem_insert r held) m
  -- all that is left is to compare the server with the one before
  have hjoin (s' : MmcServer) (w₂ : World) (hmmc : w₂.mmc = Function.update w₁.mmc m s')
      (hlists : w₂.pool.lists = w₁.pool.lists) (hnext : w₂.nextReq = w₁.nextReq)
      (hreq : w₂.req = w₁.req) (hlog : w₂.log = w₁.log)
      (hsent : s'.sendreq = s.sendreq ∧ s'.sendqueue = s.sendqueue)
      (hread : s'.readLine = (w.mmc m).readLine ++ [r]) (hfirst : s'.readreq = none → s'.readqueue = [])
      (hbuild' : s'.buildreq = s.buildreq) (htcp' : s'.tcp = (w₁.mmc m).tcp)
      (hsendings : w₂.pool.sending = w₁.pool.sending) (hselect' : w₂.pool.inSelect = w₁.pool.inSelect)
      (hreadings : ∀ x, x ∈ w₁.pool.reading → x ∈ w₂.pool.reading)
      (hread' : m ∈ w₂.pool.reading ∨ m ∈ phase.todo .read) :
      w₂.Tidy held phase ∧ Keeps held w w₂ := by
    have hsend' : s'.sendLine = (w.mmc m).sendLine ++ [r] := by
      rw [MmcServer.sendLine, hsent.1, hsent.2]
      exact hsend
    have hin' : s'.InLine := hin.join hline hsend' hread
      (fun hnone => hsent.2.trans (hsendFirst (hsent.1 ▸ hnone))) hfirst
    have hother (m' : Mmc) (hm : m' ≠ m) : (w₂.mmc m').slots = (w.mmc m').slots := by
      rw [hmmc]
      simpa [hm] using h₁.slots m'
    have hwatched : w₂.Watched phase := by
      refine .intro (hselect'.trans (hselect.trans hw.inSelect)) (fun m' hm' => ?_) fun m' hm' => ?_
      · by_cases hm : m' = m
        · rw [hm, hsendings]
          exact hqueued
        · rw [show (w₂.mmc m').sendreq = _ from congrArg Slots.sendreq (hother m' hm)] at hm'
          exact (hw.sending m' hm').imp_left fun hmem => hsendings ▸ hsending m' hmem
      · by_cases hm : m' = m
        · rw [hm]
          exact hread'
        · rw [show (w₂.mmc m').readreq = _ from congrArg Slots.readreq (hother m' hm)] at hm'
          exact (hw.reading m' hm').imp_left fun hmem => hreadings m' (hreading ▸ hmem)
    refine ⟨hw.join hr hother ?_ ?_ (hlists.trans h₁.lists) (hnext.trans h₁.nextReq)
      (fun x hx => ?_) (fun m' => ?_) ((congrArg _ hlog).trans hservices) hwatched, ?_⟩
    · rw [hmmc]
      simpa using hin'
    · rw [hmmc]
      simpa using hread
    · rw [hreq]
      exact h₁.readsUdp x hx
    · have hup₁ (m' : Mmc) : (w₁.mmc m').tcp.status ≠ .failed := by
        refine h₁.up m' ?_
        by_cases hm : m' = m
        · subst hm
          simpa [htcp] using hw.up m'
        · simpa [hm] using hw.up m'
      rw [hmmc]
      by_cases hm : m' = m
      · subst hm
        simpa [htcp'] using hup₁ m'
      · simpa [hm] using hup₁ m'
    · have hkeeps := h₁.keeps
      have hquiet : Quiet w w₁ := ⟨h₁.sameCommand, h₁.quiet⟩
      refine ⟨hquiet.trans (.of_same hreq hlog), ⟨fun m' => ?_, ?_, ?_, ?_⟩, fun x hx => ?_⟩
      · by_cases hm : m' = m
        · subst hm
          rw [hmmc]
          simp [hbuild', hbuild]
        · exact congrArg Slots.buildreq (hother m' hm)
      · exact (congrArg PoolLists.pending hlists).trans hkeeps.pending
      · exact (congrArg PoolLists.protocol hlists).trans hkeeps.protocol
      · exact (congrArg PoolLists.findServer hlists).trans hkeeps.findServer
      · rw [hreq]
        exact hkeeps.req x hx
  have hsent : (w₁.mmc m).sendreq = s.sendreq ∧ (w₁.mmc m).sendqueue = s.sendqueue :=
    ⟨congrArg Slots.sendreq hslots, congrArg Slots.sendqueue hslots⟩
  have hreq₁ : (w₁.mmc m).readreq = (w.mmc m).readreq :=
    (congrArg Slots.readreq hslots).trans hreadreq
  have hqueue₁ : (w₁.mmc m).readqueue = (w.mmc m).readqueue :=
    (congrArg Slots.readqueue hslots).trans hreadqueue
  have hbuild₁ : (w₁.mmc m).buildreq = s.buildreq := congrArg Slots.buildreq hslots
  rw [scheduleRead, wp_bind, wp_getMmc]
  refine wp_ite (fun hnone => ?_) fun hsome => ?_
  · simp only [wp_bind, wp_modifyMmc, wp_modifyPool, wp_pure]
    have hempty : (w.mmc m).readqueue = [] := hin.readFirst (hreq₁ ▸ hnone)
    refine hjoin _ _ rfl rfl rfl rfl rfl hsent ?_ (fun h => by cases h) hbuild₁ rfl rfl rfl
      (fun x hx => ?_) (Or.inl ?_)
    · simp [MmcServer.readLine, hqueue₁, hempty, ← hreq₁, hnone]
    · have hx : x ∈ w₁.pool.readingBuf w₁.pool.cur := hx
      simp [MmcPool.reading, mem_mmcQueuePush, hx]
    · simp [MmcPool.reading, mem_mmcQueuePush]
  · simp only [wp_bind, wp_modifyMmc, wp_pure]
    have hnot : r ∉ (w.mmc m).readqueue := fun hmem => hline (List.mem_append_right _ hmem)
    refine hjoin _ _ rfl rfl rfl rfl rfl hsent ?_ (fun h => absurd h hsome) hbuild₁ rfl rfl rfl
      (fun _ => id) ?_
    · simp [MmcServer.readLine, hqueue₁, hreq₁, mmcQueuePush_of_not_mem hnot]
    · exact (hw.reading m (hreq₁ ▸ hsome)).imp_left fun hmem => hreading ▸ hmem

variable (hfh : ∀ m r, Fails (fh m r))

include hfh

/-- `mmc_pool_schedule` takes the request over from the caller. -/
theorem spares_mmcPoolSchedule {phase : Phase} (m : Mmc) {r : ReqId} (hr : r ∉ held)
    (hw : w.Tidy (insert r held) phase) :
    wp (mmcPoolSchedule E fh m r)
      (fun _ w' => w'.Tidy held phase ∧ Keeps held { w with log := .schedule m r :: w.log } w')
      (fun w' => w' = w ∨ Quiet { w with log := .schedule m r :: w.log } w') w := by
  rw [mmcPoolSchedule, wp_bind, wp_step]
  refine ⟨fun _ => ?_, fun _ => Or.inl rfl⟩
  set w₁ : World := { w with log := .schedule m r :: w.log }
  have hw₁ : w₁.Tidy (insert r held) phase := hw.note rfl
  suffices hrest : wp _ (fun _ w' => w'.Tidy held phase ∧ Keeps held w₁ w') (Quiet w₁) w₁ from
    wp_mono hrest (fun _ _ => id) fun _ => Or.inr
  refine (wp_bind _ _ _ _ _).mpr (wp_mono (calm_mmcServerValid held m w₁) (fun valid w₂ h₂ => ?_)
    fun _ => id)
  refine wp_ite (fun _ => ?_) fun _ => ?_
  · exact wp_mono (hfh m r _ w₂) (fun _ _ => id) fun _ => h₂.toQuiet.trans
  have hrewind : Calm held (modifyReq r MmcRequest.rewind) :=
    Calm.modifyReq hr (fun _ => .of_value rfl rfl) fun _ h => h
  refine (wp_bind _ _ _ _ _).mpr (wp_mono (hrewind w₂) (fun _ w₃ h₃ => ?_) fun _ => h₂.toQuiet.trans)
  have hu : Undisturbed held w₁ w₃ := h₂.trans h₃
  have hw₃ : w₃.Tidy (insert r held) phase := hw₁.undisturbed hu
  have hin := hw₃.inLine m
  have hline : r ∉ (w₃.mmc m).readLine := hw₃.not_line_of_held (Set.mem_insert r held) m
  suffices hrest : wp _ (fun _ w' => w'.Tidy held phase ∧ Keeps held w₃ w') (Quiet w₃) w₃ from
    wp_mono hrest (fun _ _ h => ⟨h.1, hu.keeps.trans h.2⟩) fun _ => hu.toQuiet.trans
  rw [wp_bind, wp_getMmc]
  refine wp_ite (fun hnone => ?_) fun hsome => ?_
  · have hnext : ∀ r', some r = some r' → r' ∉ held := fun r' heq => Option.some_inj.mp heq ▸ hr
    rw [wp_bind]
    refine wp_mono (mmcPoolSlotSend_sent hE m hnext false w₃) (fun result w₄ hsent => ?_)
      fun _ => id
    obtain ⟨hok, h₄⟩ := hsent
    have hquiet₄ : Quiet w₃ w₄ := ⟨h₄.sameCommand, h₄.quiet⟩
    refine wp_ite (fun hfailed => absurd hok hfailed) fun _ => ?_
    simp only [wp_bind, wp_step, wp_modifyPool]
    refine ⟨fun _ => ?_, fun _ => hquiet₄⟩
    have hnote := h₄.toUnmoved.trans (show Unmoved _ w₄ { w₄ with
        pool := { w₄.pool with
          sendingBuf := Function.update w₄.pool.sendingBuf w₄.pool.cur (mmcQueuePush w₄.pool.sending m) }
        log := .accept m r :: w₄.log } from
      .of_same rfl rfl rfl rfl (.of_step (s := .accept m r) trivial rfl rfl))
    have hsending₄ : w₄.pool.sending = w₃.pool.sending :=
      congrArg (fun q : RoundQueues => q.sendingBuf q.cur) h₄.queues
    have hjoin : World.services { w₄ with log := .accept m r :: w₄.log } = .join m r :: w₃.services :=
      congrArg (List.cons _) h₄.services
    refine wp_mono (spares_scheduleRead hr hw₃ (s := { w₃.mmc m with sendreq := some r }) ?_
      (fun h => by cases h) rfl rfl rfl rfl hnote hjoin ?_ (fun x hx => ?_) (Or.inl ?_) ?_)
      (fun _ _ => id) fun _ => False.elim
    · simp [MmcServer.sendLine, hnone, hin.sendFirst hnone]
    · exact congrArg RoundQueues.inSelect h₄.queues
    · have hx : x ∈ w₄.pool.sendingBuf w₄.pool.cur := by
        rw [← MmcPool.sending, hsending₄]
        exact hx
      simp [MmcPool.sending, mem_mmcQueuePush, hx]
    · simp [MmcPool.sending, mem_mmcQueuePush]
    · exact congrArg (fun q : RoundQueues => q.readingBuf q.cur) h₄.queues
  · simp only [wp_bind, wp_step, wp_modifyMmc]
    refine ⟨fun _ => ?_, fun _ => .refl w₃⟩
    have hnot : r ∉ (w₃.mmc m).sendqueue := fun hmem =>
      hline (hin.sendLine_subset (List.mem_append_right _ hmem))
    refine wp_mono (spares_scheduleRead hr hw₃
      (s := { w₃.mmc m with sendqueue := mmcQueuePush (w₃.mmc m).sendqueue r }) ?_
      (fun h => absurd h hsome) rfl rfl rfl rfl
      (.of_same rfl rfl rfl rfl (.of_step (s := .accept m r) trivial rfl rfl)) rfl rfl (fun _ => id)
      (hw₃.sending m hsome) rfl) (fun _ _ => id) fun _ => False.elim
    simp [MmcServer.sendLine, mmcQueuePush_of_not_mem hnot]

end Slots

end PeclMemcache
