import PeclMemcache.SharedServers

set_option autoImplicit false

/-! # Pools that keep apart

Where every pool comes to a server only while it holds no request of another pool, each server serves one
pool at a time and no request gets lost. One lemma for each step of `SharingState.perform` keeps this, and
the runs follow by the rule for invariants. -/

namespace PeclMemcache

open Machines

namespace SharingState

variable {s s' : SharingState} {p : Nat} {m : Mmc}

/-! ## Pools that keep apart -/

/-- The request is in a server or waits for its failover handler. -/
def Covered (s : SharingState) (r : ReqId) : Prop :=
  (∃ m, r ∈ (s.server m).active) ∨ ∃ p rest, .failing p rest ∈ s.stack ∧ r ∈ rest

/-- An operation of the pool is under way. -/
def HasBase (stack : List SharingFrame) (p : Nat) : Prop :=
  ∃ frame ∈ stack, frame.isBase = true ∧ frame.pool = p

/-- Every other function is called in an operation of its pool. -/
def Grounded : List SharingFrame → Prop
  | [] => True
  | frame :: rest => HasBase (frame :: rest) frame.pool ∧ Grounded rest

/-- Every server serves one pool, every request that is not finished is covered, and what is under way
    belongs to the pools it says. -/
structure Apart (s : SharingState) : Prop where
  served : ∀ m, ∃ p, s.ServedBy m p
  alive : ∀ r < s.requests, s.finished r = false → s.Covered r
  failing : ∀ p rest, .failing p rest ∈ s.stack → ∀ r ∈ rest, r < s.requests ∧ s.owner r = p
  deeds : ∀ d ∈ s.deeds, d.2.2 < s.requests ∧ s.owner d.2.2 = d.2.1
  parsing : ∀ p m, parsesNow p m s.stack = true →
    m ∈ (s.pool p).reading ∨ (s.pool p).inSelect = false
  idle : ∀ p, ¬HasBase s.stack p →
    ∀ m, m ∉ (s.pool p).sending ∧ m ∉ (s.pool p).reading ∧ m ∉ (s.pool p).pending
  grounded : Grounded s.stack

theorem HasBase.cons {stack : List SharingFrame} {q : Nat} (h : HasBase stack q) (frame : SharingFrame) :
    HasBase (frame :: stack) q := by
  obtain ⟨base, hbase, hprop⟩ := h
  exact ⟨base, List.mem_cons_of_mem frame hbase, hprop⟩

theorem hasBase_cons {stack : List SharingFrame} {frame : SharingFrame} {q : Nat} :
    HasBase (frame :: stack) q ↔ (frame.isBase = true ∧ frame.pool = q) ∨ HasBase stack q := by
  simp [HasBase]

/-- Below any function of the pool there is an operation of it. -/
theorem Grounded.hasBase {stack : List SharingFrame} (h : Grounded stack) {frame : SharingFrame}
    (hmem : frame ∈ stack) : HasBase stack frame.pool := by
  induction stack with
  | nil => cases hmem
  | cons top rest ih =>
    rcases List.mem_cons.mp hmem with rfl | hrest
    · exact h.1
    · exact (ih h.2 hrest).cons top

/-- **No interference** follows where the pools keep apart. -/
theorem Apart.noInterference (h : s.Apart) : s.NoInterference := by
  refine ⟨fun d hd => (h.deeds d hd).2, ?_⟩
  intro p hnone r hr howner
  have hidle := h.idle p fun ⟨frame, hframe, _, hpool⟩ => hnone frame hframe hpool
  by_contra hunfinished
  rcases h.alive r hr (by simpa using hunfinished) with ⟨m, hactive⟩ | ⟨q, rest, hframe, hmem⟩
  · obtain ⟨q, hserved⟩ := h.served m
    have hq : p = q := howner.symm.trans (hserved.held r (SharedServer.mem_held.mpr (Or.inl hactive))).2
    subst hq
    rcases SharedServer.mem_active.mp hactive with hread | hqueue | hbuild
    · exact (hidle m).2.1 (hserved.reading.mpr (by simp [hread]))
    · refine (hidle m).2.1 (hserved.reading.mpr fun hslot => ?_)
      rw [hserved.slotted.read hslot] at hqueue
      cases hqueue
    · exact (hidle m).2.2 (hserved.pending.mpr (by simp [hbuild]))
  · exact hnone _ hframe ((h.failing q rest hframe r hmem).2.symm.trans howner)

/-- **A step of a pool at a server** that is at its disposal: what has to be seen to besides the server
    is the stack, and that no request gets lost. -/
theorem Apart.step (h : s.Apart) (hbefore : s.ServedBy m p) (htouches : s.Touches s' p m)
    (hsettles : s'.Settles p m) (hbase : HasBase s'.stack p)
    (hbases : ∀ q, HasBase s.stack q → HasBase s'.stack q) (hgrounded : Grounded s'.stack)
    (hselect : ∀ q, (s'.pool q).inSelect = (s.pool q).inSelect)
    (hparses : ∀ q m', parsesNow q m' s'.stack = true → parsesNow q m' s.stack = true)
    (hreading : parsesNow p m s'.stack = true → m ∈ (s.pool p).reading → m ∈ (s'.pool p).reading)
    (hfailing : ∀ q rest, .failing q rest ∈ s'.stack →
      .failing q rest ∈ s.stack ∨ ∀ r ∈ rest, r < s'.requests ∧ s'.owner r = q)
    (hdeeds : ∀ d ∈ s'.deeds, d ∈ s.deeds ∨ (d.2.2 < s'.requests ∧ s'.owner d.2.2 = d.2.1))
    (hfinished : ∀ r < s.requests, s'.finished r = false → s.finished r = false)
    (hactive : ∀ r ∈ (s.server m).active, s'.finished r = false → s'.Covered r)
    (hwaiting : ∀ q rest, .failing q rest ∈ s.stack → ∀ r ∈ rest, s'.finished r = false → s'.Covered r)
    (hnew : ∀ r, s.requests ≤ r → r < s'.requests → s'.Covered r) : s'.Apart where
  served := served_of_touches h.served htouches (hsettles.servedBy hbefore htouches)
  alive r hr hunfinished := by
    by_cases hold : r < s.requests
    · rcases h.alive r hold (hfinished r hold hunfinished) with ⟨m', hmem⟩ | ⟨q, rest, hframe, hmem⟩
      · by_cases hm : m' = m
        · subst hm
          exact hactive r hmem hunfinished
        · exact Or.inl ⟨m', by rwa [htouches.server m' hm]⟩
      · exact hwaiting q rest hframe r hmem hunfinished
    · exact hnew r (Nat.le_of_not_lt hold) hr
  failing q rest hframe r hr := by
    rcases hfailing q rest hframe with hold | hthis
    · obtain ⟨hlt, howner⟩ := h.failing q rest hold r hr
      exact ⟨Nat.lt_of_lt_of_le hlt htouches.requests, (htouches.owner r hlt).trans howner⟩
    · exact hthis r hr
  deeds d hd := by
    rcases hdeeds d hd with hold | hthis
    · obtain ⟨hlt, howner⟩ := h.deeds d hold
      exact ⟨Nat.lt_of_lt_of_le hlt htouches.requests, (htouches.owner _ hlt).trans howner⟩
    · exact hthis
  parsing q m' hparse := by
    rw [hselect]
    refine (h.parsing q m' (hparses q m' hparse)).imp_left fun hmem => ?_
    by_cases hthis : q = p ∧ m' = m
    · obtain ⟨rfl, rfl⟩ := hthis
      exact hreading hparse hmem
    · exact (htouches.lists q m' (not_and_or.mp hthis)).2.1.mpr hmem
  idle q hq m' := by
    have hne : q ≠ p := by
      rintro rfl
      exact hq hbase
    obtain ⟨hsending, hread, hpending⟩ := htouches.lists q m' (Or.inl hne)
    rw [hsending, hread, hpending]
    exact h.idle q (fun hold => hq (hbases q hold)) m'
  grounded := hgrounded

/-- The same, for a step that leaves the stack alone. -/
theorem Apart.touch (h : s.Apart) (hbefore : s.ServedBy m p) (htouches : s.Touches s' p m)
    (hsettles : s'.Settles p m) (hstack : s'.stack = s.stack) (hbase : HasBase s.stack p)
    (hselect : ∀ q, (s'.pool q).inSelect = (s.pool q).inSelect)
    (hreading : parsesNow p m s.stack = true → m ∈ (s.pool p).reading → m ∈ (s'.pool p).reading)
    (hdeeds : ∀ d ∈ s'.deeds, d ∈ s.deeds ∨ (d.2.2 < s'.requests ∧ s'.owner d.2.2 = d.2.1))
    (hfinished : ∀ r < s.requests, s'.finished r = false → s.finished r = false)
    (hactive : ∀ r ∈ (s.server m).active, s'.finished r = false → r ∈ (s'.server m).active)
    (hnew : ∀ r, s.requests ≤ r → r < s'.requests → r ∈ (s'.server m).active) : s'.Apart := by
  refine h.step hbefore htouches hsettles ?_ ?_ ?_ hselect ?_ ?_ ?_ hdeeds hfinished ?_ ?_ ?_
  · rwa [hstack]
  · rw [hstack]
    exact fun _ => id
  · rw [hstack]
    exact h.grounded
  · rw [hstack]
    exact fun _ _ => id
  · rwa [hstack]
  · rw [hstack]
    exact fun _ _ => Or.inl
  · exact fun r hr hunfinished => Or.inl ⟨m, hactive r hr hunfinished⟩
  · intro q rest hframe r hr _
    exact Or.inr ⟨q, rest, by rwa [hstack], hr⟩
  · exact fun r hge hlt => Or.inl ⟨m, hnew r hge hlt⟩

/-- A step that comes to no server. -/
theorem Apart.move (h : s.Apart) (hserver : s'.server = s.server)
    (hlists : ∀ q m', (m' ∈ (s'.pool q).sending ↔ m' ∈ (s.pool q).sending) ∧
      (m' ∈ (s'.pool q).reading ↔ m' ∈ (s.pool q).reading) ∧
      (m' ∈ (s'.pool q).pending ↔ m' ∈ (s.pool q).pending))
    (howner : ∀ r < s.requests, s'.owner r = s.owner r) (hrequests : s.requests ≤ s'.requests)
    (hfinished : ∀ r < s.requests, s'.finished r = false → s.finished r = false)
    (hdeeds : ∀ d ∈ s'.deeds, d ∈ s.deeds ∨ (d.2.2 < s'.requests ∧ s'.owner d.2.2 = d.2.1))
    (hfailing : ∀ q rest, .failing q rest ∈ s'.stack →
      .failing q rest ∈ s.stack ∨ ∀ r ∈ rest, r < s'.requests ∧ s'.owner r = q)
    (hwaiting : ∀ q rest, .failing q rest ∈ s.stack → ∀ r ∈ rest, s'.finished r = false → s'.Covered r)
    (hnew : ∀ r, s.requests ≤ r → r < s'.requests → s'.Covered r)
    (hparsing : ∀ q m', parsesNow q m' s'.stack = true →
      m' ∈ (s.pool q).reading ∨ (s'.pool q).inSelect = false)
    (hidle : ∀ q, ¬HasBase s'.stack q → ¬HasBase s.stack q ∨
      ∀ m', m' ∉ (s.pool q).sending ∧ m' ∉ (s.pool q).reading ∧ m' ∉ (s.pool q).pending)
    (hgrounded : Grounded s'.stack) : s'.Apart where
  served m' := by
    obtain ⟨q, hq⟩ := h.served m'
    refine ⟨q, ?_, ?_, ?_, ?_, ?_, ?_⟩
    · intro r hr
      rw [hserver] at hr
      obtain ⟨hlt, hown⟩ := hq.held r hr
      exact ⟨Nat.lt_of_lt_of_le hlt hrequests, (howner r hlt).trans hown⟩
    · rw [hserver]
      exact hq.slotted
    · rw [hserver, (hlists q m').1]
      exact hq.sending
    · rw [hserver, (hlists q m').2.1]
      exact hq.reading
    · rw [hserver, (hlists q m').2.2]
      exact hq.pending
    · intro q' hq'
      rw [(hlists q' m').1, (hlists q' m').2.1, (hlists q' m').2.2]
      exact hq.others q' hq'
  alive r hr hunfinished := by
    by_cases hold : r < s.requests
    · rcases h.alive r hold (hfinished r hold hunfinished) with ⟨m', hmem⟩ | ⟨q, rest, hframe, hmem⟩
      · exact Or.inl ⟨m', by rwa [hserver]⟩
      · exact hwaiting q rest hframe r hmem hunfinished
    · exact hnew r (Nat.le_of_not_lt hold) hr
  failing q rest hframe r hr := by
    rcases hfailing q rest hframe with hold | hthis
    · obtain ⟨hlt, hown⟩ := h.failing q rest hold r hr
      exact ⟨Nat.lt_of_lt_of_le hlt hrequests, (howner r hlt).trans hown⟩
    · exact hthis r hr
  deeds d hd := by
    rcases hdeeds d hd with hold | hthis
    · obtain ⟨hlt, hown⟩ := h.deeds d hold
      exact ⟨Nat.lt_of_lt_of_le hlt hrequests, (howner _ hlt).trans hown⟩
    · exact hthis
  parsing q m' hparse := (hparsing q m' hparse).imp_left (hlists q m').2.1.mpr
  idle q hq m' := by
    rw [(hlists q m').1, (hlists q m').2.1, (hlists q m').2.2]
    rcases hidle q hq with hold | hnone
    · exact h.idle q hold m'
    · exact hnone m'
  grounded := hgrounded

/-! ## Steps of pools that keep apart -/

/-- Only the stack changes. -/
theorem Apart.turn (h : s.Apart) {stack : List SharingFrame}
    (hfailing : ∀ q rest, .failing q rest ∈ stack → .failing q rest ∈ s.stack)
    (hwaiting : ∀ q rest, .failing q rest ∈ s.stack → rest = [] ∨ .failing q rest ∈ stack)
    (hparsing : ∀ q m, parsesNow q m stack = true → m ∈ (s.pool q).reading ∨ (s.pool q).inSelect = false)
    (hidle : ∀ q, ¬HasBase stack q → ¬HasBase s.stack q ∨
      ∀ m, m ∉ (s.pool q).sending ∧ m ∉ (s.pool q).reading ∧ m ∉ (s.pool q).pending)
    (hgrounded : Grounded stack) : Apart { s with stack } := by
  refine h.move rfl (fun _ _ => ⟨Iff.rfl, Iff.rfl, Iff.rfl⟩) (fun _ _ => rfl) (Nat.le_refl _)
    (fun _ _ => id) (fun _ => Or.inl) (fun q rest hframe => Or.inl (hfailing q rest hframe)) ?_ ?_
    hparsing hidle hgrounded
  · intro q rest hframe r hr _
    rcases hwaiting q rest hframe with rfl | hthere
    · cases hr
    · exact Or.inr ⟨q, rest, hthere, hr⟩
  · exact fun r hge hlt => absurd hge (Nat.not_le_of_lt hlt)

/-- The function on top of the stack goes on as another one of the same pool. -/
theorem Apart.retop (h : s.Apart) {frame frame' : SharingFrame} {rest : List SharingFrame}
    (hstack : s.stack = frame :: rest) (hframe : ∀ q waiting, frame ≠ .failing q waiting)
    (hframe' : ∀ q waiting, frame' ≠ .failing q waiting) (hisBase : frame'.isBase = frame.isBase)
    (hpool : frame'.pool = frame.pool)
    (hparsing : ∀ q m, parsesNow q m (frame' :: rest) = true →
      m ∈ (s.pool q).reading ∨ (s.pool q).inSelect = false) :
    Apart { s with stack := frame' :: rest } := by
  have hsame (q : Nat) : HasBase (frame' :: rest) q ↔ HasBase (frame :: rest) q := by
    rw [hasBase_cons, hasBase_cons, hisBase, hpool]
  have hgrounded := h.grounded
  rw [hstack] at hgrounded
  refine h.turn ?_ ?_ hparsing ?_ ⟨(hsame _).mpr (hpool ▸ hgrounded.1), hgrounded.2⟩
  · intro q waiting hmem
    rw [hstack]
    rcases List.mem_cons.mp hmem with heq | hrest
    · exact absurd heq.symm (hframe' q waiting)
    · exact List.mem_cons_of_mem frame hrest
  · intro q waiting hmem
    rw [hstack] at hmem
    rcases List.mem_cons.mp hmem with heq | hrest
    · exact absurd heq.symm (hframe q waiting)
    · exact Or.inr (List.mem_cons_of_mem frame' hrest)
  · intro q hq
    refine Or.inl fun hold => hq ((hsame q).mpr ?_)
    rwa [hstack] at hold

/-- The function on top of the stack returns: one that fails requests over has none left, an operation
    leaves its pool idle unless it was called in another one of it. -/
theorem Apart.pop (h : s.Apart) {frame : SharingFrame} {rest : List SharingFrame}
    (hstack : s.stack = frame :: rest)
    (hframe : ∀ q waiting, frame = .failing q waiting → waiting = [])
    (hparsing : ∀ q m, parsesNow q m rest = true →
      m ∈ (s.pool q).reading ∨ (s.pool q).inSelect = false)
    (hidle : frame.isBase = true → ¬ HasBase rest frame.pool → ∀ m,
      m ∉ (s.pool frame.pool).sending ∧ m ∉ (s.pool frame.pool).reading ∧
        m ∉ (s.pool frame.pool).pending)
    (hgrounded : Grounded rest) : Apart { s with stack := rest } := by
  refine h.turn ?_ ?_ hparsing ?_ hgrounded
  · intro q waiting hmem
    rw [hstack]
    exact List.mem_cons_of_mem frame hmem
  · intro q waiting hmem
    rw [hstack] at hmem
    rcases List.mem_cons.mp hmem with heq | hrest
    · exact Or.inl (hframe q waiting heq.symm)
    · exact Or.inr hrest
  · intro q hq
    by_cases hbase : frame.isBase = true ∧ frame.pool = q
    · obtain ⟨hisBase, rfl⟩ := hbase
      exact Or.inr (hidle hisBase hq)
    · refine Or.inl fun hold => ?_
      rw [hstack, hasBase_cons] at hold
      exact hold.elim hbase hq

theorem Settles.newRequest (h : s.Settles p m) : (s.newRequest p).Settles p m :=
  ⟨h.toServices.newRequest, h.pending⟩

theorem newRequest_finished (s : SharingState) (p : Nat) {r : ReqId} (hr : r < s.requests) :
    (s.newRequest p).finished r = s.finished r := Function.update_of_ne (Nat.ne_of_lt hr) _ _

theorem schedule_server (s : SharingState) (p : Nat) (m : Mmc) (r : ReqId) :
    (s.schedule p m r).server m = (s.server m).schedule r := by
  simp [SharingState.schedule]

theorem schedule_inSelect (s : SharingState) (p : Nat) (m : Mmc) (r : ReqId) (q : Nat) :
    ((s.schedule p m r).pool q).inSelect = (s.pool q).inSelect := by
  by_cases hq : q = p
  · subst hq
    simp [SharingState.schedule]
  · simp [SharingState.schedule, setPool, Function.update_of_ne hq]

/-- What is to be read from stays so. -/
theorem schedule_reading (s : SharingState) (p : Nat) (m : Mmc) (r : ReqId)
    (hm : m ∈ (s.pool p).reading) : m ∈ ((s.schedule p m r).pool p).reading := by
  simp only [SharingState.schedule, setPool_pool_self]
  split
  · exact Finset.mem_insert_of_mem hm
  · exact hm

theorem Apart.schedule (h : s.Apart) (hbefore : s.ServedBy m p) (hbase : HasBase s.stack p) :
    Apart ((s.newRequest p).schedule p m s.requests) := by
  refine h.touch hbefore ((touches_newRequest s p m).trans (touches_schedule _ p m _))
    (hbefore.settles.newRequest.schedule (Nat.lt_succ_self _) (Function.update_self _ _ _)) rfl hbase
    (schedule_inSelect _ p m _) (fun _ => schedule_reading (s.newRequest p) p m s.requests)
    (fun _ => Or.inl) ?_ ?_ ?_
  · exact fun r hr hunfinished => (newRequest_finished s p hr).symm.trans hunfinished
  · intro r hr _
    rw [schedule_server]
    exact SharedServer.active_schedule.mpr (Or.inl hr)
  · intro r hge hlt
    rw [schedule_server]
    exact SharedServer.active_schedule.mpr (Or.inr (Nat.le_antisymm (Nat.lt_succ_iff.mp hlt) hge))

theorem build_server (s : SharingState) (p : Nat) (m : Mmc) :
    (s.build p m).server m = { s.server m with buildreq := some s.requests } := by
  simp [SharingState.build, SharingState.newRequest]

/-- What is put into the build slot is the only new request. -/
theorem build_new (s : SharingState) (p : Nat) (m : Mmc) {r : ReqId} (hge : s.requests ≤ r)
    (hlt : r < (s.build p m).requests) : r ∈ ((s.build p m).server m).active := by
  obtain rfl : s.requests = r := Nat.le_antisymm hge (Nat.lt_succ_iff.mp hlt)
  rw [build_server, SharedServer.mem_active]
  exact Or.inr (Or.inr rfl)

theorem Apart.scheduleGet (h : s.Apart) (hbefore : s.ServedBy m p) (hbase : HasBase s.stack p)
    (full : Bool) : Apart (s.scheduleGet p m full) := by
  have htouches := touches_scheduleGet s p m full
  have hsettles := hbefore.settles.scheduleGet full
  unfold SharingState.scheduleGet at htouches hsettles ⊢
  cases hbuild : (s.server m).buildreq with
  | none =>
    rw [hbuild] at htouches hsettles
    dsimp only at htouches hsettles ⊢
    refine h.touch hbefore htouches hsettles rfl hbase ?_ ?_ (fun _ => Or.inl) ?_ ?_ ?_
    · intro q
      by_cases hq : q = p
      · subst hq
        simp [SharingState.build, SharingState.newRequest]
      · simp [SharingState.build, SharingState.newRequest, setPool, Function.update_of_ne hq]
    · intro _ hm
      simpa [SharingState.build, SharingState.newRequest] using hm
    · exact fun r hr hunfinished => (newRequest_finished s p hr).symm.trans hunfinished
    · intro r hr _
      rw [build_server, SharedServer.mem_active]
      rw [SharedServer.mem_active, hbuild] at hr
      rcases hr with hread | hqueue | hnone
      · exact Or.inl hread
      · exact Or.inr (Or.inl hqueue)
      · cases hnone
    · exact fun r hge hlt => build_new _ p m hge hlt
  | some r =>
    rw [hbuild] at htouches hsettles
    dsimp only at htouches hsettles ⊢
    split at htouches
    · next hfull =>
      rw [if_pos hfull] at hsettles ⊢
      refine h.touch hbefore htouches hsettles rfl hbase (schedule_inSelect s p m r)
        (fun _ => schedule_reading s p m r) (fun _ => Or.inl) ?_ ?_ ?_
      · exact fun r' hr' hunfinished =>
          (newRequest_finished (s.schedule p m r) p hr').symm.trans hunfinished
      · intro r' hr' _
        rw [build_server, schedule_server]
        exact SharedServer.active_schedule_build hbuild _ hr'
      · exact fun r' hge hlt => build_new _ p m hge hlt
    · next hroom =>
      rw [if_neg hroom] at hsettles ⊢
      refine h.touch hbefore htouches hsettles rfl hbase (fun _ => rfl) (fun _ => id) ?_
        (fun _ _ => id) (fun _ hr _ => hr) fun r' hge hlt => absurd hge (Nat.not_le_of_lt hlt)
      intro d hd
      rcases List.mem_cons.mp hd with rfl | hold
      · exact Or.inr (hbefore.held r (SharedServer.mem_held.mpr (Or.inl
          (SharedServer.mem_active.mpr (Or.inr (Or.inr hbuild))))))
      · exact Or.inl hold

theorem Apart.schedulePending (h : s.Apart) (hbefore : s.ServedBy m p) (hbase : HasBase s.stack p)
    {r : ReqId} (hbuild : (s.server m).buildreq = some r) : Apart (s.schedulePending p m r) := by
  refine h.touch hbefore (touches_schedulePending s p m r) (hbefore.settles.schedulePending hbuild) rfl
    hbase ?_ ?_ (fun _ => Or.inl) (fun _ _ => id) ?_ fun r' hge hlt => absurd hge (Nat.not_le_of_lt hlt)
  · intro q
    refine (schedule_inSelect _ p m r q).trans ?_
    by_cases hq : q = p
    · subst hq
      simp
    · simp [setPool, Function.update_of_ne hq]
  · intro _ hm
    refine schedule_reading _ p m r ?_
    simpa using hm
  · intro r' hr' _
    simp only [SharingState.schedulePending, setServer_server_self, schedule_server]
    exact SharedServer.active_schedule_build hbuild none hr'

theorem Apart.sent (h : s.Apart) (hbase : HasBase s.stack p) (hm : m ∈ (s.pool p).sending) :
    Apart (s.sent p m) := by
  obtain ⟨q, hq⟩ := h.served m
  have hbefore := hq.of_sending hm
  refine h.touch hbefore (touches_sent s p m) (hbefore.settles.sent (hbefore.sending.mp hm)) rfl hbase
    ?_ ?_ (fun _ => Or.inl) (fun _ _ => id) ?_ fun r hge hlt => absurd hge (Nat.not_le_of_lt hlt)
  · intro q'
    by_cases hq' : q' = p
    · subst hq'
      simp [SharingState.sent]
    · simp [SharingState.sent, setPool, Function.update_of_ne hq']
  · intro _ hread
    simpa [SharingState.sent] using hread
  · intro r hr _
    simp only [SharingState.sent, setPool_server, setServer_server_self]
    exact SharedServer.active_shiftSend.mpr hr

/-- The request that is answered is the pool's own. -/
theorem Apart.complete (h : s.Apart) (hbase : HasBase s.stack p) (hm : m ∈ (s.pool p).reading)
    (hdone : parsesNow p m s.stack = false) {r : ReqId} (hread : (s.server m).readreq = some r) :
    Apart (s.complete p m r) := by
  obtain ⟨q, hq⟩ := h.served m
  have hbefore := hq.of_reading hm
  have hown := hbefore.held r (SharedServer.mem_held.mpr (Or.inl
    (SharedServer.mem_active.mpr (Or.inl hread))))
  refine h.touch hbefore (touches_complete s p m r) (hbefore.settles.complete hread) rfl hbase
    ?_ ?_ ?_ ?_ ?_ fun r hge hlt => absurd hge (Nat.not_le_of_lt hlt)
  · intro q'
    by_cases hq' : q' = p
    · subst hq'
      simp [SharingState.complete, SharingState.finish]
    · simp [SharingState.complete, SharingState.finish, setPool, Function.update_of_ne hq']
  · intro hparse
    rw [hdone] at hparse
    cases hparse
  · intro d hd
    rcases List.mem_cons.mp hd with rfl | hold
    · exact Or.inr hown
    · exact Or.inl hold
  · intro r' _ hunfinished
    by_cases hr' : r' = r
    · subst hr'
      simp [SharingState.complete, SharingState.finish] at hunfinished
    · simpa [SharingState.complete, SharingState.finish, Function.update_of_ne hr', setPool, setServer]
        using hunfinished
  · intro r' hr' hunfinished
    have hserver : (s.complete p m r).server m = (s.server m).complete r := by
      simp [SharingState.complete, SharingState.finish]
    rw [hserver]
    rcases SharedServer.active_complete hread hr' with rfl | hstays
    · simp [SharingState.complete, SharingState.finish] at hunfinished
    · exact hstays

/-- Requests are handed to their failover handlers. -/
theorem Apart.fail (h : s.Apart) (hbefore : s.ServedBy m p) (htouches : s.Touches s' p m)
    (hsettles : s'.Settles p m) (hbase : HasBase s.stack p) {rest : List ReqId}
    (hstack : s'.stack = .failing p rest :: s.stack) (hrequests : s'.requests = s.requests)
    (howner : s'.owner = s.owner) (hfinished : s'.finished = s.finished) (hdeeds : s'.deeds = s.deeds)
    (hselect : ∀ q, (s'.pool q).inSelect = (s.pool q).inSelect)
    (hdone : parsesNow p m s.stack = false) (hrest : ∀ r ∈ rest, r ∈ (s.server m).held)
    (hactive : ∀ r ∈ (s.server m).active, r ∈ rest ∨ r ∈ (s'.server m).active) : s'.Apart := by
  refine h.step hbefore htouches hsettles ?_ ?_ ?_ hselect ?_ ?_ ?_ ?_ ?_ ?_ ?_ ?_
  · rw [hstack]
    exact hbase.cons _
  · rw [hstack]
    exact fun q hq => hq.cons _
  · rw [hstack]
    exact ⟨hbase.cons _, h.grounded⟩
  · rw [hstack]
    exact fun _ _ => id
  · rw [hstack]
    intro hparse
    rw [show parsesNow p m (.failing p rest :: s.stack) = parsesNow p m s.stack from rfl, hdone] at hparse
    cases hparse
  · rw [hstack, hrequests, howner]
    intro q rest' hframe
    rcases List.mem_cons.mp hframe with heq | hold
    · cases heq
      exact Or.inr fun r hr => hbefore.held r (hrest r hr)
    · exact Or.inl hold
  · rw [hdeeds]
    exact fun _ => Or.inl
  · rw [hfinished]
    exact fun _ _ => id
  · intro r hr _
    rcases hactive r hr with hthis | hstays
    · exact Or.inr ⟨p, rest, by simp [hstack], hthis⟩
    · exact Or.inl ⟨m, hstays⟩
  · intro q rest' hframe r hr _
    exact Or.inr ⟨q, rest', by simp [hstack, hframe], hr⟩
  · rw [hrequests]
    exact fun r hge hlt => absurd hge (Nat.not_le_of_lt hlt)

theorem Apart.retry (h : s.Apart) (hbefore : s.ServedBy m p) (hbase : HasBase s.stack p)
    (hdone : parsesNow p m s.stack = false) {sending : Bool} {r : ReqId}
    (hslot : (if sending then (s.server m).sendreq else (s.server m).readreq) = some r)
    (hlast : if sending then ((s.server m).drop r).sendreq = none
      else ((s.server m).drop r).readreq = none) :
    Apart (s.retry p sending m r) := by
  refine h.fail hbefore (touches_retry s p sending m r) (hbefore.settles.retry hlast) hbase rfl rfl rfl
    rfl rfl ?_ hdone ?_ ?_
  · intro q
    by_cases hq : q = p
    · subst hq
      simp [SharingState.retry, SharingState.push]
    · simp [SharingState.retry, SharingState.push, setPool, Function.update_of_ne hq]
  · intro r' hr'
    cases List.mem_singleton.mp hr'
    rw [SharedServer.mem_held, SharedServer.mem_active]
    cases sending with
    | true => exact Or.inr (Or.inl hslot)
    | false => exact Or.inl (Or.inl hslot)
  · intro r' hr'
    have hserver : (s.retry p sending m r).server m = (s.server m).drop r := by
      simp [SharingState.retry, SharingState.push]
    rw [hserver, List.mem_singleton]
    exact SharedServer.active_drop hr'

theorem Apart.deactivate (h : s.Apart) (hbefore : s.ServedBy m p) (hbase : HasBase s.stack p)
    (hdone : parsesNow p m s.stack = false) (hbuild : (s.server m).buildreq = none) :
    Apart (s.deactivate p m) := by
  refine h.fail hbefore (touches_deactivate s p m) (hbefore.settles.deactivate hbuild) hbase rfl rfl rfl
    rfl rfl ?_ hdone ?_ ?_
  · intro q
    by_cases hq : q = p
    · subst hq
      simp [SharingState.deactivate, SharingState.push]
    · simp [SharingState.deactivate, SharingState.push, setPool, Function.update_of_ne hq]
  · intro r hr
    rw [SharedServer.mem_held, SharedServer.mem_active]
    simp only [List.mem_append, Option.mem_toList] at hr
    exact Or.inl (by grind)
  · intro r hr
    rw [SharedServer.mem_active] at hr
    simp only [List.mem_append, Option.mem_toList]
    exact Or.inl (by grind)

/-- A failed request goes to another server. -/
theorem Apart.reschedule (h : s.Apart) {r : ReqId} {rs : List ReqId} {below : List SharingFrame}
    (hstack : s.stack = .failing p (r :: rs) :: below) (hbefore : s.ServedBy m p) :
    Apart (SharingState.schedule { s with stack := .failing p rs :: below } p m r) := by
  have hbase : HasBase below p := by
    have hgrounded := h.grounded
    rw [hstack] at hgrounded
    have hbase := hasBase_cons.mp hgrounded.1
    exact hbase.resolve_left fun hframe => absurd hframe.1 Bool.false_ne_true
  have hown := h.failing p (r :: rs) (by simp [hstack]) r List.mem_cons_self
  have hgrounded : Grounded below := by
    have hgrounded := h.grounded
    rw [hstack] at hgrounded
    exact hgrounded.2
  refine h.step hbefore ((touches_stack s p m (.failing p rs :: below)).trans (touches_schedule _ p m r))
    ?_ (hbase.cons _) ?_ ⟨hbase.cons _, hgrounded⟩
    (schedule_inSelect { s with stack := .failing p rs :: below } p m r) ?_
    (fun _ => schedule_reading { s with stack := .failing p rs :: below } p m r) ?_ (fun _ => Or.inl)
    (fun _ _ => id) ?_ ?_ fun r' hge hlt => absurd hge (Nat.not_le_of_lt hlt)
  · have hsettles := hbefore.settles.schedule hown.1 hown.2
    exact ⟨⟨hsettles.held, hsettles.slotted, hsettles.sending, hsettles.reading⟩, hsettles.pending⟩
  · intro q hq
    rw [hstack, hasBase_cons] at hq
    exact hasBase_cons.mpr hq
  · intro q m' hparse
    rwa [hstack]
  · intro q rest hframe
    rcases List.mem_cons.mp hframe with heq | hold
    · cases heq
      exact Or.inr fun r' hr' => h.failing p (r :: rs) (by simp [hstack]) r' (List.mem_cons_of_mem r hr')
    · exact Or.inl (by simp [hstack, hold])
  · intro r' hr' _
    refine Or.inl ⟨m, ?_⟩
    rw [schedule_server]
    exact SharedServer.active_schedule.mpr (Or.inl hr')
  · intro q rest hframe r' hr' _
    rw [hstack] at hframe
    rcases List.mem_cons.mp hframe with heq | hold
    · cases heq
      rcases List.mem_cons.mp hr' with rfl | hrest
      · refine Or.inl ⟨m, ?_⟩
        rw [schedule_server]
        exact SharedServer.active_schedule.mpr (Or.inr rfl)
      · exact Or.inr ⟨p, rs, List.mem_cons_self, hrest⟩
    · exact Or.inr ⟨q, rest, List.mem_cons_of_mem _ hold, hr'⟩

/-- A failed request is given up. -/
theorem Apart.giveUp (h : s.Apart) {r : ReqId} {rs : List ReqId} {below : List SharingFrame}
    (hstack : s.stack = .failing p (r :: rs) :: below) :
    Apart (SharingState.finish { s with stack := .failing p rs :: below } .released p r) := by
  have hown := h.failing p (r :: rs) (by simp [hstack])
  have hgrounded := h.grounded
  rw [hstack] at hgrounded
  have hunfinished : ∀ r', (SharingState.finish { s with stack := .failing p rs :: below }
      .released p r).finished r' = false → r' ≠ r ∧ s.finished r' = false := by
    intro r' hr'
    by_cases heq : r' = r
    · subst heq
      simp [SharingState.finish] at hr'
    · exact ⟨heq, by simpa [SharingState.finish, Function.update_of_ne heq] using hr'⟩
  refine h.move rfl (fun _ _ => ⟨Iff.rfl, Iff.rfl, Iff.rfl⟩) (fun _ _ => rfl) (Nat.le_refl _)
    (fun r' _ hr' => (hunfinished r' hr').2) ?_ ?_ ?_
    (fun r' hge hlt => absurd hge (Nat.not_le_of_lt hlt)) ?_ ?_ ⟨?_, hgrounded.2⟩
  · intro d hd
    rcases List.mem_cons.mp hd with rfl | hold
    · exact Or.inr (hown r List.mem_cons_self)
    · exact Or.inl hold
  · intro q rest hframe
    rcases List.mem_cons.mp hframe with heq | hold
    · cases heq
      exact Or.inr fun r' hr' => hown r' (List.mem_cons_of_mem r hr')
    · exact Or.inl (by simp [hstack, hold])
  · intro q rest hframe r' hr' hopen
    rw [hstack] at hframe
    rcases List.mem_cons.mp hframe with heq | hold
    · cases heq
      rcases List.mem_cons.mp hr' with rfl | hrest
      · exact absurd rfl (hunfinished r' hopen).1
      · exact Or.inr ⟨p, rs, List.mem_cons_self, hrest⟩
    · exact Or.inr ⟨q, rest, List.mem_cons_of_mem _ hold, hr'⟩
  · intro q m' hparse
    refine h.parsing q m' ?_
    rwa [hstack]
  · intro q hq
    refine Or.inl fun hold => hq ?_
    rw [hstack, hasBase_cons] at hold
    exact hasBase_cons.mpr hold
  · have hbase := hasBase_cons.mp hgrounded.1
    exact hasBase_cons.mpr hbase

/-- A new request goes to its failover handler at once. -/
theorem Apart.refuse (h : s.Apart) (hbase : HasBase s.stack p) :
    Apart ((s.newRequest p).push (.failing p [s.requests])) := by
  have howner := (touches_newRequest s p 0).owner
  refine h.move rfl (fun _ _ => ⟨Iff.rfl, Iff.rfl, Iff.rfl⟩) howner (Nat.le_succ _)
    (fun r hr hopen => (newRequest_finished s p hr).symm.trans hopen) (fun _ => Or.inl) ?_ ?_ ?_
    h.parsing (fun q hq => Or.inl fun hold => hq (hold.cons _)) ⟨hbase.cons _, h.grounded⟩
  · intro q rest hframe
    rcases List.mem_cons.mp hframe with heq | hold
    · cases heq
      refine Or.inr fun r hr => ?_
      cases List.mem_singleton.mp hr
      exact ⟨Nat.lt_succ_self _, Function.update_self _ _ _⟩
    · exact Or.inl hold
  · exact fun q rest hframe r hr _ => Or.inr ⟨q, rest, List.mem_cons_of_mem _ hframe, hr⟩
  · intro r hge hlt
    obtain rfl : s.requests = r := Nat.le_antisymm hge (Nat.lt_succ_iff.mp hlt)
    exact Or.inr ⟨p, [s.requests], List.mem_cons_self, List.mem_cons_self⟩

/-- Whether a round is under way, and the stack. -/
theorem Apart.setSelect (h : s.Apart) (p : Nat) (inSelect : Bool) (stack : List SharingFrame)
    (hfailing : ∀ q rest, .failing q rest ∈ stack ↔ .failing q rest ∈ s.stack)
    (hparsing : ∀ q m, parsesNow q m stack = true → (q ≠ p ∧ parsesNow q m s.stack = true) ∨
      (q = p ∧ inSelect = false))
    (hbases : ∀ q, HasBase s.stack q → HasBase stack q) (hgrounded : Grounded stack) :
    Apart { s.setPool p { s.pool p with inSelect } with stack } := by
  have hpool : ∀ q, ({ s.setPool p { s.pool p with inSelect } with stack } : SharingState).pool q
      = if q = p then { s.pool p with inSelect } else s.pool q := by
    intro q
    by_cases hq : q = p
    · subst hq
      simp
    · simp [setPool, hq]
  refine h.move rfl ?_ (fun _ _ => rfl) (Nat.le_refl _) (fun _ _ => id) (fun _ => Or.inl)
    (fun q rest hframe => Or.inl ((hfailing q rest).mp hframe)) ?_
    (fun r hge hlt => absurd hge (Nat.not_le_of_lt hlt)) ?_
    (fun q hq => Or.inl fun hold => hq (hbases q hold)) hgrounded
  · intro q m'
    rw [hpool]
    split
    · next hq =>
      subst hq
      exact ⟨Iff.rfl, Iff.rfl, Iff.rfl⟩
    · exact ⟨Iff.rfl, Iff.rfl, Iff.rfl⟩
  · exact fun q rest hframe r hr _ => Or.inr ⟨q, rest, (hfailing q rest).mpr hframe, hr⟩
  · intro q m' hparse
    rw [hpool]
    rcases hparsing q m' hparse with ⟨hq, hold⟩ | ⟨hq, hclosed⟩
    · rw [if_neg hq]
      exact h.parsing q m' hold
    · rw [if_pos hq]
      exact Or.inr hclosed

/-- Closing a pool whose servers hold nothing changes its list of servers only. -/
theorem close_eq (s : SharingState) (p : Nat) (hidle : ∀ m ∈ (s.pool p).servers, (s.server m).held = []) :
    s.close p = s.setPool p { s.pool p with servers := [] } := by
  have hserver : (fun m => if m ∈ (s.pool p).servers then ({} : SharedServer) else s.server m)
      = s.server := by
    funext m
    split
    · next hm => exact (SharedServer.eq_empty_of_held (hidle m hm)).symm
    · rfl
  have hfinished : (fun r => s.finished r ||
      decide (∃ m ∈ (s.pool p).servers, r ∈ (s.server m).active)) = s.finished := by
    funext r
    have hnone : ¬∃ m ∈ (s.pool p).servers, r ∈ (s.server m).active := by
      rintro ⟨m, hm, hr⟩
      have hheld := SharedServer.mem_held.mpr (Or.inl hr)
      rw [hidle m hm] at hheld
      cases hheld
    rw [decide_eq_false hnone, Bool.or_false]
  have hdeeds : ((s.pool p).servers.flatMap fun m =>
      (s.server m).held.map fun r => (Deed.slept, p, r)) = [] := by
    rw [List.flatMap_eq_nil_iff]
    intro m hm
    rw [hidle m hm, List.map_nil]
  unfold SharingState.close
  dsimp only
  rw [hserver, hfinished, hdeeds]
  rfl

/-- The servers of a pool. -/
theorem Apart.setServers (h : s.Apart) (p : Nat) (servers : List Mmc) :
    Apart (s.setPool p { s.pool p with servers }) := by
  have hpool : ∀ q, ((s.setPool p { s.pool p with servers }).pool q).sending = (s.pool q).sending ∧
      ((s.setPool p { s.pool p with servers }).pool q).reading = (s.pool q).reading ∧
      ((s.setPool p { s.pool p with servers }).pool q).pending = (s.pool q).pending ∧
      ((s.setPool p { s.pool p with servers }).pool q).inSelect = (s.pool q).inSelect := by
    intro q
    by_cases hq : q = p
    · subst hq
      simp
    · simp [setPool, hq]
  refine h.move rfl ?_ (fun _ _ => rfl) (Nat.le_refl _) (fun _ _ => id) (fun _ => Or.inl)
    (fun _ _ => Or.inl) (fun q rest hframe r hr _ => Or.inr ⟨q, rest, hframe, hr⟩)
    (fun r hge hlt => absurd hge (Nat.not_le_of_lt hlt)) ?_ (fun _ => Or.inl) h.grounded
  · intro q m'
    rw [(hpool q).1, (hpool q).2.1, (hpool q).2.2.1]
    exact ⟨Iff.rfl, Iff.rfl, Iff.rfl⟩
  · intro q m' hparse
    rw [(hpool q).2.2.2]
    exact h.parsing q m' hparse

/-- A step of the innermost function that meets the condition. -/
theorem Apart.performAt (h : s.Apart) {a : SharingAction} {frame : SharingFrame}
    {rest : List SharingFrame} (hstack : s.stack = frame :: rest) (halone : s.Alone a)
    (hstep : s.performAt a frame rest = some s') : s'.Apart := by
  have hgrounded := h.grounded
  rw [hstack] at hgrounded
  have hbase : HasBase s.stack frame.pool := by
    rw [hstack]
    exact hgrounded.1
  have hserved : ∀ m, s.HoldsOnly m frame.pool → s.ServedBy m frame.pool := by
    intro m honly
    obtain ⟨q, hq⟩ := h.served m
    exact hq.of_holdsOnly honly
  unfold SharingState.performAt at hstep
  unfold Alone at halone
  rw [hstack] at halone
  split at hstep
  · next m p =>
    split at hstep
    · cases hstep
      exact h.schedule (hserved m halone) hbase
    · cases hstep
  · cases hstep
    exact h.refuse hbase
  · next m full p =>
    split at hstep
    · cases hstep
      exact h.scheduleGet (hserved m halone) hbase full
    · cases hstep
  · next m full p r rs =>
    split at hstep
    · cases hstep
      exact h.scheduleGet (hserved m halone) hbase full
    · cases hstep
  · next p =>
    -- the operation runs the pool
    cases hstep
    refine h.retop hstack (by simp) (by simp) rfl rfl fun q m hparse => h.parsing q m ?_
    rwa [hstack]
  · next m p =>
    split at hstep
    · next hm =>
      split at hstep
      · cases hstep
      · next r hbuild =>
        cases hstep
        obtain ⟨q, hq⟩ := h.served m
        exact h.schedulePending (hq.of_pending hm) hbase hbuild
    · cases hstep
  · next p =>
    cases hstep
    refine h.setSelect p true (.selecting p :: s.stack) ?_ ?_ (fun q hq => hq.cons _)
      ⟨hbase.cons _, h.grounded⟩
    · intro q waiting
      simp
    · intro q m hparse
      rw [parsesNow] at hparse
      split at hparse
      · cases hparse
      · next hq => exact Or.inl ⟨fun heq => hq heq.symm, hparse⟩
  · next m p =>
    split at hstep
    · next hm =>
      cases hstep
      exact h.sent hbase hm
    · cases hstep
  · next m p =>
    split at hstep
    · next hm =>
      obtain ⟨q, hq⟩ := h.served m
      have hreading := (hq.of_reading hm).reading.mp hm
      split at hstep
      · next hnone => exact absurd hnone hreading
      · cases hstep
        refine h.retop hstack (by simp) (by simp) rfl rfl fun q m' hparse => ?_
        rw [parsesNow] at hparse
        split at hparse
        · next hq =>
          subst hq
          left
          rwa [← of_decide_eq_true hparse]
        · next hne =>
          refine h.parsing q m' ?_
          rw [hstack, parsesNow, if_neg hne]
          exact hparse
    · cases hstep
  · next done p m =>
    have hbelow := hasBase_cons.mp hgrounded.1
    split at hstep
    · next hin =>
      have hm : m ∈ (s.pool p).reading := by
        refine (h.parsing p m ?_).resolve_right (by simp [hin])
        rw [hstack, parsesNow, if_pos rfl, decide_eq_true rfl]
      have hnext : Apart { s with stack := .selecting p :: rest } := by
        refine h.retop hstack (by simp) (by simp) rfl rfl fun q m' hparse => ?_
        rw [parsesNow] at hparse
        split at hparse
        · cases hparse
        · next hne =>
          refine h.parsing q m' ?_
          rw [hstack, parsesNow, if_neg hne]
          exact hparse
      dsimp only at hstep
      split at hstep
      · split at hstep
        · cases hstep
        · next r hread =>
          cases hstep
          exact hnext.complete (hasBase_cons.mpr hbelow) hm (if_pos rfl) hread
      · cases hstep
        exact hnext
    · next hout =>
      cases hstep
      refine h.pop hstack (by simp) (fun q m' hparse => ?_)
        (fun hbase => absurd hbase Bool.false_ne_true) hgrounded.2
      by_cases hq : p = q
      · subst hq
        exact Or.inr (by simpa using hout)
      · refine h.parsing q m' ?_
        rw [hstack, parsesNow, if_neg hq]
        exact hparse
  · next sending m p =>
    obtain ⟨q, hq⟩ := h.served m
    have hdone : parsesNow p m s.stack = false := by
      rw [hstack]
      exact if_pos rfl
    cases sending with
    | true =>
      simp only [if_true] at hstep
      split at hstep
      · next hm =>
        split at hstep
        · cases hstep
        · next r hslot =>
          cases hstep
          exact h.retry (hq.of_sending hm) hbase hdone hslot (halone r hslot)
      · cases hstep
    | false =>
      simp only [Bool.false_eq_true, if_false] at hstep
      split at hstep
      · next hm =>
        split at hstep
        · cases hstep
        · next r hslot =>
          cases hstep
          exact h.retry (hq.of_reading hm) hbase hdone hslot (halone r hslot)
      · cases hstep
  · next m =>
    split at hstep
    · cases hstep
    · cases hstep
      obtain ⟨honly, hbuild, hdone⟩ := halone
      refine h.deactivate (hserved m honly) hbase ?_ hbuild
      rw [hstack]
      exact hdone
  · next p r rs =>
    cases hstep
    exact h.giveUp hstack
  · next m p r rs =>
    split at hstep
    · cases hstep
      exact h.reschedule hstack (hserved m halone)
    · cases hstep
  · next p =>
    cases hstep
    refine h.pop hstack (fun q waiting heq => ?_) (fun q m hparse => ?_)
      (fun hbase => absurd hbase Bool.false_ne_true) hgrounded.2
    · cases heq
      rfl
    · refine h.parsing q m ?_
      rwa [hstack]
  · next p =>
    cases hstep
    have hbelow := (hasBase_cons.mp hgrounded.1).resolve_left
      fun hframe => absurd hframe.1 Bool.false_ne_true
    refine h.setSelect p false rest ?_ ?_ ?_ hgrounded.2
    · intro q waiting
      simp [hstack]
    · intro q m hparse
      by_cases hq : q = p
      · exact Or.inr ⟨hq, rfl⟩
      · refine Or.inl ⟨hq, ?_⟩
        rw [hstack, parsesNow, if_neg (Ne.symm hq)]
        exact hparse
    · intro q hq
      rw [hstack, hasBase_cons] at hq
      exact hq.resolve_left fun hframe => absurd hframe.1 Bool.false_ne_true
  · next p =>
    split at hstep
    · next hdone =>
      cases hstep
      refine h.pop hstack (by simp) (fun q m hparse => ?_) (fun _ hq m => ?_) hgrounded.2
      · refine h.parsing q m ?_
        rwa [hstack]
      · rcases hdone with ⟨frame, hframe, hpool⟩ | ⟨hsending, hreading, hpending⟩
        · have hbelow := hgrounded.2.hasBase hframe
          rw [hpool] at hbelow
          exact absurd hbelow hq
        · simp only [SharingFrame.pool, hsending, hreading, hpending]
          simp
    · cases hstep
  · cases hstep

theorem Apart.perform (h : s.Apart) {a : SharingAction} (halone : s.Alone a)
    (hstep : s.perform a = some s') : s'.Apart := by
  unfold SharingState.perform at hstep
  split at hstep
  · next p =>
    cases hstep
    refine h.turn ?_ ?_ h.parsing (fun q hq => Or.inl fun hold => hq (hold.cons _))
      ⟨hasBase_cons.mpr (Or.inl ⟨rfl, rfl⟩), h.grounded⟩
    · intro q waiting hframe
      simpa using hframe
    · intro q waiting hframe
      exact Or.inr (List.mem_cons_of_mem _ hframe)
  · cases hstep
    exact h.setServers _ _
  · next p =>
    cases hstep
    have hidle : ∀ m ∈ (s.pool p).servers, (s.server m).held = [] := by
      unfold Alone at halone
      cases hstack : s.stack with
      | nil =>
        rw [hstack] at halone
        exact halone
      | cons frame rest =>
        rw [hstack] at halone
        exact halone
    rw [close_eq s p hidle]
    exact h.setServers p []
  · cases hstep
  · next hstack => exact h.performAt hstack halone hstep

/-- The pools with their servers, before anything happens. -/
def idlePools (servers : Nat → List Mmc) : SharingState :=
  { pool := fun p => { servers := servers p } }

theorem apart_idlePools (servers : Nat → List Mmc) : (idlePools servers).Apart where
  served m := ⟨0, fun _ hr => absurd hr List.not_mem_nil, ⟨fun _ => rfl, fun _ => rfl⟩,
    iff_of_false (Finset.notMem_empty m) fun hne => hne rfl,
    iff_of_false (Finset.notMem_empty m) fun hne => hne rfl,
    iff_of_false (Finset.notMem_empty m) fun hne => hne rfl,
    fun _ _ => ⟨Finset.notMem_empty m, Finset.notMem_empty m, Finset.notMem_empty m⟩⟩
  alive _ hr := absurd hr (Nat.not_lt_zero _)
  failing _ _ hframe := absurd hframe List.not_mem_nil
  deeds _ hd := absurd hd List.not_mem_nil
  parsing _ _ hparse := absurd hparse Bool.false_ne_true
  idle _ _ m := ⟨Finset.notMem_empty m, Finset.notMem_empty m, Finset.notMem_empty m⟩
  grounded := trivial

/-- Two pools with one server: while the first waits, the second is used for something else; when the
    first is done, the second uses the server. -/
def takingTurns : List SharingAction :=
  [.enter 0, .schedule 0, .run, .select, .sent 0, .parse 0, .enter 1, .run, .leave, .parsed true,
    .endSelect, .leave, .enter 1, .schedule 0, .run, .select, .sent 0, .parse 0, .parsed true, .endSelect,
    .leave]

/-- A value of the first pool is being unserialised, and `__wakeup` gets a value from the second, which
    has the same server. The read slot is taken, so the second pool does not read, and its operation
    returns. -/
def nestedInOtherPool : List SharingAction :=
  [.enter 0, .schedule 0, .run, .select, .sent 0, .parse 0, .enter 1, .schedule 0, .run, .select, .sent 0,
    .endSelect, .leave]

end SharingState

end PeclMemcache
