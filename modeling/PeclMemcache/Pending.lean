import PeclMemcache.Operations

set_option autoImplicit false

/-! # The pending queue and the build slots

A server waits in `pool->pending` while a multi-key get is being built in its `buildreq`. Four places
write the slot and two the queue, and `mmc_server_deactivate` clears the slot of a server that stays
queued. Here is what the two have in common between operations as long as that does not happen to a
server whose get is not just being taken out, and how they come apart when it does. -/

namespace PeclMemcache

open Stateful

/-! ## What the log says -/

/-- The server whose get `mmc_pool_schedule_pending` is scheduling, with the request it popped. -/
def scheduling : List Step → Option (Mmc × Option ReqId)
  | .schedulePending m build :: _ => some (m, build)
  | .clearBuild _ _ _ :: _ => none
  | _ :: rest => scheduling rest
  | [] => none

/-- The number of flushes of a server's datagrams in progress. -/
def flushing (m : Mmc) : List Step → Int
  | .flush m' :: rest => flushing m rest + if m' = m then 1 else 0
  | .flushed m' :: rest => flushing m rest - if m' = m then 1 else 0
  | _ :: rest => flushing m rest
  | [] => 0

/-- Whether a get was begun on the server since `mmc_pool_schedule_pending` popped a server. -/
def builtSince (m : Mmc) : List Step → Bool
  | .schedulePending _ _ :: _ => false
  | .build m' _ :: rest => m' = m || builtSince m rest
  | _ :: rest => builtSince m rest
  | [] => false

/-- `mmc_pool_schedule_pending` never finds a `NULL` in `buildreq`, and what it overwrites with `NULL`
    is the request it has scheduled, not one begun meanwhile. -/
def PendingSound : List Step → Prop
  | .schedulePending _ build :: rest => build ≠ none ∧ PendingSound rest
  | .clearBuild m r build :: rest =>
    (build = none ∨ build = some r ∧ builtSince m rest = false) ∧ PendingSound rest
  | _ :: rest => PendingSound rest
  | [] => True

/-- The steps that do not concern the build slots. -/
def Step.BuildFree : Step → Prop
  | .build _ _ => False
  | .flush _ => False
  | .flushed _ => False
  | .schedulePending _ _ => False
  | .clearBuild _ _ _ => False
  | _ => True

section BuildFree

variable {s : Step} (hs : s.BuildFree) (log : List Step)

include hs

theorem scheduling_of_buildFree : scheduling (s :: log) = scheduling log := by
  cases s <;> first | rfl | exact hs.elim

theorem flushing_of_buildFree (m : Mmc) : flushing m (s :: log) = flushing m log := by
  cases s <;> first | rfl | exact hs.elim

theorem builtSince_of_buildFree (m : Mmc) : builtSince m (s :: log) = builtSince m log := by
  cases s <;> first | rfl | exact hs.elim

theorem pendingSound_of_buildFree : PendingSound (s :: log) ↔ PendingSound log := by
  cases s <;> first | exact Iff.rfl | exact hs.elim

end BuildFree

theorem Step.Plain.buildFree {s : Step} (hs : s.Plain) : s.BuildFree := by
  cases s <;> first | exact hs | trivial

/-! ## The slots and the queue -/

/-- The pending queue and the build slots, and what is being done with them. -/
structure BuildView where
  pending : List Mmc
  build : Mmc → Option ReqId
  scheduling : Option (Mmc × Option ReqId)
  flushing : Mmc → Int
  built : Mmc → Bool

def World.buildView (w : World) : BuildView where
  pending := w.pool.pending
  build m := (w.mmc m).buildreq
  scheduling := scheduling w.log
  flushing m := flushing m w.log
  built m := builtSince m w.log

namespace BuildView

/-- A server with a request in its build slot is queued, unless its get is being scheduled; a queued
    server has one, unless its datagram is being flushed. -/
structure Agrees (v : BuildView) : Prop where
  nodup : v.pending.Nodup
  queued : ∀ m, v.build m ≠ none → m ∈ v.pending ∨ v.scheduling.map Prod.fst = some m
  built : ∀ m ∈ v.pending, v.build m ≠ none ∨ 0 < v.flushing m
  popped : ∀ m build, v.scheduling = some (m, build) →
    m ∉ v.pending ∧ (v.build m = none ∨ v.build m = build ∧ v.built m = false)

/-- `mmc_server_deactivate` empties the build slot. -/
def drop (v : BuildView) (m : Mmc) : BuildView :=
  { v with build := Function.update v.build m none }

/-- A get is begun on a server. -/
def begin (v : BuildView) (m : Mmc) (r : ReqId) : BuildView :=
  { v with
    build := Function.update v.build m (some r)
    built := Function.update v.built m true }

/-- A flush begins or ends. -/
def flush (v : BuildView) (m : Mmc) (n : Int) : BuildView :=
  { v with flushing := Function.update v.flushing m (v.flushing m + n) }

/-- `mmc_pool_schedule_pending` pops a server. -/
def pop (v : BuildView) (m : Mmc) (rest : List Mmc) : BuildView :=
  { v with pending := rest, scheduling := some (m, v.build m), built := fun _ => false }

/-- `mmc_pool_schedule_pending` clears the slot of the server it popped. -/
def clear (v : BuildView) (m : Mmc) : BuildView := { v.drop m with scheduling := none }

variable {v : BuildView} {m : Mmc}

theorem Agrees.drop (h : v.Agrees)
    (hm : v.build m = none ∨ v.scheduling.map Prod.fst = some m ∨ 0 < v.flushing m) :
    (v.drop m).Agrees where
  nodup := h.nodup
  queued m' hb := by
    have hne : m' ≠ m := fun hm' => hb (by simp [BuildView.drop, hm'])
    exact h.queued m' (by simpa [BuildView.drop, hne] using hb)
  built m' hm' := by
    by_cases heq : m' = m
    · subst heq
      rcases hm with hb | hs | hf
      · exact Or.inr ((h.built m' hm').resolve_left (by simpa using hb))
      · -- the server being scheduled has left the queue
        obtain ⟨⟨_, build⟩, hsome, rfl⟩ := Option.map_eq_some_iff.mp hs
        exact absurd hm' (h.popped _ build hsome).1
      · exact Or.inr hf
    · simpa [BuildView.drop, heq] using h.built m' hm'
  popped m' build hs := by
    obtain ⟨hnot, hb⟩ := h.popped m' build hs
    refine ⟨hnot, ?_⟩
    by_cases heq : m' = m
    · exact Or.inl (by simp [BuildView.drop, heq])
    · simpa [BuildView.drop, heq] using hb

/-- A get may be begun on any server but the one being scheduled, provided it is queued by then. -/
theorem Agrees.begin (h : v.Agrees) (hm : v.scheduling.map Prod.fst ≠ some m) (r : ReqId) :
    ({ v with pending := mmcQueuePush v.pending m }.begin m r).Agrees where
  nodup := nodup_mmcQueuePush h.nodup m
  queued m' hb := by
    by_cases heq : m' = m
    · exact Or.inl ((mem_mmcQueuePush _ _ _).mpr (Or.inr heq))
    · have hb : v.build m' ≠ none := by simpa [BuildView.begin, heq] using hb
      exact (h.queued m' hb).imp_left fun hm' => (mem_mmcQueuePush _ _ _).mpr (Or.inl hm')
  built m' hm' := by
    by_cases heq : m' = m
    · exact Or.inl (by simp [BuildView.begin, heq])
    · have hm' := ((mem_mmcQueuePush _ _ _).mp hm').resolve_right heq
      simpa [BuildView.begin, heq] using h.built m' hm'
  popped m' build hs := by
    have hne : m' ≠ m := fun heq => hm (by rw [show v.scheduling = _ from hs, ← heq]; rfl)
    obtain ⟨hnot, hb⟩ := h.popped m' build hs
    refine ⟨fun hm' => hnot (((mem_mmcQueuePush _ _ _).mp hm').resolve_right hne), ?_⟩
    simpa [BuildView.begin, hne] using hb

theorem Agrees.flush (h : v.Agrees) {n : Int} (hn : 0 ≤ n ∨ v.build m ≠ none) :
    (v.flush m n).Agrees where
  nodup := h.nodup
  queued := h.queued
  built m' hm' := by
    by_cases heq : m' = m
    · subst heq
      rcases hn with hn | hb
      · refine (h.built m' hm').imp_right fun hf => ?_
        have : (v.flush m' n).flushing m' = v.flushing m' + n := by simp [BuildView.flush]
        omega
      · exact Or.inl hb
    · simpa [BuildView.flush, heq] using h.built m' hm'
  popped := h.popped

theorem Agrees.pop (h : v.Agrees) {rest : List Mmc} (hp : v.pending = m :: rest)
    (hs : v.scheduling = none) : (v.pop m rest).Agrees where
  nodup := by
    have := h.nodup
    rw [hp] at this
    exact this.of_cons
  queued m' hb := by
    rcases h.queued m' hb with hm' | hm'
    · rw [hp, List.mem_cons] at hm'
      exact hm'.symm.imp_right fun heq => by simp [BuildView.pop, heq]
    · simp [hs] at hm'
  built m' hm' := h.built m' (by rw [hp]; exact List.mem_cons_of_mem _ hm')
  popped m' build hs' := by
    obtain ⟨rfl, rfl⟩ := Prod.mk.inj (Option.some.inj hs')
    have hnodup := h.nodup
    rw [hp] at hnodup
    exact ⟨(List.nodup_cons.mp hnodup).1, Or.inr ⟨rfl, rfl⟩⟩

theorem Agrees.clear (h : v.Agrees) (hs : v.scheduling.map Prod.fst = some m) :
    (v.clear m).Agrees where
  nodup := h.nodup
  queued m' hb := by
    have hne : m' ≠ m := fun heq => hb (by simp [BuildView.clear, BuildView.drop, heq])
    refine Or.inl ((h.queued m' ?_).resolve_right fun hm' => ?_)
    · simpa [BuildView.clear, BuildView.drop, hne] using hb
    · rw [hs] at hm'
      exact hne (Option.some.inj hm').symm
  built m' hm' := (h.drop (Or.inr (Or.inl hs))).built m' hm'
  popped m' build hs' := by cases hs'

end BuildView

/-! ## What runs keep -/

/-- A run stays out of the way of the build slots if it deactivates a server while a get is being built
    on it only to schedule that get or to flush its datagram, and begins no get on the server whose
    get is being scheduled. -/
def Step.KeepsBuild (s : Step) (w : World) : Prop :=
  match s with
  | .deactivate m => (w.mmc m).buildreq = none ∨ (scheduling w.log).map Prod.fst = some m ∨
      0 < flushing m w.log
  | .build m _ => (scheduling w.log).map Prod.fst ≠ some m
  | _ => True

instance (s : Step) (w : World) : Decidable (s.KeepsBuild w) :=
  match s with
  | .deactivate _ => inferInstanceAs (Decidable (_ ∨ _ ∨ _))
  | .build _ _ => inferInstanceAs (Decidable (_ ≠ _))
  | .alloc .. | .release .. | .schedule .. | .accept .. | .flush .. | .flushed ..
  | .schedulePending .. | .clearBuild .. | .connect .. | .connectFailed .. | .failover ..
  | .valueFailover .. | .handed .. | .slot .. | .send .. | .parse .. | .eof .. | .earlyDone ..
  | .selectRetry .. | .removeReading .. | .round | .copyTarget .. | .clone .. | .earlyReturn
  | .saslAuth => .isTrue trivial

/-- The slots and the queue agree and the log is sound. -/
structure World.BuildsAgree (w : World) : Prop where
  agrees : w.buildView.Agrees
  sound : PendingSound w.log

/-- Nothing happened to the build slots. -/
structure SameBuilds (w w' : World) : Prop where
  view : w'.buildView = w.buildView
  sound : PendingSound w.log → PendingSound w'.log

/-- What every function keeps that is called while gets are being built. -/
structure KeepsBuilds (w w' : World) : Prop where
  scheduling : scheduling w'.log = scheduling w.log
  flushing : ∀ m, flushing m w'.log = flushing m w.log
  pending : w.pool.pending ⊆ w'.pool.pending
  agree : w.BuildsAgree → w'.BuildsAgree

/-- What is left in a run that fails. -/
def KeepsSound (w w' : World) : Prop := w.BuildsAgree → PendingSound w'.log

theorem SameBuilds.refl (w : World) : SameBuilds w w := ⟨rfl, id⟩

theorem SameBuilds.trans (w w' w'' : World) (h : SameBuilds w w') (h' : SameBuilds w' w'') :
    SameBuilds w w'' := ⟨h'.view.trans h.view, h'.sound ∘ h.sound⟩

theorem SameBuilds.of_mmc (w : World) (m : Mmc) (s : MmcServer)
    (hs : s.buildreq = (w.mmc m).buildreq) :
    SameBuilds w { w with mmc := Function.update w.mmc m s } := by
  refine ⟨?_, id⟩
  have hbuild : (fun m' => (Function.update w.mmc m s m').buildreq) =
      fun m' => (w.mmc m').buildreq := by
    funext m'
    by_cases heq : m' = m
    · simp [heq, hs]
    · simp [heq]
  simp [World.buildView, hbuild]

theorem SameBuilds.note (w : World) {s : Step} (hs : s.BuildFree) :
    SameBuilds w { w with log := s :: w.log } := by
  refine ⟨?_, (pendingSound_of_buildFree hs w.log).mpr⟩
  simp only [World.buildView, scheduling_of_buildFree hs, flushing_of_buildFree hs,
    builtSince_of_buildFree hs]

theorem SameBuilds.keeps {w w' : World} (h : SameBuilds w w') : KeepsBuilds w w' where
  scheduling := congrArg BuildView.scheduling h.view
  flushing m := congrFun (congrArg BuildView.flushing h.view) m
  pending := by
    have hpending : w'.pool.pending = w.pool.pending := congrArg BuildView.pending h.view
    rw [hpending]
    exact List.Subset.refl _
  agree hw := ⟨h.view ▸ hw.agrees, h.sound hw.sound⟩

theorem KeepsBuilds.trans (w w' w'' : World) (h : KeepsBuilds w w') (h' : KeepsBuilds w' w'') :
    KeepsBuilds w w'' where
  scheduling := h'.scheduling.trans h.scheduling
  flushing m := (h'.flushing m).trans (h.flushing m)
  pending := List.Subset.trans h.pending h'.pending
  agree := h'.agree ∘ h.agree

variable {E : Env} {fuel : Nat}

theorem frame_sameBuilds (E : Env) : Frame E SameBuilds SameBuilds where
  refl := SameBuilds.refl
  trans := SameBuilds.trans
  fail _ _ := id
  trans_fail := SameBuilds.trans
  tick _ := ⟨rfl, id⟩
  note _ w hs _ := SameBuilds.note w hs.buildFree
  pool w p hp := ⟨by simp [World.buildView, hp], id⟩
  mmc := SameBuilds.of_mmc
  req _ _ _ := ⟨rfl, id⟩
  call _ _ _ _ := ⟨rfl, id⟩
  inTimeout _ _ := ⟨rfl, id⟩

theorem frame_keepsBuilds (E : Env) : Frame E KeepsBuilds KeepsSound :=
  (frame_sameBuilds E).mono (fun _ _ => SameBuilds.keeps) KeepsBuilds.trans
    (fun _ _ h hw => (h.agree hw).sound) fun _ _ _ h h' hw => h' (h.agree hw)

/-! ## The functions that write the slots -/

theorem BuildView.Agrees.of_eq {v v' : BuildView} (h : v.Agrees) (heq : v' = v) : v'.Agrees :=
  heq ▸ h

theorem buildView_drop {w w' : World} {m : Mmc} (hpending : w'.pool.pending = w.pool.pending)
    (hlog : w'.log = .deactivate m :: w.log)
    (hbuild : ∀ m', (w'.mmc m').buildreq = if m' = m then none else (w.mmc m').buildreq) :
    w'.buildView = w.buildView.drop m := by
  simp only [World.buildView, BuildView.drop, hpending, hlog]
  congr 1
  funext m'
  simp only [hbuild, Function.update_apply]

theorem buildView_begin {w w' : World} {m : Mmc} {r : ReqId}
    (hpending : w'.pool.pending = w.pool.pending) (hlog : w'.log = .build m r :: w.log)
    (hbuild : ∀ m', (w'.mmc m').buildreq = if m' = m then some r else (w.mmc m').buildreq) :
    w'.buildView = w.buildView.begin m r := by
  simp only [World.buildView, BuildView.begin, hpending, hlog]
  congr 1
  · funext m'
    simp only [hbuild, Function.update_apply]
  · funext m'
    by_cases heq : m' = m
    · simp [builtSince, heq]
    · simp [builtSince, heq, Ne.symm heq]

theorem buildView_flush (w : World) (m : Mmc) :
    World.buildView { w with log := .flush m :: w.log } = w.buildView.flush m 1 := by
  simp only [World.buildView, BuildView.flush]
  congr 1
  funext m'
  by_cases heq : m' = m
  · simp [flushing, heq]
  · simp [flushing, heq, Ne.symm heq]

theorem buildView_flushed (w : World) (m : Mmc) :
    World.buildView { w with log := .flushed m :: w.log } = w.buildView.flush m (-1) := by
  simp only [World.buildView, BuildView.flush]
  congr 1
  funext m'
  by_cases heq : m' = m
  · simp [flushing, heq, Int.sub_eq_add_neg]
  · simp [flushing, heq, Ne.symm heq]

theorem World.BuildsAgree.flush {w : World} (hw : w.BuildsAgree) (m : Mmc) :
    World.BuildsAgree { w with log := .flush m :: w.log } :=
  ⟨(hw.agrees.flush (Or.inl Int.one_nonneg)).of_eq (buildView_flush w m), hw.sound⟩

/-- A flush of a server that is still queued when it ends, from the state before it to the one after
    the next get was begun. -/
theorem keepsBuilds_flush {w w₃ w₄ : World} {m : Mmc} {r : ReqId}
    (hbuild : (w.mmc m).buildreq ≠ none)
    (hfree : (scheduling w₃.log).map Prod.fst ≠ some m)
    (hinner : KeepsBuilds { w with log := .flush m :: w.log } w₃)
    (hview : w₄.buildView = w₃.buildView.begin m r)
    (hsound : PendingSound w₃.log → PendingSound w₄.log) :
    KeepsBuilds w { w₄ with log := .flushed m :: w₄.log } := by
  have hscheduling : scheduling w₃.log = scheduling w.log := hinner.scheduling
  have hview' := (buildView_flushed w₄ m).trans (congrArg (fun v => v.flush m (-1)) hview)
  have hpending : w₄.pool.pending = w₃.pool.pending := congrArg BuildView.pending hview
  refine ⟨(congrArg BuildView.scheduling hview').trans hscheduling, fun m' => ?_, ?_, fun hw => ⟨?_, ?_⟩⟩
  · have h₁ := hinner.flushing m'
    have h₂ : flushing m' w₄.log = flushing m' w₃.log :=
      congrFun (congrArg BuildView.flushing hview) m'
    simp only [flushing] at h₁ ⊢
    omega
  · change w.pool.pending ⊆ w₄.pool.pending
    rw [hpending]
    exact hinner.pending
  · have hagrees := (hinner.agree (hw.flush m)).agrees
    have hqueued : m ∈ w₃.pool.pending := by
      refine hinner.pending ((hw.agrees.queued m hbuild).resolve_right fun hm => hfree ?_)
      rw [hscheduling]
      exact hm
    have hbegin := hagrees.begin hfree r
    rw [show mmcQueuePush w₃.buildView.pending m = w₃.buildView.pending from if_pos hqueued] at hbegin
    refine (BuildView.Agrees.flush hbegin (Or.inr ?_)).of_eq hview'
    simp [BuildView.begin]
  · exact hsound (hinner.agree (hw.flush m)).sound

section Writers

variable (hE : ∀ s w, E.allowed s w → s.KeepsBuild w)

include hE

theorem takeOffline_keepsBuilds (m : Mmc) :
    Within KeepsBuilds KeepsSound (takeOffline E m) := by
  intro w
  simp only [takeOffline, wp_bind, wp_step, wp_ask, wp_modifyMmc, wp_modifyPool, wp_getMmc, wp_pure]
  refine ⟨fun hallowed => ?_, fun _ hw => hw.sound⟩
  refine ⟨rfl, fun _ => rfl, List.Subset.refl _, fun hw => ⟨?_, hw.sound⟩⟩
  refine (hw.agrees.drop (hE _ _ hallowed)).of_eq (buildView_drop rfl rfl fun m' => ?_)
  by_cases heq : m' = m
  · simp [heq]
  · simp [heq]

omit hE in
/-- A new get is put into the build slot. -/
theorem wp_beginBuild (m : Mmc) (a : GetArgs) (w : World) :
    wp (beginBuild E m a)
      (fun _ w' => (∃ r w₁, SameBuilds w w₁ ∧ E.allowed (.build m r) w₁ ∧
          w'.buildView = w.buildView.begin m r) ∧ (PendingSound w.log → PendingSound w'.log))
      (fun w' => PendingSound w.log → PendingSound w'.log) w := by
  have hF := frame_sameBuilds E
  rw [beginBuild, wp_bind]
  refine wp_mono (within_mmcPoolRequestGet hF _ _ _ _ w) (fun r w₁ h₁ => ?_) fun _ h₁ => h₁.sound
  simp only [wp_bind, wp_step, wp_modifyMmc]
  refine ⟨fun hallowed => ?_, fun _ => h₁.sound⟩
  refine wp_mono (within_copyFailures hF r a.failedRequest _) (fun _ w₂ h₂ => ?_)
    fun w₂ h₂ hw => h₂.sound (h₁.sound hw)
  simp only [wp_getPool, wp_modifyReq]
  refine ⟨⟨r, w₁, h₁, hallowed, ?_⟩, fun hw => h₂.sound (h₁.sound hw)⟩
  change w₂.buildView = _
  rw [h₂.view, ← h₁.view]
  refine buildView_begin rfl rfl fun m' => ?_
  by_cases heq : m' = m
  · simp [heq]
  · simp [heq]

/-- Opening a build slot: a new server is queued before a get is begun on it, and a full datagram is
    scheduled and waited for before the next is begun. -/
theorem openBuild_keepsBuilds (fh : Failover) (m : Mmc) (a : GetArgs) (key : Bytes)
    (hschedule : ∀ r, Within KeepsBuilds KeepsSound (mmcPoolSchedule E fh m r))
    (hselect : Within KeepsBuilds KeepsSound (mmcPoolSelect E fh fuel)) :
    Within KeepsBuilds KeepsSound (openBuild E fuel fh m a key) := by
  intro w
  rw [openBuild, wp_bind, wp_getMmc]
  cases hbuild : (w.mmc m).buildreq with
  | none =>
    simp only [wp_bind, wp_modifyPool]
    refine wp_mono (wp_beginBuild m a _) (fun _ w' hw' => ?_) fun w' h hw => h hw.sound
    obtain ⟨⟨r, w₁, h₁, hallowed, hview⟩, hsound⟩ := hw'
    have hfree : w.buildView.scheduling.map Prod.fst ≠ some m := by
      have := hE _ _ hallowed
      rwa [Step.KeepsBuild, show scheduling w₁.log = _ from congrArg BuildView.scheduling h₁.view]
        at this
    refine ⟨congrArg BuildView.scheduling hview, fun m' => congrFun (congrArg BuildView.flushing hview) m',
      fun m' hm' => ?_, fun hw => ⟨(hw.agrees.begin hfree r).of_eq hview, hsound hw.sound⟩⟩
    have hpending : w'.pool.pending = mmcQueuePush w.pool.pending m :=
      congrArg BuildView.pending hview
    rw [hpending]
    exact (mem_mmcQueuePush _ _ _).mpr (Or.inl hm')
  | some r =>
    simp only [wp_bind, wp_getReq, wp_doWhen, wp_step]
    refine ⟨fun _ => ⟨fun _ => ?_, fun _ hw => hw.sound⟩, fun _ => (SameBuilds.refl w).keeps⟩
    have hfail {w₁ w₂ : World} (h : KeepsBuilds { w with log := .flush m :: w.log } w₁)
        (h' : KeepsSound w₁ w₂) (hw : w.BuildsAgree) : PendingSound w₂.log :=
      h' (h.agree (hw.flush m))
    have hend := within_endBuild (frame_keepsBuilds E) r
    refine wp_mono (hend _) (fun _ w₁ h₁ => ?_) fun w₁ h hw => h (hw.flush m)
    refine wp_mono (hschedule r w₁) (fun _ w₂ h₂ => ?_) fun w₂ => hfail h₁
    replace h₂ := h₁.trans _ _ _ h₂
    refine wp_mono (hselect w₂) (fun _ w₃ h₃ => ?_) fun w₃ => hfail h₂
    replace h₃ := h₂.trans _ _ _ h₃
    have hsound₃ (hw : w.BuildsAgree) : PendingSound w₃.log := (h₃.agree (hw.flush m)).sound
    refine wp_mono (wp_beginBuild m a w₃) (fun _ w₄ hw₄ => ?_) fun w₄ h hw => h (hsound₃ hw)
    obtain ⟨⟨r', w', h', hallowed, hview⟩, hsound⟩ := hw₄
    refine ⟨fun _ => keepsBuilds_flush (by simp [hbuild]) ?_ h₃ hview hsound,
      fun _ hw => hsound (hsound₃ hw)⟩
    have := hE _ _ hallowed
    rwa [Step.KeepsBuild, show scheduling w'.log = _ from congrArg BuildView.scheduling h'.view] at this

omit hE in
theorem mmcValueFailoverHandler_keepsBuilds (fh : Failover) (r : ReqId) (c : Nat)
    (hget : ∀ a zkey, Within KeepsBuilds KeepsSound (mmcPoolScheduleGet E fuel fh a zkey)) :
    Within KeepsBuilds KeepsSound (mmcValueFailoverHandler E fuel fh r c) := by
  have hF := frame_keepsBuilds E
  have hstep {s : Step} (hs : s.BuildFree) : Within KeepsBuilds KeepsSound (step E s) := fun w =>
    (wp_step _ _ _ _ _).mpr ⟨fun _ => (SameBuilds.note w hs).keeps, fun _ hw => hw.sound⟩
  have hrelease := within_mmcPoolRelease hF (some r)
  have hkey (zkey : ZKey) : Within KeepsBuilds KeepsSound (rescheduleKey E fuel fh r c zkey) :=
    hF.bind (hF.getCall c) fun _ => hF.doWhen (hF.bind (hstep trivial) fun _ =>
      hF.bind (hF.getReq r) fun _ => hF.bind (hget _ zkey) fun _ => hF.pure _)
  refine hF.bind (hF.getReq r) fun q => Within.ite (hF.bind hrelease fun _ => hF.pure _) ?_
  exact hF.bind (hstep trivial) fun _ => hF.bind (hF.getCall c) fun call =>
    hF.bind (hF.forEach hkey call.keys) fun _ => hF.bind hrelease fun _ => hF.pure _

theorem builds_keepsBuilds : Builds E fuel KeepsBuilds KeepsSound KeepsBuilds :=
  .of_frame (frame_keepsBuilds E) (takeOffline_keepsBuilds hE) (openBuild_keepsBuilds hE)
    mmcValueFailoverHandler_keepsBuilds

end Writers

/-! ## Scheduling the pending gets -/

/-- The state between operations: no get is being scheduled, no datagram is being flushed. -/
structure World.BetweenBuilds (w : World) : Prop extends w.BuildsAgree where
  scheduling : scheduling w.log = none
  flushing : ∀ m, flushing m w.log = 0

theorem KeepsBuilds.between {w w' : World} (hw : w.BetweenBuilds) (h : KeepsBuilds w w') :
    w'.BetweenBuilds :=
  ⟨h.agree hw.toBuildsAgree, h.scheduling.trans hw.scheduling,
    fun m => (h.flushing m).trans (hw.flushing m)⟩

/-- The server `mmc_pool_schedule_pending` pops has a request in its build slot, and when the slot is
    cleared it holds this request or none. -/
theorem schedulePendingServer_between (hB : Builds E fuel KeepsBuilds KeepsSound KeepsBuilds)
    (fh : Failover)
    (hfh : ∀ m r, Within KeepsBuilds KeepsSound (fh m r)) (w : World) (m : Mmc) (rest : List Mmc)
    (hw : w.BetweenBuilds) (hp : w.pool.pending = m :: rest) :
    wp (schedulePendingServer E fh m) (fun _ => World.BetweenBuilds)
      (fun w' => PendingSound w'.log) { w with pool := { w.pool with pending := rest } } := by
  have hF := frame_keepsBuilds E
  have hbuild : (w.mmc m).buildreq ≠ none := by
    have hm : m ∈ w.buildView.pending := by simp [World.buildView, hp]
    refine (hw.agrees.built m hm).resolve_right ?_
    simp [World.buildView, hw.flushing m]
  obtain ⟨r, hr⟩ := Option.ne_none_iff_exists'.mp hbuild
  -- the state after the pop, on which the scheduling of the request runs
  have hpop := hw.agrees.pop hp hw.scheduling
  simp only [schedulePendingServer, wp_bind, wp_getMmc, wp_step]
  refine ⟨fun _ => ?_, fun _ => hw.sound⟩
  have hstart : World.BuildsAgree { w with
      pool := { w.pool with pending := rest },
      log := .schedulePending m (w.mmc m).buildreq :: w.log } := ⟨hpop, hbuild, hw.sound⟩
  rw [hr] at hstart ⊢
  simp only [wp_bind]
  refine wp_mono (within_endBuild hF r _) (fun _ w₁ h₁ => ?_) fun w₁ h => h hstart
  refine wp_mono (within_mmcPoolSchedule hF hB hfh m r w₁)
    (fun _ w₂ h₂ => ?_) fun w₂ h => h (h₁.agree hstart)
  replace h₂ := h₁.trans _ _ _ h₂
  obtain ⟨hagrees, hsound⟩ := h₂.agree hstart
  simp only [wp_getMmc, wp_step, wp_modifyMmc]
  refine ⟨fun _ => ?_, fun _ => hsound⟩
  have hscheduling : scheduling w₂.log = some (m, some r) := h₂.scheduling
  refine ⟨⟨(hagrees.clear (m := m) ?_).of_eq ?_, ?_, hsound⟩, rfl, fun m' => ?_⟩
  · simp [World.buildView, hscheduling]
  · simp only [World.buildView, BuildView.clear, BuildView.drop]
    congr 1
    funext m'
    by_cases heq : m' = m
    · simp [heq]
    · simp [heq]
  · exact (hagrees.popped m (some r) hscheduling).2
  · exact (h₂.flushing m').trans (hw.flushing m')

/-! ## Runs -/

theorem World.Initial.betweenBuilds {w : World} (hw : w.Initial) : w.BetweenBuilds where
  agrees := by
    have hbuild (m : Mmc) : w.buildView.build m = none := (hw.idle m).buildreq
    have hpending : w.buildView.pending = [] := hw.pending
    have hscheduling : w.buildView.scheduling = none := by simp [World.buildView, hw.log, scheduling]
    refine ⟨by simp [hpending], fun m hm => absurd (hbuild m) hm, ?_, ?_⟩
    · simp [hpending]
    · simp [hscheduling]
  sound := by simp [hw.log, PendingSound]
  scheduling := by simp [hw.log, PeclMemcache.scheduling]
  flushing m := by simp [hw.log, PeclMemcache.flushing]

theorem World.BetweenBuilds.mem_pending_iff {w : World} (hw : w.BetweenBuilds) (m : Mmc) :
    m ∈ w.pool.pending ↔ (w.mmc m).buildreq ≠ none := by
  constructor
  · intro hm
    refine (hw.agrees.built m hm).resolve_right ?_
    simp [World.buildView, hw.flushing m]
  · intro hb
    refine (hw.agrees.queued m hb).resolve_right ?_
    simp [World.buildView, hw.scheduling]

/-- Between operations a server is pending if and only if a get is being built on it, and no
    `mmc_pool_schedule_pending` follows a `NULL` or loses a get, not even in a run that fails. -/
def PendingAgrees (E : Env) (fuel depth : Nat) (ops : List PoolOp) (w : World) : Prop :=
  wp (runOps E fuel depth ops)
    (fun _ w' => (∀ m, m ∈ w'.pool.pending ↔ (w'.mmc m).buildreq ≠ none) ∧ PendingSound w'.log)
    (fun w' => PendingSound w'.log) w

/-- The last thing such a run did is not to pop a server without a get. -/
theorem PendingAgrees.head_ne {E : Env} {fuel depth : Nat} {ops : List PoolOp} {w : World}
    (h : PendingAgrees E fuel depth ops w) (m : Mmc) :
    (runOps E fuel depth ops w).2.log.head? ≠ some (.schedulePending m none) := by
  intro hhead
  have hsound := wp_last (P := fun w' => PendingSound w'.log) (wp_mono h (fun _ _ h => h.2) fun _ => id)
  obtain ⟨rest, hlog⟩ := List.head?_eq_some_iff.mp hhead
  rw [hlog] at hsound
  exact hsound.1 rfl

/-- **The pending queue and the build slots agree** in every run that stays out of the way of the
    build slots. -/
theorem pending_agrees_of_keepsBuild (E : Env) (hE : ∀ s w, E.allowed s w → s.KeepsBuild w)
    (fuel depth : Nat) (ops : List PoolOp) (w : World) (hw : w.Initial) :
    PendingAgrees E fuel depth ops w := by
  have hF := frame_keepsBuilds E
  have hB : Builds E fuel _ _ _ := builds_keepsBuilds hE
  have hfh := within_failoverHandler hF hB depth
  have hrun := wp_runOps hF hB (X := fun w' => PendingSound w'.log)
    (fun _ (h : World.BetweenBuilds _) => h.sound) (fun _ _ => KeepsBuilds.between)
    (fun _ _ h hS => hS h.toBuildsAgree) (schedulePendingServer_between hB _ hfh)
    (fun _ _ => KeepsBuilds.between) ops hw.betweenBuilds
  exact wp_mono hrun (fun _ w' h => ⟨h.mem_pending_iff, h.sound⟩) fun _ => id

/-! ## Two servers that die in one round -/

def keyA : ZKey := { ptr := 0, str := [97] }
def keyB : ZKey := { ptr := 1, str := [98] }

/-- A `memcache_get` of an array of two keys on two servers, one key hashed to each. -/
def twoServers : World :=
  World.fresh [0, 1] (fun key => if key = [97] then 0 else 1) 15 fun _ => { keys := [keyA, keyB] }

/-- Both servers accept the connection and the commands and answer with garbage. -/
def dyingServers : Env where
  connect tick := some tick
  select _ := { result := 1, writable := fun _ => true, readable := fun _ => true }
  send _ := .bytes 100
  parse _ := { verdict := .serverFailure }

/-- The failure of the first server makes the handler build a get on the second one. The second one
    fails in the same round: its slot is cleared, it stays queued, and `mmc_pool_schedule_pending`
    pops it to find `NULL`. -/
theorem dyingServers_not_pending_agrees :
    twoServers.Initial ∧
    ¬ PendingAgrees dyingServers 6 5
      [.scheduleGet (multiGet 0) keyA, .scheduleGet (multiGet 0) keyB, .run] twoServers :=
  ⟨World.fresh_initial _ _ _ _, fun h => h.head_ne 1 (by decide +kernel)⟩

/-- The same servers in a run that keeps out of the way of the build slots. -/
def guardedServers : Env :=
  { dyingServers with allowed := fun s w => decide (s.KeepsBuild w) }

theorem pending_agrees_of_guardedServers :
    PendingAgrees guardedServers 6 5
      [.scheduleGet (multiGet 0) keyA, .scheduleGet (multiGet 0) keyB, .run] twoServers :=
  pending_agrees_of_keepsBuild guardedServers (fun _ _ h => of_decide_eq_true h) 6 5 _ _
    (World.fresh_initial _ _ _ _)

end PeclMemcache
