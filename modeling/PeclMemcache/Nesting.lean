import PeclMemcache.Machines
import PeclMemcache.Failover

set_option autoImplicit false

/-! # Gets within gets

The slot for the request that is being built belongs to the server. User code that runs while a
multi-key get is building or waiting can get further keys from the same pool, and a failover hands on
keys of whatever call has failed: `mmc_pool_schedule_get` appends all of them to the request it finds
in the slot. Modelled are the calls that are under way with their control flow, the slots, and the
requests with the keys in them; when user code runs, which servers fail and what they answer is left
open. -/

namespace PeclMemcache

open Machines

/-! ## Calls and requests -/

/-- A call of `memcache_get`: its keys, whether they came in an array, and whether CAS values are asked
    for. Another operation on the pool is a call without keys: it runs the pool. -/
structure GetCall where
  keys : List Bytes := []
  array : Bool := true
  gets : Bool := false
  deriving DecidableEq, Repr

/-- What a request is begun with. The parameter of the value handler leads to the variables of one
    call: its result, its flags and its CAS values. -/
structure GetHandlers where
  op : MmcOp := .get
  valueHandler : ValueHandler := .multi
  valueHandlerParam : Nat := 0
  failoverHandler : FailoverHandler := .null
  deriving DecidableEq, Repr

/-- A request, with the call that each key was appended for. -/
structure KeyRequest where
  begun : GetHandlers := {}
  keys : List (Nat × Bytes) := []
  scheduled : Bool := false
  deriving DecidableEq, Repr

/-- What is under way: `memcache_get` with the keys that are not scheduled yet; `mmc_pool_schedule_get`
    for a key, delivering the full datagram; `mmc_pool_run`; `mmc_pool_schedule` in
    `mmc_pool_schedule_pending`; the unserialisation of a value; `mmc_value_failover_handler` for a
    request of a call, with the keys that are left. -/
inductive GetFrame
  | getting (call : Nat) (rest : List Bytes)
  | flushing (handlers : GetHandlers) (call : Nat) (m : Mmc) (key : Bytes)
  | running (call : Nat)
  | pending (m : Mmc)
  | unserialising (r : ReqId) (key : Bytes)
  | failingOver (r : ReqId) (call : Nat) (rest : List Bytes)
  deriving DecidableEq, Repr

/-- `mmc_pool_select` is running. -/
def GetFrame.selects : GetFrame → Bool
  | .flushing .. | .running _ => true
  | _ => false

/-- A server may fail. -/
def GetFrame.connects : GetFrame → Bool
  | .getting .. | .flushing .. | .running _ | .pending _ => true
  | _ => false

/-- The pool, with what is under way, the innermost first, and the values that were delivered, each
    with the call whose variables it went to. -/
structure NestState where
  slot : Mmc → Option ReqId := fun _ => none
  pending : List Mmc := []
  request : ReqId → KeyRequest := fun _ => {}
  requests : Nat := 0
  call : Nat → GetCall := fun _ => {}
  calls : Nat := 0
  stack : List GetFrame := []
  delivered : List (Nat × Bytes) := []

/-- The steps of the innermost function, and a further call from user code. A key is skipped if it is
    not valid, has no valid server or, in a failover, has a result. `full` tells whether the datagram
    has no room for the key. -/
inductive NestAction
  | get (c : GetCall)
  | skip
  | schedule (m : Mmc) (full : Bool)
  | flushed
  | run
  | pend
  | cleared
  | value (r : ReqId) (key : Bytes)
  | handled
  | deactivate (m : Mmc)
  | failover (r : ReqId)
  | finish
  deriving DecidableEq, Repr

namespace NestState

variable (s : NestState)

/-- What `memcache_get` passes on with its keys. -/
def handlers (c : Nat) : GetHandlers :=
  if (s.call c).array then
    { op := if (s.call c).gets then .gets else .get, valueHandler := .multi,
      valueHandlerParam := c, failoverHandler := .value c }
  else
    { op := if (s.call c).gets then .gets else .get, valueHandler := .single,
      valueHandlerParam := c, failoverHandler := .pool }

/-- What `mmc_value_failover_handler` passes on with the keys of call `c`: the command depends on the
    CAS variable of the call. -/
def failoverHandlers (r : ReqId) (c : Nat) : GetHandlers :=
  { (s.request r).begun with op := if (s.call c).gets then .gets else .get }

def push (frame : GetFrame) : NestState := { s with stack := frame :: s.stack }

/-- A new request with its first key. -/
def newRequest (h : GetHandlers) (c : Nat) (key : Bytes) (scheduled : Bool) : NestState :=
  { s with
    request := Function.update s.request s.requests { begun := h, keys := [(c, key)], scheduled }
    requests := s.requests + 1 }

/-- A new request in the slot of the server. -/
def build (h : GetHandlers) (c : Nat) (m : Mmc) (key : Bytes) : NestState :=
  { s.newRequest h c key false with slot := Function.update s.slot m (some s.requests) }

/-- `append_get`. -/
def append (r : ReqId) (c : Nat) (key : Bytes) : NestState :=
  { s with
    request := Function.update s.request r
      { s.request r with keys := (s.request r).keys ++ [(c, key)] } }

/-- `mmc_pool_schedule`. -/
def markScheduled (r : ReqId) : NestState :=
  { s with request := Function.update s.request r { s.request r with scheduled := true } }

/-- `mmc->buildreq = NULL`. -/
def clear (m : Mmc) : NestState := { s with slot := Function.update s.slot m none }

/-- `mmc_pool_schedule_get` for a key of call `c` that is mapped to server `m`. -/
def scheduleGet (h : GetHandlers) (c : Nat) (m : Mmc) (key : Bytes) (full : Bool) : NestState :=
  match s.slot m with
  | none => { s with pending := mmcQueuePush s.pending m }.build h c m key
  | some r =>
    if full then (s.markScheduled r).push (.flushing h c m key)
    else s.append r c key

/-- The beginning of a call. -/
def begin (c : GetCall) : NestState :=
  { s with
    call := Function.update s.call s.calls c
    calls := s.calls + 1
    stack := .getting s.calls c.keys :: s.stack }

/-- A step of the innermost function. -/
def performAt (a : NestAction) (frame : GetFrame) (rest : List GetFrame) : Option NestState :=
  match a, frame with
  | .skip, .getting c (_ :: keys) => some { s with stack := .getting c keys :: rest }
  | .skip, .failingOver r c (_ :: keys) => some { s with stack := .failingOver r c keys :: rest }
  | .schedule m full, .getting c (key :: keys) =>
    let s := { s with stack := .getting c keys :: rest }
    -- a single key gets a request of its own
    if (s.call c).array then some (s.scheduleGet (s.handlers c) c m key full)
    else some (s.newRequest (s.handlers c) c key true)
  | .schedule m full, .failingOver r c (key :: keys) =>
    let s := { s with stack := .failingOver r c keys :: rest }
    some (s.scheduleGet (s.failoverHandlers r c) c m key full)
  | .flushed, .flushing h c m key => some ({ s with stack := rest }.build h c m key)
  | .run, .getting c [] => some { s with stack := .running c :: rest }
  | .pend, .running _ =>
    match s.pending with
    | [] => none
    | m :: ms =>
      match s.slot m with
      | none => none -- a `NULL` pointer is followed
      | some r => some (({ s with pending := ms }.markScheduled r).push (.pending m))
  | .cleared, .pending m => some ({ s with stack := rest }.clear m)
  | .value r key, frame =>
    if frame.selects ∧ r < s.requests ∧ (s.request r).scheduled ∧
        key ∈ (s.request r).keys.map Prod.snd then
      some (s.push (.unserialising r key))
    else none
  | .handled, .unserialising r key =>
    some { s with
      stack := rest
      delivered := ((s.request r).begun.valueHandlerParam, key) :: s.delivered }
  | .deactivate m, frame => if frame.connects then some (s.clear m) else none
  | .failover r, frame =>
    if frame.connects ∧ r < s.requests then
      match (s.request r).begun.failoverHandler with
      | .value c => some (s.push (.failingOver r c (s.call c).keys))
      | _ => some s -- the request as it is goes to another server
    else none
  | .finish, .failingOver _ _ [] => some { s with stack := rest }
  | .finish, .running _ => some { s with stack := rest }
  | _, _ => none

/-- A step, if it is possible. User code runs during unserialisation, in failure callbacks and in error
    handlers, so a further call can begin anywhere. -/
def perform (a : NestAction) : Option NestState :=
  match a, s.stack with
  | .get c, _ => some (s.begin c)
  | _, [] => none
  | a, frame :: rest => s.performAt a frame rest

/-! ## Results go to the call that asked -/

/-- Every key is in a request that was begun with what its own call passes on, and every value was
    delivered to a call that has the key. -/
structure ResultsGoToAsker : Prop where
  appended : ∀ r < s.requests, ∀ a ∈ (s.request r).keys, (s.request r).begun = s.handlers a.1
  delivered : ∀ d ∈ s.delivered, d.1 < s.calls ∧ d.2 ∈ (s.call d.1).keys

/-- The call that the innermost function hands a key on for. -/
def asker : GetFrame → Option Nat
  | .getting c (_ :: _) => if (s.call c).array then some c else none
  | .failingOver _ c (_ :: _) => some c
  | _ => none

/-- The condition: a build slot is not shared. Where a key meets a request with room for it, it is one
    of the call that the key is handed on for. -/
def OwnSlot : NestAction → Prop
  | .schedule m false => ∀ r ∈ s.slot m, ∀ frame ∈ s.stack.head?, ∀ c ∈ s.asker frame,
    (s.request r).begun.valueHandlerParam = c
  | _ => True

instance (a : NestAction) : Decidable (s.OwnSlot a) := by
  unfold OwnSlot
  split <;> infer_instance

/-! ## What every step keeps -/

variable {s}

/-- The calls and requests there are stay what they are, and keys are only added. -/
structure Grows (s s' : NestState) : Prop where
  calls : s.calls ≤ s'.calls
  call : ∀ c < s.calls, s'.call c = s.call c
  requests : s.requests ≤ s'.requests
  begun : ∀ r < s.requests, (s'.request r).begun = (s.request r).begun
  keys : ∀ r < s.requests, ∀ a ∈ (s.request r).keys, a ∈ (s'.request r).keys

theorem Grows.refl (s : NestState) : s.Grows s :=
  ⟨Nat.le_refl _, fun _ _ => rfl, Nat.le_refl _, fun _ _ => rfl, fun _ _ _ => id⟩

theorem Grows.handlers {s' : NestState} (h : s.Grows s') {c : Nat} (hc : c < s.calls) :
    s'.handlers c = s.handlers c := by
  unfold NestState.handlers
  rw [h.call c hc]

/-- The key is one of the call. -/
def Asks (s : NestState) (c : Nat) (key : Bytes) : Prop := c < s.calls ∧ key ∈ (s.call c).keys

theorem Asks.mono {s' : NestState} {c : Nat} {key : Bytes} (h : s.Asks c key) (hgrows : s.Grows s') :
    s'.Asks c key := by
  refine ⟨Nat.lt_of_lt_of_le h.1 hgrows.calls, ?_⟩
  rw [hgrows.call c h.1]
  exact h.2

/-- What is under way concerns calls and requests that there are, and the keys of these. -/
def Fits (s : NestState) : GetFrame → Prop
  | .getting c rest => c < s.calls ∧ ∀ key ∈ rest, s.Asks c key
  | .flushing h c _ key => s.Asks c key ∧ h = s.handlers c
  | .running _ => True
  | .pending _ => True
  | .unserialising r key => r < s.requests ∧ ∃ a ∈ (s.request r).keys, a.2 = key
  | .failingOver r c rest =>
    r < s.requests ∧ (s.request r).begun = s.handlers c ∧ c < s.calls ∧ ∀ key ∈ rest, s.Asks c key

theorem Fits.mono {s' : NestState} {frame : GetFrame} (h : s.Fits frame) (hgrows : s.Grows s') :
    s'.Fits frame := by
  cases frame with
  | getting c rest =>
    exact ⟨Nat.lt_of_lt_of_le h.1 hgrows.calls, fun key hkey => (h.2 key hkey).mono hgrows⟩
  | flushing hs c m key => exact ⟨h.1.mono hgrows, h.2.trans (hgrows.handlers h.1.1).symm⟩
  | running c => trivial
  | pending m => trivial
  | unserialising r key =>
    obtain ⟨hr, a, ha, hkey⟩ := h
    exact ⟨Nat.lt_of_lt_of_le hr hgrows.requests, a, hgrows.keys r hr a ha, hkey⟩
  | failingOver r c rest =>
    obtain ⟨hr, hbegun, hc, hrest⟩ := h
    refine ⟨Nat.lt_of_lt_of_le hr hgrows.requests, ?_, Nat.lt_of_lt_of_le hc hgrows.calls,
      fun key hkey => (hrest key hkey).mono hgrows⟩
    rw [hgrows.begun r hr, hbegun, hgrows.handlers hc]

/-- The calls, requests, slots and functions under way fit together. -/
structure Sound (s : NestState) : Prop where
  frames : ∀ frame ∈ s.stack, s.Fits frame
  slots : ∀ m, ∀ r ∈ s.slot m, r < s.requests
  begun : ∀ r < s.requests, ∃ c < s.calls, (s.request r).begun = s.handlers c
  keys : ∀ r < s.requests, ∀ a ∈ (s.request r).keys, s.Asks a.1 a.2

theorem sound_start : Sound {} where
  frames _ h := absurd h List.not_mem_nil
  slots _ _ h := nomatch h
  begun r h := absurd h (Nat.not_lt_zero r)
  keys r h := absurd h (Nat.not_lt_zero r)

/-- `Sound` is kept where the old calls and requests are, if what is new fits. -/
theorem Sound.of_grows {s' : NestState} (h : Sound s) (hgrows : s.Grows s')
    (hframes : ∀ frame ∈ s'.stack, frame ∈ s.stack ∨ s'.Fits frame)
    (hslots : ∀ m, ∀ r ∈ s'.slot m, r < s'.requests)
    (hbegun : ∀ r < s'.requests, r < s.requests ∨
      ∃ c < s'.calls, (s'.request r).begun = s'.handlers c)
    (hkeys : ∀ r < s'.requests, ∀ a ∈ (s'.request r).keys,
      (r < s.requests ∧ a ∈ (s.request r).keys) ∨ s'.Asks a.1 a.2) : Sound s' where
  frames frame hframe := by
    rcases hframes frame hframe with hold | hnew
    · exact (h.frames frame hold).mono hgrows
    · exact hnew
  slots := hslots
  begun r hr := by
    rcases hbegun r hr with hold | hnew
    · obtain ⟨c, hc, hbegun⟩ := h.begun r hold
      refine ⟨c, Nat.lt_of_lt_of_le hc hgrows.calls, ?_⟩
      rw [hgrows.begun r hold, hbegun, hgrows.handlers hc]
    · exact hnew
  keys r hr a ha := by
    rcases hkeys r hr a ha with ⟨hold, hmem⟩ | hnew
    · exact (h.keys r hold a hmem).mono hgrows
    · exact hnew

theorem Sound.withStack (h : Sound s) {stack : List GetFrame} (hframes : ∀ frame ∈ stack, s.Fits frame) :
    Sound { s with stack } := ⟨hframes, h.slots, h.begun, h.keys⟩

theorem Sound.push (h : Sound s) (frame : GetFrame) (hframe : s.Fits frame) : Sound (s.push frame) := by
  refine h.withStack ?_
  intro frame' hmem
  rcases List.mem_cons.mp hmem with rfl | hold
  · exact hframe
  · exact h.frames frame' hold

theorem Sound.clear (h : Sound s) (m : Mmc) : Sound (s.clear m) where
  frames := h.frames
  slots m' r hr := by
    by_cases hm : m' = m
    · subst hm
      simp [NestState.clear] at hr
    · exact h.slots m' r (by simpa [NestState.clear, Function.update_of_ne hm] using hr)
  begun := h.begun
  keys := h.keys

/-- A step may add a key that its own call asks for to a new request, or a key of call `c` to request
    `r`, where `reuses r c`. What it delivers comes from a request. -/
structure Moves (s s' : NestState) (reuses : ReqId → Nat → Prop) : Prop extends Grows s s' where
  sound : Sound s'
  added : ∀ r < s'.requests, ∀ a ∈ (s'.request r).keys,
    (r < s.requests ∧ a ∈ (s.request r).keys) ∨ (s'.request r).begun = s'.handlers a.1 ∨
      (r < s.requests ∧ reuses r a.1)
  delivered : ∀ d ∈ s'.delivered, d ∈ s.delivered ∨
    ∃ r < s.requests, ∃ a ∈ (s.request r).keys, d = ((s.request r).begun.valueHandlerParam, a.2)

variable {reuses : ReqId → Nat → Prop}

/-- A step that adds and delivers nothing. -/
theorem Sound.still {s' : NestState} (h : Sound s') (hcall : s'.call = s.call) (hcalls : s'.calls = s.calls)
    (hrequests : s'.requests = s.requests) (hbegun : ∀ r, (s'.request r).begun = (s.request r).begun)
    (hkeys : ∀ r, (s'.request r).keys = (s.request r).keys) (hdelivered : s'.delivered = s.delivered) :
    s.Moves s' reuses where
  calls := Nat.le_of_eq hcalls.symm
  call c _ := by rw [hcall]
  requests := Nat.le_of_eq hrequests.symm
  begun r _ := hbegun r
  keys r _ a ha := by rwa [hkeys]
  sound := h
  added r hr a ha := Or.inl ⟨by rwa [← hrequests], by rwa [← hkeys]⟩
  delivered d hd := Or.inl (by rwa [← hdelivered])

theorem markScheduled_request (s : NestState) (r r' : ReqId) :
    ((s.markScheduled r).request r').begun = (s.request r').begun ∧
      ((s.markScheduled r).request r').keys = (s.request r').keys := by
  by_cases hr : r' = r
  · subst hr
    simp [NestState.markScheduled]
  · simp [NestState.markScheduled, Function.update_of_ne hr]

theorem Sound.markScheduled (h : Sound s) (r : ReqId) : Sound (s.markScheduled r) := by
  have hgrows : s.Grows (s.markScheduled r) :=
    ⟨Nat.le_refl _, fun _ _ => rfl, Nat.le_refl _, fun r' _ => (markScheduled_request s r r').1,
      fun r' _ a ha => by rwa [(markScheduled_request s r r').2]⟩
  refine h.of_grows hgrows (fun _ => Or.inl) h.slots (fun r' hr' => Or.inl hr') fun r' hr' a ha => ?_
  rw [(markScheduled_request s r r').2] at ha
  exact Or.inl ⟨hr', ha⟩

section NewRequest

variable (hs : GetHandlers) (c : Nat) (key : Bytes) (scheduled : Bool)

theorem newRequest_old {r : ReqId} (hr : r < s.requests) :
    (s.newRequest hs c key scheduled).request r = s.request r :=
  Function.update_of_ne (Nat.ne_of_lt hr) _ _

theorem newRequest_new :
    (s.newRequest hs c key scheduled).request s.requests
      = { begun := hs, keys := [(c, key)], scheduled } := Function.update_self _ _ _

theorem grows_newRequest : s.Grows (s.newRequest hs c key scheduled) := by
  refine ⟨Nat.le_refl _, fun _ _ => rfl, Nat.le_succ _, ?_, ?_⟩
  · intro r hr
    rw [newRequest_old hs c key scheduled hr]
  · intro r hr a ha
    rwa [newRequest_old hs c key scheduled hr]

/-- A new request for a key of its own call. -/
theorem Sound.newRequest (h : Sound s) (hasks : s.Asks c key) (hhandlers : hs = s.handlers c) :
    s.Moves (s.newRequest hs c key scheduled) reuses := by
  have hgrows := grows_newRequest (s := s) hs c key scheduled
  have hnew : ∀ r < s.requests + 1, r < s.requests ∨ r = s.requests := by
    intro r hr
    exact Nat.lt_or_eq_of_le (Nat.lt_succ_iff.mp hr)
  refine { hgrows with sound := ?_, added := ?_, delivered := fun d hd => Or.inl hd }
  · refine h.of_grows hgrows (fun _ => Or.inl) (fun m r hr => Nat.lt_succ_of_lt (h.slots m r hr)) ?_ ?_
    · intro r hr
      refine (hnew r hr).imp_right ?_
      rintro rfl
      rw [newRequest_new]
      exact ⟨c, hasks.1, hhandlers⟩
    · intro r hr a ha
      rcases hnew r hr with hold | rfl
      · rw [newRequest_old hs c key scheduled hold] at ha
        exact Or.inl ⟨hold, ha⟩
      · rw [newRequest_new] at ha
        cases List.mem_singleton.mp ha
        exact Or.inr hasks
  · intro r hr a ha
    rcases hnew r hr with hold | rfl
    · rw [newRequest_old hs c key scheduled hold] at ha
      exact Or.inl ⟨hold, ha⟩
    · rw [newRequest_new] at ha ⊢
      cases List.mem_singleton.mp ha
      exact Or.inr (Or.inl hhandlers)

theorem Sound.build (h : Sound s) (m : Mmc) (hasks : s.Asks c key) (hhandlers : hs = s.handlers c) :
    s.Moves (s.build hs c m key) reuses := by
  have hmoves : s.Moves (s.newRequest hs c key false) reuses := h.newRequest hs c key false hasks hhandlers
  refine { hmoves with sound := ⟨hmoves.sound.frames, ?_, hmoves.sound.begun, hmoves.sound.keys⟩ }
  intro m' r hr
  by_cases hm : m' = m
  · subst hm
    dsimp only [NestState.build] at hr
    rw [Function.update_self] at hr
    cases hr
    exact Nat.lt_succ_self _
  · dsimp only [NestState.build] at hr
    rw [Function.update_of_ne hm] at hr
    exact Nat.lt_succ_of_lt (h.slots m' r hr)

end NewRequest

theorem append_request (s : NestState) (r : ReqId) (c : Nat) (key : Bytes) (r' : ReqId) :
    ((s.append r c key).request r').begun = (s.request r').begun ∧
      ((s.append r c key).request r').keys
        = (s.request r').keys ++ if r' = r then [(c, key)] else [] := by
  by_cases hr : r' = r
  · subst hr
    simp [NestState.append]
  · simp [NestState.append, hr]

/-- A key is added to the request in the slot. -/
theorem Sound.append (h : Sound s) {r : ReqId} {c : Nat} {key : Bytes} (hr : r < s.requests)
    (hasks : s.Asks c key) (hreuses : reuses r c) : s.Moves (s.append r c key) reuses := by
  have hgrows : s.Grows (s.append r c key) := by
    refine ⟨Nat.le_refl _, fun _ _ => rfl, Nat.le_refl _,
      fun r' _ => (append_request s r c key r').1, fun r' _ a ha => ?_⟩
    rw [(append_request s r c key r').2]
    exact List.mem_append_left _ ha
  have hkeys : ∀ r', ∀ a ∈ ((s.append r c key).request r').keys,
      a ∈ (s.request r').keys ∨ (r' = r ∧ a = (c, key)) := by
    intro r' a ha
    rw [(append_request s r c key r').2, List.mem_append] at ha
    refine ha.imp_right fun hnew => ?_
    split at hnew
    · next heq => exact ⟨heq, List.mem_singleton.mp hnew⟩
    · cases hnew
  refine { hgrows with sound := ?_, added := ?_, delivered := fun d hd => Or.inl hd }
  · refine h.of_grows hgrows (fun _ => Or.inl) h.slots (fun r' hr' => Or.inl hr') ?_
    intro r' hr' a ha
    rcases hkeys r' a ha with hold | ⟨-, rfl⟩
    · exact Or.inl ⟨hr', hold⟩
    · exact Or.inr hasks
  · intro r' hr' a ha
    rcases hkeys r' a ha with hold | ⟨rfl, rfl⟩
    · exact Or.inl ⟨hr', hold⟩
    · exact Or.inr (Or.inr ⟨hr, hreuses⟩)

/-- `mmc_pool_schedule_get` uses the request in the slot if it has room, and begins a new one for the
    call otherwise. -/
theorem Sound.scheduleGet (h : Sound s) {hs : GetHandlers} {c : Nat} {m : Mmc} {key : Bytes}
    {full : Bool} (hasks : s.Asks c key) (hhandlers : hs = s.handlers c)
    (hreuses : full = false → ∀ r ∈ s.slot m, reuses r c) :
    s.Moves (s.scheduleGet hs c m key full) reuses := by
  unfold NestState.scheduleGet
  cases hslot : s.slot m with
  | none =>
    have hpending : Sound { s with pending := mmcQueuePush s.pending m } :=
      ⟨h.frames, h.slots, h.begun, h.keys⟩
    have hbuild : NestState.Moves { s with pending := mmcQueuePush s.pending m } _ reuses :=
      hpending.build hs c key m hasks hhandlers
    exact { hbuild with sound := hbuild.sound, added := hbuild.added, delivered := hbuild.delivered }
  | some r =>
    cases full with
    | true =>
      have hmark := h.markScheduled r
      have hpush : Sound ((s.markScheduled r).push (.flushing hs c m key)) :=
        hmark.push _ ⟨hasks, hhandlers⟩
      exact hpush.still rfl rfl rfl (fun r' => (markScheduled_request s r r').1)
        (fun r' => (markScheduled_request s r r').2) rfl
    | false => exact h.append (h.slots m r hslot) hasks (hreuses rfl r hslot)

theorem Sound.begin (h : Sound s) (call : GetCall) : s.Moves (s.begin call) reuses := by
  have hgrows : s.Grows (s.begin call) :=
    ⟨Nat.le_succ _, fun c hc => Function.update_of_ne (Nat.ne_of_lt hc) _ _, Nat.le_refl _,
      fun _ _ => rfl, fun _ _ _ => id⟩
  have hnew : (s.begin call).call s.calls = call := Function.update_self _ _ _
  refine { hgrows with
    sound := ?_, added := fun r hr a ha => Or.inl ⟨hr, ha⟩, delivered := fun d hd => Or.inl hd }
  refine h.of_grows hgrows ?_ h.slots (fun r hr => Or.inl hr) fun r hr a ha => Or.inl ⟨hr, ha⟩
  intro frame hframe
  rcases List.mem_cons.mp hframe with rfl | hold
  · refine Or.inr ⟨Nat.lt_succ_self _, fun key hkey => ⟨Nat.lt_succ_self _, ?_⟩⟩
    rwa [hnew]
  · exact Or.inl hold

/-- A step hands on a key of call `c`, whose server's slot holds request `r` with room for it. -/
def Reuses (s : NestState) (a : NestAction) (r : ReqId) (c : Nat) : Prop :=
  ∃ m, a = .schedule m false ∧ r ∈ s.slot m ∧ ∃ frame ∈ s.stack.head?, c ∈ s.asker frame

theorem OwnSlot.param {a : NestAction} (h : s.OwnSlot a) {r : ReqId} {c : Nat} (hreuses : s.Reuses a r c) :
    (s.request r).begun.valueHandlerParam = c := by
  obtain ⟨m, rfl, hslot, frame, hframe, hc⟩ := hreuses
  exact h r hslot frame hframe c hc

/-- What a failover passes on is what the call passed on. -/
theorem failoverHandlers_eq {r : ReqId} {c : Nat} (hbegun : (s.request r).begun = s.handlers c) :
    s.failoverHandlers r c = s.handlers c := by
  unfold failoverHandlers NestState.handlers at *
  rw [hbegun]
  split <;> rfl

theorem handlers_param (s : NestState) (c : Nat) : (s.handlers c).valueHandlerParam = c := by
  unfold NestState.handlers
  split <;> rfl

theorem call_of_failover {c c' : Nat} (h : (s.handlers c).failoverHandler = .value c') : c = c' := by
  unfold NestState.handlers at h
  split at h
  · exact FailoverHandler.value.inj h
  · cases h

theorem Moves.of_stack {s' : NestState} {stack : List GetFrame}
    (h : NestState.Moves { s with stack } s' reuses) : s.Moves s' reuses :=
  { h with sound := h.sound, added := h.added, delivered := h.delivered }

/-- **What a step of the innermost function does.** -/
theorem Sound.performAt (h : Sound s) {a : NestAction} {frame : GetFrame} {rest : List GetFrame}
    (hstack : s.stack = frame :: rest) {s' : NestState} (hstep : s.performAt a frame rest = some s') :
    s.Moves s' (s.Reuses a) := by
  have hfit : s.Fits frame := h.frames frame (by simp [hstack])
  have hrest : ∀ frame' ∈ rest, s.Fits frame' :=
    fun frame' hmem => h.frames frame' (by simp [hstack, hmem])
  -- the innermost function goes on, or returns
  have hturn : ∀ frame', s.Fits frame' → Sound { s with stack := frame' :: rest } := by
    intro frame' hframe'
    refine h.withStack fun frame'' hmem => ?_
    rcases List.mem_cons.mp hmem with rfl | hold
    · exact hframe'
    · exact hrest frame'' hold
  have hleave : Sound { s with stack := rest } := h.withStack hrest
  have hasker : ∀ {m : Mmc} {full : Bool} {c : Nat}, a = .schedule m full → c ∈ s.asker frame →
      full = false → ∀ r ∈ s.slot m, s.Reuses a r c := by
    rintro m full c rfl hc rfl r hr
    exact ⟨m, rfl, hr, frame, by simp [hstack], hc⟩
  unfold NestState.performAt at hstep
  split at hstep
  · -- a key of the call is skipped
    cases hstep
    exact (hturn (.getting _ _) ⟨hfit.1, fun key hkey => hfit.2 key (List.mem_cons_of_mem _ hkey)⟩).still
      rfl rfl rfl (fun _ => rfl) (fun _ => rfl) rfl
  · -- a key of a failover is skipped
    obtain ⟨hr, hbegun, hc, hkeys⟩ := hfit
    cases hstep
    exact (hturn (.failingOver _ _ _)
      ⟨hr, hbegun, hc, fun key hkey => hkeys key (List.mem_cons_of_mem _ hkey)⟩).still
      rfl rfl rfl (fun _ => rfl) (fun _ => rfl) rfl
  · next m full c key keys =>
    have hasks : s.Asks c key := hfit.2 key List.mem_cons_self
    have hnext := hturn (.getting c keys)
      ⟨hfit.1, fun key' hkey' => hfit.2 key' (List.mem_cons_of_mem _ hkey')⟩
    dsimp only at hstep
    split at hstep
    · next harray =>
      cases hstep
      have hc : c ∈ s.asker (.getting c (key :: keys)) := by simp [asker, harray]
      exact (hnext.scheduleGet hasks rfl (hasker rfl hc)).of_stack
    · cases hstep
      exact (hnext.newRequest _ _ _ true hasks rfl).of_stack
  · next m full r c key keys =>
    obtain ⟨hr, hbegun, hcall, hkeys⟩ := hfit
    have hasks : s.Asks c key := hkeys key List.mem_cons_self
    have hnext := hturn (.failingOver r c keys)
      ⟨hr, hbegun, hcall, fun key' hkey' => hkeys key' (List.mem_cons_of_mem _ hkey')⟩
    cases hstep
    exact (hnext.scheduleGet hasks (failoverHandlers_eq hbegun) (hasker rfl rfl)).of_stack
  · -- the datagram is delivered, and the key begins the next one
    cases hstep
    exact (hleave.build _ _ _ _ hfit.1 hfit.2).of_stack
  · cases hstep
    exact (hturn (.running _) trivial).still rfl rfl rfl (fun _ => rfl) (fun _ => rfl) rfl
  · split at hstep
    · cases hstep
    · split at hstep
      · cases hstep
      · next m ms _ _ r hslot =>
        cases hstep
        have hpending : Sound { s with pending := ms } := ⟨h.frames, h.slots, h.begun, h.keys⟩
        exact ((hpending.markScheduled r).push (.pending m) trivial).still rfl rfl rfl
          (fun r' => (markScheduled_request s r r').1) (fun r' => (markScheduled_request s r r').2) rfl
  · cases hstep
    exact (hleave.clear _).still rfl rfl rfl (fun _ => rfl) (fun _ => rfl) rfl
  · split at hstep
    · next hvalue =>
      obtain ⟨-, hr, -, hkey⟩ := hvalue
      cases hstep
      exact (h.push (.unserialising _ _) ⟨hr, List.mem_map.mp hkey⟩).still rfl rfl rfl
        (fun _ => rfl) (fun _ => rfl) rfl
    · cases hstep
  · -- the value goes to the parameter of the request
    next r key =>
    obtain ⟨hr, a, ha, rfl⟩ := hfit
    cases hstep
    have hsound : Sound { s with
        stack := rest
        delivered := ((s.request r).begun.valueHandlerParam, a.2) :: s.delivered } :=
      ⟨hleave.frames, hleave.slots, hleave.begun, hleave.keys⟩
    refine { Grows.refl s with
      sound := hsound, added := fun r' hr' a' ha' => Or.inl ⟨hr', ha'⟩, delivered := ?_ }
    intro d hd
    rcases List.mem_cons.mp hd with rfl | hold
    · exact Or.inr ⟨r, hr, a, ha, rfl⟩
    · exact Or.inl hold
  · split at hstep
    · cases hstep
      exact (h.clear _).still rfl rfl rfl (fun _ => rfl) (fun _ => rfl) rfl
    · cases hstep
  · next r =>
    split at hstep
    · next hready =>
      obtain ⟨-, hr⟩ := hready
      split at hstep
      · next c hhandler =>
        cases hstep
        obtain ⟨c', hc, hbegun⟩ := h.begun r hr
        rw [hbegun] at hhandler
        obtain rfl : c' = c := call_of_failover hhandler
        exact (h.push (.failingOver r c' (s.call c').keys)
          ⟨hr, hbegun, hc, fun key hkey => ⟨hc, hkey⟩⟩).still rfl rfl rfl
          (fun _ => rfl) (fun _ => rfl) rfl
      · cases hstep
        exact h.still rfl rfl rfl (fun _ => rfl) (fun _ => rfl) rfl
    · cases hstep
  · cases hstep
    exact hleave.still rfl rfl rfl (fun _ => rfl) (fun _ => rfl) rfl
  · cases hstep
    exact hleave.still rfl rfl rfl (fun _ => rfl) (fun _ => rfl) rfl
  · cases hstep

theorem Sound.perform (h : Sound s) {a : NestAction} {s' : NestState} (hstep : s.perform a = some s') :
    s.Moves s' (s.Reuses a) := by
  unfold NestState.perform at hstep
  split at hstep
  · cases hstep
    exact h.begin _
  · cases hstep
  · next hstack => exact h.performAt hstack hstep

/-! ## Runs -/

/-- A step that uses the slot of its own call only. -/
theorem ResultsGoToAsker.perform (h : s.ResultsGoToAsker) (hsound : Sound s) {a : NestAction}
    (hown : s.OwnSlot a) {s' : NestState} (hstep : s.perform a = some s') : s'.ResultsGoToAsker := by
  have hmoves := hsound.perform hstep
  refine ⟨?_, ?_⟩
  · intro r hr b hb
    rcases hmoves.added r hr b hb with ⟨hold, hmem⟩ | hnew | ⟨hold, hreuses⟩
    · have hasks := hsound.keys r hold b hmem
      rw [hmoves.begun r hold, h.appended r hold b hmem, hmoves.handlers hasks.1]
    · exact hnew
    · -- the request was begun by the call that its parameter leads to
      obtain ⟨c, hc, hbegun⟩ := hsound.begun r hold
      have hparam := hown.param hreuses
      rw [hbegun, handlers_param] at hparam
      subst hparam
      rw [hmoves.begun r hold, hbegun, hmoves.handlers hc]
  · intro d hd
    rcases hmoves.delivered d hd with hold | ⟨r, hr, b, hb, rfl⟩
    · exact Asks.mono (h.delivered d hold) hmoves.toGrows
    · have hasks := (hsound.keys r hr b hb).mono hmoves.toGrows
      rw [h.appended r hr b hb, handlers_param]
      exact hasks

/-- A key is in a request that was begun with something else than its call passes on. -/
def Misplaced (s : NestState) : Prop :=
  ∃ r < s.requests, ∃ a ∈ (s.request r).keys, (s.request r).begun ≠ s.handlers a.1

theorem Misplaced.perform (h : Misplaced s) (hsound : Sound s) {a : NestAction} {s' : NestState}
    (hstep : s.perform a = some s') : Misplaced s' := by
  obtain ⟨r, hr, b, hb, hne⟩ := h
  have hmoves := hsound.perform hstep
  refine ⟨r, Nat.lt_of_lt_of_le hr hmoves.requests, b, hmoves.keys r hr b hb, ?_⟩
  rwa [hmoves.begun r hr, hmoves.handlers (hsound.keys r hr b hb).1]

theorem exists_reuses_of_not_ownSlot {a : NestAction} (hnot : ¬s.OwnSlot a) :
    ∃ r c, s.Reuses a r c ∧ (s.request r).begun.valueHandlerParam ≠ c := by
  unfold OwnSlot at hnot
  split at hnot
  · next m =>
    push Not at hnot
    obtain ⟨r, hr, frame, hframe, c, hc, hne⟩ := hnot
    exact ⟨r, c, ⟨m, rfl, hr, frame, hframe, hc⟩, hne⟩
  · exact absurd trivial hnot

/-- The key that meets a request with room is appended to it. -/
theorem Reuses.appended {a : NestAction} {r : ReqId} {c : Nat} (h : s.Reuses a r c) {s' : NestState}
    (hstep : s.perform a = some s') : ∃ key, (c, key) ∈ (s'.request r).keys := by
  obtain ⟨m, rfl, hslot, frame, hframe, hc⟩ := h
  obtain ⟨rest, hstack⟩ := List.head?_eq_some_iff.mp hframe
  have hreused : ∀ (hs : GetHandlers) (key : Bytes) (stack : List GetFrame),
      (c, key) ∈ ((NestState.scheduleGet { s with stack } hs c m key false).request r).keys := by
    intro hs key stack
    have hadd := (append_request { s with stack } r c key r).2
    rw [if_pos rfl] at hadd
    unfold NestState.scheduleGet
    rw [show s.slot m = some r from hslot]
    dsimp only
    rw [if_neg Bool.false_ne_true, hadd]
    exact List.mem_append_right _ List.mem_cons_self
  unfold NestState.perform at hstep
  rw [hstack] at hstep
  unfold asker at hc
  split at hc
  · next c' key keys =>
    split at hc
    · next harray =>
      cases hc
      have harray' : (s.call c).array = true := harray
      simp only [performAt, harray', if_true, Option.some.injEq] at hstep
      subst hstep
      exact ⟨key, hreused _ key _⟩
    · cases hc
  · next r' c' key keys =>
    cases hc
    simp only [performAt, Option.some.injEq] at hstep
    subst hstep
    exact ⟨key, hreused _ key _⟩
  · cases hc

/-- A key of another call ends up in the request. -/
theorem misplaced_of_not_ownSlot (hsound : Sound s) {a : NestAction} (hnot : ¬s.OwnSlot a)
    {s' : NestState} (hstep : s.perform a = some s') : Misplaced s' := by
  obtain ⟨r, c, hreuses, hne⟩ := exists_reuses_of_not_ownSlot hnot
  obtain ⟨key, hkey⟩ := hreuses.appended hstep
  have hr : r < s.requests := by
    obtain ⟨m, -, hslot, -⟩ := hreuses
    exact hsound.slots m r hslot
  have hmoves := hsound.perform hstep
  refine ⟨r, Nat.lt_of_lt_of_le hr hmoves.requests, (c, key), hkey, ?_⟩
  rw [hmoves.begun r hr]
  intro hbegun
  exact hne ((congrArg GetHandlers.valueHandlerParam hbegun).trans (handlers_param s' c))

/-- **Results go to the call that asked** in exactly the runs in which no build slot is shared: every
    key is in a request begun with the same command, handlers and parameter, and every value was
    delivered to a call that has the key. -/
theorem resultsGoToAsker_iff_ownSlot {actions : List NestAction} {s : NestState}
    (hrun : performAll perform actions {} = some s) :
    s.ResultsGoToAsker ↔ Obeys perform OwnSlot actions {} := by
  constructor
  · intro hasker
    by_contra hnot
    obtain ⟨r, hr, a, ha, hne⟩ := @damaged_performAll _ _ perform OwnSlot Sound Misplaced
      (fun s a s' h hstep => (h.perform hstep).sound)
      (fun s a s' h hbad hstep => misplaced_of_not_ownSlot h hbad hstep)
      (fun s a s' h hbad hstep => hbad.perform h hstep) actions {} s sound_start hnot hrun
    exact hne (hasker.appended r hr a ha)
  · intro hobeys
    have hstart : ResultsGoToAsker {} :=
      ⟨fun r hr => absurd hr (Nat.not_lt_zero r), fun d hd => absurd hd List.not_mem_nil⟩
    have hstep : ∀ (s : NestState) a s', Sound s ∧ s.ResultsGoToAsker → s.OwnSlot a →
        s.perform a = some s' → Sound s' ∧ s'.ResultsGoToAsker :=
      fun s a s' h hown hstep => ⟨(h.1.perform hstep).sound, h.2.perform h.1 hown hstep⟩
    exact (invariant_performAll hstep ⟨sound_start, hstart⟩ hobeys hrun).2

/-- A get for two keys; while its requests are sent, user code gets a third key, whose server had no
    request to build. -/
def separateGets : List NestAction :=
  [.get { keys := [[97], [98]] }, .schedule 0 false, .schedule 1 false, .run, .pend, .deactivate 0,
    .get { keys := [[99]] }, .schedule 2 false, .run, .pend, .cleared, .pend, .cleared, .value 2 [99],
    .handled]

theorem separateGets_goToAsker :
    ∃ s, performAll perform separateGets {} = some s ∧ s.ResultsGoToAsker := by
  have hobeys : Obeys perform OwnSlot separateGets {} := by decide
  exact ⟨_, rfl, (resultsGoToAsker_iff_ownSlot rfl).mpr hobeys⟩

/-- The same, with the third key on the server of the second: its value goes to the outer call. -/
def sharedSlot : List NestAction :=
  [.get { keys := [[97], [98]] }, .schedule 0 false, .schedule 1 false, .run, .pend, .deactivate 0,
    .get { keys := [[99]] }, .schedule 1 false, .run, .pend, .cleared, .value 1 [99], .handled]

theorem sharedSlot_not_goToAsker :
    ∃ s, performAll perform sharedSlot {} = some s ∧ ¬s.ResultsGoToAsker := by
  obtain ⟨s, hrun, hdelivered, hkeys⟩ : ∃ s, performAll perform sharedSlot {} = some s ∧
      s.delivered = [(0, [99])] ∧ (s.call 0).keys = [[97], [98]] := ⟨_, rfl, rfl, rfl⟩
  refine ⟨s, hrun, fun h => ?_⟩
  have hkey := (h.delivered (0, [99]) (by simp [hdelivered])).2
  rw [hkeys] at hkey
  exact absurd hkey (by decide)

end NestState

end PeclMemcache
