import PeclMemcache.ConsistentHash
import PeclMemcache.Transport
import PeclMemcache.Operations
import PeclMemcache.Machines

set_option autoImplicit false

/-! # Authentication

`php_mmc_pool_addserver` makes an authentication request for the server it adds, and schedules it by its
key, like any other request. The key has the length zero, so the server depends on the hash ring. -/

namespace PeclMemcache

open Stateful Machines

/-! ## Hash strategies -/

/-- `mmc_hash_strategy_t`. What a strategy computes at its first lookup is a part of `findServer`. -/
structure HashStrategy where
  State : Type
  createState : State
  addServer : State → AddedServer → Nat → State
  findServer : State → Bytes → Mmc

/-- `mmc_standard_state_t`; `num_buckets` is the length of `buckets`. -/
structure MmcStandardState where
  numServers : Nat := 0
  buckets : List Mmc := []

/-- `mmc_standard_find_server`. -/
def mmcStandardFindServer (hash : MmcHashFunction) (state : MmcStandardState) (key : Bytes) : Mmc :=
  if 1 < state.numServers then
    let hash := ((mmcHash hash key).toNat / 2 ^ 16) % 2 ^ 15
    state.buckets.getD ((if hash = 0 then 1 else hash) % state.buckets.length) 0
  else state.buckets.getD 0 0

/-- `mmc_standard_add_server`. -/
def mmcStandardAddServer (state : MmcStandardState) (s : AddedServer) (weight : Nat) :
    MmcStandardState where
  numServers := state.numServers + 1
  buckets := state.buckets ++ List.replicate weight s.mmc

/-- `mmc_standard_hash`. -/
def mmcStandardHash (hash : MmcHashFunction) : HashStrategy where
  State := MmcStandardState
  createState := {}
  addServer := mmcStandardAddServer
  findServer := mmcStandardFindServer hash

/-- `mmc_hash_fnv1a`; a `char` has a sign. -/
def mmcHashFnv1a : MmcHashFunction where
  init := 0x811c9dc5
  combine seed key := key.foldl (fun seed c =>
    (seed ^^^ (if c < 128 then c.toUInt32 else c.toUInt32 ||| 0xffffff00)) * 0x01000193) seed
  finish seed := seed

/-! ## Adding servers -/

/-- A call of `addServer`. `found` is what `mmc_find_persistent` or `mmc_server_new` gives for the address,
    and without `status` the server is added in failed mode. The points of the server are counted in
    an `int`. -/
structure AddServerCall where
  server : AddedServer
  weight : Nat
  fits : weight * MMC_CONSISTENT_POINTS < 2 ^ 31
  found : MmcServer
  status : Bool := true
  user : Bytes := []
  password : Bytes := []

/-- A call on an object with credentials. -/
structure AuthCall extends AddServerCall where
  userLong : 1 < user.length
  passwordLong : 1 < password.length

/-- The server as it is added. -/
def AddServerCall.record (call : AddServerCall) : MmcServer :=
  if call.status then call.found
  else { call.found with
    tcp := { call.found.tcp with status := .failed }
    udp := { call.found.udp with status := .failed } }

variable (E : Env)

/-- `mmc_pool_find`. The hash strategy is given as many bytes as the length says, and `sprintf` the
    bytes before the NUL. -/
def mmcPoolFindSized (key : Bytes) (keyLen : Nat) : PoolM Mmc := do
  let m := (← getPool).findServer (key.take keyLen)
  let valid ← mmcServerValid E m
  if !valid && E.allowFailover then findValidFrom E key E.maxFailoverAttempts 0 else return m

/-- `mmc_pool_schedule_key`. -/
def mmcPoolScheduleKeySized (fh : Failover) (key : Bytes) (keyLen : Nat) (r : ReqId)
    (redundancy : Nat) : PoolM MmcResult := do
  let m ← mmcPoolFindSized E key keyLen
  let result ← mmcPoolSchedule E fh m r
  doWhen (1 < redundancy) do
    let servers := (← getPool).servers.length
    scheduleCopies E fh key r (min (redundancy - 1) (servers - 1)) m [] 0
  return result

/-- A key of its own length is found and scheduled as other keys are. -/
theorem mmcPoolScheduleKeySized_length (fh : Failover) (key : Bytes) (r : ReqId) (redundancy : Nat) :
    mmcPoolScheduleKeySized E fh key key.length r redundancy
      = mmcPoolScheduleKey E fh key r redundancy := by
  rw [mmcPoolScheduleKeySized, mmcPoolScheduleKey, mmcPoolFindSized, mmcPoolFind, List.take_length]

/-- The new server in the pool and in the hash state, whose lookup is now `find`. -/
def mmcPoolAdd (find : Bytes → Mmc) (m : Mmc) : PoolM Unit :=
  modifyPool fun p => { p with findServer := find, servers := p.servers ++ [m] }

/-- `php_mmc_pool_addserver` from where it has the server; `find` is the lookup of the hash state with
    the server in it. -/
def phpMmcPoolAddserver (fh : Failover) (find : Bytes → Mmc) (call : AddServerCall) :
    PoolM (Option Mmc) := do
  let m := call.server.mmc
  modifyMmc m fun _ => call.record
  mmcPoolAdd find m
  if (← getPool).protocol = .binary ∧ 1 < call.user.length ∧ 1 < call.password.length then
    let r ← mmcPoolRequest E .tcp .stored 0 .pool
    modifyReq r fun q => mmcSetSaslAuthData q (cString call.user) (cString call.password)
    step E .saslAuth
    let q ← getReq r
    let result ← mmcPoolScheduleKeySized E fh q.key q.keyLen r E.redundancy
    if result ≠ .ok then return none else return some m
  else return some m

/-- The hash state and the world, and the calls that have added a server. -/
structure AddServerState (H : HashStrategy) where
  hash : H.State := H.createState
  world : World
  added : List AuthCall := []

/-- The arguments are accepted. -/
def AddServerCall.accepted (call : AddServerCall) : Prop :=
  1 ≤ call.weight ∧ call.server.port ≤ 65635

instance (call : AddServerCall) : Decidable call.accepted := by
  unfold AddServerCall.accepted
  infer_instance

variable {H : HashStrategy}

/-- A call with credentials. -/
def AddServerState.perform (fh : Failover) (s : AddServerState H) (call : AuthCall) :
    Option (AddServerState H) :=
  if call.accepted then
    let hash := H.addServer s.hash call.server call.weight
    match phpMmcPoolAddserver E fh (H.findServer hash) call.toAddServerCall s.world with
    | (.ok _, world) => some { hash, world, added := s.added ++ [call] }
    | (.error _, _) => none
  else some s

/-! ## Authentication -/

/-- The request is the authentication request of the call, and nothing of it was sent. -/
def AddServerCall.Made (call : AddServerCall) (q : MmcRequest) : Prop :=
  q.sendbuf = (mmcSetSaslAuthData {} (cString call.user) (cString call.password)).sendbuf

/-- **Every server gets authenticated**: what is to be sent to it is the authentication request of the
    call that has added it, first and once, and it is another one for each server. -/
structure AddServerState.Authenticated (s : AddServerState H) : Prop where
  servers : s.world.pool.servers = s.added.map (·.server.mmc)
  line : ∀ call ∈ s.added, ∃ r, (s.world.mmc call.server.mmc).sendLine = [r] ∧
    (s.world.mmc call.server.mmc).readLine = [r] ∧ call.Made (s.world.req r)
  own : ∀ m ∈ s.world.pool.servers, ∀ m' ∈ s.world.pool.servers, ∀ r ∈ (s.world.mmc m).sendLine,
    r ∈ (s.world.mmc m').sendLine → m = m'

/-! ## The condition -/

/-- A server that has failed may be tried again. -/
def MmcServer.Due (s : MmcServer) (time : Int) : Prop :=
  0 ≤ s.tcp.retryInterval ∧ s.tcp.failed + s.tcp.retryInterval ≤ time

/-- The server is valid when `mmc_pool_schedule` asks, and its stream can be opened then. -/
def Schedulable (tick : Nat) (s : MmcServer) : Prop :=
  if s.tcp.status = .failed then s.Due (E.time tick) ∧ E.connect (tick + 1) ≠ none
  else s.tcp.needsConnect → E.connect tick ≠ none

/-- It is valid when it is looked up, too. -/
def Usable (tick : Nat) (s : MmcServer) : Prop :=
  if s.tcp.status = .failed then s.Due (E.time tick) ∧ Schedulable E (tick + 1) s
  else Schedulable E tick s

/-- The server is never valid. -/
def Down (s : MmcServer) : Prop := s.tcp.status = .failed ∧ ∀ tick, ¬s.Due (E.time tick)

/-- `"PLAIN"`. -/
def plainKey : Bytes := bytes ['P', 'L', 'A', 'I', 'N']

/-- The condition. The server is new to the pool and no command waits on it; with the server in it, the
    hash strategy finds it for the empty key; it can be used; and no server that is chosen for a copy,
    where there are such, is valid. -/
def AddServerState.Careful (s : AddServerState H) (call : AuthCall) : Prop :=
  call.accepted →
    let m := call.server.mmc
    let find := H.findServer (H.addServer s.hash call.server call.weight)
    m ∉ s.world.pool.servers ∧ call.found.Idle ∧ find [] = m ∧ Usable E s.world.tick call.record ∧
      ∀ t ∈ copyTargets find E.maxFailoverAttempts plainKey
        (min (E.redundancy - 1) s.world.pool.servers.length) m [] 0,
        Down E (Function.update s.world.mmc m call.record t)

/-! ## Looking a server up -/

/-- Nothing has happened but time. -/
structure Later (w w' : World) : Prop where
  mmc : w'.mmc = w.mmc
  req : w'.req = w.req
  pool : w'.pool = w.pool
  nextReq : w'.nextReq = w.nextReq

theorem Later.refl (w : World) : Later w w := ⟨rfl, rfl, rfl, rfl⟩

theorem Later.trans {w w' w'' : World} (h : Later w w') (h' : Later w' w'') : Later w w'' :=
  ⟨h'.mmc.trans h.mmc, h'.req.trans h.req, h'.pool.trans h.pool, h'.nextReq.trans h.nextReq⟩

variable {E} {X : World → Prop} {w : World} {m : Mmc} {r : ReqId}

theorem wp_mmcServerValid_up {Q : Bool → World → Prop} (h : (w.mmc m).tcp.status ≠ .failed) :
    wp (mmcServerValid E m) Q X w ↔ Q true w := by
  rw [mmcServerValid, wp_bind, wp_getMmc, if_pos h, wp_pure]

theorem wp_mmcServerValid_failed {Q : Bool → World → Prop} (h : (w.mmc m).tcp.status = .failed)
    (hretry : 0 ≤ (w.mmc m).tcp.retryInterval) :
    wp (mmcServerValid E m) Q X w ↔
      Q (decide ((w.mmc m).tcp.failed + (w.mmc m).tcp.retryInterval ≤ E.time w.tick))
        { w with tick := w.tick + 1 } := by
  rw [mmcServerValid, wp_bind, wp_getMmc, if_neg (by simp [h]), if_neg (by omega), wp_bind, wp_ask, wp_pure]

/-- A server that is down is not valid. -/
theorem wp_mmcServerValid_down (h : Down E (w.mmc m)) :
    wp (mmcServerValid E m) (fun valid w' => valid = false ∧ Later w w') X w := by
  obtain ⟨hfailed, hdue⟩ := h
  by_cases hretry : 0 ≤ (w.mmc m).tcp.retryInterval
  · rw [wp_mmcServerValid_failed hfailed hretry]
    exact ⟨decide_eq_false fun htime => hdue w.tick ⟨hretry, htime⟩, rfl, rfl, rfl, rfl⟩
  · rw [mmcServerValid, wp_bind, wp_getMmc, if_neg (by simp [hfailed]), if_pos (by omega), wp_pure]
    exact ⟨rfl, Later.refl w⟩

/-- **The server of a key** that can be used is found. -/
theorem wp_mmcPoolFindSized {key : Bytes} {keyLen : Nat} (hfind : w.pool.findServer (key.take keyLen) = m)
    (h : Usable E w.tick (w.mmc m)) :
    wp (mmcPoolFindSized E key keyLen)
      (fun found w' => found = m ∧ Later w w' ∧ Schedulable E w'.tick (w.mmc m)) X w := by
  rw [mmcPoolFindSized, wp_bind, wp_getPool]
  dsimp only
  rw [hfind, wp_bind]
  unfold Usable at h
  split at h
  · rename_i hfailed
    obtain ⟨⟨hretry, hdue⟩, hthen⟩ := h
    rw [wp_mmcServerValid_failed hfailed hretry, decide_eq_true hdue]
    exact (wp_pure _ _ _ _).mpr ⟨rfl, ⟨rfl, rfl, rfl, rfl⟩, hthen⟩
  · rename_i hup
    rw [wp_mmcServerValid_up hup]
    exact (wp_pure _ _ _ _).mpr ⟨rfl, Later.refl w, h⟩

/-! ## Scheduling -/

/-- A request is the first one on a server, and nothing else has happened. -/
structure FirstOn (m : Mmc) (r : ReqId) (w w' : World) : Prop where
  sendLine : (w'.mmc m).sendLine = [r]
  readLine : (w'.mmc m).readLine = [r]
  sendbuf : (w'.req r).sendbuf = { (w.req r).sendbuf with idx := 0 }
  mmc : ∀ m' ≠ m, w'.mmc m' = w.mmc m'
  req : ∀ r' ≠ r, w'.req r' = w.req r'
  servers : w'.pool.servers = w.pool.servers
  findServer : w'.pool.findServer = w.pool.findServer
  protocol : w'.pool.protocol = w.pool.protocol
  freeRequests : w'.pool.freeRequests = w.pool.freeRequests
  nextReq : w'.nextReq = w.nextReq

/-- Time has passed before. -/
theorem Later.firstOn {m : Mmc} {r : ReqId} {w w₁ w' : World} (hlater : Later w w₁)
    (h : FirstOn m r w₁ w') : FirstOn m r w w' :=
  { h with
    sendbuf := by rw [h.sendbuf, hlater.req]
    mmc := fun m' hm' => (h.mmc m' hm').trans (congrFun hlater.mmc m')
    req := fun r' hr' => (h.req r' hr').trans (congrFun hlater.req r')
    servers := by rw [h.servers, hlater.pool]
    findServer := by rw [h.findServer, hlater.pool]
    protocol := by rw [h.protocol, hlater.pool]
    freeRequests := by rw [h.freeRequests, hlater.pool]
    nextReq := by rw [h.nextReq, hlater.nextReq] }

/-- Time passes afterwards. -/
theorem FirstOn.later {m : Mmc} {r : ReqId} {w w₁ w' : World} (h : FirstOn m r w w₁)
    (hlater : Later w₁ w') : FirstOn m r w w' where
  sendLine := by rw [hlater.mmc]; exact h.sendLine
  readLine := by rw [hlater.mmc]; exact h.readLine
  sendbuf := by rw [hlater.req]; exact h.sendbuf
  mmc := by rw [hlater.mmc]; exact h.mmc
  req := by rw [hlater.req]; exact h.req
  servers := by rw [hlater.pool]; exact h.servers
  findServer := by rw [hlater.pool]; exact h.findServer
  protocol := by rw [hlater.pool]; exact h.protocol
  freeRequests := by rw [hlater.pool]; exact h.freeRequests
  nextReq := by rw [hlater.nextReq]; exact h.nextReq

theorem MmcServer.Idle.ensureOpen {s : MmcServer} (h : s.Idle) (t : MmcProto) (c fd : Nat) :
    (s.ensureOpen t c fd).Idle := by
  unfold MmcServer.ensureOpen
  split
  · cases t <;> exact ⟨h.sendreq, h.readreq, h.buildreq, h.sendqueue, h.readqueue⟩
  · exact h

variable {fh : Failover}

/-- An idle server that is open takes a request into its send slot and its read slot. -/
theorem wp_scheduleRead_idle (hread : (w.mmc m).readreq = none) (hqueue : (w.mmc m).readqueue = []) :
    wp (scheduleRead m r) (fun result w' => result = .ok ∧ (w'.mmc m).readLine = [r] ∧
      (w'.mmc m).sendLine = (w.mmc m).sendLine ∧ (∀ m' ≠ m, w'.mmc m' = w.mmc m') ∧ w'.req = w.req ∧
      w'.nextReq = w.nextReq ∧ ∃ readingBuf, w'.pool = { w.pool with readingBuf }) X w := by
  rw [scheduleRead, wp_bind, wp_getMmc, if_pos hread]
  simp only [wp_bind, wp_modifyMmc, wp_modifyPool, MmcServer.readLine, MmcServer.sendLine]
  refine (wp_pure _ _ _ _).mpr ⟨rfl, ?_, ?_, fun m' hm' => Function.update_of_ne hm' _ _, rfl, rfl, _, rfl⟩
  · dsimp only
    rw [Function.update_self]
    exact congrArg (r :: ·) hqueue
  · dsimp only
    rw [Function.update_self]

/-- A server that can be scheduled on is valid, and can be connected then. -/
theorem wp_mmcServerValid_schedulable (h : Schedulable E w.tick (w.mmc m)) :
    wp (mmcServerValid E m) (fun valid w' => valid = true ∧ Later w w' ∧
      ((w.mmc m).tcp.needsConnect → E.connect w'.tick ≠ none)) X w := by
  unfold Schedulable at h
  split at h
  · rename_i hfailed
    rw [wp_mmcServerValid_failed hfailed h.1.1, decide_eq_true h.1.2]
    exact ⟨rfl, ⟨rfl, rfl, rfl, rfl⟩, fun _ => h.2⟩
  · rename_i hup
    rw [wp_mmcServerValid_up hup]
    exact ⟨rfl, Later.refl w, h⟩

/-- A request for the TCP stream takes the send slot of a server that can be connected. -/
theorem wp_mmcPoolSlotSend_first (hX : ∀ s w, ¬E.allowed s w → X w) (hprotocol : (w.req r).protocol = .tcp)
    (hopen : (w.mmc m).tcp.needsConnect → E.connect w.tick ≠ none) :
    wp (mmcPoolSlotSend E fh m (some r) false) (fun result w' => result = .ok ∧
      (∃ c fd, w'.mmc m = { (w.mmc m).ensureOpen .tcp c fd with sendreq := some r }) ∧
      (w'.req r).sendbuf = (w.req r).sendbuf ∧ (∀ m' ≠ m, w'.mmc m' = w.mmc m') ∧
      (∀ r' ≠ r, w'.req r' = w.req r') ∧ w'.pool = w.pool ∧ w'.nextReq = w.nextReq) X w := by
  have hudp : ¬(w.req r).protocol = .udp := by
    rw [hprotocol]
    simp
  have hwants : ¬wantsUdp (w.mmc m) (w.req r) := fun hwants => hudp hwants.1
  simp only [mmcPoolSlotSend, wp_bind, wp_getMmc, wp_getReq, if_neg hwants, slotSendTcp]
  refine wp_mono (wp_mmcPoolOpen E fh (some r) hX hopen) ?_ fun _ => id
  rintro _ w₁ ⟨rfl, ⟨⟨c, fd, hopened⟩, hreq, hothers, hpool, hnext⟩⟩
  simp only [if_true, wp_bind, wp_modifyReq, takeSlot, wp_step, wp_modifyMmc]
  refine ⟨fun _ => (wp_pure _ _ _ _).mpr ⟨rfl, ⟨c, fd, ?_⟩, ?_, ?_, ?_, hpool, hnext⟩, hX _ _⟩
  · dsimp only
    rw [Function.update_self, hopened]
  · dsimp only
    rw [Function.update_self, hreq]
    exact if_neg hudp
  · intro m' hm'
    dsimp only
    rw [Function.update_of_ne hm', hothers m' hm']
  · intro r' hr'
    dsimp only
    rw [Function.update_of_ne hr', hreq]

/-- **An idle server** gets a request for the TCP stream as its first one. -/
theorem wp_mmcPoolSchedule_idle (hX : ∀ s w, ¬E.allowed s w → X w) (hidle : (w.mmc m).Idle)
    (hprotocol : (w.req r).protocol = .tcp) (h : Schedulable E w.tick (w.mmc m)) :
    wp (mmcPoolSchedule E fh m r) (fun result w' => result = .ok ∧ FirstOn m r w w') X w := by
  rw [mmcPoolSchedule, wp_bind, wp_step]
  refine ⟨fun _ => ?_, hX _ _⟩
  rw [wp_bind]
  refine wp_mono (wp_mmcServerValid_schedulable h) ?_ fun _ => id
  rintro _ w₁ ⟨rfl, hvalid, hopen⟩
  have hlater : Later w w₁ := ⟨hvalid.mmc, hvalid.req, hvalid.pool, hvalid.nextReq⟩
  have hmmc : w₁.mmc m = w.mmc m := congrFun hlater.mmc m
  rw [Bool.not_true, if_neg Bool.false_ne_true, wp_bind, wp_modifyReq, wp_bind, wp_getMmc]
  dsimp only
  rw [if_pos (by rw [hmmc]; exact hidle.sendreq), wp_bind]
  -- the stream is opened, and the request takes the send slot
  refine wp_mono (wp_mmcPoolSlotSend_first hX ?_ ?_) ?_ fun _ => id
  · dsimp only
    rw [Function.update_self, hlater.req]
    exact hprotocol
  · dsimp only
    rw [hmmc]
    exact hopen
  rintro _ w₂ ⟨rfl, ⟨c, fd, hserver⟩, hsendbuf, hothers, hothersReq, hpool, hnext⟩
  dsimp only at hserver hsendbuf hothers hothersReq hpool hnext
  rw [hmmc] at hserver
  rw [if_neg (by simp), wp_bind, wp_step]
  refine ⟨fun _ => ?_, hX _ _⟩
  rw [wp_bind, wp_modifyPool]
  have hopened := hidle.ensureOpen .tcp c fd
  refine wp_mono (wp_scheduleRead_idle ?_ ?_) ?_ fun _ => id
  · dsimp only
    rw [hserver]
    exact hopened.readreq
  · dsimp only
    rw [hserver]
    exact hopened.readqueue
  · rintro _ w₃ ⟨rfl, hread, hsend, hmmc₃, hreq₃, hnext₃, readingBuf, hpool₃⟩
    refine ⟨rfl, hlater.firstOn ⟨?_, hread, ?_, ?_, ?_, ?_, ?_, ?_, ?_, hnext₃.trans hnext⟩⟩
    · rw [hsend, hserver, MmcServer.sendLine]
      exact congrArg (r :: ·) hopened.sendqueue
    · rw [hreq₃]
      dsimp only
      rw [hsendbuf, Function.update_self]
      rfl
    · exact fun m' hm' => (hmmc₃ m' hm').trans (hothers m' hm')
    · intro r' hr'
      rw [hreq₃]
      exact (hothersReq r' hr').trans (Function.update_of_ne hr' _ _)
    · rw [hpool₃, ← hpool]
    · rw [hpool₃, ← hpool]
    · rw [hpool₃, ← hpool]
    · rw [hpool₃, ← hpool]

/-- **No copies** are made when no server that is chosen for one is valid. -/
theorem wp_scheduleCopies_down (hX : ∀ s w, ¬E.allowed s w → X w) (key : Bytes) (copies : Nat)
    (skip : List Mmc) (i : Nat) (h : ∀ t ∈ copyTargets w.pool.findServer E.maxFailoverAttempts key copies m
      skip i, Down E (w.mmc t)) :
    wp (scheduleCopies E fh key r copies m skip i) (fun _ w' => Later w w') X w := by
  induction copies generalizing m skip i w with
  | zero => exact (wp_pure _ _ _ _).mpr (Later.refl w)
  | succ copies ih =>
    obtain ⟨hfirst, hrest⟩ := List.forall_mem_cons.mp h
    rw [scheduleCopies, wp_bind, wp_getPool]
    dsimp only
    rw [wp_bind, wp_step]
    refine ⟨fun _ => ?_, hX _ _⟩
    rw [wp_bind]
    refine wp_mono (wp_mmcServerValid_down (by exact hfirst)) ?_ fun _ => id
    rintro _ w₁ ⟨rfl, hlater⟩
    rw [wp_bind, wp_doWhen]
    refine ⟨fun hvalid => absurd hvalid Bool.false_ne_true, fun _ => ?_⟩
    refine wp_mono (ih _ _ ?_) (fun _ w' h' => ?_) fun _ => id
    · rw [hlater.pool, hlater.mmc]
      exact hrest
    · exact Later.trans ⟨hlater.mmc, hlater.req, hlater.pool, hlater.nextReq⟩ h'

/-! ## A call -/

/-- **A request that is made** in a pool without free requests is new. -/
theorem wp_mmcPoolRequest_new (hX : ∀ s w, ¬E.allowed s w → X w) (hfree : w.pool.freeRequests = [])
    (protocol : MmcProto) (handler : ResponseHandler) (call : Nat) (failover : FailoverHandler) :
    wp (mmcPoolRequest E protocol handler call failover) (fun r w' => r = w.nextReq ∧
      w'.nextReq = w.nextReq + 1 ∧ w'.mmc = w.mmc ∧ w'.pool = w.pool ∧ w'.tick = w.tick ∧
      (∀ r' ≠ r, w'.req r' = w.req r') ∧ (w'.req r).protocol = protocol ∧ (w'.req r).keyLen = 0 ∧
      (protocol = .tcp → (w'.req r).sendbuf = {})) X w := by
  simp only [mmcPoolRequest, mmcPoolRequestAlloc, popFreeRequest, wp_bind, wp_getPool, hfree,
    wp_newRequest, wp_step, wp_modifyReq, wp_pure, true_and]
  refine ⟨fun _ => ⟨fun r' hr' => ?_, ?_, ?_, ?_⟩, hX _ _⟩
  · rw [Function.update_of_ne hr', Function.update_of_ne hr', Function.update_of_ne hr']
  · rw [Function.update_self, Function.update_self]
    split <;> rfl
  · rw [Function.update_self, Function.update_self, Function.update_self]
    split <;> rfl
  · rintro rfl
    rw [Function.update_self, Function.update_self, Function.update_self]
    rfl

/-- A server that can be used is not down. -/
theorem Usable.not_down {tick : Nat} {s : MmcServer} (h : Usable E tick s) : ¬Down E s := by
  rintro ⟨hfailed, hdue⟩
  rw [Usable, if_pos hfailed] at h
  exact hdue tick h.1

/-- **The request of a key** is the first one on an idle server, and no copies are made of it. -/
theorem wp_mmcPoolScheduleKeySized (hX : ∀ s w, ¬E.allowed s w → X w) {key : Bytes} {keyLen : Nat}
    {redundancy : Nat} (hfind : w.pool.findServer (key.take keyLen) = m)
    (husable : Usable E w.tick (w.mmc m)) (hidle : (w.mmc m).Idle)
    (hprotocol : (w.req r).protocol = .tcp)
    (hcopies : ∀ t ∈ copyTargets w.pool.findServer E.maxFailoverAttempts key
      (min (redundancy - 1) (w.pool.servers.length - 1)) m [] 0, Down E (w.mmc t)) :
    wp (mmcPoolScheduleKeySized E fh key keyLen r redundancy)
      (fun result w' => result = .ok ∧ FirstOn m r w w') X w := by
  rw [mmcPoolScheduleKeySized, wp_bind]
  refine wp_mono (wp_mmcPoolFindSized hfind husable) ?_ fun _ => id
  rintro found w₁ ⟨hfound, hlater, hschedulable⟩
  rw [hfound, wp_bind]
  have hmmc : w₁.mmc m = w.mmc m := congrFun hlater.mmc m
  refine wp_mono (wp_mmcPoolSchedule_idle hX ?_ ?_ ?_) ?_ fun _ => id
  · rw [hmmc]
    exact hidle
  · rw [hlater.req]
    exact hprotocol
  · rw [hmmc]
    exact hschedulable
  rintro _ w₂ ⟨rfl, hfirst⟩
  have hfirst' := hlater.firstOn hfirst
  rw [wp_bind, wp_doWhen]
  refine ⟨fun _ => ?_, fun _ => (wp_pure _ _ _ _).mpr ⟨rfl, hfirst'⟩⟩
  rw [wp_bind, wp_getPool]
  refine wp_mono (wp_scheduleCopies_down hX key _ _ _ ?_) ?_ fun _ => id
  · intro t ht
    rw [hfirst'.findServer, hfirst'.servers] at ht
    have hdown := hcopies t ht
    -- the server itself is not chosen, it can be used
    have hne : t ≠ m := by
      rintro rfl
      exact husable.not_down hdown
    rw [hfirst'.mmc t hne]
    exact hdown
  · intro _ w₃ hcopied
    exact (wp_pure _ _ _ _).mpr ⟨rfl, hfirst'.later hcopied⟩

/-- What a call does: the server is in the pool, and its authentication request is the first one on it. -/
structure AddedTo (call : AddServerCall) (w w' : World) : Prop where
  sendLine : (w'.mmc call.server.mmc).sendLine = [w.nextReq]
  readLine : (w'.mmc call.server.mmc).readLine = [w.nextReq]
  made : call.Made (w'.req w.nextReq)
  mmc : ∀ m ≠ call.server.mmc, w'.mmc m = w.mmc m
  req : ∀ r ≠ w.nextReq, w'.req r = w.req r
  servers : w'.pool.servers = w.pool.servers ++ [call.server.mmc]
  protocol : w'.pool.protocol = w.pool.protocol
  freeRequests : w'.pool.freeRequests = w.pool.freeRequests
  nextReq : w'.nextReq = w.nextReq + 1

/-- **`php_mmc_pool_addserver`** in a binary pool. -/
theorem wp_phpMmcPoolAddserver (hX : ∀ s w, ¬E.allowed s w → X w) {find : Bytes → Mmc}
    {call : AuthCall} (hbinary : w.pool.protocol = .binary) (hfree : w.pool.freeRequests = [])
    (hidle : call.found.Idle) (hfind : find [] = call.server.mmc) (husable : Usable E w.tick call.record)
    (hcopies : ∀ t ∈ copyTargets find E.maxFailoverAttempts plainKey
      (min (E.redundancy - 1) w.pool.servers.length) call.server.mmc [] 0,
      Down E (Function.update w.mmc call.server.mmc call.record t)) :
    wp (phpMmcPoolAddserver E fh find call.toAddServerCall)
      (fun _ w' => AddedTo call.toAddServerCall w w') X w := by
  have hrecord : call.record.Idle := by
    unfold AddServerCall.record
    split
    · exact hidle
    · exact ⟨hidle.sendreq, hidle.readreq, hidle.buildreq, hidle.sendqueue, hidle.readqueue⟩
  simp only [phpMmcPoolAddserver, mmcPoolAdd, wp_bind, wp_modifyMmc, wp_modifyPool, wp_getPool]
  refine wp_ite (fun _ => ?_) fun hnot => absurd ⟨hbinary, call.userLong, call.passwordLong⟩ hnot
  rw [wp_bind]
  refine wp_mono (wp_mmcPoolRequest_new hX (by exact hfree) _ _ _ _) ?_ fun _ => id
  rintro r w₁ ⟨hr, hnext, hmmc, hpool, htick, hreq, hprotocol, hkeyLen, hsendbuf⟩
  dsimp only at hr hnext hmmc hpool htick hreq
  simp only [wp_bind, wp_modifyReq, wp_step, wp_getReq, Function.update_self]
  refine ⟨fun _ => ?_, hX _ _⟩
  have hnew : w₁.mmc call.server.mmc = call.record := by rw [hmmc, Function.update_self]
  refine wp_mono (wp_mmcPoolScheduleKeySized (m := call.server.mmc) hX ?_ ?_ ?_ ?_ ?_) ?_ fun _ => id
  · dsimp only
    rw [hpool]
    change find (plainKey.take (w₁.req r).keyLen) = _
    rw [hkeyLen]
    exact hfind
  · dsimp only
    rw [hnew, htick]
    exact husable
  · dsimp only
    rw [hnew]
    exact hrecord
  · dsimp only
    rw [Function.update_self]
    exact hprotocol
  · dsimp only
    rw [hpool, hmmc, List.length_append, List.length_singleton, Nat.add_sub_cancel]
    exact hcopies
  · rintro _ w₂ ⟨rfl, hfirst⟩
    rw [if_neg (by simp)]
    refine (wp_pure _ _ _ _).mpr ?_
    subst hr
    refine ⟨hfirst.sendLine, hfirst.readLine, ?_, fun m hm => ?_, fun r hr => ?_, ?_, ?_, ?_, ?_⟩
    · rw [AddServerCall.Made, hfirst.sendbuf]
      dsimp only
      rw [Function.update_self, mmcSetSaslAuthData, mmcSetSaslAuthData]
      simp only [MmcRequest.appendSend, MmcRequest.parseBinary, hsendbuf rfl]
    · rw [hfirst.mmc m hm]
      dsimp only
      rw [hmmc, Function.update_of_ne hm]
    · rw [hfirst.req r hr]
      dsimp only
      rw [Function.update_of_ne hr, hreq r hr]
    · rw [hfirst.servers]
      dsimp only
      rw [hpool]
    · rw [hfirst.protocol]
      dsimp only
      rw [hpool]
    · rw [hfirst.freeRequests]
      dsimp only
      rw [hpool]
    · rw [hfirst.nextReq]
      exact hnext

/-! ## Sequences of calls -/

/-- The invariant: the pool makes new requests, and those that are in use are older. -/
structure AddServerState.Enrolled (s : AddServerState H) : Prop extends s.Authenticated where
  protocol : s.world.pool.protocol = .binary
  freeRequests : s.world.pool.freeRequests = []
  older : ∀ m ∈ s.world.pool.servers, ∀ r ∈ (s.world.mmc m).sendLine, r < s.world.nextReq

/-- **A call that is careful** adds a server, and nobody takes the requests of the others. -/
theorem AddServerState.Enrolled.perform (hE : ∀ s w, E.allowed s w) {s : AddServerState H}
    {call : AuthCall} (h : s.Enrolled) (hcareful : s.Careful E call) :
    ∃ s', AddServerState.perform E fh s call = some s' ∧ s'.Enrolled := by
  rw [AddServerState.perform]
  by_cases haccepted : call.accepted
  · obtain ⟨hfresh, hidle, hfind, husable, hcopies⟩ := hcareful haccepted
    let find := H.findServer (H.addServer s.hash call.server call.weight)
    have hcall : wp (phpMmcPoolAddserver E fh find call.toAddServerCall)
        (fun _ w' => AddedTo call.toAddServerCall s.world w') (fun _ => False) s.world :=
      wp_phpMmcPoolAddserver (fun s w hnot => hnot (hE s w)) h.protocol h.freeRequests hidle hfind
        husable hcopies
    obtain ⟨result, world, hrun, hadded⟩ := exists_of_wp hcall
    dsimp only
    rw [if_pos haccepted, hrun]
    refine ⟨_, rfl, ?_⟩
    have hother : ∀ m ∈ s.world.pool.servers, world.mmc m = s.world.mmc m := by
      intro m hm
      refine hadded.mmc m ?_
      rintro rfl
      exact hfresh hm
    -- the new request is not one of those that are in use
    have holder : ∀ m ∈ s.world.pool.servers, s.world.nextReq ∉ (world.mmc m).sendLine := by
      intro m hm hmem
      rw [hother m hm] at hmem
      exact absurd (h.older m hm _ hmem) (Nat.lt_irrefl _)
    have hmem : ∀ m, m ∈ world.pool.servers → m ∈ s.world.pool.servers ∨ m = call.server.mmc := by
      intro m hm
      rw [hadded.servers] at hm
      exact (List.mem_append.mp hm).imp id List.mem_singleton.mp
    refine ⟨⟨?_, ?_, ?_⟩, hadded.protocol.trans h.protocol, hadded.freeRequests.trans h.freeRequests, ?_⟩
    · rw [hadded.servers, h.servers, List.map_append]
      rfl
    · intro call' hcall'
      rcases List.mem_append.mp hcall' with hold | hnew
      · have hm : call'.server.mmc ∈ s.world.pool.servers := by
          rw [h.servers]
          exact List.mem_map_of_mem hold
        obtain ⟨r, hsend, hread, hmade⟩ := h.line call' hold
        have hr : r ≠ s.world.nextReq := by
          have hlt := h.older _ hm r (hsend ▸ List.mem_singleton_self r)
          exact Nat.ne_of_lt hlt
        refine ⟨r, ?_, ?_, ?_⟩
        · rw [hother _ hm]
          exact hsend
        · rw [hother _ hm]
          exact hread
        · rw [hadded.req r hr]
          exact hmade
      · obtain rfl := List.mem_singleton.mp hnew
        exact ⟨_, hadded.sendLine, hadded.readLine, hadded.made⟩
    · intro m hm m' hm' r hr hr'
      rcases hmem m hm with hold | rfl
      · rcases hmem m' hm' with hold' | rfl
        · rw [hother m hold] at hr
          rw [hother m' hold'] at hr'
          exact h.own m hold m' hold' r hr hr'
        · rw [hadded.sendLine, List.mem_singleton] at hr'
          exact absurd (hr' ▸ hr) (holder m hold)
      · rcases hmem m' hm' with hold' | rfl
        · rw [hadded.sendLine, List.mem_singleton] at hr
          exact absurd (hr ▸ hr') (holder m' hold')
        · rfl
    · intro m hm r hr
      rw [hadded.nextReq]
      rcases hmem m hm with hold | rfl
      · rw [hother m hold] at hr
        exact (h.older m hold r hr).trans (Nat.lt_succ_self _)
      · rw [hadded.sendLine, List.mem_singleton] at hr
        rw [hr]
        exact Nat.lt_succ_self _
  · exact ⟨s, if_neg haccepted, h⟩

/-- **Every server is authenticated** after every sequence of calls that are careful, whatever the hash
    strategy is. -/
theorem authenticated_of_careful (hE : ∀ s w, E.allowed s w) (hservers : w.pool.servers = [])
    (hbinary : w.pool.protocol = .binary) (hfree : w.pool.freeRequests = []) {calls : List AuthCall}
    (hcareful : Obeys (AddServerState.perform E fh) (AddServerState.Careful (H := H) E) calls
      { world := w }) :
    ∃ s, performAll (AddServerState.perform E fh) calls { world := w } = some s ∧
      AddServerState.Authenticated (H := H) s := by
  have hnew : AddServerState.Enrolled (H := H) { world := w } := by
    refine ⟨⟨hservers, by simp, ?_⟩, hbinary, hfree, ?_⟩
    · intro m hm
      rw [hservers] at hm
      exact absurd hm List.not_mem_nil
    · intro m hm
      rw [hservers] at hm
      exact absurd hm List.not_mem_nil
  obtain ⟨s, hrun, hs⟩ := total_performAll (fun s call h hcall => h.perform hE hcall) hnew hcareful
  exact ⟨s, hrun, hs.toAuthenticated⟩

/-- Connections can be made. -/
def connects : Env where
  connect _ := some 5

/-- The first server of a pool. -/
def firstCall : AuthCall where
  server := { mmc := 0, host := [97], port := 11211 }
  weight := 1
  fits := by decide
  found := { tcp := { port := 11211 } }
  user := [117, 115]
  password := [112, 119]
  userLong := by decide
  passwordLong := by decide

/-- Another server. -/
def secondCall : AuthCall :=
  { firstCall with server := { mmc := 1, host := [98], port := 11211 } }

/-- A pool for the binary protocol. -/
def binaryPool : World where
  pool := { protocol := .binary, findServer := fun _ => 0 }
  mmc _ := {}

theorem authenticated_firstCall :
    ∃ s, performAll (AddServerState.perform connects (failoverHandler connects 9 9)) [firstCall]
      { world := binaryPool } = some s ∧
        AddServerState.Authenticated (H := mmcStandardHash mmcHashFnv1a) s := by
  have hcareful : Obeys (AddServerState.perform connects (failoverHandler connects 9 9))
      (AddServerState.Careful (H := mmcStandardHash mmcHashFnv1a) connects) [firstCall]
      { world := binaryPool } := by
    refine ⟨fun _ => ⟨by decide, by decide, rfl, fun _ => by decide, fun t ht => ?_⟩, trivial⟩
    exact absurd ht List.not_mem_nil
  exact authenticated_of_careful (fun _ _ => rfl) rfl rfl rfl hcareful

/-- With FNV the empty key belongs to the first bucket of two. The server that is added first gets the
    request of the second one, too. -/
theorem secondCall_not_authenticated :
    ∃ s, performAll (AddServerState.perform connects (failoverHandler connects 9 9))
      [firstCall, secondCall] { world := binaryPool } = some s ∧
        ¬AddServerState.Authenticated (H := mmcStandardHash mmcHashFnv1a) s := by
  refine ⟨_, rfl, fun h => ?_⟩
  obtain ⟨r, hsend, -⟩ := h.line secondCall (List.mem_append_right _ (List.mem_singleton_self _))
  exact List.cons_ne_nil r [] (hsend.symm.trans rfl)

end PeclMemcache
