import PeclMemcache.AsciiProtocol
import PeclMemcache.Machines

set_option autoImplicit false

/-! # The configuration of pools

The functions of `memcache.c` that configure a pool, over what they configure: the addresses, the
timeouts and the statuses of servers, and the settings of pools. Pools can share a server, which
`mmc_find_persistent` then gives to each of them. Requests are left out, up to the outcome of the one
that `addServer` may schedule and of the connection that `connect` opens. -/

namespace PeclMemcache

/-! ## Servers and pools -/

/-- `struct timeval`, as its number of microseconds. -/
abbrev Timeval := Int

/-- The fields of `mmc_t` that are configured. The ports are `unsigned short`. -/
structure ServerConfig where
  host : Bytes := []
  tcpPort : Nat := 0
  udpPort : Nat := 0
  persistent : Bool := false
  timeout : Timeval := 0
  retryInterval : Int := 0
  tcpStatus : MmcStatus := .disconnected
  udpStatus : MmcStatus := .disconnected
  deriving DecidableEq, Repr

/-- The fields of `mmc_pool_t` that are configured, for callbacks `κ` and floating point numbers `δ`.
    The hash state is what was added to it, and `added` remembers with which host and port the servers
    were added since the pool was empty. -/
structure PoolConfig (κ δ : Type) where
  protocol : WireProtocol
  servers : List Mmc := []
  hashState : List (Mmc × Nat) := []
  timeout : Timeval := 0
  compressThreshold : Nat
  minCompressSavings : δ
  failureCallback : Option κ := none
  added : List (Bytes × Int × Mmc) := []

/-- The `connection` of a memcache object: not there yet, not a pool, or its pool. -/
inductive Connection (κ δ : Type)
  | missing
  | invalid
  | pool (pool : PoolConfig κ δ)

/-- The servers, of which those from `next` on are not allocated yet, the objects with their pools, and
    the persistent list. -/
structure Configuration (κ δ : Type) where
  server : Mmc → ServerConfig := fun _ => {}
  next : Mmc := 0
  object : Nat → Connection κ δ := fun _ => .missing
  persistentList : Bytes → Option Mmc := fun _ => none

/-- The settings of PHP, and what it says about values: whether one can be called, and whether a number
    is outside of the range from 0 to 1. `timevalToDouble` is `timeval_to_double`, which rounds. -/
structure ConfigEnv (κ δ : Type) where
  protocol : WireProtocol
  compressThreshold : Nat
  defaultSavings : δ
  outOfRange : δ → Bool
  callable : κ → Bool
  timevalToDouble : Timeval → ℚ

variable {κ δ : Type}

/-- What becomes of a request or a connection attempt: its success, and the statuses it leaves. -/
structure NetworkOutcome where
  ok : Bool
  statuses : Mmc → MmcStatus × MmcStatus

/-- The arguments of `addServer` and `connect`. The credentials of the object are long enough for an
    authentication or not; `scheduling` is what becomes of the authentication request, `opening` of the
    connection. -/
structure AddServerArgs (κ : Type) where
  host : Bytes
  tcpPort : Int
  udpPort : Int := 0
  persistent : Bool := true
  weight : Int := 1
  timeout : Timeval := 1000000
  retryInterval : Int := 15
  status : Bool := true
  failureCallback : Option κ := none
  credentials : Bool := false
  scheduling : NetworkOutcome := { ok := true, statuses := fun _ => (.connected, .disconnected) }
  opening : NetworkOutcome := { ok := true, statuses := fun _ => (.connected, .disconnected) }

namespace Configuration

variable (E : ConfigEnv κ δ)

/-! ## `memcache_pool.c` -/

/-- `mmc_server_new`. -/
def mmcServerNew (host : Bytes) (tcpPort udpPort : Nat) (persistent : Bool) (timeout : Timeval)
    (retryInterval : Int) : ServerConfig :=
  { host, tcpPort, udpPort, persistent, timeout, retryInterval }

/-- `mmc_pool_new`. -/
def mmcPoolNew : PoolConfig κ δ where
  protocol := E.protocol
  compressThreshold := E.compressThreshold
  minCompressSavings := E.defaultSavings

/-- The timeout of a pool that another timeout comes to. -/
def smallestTimeout (first : Bool) (timeout pool : Timeval) : Timeval :=
  if first ∨ E.timevalToDouble timeout < E.timevalToDouble pool then timeout else pool

/-- `mmc_pool_add`; `host` and `port` are remembered. -/
def mmcPoolAdd (p : PoolConfig κ δ) (m : Mmc) (timeout : Timeval) (weight : Nat) (host : Bytes)
    (port : Int) : PoolConfig κ δ :=
  { p with
    hashState := p.hashState ++ [(m, weight)]
    servers := p.servers ++ [m]
    timeout := smallestTimeout E (p.servers = []) timeout p.timeout
    added := p.added ++ [(host, port, m)] }

/-- `mmc_pool_close` on the pool. -/
def mmcPoolClose (p : PoolConfig κ δ) : PoolConfig κ δ :=
  if p.servers = [] then p else { p with servers := [], hashState := [], added := [] }

variable (s : Configuration κ δ)

/-! ## `memcache.c` -/

/-- The memory of a new server. -/
def allocate (record : ServerConfig) : Mmc × Configuration κ δ :=
  (s.next, { s with server := Function.update s.server s.next record, next := s.next + 1 })

/-- `"memcache:server:%s:%u:%u"`. -/
def persistentKey (host : Bytes) (tcpPort udpPort : Nat) : Bytes :=
  bytes ['m', 'e', 'm', 'c', 'a', 'c', 'h', 'e', ':', 's', 'e', 'r', 'v', 'e', 'r', ':']
    ++ cString host ++ [58] ++ decimal tcpPort ++ [58] ++ decimal udpPort

/-- A connection that may have gone away is tried again. -/
def recheck (status : MmcStatus) : MmcStatus := if status = .connected then .unknown else status

/-- `mmc_find_persistent`. -/
def mmcFindPersistent (host : Bytes) (tcpPort udpPort : Nat) (timeout : Timeval)
    (retryInterval : Int) : Mmc × Configuration κ δ :=
  let key := persistentKey host tcpPort udpPort
  match s.persistentList key with
  | none =>
    let (m, s) := s.allocate (mmcServerNew host tcpPort udpPort true timeout retryInterval)
    (m, { s with persistentList := Function.update s.persistentList key (some m) })
  | some m =>
    let record := s.server m
    (m, { s with server := Function.update s.server m { record with
      timeout
      retryInterval
      tcpStatus := recheck record.tcpStatus
      udpStatus := recheck record.udpStatus } })

/-- Put an object in its place. -/
def setObject (o : Nat) (p : PoolConfig κ δ) : Configuration κ δ :=
  { s with object := Function.update s.object o (.pool p) }

/-- The statuses of the servers are others. -/
def setStatuses (statuses : Mmc → MmcStatus × MmcStatus) : Configuration κ δ :=
  { s with server := fun m => { s.server m with
      tcpStatus := (statuses m).1
      udpStatus := (statuses m).2 } }

/-- The checks of the weight and of the ports. -/
def AcceptedArgs (a : AddServerArgs κ) : Prop :=
  1 ≤ a.weight ∧ (0 ≤ a.tcpPort ∧ a.tcpPort ≤ 65635) ∧ 0 ≤ a.udpPort ∧ a.udpPort ≤ 65635

instance decidableAcceptedArgs (a : AddServerArgs κ) : Decidable (AcceptedArgs a) := by
  unfold AcceptedArgs
  infer_instance

/-- The pool of the object, which is made if need be. -/
def poolFor : Connection κ δ → Option (PoolConfig κ δ)
  | .missing => some (mmcPoolNew E)
  | .invalid => none
  | .pool p => some p

/-- The pool was there, or it is new. -/
theorem poolFor_eq_some {c : Connection κ δ} {p : PoolConfig κ δ} (h : poolFor E c = some p) :
    c = .pool p ∨ c = .missing ∧ p = mmcPoolNew E := by
  cases c with
  | missing => exact Or.inr ⟨rfl, (Option.some.inj h).symm⟩
  | invalid => cases h
  | pool q => exact Or.inl (congrArg Connection.pool (Option.some.inj h))

/-- The server for some arguments: `mmc_find_persistent`, or `mmc_server_new` for one that is not
    persistent or in failed mode. -/
def serverFor (a : AddServerArgs κ) (udpPort : Int) : Mmc × Configuration κ δ :=
  let tcp := (a.tcpPort % 2 ^ 16).toNat
  let udp := (udpPort % 2 ^ 16).toNat
  let retry := Int.bmod a.retryInterval (2 ^ 32)
  if a.persistent ∧ a.status then s.mmcFindPersistent a.host tcp udp a.timeout retry
  else
    let record := mmcServerNew a.host tcp udp false a.timeout retry
    s.allocate (if a.status then record else { record with tcpStatus := .failed, udpStatus := .failed })

/-- `php_mmc_pool_addserver`: the server, or nothing for `NULL`. -/
def phpMmcPoolAddserver (o : Nat) (a : AddServerArgs κ) : Option Mmc × Configuration κ δ :=
  if AcceptedArgs a then
    match poolFor E (s.object o) with
    | none => (none, s)
    | some p =>
      -- the binary protocol has no UDP
      let (m, s) := s.serverFor a (if p.protocol = .binary then 0 else a.udpPort)
      let p := mmcPoolAdd E p m (s.server m).timeout (a.weight % 2 ^ 32).toNat a.host a.tcpPort
      let s := s.setObject o p
      if p.protocol = .binary ∧ a.credentials then
        (if a.scheduling.ok then some m else none, s.setStatuses a.scheduling.statuses)
      else (some m, s)
  else (none, s)

/-- `php_mmc_set_failure_callback`. -/
def setCallback (o : Nat) (p : PoolConfig κ δ) (callback : Option κ) : Configuration κ δ :=
  s.setObject o { p with failureCallback := callback }

/-- A callback that is neither `NULL` nor null has to be callable. -/
def callbackAccepted (callback : Option κ) : Bool := callback.all E.callable

/-- `memcache_add_server` and `MemcachePool::addServer`; the latter has no callback. -/
def memcacheAddServer (o : Nat) (a : AddServerArgs κ) : Bool × Configuration κ δ :=
  if callbackAccepted E a.failureCallback then
    match s.phpMmcPoolAddserver E o a with
    | (none, s) => (false, s)
    | (some _, s) =>
      match a.failureCallback, s.object o with
      | some callback, .pool p => (true, s.setCallback o p (some callback))
      | _, _ => (true, s)
  else (false, s)

/-- `connect` and `pconnect`: the server is added, and its connection is opened. -/
def memcacheConnect (o : Nat) (a : AddServerArgs κ) : Bool × Configuration κ δ :=
  match s.phpMmcPoolAddserver E o { a with status := true } with
  | (none, s) => (false, s)
  | (some _, s) => (a.opening.ok, s.setStatuses a.opening.statuses)

/-- The loop of `memcache_set_server_params` and `memcache_get_server_status`: `strcmp` on the hosts, and
    the port as a `long`. -/
def lookup (p : PoolConfig κ δ) (host : Bytes) (port : Int) : Option Mmc :=
  p.servers.find? fun m =>
    cString (s.server m).host = cString host ∧ ((s.server m).tcpPort : Int) = port

/-- The status of a stream after `setServerParams`. -/
def paramStatus (status : Bool) (old : MmcStatus) : MmcStatus :=
  if !status then .failed else if old = .failed then .disconnected else old

/-- `memcache_set_server_params`; `callback` is `none` if it is not given, and `some none` for null. -/
def memcacheSetServerParams (o : Nat) (host : Bytes) (port : Int) (timeout : Timeval)
    (retryInterval : Int) (status : Bool) (callback : Option (Option κ)) :
    Bool × Configuration κ δ :=
  match s.object o with
  | .pool p =>
    match s.lookup p host port with
    | none => (false, s)
    | some m =>
      if callbackAccepted E callback.join then
        let record := s.server m
        let s := { s with server := Function.update s.server m { record with
          timeout
          retryInterval := Int.bmod retryInterval (2 ^ 32)
          tcpStatus := paramStatus status record.tcpStatus
          udpStatus := paramStatus status record.udpStatus } }
        let p := { p with timeout := smallestTimeout E false timeout p.timeout }
        (true, s.setObject o { p with failureCallback := callback.getD p.failureCallback })
      else (false, s)
  | _ => (false, s)

/-- `memcache_set_failure_callback`. -/
def memcacheSetFailureCallback (o : Nat) (callback : Option κ) : Bool × Configuration κ δ :=
  match s.object o with
  | .pool p =>
    if callbackAccepted E callback then (true, s.setCallback o p callback) else (false, s)
  | _ => (false, s)

/-- `memcache_set_compress_threshold`; the threshold becomes an `unsigned int`. -/
def memcacheSetCompressThreshold [DecidableEq δ] (o : Nat) (threshold : Int) (minSavings : δ) :
    Bool × Configuration κ δ :=
  match s.object o with
  | .pool p =>
    if threshold < 0 then (false, s)
    else
      let p := { p with compressThreshold := (threshold % 2 ^ 32).toNat }
      if minSavings ≠ E.defaultSavings then
        if E.outOfRange minSavings then (false, s.setObject o p)
        else (true, s.setObject o { p with minCompressSavings := minSavings })
      else (true, s.setObject o { p with minCompressSavings := E.defaultSavings })
  | _ => (false, s)

/-- `memcache_get_server_status`: the status, or nothing for a server that is not found. -/
def memcacheGetServerStatus (o : Nat) (host : Bytes) (port : Int) : Option Bool :=
  match s.object o with
  | .pool p => (s.lookup p host port).map fun m => decide ((s.server m).tcpStatus ≠ .failed)
  | _ => none

/-- `memcache_close`. -/
def memcacheClose (o : Nat) : Bool × Configuration κ δ :=
  match s.object o with
  | .pool p => (true, s.setObject o (mmcPoolClose p))
  | _ => (false, s)

/-- The pool of an object is freed with it. -/
def freeObject (o : Nat) : Configuration κ δ :=
  { s with object := Function.update s.object o .missing }

/-! ## What adding a server does -/

variable {s} {E}

@[simp]
theorem setObject_server (o : Nat) (p : PoolConfig κ δ) : (s.setObject o p).server = s.server := rfl

@[simp]
theorem setObject_persistentList (o : Nat) (p : PoolConfig κ δ) :
    (s.setObject o p).persistentList = s.persistentList := rfl

@[simp]
theorem setObject_next (o : Nat) (p : PoolConfig κ δ) : (s.setObject o p).next = s.next := rfl

theorem setObject_object_self (o : Nat) (p : PoolConfig κ δ) : (s.setObject o p).object o = .pool p :=
  Function.update_self ..

theorem setObject_object_of_ne {o o' : Nat} (h : o' ≠ o) (p : PoolConfig κ δ) :
    (s.setObject o p).object o' = s.object o' := Function.update_of_ne h ..

theorem freeObject_object_self (o : Nat) : (s.freeObject o).object o = .missing :=
  Function.update_self ..

theorem freeObject_object_of_ne {o o' : Nat} (h : o' ≠ o) : (s.freeObject o).object o' = s.object o' :=
  Function.update_of_ne h ..

theorem memcacheClose_of_pool {o : Nat} {p : PoolConfig κ δ} (h : s.object o = .pool p) :
    s.memcacheClose o = (true, s.setObject o (mmcPoolClose p)) := by
  unfold memcacheClose
  rw [h]

theorem memcacheClose_of_not_pool {o : Nat} (h : ∀ p, s.object o ≠ .pool p) :
    s.memcacheClose o = (false, s) := by
  unfold memcacheClose
  cases hobject : s.object o with
  | pool p => exact absurd hobject (h p)
  | _ => rfl

@[simp]
theorem mmcPoolClose_servers (p : PoolConfig κ δ) : (mmcPoolClose p).servers = [] := by
  unfold mmcPoolClose
  split
  · assumption
  · rfl

/-- Two servers that differ in their statuses at most. -/
structure SameAddress (x y : ServerConfig) : Prop where
  host : x.host = y.host
  tcpPort : x.tcpPort = y.tcpPort
  udpPort : x.udpPort = y.udpPort
  timeout : x.timeout = y.timeout

theorem SameAddress.refl (x : ServerConfig) : SameAddress x x := ⟨rfl, rfl, rfl, rfl⟩

/-- The objects, the persistent list and the addresses of the servers are those of another
    configuration. -/
structure SameButStatuses (s s' : Configuration κ δ) : Prop where
  server : ∀ m, SameAddress (s'.server m) (s.server m)
  next : s'.next = s.next
  object : s'.object = s.object
  persistentList : s'.persistentList = s.persistentList

theorem SameButStatuses.refl (s : Configuration κ δ) : SameButStatuses s s :=
  ⟨fun _ => SameAddress.refl _, rfl, rfl, rfl⟩

theorem SameButStatuses.setStatuses {s' : Configuration κ δ} (h : SameButStatuses s s')
    (statuses : Mmc → MmcStatus × MmcStatus) : SameButStatuses s (s'.setStatuses statuses) :=
  ⟨fun m => ⟨(h.server m).host, (h.server m).tcpPort, (h.server m).udpPort, (h.server m).timeout⟩,
    h.next, h.object, h.persistentList⟩

/-- The stored ports are `unsigned short`. -/
def storedPort (port : Int) : Nat := (port % 2 ^ 16).toNat

/-- A server `m` for some arguments. It is new, and has their address, or it is the persistent server
    with the key of their address; its timeout is theirs. -/
structure Serves (s s' : Configuration κ δ) (a : AddServerArgs κ) (udpPort : Int) (m : Mmc) :
    Prop where
  object : s'.object = s.object
  others : ∀ m', m' ≠ m → s'.server m' = s.server m'
  timeout : (s'.server m).timeout = a.timeout
  address :
    m = s.next ∧ s'.next = s.next + 1 ∧ (s'.server m).host = a.host ∧
      (s'.server m).tcpPort = storedPort a.tcpPort ∧ (s'.server m).udpPort = storedPort udpPort ∧
      (∀ key m', s'.persistentList key = some m' → s.persistentList key = some m' ∨
        m' = m ∧ key = persistentKey a.host (storedPort a.tcpPort) (storedPort udpPort)) ∨
    s.persistentList (persistentKey a.host (storedPort a.tcpPort) (storedPort udpPort)) = some m ∧
      s'.next = s.next ∧ (s'.server m).host = (s.server m).host ∧
      (s'.server m).tcpPort = (s.server m).tcpPort ∧ (s'.server m).udpPort = (s.server m).udpPort ∧
      s'.persistentList = s.persistentList

/-- A new server serves where it has the address and the timeout of the arguments. -/
theorem serves_new {s' : Configuration κ δ} {a : AddServerArgs κ} {udpPort : Int}
    {record : ServerConfig} (hobject : s'.object = s.object)
    (hserver : s'.server = Function.update s.server s.next record) (hnext : s'.next = s.next + 1)
    (hhost : record.host = a.host) (htcp : record.tcpPort = storedPort a.tcpPort)
    (hudp : record.udpPort = storedPort udpPort) (htimeout : record.timeout = a.timeout)
    (hlist : ∀ key m', s'.persistentList key = some m' → s.persistentList key = some m' ∨
      m' = s.next ∧ key = persistentKey a.host (storedPort a.tcpPort) (storedPort udpPort)) :
    Serves s s' a udpPort s.next := by
  have hself : s'.server s.next = record := by rw [hserver, Function.update_self]
  refine ⟨hobject, fun m' hm' => ?_, by rw [hself, htimeout], Or.inl ⟨rfl, hnext, ?_, ?_, ?_, hlist⟩⟩
  · rw [hserver, Function.update_of_ne hm']
  · rw [hself, hhost]
  · rw [hself, htcp]
  · rw [hself, hudp]

theorem mmcFindPersistent_serves (s : Configuration κ δ) (a : AddServerArgs κ) (udpPort retry : Int) :
    Serves s (s.mmcFindPersistent a.host (storedPort a.tcpPort) (storedPort udpPort) a.timeout retry).2
      a udpPort
      (s.mmcFindPersistent a.host (storedPort a.tcpPort) (storedPort udpPort) a.timeout retry).1 := by
  unfold mmcFindPersistent
  dsimp only
  cases hlist : s.persistentList (persistentKey a.host (storedPort a.tcpPort) (storedPort udpPort)) with
  | none =>
    refine serves_new rfl rfl rfl rfl rfl rfl rfl fun key m' h => ?_
    by_cases hkey : key = persistentKey a.host (storedPort a.tcpPort) (storedPort udpPort)
    · subst hkey
      exact Or.inr ⟨(Option.some.inj (h.symm.trans (Function.update_self ..))), rfl⟩
    · exact Or.inl ((Function.update_of_ne hkey ..).symm.trans h)
  | some m =>
    dsimp only
    refine ⟨rfl, fun m' hm' => Function.update_of_ne hm' .., ?_,
      Or.inr ⟨hlist, rfl, ?_, ?_, ?_, rfl⟩⟩ <;> simp only [Function.update_self]

/-- **A server for some arguments** is new or persistent. -/
theorem serverFor_serves (s : Configuration κ δ) (a : AddServerArgs κ) (udpPort : Int) :
    Serves s (s.serverFor a udpPort).2 a udpPort (s.serverFor a udpPort).1 := by
  unfold serverFor
  by_cases hpersistent : a.persistent = true ∧ a.status = true
  · rw [if_pos hpersistent]
    exact mmcFindPersistent_serves s a udpPort _
  · rw [if_neg hpersistent]
    cases a.status with
    | true => exact serves_new rfl rfl rfl rfl rfl rfl rfl fun _ _ h => Or.inl h
    | false => exact serves_new rfl rfl rfl rfl rfl rfl rfl fun _ _ h => Or.inl h

/-- The `udp_port` that is left of the argument. -/
def udpArgument (p : PoolConfig κ δ) (a : AddServerArgs κ) : Int :=
  if p.protocol = .binary then 0 else a.udpPort

/-- The pool with the server for some arguments. -/
def poolWith (E : ConfigEnv κ δ) (s : Configuration κ δ) (p : PoolConfig κ δ) (a : AddServerArgs κ) :
    PoolConfig κ δ :=
  let r := s.serverFor a (udpArgument p a)
  mmcPoolAdd E p r.1 (r.2.server r.1).timeout (a.weight % 2 ^ 32).toNat a.host a.tcpPort

/-- The configuration with the server for some arguments in the pool. -/
def withServer (E : ConfigEnv κ δ) (s : Configuration κ δ) (o : Nat) (p : PoolConfig κ δ)
    (a : AddServerArgs κ) : Configuration κ δ :=
  (s.serverFor a (udpArgument p a)).2.setObject o (poolWith E s p a)

/-- The authentication request of an accepted server is refused. -/
def RefusedLate (p : PoolConfig κ δ) (a : AddServerArgs κ) : Prop :=
  p.protocol = .binary ∧ a.credentials = true ∧ a.scheduling.ok = false

instance decidableRefusedLate (p : PoolConfig κ δ) (a : AddServerArgs κ) :
    Decidable (RefusedLate p a) := by
  unfold RefusedLate
  infer_instance

/-- Arguments that are not accepted change nothing. -/
theorem phpMmcPoolAddserver_rejected {o : Nat} {a : AddServerArgs κ}
    (h : ¬ (AcceptedArgs a ∧ (poolFor E (s.object o)).isSome)) :
    s.phpMmcPoolAddserver E o a = (none, s) := by
  unfold phpMmcPoolAddserver
  by_cases ha : AcceptedArgs a
  · rw [if_pos ha]
    cases hp : poolFor E (s.object o) with
    | none => rfl
    | some p => exact absurd ⟨ha, by rw [hp]; rfl⟩ h
  · rw [if_neg ha]

/-- **Accepted arguments** add the server, whether the call succeeds in the end or not. -/
theorem phpMmcPoolAddserver_accepted {o : Nat} {a : AddServerArgs κ} {p : PoolConfig κ δ}
    (ha : AcceptedArgs a) (hp : poolFor E (s.object o) = some p) :
    SameButStatuses (withServer E s o p a) (s.phpMmcPoolAddserver E o a).2 ∧
      ((s.phpMmcPoolAddserver E o a).1 = none ↔ RefusedLate p a) := by
  unfold phpMmcPoolAddserver
  rw [if_pos ha, hp]
  dsimp only
  have hprotocol : (poolWith E s p a).protocol = p.protocol := rfl
  by_cases hauth : p.protocol = .binary ∧ a.credentials = true
  · rw [if_pos (show (mmcPoolAdd E p _ _ _ _ _).protocol = .binary ∧ a.credentials = true from hauth)]
    refine ⟨(SameButStatuses.refl _).setStatuses _, ?_⟩
    cases hok : a.scheduling.ok with
    | true => simp [RefusedLate, hok]
    | false => simp [RefusedLate, hok, hauth]
  · rw [if_neg (show ¬ ((mmcPoolAdd E p _ _ _ _ _).protocol = .binary ∧ a.credentials = true) from hauth)]
    refine ⟨SameButStatuses.refl _, ?_⟩
    exact iff_of_false (Option.some_ne_none _) fun h => hauth ⟨h.1, h.2.1⟩

/-- Up to the statuses and the callback of the pool, which is now `p'`, a configuration is the one with
    the server. -/
structure HasServer (E : ConfigEnv κ δ) (s : Configuration κ δ) (o : Nat) (p : PoolConfig κ δ)
    (a : AddServerArgs κ) (p' : PoolConfig κ δ) (s' : Configuration κ δ) : Prop where
  server : ∀ m, SameAddress (s'.server m) ((withServer E s o p a).server m)
  next : s'.next = (withServer E s o p a).next
  persistentList : s'.persistentList = (withServer E s o p a).persistentList
  self : s'.object o = .pool p'
  others : ∀ o', o' ≠ o → s'.object o' = s.object o'
  servers : p'.servers = (poolWith E s p a).servers
  timeout : p'.timeout = (poolWith E s p a).timeout
  added : p'.added = (poolWith E s p a).added

theorem SameButStatuses.hasServer {s' : Configuration κ δ} {o : Nat} {p : PoolConfig κ δ}
    {a : AddServerArgs κ} (h : SameButStatuses (withServer E s o p a) s') :
    HasServer E s o p a (poolWith E s p a) s' where
  server := h.server
  next := h.next
  persistentList := h.persistentList
  self := by rw [h.object, withServer, setObject_object_self]
  others o' ho' := by
    rw [h.object, withServer, setObject_object_of_ne ho', (serverFor_serves s a _).object]
  servers := rfl
  timeout := rfl
  added := rfl

theorem HasServer.setStatuses {s' : Configuration κ δ} {o : Nat} {p p' : PoolConfig κ δ}
    {a : AddServerArgs κ} (h : HasServer E s o p a p' s') (statuses : Mmc → MmcStatus × MmcStatus) :
    HasServer E s o p a p' (s'.setStatuses statuses) :=
  { h with server := fun m => ⟨(h.server m).host, (h.server m).tcpPort, (h.server m).udpPort,
      (h.server m).timeout⟩ }

theorem HasServer.setCallback {s' : Configuration κ δ} {o : Nat} {p p' : PoolConfig κ δ}
    {a : AddServerArgs κ} (h : HasServer E s o p a p' s') (callback : Option κ) :
    HasServer E s o p a { p' with failureCallback := callback } (s'.setCallback o p' callback) where
  server := h.server
  next := h.next
  persistentList := h.persistentList
  self := setObject_object_self ..
  others o' ho' := (setObject_object_of_ne ho' _).trans (h.others o' ho')
  servers := h.servers
  timeout := h.timeout
  added := h.added

/-- **The rule for `addServer`**: what it does to a property of configurations is what adding the server
    does to it, if the arguments are accepted, and else nothing. -/
theorem memcacheAddServer_iff {P : Configuration κ δ → Prop} {Q : PoolConfig κ δ → Prop} {o : Nat}
    {a : AddServerArgs κ} (hs : P s)
    (h : ∀ p p' s', AcceptedArgs a → poolFor E (s.object o) = some p → HasServer E s o p a p' s' →
      (P s' ↔ Q p)) :
    P (s.memcacheAddServer E o a).2 ↔ (callbackAccepted E a.failureCallback = true →
      AcceptedArgs a → ∀ p, poolFor E (s.object o) = some p → Q p) := by
  unfold memcacheAddServer
  by_cases hcallback : callbackAccepted E a.failureCallback = true
  · rw [if_pos hcallback, forall_prop_of_true hcallback]
    by_cases hpool : AcceptedArgs a ∧ (poolFor E (s.object o)).isSome
    · obtain ⟨p, hp⟩ := Option.isSome_iff_exists.mp hpool.2
      have hQ : (AcceptedArgs a → ∀ p, poolFor E (s.object o) = some p → Q p) ↔ Q p :=
        ⟨fun hall => hall hpool.1 p hp, fun hq _ p' hp' => Option.some.inj (hp.symm.trans hp') ▸ hq⟩
      rw [hQ]
      have hhas := (phpMmcPoolAddserver_accepted hpool.1 hp).1.hasServer
      cases hresult : s.phpMmcPoolAddserver E o a with
      | mk server s' =>
        rw [hresult] at hhas
        dsimp only at hhas
        cases server with
        | none => exact h p _ s' hpool.1 hp hhas
        | some m =>
          cases hgiven : a.failureCallback with
          | none => exact h p _ s' hpool.1 hp hhas
          | some callback =>
            dsimp only
            rw [hhas.self]
            exact h p _ _ hpool.1 hp (hhas.setCallback (some callback))
    · rw [phpMmcPoolAddserver_rejected hpool]
      refine iff_of_true hs fun ha p hp => ?_
      exact absurd ⟨ha, Option.isSome_iff_exists.mpr ⟨p, hp⟩⟩ hpool
  · rw [if_neg hcallback]
    exact iff_of_true hs fun h => absurd h hcallback

/-- **The rule for `connect`**, whatever becomes of the connection. -/
theorem memcacheConnect_iff {P : Configuration κ δ → Prop} {Q : PoolConfig κ δ → Prop} {o : Nat}
    {a : AddServerArgs κ} (hs : P s)
    (h : ∀ p p' s', AcceptedArgs a → poolFor E (s.object o) = some p →
      HasServer E s o p { a with status := true } p' s' → (P s' ↔ Q p)) :
    P (s.memcacheConnect E o a).2 ↔
      (AcceptedArgs a → ∀ p, poolFor E (s.object o) = some p → Q p) := by
  unfold memcacheConnect
  by_cases hpool : AcceptedArgs a ∧ (poolFor E (s.object o)).isSome
  · obtain ⟨p, hp⟩ := Option.isSome_iff_exists.mp hpool.2
    have hQ : (AcceptedArgs a → ∀ p, poolFor E (s.object o) = some p → Q p) ↔ Q p :=
      ⟨fun hall => hall hpool.1 p hp, fun hq _ p' hp' => Option.some.inj (hp.symm.trans hp') ▸ hq⟩
    rw [hQ]
    have hhas := (phpMmcPoolAddserver_accepted (E := E) (a := { a with status := true }) hpool.1
      hp).1.hasServer
    cases hresult : s.phpMmcPoolAddserver E o { a with status := true } with
    | mk server s' =>
      rw [hresult] at hhas
      cases server with
      | none => exact h p _ s' hpool.1 hp hhas
      | some m => exact h p _ _ hpool.1 hp (hhas.setStatuses _)
  · rw [phpMmcPoolAddserver_rejected (a := { a with status := true }) hpool]
    refine iff_of_true hs fun ha p hp => ?_
    exact absurd ⟨ha, Option.isSome_iff_exists.mpr ⟨p, hp⟩⟩ hpool

/-! ## Rejected configuration -/

/-- A call that returns false has changed nothing. -/
def RejectedCleanly (s : Configuration κ δ) (r : Bool × Configuration κ δ) : Prop :=
  r.1 = false → r.2 = s

/-- `addServer` is accepted, and its authentication request refused. -/
def AddsAndFails (E : ConfigEnv κ δ) (s : Configuration κ δ) (o : Nat) (a : AddServerArgs κ) : Prop :=
  callbackAccepted E a.failureCallback = true ∧ AcceptedArgs a ∧
    ∃ p, poolFor E (s.object o) = some p ∧ RefusedLate p a

/-- The threshold is accepted, is not the one the pool has, and the savings are refused. -/
def StoresAndFails (E : ConfigEnv κ δ) (s : Configuration κ δ) (o : Nat) (threshold : Int)
    (minSavings : δ) : Prop :=
  ∃ p, s.object o = .pool p ∧ 0 ≤ threshold ∧ (threshold % 2 ^ 32).toNat ≠ p.compressThreshold ∧
    minSavings ≠ E.defaultSavings ∧ E.outOfRange minSavings = true

/-- A pool with another server is not the pool of the object before. -/
theorem withServer_ne {o : Nat} {p : PoolConfig κ δ} (hp : poolFor E (s.object o) = some p)
    (a : AddServerArgs κ) {s' : Configuration κ δ} (h : SameButStatuses (withServer E s o p a) s') :
    s' ≠ s := by
  rintro rfl
  have hobject := congrFun h.object o
  rw [withServer, setObject_object_self] at hobject
  rw [hobject] at hp
  have hlength := congrArg (fun q => q.servers.length) (Option.some.inj hp)
  exact absurd hlength (by simp [poolWith, mmcPoolAdd])

theorem memcacheAddServer_rejectedCleanly_iff (E : ConfigEnv κ δ) (s : Configuration κ δ) (o : Nat)
    (a : AddServerArgs κ) :
    RejectedCleanly s (s.memcacheAddServer E o a) ↔ ¬ AddsAndFails E s o a := by
  unfold RejectedCleanly memcacheAddServer
  by_cases hcallback : callbackAccepted E a.failureCallback = true
  · rw [if_pos hcallback]
    by_cases hpool : AcceptedArgs a ∧ (poolFor E (s.object o)).isSome
    · obtain ⟨p, hp⟩ := Option.isSome_iff_exists.mp hpool.2
      obtain ⟨hsame, hnone⟩ := phpMmcPoolAddserver_accepted hpool.1 hp
      have hadds : AddsAndFails E s o a ↔ RefusedLate p a := by
        refine ⟨?_, fun h => ⟨hcallback, hpool.1, p, hp, h⟩⟩
        rintro ⟨-, -, p', hp', h⟩
        exact Option.some.inj (hp'.symm.trans hp) ▸ h
      rw [hadds, ← hnone]
      cases hresult : s.phpMmcPoolAddserver E o a with
      | mk server s' =>
        rw [hresult] at hsame
        cases server with
        | none =>
          exact iff_of_false (fun h => withServer_ne hp a hsame (h rfl)) fun h => h rfl
        | some m =>
          refine iff_of_true (fun h => ?_) (Option.some_ne_none m)
          dsimp only at h
          split at h <;> cases h
    · rw [phpMmcPoolAddserver_rejected hpool]
      refine iff_of_true (fun _ => rfl) ?_
      rintro ⟨-, ha, p, hp, -⟩
      exact hpool ⟨ha, Option.isSome_iff_exists.mpr ⟨p, hp⟩⟩
  · rw [if_neg hcallback]
    exact iff_of_true (fun _ => rfl) fun h => hcallback h.1

theorem memcacheSetServerParams_rejectedCleanly (E : ConfigEnv κ δ) (s : Configuration κ δ) (o : Nat)
    (host : Bytes) (port : Int) (timeout : Timeval) (retryInterval : Int) (status : Bool)
    (callback : Option (Option κ)) :
    RejectedCleanly s
      (s.memcacheSetServerParams E o host port timeout retryInterval status callback) := by
  unfold RejectedCleanly memcacheSetServerParams
  intro h
  split at h
  · split at h
    · rfl
    · split at h
      · cases h
      · next hcallback => rw [if_neg hcallback]
  · rfl

theorem memcacheSetFailureCallback_rejectedCleanly (E : ConfigEnv κ δ) (s : Configuration κ δ)
    (o : Nat) (callback : Option κ) :
    RejectedCleanly s (s.memcacheSetFailureCallback E o callback) := by
  unfold RejectedCleanly memcacheSetFailureCallback
  intro h
  split at h
  · split at h
    · cases h
    · next hcallback => rw [if_neg hcallback]
  · rfl

theorem memcacheSetCompressThreshold_rejectedCleanly_iff [DecidableEq δ] (E : ConfigEnv κ δ)
    (s : Configuration κ δ) (o : Nat) (threshold : Int) (minSavings : δ) :
    RejectedCleanly s (s.memcacheSetCompressThreshold E o threshold minSavings) ↔
      ¬ StoresAndFails E s o threshold minSavings := by
  unfold RejectedCleanly memcacheSetCompressThreshold
  cases hobject : s.object o with
  | missing => exact iff_of_true (fun _ => rfl) (by rintro ⟨p, hp, -⟩; rw [hobject] at hp; cases hp)
  | invalid => exact iff_of_true (fun _ => rfl) (by rintro ⟨p, hp, -⟩; rw [hobject] at hp; cases hp)
  | pool p =>
    have hstores : StoresAndFails E s o threshold minSavings ↔
        0 ≤ threshold ∧ (threshold % 2 ^ 32).toNat ≠ p.compressThreshold ∧
          minSavings ≠ E.defaultSavings ∧ E.outOfRange minSavings = true := by
      constructor
      · rintro ⟨p', hp', h⟩
        rw [hobject] at hp'
        cases hp'
        exact h
      · intro h
        exact ⟨p, hobject, h⟩
    rw [hstores]
    dsimp only
    by_cases hthreshold : threshold < 0
    · rw [if_pos hthreshold]
      exact iff_of_true (fun _ => rfl) fun h => absurd h.1 (by omega)
    · rw [if_neg hthreshold]
      by_cases hsavings : minSavings ≠ E.defaultSavings
      · rw [if_pos hsavings]
        by_cases hrange : E.outOfRange minSavings = true
        · rw [if_pos hrange]
          -- the pool is the one before if and only if it had this threshold
          have hsame : s.setObject o { p with compressThreshold := (threshold % 2 ^ 32).toNat } = s ↔
              (threshold % 2 ^ 32).toNat = p.compressThreshold := by
            constructor
            · intro h
              have hself := congrFun (congrArg Configuration.object h) o
              rw [setObject_object_self, hobject] at hself
              exact congrArg PoolConfig.compressThreshold (Connection.pool.inj hself)
            · intro h
              rw [h, setObject, ← hobject, Function.update_eq_self]
          constructor
          · intro h hstore
            exact hstore.2.1 (hsame.mp (h rfl))
          · intro h _
            refine hsame.mpr (by_contra fun hother => h ⟨by omega, hother, hsavings, hrange⟩)
        · rw [if_neg hrange]
          exact iff_of_true (fun h => by cases h) fun h => hrange h.2.2.2
      · rw [if_neg hsavings]
        exact iff_of_true (fun h => by cases h) fun h => hsavings h.2.2.1

/-- **When rejected configuration changes nothing**, for every configuration and all arguments. -/
theorem rejectedCleanly_iff [DecidableEq δ] (E : ConfigEnv κ δ) (s : Configuration κ δ) (o : Nat) :
    (∀ a, RejectedCleanly s (s.memcacheAddServer E o a) ↔ ¬ AddsAndFails E s o a) ∧
    (∀ host port timeout retryInterval status callback, RejectedCleanly s
      (s.memcacheSetServerParams E o host port timeout retryInterval status callback)) ∧
    (∀ callback, RejectedCleanly s (s.memcacheSetFailureCallback E o callback)) ∧
    (∀ threshold minSavings, RejectedCleanly s
      (s.memcacheSetCompressThreshold E o threshold minSavings) ↔
        ¬ StoresAndFails E s o threshold minSavings) :=
  ⟨memcacheAddServer_rejectedCleanly_iff E s o, memcacheSetServerParams_rejectedCleanly E s o,
    memcacheSetFailureCallback_rejectedCleanly E s o,
    memcacheSetCompressThreshold_rejectedCleanly_iff E s o⟩

/-- The text protocol, no callback that can be called, and savings in percent. -/
def sampleEnv : ConfigEnv Unit Nat where
  protocol := .ascii
  compressThreshold := 20000
  defaultSavings := 20
  outOfRange n := decide (100 < n)
  callable _ := false
  timevalToDouble t := t

/-- Savings of 200 percent are refused, and the threshold is another one. -/
theorem refusedSavings_storeThreshold :
    ¬ RejectedCleanly (({} : Configuration Unit Nat).setObject 0 (mmcPoolNew sampleEnv))
      ((({} : Configuration Unit Nat).setObject 0 (mmcPoolNew sampleEnv)).memcacheSetCompressThreshold
        sampleEnv 0 10 200) := by
  intro h
  have hthreshold := congrFun (congrArg Configuration.object (h rfl)) 0
  exact absurd (congrArg PoolConfig.compressThreshold (Connection.pool.inj hthreshold)) (by decide)

end Configuration

end PeclMemcache
