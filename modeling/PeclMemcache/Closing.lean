import PeclMemcache.Members

set_option autoImplicit false

/-! # Closing a pool

`mmc_pool_close` frees the servers of a pool, or puts them to sleep, and makes a new hash state. The
pool lives on: its queues are what they were, and servers can be added to it again. -/

namespace PeclMemcache

open Stateful Machines

/-! ## The hash state -/

/-- `mmc_consistent_hash`. -/
def mmcConsistentHash (qsort : List MmcConsistentPoint → List MmcConsistentPoint)
    (hash : MmcHashFunction) : HashStrategy where
  State := MmcConsistentState
  createState := {}
  addServer := mmcConsistentAddServer hash
  findServer state key := (serverOf qsort hash state key).getD 0

/-- The settings that a hash state is made with. They can change at any time. -/
structure HashSettings where
  consistent : Bool
  function : MmcHashFunction

variable (qsort : List MmcConsistentPoint → List MmcConsistentPoint)

/-- `mmc_pool_init_hash`. -/
def mmcPoolInitHash (g : HashSettings) : HashStrategy :=
  if g.consistent then mmcConsistentHash qsort g.function else mmcStandardHash g.function

/-- The hash state with some servers in it. -/
def HashStrategy.stateOf (H : HashStrategy) (added : List (AddedServer × Nat)) : H.State :=
  added.foldl (fun state a => H.addServer state a.1 a.2) H.createState

/-! ## The life of a pool -/

/-- A pool with its hash state, and the servers that were freed. -/
structure PoolLife where
  settings : HashSettings
  hash : (mmcPoolInitHash qsort settings).State
  world : World
  freed : List Mmc := []

/-- What is done with a pool. -/
inductive PoolCall
  | addServer (call : AddServerCall)
  | op (op : PoolOp)
  | close (g : HashSettings)

/-- `mmc_server_free` on the streams and the slots. -/
def mmcServerFree (s : MmcServer) : MmcServer :=
  let s := mmcServerSleep s
  { s with
    tcp := s.tcp.disconnect
    udp := s.udp.disconnect }

variable {qsort}

/-- The members of the pool. -/
abbrev PoolLife.servers (s : PoolLife qsort) : List Mmc := s.world.pool.servers

/-- The lookup of the hash state. -/
def PoolLife.find (s : PoolLife qsort) : Bytes → Mmc :=
  (mmcPoolInitHash qsort s.settings).findServer s.hash

variable (qsort) in
/-- `mmc_pool_new`. -/
def mmcPoolNew (g : HashSettings) (protocol : WireProtocol) (selectApi : SelectApi) (w : World) :
    PoolLife qsort where
  settings := g
  hash := (mmcPoolInitHash qsort g).createState
  world :=
    let H := mmcPoolInitHash qsort g
    { w with pool := { protocol, selectApi, findServer := H.findServer H.createState } }

/-- `mmc_pool_close`; the settings are those of the time of the call. -/
def mmcPoolClose (s : PoolLife qsort) (g : HashSettings) : PoolLife qsort :=
  if s.servers = [] then s
  else
    let H := mmcPoolInitHash qsort g
    let sleepOrFree (server : MmcServer) :=
      if server.persistent then mmcServerSleep server else mmcServerFree server
    { settings := g
      hash := H.createState
      world := { s.world with
        pool := { s.world.pool with servers := [], findServer := H.findServer H.createState }
        mmc := fun m => if m ∈ s.servers then sleepOrFree (s.world.mmc m) else s.world.mmc m }
      freed := s.freed ++ s.servers.filter fun m => !(s.world.mmc m).persistent }

/-- Whether an API function does this with a pool that has these servers: most return at once if there
    are none, but `flush` runs the pool all the same. -/
def PoolOp.PossibleWith (servers : List Mmc) : PoolOp → Prop
  | .schedule m _ => m ∈ servers
  | .run => True
  | _ => servers ≠ []

instance (servers : List Mmc) (op : PoolOp) : Decidable (op.PossibleWith servers) := by
  cases op <;> unfold PoolOp.PossibleWith <;> infer_instance

variable (E : Env) (fuel depth : Nat)

/-- A call. Where a function does not come to its end, the state is that in which it is; so the states
    inside of the functions are met, too. `mmc_server_new` may give the memory of a server that was
    freed. -/
def PoolLife.perform (s : PoolLife qsort) : PoolCall → Option (PoolLife qsort)
  | .addServer call =>
    if call.accepted then
      let H := mmcPoolInitHash qsort s.settings
      let hash := H.addServer s.hash call.server call.weight
      let fh := failoverHandler E fuel depth
      some { s with
        hash
        world := (phpMmcPoolAddserver E fh (H.findServer hash) call s.world).2
        freed := s.freed.filter (· ≠ call.server.mmc) }
    else some s
  | .op op =>
    if op.PossibleWith s.servers then some { s with world := (op.exec E fuel depth s.world).2 }
    else none
  | .close g => some (mmcPoolClose s g)

/-- **No dangling servers**: what the queues of the pool refer to are members, and were not freed. -/
def PoolLife.NoDangling (s : PoolLife qsort) : Prop :=
  ∀ m, s.world.pool.Refers m → m ∈ s.servers ∧ m ∉ s.freed

/-- No server is in a queue of the pool. -/
def MmcPool.Drained (p : MmcPool) : Prop :=
  (∀ b, p.sendingBuf b = [] ∧ p.readingBuf b = []) ∧ p.pending = []

instance (p : MmcPool) : Decidable p.Drained := by
  unfold MmcPool.Drained
  infer_instance

/-- The condition: a pool with servers is closed only while its queues are empty. -/
def PoolLife.Careful (s : PoolLife qsort) : PoolCall → Prop
  | .close _ => s.servers = [] ∨ s.world.pool.Drained
  | _ => True

instance PoolLife.decidableCareful (s : PoolLife qsort) (call : PoolCall) : Decidable (s.Careful call) := by
  cases call <;> unfold PoolLife.Careful <;> infer_instance

/-! ## Lookups find members -/

/-- Servers as `addServer` accepts them. -/
def Proper (added : List (AddedServer × Nat)) : Prop :=
  ∀ a ∈ added, 1 ≤ a.2 ∧ a.2 * MMC_CONSISTENT_POINTS < 2 ^ 31

variable {hash : MmcHashFunction}

theorem HashStrategy.stateOf_append (H : HashStrategy) (added : List (AddedServer × Nat))
    (s : AddedServer) (weight : Nat) :
    H.stateOf (added ++ [(s, weight)]) = H.addServer (H.stateOf added) s weight :=
  List.foldl_concat ..

/-- The buckets of the standard strategy are the servers, each of them as often as its weight says. -/
theorem mmcStandardHash_buckets (added : List (AddedServer × Nat)) :
    ((mmcStandardHash hash).stateOf added).buckets
      = added.flatMap fun a => List.replicate a.2 a.1.mmc := by
  induction added using List.reverseRecOn with
  | nil => rfl
  | append_singleton added a ih =>
    rw [HashStrategy.stateOf_append, List.flatMap_append, List.flatMap_singleton, ← ih]
    rfl

/-- **The standard strategy** finds a server that was added. -/
theorem mmcStandardHash_find_mem {added : List (AddedServer × Nat)} (hne : added ≠ [])
    (hproper : Proper added) (key : Bytes) :
    (mmcStandardHash hash).findServer ((mmcStandardHash hash).stateOf added) key
      ∈ added.map (·.1.mmc) := by
  have hbuckets : ((mmcStandardHash hash).stateOf added).buckets
      = added.flatMap fun a => List.replicate a.2 a.1.mmc := mmcStandardHash_buckets added
  have hmem : ∀ m ∈ ((mmcStandardHash hash).stateOf added).buckets, m ∈ added.map (·.1.mmc) := by
    intro m hm
    rw [hbuckets, List.mem_flatMap] at hm
    obtain ⟨a, ha, hrep⟩ := hm
    rw [List.eq_of_mem_replicate hrep]
    exact List.mem_map_of_mem ha
  have hpos : 0 < ((mmcStandardHash hash).stateOf added).buckets.length := by
    obtain ⟨a, rest, rfl⟩ := List.exists_cons_of_ne_nil hne
    have hweight := (hproper a List.mem_cons_self).1
    rw [hbuckets, List.flatMap_cons, List.length_append, List.length_replicate]
    omega
  have hget {i : Nat} (hi : i < ((mmcStandardHash hash).stateOf added).buckets.length) :
      ((mmcStandardHash hash).stateOf added).buckets.getD i 0 ∈ added.map (·.1.mmc) := by
    refine hmem _ ?_
    rw [List.getD_eq_getElem _ _ hi]
    exact List.getElem_mem hi
  change mmcStandardFindServer hash _ key ∈ _
  unfold mmcStandardFindServer
  split
  · exact hget (Nat.mod_lt _ hpos)
  · exact hget hpos

/-- The points of the consistent strategy are those of the servers. -/
theorem stateOf_mmcConsistentHash (added : List (AddedServer × Nat)) :
    StateOf hash added ((mmcConsistentHash qsort hash).stateOf added) := by
  induction added using List.reverseRecOn with
  | nil => exact ⟨List.Perm.refl _, rfl, fun h => by cases h⟩
  | append_singleton added a ih =>
    rw [HashStrategy.stateOf_append]
    exact ih.addServer a.1 a.2

/-- A lookup in a state with points finds a server that was added. -/
theorem StateOf.findServer_mem (hqsort : Sorts qsort) {added : List (AddedServer × Nat)}
    {state : MmcConsistentState} (h : StateOf hash added state) (hpoints : state.points ≠ [])
    (key : Bytes) :
    ∃ m state', mmcConsistentFindServer qsort hash state key = some (m, state') ∧
      m ∈ added.map (·.1.mmc) ∧ StateOf hash added state' := by
  have howner {p : MmcConsistentPoint} (hp : p ∈ added.flatMap fun a => serverPoints hash a.1 a.2) :
      p.server ∈ added.map (·.1.mmc) := by
    obtain ⟨a, ha, hp⟩ := List.mem_flatMap.mp hp
    rw [serverPoints_server p hp]
    exact List.mem_map_of_mem ha
  obtain ⟨m, state', hfind, h', -, hserver⟩ := h.findServer hqsort hpoints key
  refine ⟨m, state', hfind, ?_, h'⟩
  rcases hserver with ⟨-, table, htable, hm⟩ | ⟨-, p, hp, rfl⟩
  · obtain ⟨table', htable', htableOf⟩ := h.nextTable hqsort hpoints
    obtain rfl := Option.some.inj (htable.symm.trans htable')
    obtain ⟨_, -, hp⟩ := htableOf.serves _ m hm
    obtain ⟨q, hq, hqm⟩ := mem_ring.mp hp
    have howns : q.server = m := congrArg Prod.snd hqm
    exact howns ▸ howner hq
  · exact howner (h.points.mem_iff.mp hp)

/-- **The consistent strategy** finds a server that was added. -/
theorem mmcConsistentHash_find_mem (hqsort : Sorts qsort) {added : List (AddedServer × Nat)}
    (hne : added ≠ []) (hproper : Proper added) (key : Bytes) :
    (mmcConsistentHash qsort hash).findServer ((mmcConsistentHash qsort hash).stateOf added) key
      ∈ added.map (·.1.mmc) := by
  have hstate : StateOf hash added ((mmcConsistentHash qsort hash).stateOf added) :=
    stateOf_mmcConsistentHash added
  have hpoints : ((mmcConsistentHash qsort hash).stateOf added).points ≠ [] := by
    obtain ⟨a, rest, rfl⟩ := List.exists_cons_of_ne_nil hne
    have ha := hproper a List.mem_cons_self
    have hfirst : serverPoints hash a.1 a.2 ≠ [] := serverPoints_ne_nil ha.1 ha.2
    intro hnil
    have hperm := hstate.points
    rw [hnil, List.flatMap_cons] at hperm
    exact hfirst (List.append_eq_nil_iff.mp (List.nil_perm.mp hperm)).1
  obtain ⟨m, state', hfind, hmem, -⟩ := hstate.findServer_mem hqsort hpoints key
  have hresult : (mmcConsistentHash qsort hash).findServer
      ((mmcConsistentHash qsort hash).stateOf added) key = m := by
    change ((mmcConsistentFindServer qsort hash _ key).map Prod.fst).getD 0 = m
    rw [hfind]
    rfl
  rw [hresult]
  exact hmem

/-- A lookup finds a server that was added. -/
theorem mmcPoolInitHash_find_mem (hqsort : Sorts qsort) (g : HashSettings)
    {added : List (AddedServer × Nat)} (hne : added ≠ []) (hproper : Proper added) (key : Bytes) :
    (mmcPoolInitHash qsort g).findServer ((mmcPoolInitHash qsort g).stateOf added) key
      ∈ added.map (·.1.mmc) := by
  by_cases hconsistent : g.consistent = true
  · have hinit : mmcPoolInitHash qsort g = mmcConsistentHash qsort g.function := if_pos hconsistent
    rw [hinit]
    exact mmcConsistentHash_find_mem hqsort hne hproper key
  · have hinit : mmcPoolInitHash qsort g = mmcStandardHash g.function := if_neg hconsistent
    rw [hinit]
    exact mmcStandardHash_find_mem hne hproper key

/-! ## Calls -/

/-- A queue is drained exactly if nobody is in it. -/
theorem MmcPool.drained_iff (p : MmcPool) : p.Drained ↔ ∀ m, ¬p.Refers m := by
  constructor
  · rintro ⟨hqueues, hpending⟩ m (⟨b, hm | hm⟩ | hm)
    · exact List.not_mem_nil ((hqueues b).1 ▸ hm)
    · exact List.not_mem_nil ((hqueues b).2 ▸ hm)
    · exact List.not_mem_nil (hpending ▸ hm)
  · intro hnone
    refine ⟨fun b => ⟨?_, ?_⟩, ?_⟩
    · exact List.eq_nil_iff_forall_not_mem.mpr fun m hm => hnone m (Or.inl ⟨b, Or.inl hm⟩)
    · exact List.eq_nil_iff_forall_not_mem.mpr fun m hm => hnone m (Or.inl ⟨b, Or.inr hm⟩)
    · exact List.eq_nil_iff_forall_not_mem.mpr fun m hm => hnone m (Or.inr hm)

section Calls

variable {E fuel depth} {members : List Mmc} {find find' : Bytes → Mmc} {fh : Failover}

/-- What a program keeps holds in the state it leaves, also where it does not come to its end. -/
theorem Confines.after {α : Type} {x : PoolM α} {w : World} (h : Confines members find x)
    (hw : w.pool.Confined members find) : (x w).2.pool.Confined members find := by
  have hx := h w hw
  cases hrun : x w with
  | mk result w' =>
    cases result with
    | ok a => exact hx.1 a w' hrun
    | error e => exact hx.2 e w' hrun

/-- A pool without servers, in the queues of which nobody is, is run without any effect. -/
theorem confines_mmcPoolRun_nil : Confines [] find (mmcPoolRun E fuel fh) := by
  intro w hw
  obtain ⟨hqueues, hpending⟩ := (MmcPool.drained_iff w.pool).mpr fun m hm =>
    List.not_mem_nil (hw.member m hm)
  cases fuel with
  | zero => exact (Confines.bind (Confines.outOfFuel (α := Unit)) fun _ => Confines.outOfFuel) w hw
  | succ fuel =>
    have hidle : ¬(w.pool.reading ≠ [] ∨ w.pool.sending ≠ []) := by
      rintro (hreading | hsending)
      · exact hreading (hqueues _).2
      · exact hsending (hqueues _).1
    rw [mmcPoolRun, wp_bind, mmcPoolSchedulePending, wp_bind, wp_getPool, hpending]
    dsimp only
    rw [wp_pure, runLoop, wp_bind, wp_getPool]
    rw [if_neg hidle, wp_pure]
    exact hw

/-- **`php_mmc_pool_addserver`** leaves members in the queues: the new server is one, and lookups for the
    authentication request find members. -/
theorem addserver_confined {call : AddServerCall} {w : World}
    (hfh : ∀ m r, Confines (members ++ [call.server.mmc]) find' (fh m r))
    (hfind : ∀ key, find' key ∈ members ++ [call.server.mmc]) (hw : w.pool.Confined members find) :
    (phpMmcPoolAddserver E fh find' call w).2.pool.Confined (members ++ [call.server.mmc]) find' := by
  have hrest : Confines (members ++ [call.server.mmc]) find' (do
      if (← getPool).protocol = .binary ∧ 1 < call.user.length ∧ 1 < call.password.length then
        let r ← mmcPoolRequest E .tcp .stored 0 .pool
        modifyReq r fun q => mmcSetSaslAuthData q (cString call.user) (cString call.password)
        step E .saslAuth
        let q ← getReq r
        let result ← mmcPoolScheduleKeySized E fh q.key q.keyLen r E.redundancy
        if result ≠ .ok then return none else return some call.server.mmc
      else return some call.server.mmc) := by
    refine Confines.bind_getPool fun _ _ => Confines.ite ?_ (Confines.pure _)
    refine Confines.bind (confines_mmcPoolRequest _ _ _ _) fun r => Confines.bind (Confines.modifyReq r _) ?_
    refine fun _ => Confines.bind (Confines.step E _) fun _ => Confines.bind (Confines.getReq r) fun q => ?_
    refine Confines.bind (confines_mmcPoolScheduleKeySized hfh hfind _ _ r _) fun _ => ?_
    exact Confines.ite (Confines.pure _) (Confines.pure _)
  -- the server is added before anything is scheduled
  have hadded : { w.pool with
      findServer := find'
      servers := w.pool.servers ++ [call.server.mmc] : MmcPool }.Confined
        (members ++ [call.server.mmc]) find' :=
    ⟨congrArg (· ++ _) hw.servers, rfl, fun m hm => List.mem_append_left _ (hw.member m hm)⟩
  exact hrest.after (w := { w with
    mmc := Function.update w.mmc call.server.mmc call.record
    pool := { w.pool with
      findServer := find'
      servers := w.pool.servers ++ [call.server.mmc] } }) hadded

end Calls

/-! ## Whole lives -/

/-- The invariant: the hash state is that of the members, only members are in the queues, and members
    were not freed. -/
structure PoolLife.Sound (s : PoolLife qsort) : Prop where
  history : ∃ added : List (AddedServer × Nat), Proper added ∧
    s.hash = (mmcPoolInitHash qsort s.settings).stateOf added ∧ s.servers = added.map (·.1.mmc)
  confined : s.world.pool.Confined s.servers s.find
  alive : ∀ m ∈ s.servers, m ∉ s.freed

namespace PoolLife.Sound

variable {E fuel depth} {s s' : PoolLife qsort}

theorem noDangling (h : s.Sound) : s.NoDangling := by
  intro m hm
  have hmember := h.confined.member m hm
  exact ⟨hmember, h.alive m hmember⟩

theorem find_mem (hqsort : Sorts qsort) (h : s.Sound) (hne : s.servers ≠ []) (key : Bytes) :
    s.find key ∈ s.servers := by
  obtain ⟨added, hproper, hhash, hservers⟩ := h.history
  rw [hservers] at hne ⊢
  rw [PoolLife.find, hhash]
  refine mmcPoolInitHash_find_mem hqsort _ ?_ hproper key
  rintro rfl
  exact hne rfl

theorem addServer (hqsort : Sorts qsort) (h : s.Sound) (call : AddServerCall)
    (hs' : s.perform E fuel depth (.addServer call) = some s') : s'.Sound := by
  rw [PoolLife.perform] at hs'
  split at hs'
  · rename_i haccepted
    obtain rfl := Option.some.inj hs'
    obtain ⟨added, hproper, hhash, hservers⟩ := h.history
    have hproper' : Proper (added ++ [(call.server, call.weight)]) := by
      intro a ha
      rcases List.mem_append.mp ha with ha | ha
      · exact hproper a ha
      · rw [List.mem_singleton.mp ha]
        exact ⟨haccepted.1, call.fits⟩
    have hstate : (mmcPoolInitHash qsort s.settings).addServer s.hash call.server call.weight
        = (mmcPoolInitHash qsort s.settings).stateOf (added ++ [(call.server, call.weight)]) := by
      rw [HashStrategy.stateOf_append, hhash]
    have hmap : s.servers ++ [call.server.mmc]
        = (added ++ [(call.server, call.weight)]).map (·.1.mmc) := by
      rw [List.map_append, hservers]
      rfl
    have hfind (key : Bytes) : (mmcPoolInitHash qsort s.settings).findServer
        ((mmcPoolInitHash qsort s.settings).addServer s.hash call.server call.weight) key
          ∈ s.servers ++ [call.server.mmc] := by
      rw [hstate, hmap]
      exact mmcPoolInitHash_find_mem hqsort _ (List.append_ne_nil_of_right_ne_nil _ (by simp)) hproper' key
    have hfh (m : Mmc) (r : ReqId) := confines_failoverHandler (E := E) hfind fuel depth m r
    have hconfined := addserver_confined (E := E) hfh hfind h.confined
    refine ⟨⟨_, hproper', hstate, hconfined.servers.trans hmap⟩, ?_, ?_⟩
    · dsimp only [PoolLife.servers]
      rw [hconfined.servers]
      exact hconfined
    · intro m hm hfreed
      rw [PoolLife.servers, hconfined.servers] at hm
      obtain ⟨hfreed, hne⟩ := List.mem_filter.mp hfreed
      rcases List.mem_append.mp hm with hold | hnew
      · exact h.alive m hold hfreed
      · exact of_decide_eq_true hne (List.mem_singleton.mp hnew)
  · obtain rfl := Option.some.inj hs'
    exact h

theorem op (hqsort : Sorts qsort) (h : s.Sound) (op : PoolOp)
    (hs' : s.perform E fuel depth (.op op) = some s') : s'.Sound := by
  rw [PoolLife.perform] at hs'
  split at hs'
  · rename_i hpossible
    obtain rfl := Option.some.inj hs'
    have hconfines : Confines s.servers s.find (op.exec E fuel depth) := by
      by_cases hempty : s.servers = []
      · rw [hempty] at hpossible ⊢
        cases op with
        | schedule m a => exact absurd hpossible List.not_mem_nil
        | run => exact confines_mmcPoolRun_nil
        | discard a => exact absurd rfl hpossible
        | scheduleKey a redundancy => exact absurd rfl hpossible
        | scheduleGet a zkey => exact absurd rfl hpossible
        | schedulePending => exact absurd rfl hpossible
        | select => exact absurd rfl hpossible
      · refine confines_exec (h.find_mem hqsort hempty) fuel depth op ?_
        rintro m a rfl
        exact hpossible
    have hafter := hconfines.after h.confined
    obtain ⟨added, hproper, hhash, hservers⟩ := h.history
    refine ⟨⟨added, hproper, hhash, hafter.servers.trans hservers⟩, ?_, fun m hm => ?_⟩
    · dsimp only [PoolLife.servers]
      rw [hafter.servers]
      exact hafter
    · rw [PoolLife.servers, hafter.servers] at hm
      exact h.alive m hm
  · cases hs'

theorem close (h : s.Sound) {g : HashSettings} (hcareful : s.Careful (.close g)) :
    (mmcPoolClose s g).Sound := by
  rw [mmcPoolClose]
  split
  · exact h
  · rename_i hne
    have hdrained := (MmcPool.drained_iff _).mp (hcareful.resolve_left hne)
    have hproper : Proper [] := fun a ha => absurd ha List.not_mem_nil
    refine ⟨⟨[], hproper, rfl, rfl⟩, ⟨rfl, rfl, fun m hm => ?_⟩, fun m hm => absurd hm List.not_mem_nil⟩
    exact absurd hm (hdrained m)

/-- **A call that is careful** keeps the invariant. -/
theorem perform (hqsort : Sorts qsort) (call : PoolCall) (h : s.Sound) (hcareful : s.Careful call)
    (hs' : s.perform E fuel depth call = some s') : s'.Sound := by
  cases call with
  | addServer call => exact h.addServer hqsort call hs'
  | op op => exact h.op hqsort op hs'
  | close g =>
    obtain rfl := Option.some.inj hs'
    exact h.close hcareful

end PoolLife.Sound

variable {E fuel depth}

/-- The other calls leave a server in a queue of a pool without servers. -/
theorem PoolLife.dangling_of_careless {s : PoolLife qsort} {call : PoolCall}
    (hcareless : ¬s.Careful call) :
    ∃ s', s.perform E fuel depth call = some s' ∧ ¬s'.NoDangling := by
  cases call with
  | addServer call => exact absurd trivial hcareless
  | op op => exact absurd trivial hcareless
  | close g =>
    obtain ⟨hne, hqueued⟩ := not_or.mp hcareless
    rw [MmcPool.drained_iff] at hqueued
    obtain ⟨m, hm⟩ := not_forall_not.mp hqueued
    refine ⟨_, rfl, fun h => ?_⟩
    rw [mmcPoolClose, if_neg hne] at h
    exact List.not_mem_nil (h m hm).1

/-- **No server dangles** in any state of the life of a pool, if and only if each time it is closed its
    queues are empty. -/
theorem noDangling_iff_careful (hqsort : Sorts qsort) (g : HashSettings) (protocol : WireProtocol)
    (selectApi : SelectApi) (w : World) (calls : List PoolCall) :
    (∀ n s, performAll (PoolLife.perform E fuel depth) (calls.take n)
      (mmcPoolNew qsort g protocol selectApi w) = some s → s.NoDangling) ↔
      Obeys (PoolLife.perform E fuel depth) PoolLife.Careful calls
        (mmcPoolNew qsort g protocol selectApi w) := by
  have hnew : (mmcPoolNew qsort g protocol selectApi w).Sound := by
    have hproper : Proper [] := fun a ha => absurd ha List.not_mem_nil
    refine ⟨⟨[], hproper, rfl, rfl⟩, ⟨rfl, rfl, fun m hm => ?_⟩, fun m hm => absurd hm List.not_mem_nil⟩
    rcases hm with ⟨b, hm | hm⟩ | hm
    · exact hm
    · exact hm
    · exact hm
  exact everywhere_iff (fun s h => h.noDangling)
    (fun s call s' h hcareful hs' => h.perform hqsort call hcareful hs')
    (fun s call _ hcareless => PoolLife.dangling_of_careless hcareless) hnew

/-- The standard strategy with FNV. -/
def standardSettings : HashSettings := ⟨false, mmcHashFnv1a⟩

/-- A pool with no servers. -/
def newPool : PoolLife fun points => points.mergeSort fun p q => decide (p.point ≤ q.point) :=
  mmcPoolNew _ standardSettings .binary .select binaryPool

/-- A server that is added without credentials, and a pool that is closed. -/
def addAndClose : List PoolCall :=
  [.addServer { firstCall.toAddServerCall with user := [], password := [] }, .close standardSettings]

theorem noDangling_addAndClose :
    Obeys (PoolLife.perform connects 9 9) PoolLife.Careful addAndClose newPool ∧
      ∀ n s, performAll (PoolLife.perform connects 9 9) (addAndClose.take n) newPool = some s →
        s.NoDangling := by
  have hcareful : Obeys (PoolLife.perform connects 9 9) PoolLife.Careful addAndClose newPool := by decide
  exact ⟨hcareful, (noDangling_iff_careful mergeSort_sorts standardSettings .binary .select binaryPool
    addAndClose).mpr hcareful⟩

/-- A server that is added with credentials is freed with its authentication request in `sending`. -/
theorem authenticateAndClose_dangles :
    ∃ s, performAll (PoolLife.perform connects 9 9)
      [.addServer firstCall.toAddServerCall, .close standardSettings] newPool = some s ∧
        (firstCall.server.mmc ∈ s.world.pool.sending ∧ firstCall.server.mmc ∈ s.freed) ∧
          ¬s.NoDangling := by
  refine ⟨_, rfl, ⟨by decide, by decide⟩, fun h => ?_⟩
  have hqueued := h firstCall.server.mmc (Or.inl ⟨false, Or.inl (by decide)⟩)
  exact hqueued.2 (by decide)

end PeclMemcache
