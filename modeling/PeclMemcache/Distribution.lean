import PeclMemcache.Gathering

set_option autoImplicit false

/-! # The keys of a multi-key get

What the requests of a multi-key get contain, in a run in which no server fails: each of its valid keys
once, in a request of the server the key belongs to; and no datagram is longer than
`MMC_MAX_UDP_LEN`. -/

namespace PeclMemcache

open Stateful Packing

/-! ## Operations keep the order -/

section Operations

variable {E : Env} (hE : NoFailures E) {fh : Failover} (hfh : ∀ m r, Fails (fh m r))
  {held : Set ReqId} {w₀ w w' : World} {r : ReqId}

/-- The requests in `held` are where they were, and so are the build slots. -/
structure KeepsOrder (held : Set ReqId) (w₀ w : World) : Prop extends SameSlots w₀ w where
  tidy : w.Tidy held .between

theorem KeepsOrder.orderly (h : w.Orderly) (hs : KeepsOrder w.builds w w') : w'.Orderly := by
  have hbuilds : w'.builds = w.builds := by
    ext x
    exact exists_congr fun m => by rw [hs.build m]
  refine ⟨hbuilds ▸ hs.tidy, fun m m' r hr hr' => ?_, hs.pending ▸ h.nodup, fun m => ?_⟩
  · exact h.distinct m m' r (hs.build m ▸ hr) (hs.build m' ▸ hr')
  · rw [hs.pending, hs.build m]
    exact h.pending m

theorem makeRequest_fresh (E : Env) (a : RequestArgs) (h : w.Tidy held .between) :
    wp (makeRequest E a) (fun r w' => Fresh held r w w') (fun _ => True) w := by
  rw [makeRequest, wp_bind]
  refine wp_mono (mmcPoolRequest_handedOut E a.protocol a.responseHandler a.call a.failover h)
    (fun r w₁ hr => ?_) fun _ _ => trivial
  simp only [wp_bind, wp_modifyReq, wp_pure]
  refine hr.toFresh.write (fun hread => ?_) rfl
  exact hread

theorem mmcPoolCloneRequest_fresh (E : Env) (r : ReqId) (h : w.Tidy held .between) :
    wp (mmcPoolCloneRequest E r) (fun clone w' => Fresh held clone w w') (fun _ => True) w := by
  rw [mmcPoolCloneRequest, wp_bind, wp_getReq]
  dsimp only
  rw [wp_bind]
  refine wp_mono (mmcPoolRequestAlloc_handedOut E (w.req r).protocol .null h) (fun clone w₁ hc => ?_)
    fun _ _ => trivial
  simp only [wp_bind, wp_getReq, wp_getPool, wp_modifyReq, wp_step, wp_pure]
  refine ⟨fun _ => hc.toFresh.write (fun hread => ?_) (World.services_step (s := .clone _ _ _) rfl),
    fun _ => trivial⟩
  unfold copyRequest
  split
  · exact hread
  · exact hread

include hE hfh

/-- A request that was just handed out is scheduled. -/
theorem keepsOrder_mmcPoolSchedule (h : SameSlots w₀ w) (hr : Fresh held r w w') (m : Mmc) :
    wp (mmcPoolSchedule E fh m r) (fun _ => KeepsOrder held w₀) (fun _ => True) w' := by
  refine wp_mono (spares_mmcPoolSchedule hE hfh m hr.fresh hr.tidy) (fun _ w'' h'' => ?_) fun _ _ => trivial
  have hkeeps : SameSlots w' w'' :=
    ⟨h''.2.build, h''.2.pending, h''.2.protocol, h''.2.findServer⟩
  exact ⟨(h.trans hr.toSameSlots).trans hkeeps, h''.1⟩

theorem keepsOrder_scheduleCopies (key : Bytes) (r : ReqId) (copies : Nat) (m : Mmc) (skip : List Mmc)
    (i : Nat) (h : KeepsOrder held w₀ w) :
    wp (scheduleCopies E fh key r copies m skip i) (fun _ => KeepsOrder held w₀) (fun _ => True) w := by
  induction copies generalizing m skip i w with
  | zero => exact (wp_pure _ _ _ _).mpr h
  | succ copies ih =>
    rw [scheduleCopies, wp_bind, wp_getPool]
    dsimp only
    rw [wp_bind, wp_step]
    refine ⟨fun _ => ?_, fun _ => trivial⟩
    rw [wp_bind]
    set w₁ : World := { w with log := .copyTarget _ _ :: w.log }
    have hs : KeepsOrder held w₀ w₁ :=
      ⟨h.toSameSlots.trans ⟨fun _ => rfl, rfl, rfl, rfl⟩, h.tidy.of_unchanged rfl rfl rfl rfl rfl (World.services_step rfl)⟩
    refine mmcServerValid_of_up (hs.tidy.up _) _ ?_
    rw [wp_bind, wp_doWhen]
    refine ⟨fun _ => ?_, fun _ => ih _ _ _ hs⟩
    rw [wp_bind]
    refine wp_mono (mmcPoolCloneRequest_fresh E r hs.tidy) (fun clone w₂ hc => ?_) fun _ => id
    rw [wp_bind]
    refine wp_mono (keepsOrder_mmcPoolSchedule hE hfh hs.toSameSlots hc _) (fun _ w₃ h₃ => ?_) fun _ => id
    exact (wp_pure _ _ _ _).mpr (ih _ _ _ h₃)

theorem keepsOrder_mmcPoolScheduleKey (key : Bytes) (redundancy : Nat)
    (hr : Fresh held r w w') :
    wp (mmcPoolScheduleKey E fh key r redundancy) (fun _ => KeepsOrder held w) (fun _ => True) w' := by
  rw [mmcPoolScheduleKey, wp_bind]
  refine mmcPoolFind_of_up hr.tidy.up key _ ?_
  rw [wp_bind]
  refine wp_mono (keepsOrder_mmcPoolSchedule hE hfh (.refl w) hr _) (fun result w₁ h₁ => ?_) fun _ => id
  rw [wp_bind, wp_doWhen]
  refine ⟨fun _ => ?_, fun _ => (wp_pure _ _ _ _).mpr h₁⟩
  rw [wp_bind, wp_getPool]
  refine wp_mono (keepsOrder_scheduleCopies hE hfh key r _ _ _ _ h₁) (fun _ w₂ h₂ => ?_) fun _ => id
  exact (wp_pure _ _ _ _).mpr h₂

omit hE hfh in
/-- Any state between operations is one in which gets may be under construction. -/
theorem World.Orderly.gathering (h : w.Orderly) :
    Gathering w.pool.protocol (fun m => ⟨[], (w.mmc m).buildreq.map w.req⟩) w w where
  toOrderly := h
  protocol := rfl
  findServer := rfl
  sent := .start _ w
  building m := by
    dsimp only
    cases (w.mmc m).buildreq with
    | none => exact .none
    | some r => exact .some ⟨rfl, rfl, fun _ => rfl⟩

omit hfh in
/-- **Every operation keeps the order** while no server fails. -/
theorem orderly_exec (fuel depth : Nat) (op : PoolOp) (h : w.Orderly) :
    wp (op.exec E fuel depth) (fun _ => World.Orderly) (fun _ => True) w := by
  have hfh := fails_failoverHandler hE fuel depth
  have horder {w' : World} (hs : KeepsOrder w.builds w w') : w'.Orderly := hs.orderly h
  cases op with
  | discard a =>
    rw [PoolOp.exec, wp_bind]
    refine wp_mono (makeRequest_fresh E a h.tidy) (fun r w₁ hr => ?_) fun _ => id
    simp only [mmcPoolRelease, noteRelease, wp_bind, wp_step, wp_modifyPool]
    refine ⟨fun _ => horder ⟨⟨hr.build, hr.pending, hr.protocol, hr.findServer⟩, ?_⟩, fun _ => trivial⟩
    exact hr.tidy.giveBack hr.fresh rfl rfl rfl rfl rfl rfl
  | schedule m a =>
    rw [PoolOp.exec, wp_bind]
    refine wp_mono (makeRequest_fresh E a h.tidy) (fun r w₁ hr => ?_) fun _ => id
    rw [wp_bind]
    refine wp_mono (keepsOrder_mmcPoolSchedule hE hfh (.refl w) hr m) (fun _ w₂ hs => ?_) fun _ => id
    exact (wp_pure _ _ _ _).mpr (horder hs)
  | scheduleKey a redundancy =>
    rw [PoolOp.exec, wp_bind]
    refine wp_mono (makeRequest_fresh E a h.tidy) (fun r w₁ hr => ?_) fun _ => id
    rw [wp_bind, wp_getReq, wp_bind]
    refine wp_mono (keepsOrder_mmcPoolScheduleKey hE hfh _ redundancy hr) (fun _ w₂ hs => ?_)
      fun _ => id
    exact (wp_pure _ _ _ _).mpr (horder hs)
  | scheduleGet a zkey =>
    rw [PoolOp.exec, wp_bind]
    cases hkey : mmcPrepareKeyEx zkey.str E.keyPrefix with
    | none => exact mmcPoolScheduleGet_invalid fuel _ hkey _ ((wp_pure _ _ _ _).mpr h)
    | some key =>
      refine wp_mono (gathering_mmcPoolScheduleGet hE hfh fuel rfl h.gathering hkey rfl rfl)
        (fun _ w₁ h₁ => ?_) fun _ _ => trivial
      exact (wp_pure _ _ _ _).mpr h₁.toOrderly
  | schedulePending =>
    exact wp_mono (gathering_mmcPoolSchedulePending hE hfh fuel h.gathering) (fun _ _ h₁ => h₁.1.toOrderly)
      fun _ _ => trivial
  | select =>
    exact wp_mono (spares_mmcPoolSelect hE hfh fuel h.tidy)
      (fun _ _ h₁ => (h.gathering.keeps h₁.1 h₁.2).toOrderly)
      fun _ _ => trivial
  | run =>
    exact wp_mono (gathering_mmcPoolRun hE hfh fuel h.gathering) (fun _ _ h₁ => h₁.1.toOrderly)
      fun _ _ => trivial

/-- A pool nothing was done with so far, none of whose servers is marked as failed. -/
structure World.Untouched (w : World) : Prop extends w.Initial where
  nextReq : w.nextReq = 0
  up : ∀ m, (w.mmc m).tcp.status ≠ .failed

omit hE hfh in
theorem World.Untouched.orderly (h : w.Untouched) : w.Orderly := by
  have hbuild (m : Mmc) : (w.mmc m).buildreq = none := (h.idle m).buildreq
  have hbuilds (r : ReqId) : r ∉ w.builds := by
    rintro ⟨m, hr⟩
    rw [hbuild m] at hr
    cases hr
  have hline (m : Mmc) : (w.mmc m).readLine = [] := by
    simp [MmcServer.readLine, (h.idle m).readreq, (h.idle m).readqueue]
  have hsend (m : Mmc) : (w.mmc m).sendLine = [] := by
    simp [MmcServer.sendLine, (h.idle m).sendreq, (h.idle m).sendqueue]
  have hservices : w.services = [] := by rw [World.services, h.log, List.filterMap_nil]
  have hnowhere (q : Place) (r : ReqId) : ¬ w.Holds w.builds q r := by
    cases q with
    | line m =>
      change r ∉ (w.mmc m).readLine
      simp [hline m]
    | free =>
      change some r ∉ w.pool.freeRequests
      simp [h.freeRequests]
    | held => exact hbuilds r
  have haccounted : w.Accounted w.builds := ⟨fun r q q' hq => absurd hq (hnowhere q r),
    fun r hr => absurd hr (by simp [h.nextReq]), fun r q hq => absurd hq (hnowhere q r)⟩
  have hserved : w.Served := ⟨by rw [hservices]; trivial, fun m => by rw [hservices, hline m]; rfl⟩
  have hin (m : Mmc) : (w.mmc m).InLine := ⟨by rw [hline, hsend], fun _ => (h.idle m).sendqueue,
    fun _ => (h.idle m).readqueue, by simp [hline m]⟩
  have hwatched : w.Watched .between := .intro h.inSelect (fun m hm => absurd (h.idle m).sendreq hm)
    fun m hm => absurd (h.idle m).readreq hm
  exact {
    tidy := ⟨haccounted, hserved, hwatched, hin, by simp [h.freeRequests], h.up⟩
    distinct := fun m m' r hr => absurd ⟨m, hr⟩ (hbuilds r)
    nodup := by simp [h.toInitial.pending]
    pending := fun m => by simp [h.toInitial.pending, hbuild m] }

end Operations

/-! ## The requests of a multi-key get -/

section Keys

variable {p : WireProtocol} {a : GetArgs}

/-- What the encoders make of keys, in order. -/
def openGet (p : WireProtocol) (a : GetArgs) (keys : List (ZKey × Bytes)) : MmcRequest :=
  keys.foldl (fun q k => protocolAppendGet p k.1 k.2 q) (protocolBeginGet p a.op (allocated a.protocol))

/-- The request for some keys, from `mmc_pool_request_alloc` to `end_get`. -/
def getRequest (p : WireProtocol) (a : GetArgs) (keys : List (ZKey × Bytes)) : MmcRequest :=
  protocolEndGet p (openGet p a keys)

/-- Lists of keys as bins, with the room that their requests have. -/
def keyPacker (p : WireProtocol) (a : GetArgs) : Packer (ZKey × Bytes) (List (ZKey × Bytes)) where
  empty := []
  put keys k := keys ++ [k]
  full keys k := (requestPacker p a).full (openGet p a keys) k

theorem requestPacker_packAll (keys : List (ZKey × Bytes)) :
    (requestPacker p a).packAll keys = ((keyPacker p a).packAll keys).map (openGet p a) := by
  refine Packer.packAll_map (f := openGet p a) (P := keyPacker p a) rfl (fun c x => ?_) (fun _ _ => rfl)
    keys
  rw [openGet, openGet, keyPacker, List.foldl_append]
  rfl

theorem length_openGet_append (keys : List (ZKey × Bytes)) (k : ZKey × Bytes) :
    (openGet .ascii a (keys ++ [k])).sendbuf.value.length =
      (openGet .ascii a keys).sendbuf.value.length + 1 + k.2.length := by
  rw [openGet, openGet, List.foldl_append]
  simp only [protocolAppendGet, mmcAsciiAppendGet, MmcRequest.appendSend, List.foldl_cons,
    List.foldl_nil, List.length_append, List.length_singleton]

theorem length_openGet_nil (hudp : a.protocol = .udp) :
    (openGet .ascii a []).sendbuf.value.length ≤ udpHeaderSize + 4 := by
  simp only [openGet, List.foldl_nil, protocolBeginGet, mmcAsciiBeginGet, allocated, hudp, if_true]
  split
  · simp [MmcRequest.appendSend, bytes]
  · simp [MmcRequest.appendSend, bytes]

/-- No datagram gets longer than `MMC_MAX_UDP_LEN`: there is room for the terminator in every bin. -/
theorem length_getRequest_le (hudp : a.protocol = .udp) {keys : List (ZKey × Bytes)}
    (hkeys : ∀ k ∈ keys, k.2.length ≤ MMC_MAX_KEY_LEN) :
    ∀ ks ∈ ((keyPacker .ascii a).packAll keys).all,
      (getRequest .ascii a ks).sendbuf.value.length ≤ MMC_MAX_UDP_LEN := by
  have hroom : ∀ ks ∈ ((keyPacker .ascii a).packAll keys).all,
      (openGet .ascii a ks).sendbuf.value.length + 2 ≤ MMC_MAX_UDP_LEN := by
    refine Packer.forall_packAll (fun k hk => ?_) fun k hk ks hks hfull => ?_
    · have hlen := length_openGet_append (a := a) [] k
      have hnil := length_openGet_nil hudp
      have hkey := hkeys k hk
      simp only [keyPacker, List.nil_append] at hlen ⊢
      simp only [MMC_MAX_UDP_LEN, MMC_MAX_KEY_LEN, udpHeaderSize] at *
      omega
    · have hlen := length_openGet_append (a := a) ks k
      have hfits : ¬ datagramFull a (openGet .ascii a ks) k.2 := by
        simpa [keyPacker, requestPacker] using hfull
      have hlt : ¬ MMC_MAX_UDP_LEN < (openGet .ascii a ks).sendbuf.value.length + k.2.length + 3 :=
        fun h => hfits ⟨hudp, h⟩
      simp only [keyPacker]
      omega
  intro ks hks
  have hlen : (getRequest .ascii a ks).sendbuf.value.length =
      (openGet .ascii a ks).sendbuf.value.length + 2 := by
    simp [getRequest, protocolEndGet, mmcAsciiEndGet, MmcRequest.appendSend, crlf]
  rw [hlen]
  exact hroom ks hks

end Keys

/-! ## Runs -/

section Runs

variable {E : Env}

/-- The server `mmc_pool_find` gives for a key. -/
def foundServer (E : Env) (w : World) (key : Bytes) : Option Mmc := (mmcPoolFind E key w).1.toOption

/-- The valid keys that belong to a server, as they are given and as they are sent. -/
def keysOf (E : Env) (w : World) (m : Mmc) (zkeys : List ZKey) : List (ZKey × Bytes) :=
  zkeys.filterMap fun zkey => match mmcPrepareKeyEx zkey.str E.keyPrefix with
    | some key => if foundServer E w key = some m then some (zkey, key) else none
    | none => none

/-- All of `requests` were scheduled since `w₀`, in order, and nothing else. -/
def DeliversAll (requests : Mmc → List MmcRequest) (w₀ w : World) : Prop :=
  ∃ steps, w.log = steps ++ w₀.log ∧ ∀ m,
    List.Forall₂ (fun x q => ∀ r, x = some r → q.SameCommand (w.req r)) (scheduledOn m steps) (requests m)

/-- The run is cut off at the steps that `allowed` refuses. -/
def Env.cutOff (E : Env) (allowed : Step → World → Bool) : Env :=
  { E with allowed := fun s w => E.allowed s w && allowed s w }

/-- The multi-key get of `zkeys` from `w`: every valid key belongs to a server, the requests of each
    server contain its keys, each occurrence once and in order, no datagram is longer than
    `MMC_MAX_UDP_LEN`, and the requests, terminated, are what is scheduled, each once; wherever the run
    is cut off, a request that waits at its server has the command that was built for it. -/
def Distributes (E : Env) (fuel depth : Nat) (a : GetArgs) (zkeys : List ZKey) (w : World) : Prop :=
  ∃ requests : Mmc → List (List (ZKey × Bytes)),
    (∀ key, (foundServer E w key).isSome) ∧
    (∀ m, (requests m).flatten = keysOf E w m zkeys) ∧
    (w.pool.protocol = .ascii → a.protocol = .udp → ∀ m, ∀ keys ∈ requests m,
      (getRequest .ascii a keys).sendbuf.value.length ≤ MMC_MAX_UDP_LEN) ∧
    ∀ allowed, wp (runOps (E.cutOff allowed) fuel depth (zkeys.map (PoolOp.scheduleGet a) ++ [.run]))
      (fun _ => DeliversAll (fun m => (requests m).map (getRequest w.pool.protocol a)) w)
      (Delivers (fun m => (requests m).map (getRequest w.pool.protocol a)) w) w

variable {w₀ w : World} {p : WireProtocol} {a : GetArgs}

theorem foundServer_of_up (hup : ∀ m, (w.mmc m).tcp.status ≠ .failed) (key : Bytes) :
    foundServer E w key = some (w.pool.findServer key) := by
  obtain ⟨m, w', hrun, hm⟩ := exists_of_wp (mmcPoolFind_of_up (E := E) hup key
    (Q := fun m _ => m = w.pool.findServer key) (fun _ => False) rfl)
  rw [foundServer, hrun, ← hm]
  rfl

theorem NoFailures.cutOff (hE : NoFailures E) (allowed : Step → World → Bool) :
    NoFailures (E.cutOff allowed) where
  deactivate m w := by simp [Env.cutOff, hE.deactivate m w]
  failover m r w := by simp [Env.cutOff, hE.failover m r w]

theorem keysOf_append (E : Env) (w : World) (m : Mmc) (zkeys zkeys' : List ZKey) :
    keysOf E w m (zkeys ++ zkeys') = keysOf E w m zkeys ++ keysOf E w m zkeys' := List.filterMap_append

theorem keysOf_cutOff (hup : ∀ m, (w.mmc m).tcp.status ≠ .failed) (allowed : Step → World → Bool)
    (m : Mmc) (zkeys : List ZKey) : keysOf (E.cutOff allowed) w m zkeys = keysOf E w m zkeys := by
  have hfound : foundServer (E.cutOff allowed) w = foundServer E w := by
    funext key
    rw [foundServer_of_up hup, foundServer_of_up hup]
  rw [keysOf, keysOf, hfound]
  rfl

/-- The bins of a server after some keys. -/
def packedGets (E : Env) (a : GetArgs) (w₀ : World) (zkeys : List ZKey) (m : Mmc) : Bins MmcRequest :=
  (requestPacker w₀.pool.protocol a).packAll (keysOf E w₀ m zkeys)

/-- What is scheduled on a server in the end. -/
def plannedGets (E : Env) (a : GetArgs) (w₀ : World) (zkeys : List ZKey) (m : Mmc) : List MmcRequest :=
  ((keyPacker w₀.pool.protocol a).packAll (keysOf E w₀ m zkeys)).all.map
    (getRequest w₀.pool.protocol a)

theorem plannedGets_cutOff (hup : ∀ m, (w₀.mmc m).tcp.status ≠ .failed)
    (allowed : Step → World → Bool) (zkeys : List ZKey) :
    plannedGets (E.cutOff allowed) a w₀ zkeys = plannedGets E a w₀ zkeys := by
  funext m
  rw [plannedGets, plannedGets, keysOf_cutOff hup]

theorem closedGets_closeBins_packedGets (zkeys : List ZKey) :
    closedGets w₀.pool.protocol (closeBins (packedGets E a w₀ zkeys)) = plannedGets E a w₀ zkeys := by
  funext m
  rw [closedGets, closeBins, packedGets, requestPacker_packAll, plannedGets, closeBin, Bins.all_map,
    List.map_map]
  rfl

/-- What was sent so far is the beginning of what is scheduled in the end. -/
theorem closedGets_packedGets_prefix (zkeys zkeys' : List ZKey) (m : Mmc) :
    closedGets w₀.pool.protocol (packedGets E a w₀ zkeys) m <+: plannedGets E a w₀ (zkeys ++ zkeys') m := by
  rw [← closedGets_closeBins_packedGets]
  refine List.IsPrefix.trans ?_ (closedGets_closeBins m)
  rw [closedGets, closedGets, packedGets, packedGets, keysOf_append]
  exact (Packer.closed_packAll_append _ _).map _

/-- One key more. -/
theorem packedGets_append (hup : ∀ m, (w₀.mmc m).tcp.status ≠ .failed) (zkeys : List ZKey)
    {zkey : ZKey} {key : Bytes} (hkey : mmcPrepareKeyEx zkey.str E.keyPrefix = some key) :
    packedGets E a w₀ (zkeys ++ [zkey]) = Function.update (packedGets E a w₀ zkeys)
      (w₀.pool.findServer key) ((requestPacker w₀.pool.protocol a).pack
        (packedGets E a w₀ zkeys (w₀.pool.findServer key)) (zkey, key)) := by
  have hfound := foundServer_of_up (E := E) hup key
  funext m
  by_cases hm : m = w₀.pool.findServer key
  · subst hm
    rw [Function.update_self, packedGets, keysOf_append, packedGets, ← Packer.packAll_append]
    simp [keysOf, hkey, hfound]
  · rw [Function.update_of_ne hm, packedGets, keysOf_append, packedGets]
    simp [keysOf, hkey, hfound, Ne.symm hm]

theorem packedGets_append_invalid (zkeys : List ZKey) {zkey : ZKey}
    (hkey : mmcPrepareKeyEx zkey.str E.keyPrefix = none) :
    packedGets E a w₀ (zkeys ++ [zkey]) = packedGets E a w₀ zkeys := by
  funext m
  rw [packedGets, keysOf_append, packedGets]
  simp [keysOf, hkey]

/-- The rest of the keys are scheduled, then the pool is run. -/
theorem runOps_gets (hE : NoFailures E) (fuel depth : Nat) (hup : ∀ m, (w₀.mmc m).tcp.status ≠ .failed)
    (zkeys rest : List ZKey) (h : Gathering w₀.pool.protocol (packedGets E a w₀ zkeys) w₀ w) :
    wp (runOps E fuel depth (rest.map (PoolOp.scheduleGet a) ++ [.run]))
      (fun _ => DeliversAll (plannedGets E a w₀ (zkeys ++ rest)) w₀)
      (Delivers (plannedGets E a w₀ (zkeys ++ rest)) w₀) w := by
  have hfh := fails_failoverHandler hE fuel depth
  induction rest generalizing zkeys w with
  | nil =>
    rw [List.append_nil, List.map_nil, List.nil_append, runOps, forEach, wp_bind,
      ← closedGets_closeBins_packedGets]
    refine wp_mono (gathering_mmcPoolRun hE hfh fuel h) (fun _ w' h' => ?_) fun _ => id
    obtain ⟨steps, hlog, hsent⟩ := h'.1.sent
    refine (wp_pure _ _ _ _).mpr ⟨steps, hlog, fun m => ?_⟩
    exact (hsent m).imp fun x q hx r hr => (hx r hr).2
  | cons zkey rest ih =>
    have hplan : zkeys ++ zkey :: rest = (zkeys ++ [zkey]) ++ rest := by simp
    rw [List.map_cons, List.cons_append, runOps, forEach, wp_bind, PoolOp.exec, wp_bind, hplan]
    cases hkey : mmcPrepareKeyEx zkey.str E.keyPrefix with
    | none =>
      refine mmcPoolScheduleGet_invalid fuel _ hkey _ ((wp_pure _ _ _ _).mpr (ih (zkeys ++ [zkey]) ?_))
      rw [packedGets_append_invalid zkeys hkey]
      exact h
    | some key =>
      have hpacked := packedGets_append (a := a) hup zkeys hkey
      refine wp_mono (gathering_mmcPoolScheduleGet (a := { a with failedRequest := none }) hE hfh fuel rfl
        h hkey rfl rfl)
        (fun _ w' h' => ?_) fun w' h' => ?_
      · refine (wp_pure _ _ _ _).mpr (ih (zkeys ++ [zkey]) ?_)
        rw [hpacked]
        exact h'
      · refine h'.mono fun m => ?_
        exact hpacked ▸ closedGets_packedGets_prefix (zkeys ++ [zkey]) rest m

/-- Servers that take every request and answer it at once. -/
def serving : Env where
  connect tick := some tick
  select _ := { result := 1, writable := fun _ => true, readable := fun _ => true }
  send _ := .bytes 10000
  parse _ := { verdict := .done }
  allowed
    | .deactivate _, _ => false
    | .failover _ _, _ => false
    | _, _ => true

def fourKeys : List ZKey := [⟨1, [97]⟩, ⟨2, [98]⟩, ⟨3, []⟩, ⟨4, [97]⟩]

def servedPool : World :=
  World.fresh [0, 1] (fun key => if key = [98] then 1 else 0) 15 fun _ => { keys := fourKeys }

theorem serving_noFailures : NoFailures serving := ⟨fun _ _ => rfl, fun _ _ _ => rfl⟩

theorem servedPool_untouched : servedPool.Untouched where
  toInitial := World.fresh_initial _ _ _ _
  nextReq := rfl
  up _ h := by cases h

end Runs

end PeclMemcache
