import PeclMemcache.TextGrammar
import PeclMemcache.Timeouts

set_option autoImplicit false

/-! # The address of a server

A server is added with a host and a port, and looked up with a host and a port. The port is checked as a
`long`, stored as an `unsigned short` and compared as a `long`; the host is stored as it is and
compared up to its first NUL, and so it is in the key of the persistent list. -/

namespace PeclMemcache

open Machines

/-! ## Keys of the persistent list -/

/-- What stands behind the last separator, and what stands in front of it. -/
theorem append_separator_inj {α : Type} {x : α} {xs ys us vs : List α} (hus : x ∉ us) (hvs : x ∉ vs)
    (h : xs ++ [x] ++ us = ys ++ [x] ++ vs) : xs = ys ∧ us = vs := by
  rw [List.append_assoc, List.append_assoc] at h
  rcases List.append_eq_append_iff.mp h with ⟨as, hys, hus'⟩ | ⟨as, hxs, hvs'⟩
  · cases as with
    | nil =>
      rw [List.append_nil] at hys
      exact ⟨hys.symm, List.append_cancel_left hus'⟩
    | cons a as =>
      obtain ⟨-, rfl⟩ := List.cons.inj hus'
      exact absurd (by simp) hus
  · cases as with
    | nil =>
      rw [List.append_nil] at hxs
      exact ⟨hxs, (List.append_cancel_left hvs').symm⟩
    | cons a as =>
      obtain ⟨-, rfl⟩ := List.cons.inj hvs'
      exact absurd (by simp) hvs

theorem colon_not_mem_decimal (n : Nat) : 58 ∉ decimal n := fun h =>
  absurd (isDigit_of_mem_decimal h) (by decide)

theorem decimal_inj {m n : Nat} (h : decimal m = decimal n) : m = n := by
  rw [← digitsValue_decimal m, h, digitsValue_decimal]

namespace Configuration

/-- **The key is the address**, with the host up to its first NUL. -/
theorem persistentKey_inj {host host' : Bytes} {tcpPort tcpPort' udpPort udpPort' : Nat}
    (h : persistentKey host tcpPort udpPort = persistentKey host' tcpPort' udpPort') :
    cString host = cString host' ∧ tcpPort = tcpPort' ∧ udpPort = udpPort' := by
  obtain ⟨h, hudp⟩ := append_separator_inj (colon_not_mem_decimal _) (colon_not_mem_decimal _) h
  obtain ⟨h, htcp⟩ := append_separator_inj (colon_not_mem_decimal _) (colon_not_mem_decimal _) h
  exact ⟨List.append_cancel_left h, decimal_inj htcp, decimal_inj hudp⟩

variable {κ δ : Type} (E : ConfigEnv κ δ) (s : Configuration κ δ)

/-! ## Addressable servers -/

/-- **Added servers can be addressed**: a lookup with a host without NUL and a port that a server was
    added with finds a server that was added with them. -/
def Addressable : Prop :=
  ∀ o p, s.object o = .pool p → ∀ host port m, (host, port, m) ∈ p.added → 0 ∉ host →
    ∃ m', s.lookup p host port = some m' ∧ (host, port, m') ∈ p.added

/-- The server `m` can be added with some arguments: the port is stored as it is, and a server the pool
    already has at this address was added with it, or is this server. -/
def CanAddress (p : PoolConfig κ δ) (a : AddServerArgs κ) (m : Mmc) : Prop :=
  0 ∉ a.host → a.tcpPort ≤ 65535 ∧
    ∀ m', s.lookup p a.host a.tcpPort = some m' → (a.host, a.tcpPort, m') ∈ p.added ∨ m' = m

/-- The condition on a call. -/
def KeepsAddresses : ConfigCall κ → Prop
  | .addServer o a => callbackAccepted E a.failureCallback = true → AcceptedArgs a →
      ∀ p, poolFor E (s.object o) = some p →
        s.CanAddress p a (s.serverFor a (udpArgument p a)).1
  | .connect o a => AcceptedArgs a →
      ∀ p, poolFor E (s.object o) = some p →
        s.CanAddress p a (s.serverFor { a with status := true } (udpArgument p a)).1
  | _ => True

/-- What is known of the servers of a pool, of the records of their addition, and of the persistent
    list. -/
structure Recorded : Prop where
  ports : ∀ m, (s.server m).tcpPort < 2 ^ 16
  servers : ∀ o p, s.object o = .pool p → ∀ m ∈ p.servers, m < s.next
  persistent : ∀ key m, s.persistentList key = some m → m < s.next ∧
    key = persistentKey (s.server m).host (s.server m).tcpPort (s.server m).udpPort

variable {E s}

/-- A server that is found is in the pool, at the address. -/
theorem lookup_spec {p : PoolConfig κ δ} {host : Bytes} {port : Int} {m : Mmc}
    (h : s.lookup p host port = some m) :
    m ∈ p.servers ∧ cString (s.server m).host = cString host ∧ ((s.server m).tcpPort : Int) = port :=
  ⟨List.mem_of_find?_eq_some h, by simpa using List.find?_some h⟩

/-- A lookup does not depend on anything but the addresses of the servers of the pool. -/
theorem lookup_congr {s' : Configuration κ δ} {p p' : PoolConfig κ δ} (hp : p'.servers = p.servers)
    (h : ∀ m ∈ p.servers, (s'.server m).host = (s.server m).host ∧
      (s'.server m).tcpPort = (s.server m).tcpPort) (host : Bytes) (port : Int) :
    s'.lookup p' host port = s.lookup p host port := by
  unfold lookup
  rw [hp]
  refine List.find?_congr fun m hm => ?_
  rw [(h m hm).1, (h m hm).2]

/-! ## Adding a server -/

/-- A call on `o` adds the server `m` with some arguments to the pool `p` of the object, which is then
    `p'`; the addresses of allocated servers stay. -/
structure AddsServer (E : ConfigEnv κ δ) (s s' : Configuration κ δ) (o : Nat) (p p' : PoolConfig κ δ)
    (m : Mmc) (a : AddServerArgs κ) : Prop where
  before : poolFor E (s.object o) = some p
  self : s'.object o = .pool p'
  others : ∀ o', o' ≠ o → s'.object o' = s.object o'
  servers : p'.servers = p.servers ++ [m]
  added : p'.added = p.added ++ [(a.host, a.tcpPort, m)]
  allocated : m < s'.next ∧ s.next ≤ s'.next
  addresses : ∀ m' < s.next, (s'.server m').host = (s.server m').host ∧
    (s'.server m').tcpPort = (s.server m').tcpPort
  host : cString (s'.server m).host = cString a.host
  tcpPort : (s'.server m).tcpPort = storedPort a.tcpPort
  ports : ∀ m, (s'.server m).tcpPort < 2 ^ 16
  persistent : ∀ key m', s'.persistentList key = some m' → m' < s'.next ∧
    key = persistentKey (s'.server m').host (s'.server m').tcpPort (s'.server m').udpPort

theorem storedPort_lt (port : Int) : storedPort port < 2 ^ 16 := by
  have h := Int.emod_lt_of_pos port (show (0 : Int) < 2 ^ 16 by decide)
  unfold storedPort
  omega

/-- **The server for some arguments** has their address: if it was not made for them, it was found
    under the key of their address. -/
theorem addsServer_withServer (hs : s.Recorded) {o : Nat} {p : PoolConfig κ δ} (a : AddServerArgs κ)
    (hp : poolFor E (s.object o) = some p) :
    AddsServer E s (withServer E s o p a) o p (poolWith E s p a)
      (s.serverFor a (udpArgument p a)).1 a := by
  have hserves := serverFor_serves s a (udpArgument p a)
  have hothers : ∀ m', m' ≠ (s.serverFor a (udpArgument p a)).1 →
      (withServer E s o p a).server m' = s.server m' := hserves.others
  have hobjects : ∀ o', o' ≠ o → (withServer E s o p a).object o' = s.object o' := by
    intro o' ho'
    rw [withServer, setObject_object_of_ne ho', hserves.object]
  rcases hserves.address with ⟨hnew, hnext, hhost, htcp, hudp, hlist⟩ |
    ⟨hfound, hnext, hhost, htcp, hudp, hlist⟩
  · have hne : ∀ m' < s.next, m' ≠ (s.serverFor a (udpArgument p a)).1 :=
      fun m' hm' heq => absurd (heq.trans hnew) (Nat.ne_of_lt hm')
    refine ⟨hp, setObject_object_self .., hobjects, rfl, rfl, ⟨?_, ?_⟩, fun m' hm' => ?_,
      congrArg cString hhost, htcp, fun m' => ?_, fun key m' hkey => ?_⟩
    · show _ < (s.serverFor a (udpArgument p a)).2.next
      rw [hnext, hnew]
      exact Nat.lt_succ_self _
    · show _ ≤ (s.serverFor a (udpArgument p a)).2.next
      rw [hnext]
      exact Nat.le_succ _
    · rw [hothers m' (hne m' hm')]
      exact ⟨rfl, rfl⟩
    · by_cases hm' : m' = (s.serverFor a (udpArgument p a)).1
      · rw [hm']
        exact htcp ▸ storedPort_lt _
      · rw [hothers m' hm']
        exact hs.ports m'
    · rcases hlist key m' hkey with hold | ⟨rfl, rfl⟩
      · obtain ⟨hlt, hkey⟩ := hs.persistent key m' hold
        rw [hothers m' (hne m' hlt)]
        refine ⟨?_, hkey⟩
        show _ < (s.serverFor a (udpArgument p a)).2.next
        rw [hnext]
        exact Nat.lt_succ_of_lt hlt
      · refine ⟨?_, ?_⟩
        · show _ < (s.serverFor a (udpArgument p a)).2.next
          rw [hnext, hnew]
          exact Nat.lt_succ_self _
        · show _ = persistentKey ((s.serverFor a (udpArgument p a)).2.server _).host _ _
          rw [hhost]
          exact (congrArg₂ (persistentKey a.host) htcp hudp).symm
  · obtain ⟨hlt, hkey⟩ := hs.persistent _ _ hfound
    obtain ⟨hhostEq, htcpEq, -⟩ := persistentKey_inj hkey
    have hsame : ∀ m', ((withServer E s o p a).server m').host = (s.server m').host ∧
        ((withServer E s o p a).server m').tcpPort = (s.server m').tcpPort ∧
        ((withServer E s o p a).server m').udpPort = (s.server m').udpPort := by
      intro m'
      by_cases hm' : m' = (s.serverFor a (udpArgument p a)).1
      · rw [hm']
        exact ⟨hhost, htcp, hudp⟩
      · rw [hothers m' hm']
        exact ⟨rfl, rfl, rfl⟩
    have hnext' : (withServer E s o p a).next = s.next := hnext
    refine ⟨hp, setObject_object_self .., hobjects, rfl, rfl, ⟨?_, ?_⟩, fun m' _ => ?_, ?_, ?_,
      fun m' => ?_, fun key m' hkey => ?_⟩
    · rw [hnext']
      exact hlt
    · exact Nat.le_of_eq hnext'.symm
    · exact ⟨(hsame m').1, (hsame m').2.1⟩
    · rw [(hsame _).1, hhostEq]
    · rw [(hsame _).2.1, htcpEq]
    · rw [(hsame m').2.1]
      exact hs.ports m'
    · rw [(hsame m').1, (hsame m').2.1, (hsame m').2.2, hnext']
      exact hs.persistent key m' (hlist ▸ hkey)

/-- Statuses and the callback have no part in it. -/
theorem HasServer.addsServer {s' : Configuration κ δ} {o : Nat} {p p' : PoolConfig κ δ}
    {a : AddServerArgs κ} (h : HasServer E s o p a p' s') (hs : s.Recorded)
    (hp : poolFor E (s.object o) = some p) :
    AddsServer E s s' o p p' (s.serverFor a (udpArgument p a)).1 a := by
  have hadds := addsServer_withServer hs a hp
  refine ⟨hp, h.self, h.others, h.servers.trans hadds.servers, h.added.trans hadds.added,
    h.next ▸ hadds.allocated, fun m' hm' => ?_, ?_, ?_, fun m' => ?_, fun key m' hkey => ?_⟩
  · rw [(h.server m').host, (h.server m').tcpPort]
    exact hadds.addresses m' hm'
  · rw [(h.server _).host, hadds.host]
  · rw [(h.server _).tcpPort, hadds.tcpPort]
  · rw [(h.server m').tcpPort]
    exact hadds.ports m'
  · rw [(h.server m').host, (h.server m').tcpPort, (h.server m').udpPort, h.next]
    exact hadds.persistent key m' (h.persistentList ▸ hkey)

/-- What is known stays known. -/
theorem AddsServer.recorded {s' : Configuration κ δ} {o : Nat} {p p' : PoolConfig κ δ} {m : Mmc}
    {a : AddServerArgs κ} (h : AddsServer E s s' o p p' m a) (hs : s.Recorded) : s'.Recorded where
  ports := h.ports
  servers := by
    intro o' q hq m' hm'
    by_cases ho : o' = o
    · subst ho
      rw [h.self] at hq
      cases hq
      rw [h.servers, List.mem_append, List.mem_singleton] at hm'
      rcases hm' with hm' | rfl
      · rcases poolFor_eq_some E h.before with hobject | ⟨-, rfl⟩
        · exact Nat.lt_of_lt_of_le (hs.servers o' p hobject m' hm') h.allocated.2
        · cases hm'
      · exact h.allocated.1
    · rw [h.others o' ho] at hq
      exact Nat.lt_of_lt_of_le (hs.servers o' q hq m' hm') h.allocated.2
  persistent := h.persistent

/-- A lookup goes through the old servers first. -/
theorem AddsServer.lookup {s' : Configuration κ δ} {o : Nat} {p p' : PoolConfig κ δ} {m : Mmc}
    {a : AddServerArgs κ} (h : AddsServer E s s' o p p' m a) (hs : s.Recorded) (host : Bytes)
    (port : Int) :
    s'.lookup p' host port = (s.lookup p host port).or
      (if cString a.host = cString host ∧ (storedPort a.tcpPort : Int) = port then some m
        else none) := by
  have hold : s'.lookup p host port = s.lookup p host port := by
    refine lookup_congr rfl (fun m' hm' => h.addresses m' ?_) host port
    rcases poolFor_eq_some E h.before with hobject | ⟨-, rfl⟩
    · exact hs.servers o p hobject m' hm'
    · cases hm'
  rw [← hold]
  unfold Configuration.lookup
  rw [h.servers, List.find?_append, List.find?_singleton, h.host, h.tcpPort]
  simp only [decide_eq_true_eq]

/-- **What adding a server does** to the addresses. -/
theorem AddsServer.addressable_iff {s' : Configuration κ δ} {o : Nat} {p p' : PoolConfig κ δ} {m : Mmc}
    {a : AddServerArgs κ} (h : AddsServer E s s' o p p' m a) (hs : s.Recorded) (ha : AcceptedArgs a)
    (haddr : s.Addressable) : s'.Addressable ↔ s.CanAddress p a m := by
  have hlookup := h.lookup hs
  constructor
  · intro hafter hnul
    have hmem : (a.host, a.tcpPort, m) ∈ p'.added := by rw [h.added]; simp
    obtain ⟨m', hfind, hrecord⟩ := hafter o p' h.self a.host a.tcpPort m hmem hnul
    refine ⟨?_, fun m₀ hm₀ => ?_⟩
    · have hport := (lookup_spec hfind).2.2
      have hlt := h.ports m'
      omega
    · rw [hlookup, hm₀] at hfind
      obtain rfl : m₀ = m' := Option.some.inj hfind
      rw [h.added, List.mem_append, List.mem_singleton] at hrecord
      exact hrecord.imp_right fun heq => (Prod.mk.inj (Prod.mk.inj heq).2).2
  · intro hcan o' q hq host port x hx hnul
    by_cases ho : o' = o
    · subst ho
      rw [h.self] at hq
      cases hq
      rw [h.added, List.mem_append, List.mem_singleton] at hx
      rcases hx with hx | hx
      · -- a server that was there before is found as before
        rcases poolFor_eq_some E h.before with hobject | ⟨-, rfl⟩
        · obtain ⟨m', hfind, hrecord⟩ := haddr o' p hobject host port x hx hnul
          refine ⟨m', by rw [hlookup, hfind, Option.some_or], ?_⟩
          rw [h.added]
          exact List.mem_append_left _ hrecord
        · cases hx
      · simp only [Prod.mk.injEq] at hx
        obtain ⟨rfl, rfl, rfl⟩ := hx
        obtain ⟨hport, hfirst⟩ := hcan hnul
        cases hfind : s.lookup p a.host a.tcpPort with
        | none =>
          have hstored : (storedPort a.tcpPort : Int) = a.tcpPort := by
            have hnonneg := ha.2.1.1
            unfold storedPort
            omega
          refine ⟨x, by rw [hlookup, hfind, Option.none_or, if_pos ⟨rfl, hstored⟩], ?_⟩
          rw [h.added]
          simp
        | some m₀ =>
          refine ⟨m₀, by rw [hlookup, hfind, Option.some_or], ?_⟩
          rw [h.added, List.mem_append, List.mem_singleton]
          exact (hfirst m₀ hfind).imp_right fun heq => by rw [heq]
    · rw [h.others o' ho] at hq
      obtain ⟨m', hfind, hrecord⟩ := haddr o' q hq host port x hx hnul
      refine ⟨m', ?_, hrecord⟩
      rw [lookup_congr rfl fun m'' hm'' => h.addresses m'' (hs.servers o' q hq m'' hm''), hfind]

/-! ## The other calls -/

/-- No address has changed, and the pools have the servers they had, or none. -/
structure KeepsServers (s s' : Configuration κ δ) : Prop where
  server : ∀ m, (s'.server m).host = (s.server m).host ∧
    (s'.server m).tcpPort = (s.server m).tcpPort ∧ (s'.server m).udpPort = (s.server m).udpPort
  next : s'.next = s.next
  persistentList : s'.persistentList = s.persistentList
  object : ∀ o q', s'.object o = .pool q' → (q'.servers = [] ∧ q'.added = []) ∨
    ∃ q, s.object o = .pool q ∧ q'.servers = q.servers ∧ q'.added = q.added

theorem KeepsServers.recorded {s' : Configuration κ δ} (h : KeepsServers s s') (hs : s.Recorded) :
    s'.Recorded where
  ports m := by
    rw [(h.server m).2.1]
    exact hs.ports m
  servers := by
    intro o q' hq' m hm
    rw [h.next]
    rcases h.object o q' hq' with ⟨hnil, -⟩ | ⟨q, hq, hservers, -⟩
    · rw [hnil] at hm
      cases hm
    · exact hs.servers o q hq m (hservers ▸ hm)
  persistent key m hkey := by
    rw [(h.server m).1, (h.server m).2.1, (h.server m).2.2, h.next]
    exact hs.persistent key m (h.persistentList ▸ hkey)

theorem KeepsServers.addressable {s' : Configuration κ δ} (h : KeepsServers s s')
    (haddr : s.Addressable) : s'.Addressable := by
  intro o q' hq' host port m hm hnul
  rcases h.object o q' hq' with ⟨-, hnil⟩ | ⟨q, hq, hservers, hadded⟩
  · rw [hnil] at hm
    cases hm
  · obtain ⟨m', hfind, hrecord⟩ := haddr o q hq host port m (hadded ▸ hm) hnul
    refine ⟨m', ?_, hadded.symm ▸ hrecord⟩
    rw [lookup_congr hservers fun m'' _ => ⟨(h.server m'').1, (h.server m'').2.1⟩, hfind]

/-- An object whose pool has the same servers, or none. -/
theorem KeepsServers.setObject {o : Nat} {p p' : PoolConfig κ δ} (hp : s.object o = .pool p)
    (h : (p'.servers = [] ∧ p'.added = []) ∨ p'.servers = p.servers ∧ p'.added = p.added)
    {server : Mmc → ServerConfig}
    (hserver : ∀ m, (server m).host = (s.server m).host ∧
      (server m).tcpPort = (s.server m).tcpPort ∧ (server m).udpPort = (s.server m).udpPort) :
    KeepsServers s (({ s with server } : Configuration κ δ).setObject o p') where
  server := hserver
  next := rfl
  persistentList := rfl
  object := by
    intro o' q' hq'
    by_cases ho : o' = o
    · subst ho
      rw [setObject_object_self] at hq'
      cases hq'
      exact h.imp_right fun h => ⟨p, hp, h⟩
    · rw [setObject_object_of_ne ho] at hq'
      exact Or.inr ⟨q', hq', rfl, rfl⟩

theorem KeepsServers.refl (s : Configuration κ δ) : KeepsServers s s :=
  ⟨fun _ => ⟨rfl, rfl, rfl⟩, rfl, rfl, fun _ q' hq' => Or.inr ⟨q', hq', rfl, rfl⟩⟩

theorem memcacheSetServerParams_keepsServers (E : ConfigEnv κ δ) (s : Configuration κ δ) (o : Nat)
    (host : Bytes) (port : Int) (timeout : Timeval) (retryInterval : Int) (status : Bool)
    (callback : Option (Option κ)) :
    KeepsServers s
      (s.memcacheSetServerParams E o host port timeout retryInterval status callback).2 := by
  unfold memcacheSetServerParams
  cases hobject : s.object o with
  | missing => exact KeepsServers.refl s
  | invalid => exact KeepsServers.refl s
  | pool p =>
    dsimp only
    split
    · exact KeepsServers.refl s
    · next m hm =>
      split
      · refine KeepsServers.setObject hobject ?_ fun m' => ?_
        · exact Or.inr ⟨rfl, rfl⟩
        by_cases hm' : m' = m
        · rw [hm', Function.update_self]
          exact ⟨rfl, rfl, rfl⟩
        · rw [Function.update_of_ne hm']
          exact ⟨rfl, rfl, rfl⟩
      · exact KeepsServers.refl s

theorem memcacheClose_keepsServers (s : Configuration κ δ) (o : Nat) :
    KeepsServers s (s.memcacheClose o).2 := by
  by_cases hobject : ∃ p, s.object o = .pool p
  · obtain ⟨p, hp⟩ := hobject
    rw [memcacheClose_of_pool hp]
    refine KeepsServers.setObject hp ?_ fun _ => ⟨rfl, rfl, rfl⟩
    unfold mmcPoolClose
    split
    · exact Or.inr ⟨rfl, rfl⟩
    · exact Or.inl ⟨rfl, rfl⟩
  · rw [memcacheClose_of_not_pool fun p hp => hobject ⟨p, hp⟩]
    exact KeepsServers.refl s

theorem freeObject_keepsServers (s : Configuration κ δ) (o : Nat) :
    KeepsServers s (s.freeObject o) where
  server _ := ⟨rfl, rfl, rfl⟩
  next := rfl
  persistentList := rfl
  object := by
    intro o' q' hq'
    by_cases ho : o' = o
    · subst ho
      rw [freeObject_object_self] at hq'
      cases hq'
    · rw [freeObject_object_of_ne ho] at hq'
      exact Or.inr ⟨q', hq', rfl, rfl⟩

/-! ## Runs -/

/-- **One call** keeps the servers addressable if and only if it meets the condition. -/
theorem after_addressable_iff (call : ConfigCall κ) (hs : s.Recorded) (haddr : s.Addressable) :
    (s.after E call).Addressable ↔ s.KeepsAddresses E call := by
  cases call with
  | addServer o a =>
    exact memcacheAddServer_iff haddr fun p p' s' ha hp hhas =>
      (hhas.addsServer hs hp).addressable_iff hs ha haddr
  | connect o a =>
    exact memcacheConnect_iff haddr fun p p' s' ha hp hhas =>
      (hhas.addsServer hs hp).addressable_iff hs ha haddr
  | setServerParams o host port timeout retryInterval status callback =>
    exact iff_of_true ((memcacheSetServerParams_keepsServers ..).addressable haddr) trivial
  | close o => exact iff_of_true ((memcacheClose_keepsServers s o).addressable haddr) trivial
  | free o => exact iff_of_true ((freeObject_keepsServers s o).addressable haddr) trivial

/-- Every call keeps what is known of the servers. -/
theorem after_recorded (E : ConfigEnv κ δ) (call : ConfigCall κ) (hs : s.Recorded) :
    (s.after E call).Recorded := by
  cases call with
  | addServer o a =>
    exact (memcacheAddServer_iff (Q := fun _ => True) hs fun p p' s' _ hp hhas =>
      iff_of_true ((hhas.addsServer hs hp).recorded hs) trivial).mpr fun _ _ _ _ => trivial
  | connect o a =>
    exact (memcacheConnect_iff (Q := fun _ => True) hs fun p p' s' _ hp hhas =>
      iff_of_true ((hhas.addsServer hs hp).recorded hs) trivial).mpr fun _ _ _ => trivial
  | setServerParams o host port timeout retryInterval status callback =>
    exact (memcacheSetServerParams_keepsServers ..).recorded hs
  | close o => exact (memcacheClose_keepsServers s o).recorded hs
  | free o => exact (freeObject_keepsServers s o).recorded hs

/-- **When added servers can be addressed** in every state of a run. -/
theorem addressable_iff_keeps (E : ConfigEnv κ δ) (calls : List (ConfigCall κ)) :
    (∀ n s', performAll (perform E) (calls.take n) ({} : Configuration κ δ) = some s' →
        s'.Addressable) ↔
      Obeys (perform E) (KeepsAddresses E) calls {} := by
  have hstart : ({} : Configuration κ δ).Recorded ∧ ({} : Configuration κ δ).Addressable :=
    ⟨⟨(fun _ => Nat.two_pow_pos 16), (fun o p hp => by cases hp), (fun key m hkey => by cases hkey)⟩,
      fun o p hp => by cases hp⟩
  refine everywhere_iff (fun s (hs : Recorded s ∧ Addressable s) => hs.2) ?_ ?_ hstart
  · intro s call s' hs hkeeps hs'
    cases hs'
    exact ⟨after_recorded E call hs.1, (after_addressable_iff call hs.1 hs.2).mpr hkeeps⟩
  · intro s call hs hnot
    exact ⟨_, rfl, fun h => hnot ((after_addressable_iff call hs.1 hs.2).mp h)⟩

/-- The port 65600 is accepted, and the server has the port 64. -/
theorem narrowedPort_notAddressable :
    ¬ ∀ n s', performAll (perform sampleEnv)
      (List.take n [.addServer 0 { host := [104], tcpPort := 65600 }])
      ({} : Configuration Unit Nat) = some s' → s'.Addressable := by
  intro h
  obtain ⟨m, hfind, -⟩ := h 1 _ rfl 0 _ rfl [104] 65600 0 (by decide) (by decide)
  obtain ⟨hmem, -, hport⟩ := lookup_spec hfind
  obtain rfl : m = 0 := List.mem_singleton.mp hmem
  exact absurd hport (by decide)

end Configuration

end PeclMemcache
