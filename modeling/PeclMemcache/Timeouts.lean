import PeclMemcache.Configuration

set_option autoImplicit false

/-! # The smallest timeout

A pool remembers the smallest timeout of its servers. It is lowered where a smaller one comes, and never
looked for again, while `mmc_find_persistent` and `setServerParams` may raise the timeout of a server or
change it behind the back of other pools. -/

namespace PeclMemcache

open Machines

/-- The calls that change servers or timeouts. The last is the end of an object. -/
inductive ConfigCall (κ : Type)
  | addServer (o : Nat) (a : AddServerArgs κ)
  | connect (o : Nat) (a : AddServerArgs κ)
  | setServerParams (o : Nat) (host : Bytes) (port : Int) (timeout : Timeval) (retryInterval : Int)
      (status : Bool) (callback : Option (Option κ))
  | close (o : Nat)
  | free (o : Nat)

namespace Configuration

variable {κ δ : Type} (E : ConfigEnv κ δ) (s : Configuration κ δ)

/-- The configuration after a call, whether it succeeds or not. -/
def after : ConfigCall κ → Configuration κ δ
  | .addServer o a => (s.memcacheAddServer E o a).2
  | .connect o a => (s.memcacheConnect E o a).2
  | .setServerParams o host port timeout retryInterval status callback =>
    (s.memcacheSetServerParams E o host port timeout retryInterval status callback).2
  | .close o => (s.memcacheClose o).2
  | .free o => s.freeObject o

/-- Every call is possible. -/
def perform (call : ConfigCall κ) : Option (Configuration κ δ) := some (s.after E call)

/-! ## The invariant -/

/-- The timeout of the pool is the smallest of its servers. -/
structure SmallestTimeout (server : Mmc → ServerConfig) (p : PoolConfig κ δ) : Prop where
  reached : ∃ m ∈ p.servers, (server m).timeout = p.timeout
  least : ∀ m ∈ p.servers, p.timeout ≤ (server m).timeout

/-- **The timeout of every pool** with servers is the smallest of them. -/
def TimeoutsSmallest : Prop :=
  ∀ o p, s.object o = .pool p → p.servers ≠ [] → SmallestTimeout s.server p

/-- The server `m` can get the timeout `t` by a call on the object `o`: the pool at work sees a smaller
    timeout as a smaller floating point number, no other pool of the server has a larger timeout, and a
    timeout above that of a pool leaves it another server with the smallest one. -/
def CanSetTimeout (o : Nat) (m : Mmc) (t : Timeval) : Prop :=
  ∀ o' p, s.object o' = .pool p → p.servers ≠ [] →
    (o' = o → t < p.timeout → E.timevalToDouble t < E.timevalToDouble p.timeout) ∧
    (m ∈ p.servers →
      (o' ≠ o → p.timeout ≤ t) ∧
      (p.timeout < t → ∃ m' ∈ p.servers, m' ≠ m ∧ (s.server m').timeout = p.timeout))

/-- The condition on a call. -/
def KeepsTimeouts : ConfigCall κ → Prop
  | .addServer o a => callbackAccepted E a.failureCallback = true → AcceptedArgs a →
      ∀ p, poolFor E (s.object o) = some p →
        s.CanSetTimeout E o (s.serverFor a (udpArgument p a)).1 a.timeout
  | .connect o a => AcceptedArgs a →
      ∀ p, poolFor E (s.object o) = some p →
        s.CanSetTimeout E o
          (s.serverFor { a with status := true } (udpArgument p a)).1 a.timeout
  | .setServerParams o host port timeout _ _ callback =>
      callbackAccepted E callback.join = true → ∀ p, s.object o = .pool p → ∀ m,
        s.lookup p host port = some m → s.CanSetTimeout E o m timeout
  | _ => True

variable {E s}

/-! ## Setting a timeout -/

/-- A call on `o` sets the timeout of `m`, which is now in the pool `p'` of the object if it was not in
    the pool before. -/
structure SetsTimeout (E : ConfigEnv κ δ) (s s' : Configuration κ δ) (o : Nat) (p p' : PoolConfig κ δ)
    (m : Mmc) (t : Timeval) : Prop where
  before : poolFor E (s.object o) = some p
  self : s'.object o = .pool p'
  others : ∀ o', o' ≠ o → s'.object o' = s.object o'
  timeout : (s'.server m).timeout = t
  otherServers : ∀ m', m' ≠ m → (s'.server m').timeout = (s.server m').timeout
  members : ∀ m', m' ∈ p'.servers ↔ m' ∈ p.servers ∨ m' = m
  smallest : p'.timeout = smallestTimeout E (p.servers = []) t p.timeout

/-- A pool that has servers was there before. -/
theorem SetsTimeout.object {s' : Configuration κ δ} {o : Nat} {p p' : PoolConfig κ δ} {m : Mmc}
    {t : Timeval} (h : SetsTimeout E s s' o p p' m t) (hne : p.servers ≠ []) :
    s.object o = .pool p := by
  rcases poolFor_eq_some E h.before with hobject | ⟨-, rfl⟩
  · exact hobject
  · exact absurd rfl hne

/-- A pool whose timeout does not change: the new timeout must not be below it, and another server must
    have it if the new timeout is above it. -/
theorem smallestTimeout_same_iff {s' : Configuration κ δ} {p p' : PoolConfig κ δ} {m : Mmc}
    {t : Timeval} (hp : SmallestTimeout s.server p) (htimeout : (s'.server m).timeout = t)
    (hothers : ∀ m', m' ≠ m → (s'.server m').timeout = (s.server m').timeout)
    (hmembers : ∀ m', m' ∈ p'.servers ↔ m' ∈ p.servers ∨ m' = m) (hsame : p'.timeout = p.timeout) :
    SmallestTimeout s'.server p' ↔ p.timeout ≤ t ∧
      (m ∈ p.servers → p.timeout < t →
        ∃ m' ∈ p.servers, m' ≠ m ∧ (s.server m').timeout = p.timeout) := by
  constructor
  · intro h
    have hle := h.least m ((hmembers m).mpr (Or.inr rfl))
    rw [htimeout, hsame] at hle
    refine ⟨hle, fun _ hlt => ?_⟩
    obtain ⟨m', hm', hreached⟩ := h.reached
    rw [hsame] at hreached
    have hne : m' ≠ m := by
      rintro rfl
      exact absurd (htimeout.symm.trans hreached) (ne_of_gt hlt)
    rw [hothers m' hne] at hreached
    exact ⟨m', ((hmembers m').mp hm').resolve_right hne, hne, hreached⟩
  · rintro ⟨hle, hother⟩
    refine ⟨?_, fun m' hm' => ?_⟩
    · by_cases heq : t = p.timeout
      · exact ⟨m, (hmembers m).mpr (Or.inr rfl), by rw [htimeout, hsame, heq]⟩
      · obtain ⟨m', hm', hne, hreached⟩ : ∃ m' ∈ p.servers, m' ≠ m ∧
            (s.server m').timeout = p.timeout := by
          by_cases hmem : m ∈ p.servers
          · exact hother hmem (lt_of_le_of_ne hle (Ne.symm heq))
          · obtain ⟨m', hm', hreached⟩ := hp.reached
            exact ⟨m', hm', fun heq => hmem (heq ▸ hm'), hreached⟩
        exact ⟨m', (hmembers m').mpr (Or.inl hm'), by rw [hothers m' hne, hsame, hreached]⟩
    · rw [hsame]
      by_cases hne : m' = m
      · rw [hne, htimeout]
        exact hle
      · rw [hothers m' hne]
        exact hp.least m' (((hmembers m').mp hm').resolve_right hne)

/-- **What setting a timeout does to the invariant.** -/
theorem SetsTimeout.timeoutsSmallest_iff (hmono : Monotone E.timevalToDouble)
    {s' : Configuration κ δ} {o : Nat} {p p' : PoolConfig κ δ} {m : Mmc} {t : Timeval}
    (h : SetsTimeout E s s' o p p' m t) (hs : s.TimeoutsSmallest) :
    s'.TimeoutsSmallest ↔ s.CanSetTimeout E o m t := by
  have hnonempty : p'.servers ≠ [] := List.ne_nil_of_mem ((h.members m).mpr (Or.inr rfl))
  -- the pool at work
  have hself : SmallestTimeout s'.server p' ↔ (p.servers ≠ [] →
      (t < p.timeout → E.timevalToDouble t < E.timevalToDouble p.timeout) ∧
      (m ∈ p.servers → p.timeout < t →
        ∃ m' ∈ p.servers, m' ≠ m ∧ (s.server m').timeout = p.timeout)) := by
    by_cases hempty : p.servers = []
    · refine iff_of_true ?_ fun hne => absurd hempty hne
      have htimeout : p'.timeout = t := by rw [h.smallest, smallestTimeout, if_pos (by simp [hempty])]
      have honly : ∀ m' ∈ p'.servers, m' = m := by
        intro m' hm'
        have hm' := (h.members m').mp hm'
        rw [hempty] at hm'
        exact hm'.resolve_left List.not_mem_nil
      refine ⟨⟨m, (h.members m).mpr (Or.inr rfl), by rw [h.timeout, htimeout]⟩, fun m' hm' => ?_⟩
      rw [honly m' hm', h.timeout, htimeout]
    · have hp := hs o p (h.object hempty) hempty
      rw [forall_prop_of_true hempty]
      by_cases hlower : E.timevalToDouble t < E.timevalToDouble p.timeout
      · have hlt : t < p.timeout := hmono.reflect_lt hlower
        have htimeout : p'.timeout = t := by rw [h.smallest, smallestTimeout, if_pos (Or.inr hlower)]
        refine iff_of_true ⟨⟨m, (h.members m).mpr (Or.inr rfl), by rw [h.timeout, htimeout]⟩,
          fun m' hm' => ?_⟩ ⟨fun _ => hlower, fun _ hgt => absurd hlt (not_lt_of_gt hgt)⟩
        by_cases hne : m' = m
        · rw [hne, h.timeout, htimeout]
        · rw [h.otherServers m' hne, htimeout]
          exact le_trans (le_of_lt hlt) (hp.least m' (((h.members m').mp hm').resolve_right hne))
      · have htimeout : p'.timeout = p.timeout := by
          rw [h.smallest, smallestTimeout, if_neg (by simp [hempty, hlower])]
        rw [smallestTimeout_same_iff hp h.timeout h.otherServers h.members htimeout]
        refine and_congr_left fun _ => ?_
        rw [← not_lt]
        exact ⟨fun hge hlt => absurd hlt hge, fun hgives hlt => hlower (hgives hlt)⟩
  -- the other pools
  have hother : ∀ o' q, o' ≠ o → s.object o' = .pool q → q.servers ≠ [] →
      (SmallestTimeout s'.server q ↔ (m ∈ q.servers → q.timeout ≤ t ∧
        (q.timeout < t → ∃ m' ∈ q.servers, m' ≠ m ∧ (s.server m').timeout = q.timeout))) := by
    intro o' q hne hq hqne
    have hsmallest := hs o' q hq hqne
    by_cases hmem : m ∈ q.servers
    · rw [forall_prop_of_true hmem]
      have hmembers : ∀ m', m' ∈ q.servers ↔ m' ∈ q.servers ∨ m' = m :=
        fun m' => ⟨Or.inl, fun h => h.elim id fun heq => heq ▸ hmem⟩
      rw [smallestTimeout_same_iff hsmallest h.timeout h.otherServers hmembers rfl,
        forall_prop_of_true hmem]
    · refine iff_of_true ?_ fun h => absurd h hmem
      have hsame : ∀ m' ∈ q.servers, (s'.server m').timeout = (s.server m').timeout :=
        fun m' hm' => h.otherServers m' fun heq => hmem (heq ▸ hm')
      obtain ⟨m', hm', hreached⟩ := hsmallest.reached
      refine ⟨⟨m', hm', by rw [hsame m' hm', hreached]⟩, fun m' hm' => ?_⟩
      rw [hsame m' hm']
      exact hsmallest.least m' hm'
  constructor
  · intro hafter o' q hq hqne
    by_cases hne : o' = o
    · subst hne
      have hbefore := h.before
      rw [hq] at hbefore
      cases hbefore
      obtain ⟨hlower, hhigher⟩ := hself.mp (hafter o' p' h.self hnonempty) hqne
      exact ⟨fun _ => hlower, fun hmem => ⟨fun hne => absurd rfl hne, hhigher hmem⟩⟩
    · have hq' := hafter o' q ((h.others o' hne).trans hq) hqne
      refine ⟨fun heq => absurd heq hne, fun hmem => ?_⟩
      obtain ⟨hle, hhigher⟩ := (hother o' q hne hq hqne).mp hq' hmem
      exact ⟨fun _ => hle, hhigher⟩
  · intro hcan o' q hq hqne
    by_cases hne : o' = o
    · subst hne
      rw [h.self] at hq
      cases hq
      refine hself.mpr fun hpne => ?_
      obtain ⟨hlower, hmember⟩ := hcan o' p (h.object hpne) hpne
      exact ⟨hlower rfl, fun hmem => (hmember hmem).2⟩
    · rw [h.others o' hne] at hq
      obtain ⟨-, hmember⟩ := hcan o' q hq hqne
      exact (hother o' q hne hq hqne).mpr fun hmem => ⟨(hmember hmem).1 hne, (hmember hmem).2⟩

/-! ## The calls -/

/-- The server for some arguments gets their timeout. -/
theorem HasServer.setsTimeout {s' : Configuration κ δ} {o : Nat} {p p' : PoolConfig κ δ}
    {a : AddServerArgs κ} (h : HasServer E s o p a p' s') (hp : poolFor E (s.object o) = some p) :
    SetsTimeout E s s' o p p' (s.serverFor a (udpArgument p a)).1 a.timeout := by
  have hserves := serverFor_serves s a (udpArgument p a)
  refine ⟨hp, h.self, h.others, ?_, fun m' hm' => ?_, fun m' => ?_, ?_⟩
  · exact (h.server _).timeout.trans hserves.timeout
  · exact (h.server m').timeout.trans (congrArg ServerConfig.timeout (hserves.others m' hm'))
  · rw [h.servers, poolWith, mmcPoolAdd, List.mem_append, List.mem_singleton]
  · rw [h.timeout, poolWith, mmcPoolAdd, hserves.timeout]

/-- `setServerParams` sets the timeout of a server that it finds. -/
theorem memcacheSetServerParams_sets (E : ConfigEnv κ δ) (s : Configuration κ δ) (o : Nat)
    (host : Bytes) (port : Int) (timeout : Timeval) (retryInterval : Int) (status : Bool)
    (callback : Option (Option κ)) :
    (∃ p p' m, callbackAccepted E callback.join = true ∧ s.object o = .pool p ∧
      s.lookup p host port = some m ∧
      SetsTimeout E s
        (s.memcacheSetServerParams E o host port timeout retryInterval status callback).2 o p p' m
        timeout) ∨
    (∀ p m, s.object o = .pool p → s.lookup p host port = some m →
        callbackAccepted E callback.join ≠ true) ∧
      (s.memcacheSetServerParams E o host port timeout retryInterval status callback).2 = s := by
  unfold memcacheSetServerParams
  cases hobject : s.object o with
  | missing => exact Or.inr ⟨(fun p m hp => by cases hp), rfl⟩
  | invalid => exact Or.inr ⟨(fun p m hp => by cases hp), rfl⟩
  | pool p =>
    dsimp only
    cases hlookup : s.lookup p host port with
    | none =>
      refine Or.inr ⟨fun p' m hp hm => ?_, rfl⟩
      cases hp
      rw [hlookup] at hm
      cases hm
    | some m =>
      dsimp only
      by_cases hcallback : callbackAccepted E callback.join = true
      · rw [if_pos hcallback]
        have hmem : m ∈ p.servers := List.mem_of_find?_eq_some hlookup
        refine Or.inl ⟨p, _, m, hcallback, rfl, hlookup, by rw [hobject]; rfl,
          setObject_object_self .., fun o' ho' => setObject_object_of_ne ho' _, ?_,
          fun m' hm' => ?_, fun m' => ?_, ?_⟩
        · simp only [setObject_server, Function.update_self]
        · simp only [setObject_server, Function.update_of_ne hm']
        · exact ⟨Or.inl, fun h => h.elim id fun heq => heq ▸ hmem⟩
        · have hne : decide (p.servers = []) = false := by simp [List.ne_nil_of_mem hmem]
          rw [hne]
      · rw [if_neg hcallback]
        refine Or.inr ⟨fun p' m' hp hm => hcallback, rfl⟩

/-! ## Runs -/

/-- Emptying a pool does not break the invariant. -/
theorem TimeoutsSmallest.close (hs : s.TimeoutsSmallest) (o : Nat) :
    (s.memcacheClose o).2.TimeoutsSmallest := by
  by_cases hobject : ∃ p, s.object o = .pool p
  · obtain ⟨p, hp⟩ := hobject
    rw [memcacheClose_of_pool hp]
    intro o' q hq hne
    by_cases ho : o' = o
    · subst ho
      rw [setObject_object_self] at hq
      cases hq
      exact absurd (mmcPoolClose_servers p) hne
    · rw [setObject_object_of_ne ho] at hq
      exact hs o' q hq hne
  · rw [memcacheClose_of_not_pool fun p hp => hobject ⟨p, hp⟩]
    exact hs

theorem TimeoutsSmallest.free (hs : s.TimeoutsSmallest) (o : Nat) :
    (s.freeObject o).TimeoutsSmallest := by
  intro o' q hq hne
  by_cases ho : o' = o
  · subst ho
    rw [freeObject_object_self] at hq
    cases hq
  · rw [freeObject_object_of_ne ho] at hq
    exact hs o' q hq hne

/-- **One call** keeps the invariant if and only if it meets the condition. -/
theorem after_timeoutsSmallest_iff (hmono : Monotone E.timevalToDouble) (call : ConfigCall κ)
    (hs : s.TimeoutsSmallest) : (s.after E call).TimeoutsSmallest ↔ s.KeepsTimeouts E call := by
  cases call with
  | addServer o a =>
    exact memcacheAddServer_iff hs fun p p' s' _ hp hhas =>
      (hhas.setsTimeout hp).timeoutsSmallest_iff hmono hs
  | connect o a =>
    exact memcacheConnect_iff hs fun p p' s' _ hp hhas =>
      (hhas.setsTimeout hp).timeoutsSmallest_iff hmono hs
  | setServerParams o host port timeout retryInterval status callback =>
    rw [after, KeepsTimeouts]
    rcases memcacheSetServerParams_sets E s o host port timeout retryInterval status callback with
      ⟨p, p', m, hcallback, hp, hm, hsets⟩ | ⟨hrejected, hsame⟩
    · rw [hsets.timeoutsSmallest_iff hmono hs]
      refine ⟨fun h _ q hq m' hm' => ?_, fun h => h hcallback p hp m hm⟩
      rw [hp] at hq
      cases hq
      obtain rfl := Option.some.inj (hm.symm.trans hm')
      exact h
    · rw [hsame]
      refine iff_of_true hs fun hcallback q hq m hm => ?_
      exact absurd hcallback (hrejected q m hq hm)
  | close o => exact iff_of_true (hs.close o) trivial
  | free o => exact iff_of_true (hs.free o) trivial

/-- **When the timeouts of all pools are the smallest** in every state of a run. -/
theorem timeoutsSmallest_iff_keeps (hmono : Monotone E.timevalToDouble)
    (calls : List (ConfigCall κ)) :
    (∀ n s', performAll (perform E) (calls.take n) ({} : Configuration κ δ)
        = some s' → s'.TimeoutsSmallest) ↔
      Obeys (perform E) (KeepsTimeouts E) calls {} := by
  have hstart : ({} : Configuration κ δ).TimeoutsSmallest := fun o p hp => by cases hp
  refine everywhere_iff (fun s (hs : TimeoutsSmallest s) => hs) ?_ ?_ hstart
  · intro s call s' hs hkeeps hs'
    cases hs'
    exact (after_timeoutsSmallest_iff hmono call hs).mpr hkeeps
  · intro s call hs hnot
    exact ⟨_, rfl, fun h => hnot ((after_timeoutsSmallest_iff hmono call hs).mp h)⟩

/-- A server is added, and the pool closed. -/
theorem timeoutsSmallest_addAndClose :
    Obeys (perform sampleEnv) (KeepsTimeouts sampleEnv)
        [.addServer 0 { host := [104], tcpPort := 11211 }, .close 0] ({} : Configuration Unit Nat) ∧
      ∀ n s', performAll (perform sampleEnv)
        (List.take n [.addServer 0 { host := [104], tcpPort := 11211 }, .close 0])
        ({} : Configuration Unit Nat) = some s' → s'.TimeoutsSmallest := by
  have hobeys : Obeys (perform sampleEnv) (KeepsTimeouts sampleEnv)
      [.addServer 0 { host := [104], tcpPort := 11211 }, .close 0] ({} : Configuration Unit Nat) :=
    ⟨(fun _ _ _ _ o' p hp => by cases hp), trivial, trivial⟩
  exact ⟨hobeys, (timeoutsSmallest_iff_keeps Int.cast_mono _).mpr hobeys⟩

/-- The timeout of the only server is raised from one second to two, and the pool keeps its one. -/
theorem raisedTimeout_notSmallest :
    ¬ ∀ n s', performAll (perform sampleEnv)
      (List.take n [.addServer 0 { host := [104], tcpPort := 11211 },
        .setServerParams 0 [104] 11211 2000000 15 true none])
      ({} : Configuration Unit Nat) = some s' → s'.TimeoutsSmallest := by
  intro h
  obtain ⟨m, hm, hreached⟩ := (h 2 _ rfl 0 _ rfl (by decide)).reached
  obtain rfl := List.mem_singleton.mp hm
  exact absurd hreached (by decide)

end Configuration

end PeclMemcache
