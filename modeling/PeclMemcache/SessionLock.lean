import PeclMemcache.SessionClients
import PeclMemcache.SessionLoops

set_option autoImplicit false

/-! # Mutual exclusion of sessions

The counter under the key of the lock on the first server of a session: raised by every attempt,
created by an add or by an increment with a default, and set to 0 by `PS_WRITE`. While it is 0 or
missing no client holds the lock, else at most one does; from this follows what a read returns. -/

namespace PeclMemcache

variable {δ ω : Type} {S : SessionSetup δ ω}

/-! ## The lock and the data on a server -/

theorem lockKey_ne (key : Bytes) : lockKey key ≠ key := by
  intro h
  have hlength := congrArg List.length h
  simp [lockKey, bytes] at hlength

theorem counter_decimal {item : Item} {n : UInt64} (h : item.data = decimal n.toNat) :
    item.counter = some n := by
  rw [Item.counter, h, number_decimal]
  exact (if_pos n.toNat_lt).trans (congrArg some UInt64.ofNat_toNat)

theorem length_decimal_small {n : Nat} (h : n < 2 ^ 64) : (decimal n).length ≤ itemLimit := by
  have := length_decimal_le h
  rw [itemLimit]
  omega

namespace Memcached

variable (s : Memcached)

/-- The value of the counter under a key; `none` inside if it is none. -/
def counterAt (key : Bytes) : Option (Option UInt64) := (s.items key).map Item.counter

theorem put_items_ne {key key' : Bytes} (hne : key' ≠ key) (flags : UInt32) (data : Bytes) :
    (s.put key flags data).2.items key' = s.items key' := by
  unfold put
  split
  · exact Function.update_of_ne hne _ _
  · rfl

theorem put_small {key : Bytes} {flags : UInt32} {data : Bytes} (h : data.length ≤ itemLimit) :
    (s.put key flags data).1 = .stored ∧
      (s.put key flags data).2.items key = some ⟨data, flags, s.lastToken + 1, h⟩ := by
  rw [put, dif_pos h]
  exact ⟨rfl, Function.update_self _ _ _⟩

theorem put_large {key : Bytes} {flags : UInt32} {data : Bytes} (h : ¬ data.length ≤ itemLimit) :
    s.put key flags data = (.tooLarge, s) := dif_neg h

/-- Storing a number under a key. -/
theorem counterAt_put_decimal (key : Bytes) (flags : UInt32) (n : UInt64) :
    (s.put key flags (decimal n.toNat)).1 = .stored ∧
      (s.put key flags (decimal n.toNat)).2.counterAt key = some (some n) := by
  obtain ⟨hstored, hitem⟩ := @put_small s key flags _ (length_decimal_small n.toNat_lt)
  refine ⟨hstored, ?_⟩
  rw [counterAt, hitem]
  exact congrArg some (counter_decimal rfl)

end Memcached

/-! ## The commands on one server -/

section

variable (S) (s : Memcached)

/-- A command leaves the other keys alone. -/
theorem execute_items_ne (c : SessionCommand) {key : Bytes} (hne : key ≠ S.keyOf c) :
    (s.execute (S.serverCommand c)).2.items key = s.items key := by
  cases c with
  | incrLock =>
    simp only [SessionSetup.serverCommand, Memcached.execute, Memcached.change]
    split
    · split
      · rfl
      · exact s.put_items_ne hne _ _
    · split
      · rfl
      · exact s.put_items_ne hne _ _
  | addLock =>
    simp only [SessionSetup.serverCommand_addLock, Memcached.execute]
    cases s.items (lockKey S.key) with
    | none => exact s.put_items_ne hne _ _
    | some item => rfl
  | getData =>
    simp only [SessionSetup.serverCommand_getData, Memcached.execute]
    cases s.items S.key <;> rfl
  | setData value =>
    simp only [SessionSetup.serverCommand_setData, Memcached.execute]
    exact s.put_items_ne hne _ _
  | resetLock =>
    simp only [SessionSetup.serverCommand_resetLock, Memcached.execute]
    exact s.put_items_ne hne _ _

theorem execute_getData :
    s.execute (S.serverCommand .getData)
      = (match s.items S.key with | some item => .value item | none => .notFound, s) := by
  simp only [SessionSetup.serverCommand_getData, Memcached.execute]
  cases s.items S.key <;> rfl

variable {s}

/-- The increment of a lock that is missing. -/
theorem execute_incrLock_none (h : s.counterAt (lockKey S.key) = none) :
    ((s.execute (S.serverCommand .incrLock)).1 = .notFound ∧
        (s.execute (S.serverCommand .incrLock)).2.counterAt (lockKey S.key) = none) ∨
      ((s.execute (S.serverCommand .incrLock)).1 = .number 1 ∧
        (s.execute (S.serverCommand .incrLock)).2.counterAt (lockKey S.key) = some (some 1)) := by
  have hinitial : S.initialLock = none ∨ S.initialLock = some 1 := by
    unfold SessionSetup.initialLock
    split
    · exact Or.inl rfl
    · split
      · exact Or.inl rfl
      · exact Or.inr rfl
  have hitem : s.items (lockKey S.key) = none := Option.map_eq_none_iff.mp h
  rcases hinitial with hinitial | hinitial
  · left
    simp only [SessionSetup.serverCommand, hinitial, Memcached.execute, Memcached.change, hitem]
    exact ⟨trivial, h⟩
  · right
    simp only [SessionSetup.serverCommand, hinitial, Memcached.execute, Memcached.change, hitem]
    exact ⟨trivial, (s.counterAt_put_decimal _ 0 1).2⟩

/-- The increment of a lock. -/
theorem execute_incrLock_some {n : UInt64} (h : s.counterAt (lockKey S.key) = some (some n)) :
    (s.execute (S.serverCommand .incrLock)).1 = .number (n + 1) ∧
      (s.execute (S.serverCommand .incrLock)).2.counterAt (lockKey S.key)
        = some (some (n + 1)) := by
  obtain ⟨item, hitem, hcounter⟩ := Option.map_eq_some_iff.mp h
  simp only [SessionSetup.serverCommand, Memcached.execute, Memcached.change, hitem, hcounter]
  exact ⟨rfl, (s.counterAt_put_decimal _ item.flags (n + 1)).2⟩

theorem execute_addLock_none (h : s.counterAt (lockKey S.key) = none) :
    (s.execute (S.serverCommand .addLock)).1 = .stored ∧
      (s.execute (S.serverCommand .addLock)).2.counterAt (lockKey S.key) = some (some 1) := by
  have hitem : s.items (lockKey S.key) = none := Option.map_eq_none_iff.mp h
  simp only [SessionSetup.serverCommand_addLock, Memcached.execute, hitem]
  exact s.counterAt_put_decimal _ MMC_TYPE_LONG 1

theorem execute_addLock_some {v : Option UInt64} (h : s.counterAt (lockKey S.key) = some v) :
    s.execute (S.serverCommand .addLock) = (.notStored, s) := by
  obtain ⟨item, hitem, -⟩ := Option.map_eq_some_iff.mp h
  simp only [SessionSetup.serverCommand_addLock, Memcached.execute, hitem]

variable (s)

theorem execute_resetLock :
    (s.execute (S.serverCommand .resetLock)).1 = .stored ∧
      (s.execute (S.serverCommand .resetLock)).2.counterAt (lockKey S.key) = some (some 0) := by
  simp only [SessionSetup.serverCommand_resetLock, Memcached.execute]
  exact s.counterAt_put_decimal _ MMC_TYPE_LONG 0

end

/-! ## Values -/

/-- What a get of the session data finds on a server: nothing, or an item with a string in it or
    not. -/
def SessionSetup.dataAt (S : SessionSetup δ ω) (s : Memcached) : Option (Option Bytes) :=
  (s.items S.key).map fun item => S.dataOf (.value item)

/-- The string survives packing. -/
theorem dataOf_pack (hC : S.codec.Lawful) {value : Bytes} (hlen : value.length < 2 ^ 31)
    {item : Item} (hdata : item.data = (S.pack (.string value)).1)
    (hflags : item.flags = (S.pack (.string value)).2) :
    S.dataOf (.value item) = some value := by
  obtain ⟨appended, f, hpack, hexpand, hmask⟩ := @mmcCompress_spec _ _ S.codec hC S.compression {}
    {} value hlen (((0 : UInt32) &&& ~~~MMC_SERIALIZED) ||| MMC_TYPE_STRING) false rfl
  have hkind := kindFlags_of_masked (by decide) (by decide) hmask
  have hlow : ¬ ((0 : UInt32) &&& 0xffff &&& ~~~MMC_COMPRESSED ≠ 0) := by decide
  have hpacked : S.pack (.string value) = (appended, f) := by
    simp only [SessionSetup.pack, mmcPackValue, if_neg hlow, hpack]
    rfl
  rw [hpacked] at hdata hflags
  have hunpack : mmcUnpackValue S.codec appended f = some (.string value) := by
    rw [mmcUnpackValue, hexpand]
    dsimp only
    rw [hkind.serialized, hkind.type]
    rfl
  rw [SessionSetup.dataOf, hdata, hflags, hunpack]

/-- Storing the data: it is there, or it is too large. -/
theorem execute_setData (hC : S.codec.Lawful) (s : Memcached) {value : Bytes}
    (hlen : value.length < 2 ^ 31) :
    ((S.pack (.string value)).1.length ≤ itemLimit ∧
        (s.execute (S.serverCommand (.setData value))).1 = .stored ∧
        S.dataAt (s.execute (S.serverCommand (.setData value))).2 = some (some value)) ∨
      (¬ (S.pack (.string value)).1.length ≤ itemLimit ∧
        s.execute (S.serverCommand (.setData value)) = (.tooLarge, s)) := by
  simp only [SessionSetup.serverCommand_setData, Memcached.execute]
  by_cases hsmall : (S.pack (.string value)).1.length ≤ itemLimit
  · left
    obtain ⟨hstored, hitem⟩ :=
      @Memcached.put_small s S.key (S.pack (.string value)).2 _ hsmall
    refine ⟨hsmall, hstored, ?_⟩
    rw [SessionSetup.dataAt, hitem]
    exact congrArg some (dataOf_pack hC hlen rfl rfl)
  · exact Or.inr ⟨hsmall, s.put_large hsmall⟩

/-! ## The invariant -/

/-- One of the outcomes of a round gives the lock. -/
def granted (done : List Outcome) : Bool := (roundCommands.zip done).any fun p => p.1.grants p.2

/-- The commands for the first server among those of `PS_WRITE`. -/
def SessionSetup.forFirst (S : SessionSetup δ ω) (pending : List (Mmc × SessionCommand)) :
    List (Mmc × SessionCommand) :=
  pending.filter fun p => p.1 = S.first

/-- What is true of a client, given whether it holds the lock and what was stored last. -/
def ClientInv (S : SessionSetup δ ω) (holds : Bool) (stored : Option Bytes) : SessionPhase → Prop
  | .idle => True
  | .reading r mmc _ done acquired =>
    (acquired = true → holds = true ∧ stored = none ∧
      ∀ o, done[2]? = some o → S.dataOf o = none) ∧
    (acquired = false → r.skip = [] ∧ r.lastIndex = 0 ∧ mmc = S.first ∧
      (granted done = true → holds = true ∧ ∀ o, done[2]? = some o → S.dataOf o = stored))
  | .holding value => holds = true ∧ value = stored.getD []
  | .writing value pending =>
    value.length < 2 ^ 31 ∧
    S.forFirst pending <:+ [(S.first, .setData value), (S.first, .resetLock)] ∧
    (S.forFirst pending ≠ [] → holds = true) ∧
    (∀ p ∈ pending, p.2 = .setData value ∨ p.2 = .resetLock) ∧
    ((S.pack (.string value)).1.length ≤ itemLimit →
      (S.first, .setData value) ∈ pending ∨ stored ≠ none)

/-- The invariant: at most one client holds the lock, the counter is positive meanwhile, the first
    server has what was stored last, and data elsewhere is there or about to be stored there. -/
structure Exclusive (S : SessionSetup δ ω) (s : SessionState) : Prop where
  unique : ∀ c d, s.holder c = true → s.holder d = true → c = d
  lock : ∃ v : Option UInt64, (s.servers S.first).counterAt (lockKey S.key) = v.map some ∧
    ((∃ c, s.holder c = true) → ∃ n, v = some n ∧ n ≠ 0)
  data : S.dataAt (s.servers S.first) = s.stored.map some
  elsewhere : ∀ m, S.dataAt (s.servers m) ≠ none → s.stored ≠ none ∨
    ∃ c value pending, s.phase c = .writing value pending ∧
      (S.first, .setData value) ∈ pending ∧ (S.pack (.string value)).1.length ≤ itemLimit
  client : ∀ c, ClientInv S (s.holder c) s.stored (s.phase c)

theorem exclusive_start (S : SessionSetup δ ω) : Exclusive S .start where
  unique c d h := by cases h
  lock := ⟨none, rfl, by rintro ⟨c, h⟩; cases h⟩
  data := rfl
  elsewhere m h := absurd rfl h
  client c := trivial

/-- What is true of a client stays true as long as it keeps the lock and its value. -/
theorem ClientInv.mono {holds holds' : Bool} {stored stored' : Option Bytes} {p : SessionPhase}
    (h : ClientInv S holds stored p)
    (hholds : holds = true → holds' = true ∧ stored' = stored)
    (hkept : stored ≠ none → stored' ≠ none) : ClientInv S holds' stored' p := by
  cases p with
  | idle => trivial
  | reading r mmc i done acquired =>
    refine ⟨?_, ?_⟩
    · intro hacquired
      obtain ⟨hholder, hnone, hthird⟩ := h.1 hacquired
      obtain ⟨hholder', hsame⟩ := hholds hholder
      exact ⟨hholder', hsame.trans hnone, hthird⟩
    · intro hacquired
      obtain ⟨hskip, hindex, hfirst, hgranted⟩ := h.2 hacquired
      refine ⟨hskip, hindex, hfirst, ?_⟩
      intro hg
      obtain ⟨hholder, hthird⟩ := hgranted hg
      obtain ⟨hholder', hsame⟩ := hholds hholder
      exact ⟨hholder', fun o ho => (hthird o ho).trans hsame.symm⟩
  | holding value =>
    obtain ⟨hholder, hvalue⟩ := h
    obtain ⟨hholder', hsame⟩ := hholds hholder
    exact ⟨hholder', hsame ▸ hvalue⟩
  | writing value pending =>
    obtain ⟨hlen, hsuffix, hholder, hall, hlarge⟩ := h
    refine ⟨hlen, hsuffix, fun hne => (hholds (hholder hne)).1, hall, ?_⟩
    intro hsmall
    rcases hlarge hsmall with hmem | hstored
    · exact Or.inl hmem
    · exact Or.inr (hkept hstored)

theorem SessionSetup.mem_forFirst (S : SessionSetup δ ω) {p : Mmc × SessionCommand}
    {pending : List (Mmc × SessionCommand)} (h : p ∈ pending) (hfirst : p.1 = S.first) :
    p ∈ S.forFirst pending := List.mem_filter.mpr ⟨h, decide_eq_true hfirst⟩

/-- A client that still has to store its data on the first server holds the lock. -/
theorem Exclusive.holder_of_pending {s : SessionState} (h : Exclusive S s) {c : Nat}
    {value : Bytes} {pending : List (Mmc × SessionCommand)}
    (hphase : s.phase c = .writing value pending) {command : SessionCommand}
    (hmem : (S.first, command) ∈ pending) : s.holder c = true := by
  have hclient := h.client c
  rw [hphase] at hclient
  obtain ⟨-, -, hholder, -⟩ := hclient
  exact hholder (List.ne_nil_of_mem (S.mem_forFirst hmem rfl))

/-! ### Steps of a client alone -/

/-- A client that is not writing changes its phase. -/
theorem Exclusive.setPhase {s : SessionState} (h : Exclusive S s) {c : Nat} {p : SessionPhase}
    (hphase : ∀ value pending, s.phase c ≠ .writing value pending)
    (hnew : ClientInv S (s.holder c) s.stored p) :
    Exclusive S { s with phase := Function.update s.phase c p } where
  unique := h.unique
  lock := h.lock
  data := h.data
  elsewhere m hm := by
    rcases h.elsewhere m hm with hstored | ⟨d, value, pending, hd, hmem, hsmall⟩
    · exact Or.inl hstored
    · have hne : d ≠ c := by
        rintro rfl
        exact hphase _ _ hd
      exact Or.inr ⟨d, value, pending, (Function.update_of_ne hne _ _).trans hd, hmem, hsmall⟩
  client d := by
    dsimp only
    by_cases hd : d = c
    · subst hd
      rw [Function.update_self]
      exact hnew
    · rw [Function.update_of_ne hd]
      exact h.client d

theorem findNext_first (S : SessionSetup δ ω) :
    S.pool.findNext S.key [] 0 = some (S.first, 1) := by
  have hprobe : ∀ fuel, S.pool.findNextFrom S.key [] (fuel + 1) 0 = some (S.first, 1) := by
    intro fuel
    rw [SessionPool.findNextFrom, if_neg (by simp)]
    rfl
  exact hprobe 4294967295

/-- A round on the first server without the lock. -/
theorem clientInv_first {holds : Bool} {stored : Option Bytes} {r : ReadState}
    (hskip : r.skip = []) (hindex : r.lastIndex = 0) {p : SessionPhase}
    (h : S.nextRound r false = some p) : ClientInv S holds stored p := by
  rw [SessionSetup.nextRound, hskip, hindex, findNext_first] at h
  cases h
  refine ⟨by simp, fun _ => ⟨hskip, hindex, rfl, ?_⟩⟩
  intro hgranted
  cases hgranted

/-- A round of a client that holds the lock and has found no data. -/
theorem clientInv_acquired {stored : Option Bytes} (hstored : stored = none) {r : ReadState}
    {p : SessionPhase} (h : S.nextRound r true = some p) : ClientInv S true stored p := by
  obtain ⟨n, -, rfl⟩ := Option.map_eq_some_iff.mp h
  exact ⟨fun _ => ⟨rfl, hstored, by simp⟩, by simp⟩

theorem Exclusive.startRead {s s' : SessionState} (h : Exclusive S s) {c : Nat}
    (hstep : S.perform s (.startRead c) = some s') : Exclusive S s' := by
  unfold SessionSetup.perform at hstep
  dsimp only at hstep
  split at hstep
  · next hphase =>
    obtain ⟨p, hp, rfl⟩ := Option.map_eq_some_iff.mp hstep
    refine h.setPhase ?_ (clientInv_first rfl rfl hp)
    intro value pending hwriting
    rw [hphase] at hwriting
    cases hwriting
  · cases hstep

/-- The outcomes of a round lock the session if one of them gives the lock. -/
theorem locked_attempt (S : SessionSetup δ ω) (lock add data : Outcome) :
    (S.attempt lock add data).locked = granted [lock, add, data] := by
  have hlock : ([S.lockCall lock].foldl (afterCall mmcNumericResponseHandler) .null = .long 1) ↔
      SessionCommand.incrLock.grants lock = true := by
    cases lock with
    | number n =>
      have hone : zendLong n.toNat = 1 ↔ n = 1 := by
        constructor
        · intro hn
          unfold zendLong at hn
          have hlt := n.toNat_lt
          split at hn
          · exact UInt64.toNat_inj.mp (by exact_mod_cast hn)
          · omega
        · rintro rfl
          rfl
      simp [SessionSetup.lockCall, afterCall, mmcValueHandlerSingle, SessionCommand.grants, hone]
    | _ =>
      exact iff_of_false (show ¬ ReturnValue.bool false = .long 1 by decide)
        (by simp [SessionCommand.grants])
  have hadd : ([SessionSetup.addCall add].foldl (afterCall mmcStoredHandler) .null = .bool true) ↔
      SessionCommand.addLock.grants add = true := by
    cases add with
    | stored => exact iff_of_true (by decide) rfl
    | _ =>
      exact iff_of_false (show ¬ ReturnValue.bool false = .bool true by decide)
        (by simp [SessionCommand.grants])
  rw [SessionSetup.attempt, Attempt.locked, Bool.eq_iff_iff, decide_eq_true_iff, hlock, hadd]
  simp [granted, roundCommands, SessionCommand.grants]

/-- What follows on a round, if a client that has got the lock has it and has found what was stored
    last. -/
theorem clientInv_afterRound {holds : Bool} {stored : Option Bytes} {r : ReadState} {m : Mmc}
    {i : UInt32} {lock add data : Outcome} {acquired : Bool} {p : SessionPhase}
    (hfirst : acquired = false → r.skip = [] ∧ r.lastIndex = 0)
    (hlock : (acquired || (S.attempt lock add data).locked) = true →
      holds = true ∧ S.dataOf data = stored)
    (hnone : acquired = true → stored = none)
    (h : S.afterRound r m i (S.attempt lock add data)
      (acquired || (S.attempt lock add data).locked) = some p) : ClientInv S holds stored p := by
  rw [SessionSetup.afterRound] at h
  rcases S.pool.readRound_answered r m i [S.lockCall lock] [SessionSetup.addCall add]
    (S.dataOf data) with ⟨hlocked, hround⟩ | ⟨hlocked, hdata, hround⟩ | ⟨hlocked, hround⟩
  · have hlocked : (S.attempt lock add data).locked = true := hlocked
    rw [hlocked, Bool.or_true] at hlock h
    obtain ⟨hholds, hsame⟩ := hlock rfl
    simp only [SessionSetup.attempt, hround] at h
    cases h
    exact ⟨hholds, by rw [hsame]⟩
  · have hlocked : (S.attempt lock add data).locked = true := hlocked
    rw [hlocked, Bool.or_true] at hlock h
    obtain ⟨hholds, hsame⟩ := hlock rfl
    have hstored : stored = none := hsame.symm.trans hdata
    simp only [SessionSetup.attempt, hround] at h
    split at h
    · rw [hholds]
      exact clientInv_acquired hstored h
    · cases h
      exact ⟨hholds, by rw [hstored]; rfl⟩
  · have hlocked : (S.attempt lock add data).locked = false := hlocked
    rw [hlocked, Bool.or_false] at hlock h
    simp only [SessionSetup.attempt, hround] at h
    cases acquired with
    | false =>
      obtain ⟨hskip, hindex⟩ := hfirst rfl
      split at h
      · exact clientInv_first (r := r.backOff) hskip hindex h
      · cases h
        trivial
    | true =>
      obtain ⟨hholds, -⟩ := hlock rfl
      split at h
      · rw [hholds]
        exact clientInv_acquired (hnone rfl) h
      · cases h
        exact ⟨hholds, by rw [hnone rfl]; rfl⟩

theorem Exclusive.finishRound {s s' : SessionState} (h : Exclusive S s) {c : Nat}
    (hstep : S.perform s (.finishRound c) = some s') : Exclusive S s' := by
  unfold SessionSetup.perform at hstep
  dsimp only at hstep
  split at hstep
  · next r m i lock add data acquired hphase =>
    obtain ⟨p, hp, rfl⟩ := Option.map_eq_some_iff.mp hstep
    have hclient := h.client c
    rw [hphase] at hclient
    obtain ⟨hacquired, hfirst⟩ := hclient
    refine h.setPhase ?_ (clientInv_afterRound ?_ ?_ (fun ha => (hacquired ha).2.1) hp)
    · intro value pending hwriting
      rw [hphase] at hwriting
      cases hwriting
    · intro ha
      exact ⟨(hfirst ha).1, (hfirst ha).2.1⟩
    · intro hlocked
      cases acquired with
      | true =>
        obtain ⟨hholds, hstored, hdata⟩ := hacquired rfl
        exact ⟨hholds, (hdata data rfl).trans hstored.symm⟩
      | false =>
        rw [Bool.false_or, locked_attempt] at hlocked
        obtain ⟨hholds, hdata⟩ := (hfirst rfl).2.2.2 hlocked
        exact ⟨hholds, hdata data rfl⟩
  · cases hstep

/-! ### The commands of a round -/

theorem dataAt_execute {command : SessionCommand} (h : command ∈ roundCommands)
    (server : Memcached) :
    S.dataAt (server.execute (S.serverCommand command)).2 = S.dataAt server := by
  have hlock : ∀ c, S.keyOf c = lockKey S.key →
      S.dataAt (server.execute (S.serverCommand c)).2 = S.dataAt server := by
    intro c hc
    rw [SessionSetup.dataAt, execute_items_ne S server c (by rw [hc]; exact (lockKey_ne _).symm)]
    rfl
  simp only [roundCommands, List.mem_cons, List.not_mem_nil, or_false] at h
  rcases h with rfl | rfl | rfl
  · exact hlock _ rfl
  · exact hlock _ rfl
  · rw [execute_getData]

/-- What the get of a round finds. -/
theorem dataOf_getData (server : Memcached) :
    S.dataOf (server.execute (S.serverCommand .getData)).1 = (S.dataAt server).join := by
  rw [execute_getData, SessionSetup.dataAt]
  cases server.items S.key <;> rfl

/-- A command of a round on the server of the lock: it gives the lock only if nobody holds it, and
    the counter is positive if somebody holds it afterwards. -/
theorem lock_step {command : SessionCommand} (hcommand : command ∈ roundCommands)
    {server : Memcached} {v : Option UInt64} {held : Prop}
    (hlock : server.counterAt (lockKey S.key) = v.map some)
    (hheld : held → ∃ n, v = some n ∧ n ≠ 0)
    (hwrap : command = .incrLock → v ≠ some (UInt64.ofNat (2 ^ 64 - 1))) :
    ∃ v' : Option UInt64,
      (server.execute (S.serverCommand command)).2.counterAt (lockKey S.key) = v'.map some ∧
      (command.grants (server.execute (S.serverCommand command)).1 = true → ¬ held) ∧
      (command.grants (server.execute (S.serverCommand command)).1 = true ∨ held →
        ∃ n, v' = some n ∧ n ≠ 0) := by
  simp only [roundCommands, List.mem_cons, List.not_mem_nil, or_false] at hcommand
  rcases hcommand with rfl | rfl | rfl
  · cases v with
    | none =>
      have hfree : ¬ held := fun h => by
        obtain ⟨n, hn, -⟩ := hheld h
        cases hn
      rcases execute_incrLock_none S hlock with ⟨ho, hafter⟩ | ⟨ho, hafter⟩
      · refine ⟨none, hafter, fun _ => hfree, ?_⟩
        rw [ho]
        rintro (hgrant | hholds)
        · cases hgrant
        · exact absurd hholds hfree
      · exact ⟨some 1, hafter, fun _ => hfree, fun _ => ⟨1, rfl, by decide⟩⟩
    | some n =>
      obtain ⟨ho, hafter⟩ := execute_incrLock_some S hlock
      have hmax : n ≠ UInt64.ofNat (2 ^ 64 - 1) := fun hn => hwrap rfl (congrArg some hn)
      have hpos : n + 1 ≠ 0 := by
        intro hzero
        apply hmax
        have hn : n = n + 1 - 1 := by simp
        rw [hn, hzero]
        rfl
      refine ⟨some (n + 1), hafter, ?_, fun _ => ⟨n + 1, rfl, hpos⟩⟩
      rw [ho]
      intro hgrant hholds
      obtain ⟨n', hn', hne⟩ := hheld hholds
      cases hn'
      apply hne
      have hone : n + 1 = 1 := of_decide_eq_true hgrant
      have hn : n = n + 1 - 1 := by simp
      rw [hn, hone]
      rfl
  · cases v with
    | none =>
      have hfree : ¬ held := fun h => by
        obtain ⟨n, hn, -⟩ := hheld h
        cases hn
      obtain ⟨-, hafter⟩ := execute_addLock_none S hlock
      exact ⟨some 1, hafter, fun _ => hfree, fun _ => ⟨1, rfl, by decide⟩⟩
    | some n =>
      rw [execute_addLock_some S hlock]
      refine ⟨some n, hlock, fun hgrant => (by cases hgrant), ?_⟩
      rintro (hgrant | hholds)
      · cases hgrant
      · exact hheld hholds
  · have hgrant : ∀ o, SessionCommand.getData.grants o = false := fun o => by cases o <;> rfl
    rw [execute_getData]
    refine ⟨v, hlock, fun h => absurd h (by simp [hgrant]), ?_⟩
    rintro (h | hholds)
    · rw [hgrant] at h
      cases h
    · exact hheld hholds

/-- The outcomes of a round with one more command. -/
theorem granted_append {done : List Outcome} {command : SessionCommand}
    (h : roundCommands[done.length]? = some command) (o : Outcome) :
    granted (done ++ [o]) = (granted done || command.grants o) := by
  rcases done with _ | ⟨lock, _ | ⟨add, _ | ⟨data, rest⟩⟩⟩
  · cases h
    simp [granted, roundCommands]
  · cases h
    simp [granted, roundCommands]
  · cases h
    simp [granted, roundCommands, Bool.or_assoc]
  · simp [roundCommands] at h

/-- The third outcome of a round is that of the get. -/
theorem third_append {done : List Outcome} {command : SessionCommand}
    (h : roundCommands[done.length]? = some command) {o o' : Outcome}
    (hthird : (done ++ [o])[2]? = some o') : command = .getData ∧ o' = o := by
  rcases done with _ | ⟨lock, _ | ⟨add, _ | ⟨data, rest⟩⟩⟩
  · simp at hthird
  · simp at hthird
  · cases h
    cases hthird
    exact ⟨rfl, rfl⟩
  · simp [roundCommands] at h

/-- The condition on an action: the counter of the lock is not raised from its largest value, the
    data is shorter than 2 GiB, and the servers of `PS_WRITE` do not come back to the first one. -/
def SessionSetup.Safe (S : SessionSetup δ ω) (s : SessionState) : SessionAction → Prop
  | .executeRead c =>
    match s.phase c with
    | .reading _ mmc _ [] _ => mmc = S.first →
      (s.servers S.first).counterAt (lockKey S.key) ≠ some (some (UInt64.ofNat (2 ^ 64 - 1)))
    | _ => True
  | .startWrite _ value fuel => value.length < 2 ^ 31 ∧
    ∀ visited ∈ S.pool.visit S.key fuel, visited.count S.first ≤ 1
  | _ => True

instance (S : SessionSetup δ ω) (s : SessionState) (a : SessionAction) : Decidable (S.Safe s a) := by
  unfold SessionSetup.Safe
  split
  · split <;> infer_instance
  · infer_instance
  · infer_instance

/-- What a client knows after another command of its round. -/
theorem clientInv_executeRead {s : SessionState} (h : Exclusive S s) {c : Nat} {r : ReadState}
    {m : Mmc} {i : UInt32} {done : List Outcome} {acquired : Bool}
    (hphase : s.phase c = .reading r m i done acquired) {command : SessionCommand}
    (hcommand : roundCommands[done.length]? = some command) {o : Outcome} {server : Memcached}
    (hexec : (s.servers m).execute (S.serverCommand command) = (o, server)) {holds : Bool}
    (hholds : s.holder c = true ∨ m = S.first ∧ command.grants o = true → holds = true) :
    ClientInv S holds s.stored (.reading r m i (done ++ [o]) acquired) := by
  have hclient := h.client c
  rw [hphase] at hclient
  obtain ⟨hacquired, hfirst⟩ := hclient
  have hdata : command = .getData → S.dataOf o = (S.dataAt (s.servers m)).join := by
    rintro rfl
    rw [← dataOf_getData, hexec]
  refine ⟨?_, ?_⟩
  · intro ha
    obtain ⟨hholder, hstored, -⟩ := hacquired ha
    refine ⟨hholds (Or.inl hholder), hstored, ?_⟩
    intro o' ho'
    obtain ⟨hget, rfl⟩ := third_append hcommand ho'
    -- Nobody else is about to store data on the first server, so there is none anywhere.
    have hempty : S.dataAt (s.servers m) = none := by
      by_contra hsome
      rcases h.elsewhere m hsome with hne | ⟨d, value, pending, hd, hmem, -⟩
      · exact hne hstored
      · have hdc := h.unique d c (h.holder_of_pending hd hmem) hholder
        rw [hdc, hphase] at hd
        cases hd
    rw [hdata hget, hempty]
    rfl
  · intro ha
    obtain ⟨hskip, hindex, hm, hgranted⟩ := hfirst ha
    refine ⟨hskip, hindex, hm, ?_⟩
    intro hgrant
    have hfound : ∀ o', (done ++ [o])[2]? = some o' → S.dataOf o' = s.stored := by
      intro o' ho'
      obtain ⟨hget, rfl⟩ := third_append hcommand ho'
      rw [hdata hget, hm, h.data]
      cases s.stored <;> rfl
    rw [granted_append hcommand, Bool.or_eq_true] at hgrant
    rcases hgrant with hgrant | hgrant
    · exact ⟨hholds (Or.inl (hgranted hgrant).1), hfound⟩
    · exact ⟨hholds (Or.inr ⟨hm, hgrant⟩), hfound⟩

theorem Exclusive.executeRead {s s' : SessionState} (h : Exclusive S s) {c : Nat}
    (hsafe : S.Safe s (.executeRead c)) (hstep : S.perform s (.executeRead c) = some s') :
    Exclusive S s' := by
  unfold SessionSetup.perform at hstep
  dsimp only at hstep
  split at hstep
  · next r m i done acquired hphase =>
    obtain ⟨command, hcommand, hs'⟩ := Option.map_eq_some_iff.mp hstep
    cases hexec : (s.servers m).execute (S.serverCommand command) with
    | mk o server =>
      rw [hexec] at hs'
      subst hs'
      have hmem : command ∈ roundCommands := List.mem_of_getElem? hcommand
      -- The lock on the first server after the command.
      have hlock : ∃ v' : Option UInt64,
          (Function.update s.servers m server S.first).counterAt (lockKey S.key) = v'.map some ∧
          (m = S.first ∧ command.grants o = true → ¬ ∃ d, s.holder d = true) ∧
          ((m = S.first ∧ command.grants o = true) ∨ (∃ d, s.holder d = true) →
            ∃ n, v' = some n ∧ n ≠ 0) := by
        obtain ⟨v, hv, hheld⟩ := h.lock
        by_cases hm : m = S.first
        · subst hm
          have hwrap : command = .incrLock → v ≠ some (UInt64.ofNat (2 ^ 64 - 1)) := by
            rintro rfl rfl
            have hnil : done = [] := by
              rcases done with _ | ⟨lock, _ | ⟨add, _ | ⟨data, rest⟩⟩⟩
              · rfl
              · cases hcommand
              · cases hcommand
              · simp [roundCommands] at hcommand
            subst hnil
            unfold SessionSetup.Safe at hsafe
            dsimp only at hsafe
            rw [hphase] at hsafe
            exact hsafe rfl hv
          obtain ⟨v', hv', hgrant, hpos⟩ := lock_step hmem hv hheld hwrap
          rw [hexec] at hv' hgrant hpos
          rw [Function.update_self]
          exact ⟨v', hv', fun hg => hgrant hg.2, fun hg => hpos (hg.imp And.right id)⟩
        · rw [Function.update_of_ne (Ne.symm hm)]
          exact ⟨v, hv, fun hg => absurd hg.1 hm,
            fun hg => hheld (hg.resolve_left fun hg => hm hg.1)⟩
      have hholder : ∀ d, (if m = S.first ∧ command.grants o = true
          then Function.update s.holder c true else s.holder) d = true ↔
          s.holder d = true ∨ (m = S.first ∧ command.grants o = true) ∧ d = c := by
        intro d
        split
        · next hg =>
          by_cases hd : d = c
          · simp [hd, hg]
          · simp [hd]
        · next hg => simp [hg]
      have hdata : ∀ m', S.dataAt (Function.update s.servers m server m')
          = S.dataAt (s.servers m') := by
        intro m'
        by_cases hm : m' = m
        · subst hm
          have hafter : ((s.servers m').execute (S.serverCommand command)).2 = server :=
            congrArg Prod.snd hexec
          rw [Function.update_self, ← hafter]
          exact dataAt_execute hmem _
        · rw [Function.update_of_ne hm]
      obtain ⟨v', hv', hfree, hpos⟩ := hlock
      refine ⟨?_, ⟨v', hv', ?_⟩, (hdata S.first).trans h.data, ?_, ?_⟩
      · intro d e hd he
        rcases (hholder d).mp hd with hold | ⟨hg, hdc⟩
        · rcases (hholder e).mp he with hold' | ⟨hg, -⟩
          · exact h.unique d e hold hold'
          · exact absurd ⟨d, hold⟩ (hfree hg)
        · rcases (hholder e).mp he with hold | ⟨-, hec⟩
          · exact absurd ⟨e, hold⟩ (hfree hg)
          · exact hdc.trans hec.symm
      · rintro ⟨d, hd⟩
        rcases (hholder d).mp hd with hd | ⟨hg, -⟩
        · exact hpos (Or.inr ⟨d, hd⟩)
        · exact hpos (Or.inl hg)
      · intro m' hm'
        rcases h.elsewhere m' (fun hnone => hm' ((hdata m').trans hnone)) with
          hstored | ⟨d, value, pending, hd, hpending, hsmall⟩
        · exact Or.inl hstored
        · have hne : d ≠ c := by
            rintro rfl
            rw [hphase] at hd
            cases hd
          exact Or.inr ⟨d, value, pending, (Function.update_of_ne hne _ _).trans hd, hpending, hsmall⟩
      · intro d
        dsimp only
        by_cases hd : d = c
        · subst hd
          rw [Function.update_self]
          exact clientInv_executeRead h hphase hcommand hexec fun hg =>
            (hholder d).mpr (hg.imp_right fun hg => ⟨hg, rfl⟩)
        · rw [Function.update_of_ne hd]
          exact (h.client d).mono (fun hold => ⟨(hholder d).mpr (Or.inl hold), rfl⟩) id
  · cases hstep

/-! ### Writing -/

theorem first_mem_visit {fuel : Nat} {visited : List Mmc}
    (h : S.pool.visit S.key fuel = some visited) : S.first ∈ visited := by
  cases fuel with
  | zero => cases h
  | succ fuel =>
    rw [SessionPool.visit, SessionPool.visitFrom, findNext_first] at h
    dsimp only at h
    split at h
    · obtain ⟨rest, -, rfl⟩ := Option.map_eq_some_iff.mp h
      exact List.mem_cons_self
    · cases h
      exact List.mem_cons_self

theorem forFirst_writeRequests (S : SessionSetup δ ω) (value : Bytes) (visited : List Mmc) :
    S.forFirst (writeRequests value visited)
      = (List.replicate (visited.count S.first)
          [(S.first, .setData value), (S.first, .resetLock)]).flatten := by
  induction visited with
  | nil => rfl
  | cons m visited ih =>
    have hcons : writeRequests value (m :: visited)
        = [(m, .setData value), (m, .resetLock)] ++ writeRequests value visited := rfl
    rw [hcons, SessionSetup.forFirst, List.filter_append]
    by_cases hm : m = S.first
    · subst hm
      rw [List.count_cons_self, List.replicate_succ, List.flatten_cons, ← ih]
      simp [SessionSetup.forFirst]
    · rw [List.count_cons_of_ne hm, ← ih]
      simp [SessionSetup.forFirst, hm]

theorem Exclusive.startWrite {s s' : SessionState} (h : Exclusive S s) {c : Nat} {value : Bytes}
    {fuel : Nat} (hsafe : S.Safe s (.startWrite c value fuel))
    (hstep : S.perform s (.startWrite c value fuel) = some s') : Exclusive S s' := by
  unfold SessionSetup.perform at hstep
  dsimp only at hstep
  split at hstep
  · next read hphase =>
    obtain ⟨visited, hvisit, rfl⟩ := Option.map_eq_some_iff.mp hstep
    have hclient := h.client c
    rw [hphase] at hclient
    obtain ⟨hlen, honce⟩ := hsafe
    have hfirst := first_mem_visit hvisit
    have hcount : visited.count S.first = 1 :=
      Nat.le_antisymm (honce visited hvisit) (List.count_pos_iff.mpr hfirst)
    have hforFirst : S.forFirst (writeRequests value visited)
        = [(S.first, .setData value), (S.first, .resetLock)] := by
      rw [forFirst_writeRequests, hcount, List.replicate_one, List.flatten_singleton]
    refine h.setPhase ?_ ⟨hlen, ?_, fun _ => hclient.1, ?_, fun _ => Or.inl ?_⟩
    · intro value' pending hwriting
      rw [hphase] at hwriting
      cases hwriting
    · rw [hforFirst]
    · intro p hp
      obtain ⟨m, -, hp⟩ := List.mem_flatMap.mp hp
      simp only [List.mem_cons, List.not_mem_nil, or_false] at hp
      rcases hp with rfl | rfl
      · exact Or.inl rfl
      · exact Or.inr rfl
    · exact List.mem_flatMap.mpr ⟨S.first, hfirst, List.mem_cons_self⟩
  · cases hstep

theorem eq_take_append {α : Type} {l : List α} {k : Nat} {a : α} (h : l[k]? = some a) :
    l = l.take k ++ a :: l.drop (k + 1) := by
  obtain ⟨hlt, rfl⟩ := List.getElem?_eq_some_iff.mp h
  rw [← List.drop_eq_getElem_cons hlt, List.take_append_drop]

/-- Executing a command elsewhere leaves those for the first server. -/
theorem forFirst_eraseIdx_ne {pending : List (Mmc × SessionCommand)} {k : Nat} {m : Mmc}
    {command : SessionCommand} (h : pending[k]? = some (m, command)) (hm : m ≠ S.first) :
    S.forFirst (pending.eraseIdx k) = S.forFirst pending := by
  rw [List.eraseIdx_eq_take_drop_succ]
  conv_rhs => rw [eq_take_append h]
  simp [SessionSetup.forFirst, hm]

/-- The command executed on the first server is the first of those for it. -/
theorem forFirst_eraseIdx_first {pending : List (Mmc × SessionCommand)} {k : Nat}
    {command : SessionCommand} (h : pending[k]? = some (S.first, command))
    (hk : ∀ p ∈ pending.take k, p.1 ≠ S.first) :
    S.forFirst pending = (S.first, command) :: S.forFirst (pending.eraseIdx k) := by
  have hnone : (pending.take k).filter (fun p => p.1 = S.first) = [] := by
    rw [List.filter_eq_nil_iff]
    intro p hp
    simpa using hk p hp
  rw [List.eraseIdx_eq_take_drop_succ]
  conv_lhs => rw [eq_take_append h]
  simp [SessionSetup.forFirst, hnone]

/-- What is left to store on the first server after a command elsewhere. -/
theorem mem_eraseIdx_first {pending : List (Mmc × SessionCommand)} {k : Nat} {m : Mmc}
    {command : SessionCommand} (h : pending[k]? = some (m, command)) (hm : m ≠ S.first)
    {value : Bytes} (hmem : (S.first, .setData value) ∈ pending) :
    (S.first, .setData value) ∈ pending.eraseIdx k := by
  have hfirst := S.mem_forFirst hmem rfl
  rw [← forFirst_eraseIdx_ne h hm] at hfirst
  exact (List.mem_filter.mp hfirst).1

/-- A command of `PS_WRITE` on another server. -/
theorem Exclusive.writeElsewhere {s : SessionState} (h : Exclusive S s) (hC : S.codec.Lawful)
    {c : Nat} {value : Bytes} {pending : List (Mmc × SessionCommand)}
    (hphase : s.phase c = .writing value pending) {k : Nat} {m : Mmc} {command : SessionCommand}
    (hk : pending[k]? = some (m, command)) (hm : m ≠ S.first) {o : Outcome} {server : Memcached}
    (hexec : (s.servers m).execute (S.serverCommand command) = (o, server)) :
    Exclusive S { s with
      servers := Function.update s.servers m server
      phase := Function.update s.phase c (.writing value (pending.eraseIdx k)) } := by
  have hclient := h.client c
  rw [hphase] at hclient
  obtain ⟨hlen, hsuffix, hholder, hall, hlarge⟩ := hclient
  have hsame := forFirst_eraseIdx_ne hk hm
  have hserver : Function.update s.servers m server S.first = s.servers S.first :=
    Function.update_of_ne (Ne.symm hm) _ _
  -- What explained data elsewhere before still explains it.
  have hkeep : (s.stored ≠ none ∨ ∃ d value' pending', s.phase d = .writing value' pending' ∧
      (S.first, .setData value') ∈ pending' ∧
      (S.pack (.string value')).1.length ≤ itemLimit) →
      s.stored ≠ none ∨ ∃ d value' pending',
        Function.update s.phase c (.writing value (pending.eraseIdx k)) d
            = .writing value' pending' ∧
          (S.first, .setData value') ∈ pending' ∧
          (S.pack (.string value')).1.length ≤ itemLimit := by
    rintro (hstored | ⟨d, value', pending', hd, hmem, hsmall⟩)
    · exact Or.inl hstored
    · right
      by_cases hdc : d = c
      · subst hdc
        rw [hphase] at hd
        cases hd
        exact ⟨d, value, _, Function.update_self _ _ _, mem_eraseIdx_first hk hm hmem, hsmall⟩
      · exact ⟨d, value', pending', (Function.update_of_ne hdc _ _).trans hd, hmem, hsmall⟩
  refine ⟨h.unique, ?_, ?_, ?_, ?_⟩
  · dsimp only
    rw [hserver]
    exact h.lock
  · dsimp only
    rw [hserver]
    exact h.data
  · intro m' hm'
    dsimp only at hm' ⊢
    by_cases hmm : m' = m
    · subst hmm
      rw [Function.update_self] at hm'
      have hafter : ((s.servers m').execute (S.serverCommand command)).2 = server :=
        congrArg Prod.snd hexec
      rcases hall _ (List.mem_of_getElem? hk) with hcommand | hcommand
      · have hcommand : command = .setData value := hcommand
        subst hcommand
        rcases execute_setData hC (s.servers m') hlen with ⟨hsmall, -, -⟩ | ⟨-, hsame⟩
        · apply hkeep
          rcases hlarge hsmall with hmem | hstored
          · exact Or.inr ⟨c, value, pending, hphase, hmem, hsmall⟩
          · exact Or.inl hstored
        · rw [hsame] at hafter
          rw [← hafter] at hm'
          exact hkeep (h.elsewhere m' hm')
      · have hcommand : command = .resetLock := hcommand
        subst hcommand
        have hdata : S.dataAt server = S.dataAt (s.servers m') := by
          rw [← hafter, SessionSetup.dataAt,
            execute_items_ne S _ .resetLock (lockKey_ne S.key).symm]
          rfl
        rw [hdata] at hm'
        exact hkeep (h.elsewhere m' hm')
    · rw [Function.update_of_ne hmm] at hm'
      exact hkeep (h.elsewhere m' hm')
  · intro d
    dsimp only
    by_cases hd : d = c
    · subst hd
      rw [Function.update_self]
      refine ⟨hlen, hsame ▸ hsuffix, hsame ▸ hholder, ?_, ?_⟩
      · intro p hp
        exact hall p (List.mem_of_mem_eraseIdx hp)
      · intro hsmall
        exact (hlarge hsmall).imp_left (mem_eraseIdx_first hk hm)
    · rw [Function.update_of_ne hd]
      exact h.client d

/-- The data command of `PS_WRITE` on the first server. -/
theorem Exclusive.writeData {s : SessionState} (h : Exclusive S s) (hC : S.codec.Lawful)
    {c : Nat} {value : Bytes} {pending : List (Mmc × SessionCommand)}
    (hphase : s.phase c = .writing value pending) {k : Nat}
    (hk : pending[k]? = some (S.first, .setData value))
    (hrest : S.forFirst (pending.eraseIdx k) = [(S.first, .resetLock)]) {o : Outcome}
    {server : Memcached}
    (hexec : (s.servers S.first).execute (S.serverCommand (.setData value)) = (o, server))
    {stored : Option Bytes}
    (hstored : stored = (SessionCommand.setData value).storedBy o s.stored) :
    Exclusive S { s with
      servers := Function.update s.servers S.first server
      phase := Function.update s.phase c (.writing value (pending.eraseIdx k))
      stored := stored } := by
  have hholds := h.holder_of_pending hphase (List.mem_of_getElem? hk)
  have hclient := h.client c
  rw [hphase] at hclient
  obtain ⟨hlen, -, -, hall, -⟩ := hclient
  have hafter : ((s.servers S.first).execute (S.serverCommand (.setData value))).2 = server :=
    congrArg Prod.snd hexec
  have hout : ((s.servers S.first).execute (S.serverCommand (.setData value))).1 = o :=
    congrArg Prod.fst hexec
  have hlock : server.counterAt (lockKey S.key) = (s.servers S.first).counterAt (lockKey S.key) := by
    rw [← hafter, Memcached.counterAt, execute_items_ne S _ (.setData value) (lockKey_ne S.key)]
    rfl
  have hkept : s.stored ≠ none → stored ≠ none := by
    intro hne
    rw [hstored]
    cases o with
    | stored => exact Option.some_ne_none _
    | _ => exact hne
  -- The client that executes the command is the one with the lock.
  have hother : ∀ d, d ≠ c → ClientInv S (s.holder d) stored (s.phase d) := by
    intro d hd
    refine (h.client d).mono (fun hold => ?_) hkept
    exact absurd (h.unique d c hold hholds) hd
  have hwriter : ((S.pack (.string value)).1.length ≤ itemLimit → stored ≠ none) →
      ClientInv S (s.holder c) stored (.writing value (pending.eraseIdx k)) := by
    intro hlarge
    refine ⟨hlen, ?_, fun _ => hholds, fun p hp => hall p (List.mem_of_mem_eraseIdx hp),
      fun hsmall => Or.inr (hlarge hsmall)⟩
    rw [hrest]
    exact List.suffix_cons _ _
  have hclients : ((S.pack (.string value)).1.length ≤ itemLimit → stored ≠ none) → ∀ d,
      ClientInv S (s.holder d) stored
        (Function.update s.phase c (.writing value (pending.eraseIdx k)) d) := by
    intro hlarge d
    by_cases hd : d = c
    · subst hd
      rw [Function.update_self]
      exact hwriter hlarge
    · rw [Function.update_of_ne hd]
      exact hother d hd
  obtain ⟨v, hv, hpos⟩ := h.lock
  rcases execute_setData hC (s.servers S.first) hlen with ⟨-, hok, hdata⟩ | ⟨hlarge, hsame⟩
  · rw [hout] at hok
    rw [hok, SessionCommand.storedBy] at hstored
    subst hstored
    rw [hafter] at hdata
    refine ⟨h.unique, ⟨v, ?_, hpos⟩, ?_, fun _ _ => Or.inl (Option.some_ne_none _),
      hclients fun _ => Option.some_ne_none _⟩
    · dsimp only
      rw [Function.update_self, hlock, hv]
    · dsimp only
      rw [Function.update_self, hdata]
      rfl
  · rw [hsame] at hexec
    cases hexec
    subst hstored
    have hservers : Function.update s.servers S.first (s.servers S.first) = s.servers :=
      Function.update_eq_self _ _
    refine ⟨h.unique, ⟨v, ?_, hpos⟩, ?_, ?_, hclients fun hsmall => absurd hsmall hlarge⟩
    · dsimp only
      rw [hservers, hv]
    · dsimp only
      rw [hservers, h.data]
      rfl
    · intro m hm
      dsimp only at hm ⊢
      rw [hservers] at hm
      rcases h.elsewhere m hm with hne | ⟨d, value', pending', hd, hmem, hsmall⟩
      · exact Or.inl hne
      · have hdc : d ≠ c := by
          rintro rfl
          rw [hphase] at hd
          cases hd
          exact hlarge hsmall
        exact Or.inr ⟨d, value', pending', (Function.update_of_ne hdc _ _).trans hd, hmem, hsmall⟩

/-- The lock command of `PS_WRITE` on the first server: nobody holds the lock afterwards. -/
theorem Exclusive.writeReset {s : SessionState} (h : Exclusive S s) {c : Nat} {value : Bytes}
    {pending : List (Mmc × SessionCommand)} (hphase : s.phase c = .writing value pending) {k : Nat}
    (hk : pending[k]? = some (S.first, .resetLock))
    (hnow : S.forFirst pending = [(S.first, .resetLock)])
    (hrest : S.forFirst (pending.eraseIdx k) = []) {o : Outcome} {server : Memcached}
    (hexec : (s.servers S.first).execute (S.serverCommand .resetLock) = (o, server)) :
    Exclusive S { s with
      servers := Function.update s.servers S.first server
      phase := Function.update s.phase c (.writing value (pending.eraseIdx k))
      holder := Function.update s.holder c false } := by
  have hholds := h.holder_of_pending hphase (List.mem_of_getElem? hk)
  have hclient := h.client c
  rw [hphase] at hclient
  obtain ⟨hlen, -, -, hall, hlarge⟩ := hclient
  have hafter : ((s.servers S.first).execute (S.serverCommand .resetLock)).2 = server :=
    congrArg Prod.snd hexec
  have hzero : server.counterAt (lockKey S.key) = some (some 0) :=
    hafter ▸ (execute_resetLock S (s.servers S.first)).2
  have hdata : S.dataAt server = S.dataAt (s.servers S.first) := by
    rw [← hafter, SessionSetup.dataAt, execute_items_ne S _ .resetLock (lockKey_ne S.key).symm]
    rfl
  have hfree : ∀ d, Function.update s.holder c false d = false := by
    intro d
    by_cases hd : d = c
    · rw [hd, Function.update_self]
    · rw [Function.update_of_ne hd, ← Bool.not_eq_true]
      exact fun hold => hd (h.unique d c hold hholds)
  have hnoData : (S.first, .setData value) ∉ pending := by
    intro hmem
    have hfirst := S.mem_forFirst hmem rfl
    rw [hnow, List.mem_singleton] at hfirst
    cases hfirst
  refine ⟨?_, ⟨some 0, ?_, ?_⟩, ?_, ?_, ?_⟩
  · intro d e hd
    dsimp only at hd
    rw [hfree] at hd
    cases hd
  · dsimp only
    rw [Function.update_self, hzero]
    rfl
  · rintro ⟨d, hd⟩
    dsimp only at hd
    rw [hfree] at hd
    cases hd
  · dsimp only
    rw [Function.update_self, hdata, h.data]
  · intro m hm
    dsimp only at hm ⊢
    have hm' : S.dataAt (s.servers m) ≠ none := by
      by_cases hmf : m = S.first
      · subst hmf
        rwa [Function.update_self, hdata] at hm
      · rwa [Function.update_of_ne hmf] at hm
    rcases h.elsewhere m hm' with hne | ⟨d, value', pending', hd, hmem, hsmall⟩
    · exact Or.inl hne
    · have hdc : d ≠ c := by
        rintro rfl
        rw [hphase] at hd
        cases hd
        exact hnoData hmem
      exact Or.inr ⟨d, value', pending', (Function.update_of_ne hdc _ _).trans hd, hmem, hsmall⟩
  · intro d
    dsimp only
    rw [hfree]
    by_cases hd : d = c
    · subst hd
      rw [Function.update_self]
      refine ⟨hlen, ?_, fun hne => absurd hrest hne,
        fun p hp => hall p (List.mem_of_mem_eraseIdx hp), ?_⟩
      · rw [hrest]
        exact List.nil_suffix
      · intro hsmall
        exact Or.inr ((hlarge hsmall).resolve_left hnoData)
    · rw [Function.update_of_ne hd]
      refine (h.client d).mono (fun hold => ?_) id
      exact absurd (h.unique d c hold hholds) hd

theorem Exclusive.executeWrite {s s' : SessionState} (h : Exclusive S s) (hC : S.codec.Lawful)
    {c k : Nat} (hstep : S.perform s (.executeWrite c k) = some s') : Exclusive S s' := by
  unfold SessionSetup.perform at hstep
  dsimp only at hstep
  split at hstep
  · next value pending hphase =>
    split at hstep
    · next m command hk =>
      split at hstep
      · next hfifo =>
        cases hexec : (s.servers m).execute (S.serverCommand command) with
        | mk o server =>
          rw [hexec] at hstep
          cases hstep
          by_cases hm : m = S.first
          · subst hm
            have hclient := h.client c
            rw [hphase] at hclient
            obtain ⟨-, hsuffix, -, -, -⟩ := hclient
            have hnow := forFirst_eraseIdx_first hk hfifo
            -- What is left for the first server is both commands, or the reset alone.
            rw [hnow, List.suffix_cons_iff] at hsuffix
            rcases hsuffix with hboth | hone
            · obtain ⟨hcommand, hrest⟩ := List.cons.inj hboth
              cases hcommand
              rw [if_neg (by simp), if_pos rfl]
              exact h.writeData hC hphase hk hrest hexec rfl
            · rw [List.suffix_cons_iff, List.suffix_nil] at hone
              rcases hone with hreset | hnil
              · obtain ⟨hcommand, hrest⟩ := List.cons.inj hreset
                cases hcommand
                rw [if_pos ⟨rfl, rfl⟩, if_pos rfl]
                exact h.writeReset hphase hk (by rw [hnow, hrest]) hrest hexec
              · cases hnil
          · rw [if_neg (fun hg => hm hg.1), if_neg hm]
            exact h.writeElsewhere hC hphase hk hm hexec
      · cases hstep
    · cases hstep
  · cases hstep

/-! ## Runs -/

/-- Every action that meets the condition keeps the invariant. -/
theorem Exclusive.perform {s s' : SessionState} (h : Exclusive S s) (hC : S.codec.Lawful)
    {a : SessionAction} (hsafe : S.Safe s a) (hstep : S.perform s a = some s') :
    Exclusive S s' := by
  cases a with
  | startRead c => exact h.startRead hstep
  | executeRead c => exact h.executeRead hsafe hstep
  | finishRound c => exact h.finishRound hstep
  | startWrite c value fuel => exact h.startWrite hsafe hstep
  | executeWrite c k => exact h.executeWrite hC hstep

theorem exclusive_run (hC : S.codec.Lawful) {s : SessionState} (h : S.Run S.Safe s) :
    Exclusive S s := by
  induction h with
  | start => exact exclusive_start S
  | step _ hsafe hstep ih => exact ih.perform hC hsafe hstep

/-- No two clients hold the lock on the first server, and a read that has returned with the lock has
    returned what was stored there last. -/
def NoLostUpdate (s : SessionState) : Prop :=
  (∀ c d, s.holder c = true → s.holder d = true → c = d) ∧
    ∀ c value, s.phase c = .holding value → s.holder c = true ∧ value = s.stored.getD []

/-- **No session update is lost** in a run whose actions all meet the condition. -/
theorem noLostUpdate_of_safe (hC : S.codec.Lawful) {s : SessionState} (h : S.Run S.Safe s) :
    NoLostUpdate s := by
  have hinv := exclusive_run hC h
  refine ⟨hinv.unique, ?_⟩
  intro c value hphase
  have hclient := hinv.client c
  rw [hphase] at hclient
  exact hclient

/-! ### Two runs -/

/-- A round of `PS_READ` of a client. -/
def readRoundOf (c : Nat) : List SessionAction :=
  [.executeRead c, .executeRead c, .executeRead c, .finishRound c]

/-- A session on a pool of one server. -/
def lonelySession : SessionSetup Unit Unit where
  pool := SessionPool.lonely
  protocol := .ascii
  codec := sampleCodec
  compression := { threshold := 0, resultLen := id }
  lifetime := 1440
  key := [115]
  room := by decide

/-- A client reads and writes, and another one reads. -/
def handOver : List SessionAction :=
  [.startRead 0] ++ readRoundOf 0 ++ [.startWrite 0 [65] 2, .executeWrite 0 0, .executeWrite 0 0,
    .startRead 1] ++ readRoundOf 1

/-- The second client gets what the first one has written. -/
theorem handOver_noLostUpdate :
    ∃ s, NoLostUpdate s ∧ s.holder 1 = true ∧ s.stored = some [65] := by
  have hreplay : ((lonelySession.replay lonelySession.Safe handOver .start).map fun s =>
      s.holder 1 && decide (s.stored = some [65])) = some true := by decide +kernel
  obtain ⟨s, hs, hlast⟩ := Option.map_eq_some_iff.mp hreplay
  rw [Bool.and_eq_true, decide_eq_true_iff] at hlast
  exact ⟨s, noLostUpdate_of_safe sampleCodec_lawful (SessionSetup.Run.start.replay hs), hlast⟩

/-- Two servers, the first of which is found for the first two probes. -/
def doubledFirst : SessionPool where
  findServer k := if k = probeKey [115] 0 ∨ k = probeKey [115] 1 then 0 else 1
  servers := [0, 1]
  redundancy := 2
  maxFailoverAttempts := 1
  lockTimeout := 1
  keyPrefix := []
  findServer_mem k := by split <;> decide
  redundancy_pos := Nat.zero_lt_two
  maxFailoverAttempts_pos := by decide
  lockTimeout_pos := by decide

def doubledSession : SessionSetup Unit Unit := { lonelySession with pool := doubledFirst }

/-- The second reset of client 0 takes the lock from client 1, and client 2 gets it. -/
def stolenLock : List SessionAction :=
  [.startRead 0] ++ (List.replicate 10 (readRoundOf 0)).flatten ++
    [.startWrite 0 [65] 4, .executeWrite 0 0, .executeWrite 0 0, .startRead 1] ++ readRoundOf 1 ++
    [.executeWrite 0 0, .executeWrite 0 0, .startRead 2, .executeRead 2]

theorem stolenLock_not_noLostUpdate :
    ¬ ∀ s, doubledSession.Run (fun _ _ => True) s → NoLostUpdate s := by
  have hreplay : ((doubledSession.replay (fun _ _ => True) stolenLock .start).map fun s =>
      s.holder 1 && s.holder 2) = some true := by decide +kernel
  obtain ⟨s, hs, hboth⟩ := Option.map_eq_some_iff.mp hreplay
  rw [Bool.and_eq_true] at hboth
  intro h
  have hsame := (h s (SessionSetup.Run.start.replay hs)).1 1 2 hboth.1 hboth.2
  cases hsame

end PeclMemcache
