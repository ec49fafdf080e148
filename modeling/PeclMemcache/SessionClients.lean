import PeclMemcache.Parity
import PeclMemcache.Session
import PeclMemcache.Values

set_option autoImplicit false

/-! # Clients that share a session

Any number of clients with the same pool, settings and session key: each repeats `PS_READ` until it
holds the lock of the session, and then performs one `PS_WRITE`. The servers execute the commands one
after the other, in an order in which the commands of a request pipeline keep theirs. -/

namespace PeclMemcache

variable {δ ω : Type}

/-! ## The commands of the handlers -/

/-- The key with `".lock"` appended. -/
def lockKey (key : Bytes) : Bytes := key ++ bytes ['.', 'l', 'o', 'c', 'k']

/-- What the clients have in common. The key buffer of a request has room for the key of the
    lock. -/
structure SessionSetup (δ ω : Type) where
  pool : SessionPool
  protocol : WireProtocol
  codec : Codec δ ω
  compression : CompressSettings
  lifetime : Nat
  key : Bytes
  room : (lockKey key).length ≤ MMC_MAX_KEY_LEN

/-- `php_mmc_session_read_request` builds the first three, `PS_WRITE` the others. -/
inductive SessionCommand
  | incrLock
  | addLock
  | getData
  | setData (value : Bytes)
  | resetLock
  deriving DecidableEq, Repr

namespace SessionSetup

variable (S : SessionSetup δ ω)

/-- The packed value and its flags; packing a string or a number does not fail. -/
def pack (value : Zval δ ω) : Bytes × UInt32 :=
  match mmcPackValue S.codec S.compression {} value 0 with
  | some (buffer, flags) => (buffer.value, flags)
  | none => ([], 0)

/-- The key of a command. -/
def keyOf : SessionCommand → Bytes
  | .incrLock => lockKey S.key
  | .addLock => lockKey S.key
  | .getData => S.key
  | .setData _ => S.key
  | .resetLock => lockKey S.key

/-- A command as an operation on one key. -/
def operation : SessionCommand → ApiOperation
  | .incrLock => .mutate 1
  | .addLock => .store .add S.pool.lockTimeout (S.pack (.long 1)).2 (S.pack (.long 1)).1
  | .getData => .get false
  | .setData value =>
    .store .set S.lifetime (S.pack (.string value)).2 (S.pack (.string value)).1
  | .resetLock => .store .set S.pool.lockTimeout (S.pack (.long 0)).2 (S.pack (.long 0)).1

/-- The command that is built: under the binary protocol the increment has a default. -/
def command (zkey : ZKey) (c : SessionCommand) : Command :=
  match S.protocol, c with
  | .binary, .incrLock => .binaryMutate zkey (lockKey S.key) 1 1 true S.pool.lockTimeout
  | p, c => (S.operation c).command p zkey (S.keyOf c)

/-- The value the server creates the lock with when it is incremented. The lock timeout is sent in
    the place of the expiration, where all ones forbid to create a counter. -/
def initialLock : Option UInt64 :=
  match S.protocol with
  | .ascii => none
  | .binary => if S.pool.lockTimeout % 2 ^ 32 = 2 ^ 32 - 1 then none else some 1

/-- The command it is to the server. -/
def serverCommand : SessionCommand → ServerCommand
  | .incrLock => .incr (lockKey S.key) 1 S.initialLock
  | c => (S.operation c).serverCommand S.protocol (S.keyOf c)

/-! ## What the handlers make of the replies -/

/-- The handler call for the reply to the increment. -/
def lockCall : Outcome → HandlerCall
  | .number n => .long (lockKey S.key) (zendLong n.toNat) 0 0
  | .notFound => .response MMC_RESPONSE_NOT_FOUND [] 0
  | _ => .response MMC_RESPONSE_CLIENT_ERROR [] 0

/-- The handler call for the reply to the add. -/
def addCall : Outcome → HandlerCall
  | .stored => .response MMC_OK [] 0
  | .notStored => .response MMC_RESPONSE_EXISTS [] 0
  | _ => .response MMC_RESPONSE_TOO_LARGE [] 0

/-- The data, if the reply to the get is a string. -/
def dataOf : Outcome → Option Bytes
  | .value item =>
    match mmcUnpackValue S.codec item.data item.flags with
    | some (.string value) => some value
    | _ => none
  | _ => none

/-- A round of `PS_READ` whose three commands have been executed. -/
def attempt (lock add data : Outcome) : Attempt :=
  .answered [S.lockCall lock] [addCall add] (S.dataOf data)

/-- The first server of the key. -/
def first : Mmc := S.pool.probe S.key 0

end SessionSetup

/-! ## Clients and servers -/

/-- Where a client is. In a round of `PS_READ`, `done` are the outcomes of its commands so far, and
    `acquired` says whether an earlier round has got the lock; `pending` are the commands of
    `PS_WRITE` that are still to be executed. -/
inductive SessionPhase
  | idle
  | reading (s : ReadState) (mmc : Mmc) (i : UInt32) (done : List Outcome) (acquired : Bool)
  | holding (value : Bytes)
  | writing (value : Bytes) (pending : List (Mmc × SessionCommand))

/-- The servers and the clients. `holder` says which clients have got the lock on the first server
    and not executed its reset there, and `stored` is the value last stored there. -/
structure SessionState where
  servers : Mmc → Memcached
  phase : Nat → SessionPhase
  holder : Nat → Bool
  stored : Option Bytes

inductive SessionAction
  | startRead (c : Nat)
  | executeRead (c : Nat)
  | finishRound (c : Nat)
  | startWrite (c : Nat) (value : Bytes) (fuel : Nat)
  | executeWrite (c : Nat) (k : Nat)

/-- The commands of a round of `PS_READ`. -/
def roundCommands : List SessionCommand := [.incrLock, .addLock, .getData]

/-- The outcome gives the lock to the client. -/
def SessionCommand.grants : SessionCommand → Outcome → Bool
  | .incrLock, .number n => decide (n = 1)
  | .addLock, .stored => true
  | _, _ => false

/-- The value stored last, after the command. -/
def SessionCommand.storedBy : SessionCommand → Outcome → Option Bytes → Option Bytes
  | .setData value, .stored, _ => some value
  | _, _, old => old

/-- The requests of `PS_WRITE`, in the order they are scheduled. -/
def writeRequests (value : Bytes) (visited : List Mmc) : List (Mmc × SessionCommand) :=
  visited.flatMap fun mmc => [(mmc, .setData value), (mmc, .resetLock)]

/-- Empty servers, and no client has started. -/
def SessionState.start : SessionState where
  servers _ := {}
  phase _ := .idle
  holder _ := false
  stored := none

namespace SessionSetup

variable (S : SessionSetup δ ω)

/-- Where a client is when `PS_READ` has returned: without the lock it starts again. -/
def returned (value : Bytes) (acquired : Bool) : SessionPhase :=
  if acquired then .holding value else .idle

/-- The next round of `PS_READ`. -/
def nextRound (s : ReadState) (acquired : Bool) : Option SessionPhase :=
  (S.pool.findNext S.key s.skip s.lastIndex).map fun r => .reading s r.1 r.2 [] acquired

/-- What follows on a round. -/
def afterRound (s : ReadState) (mmc : Mmc) (i : UInt32) (a : Attempt) (acquired : Bool) :
    Option SessionPhase :=
  match S.pool.readRound s mmc i a with
  | .inr value => some (returned value acquired)
  | .inl s => if S.pool.readsOn s then S.nextRound s acquired else some (returned [] acquired)

/-- An action, if it is possible. Commands on the same connection are executed in their order. -/
def perform (s : SessionState) : SessionAction → Option SessionState
  | .startRead c =>
    match s.phase c with
    | .idle => (S.nextRound S.pool.readStart false).map fun p =>
        { s with phase := Function.update s.phase c p }
    | _ => none
  | .executeRead c =>
    match s.phase c with
    | .reading r mmc i done acquired => roundCommands[done.length]?.map fun command =>
        let (o, server) := (s.servers mmc).execute (S.serverCommand command)
        { s with
          servers := Function.update s.servers mmc server
          phase := Function.update s.phase c (.reading r mmc i (done ++ [o]) acquired)
          holder := if mmc = S.first ∧ command.grants o then Function.update s.holder c true
            else s.holder }
    | _ => none
  | .finishRound c =>
    match s.phase c with
    | .reading r mmc i [lock, add, data] acquired =>
      let a := S.attempt lock add data
      (S.afterRound r mmc i a (acquired || a.locked)).map fun p =>
        { s with phase := Function.update s.phase c p }
    | _ => none
  | .startWrite c value fuel =>
    match s.phase c with
    | .holding _ => (S.pool.visit S.key fuel).map fun visited =>
        { s with phase := Function.update s.phase c (.writing value (writeRequests value visited)) }
    | _ => none
  | .executeWrite c k =>
    match s.phase c with
    | .writing value pending =>
      match pending[k]? with
      | some (mmc, command) =>
        if ∀ p ∈ pending.take k, p.1 ≠ mmc then
          let (o, server) := (s.servers mmc).execute (S.serverCommand command)
          some { s with
            servers := Function.update s.servers mmc server
            phase := Function.update s.phase c (.writing value (pending.eraseIdx k))
            holder := if mmc = S.first ∧ command = .resetLock then Function.update s.holder c false
              else s.holder
            stored := if mmc = S.first then command.storedBy o s.stored else s.stored }
        else none
      | none => none
    | _ => none

/-- The states of the runs whose actions are all allowed. -/
inductive Run (allowed : SessionState → SessionAction → Prop) : SessionState → Prop
  | start : Run allowed .start
  | step {s s' : SessionState} {a : SessionAction} (before : Run allowed s) (h : allowed s a)
      (action : S.perform s a = some s') : Run allowed s'

/-- Some actions in a row, if each is allowed and possible. -/
def replay (allowed : SessionState → SessionAction → Prop)
    [∀ s a, Decidable (allowed s a)] : List SessionAction → SessionState → Option SessionState
  | [], s => some s
  | a :: rest, s =>
    if allowed s a then
      match S.perform s a with
      | some s => replay allowed rest s
      | none => none
    else none

variable {S} in
theorem Run.replay {allowed : SessionState → SessionAction → Prop}
    [∀ s a, Decidable (allowed s a)] {actions : List SessionAction} {s s' : SessionState}
    (h : S.Run allowed s) (hreplay : S.replay allowed actions s = some s') : S.Run allowed s' := by
  induction actions generalizing s with
  | nil =>
    cases hreplay
    exact h
  | cons a rest ih =>
    rw [SessionSetup.replay] at hreplay
    split at hreplay
    · next hallowed =>
      split at hreplay
      · next s'' hstep => exact ih (h.step hallowed hstep) hreplay
      · cases hreplay
    · cases hreplay

/-! ## What the server reads -/

theorem pack_long (n : Int64) : S.pack (.long n) = (decimalInt n.toInt, MMC_TYPE_LONG) := by
  have hlow : ¬ ((0 : UInt32) &&& 0xffff &&& ~~~MMC_COMPRESSED ≠ 0) := by decide
  have hflags : ((0 : UInt32) &&& ~~~MMC_SERIALIZED ||| MMC_TYPE_LONG) &&& ~~~MMC_COMPRESSED
      = MMC_TYPE_LONG := by decide
  simp only [pack, mmcPackValue, if_neg hlow, hflags]
  rfl

theorem serverCommand_addLock :
    S.serverCommand .addLock = .store .add (lockKey S.key) MMC_TYPE_LONG (decimalInt 1) := by
  simp [serverCommand, operation, ApiOperation.serverCommand, StoreVerb.op, binaryStoreCommand,
    keyOf, pack_long]

theorem serverCommand_getData : S.serverCommand .getData = .get S.key := rfl

theorem serverCommand_setData (value : Bytes) :
    S.serverCommand (.setData value)
      = .store .set S.key (S.pack (.string value)).2 (S.pack (.string value)).1 := by
  simp [serverCommand, operation, ApiOperation.serverCommand, StoreVerb.op,
    binaryStoreCommand, keyOf]

theorem serverCommand_resetLock :
    S.serverCommand .resetLock = .store .set (lockKey S.key) MMC_TYPE_LONG (decimalInt 0) := by
  simp [serverCommand, operation, ApiOperation.serverCommand, StoreVerb.op, binaryStoreCommand,
    keyOf, pack_long]

/-- The extra bytes of the increment with a default. -/
def lockExtras : Bytes :=
  bigEndian 8 1 ++ bigEndian 8 1 ++ bigEndian 4 S.pool.lockTimeout

theorem sent_incrLock (q : MmcRequest) (zkey : ZKey) :
    (Command.binaryMutate zkey (lockKey S.key) 1 1 true S.pool.lockTimeout).sent q
      = mmcPackHeader MMC_OP_INCR 0 (lockKey S.key).length S.lockExtras.length 0 0
          ++ (S.lockExtras ++ lockKey S.key) := by
  simp [Command.sent, Command.build, mmcBinaryMutate, MmcRequest.appendSend, MmcRequest.parseBinary,
    mmcBinaryResetRequest, mmcRequestReset, MmcBuffer.reset, MmcRequest.pushKey, lockExtras]

theorem parseFrame_incrLock :
    (parseFrame (mmcPackHeader MMC_OP_INCR 0 (lockKey S.key).length S.lockExtras.length 0 0
        ++ (S.lockExtras ++ lockKey S.key))).bind (fun p => p.1.toServer)
      = some (.incr (lockKey S.key) 1
          (if S.pool.lockTimeout % 2 ^ 32 = 2 ^ 32 - 1 then none else some 1)) := by
  have hroom : (lockKey S.key).length ≤ 250 := S.room
  have hlength : S.lockExtras.length = 20 := by simp [lockExtras]
  have hdelta : ofBigEndian (S.lockExtras.take 8) = 1 := by
    rw [lockExtras, List.append_assoc, take_append_bigEndian_of_lt 8 (by decide)]
  have hdefault : ofBigEndian ((S.lockExtras.drop 8).take 8) = 1 := rfl
  have hexpiration : ofBigEndian ((S.lockExtras.drop 16).take 4) = S.pool.lockTimeout % 2 ^ 32 := by
    have hdrop : S.lockExtras.drop 16 = bigEndian 4 S.pool.lockTimeout := rfl
    have hpow : 256 ^ 4 = 2 ^ 32 := by decide
    rw [hdrop, List.take_of_length_le (by simp), ofBigEndian_bigEndian, hpow]
  rw [@parseFrame_noValue MMC_OP_INCR S.lockExtras (lockKey S.key) (by decide) (by omega) hroom]
  simp [BinaryFrame.toServer, BinaryFrame.initial, hdelta, hdefault, hexpiration, MMC_OP_GET,
    MMC_OP_SET, MMC_OP_DELETE, MMC_OP_INCR]

/-- **The server reads the command** a client has sent. -/
theorem serverReads_command {keyPrefix sid : Bytes} (hshort : keyPrefix.length ≤ 250)
    (hkey : mmcPrepareKeyEx sid keyPrefix = some S.key) (hne : S.key ≠ []) (q : MmcRequest)
    (zkey : ZKey) {c : SessionCommand} (hsendable : (S.operation c).Sendable) :
    serverReads S.protocol ((S.command zkey c).sent q) = some (S.serverCommand c) := by
  have hplainKey := (mmcPrepareKeyEx_spec hshort hkey).1
  have hplainLock : Plain (lockKey S.key) := by
    intro b hb
    rcases List.mem_append.mp hb with hb | hb
    · exact hplainKey b hb
    · exact (by decide : Plain (bytes ['.', 'l', 'o', 'c', 'k'])) b hb
  have hlength : S.key.length ≤ (lockKey S.key).length := by simp [lockKey]
  have hroom : ∀ c, (S.keyOf c).length ≤ 250 := by
    intro c
    cases c with
    | getData => exact hlength.trans S.room
    | setData _ => exact hlength.trans S.room
    | _ => exact S.room
  have hplain : ∀ c, Plain (S.keyOf c) := by
    intro c
    cases c with
    | getData => exact hplainKey
    | setData _ => exact hplainKey
    | _ => exact hplainLock
  have hne' : ∀ c, S.keyOf c ≠ [] := by
    intro c
    cases c with
    | getData => exact hne
    | setData _ => exact hne
    | _ => simp [keyOf, lockKey, bytes]
  cases hp : S.protocol with
  | ascii =>
    have hcommand : S.command zkey c = (S.operation c).command .ascii zkey (S.keyOf c) := by
      simp only [command, hp]
    have hserver : S.serverCommand c = (S.operation c).serverCommand .ascii (S.keyOf c) := by
      cases c <;> simp [serverCommand, initialLock, hp, operation, ApiOperation.serverCommand, keyOf]
    rw [hcommand, hserver]
    exact serverReads_ascii (hplain c) (if_pos (hroom c)) (hne' c) q zkey (S.operation c)
  | binary =>
    by_cases hincr : c = .incrLock
    · subst hincr
      have hcommand : S.command zkey .incrLock
          = .binaryMutate zkey (lockKey S.key) 1 1 true S.pool.lockTimeout := by
        simp only [command, hp]
      rw [hcommand, sent_incrLock, serverReads, parseFrame_incrLock]
      simp only [serverCommand, initialLock, hp]
    · have hcommand : S.command zkey c = (S.operation c).command .binary zkey (S.keyOf c) := by
        cases c with
        | incrLock => exact absurd rfl hincr
        | _ => simp only [command, hp]
      have hserver : S.serverCommand c = (S.operation c).serverCommand .binary (S.keyOf c) := by
        cases c with
        | incrLock => exact absurd rfl hincr
        | _ => simp only [serverCommand, hp]
      rw [hcommand, hserver]
      exact serverReads_binary (hroom c) q zkey hsendable

/-! ## What the replies lead to -/

/-- The handler calls of a round give the results that the replies lead to under either protocol. -/
theorem result_lockCall {unpack : Nat → Bytes → Option Bytes} {o : Outcome} {r : ReturnValue}
    (h : (S.operation .incrLock).answer unpack o = some r) :
    (S.operation .incrLock).result [S.lockCall o] = r := by
  cases o with
  | number n =>
    obtain ⟨hsmall, hr⟩ := Option.ite_none_right_eq_some.mp h
    cases hr
    have hlong : zendLong n.toNat = n.toNat := if_pos hsmall
    simp [lockCall, ApiOperation.result, operation, afterCall, mmcValueHandlerSingle,
      ReturnValue.orFalse, hlong]
  | notFound =>
    cases h
    rfl
  | nonNumeric =>
    cases h
    rfl
  | _ => cases h

theorem result_addCall {unpack : Nat → Bytes → Option Bytes} {o : Outcome} {r : ReturnValue}
    (h : (S.operation .addLock).answer unpack o = some r) :
    (S.operation .addLock).result [addCall o] = r := by
  cases o with
  | stored =>
    cases h
    rfl
  | notStored =>
    cases h
    rfl
  | tooLarge =>
    cases h
    rfl
  | _ => cases h

/-- The string in an item, as the parsers hand it to the value handler. -/
def unpackString (flags : Nat) (data : Bytes) : Option Bytes :=
  match mmcUnpackValue S.codec data (UInt32.ofNat flags) with
  | some (.string value) => some value
  | _ => none

theorem dataOf_answer {o : Outcome} {r : ReturnValue}
    (h : (S.operation .getData).answer S.unpackString o = some r) :
    S.dataOf o = match r with | .value value _ _ => some value | _ => none := by
  cases o with
  | value item =>
    have hflags : UInt32.ofNat item.flags.toNat = item.flags := UInt32.ofNat_toNat
    have hsame : S.dataOf (.value item) = S.unpackString item.flags.toNat item.data := by
      rw [dataOf, unpackString, hflags]
    simp only [operation, ApiOperation.answer] at h
    rw [hsame]
    cases hunpack : S.unpackString item.flags.toNat item.data with
    | none =>
      rw [hunpack] at h
      cases h
      rfl
    | some value =>
      rw [hunpack] at h
      cases h
      rfl
  | notFound =>
    cases h
    rfl
  | _ => cases h

end SessionSetup

end PeclMemcache
