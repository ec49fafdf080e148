import PeclMemcache.Exchange

set_option autoImplicit false

/-! # The session handlers

`PS_READ`, `PS_WRITE` and `PS_DESTROY` of `memcache_session.c`: the loops that go through the servers
of a session key, lock the session on them, and read, write or delete its data. What a round meets
on its server is an input. -/

namespace PeclMemcache

/-! ## The pool of a session -/

/-- What the handlers read of the pool and of the settings. `PS_OPEN` refuses a pool without servers,
    and the settings are checked to be positive. -/
structure SessionPool where
  findServer : Bytes → Mmc
  servers : List Mmc
  redundancy : Nat
  maxFailoverAttempts : Nat
  lockTimeout : Nat
  keyPrefix : Bytes
  findServer_mem : ∀ key, findServer key ∈ servers
  redundancy_pos : 0 < redundancy
  maxFailoverAttempts_pos : 0 < maxFailoverAttempts
  lockTimeout_pos : 0 < lockTimeout

/-- `"%s-%d"` of an `unsigned int`. -/
def probeKey (key : Bytes) (i : UInt32) : Bytes := key ++ [45] ++ decimalInt i.toInt32.toInt

/-- `mmc_deleted_handler`. -/
def mmcDeletedHandler (response : Int) (result : ReturnValue) : Verdict × ReturnValue :=
  if response = MMC_OK ∨ response = MMC_RESPONSE_NOT_FOUND then (.done, .bool true)
  else if response = MMC_RESPONSE_CLIENT_ERROR then (.done, .bool false)
  else (.requestFailure, result)

/-- The rest of `PS_WRITE` and `PS_DESTROY`: `run` are the calls of the handlers of the lock requests
    and of the data requests while the requests are executed. -/
def settle (handler : Int → ReturnValue → Verdict × ReturnValue)
    (run : List Mmc → List HandlerCall × List HandlerCall) (visited : List Mmc) : Bool :=
  let (lock, data) := run visited
  decide (lock.foldl (afterCall handler) .null = .bool true ∧
    data.foldl (afterCall handler) .null = .bool true)

namespace SessionPool

variable (P : SessionPool)

/-- The server of a probe. -/
def probe (key : Bytes) (i : UInt32) : Mmc := P.findServer (probeKey key i)

/-- The loop of `mmc_pool_find_next`, cut off after `fuel` probes. -/
def findNextFrom (key : Bytes) (skip : List Mmc) : Nat → UInt32 → Option (Mmc × UInt32)
  | 0, _ => none
  | fuel + 1, i =>
    let mmc := P.probe key i
    let i := i + 1
    if mmc ∈ skip ∧ i.toNat < P.maxFailoverAttempts then findNextFrom key skip fuel i
    else some (mmc, i)

/-- `mmc_pool_find_next`: the server and the new `*last_index`, or nothing if the loop has not ended
    when the index is back where it was. -/
def findNext (key : Bytes) (skip : List Mmc) (i : UInt32) : Option (Mmc × UInt32) :=
  P.findNextFrom key skip (2 ^ 32) i

/-- The bounds the loops have in common. -/
def wantsMore (skip : List Mmc) : Prop :=
  skip.length < P.redundancy ∧ skip.length < P.servers.length

instance (skip : List Mmc) : Decidable (P.wantsMore skip) := by
  unfold wantsMore; infer_instance

/-! ## Writing and destroying -/

/-- The loop of `PS_WRITE` and `PS_DESTROY`, cut off after `fuel` rounds: the servers of the
    rounds. -/
def visitFrom (key : Bytes) : Nat → List Mmc → UInt32 → Option (List Mmc)
  | 0, _, _ => none
  | fuel + 1, skip, i =>
    match P.findNext key skip i with
    | none => none
    | some (mmc, i) =>
      let skip := mmcQueuePush skip mmc
      if P.wantsMore skip then (visitFrom key fuel skip i).map (mmc :: ·) else some [mmc]

/-- The servers the two requests of `PS_WRITE` and `PS_DESTROY` are scheduled on, in the order of
    the rounds; `none` as long as the loop has not ended within `fuel` rounds. -/
def visit (key : Bytes) (fuel : Nat) : Option (List Mmc) := P.visitFrom key fuel [] 0

/-- `PS_WRITE`: whether it succeeds. -/
def psWrite (fuel : Nat) (sid : Bytes) (run : List Mmc → List HandlerCall × List HandlerCall) :
    Option Bool :=
  match mmcPrepareKeyEx sid P.keyPrefix with
  | none => some false
  | some key => (P.visit key fuel).map (settle mmcStoredHandler run)

/-- `PS_DESTROY`: whether it succeeds. -/
def psDestroy (fuel : Nat) (sid : Bytes) (run : List Mmc → List HandlerCall × List HandlerCall) :
    Option Bool :=
  match mmcPrepareKeyEx sid P.keyPrefix with
  | none => some false
  | some key => (P.visit key fuel).map (settle mmcDeletedHandler run)

end SessionPool

/-! ## Reading -/

/-- What a round of `PS_READ` meets: a server that is not valid or cannot take the requests, or the
    calls of the handlers of the increment and of the add, and the data if it is a string. -/
inductive Attempt
  | refused
  | answered (lock add : List HandlerCall) (data : Option Bytes)

def Attempt.isRefused : Attempt → Bool
  | .refused => true
  | .answered .. => false

/-- The increment answered 1 or the add was stored. -/
def Attempt.locked : Attempt → Bool
  | .refused => false
  | .answered lock add _ =>
    decide (lock.foldl (afterCall mmcNumericResponseHandler) .null = .long 1 ∨
      add.foldl (afterCall mmcStoredHandler) .null = .bool true)

/-- The local variables of `PS_READ`; the times are microseconds. -/
structure ReadState where
  skip : List Mmc := []
  lastIndex : UInt32 := 0
  timeout : Nat := 5000
  remaining : Int

/-- The server is skipped from now on, and the next round starts behind its index. -/
def ReadState.skipServer (s : ReadState) (mmc : Mmc) (i : UInt32) : ReadState :=
  { s with skip := mmcQueuePush s.skip mmc, lastIndex := i }

/-- The pause after a round without the lock; the next one tries the same server, for `last_index`
    goes back to `prev_index`. -/
def ReadState.backOff (s : ReadState) : ReadState :=
  { s with
    remaining := s.remaining - s.timeout
    timeout := if s.timeout * 2 > 1000000 then 1000000 else s.timeout * 2 }

namespace SessionPool

variable (P : SessionPool)

/-- The body of the loop of `PS_READ` once `mmc_pool_find_next` has found the server and the index:
    the new state, or the data it returns. -/
def readRound (s : ReadState) (mmc : Mmc) (i : UInt32) : Attempt → ReadState ⊕ Bytes
  | .refused => .inl (s.skipServer mmc i)
  | .answered lock add data =>
    if (Attempt.answered lock add data).locked then
      match data with
      | some value => .inr value
      | none =>
        let s := s.skipServer mmc i
        if s.skip.length = P.servers.length ∧ s.skip.length < P.redundancy then .inr [] else .inl s
    else .inl s.backOff

/-- The condition of the loop of `PS_READ`. -/
def readsOn (s : ReadState) : Prop := P.wantsMore s.skip ∧ 0 < s.remaining

instance (s : ReadState) : Decidable (P.readsOn s) := by
  unfold readsOn; infer_instance

/-- The loop of `PS_READ` from round `n` on, cut off after `fuel` rounds: the data and the number of
    rounds at the end. -/
def readFrom (key : Bytes) (attempts : Nat → Attempt) :
    Nat → Nat → ReadState → Option (Bytes × Nat)
  | 0, _, _ => none
  | fuel + 1, n, s =>
    match P.findNext key s.skip s.lastIndex with
    | none => none
    | some (mmc, i) =>
      match P.readRound s mmc i (attempts n) with
      | .inr value => some (value, n + 1)
      | .inl s' => if P.readsOn s' then readFrom key attempts fuel (n + 1) s' else some ([], n + 1)

/-- The state `PS_READ` starts in. -/
def readStart : ReadState := { remaining := P.lockTimeout * 1000000 * 2 }

end SessionPool

/-- What `PS_READ` returns: `SUCCESS` with the data, here with the number of rounds it took, or
    `FAILURE`. -/
inductive ReadResult
  | success (value : Bytes) (rounds : Nat)
  | failure
  deriving DecidableEq, Repr

/-- `PS_READ`; the pool is `NULL` if `PS_OPEN` failed. -/
def psRead (pool : Option SessionPool) (fuel : Nat) (sid : Bytes) (attempts : Nat → Attempt) :
    Option ReadResult :=
  match pool with
  | none => some .failure
  | some P =>
    match mmcPrepareKeyEx sid P.keyPrefix with
    | none => some .failure
    | some key => (P.readFrom key attempts fuel 0 P.readStart).map fun r => .success r.1 r.2

end PeclMemcache
