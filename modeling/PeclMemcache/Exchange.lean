import PeclMemcache.Replies
import PeclMemcache.Requests

set_option autoImplicit false

/-! # One operation and one server

The operations of the API on a single key, the commands they put into a request under either
protocol, what the server reads in it, and what the handlers of `memcache.c` make of the reply. -/

namespace PeclMemcache

/-! ## Operations -/

/-- The operations on one key, with the packed value where there is one. -/
inductive ApiOperation
  | store (verb : StoreVerb) (exptime : Nat) (flags : UInt32) (value : Bytes)
  | cas (exptime : Nat) (flags : UInt32) (value : Bytes) (token : Int)
  | delete
  | mutate (value : Int64)
  | get (withCas : Bool)
  | flush (delay : UInt32)

/-- `MMC_OP_*` of a storage command. -/
def StoreVerb.op : StoreVerb → MmcOp
  | .set => .set
  | .add => .add
  | .replace => .replace
  | .append => .append
  | .prepend => .prepend

/-- `(unsigned long)` of a `zend_long`. -/
def unsignedLong (t : Int) : Nat := (t % 2 ^ 64).toNat

/-- The command of an operation under the text protocol. -/
def ApiOperation.textCommand (key : Bytes) : ApiOperation → Command
  | .store verb exptime flags value => .asciiStore verb.op key exptime 0 (some (value, flags.toNat))
  | .cas exptime flags value token =>
    .asciiStore .cas key exptime (unsignedLong token) (some (value, flags.toNat))
  | .delete => .asciiDelete key 0
  | .mutate value => .asciiMutate key value.toInt
  | .get withCas => .asciiGet (if withCas then .gets else .get) [key]
  | .flush delay => .asciiFlush delay.toNat

/-- The command of an operation under the binary protocol. -/
def ApiOperation.binaryCommand (zkey : ZKey) (key : Bytes) : ApiOperation → Command
  | .store verb exptime flags value => .binaryStore verb.op key exptime 0 (some (value, flags.toNat))
  | .cas exptime flags value token =>
    .binaryStore .cas key exptime (unsignedLong token) (some (value, flags.toNat))
  | .delete => .binaryDelete key
  | .mutate value => .binaryMutate zkey key value.toInt 0 false 0
  | .get _ => .binaryGet zkey key
  | .flush _ => .binaryFlush

/-- The command of an operation: `zkey` is the key of the user and `key` the prepared one. -/
def ApiOperation.command (p : WireProtocol) (zkey : ZKey) (key : Bytes) (op : ApiOperation) :
    Command :=
  match p with
  | .ascii => op.textCommand key
  | .binary => op.binaryCommand zkey key

/-- The bytes of a command. -/
def Command.sent (c : Command) (q : MmcRequest) : Bytes := (c.build q).sendbuf.value

/-- The command the server reads first in the bytes of a request. -/
def serverReads : WireProtocol → Bytes → Option ServerCommand
  | .ascii, s => (parseText s).bind fun p => p.1.toServer
  | .binary, s => (parseFrame s).bind fun p => p.1.toServer

/-- The reply to a command. -/
def ApiOperation.reply (op : ApiOperation) (p : WireProtocol) (opcode : Nat) (c : ServerCommand)
    (o : Outcome) : Bytes :=
  match p with
  | .ascii => textReply (match op with | .get withCas => withCas | _ => false) c o
  | .binary => binaryReply opcode 0 c o

/-- The opcode of the request, which the reply repeats. -/
def ApiOperation.opcode : ApiOperation → Nat
  | .store verb _ _ _ => (binaryStoreCommand verb.op).1
  | .cas .. => MMC_OP_SET
  | .delete => MMC_OP_DELETE
  | .mutate value => if value.toInt ≥ 0 then MMC_OP_INCR else MMC_OP_DECR
  | .get _ => MMC_OP_GET
  | .flush _ => MMC_OP_FLUSH

/-! ## The handlers of the API -/

/-- The return value of an API function and what it writes to the `flags` and `cas` arguments. -/
inductive ReturnValue
  | null
  | bool (b : Bool)
  | long (n : Int)
  | value (value : Bytes) (flags : Nat) (cas : Option Int)
  deriving DecidableEq, Repr

/-- `mmc_stored_handler`. -/
def mmcStoredHandler (response : Int) (result : ReturnValue) : Verdict × ReturnValue :=
  if response = MMC_OK then (.done, if result = .null then .bool true else result)
  else if response = MMC_RESPONSE_EXISTS ∨ response = MMC_RESPONSE_OUT_OF_MEMORY
      ∨ response = MMC_RESPONSE_TOO_LARGE ∨ response = MMC_RESPONSE_CLIENT_ERROR then
    (.done, .bool false)
  else (.requestFailure, result)

/-- `mmc_numeric_response_handler` for a single key. -/
def mmcNumericResponseHandler (response : Int) (result : ReturnValue) : Verdict × ReturnValue :=
  if response = MMC_OK then (.done, if result = .null then .bool true else result)
  else if response = MMC_RESPONSE_NOT_FOUND ∨ response = MMC_RESPONSE_CLIENT_ERROR then
    (.done, .bool false)
  else (.requestFailure, result)

/-- `mmc_flush_handler`; the number counts the servers that were flushed. -/
def mmcFlushHandler (response : Int) (responses : Nat) : Verdict × Nat :=
  if response = MMC_OK then (.done, responses + 1)
  else if response = MMC_RESPONSE_CLIENT_ERROR then (.done, responses)
  else (.requestFailure, responses)

/-- `mmc_value_handler_single`; the cas argument is written only if it was passed. -/
def mmcValueHandlerSingle (withCas : Bool) (result : ReturnValue) : HandlerCall → ReturnValue
  | .value _ value flags cas => .value value flags (if withCas then some (zendLong cas) else none)
  | .long _ n _ _ => .long n
  | .response .. => result

/-- The handlers a request of the operation has. -/
def ApiOperation.handlers (unpack : Nat → Bytes → Option Bytes) (op : ApiOperation) : Handlers where
  unpack := unpack
  respond response _ _ :=
    match op with
    | .store .. => (mmcStoredHandler response .null).1
    | .cas .. => (mmcStoredHandler response .null).1
    | .delete => (mmcNumericResponseHandler response .null).1
    | .mutate _ => (mmcNumericResponseHandler response .null).1
    | .get _ => .done
    | .flush _ => (mmcFlushHandler response 0).1

/-- What the response handlers make of the return value. -/
def afterCall (handler : Int → ReturnValue → Verdict × ReturnValue) (result : ReturnValue) :
    HandlerCall → ReturnValue
  | .response response _ _ => (handler response result).2
  | call => mmcValueHandlerSingle false result call

/-- `RETVAL_FALSE` where the value is still `NULL`. -/
def ReturnValue.orFalse : ReturnValue → ReturnValue
  | .null => .bool false
  | result => result

/-- The number of servers flushed, after a call. -/
def afterFlush (responses : Nat) : HandlerCall → Nat
  | .response response _ _ => (mmcFlushHandler response responses).2
  | _ => responses

/-- The result of `php_mmc_store`, `php_mmc_numeric`, `memcache_get` and `memcache_flush` after the
    calls of the handlers, for a pool of one server. -/
def ApiOperation.result (op : ApiOperation) (calls : List HandlerCall) : ReturnValue :=
  match op with
  | .store .. => (calls.foldl (afterCall mmcStoredHandler) .null).orFalse
  | .cas .. => (calls.foldl (afterCall mmcStoredHandler) .null).orFalse
  | .delete => (calls.foldl (afterCall mmcNumericResponseHandler) .null).orFalse
  | .mutate _ => (calls.foldl (afterCall mmcNumericResponseHandler) .null).orFalse
  | .get withCas => (calls.foldl (mmcValueHandlerSingle withCas) (.bool false)).orFalse
  | .flush _ => .bool (decide (1 ≤ calls.foldl afterFlush 0))

/-! ## Text requests -/

theorem sent_asciiStore {op : MmcOp} {word : Bytes} (hop : asciiStoreCommand op = some word)
    (q : MmcRequest) (key : Bytes) (exptime cas : Nat) (value : Bytes) (flags : Nat) :
    (Command.asciiStore op key exptime cas (some (value, flags))).sent q
      = Words.join 32 (word :: key :: decimal flags :: decimal exptime ::
          decimal value.length :: if op = .cas then [decimal cas] else []) ++ crlf
            ++ (value ++ crlf) :=
  (mmcAsciiStore_text (mmcAsciiResetRequest q) key exptime cas value flags hop).2

/-- What the server reads in a text cas: a prepared key that is empty is lost, and the line has a
    word too few. -/
theorem parseText_cas {key : Bytes} (exptime cas flags : Nat) (value : Bytes) (hplain : Plain key)
    (hword : keyWord key = some key) (q : MmcRequest) :
    parseText ((Command.asciiStore .cas key exptime cas (some (value, flags))).sent q)
      = if key = [] then none else some (.cas key flags exptime cas value, []) := by
  have hverb : Plain (bytes ['c', 'a', 's']) := by decide
  have hparse : ∀ args rest, parseCommand (bytes ['c', 'a', 's']) args rest = parseCas args rest :=
    fun _ _ => rfl
  rw [sent_asciiStore rfl, if_pos rfl, parseText_line (by decide) (by
    simpa using ⟨hverb, hplain, plain_decimal flags, plain_decimal exptime,
      plain_decimal value.length, plain_decimal cas⟩), hparse]
  by_cases hnil : key = []
  · simp [hnil, decimal_ne_nil, parseCas]
  · simp [hnil, decimal_ne_nil, parseCas, hword]

/-! ## Binary frames -/

/-- The fields of a packed frame, whatever the length of its value. -/
theorem parseFrame_fields {opcode reqid length cas : Nat} {extras key body : Bytes}
    {f : BinaryFrame} {rest : Bytes} (hopcode : opcode < 256) (hcas : cas < 2 ^ 64)
    (hextras : extras.length < 256) (hkey : key.length < 2 ^ 16)
    (h : parseFrame (mmcPackHeader opcode reqid key.length extras.length length cas
        ++ (extras ++ key ++ body)) = some (f, rest)) :
    f.opcode = opcode ∧ f.cas = cas ∧ f.extras = extras ∧ f.key = key := by
  obtain ⟨k₁, k₂, hk⟩ := bigEndian_two key.length
  obtain ⟨t₁, t₂, t₃, t₄, ht⟩ := bigEndian_four (key.length + extras.length + length)
  obtain ⟨r₁, r₂, r₃, r₄, hr⟩ := bigEndian_four reqid
  obtain ⟨c₁, c₂, c₃, c₄, c₅, c₆, c₇, c₈, hc⟩ := bigEndian_eight cas
  have hkeyLen : ofBigEndian [k₁, k₂] = key.length := by
    rw [← hk, ofBigEndian_bigEndian_of_lt 2 hkey]
  have hcas' : ofBigEndian [c₁, c₂, c₃, c₄, c₅, c₆, c₇, c₈] = cas := by
    rw [← hc, ofBigEndian_bigEndian_of_lt 8 hcas]
  have hdigit : ∀ x < 256, ofBigEndian [UInt8.ofNat x] = x := by
    intro x hx
    simp [ofBigEndian, Nat.mod_eq_of_lt hx]
  simp only [mmcPackHeader, hk, ht, hr, hc, List.cons_append, List.nil_append] at h
  simp only [parseFrame, binaryHeaderSize, List.drop_succ_cons, List.drop_zero, List.take_succ_cons,
    List.take_zero, hkeyLen, hcas', hdigit opcode hopcode, hdigit extras.length hextras] at h
  split at h
  · cases h
    refine ⟨rfl, rfl, ?_, ?_⟩
    · dsimp only
      rw [List.append_assoc, List.take_left]
    · dsimp only
      rw [List.append_assoc, List.drop_left, List.take_left]
  · cases h

/-- The extra bytes of a store operation. -/
def storeExtras (op : MmcOp) (flags exptime : Nat) : Bytes :=
  if (binaryStoreCommand op).2 = 0 then [] else bigEndian 4 flags ++ bigEndian 4 exptime

theorem storeExtras_length (op : MmcOp) (flags exptime : Nat) :
    (storeExtras op flags exptime).length = (binaryStoreCommand op).2 := by
  cases op <;> simp [storeExtras, binaryStoreCommand]

theorem sent_binaryStore (q : MmcRequest) (op : MmcOp) (key : Bytes) (exptime cas : Nat)
    (value : Bytes) (flags : Nat) :
    (Command.binaryStore op key exptime cas (some (value, flags))).sent q
      = mmcPackHeader (binaryStoreCommand op).1 0 key.length (storeExtras op flags exptime).length
          value.length cas ++ (storeExtras op flags exptime ++ key ++ value) := by
  rw [storeExtras_length]
  simp [Command.sent, Command.build, mmcBinaryStore, MmcRequest.appendSend, MmcRequest.parseBinary,
    mmcBinaryResetRequest, mmcRequestReset, MmcBuffer.reset, storeExtras]

theorem binaryStoreCommand_lt (op : MmcOp) :
    (binaryStoreCommand op).1 < 256 ∧ (binaryStoreCommand op).2 ≤ 8 := by
  cases op <;> decide

/-- **The frame of a store operation** is read back if its length fits into the header. -/
theorem parseFrame_binaryStore (q : MmcRequest) (op : MmcOp) {key value : Bytes} (exptime : Nat)
    {cas : Nat} (flags : Nat) (hlen : key.length ≤ 250) (hcas : cas < 2 ^ 64)
    (hshort : value.length + 258 < 2 ^ 32) :
    parseFrame ((Command.binaryStore op key exptime cas (some (value, flags))).sent q)
      = some ({ opcode := (binaryStoreCommand op).1, reqid := 0, cas,
                extras := storeExtras op flags exptime, key, value }, []) := by
  obtain ⟨hopcode, hextras⟩ := binaryStoreCommand_lt op
  rw [← storeExtras_length op flags exptime] at hextras
  rw [sent_binaryStore, ← List.append_nil (_ ++ value)]
  exact parseFrame_mmcPackHeader hopcode (by decide) hcas (by omega) (by omega) (by omega) []

/-! ## Replies with a value -/

theorem textReply_value (key : Bytes) (item : Item) (withCas : Bool) :
    textReply withCas (.get key) (.value item)
      = announceLine key item.flags.toNat item.data.length
          (if withCas then some item.token.toNat else none) ++ crlf ++ item.data ++ crlf ++ endLine
        ++ [10] ++ [] := by
  cases withCas <;> simp [textReply, announceLine, endLine, crlf]

theorem Item.length_lt (item : Item) : item.data.length + 4 < 2 ^ 32 := by
  have h := item.small
  rw [itemLimit] at h
  omega

/-! ## What the server reads -/

/-- The command an operation is to the server. The binary protocol sends no flags with an append or
    a prepend and no delay with a flush. -/
def ApiOperation.serverCommand (p : WireProtocol) (key : Bytes) : ApiOperation → ServerCommand
  | .store verb _ flags value =>
    .store verb key (if p = .binary ∧ (binaryStoreCommand verb.op).2 = 0 then 0 else flags) value
  | .cas _ flags value token => .cas key flags value (UInt64.ofNat (unsignedLong token))
  | .delete => .delete key
  | .mutate value =>
    if 0 ≤ value.toInt then .incr key value.toInt.natAbs none
    else .decr key value.toInt.natAbs none
  | .get _ => .get key
  | .flush delay => .flush (if p = .binary then 0 else delay.toNat)

/-- The arguments an operation can send: the length of a value fits into the header of a frame, and
    a cas has a token. -/
def ApiOperation.Sendable : ApiOperation → Prop
  | .store _ _ _ value => value.length + 258 < 2 ^ 32
  | .cas _ _ value token => value.length + 258 < 2 ^ 32 ∧ unsignedLong token ≠ 0
  | _ => True

theorem serverReads_ascii {key : Bytes} (hplain : Plain key) (hword : keyWord key = some key)
    (hne : key ≠ []) (q : MmcRequest) (zkey : ZKey) (op : ApiOperation) :
    serverReads .ascii ((op.command .ascii zkey key).sent q)
      = some (op.serverCommand .ascii key) := by
  rw [serverReads, ApiOperation.command]
  cases op with
  | store verb exptime flags value =>
    obtain ⟨word, hverb⟩ : ∃ word, asciiStoreCommand verb.op = some word := by
      cases verb <;> exact ⟨_, rfl⟩
    have hflags : UInt32.ofNat flags.toNat = flags := UInt32.ofNat_toNat
    rw [ApiOperation.textCommand, sent_asciiStore hverb,
      (parseText_store exptime 0 flags.toNat value hplain hword hverb).mpr hne]
    cases verb <;> simp [StoreVerb.op, storeCommand, TextCommand.toServer,
      ApiOperation.serverCommand, hflags]
  | cas exptime flags value token =>
    have hflags : UInt32.ofNat flags.toNat = flags := UInt32.ofNat_toNat
    rw [ApiOperation.textCommand, parseText_cas _ _ _ _ hplain hword, if_neg hne]
    simp [TextCommand.toServer, ApiOperation.serverCommand, hflags]
  | delete =>
    have hsent := mmcAsciiDelete_text (mmcAsciiResetRequest q) key 0
    rw [ApiOperation.textCommand, Command.sent, Command.build, hsent]
    exact congrArg (·.bind fun p => p.1.toServer) ((parseText_delete 0 hplain hword).mpr hne)
  | mutate value =>
    have hsent := mmcAsciiMutate_text (mmcAsciiResetRequest q) key value.toInt
    rw [ApiOperation.textCommand, Command.sent, Command.build, hsent]
    refine (congrArg (·.bind fun p => p.1.toServer)
      ((parseText_mutate value.toInt hplain hword).mpr hne)).trans ?_
    rw [Option.bind_some, ApiOperation.serverCommand]
    split <;> rfl
  | get withCas =>
    have hsent := mmcAsciiGet_text (mmcAsciiResetRequest q) (if withCas then .gets else .get) [key]
    rw [ApiOperation.textCommand, Command.sent, Command.build, hsent]
    have hparse := (@parseText_get [key] (if withCas then .gets else .get) (by simp)
      (by simpa using hplain) (by simpa using hword)).mpr (by simpa using hne)
    exact congrArg (·.bind fun p => p.1.toServer) hparse
  | flush delay =>
    have hsent := mmcAsciiFlush_text (mmcAsciiResetRequest q) delay.toNat
    rw [ApiOperation.textCommand, Command.sent, Command.build, hsent]
    exact congrArg (·.bind fun p => p.1.toServer) (parseText_flush delay.toNat)

/-- A frame with a key and extras but no value. -/
theorem parseFrame_noValue {opcode : Nat} {extras key : Bytes} (hopcode : opcode < 256)
    (hextras : extras.length < 256) (hkey : key.length ≤ 250) :
    parseFrame (mmcPackHeader opcode 0 key.length extras.length 0 0 ++ (extras ++ key))
      = some ({ opcode, reqid := 0, cas := 0, extras, key, value := [] }, []) := by
  have hframe := @parseFrame_mmcPackHeader opcode 0 0 extras key [] hopcode (by decide) (by decide)
    hextras (by omega) (by rw [List.length_nil]; omega) []
  rw [List.append_nil, List.append_nil] at hframe
  exact hframe

theorem sent_binaryDelete (q : MmcRequest) (key : Bytes) :
    (Command.binaryDelete key).sent q
      = mmcPackHeader MMC_OP_DELETE 0 key.length ([] : Bytes).length 0 0 ++ ([] ++ key) := by
  simp [Command.sent, Command.build, mmcBinaryDelete, MmcRequest.appendSend, MmcRequest.parseBinary,
    mmcBinaryResetRequest, mmcRequestReset, MmcBuffer.reset]

theorem sent_binaryGet (q : MmcRequest) (zkey : ZKey) (key : Bytes) :
    (Command.binaryGet zkey key).sent q
      = mmcPackHeader MMC_OP_GET 0 key.length ([] : Bytes).length 0 0 ++ ([] ++ key) := by
  simp [Command.sent, Command.build, mmcBinaryGet, MmcRequest.appendSend, MmcRequest.parseBinary,
    mmcBinaryResetRequest, mmcRequestReset, MmcBuffer.reset, MmcRequest.pushKey]

theorem sent_binaryFlush (q : MmcRequest) :
    Command.binaryFlush.sent q = mmcPackHeader MMC_OP_FLUSH 0 0 0 0 0 ++ ([] ++ []) := by
  simp [Command.sent, Command.build, mmcBinaryFlush, MmcRequest.appendSend, MmcRequest.parseBinary,
    mmcBinaryResetRequest, mmcRequestReset, MmcBuffer.reset]

/-- The extra bytes of a counter operation that creates nothing. -/
def mutateExtras (value : Int) : Bytes :=
  bigEndian 8 value.natAbs ++ bigEndian 8 0 ++ bigEndian 4 (2 ^ 32 - 1)

theorem sent_binaryMutate (q : MmcRequest) (zkey : ZKey) (key : Bytes) (value : Int) :
    (Command.binaryMutate zkey key value 0 false 0).sent q
      = mmcPackHeader (if value ≥ 0 then MMC_OP_INCR else MMC_OP_DECR) 0 key.length
          (mutateExtras value).length 0 0 ++ (mutateExtras value ++ key) := by
  simp [Command.sent, Command.build, mmcBinaryMutate, MmcRequest.appendSend, MmcRequest.parseBinary,
    mmcBinaryResetRequest, mmcRequestReset, MmcBuffer.reset, MmcRequest.pushKey, mutateExtras]

/-- The fields of the extra bytes, as the server reads them. -/
theorem mutateExtras_fields {value : Int} (h : value.natAbs < 2 ^ 64) :
    ofBigEndian ((mutateExtras value).take 8) = value.natAbs ∧
      ofBigEndian (((mutateExtras value).drop 16).take 4) = 2 ^ 32 - 1 := by
  constructor
  · rw [mutateExtras, List.append_assoc, take_append_bigEndian_of_lt 8 h]
  · obtain ⟨a, b, c, d, e, f, g, i, hd⟩ := bigEndian_eight value.natAbs
    rw [mutateExtras, hd]
    rfl

theorem natAbs_toInt_lt (value : Int64) : value.toInt.natAbs < 2 ^ 64 := by
  have h₁ := value.toInt_lt
  have h₂ := value.le_toInt
  omega

/-- **The server reads the same operation** in the request of either protocol. -/
theorem serverReads_binary {key : Bytes} (hlen : key.length ≤ 250) (q : MmcRequest) (zkey : ZKey)
    {op : ApiOperation} (hop : op.Sendable) :
    serverReads .binary ((op.command .binary zkey key).sent q)
      = some (op.serverCommand .binary key) := by
  rw [serverReads, ApiOperation.command]
  cases op with
  | store verb exptime flags value =>
    have hframe := @parseFrame_binaryStore q verb.op key value exptime 0 flags.toNat hlen (by decide)
      hop
    have hflags : ofBigEndian (bigEndian 4 flags.toNat) = flags.toNat := by
      exact ofBigEndian_bigEndian_of_lt 4 flags.toNat_lt
    rw [ApiOperation.binaryCommand, hframe]
    cases verb <;> simp [StoreVerb.op, binaryStoreCommand, BinaryFrame.toServer,
      ApiOperation.serverCommand, storeExtras, hflags, MMC_OP_SET, MMC_OP_GET, MMC_OP_ADD,
      MMC_OP_REPLACE, MMC_BIN_OP_APPEND, MMC_BIN_OP_PREPEND, MMC_OP_DELETE, MMC_OP_INCR,
      MMC_OP_DECR, MMC_OP_FLUSH]
  | cas exptime flags value token =>
    have hframe := @parseFrame_binaryStore q .cas key value exptime (unsignedLong token) flags.toNat
      hlen (by unfold unsignedLong; omega) hop.1
    have hflags : ofBigEndian (bigEndian 4 flags.toNat) = flags.toNat := by
      exact ofBigEndian_bigEndian_of_lt 4 flags.toNat_lt
    rw [ApiOperation.binaryCommand, hframe]
    simp [binaryStoreCommand, BinaryFrame.toServer, ApiOperation.serverCommand, storeExtras, hflags,
      MMC_OP_SET, MMC_OP_GET, hop.2]
  | delete =>
    have hframe := @parseFrame_noValue MMC_OP_DELETE [] key (by decide) (by decide) hlen
    rw [ApiOperation.binaryCommand, sent_binaryDelete, hframe]
    rfl
  | mutate value =>
    obtain ⟨hdelta, hexpiration⟩ := mutateExtras_fields (natAbs_toInt_lt value)
    have hlength : (mutateExtras value.toInt).length = 20 := by simp [mutateExtras]
    rw [ApiOperation.binaryCommand, sent_binaryMutate, ApiOperation.serverCommand]
    by_cases hvalue : 0 ≤ value.toInt
    · rw [if_pos hvalue, if_pos hvalue, @parseFrame_noValue MMC_OP_INCR (mutateExtras value.toInt) key
        (by decide) (by omega) hlen]
      simp [BinaryFrame.toServer, BinaryFrame.initial, hdelta, hexpiration, MMC_OP_GET, MMC_OP_SET,
        MMC_OP_DELETE, MMC_OP_INCR]
    · rw [if_neg hvalue, if_neg hvalue, @parseFrame_noValue MMC_OP_DECR (mutateExtras value.toInt) key
        (by decide) (by omega) hlen]
      simp [BinaryFrame.toServer, BinaryFrame.initial, hdelta, hexpiration, MMC_OP_GET, MMC_OP_SET,
        MMC_OP_DELETE, MMC_OP_INCR, MMC_OP_DECR]
  | get withCas =>
    have hframe := @parseFrame_noValue MMC_OP_GET [] key (by decide) (by decide) hlen
    rw [ApiOperation.binaryCommand, sent_binaryGet, hframe]
    rfl
  | flush delay =>
    rw [ApiOperation.binaryCommand, sent_binaryFlush]
    rfl

end PeclMemcache
