import PeclMemcache.ResultArrays

set_option autoImplicit false

/-! # Increments for an array of keys

`php_mmc_numeric` sends a request for every valid key of the array. A number is entered under the key
of the request or under the remembered one, like a value; a refusal under the key of the request and
the NUL behind it. -/

namespace PeclMemcache

open Writes

/-! ## Requests -/

/-- The arguments of an increment: the signed amount, the value a missing counter is created with and
    whether one was passed, and when it expires. -/
structure MutateArgs where
  value : Int64
  defval : Int64 := 0
  defvalUsed : Bool := false
  exptime : UInt32 := 0

/-- The request for a key; `request->key` holds what is sent. -/
def numericRequest (p : WireProtocol) (args : MutateArgs) (q : MmcRequest) (k : ZKey × Bytes) :
    MmcRequest :=
  match p with
  | .ascii =>
    mmcAsciiMutate { mmcAsciiResetRequest q with key := k.2, keyLen := k.2.length } k.2
      args.value.toInt
  | .binary =>
    mmcBinaryMutate { mmcBinaryResetRequest q with key := k.2, keyLen := k.2.length } k.1 k.2
      args.value.toInt args.defval.toInt args.defvalUsed args.exptime.toNat

/-- The value the server is told to create a missing counter with. The text protocol cannot say it. -/
def MutateArgs.initial (args : MutateArgs) : WireProtocol → Option UInt64
  | .ascii => none
  | .binary =>
    if args.defvalUsed ∧ args.exptime.toNat ≠ 2 ^ 32 - 1 then
      some (UInt64.ofNat (args.defval.toInt % 2 ^ 64).toNat)
    else none

/-- The command a request is to the server. -/
def MutateArgs.command (args : MutateArgs) (p : WireProtocol) (key : Bytes) : ServerCommand :=
  if 0 ≤ args.value.toInt then .incr key args.value.toInt.natAbs (args.initial p)
  else .decr key args.value.toInt.natAbs (args.initial p)

/-- The reply to it. -/
def MutateArgs.reply (args : MutateArgs) (p : WireProtocol) (c : ServerCommand) (o : Outcome) : Bytes :=
  match p with
  | .ascii => textReply false c o
  | .binary => binaryReply (if args.value.toInt ≥ 0 then MMC_OP_INCR else MMC_OP_DECR) 0 c o

/-- The handlers of the request. -/
def numericHandlers (unpack : Nat → Bytes → Option Bytes) (key : Bytes) : Handlers where
  unpack := unpack
  respond response _ _ := (mmcNumericResponseHandlerMulti key response arrayInit).1

/-- What a call of a handler of the request for `key` makes of the array. -/
def afterMultiCall (key : Bytes) (a : ResultArray) : HandlerCall → ResultArray
  | .response response _ _ => (mmcNumericResponseHandlerMulti key response a).2
  | call => mmcValueHandlerMulti a call

section

variable (p : WireProtocol) (unpack : Nat → Bytes → Option Bytes) (keyPrefix : Bytes)
  (findServer : Bytes → Mmc) (args : MutateArgs)

/-- The requests of an increment, one after the other: the server of the key reads each one, executes
    it and replies in any pieces. With every call of a handler stand the server and the key of the
    request. -/
inductive Increments : (Mmc → Memcached) → List ZKey → List (Mmc × Bytes × HandlerCall) → Prop
  | nil {servers : Mmc → Memcached} : Increments servers [] []
  | invalid {servers : Mmc → Memcached} {zkey : ZKey} {keys : List ZKey}
      {calls : List (Mmc × Bytes × HandlerCall)}
      (refused : mmcPrepareKeyEx zkey.str keyPrefix = none) (next : Increments servers keys calls) :
      Increments servers (zkey :: keys) calls
  | answered {servers : Mmc → Memcached} {zkey : ZKey} {key : Bytes} {keys : List ZKey}
      {q : MmcRequest} {io : MmcStream} {chunks : List Bytes} {c : ServerCommand}
      {calls : List HandlerCall} {result : MmcResult} {rest : Bytes}
      {later : List (Mmc × Bytes × HandlerCall)}
      (prepared : mmcPrepareKeyEx zkey.str keyPrefix = some key) (input : io.input = [])
      (reads : serverReads p (numericRequest p args q (zkey, key)).sendbuf.value = some c)
      (reply : chunks.flatten = args.reply p c ((servers (findServer key)).execute c).1)
      (sees : Sees (numericHandlers unpack key)
        { io, chunks, req := (numericRequest p args q (zkey, key)).rewind } calls result rest)
      (next : Increments (Function.update servers (findServer key)
        ((servers (findServer key)).execute c).2) keys later) :
      Increments servers (zkey :: keys) (calls.map (fun call => (findServer key, key, call)) ++ later)

/-- What an increment returns for an array of keys: the replies of one server come in the order of
    the requests, those of different servers in any order. -/
def MultiIncrement (servers : Mmc → Memcached) (keys : List ZKey) (array : ResultArray) : Prop :=
  ∃ calls order : List (Mmc × Bytes × HandlerCall), Increments p unpack keyPrefix findServer args servers keys calls ∧
    (∀ m, order.filter (fun c => c.1 = m) = calls.filter fun c => c.1 = m) ∧
    array = order.foldl (fun a c => afterMultiCall c.2.1 a c.2.2) arrayInit

/-- The entry for the outcome of a request. -/
def numericEntry (k : ZKey × Bytes) : Outcome → Bytes × ArrayValue
  | .number n =>
    match p with
    | .ascii => (resultKey p k, .long (strtol false n.toNat))
    | .binary => (resultKey p k, .long (zendLong n.toNat))
  | _ => (k.2 ++ [0], .bool false)

/-- The entries for all valid keys, each with the server. -/
def numericEntries : (Mmc → Memcached) → List (ZKey × Bytes) → List (Mmc × Bytes × ArrayValue)
  | _, [] => []
  | servers, k :: ks =>
    (findServer k.2, numericEntry p k ((servers (findServer k.2)).execute (args.command p k.2)).1) ::
      numericEntries (Function.update servers (findServer k.2)
        ((servers (findServer k.2)).execute (args.command p k.2)).2) ks

end

/-! ## One request -/

/-- The three ways an increment can go. -/
theorem MutateArgs.outcome (args : MutateArgs) (p : WireProtocol) (s : Memcached) (key : Bytes) :
    (∃ n, (s.execute (args.command p key)).1 = .number n) ∨
      (s.execute (args.command p key)).1 = .notFound ∨
      (s.execute (args.command p key)).1 = .nonNumeric := by
  have hchange : ∀ f initial, (∃ n, (s.change key f initial).1 = .number n) ∨
      (s.change key f initial).1 = .notFound ∨ (s.change key f initial).1 = .nonNumeric := by
    intro f initial
    unfold Memcached.change
    cases s.items key with
    | none => cases initial <;> simp
    | some item => cases hcounter : item.counter <;> simp [hcounter]
  unfold MutateArgs.command
  split <;> exact hchange ..

theorem numericRequest_ascii_text (args : MutateArgs) (q : MmcRequest) (k : ZKey × Bytes) :
    (numericRequest .ascii args q k).sendbuf.value
      = Words.join 32 [if 0 ≤ args.value.toInt then bytes ['i', 'n', 'c', 'r']
          else bytes ['d', 'e', 'c', 'r'], k.2, decimal args.value.toInt.natAbs] ++ crlf ++ [] := by
  rw [numericRequest, mmcAsciiMutate_text]
  simp [mmcAsciiResetRequest, mmcRequestReset, MmcBuffer.reset]

/-- The extra bytes of the binary command. -/
def MutateArgs.extras (args : MutateArgs) : Bytes :=
  bigEndian 8 args.value.toInt.natAbs ++ bigEndian 8 (args.defval.toInt % 2 ^ 64).toNat
    ++ bigEndian 4 (if args.defvalUsed then args.exptime.toNat else 2 ^ 32 - 1)

theorem numericRequest_binary_bytes (args : MutateArgs) (q : MmcRequest) (k : ZKey × Bytes) :
    (numericRequest .binary args q k).sendbuf.value
      = mmcPackHeader (if args.value.toInt ≥ 0 then MMC_OP_INCR else MMC_OP_DECR) 0 k.2.length
          args.extras.length 0 0 ++ (args.extras ++ k.2) := by
  simp [numericRequest, mmcBinaryMutate, MmcRequest.appendSend, MmcRequest.parseBinary,
    mmcBinaryResetRequest, mmcRequestReset, MmcBuffer.reset, MmcRequest.pushKey, MutateArgs.extras]

theorem MutateArgs.extras_length (args : MutateArgs) : args.extras.length = 20 := by
  simp [extras]

/-- The fields of the extra bytes, as the server reads them. -/
theorem MutateArgs.extras_fields (args : MutateArgs) :
    ofBigEndian (args.extras.take 8) = args.value.toInt.natAbs ∧
      ofBigEndian ((args.extras.drop 8).take 8) = (args.defval.toInt % 2 ^ 64).toNat ∧
      ofBigEndian ((args.extras.drop 16).take 4)
        = if args.defvalUsed then args.exptime.toNat else 2 ^ 32 - 1 := by
  have hvalue := natAbs_toInt_lt args.value
  have hdefval : (args.defval.toInt % 2 ^ 64).toNat < 2 ^ 64 := by omega
  have hexptime : (if args.defvalUsed then args.exptime.toNat else 2 ^ 32 - 1) < 2 ^ 32 := by
    have := args.exptime.toNat_lt
    split <;> omega
  obtain ⟨a, b, c, d, e, f, g, i, ha⟩ := bigEndian_eight args.value.toInt.natAbs
  obtain ⟨a', b', c', d', e', f', g', i', ha'⟩ := bigEndian_eight (args.defval.toInt % 2 ^ 64).toNat
  have hvalue' : ofBigEndian (bigEndian 8 args.value.toInt.natAbs) = args.value.toInt.natAbs := by
    exact ofBigEndian_bigEndian_of_lt 8 hvalue
  have hdefval' : ofBigEndian (bigEndian 8 (args.defval.toInt % 2 ^ 64).toNat)
      = (args.defval.toInt % 2 ^ 64).toNat := by
    exact ofBigEndian_bigEndian_of_lt 8 hdefval
  have hexptime' := @ofBigEndian_bigEndian_of_lt 4 _ hexptime
  obtain ⟨x, y, z, w, hx⟩ := bigEndian_four
    (if args.defvalUsed then args.exptime.toNat else 2 ^ 32 - 1)
  rw [ha] at hvalue'
  rw [ha'] at hdefval'
  rw [hx] at hexptime'
  refine ⟨?_, ?_, ?_⟩
  · rw [extras, ha]
    exact hvalue'
  · rw [extras, ha, ha']
    exact hdefval'
  · rw [extras, ha, ha', hx]
    exact hexptime'

/-- **The server reads the command** in the request of either protocol. -/
theorem serverReads_numericRequest (p : WireProtocol) (args : MutateArgs) (q : MmcRequest)
    {k : ZKey × Bytes} (hplain : Plain k.2) (hne : k.2 ≠ []) (hlen : k.2.length ≤ MMC_MAX_KEY_LEN) :
    serverReads p (numericRequest p args q k).sendbuf.value = some (args.command p k.2) := by
  cases p with
  | ascii =>
    have hword : keyWord k.2 = some k.2 := if_pos hlen
    rw [numericRequest_ascii_text]
    refine (congrArg (·.bind fun p => p.1.toServer)
      ((parseText_mutate args.value.toInt hplain hword).mpr hne)).trans ?_
    rw [Option.bind_some, MutateArgs.command]
    split <;> rfl
  | binary =>
    have hextras := args.extras_length
    obtain ⟨hvalue, hdefval, hexptime⟩ := args.extras_fields
    have hinitial : BinaryFrame.initial
        { opcode := 0, reqid := 0, cas := 0, extras := args.extras, key := k.2, value := [] }
          = args.initial .binary := by
      simp only [BinaryFrame.initial, hexptime, hdefval, MutateArgs.initial]
      by_cases hused : args.defvalUsed = true
      · simp only [hused, if_true, true_and]
        by_cases hexp : args.exptime.toNat = 2 ^ 32 - 1
        · rw [if_pos hexp, if_neg (not_not_intro hexp)]
        · rw [if_neg hexp, if_pos hexp]
      · simp [hused]
    have hinitial' : ∀ opcode, BinaryFrame.initial
        { opcode, reqid := 0, cas := 0, extras := args.extras, key := k.2, value := [] }
          = args.initial .binary := fun _ => hinitial
    rw [serverReads, numericRequest_binary_bytes, MutateArgs.command]
    by_cases hsign : 0 ≤ args.value.toInt
    · rw [if_pos hsign, if_pos hsign, @parseFrame_noValue MMC_OP_INCR args.extras k.2 (by decide)
        (by omega) hlen]
      simp [BinaryFrame.toServer, hinitial', hvalue, MMC_OP_GET, MMC_OP_SET, MMC_OP_DELETE,
        MMC_OP_INCR]
    · rw [if_neg hsign, if_neg hsign, @parseFrame_noValue MMC_OP_DECR args.extras k.2 (by decide)
        (by omega) hlen]
      simp [BinaryFrame.toServer, hinitial', hvalue, MMC_OP_GET, MMC_OP_SET, MMC_OP_DELETE,
        MMC_OP_INCR, MMC_OP_DECR]

/-- The outcomes of an increment. -/
def Outcome.Numeric (o : Outcome) : Prop := (∃ n, o = .number n) ∨ o = .notFound ∨ o = .nonNumeric

/-- The entry a call of a handler of the request for `key` makes. -/
def HandlerCall.multiEntry (key : Bytes) : HandlerCall → Option (Bytes × ArrayValue)
  | .response code _ _ =>
    if code = MMC_OK then some (key ++ [0], .bool true)
    else if code = MMC_RESPONSE_NOT_FOUND ∨ code = MMC_RESPONSE_CLIENT_ERROR then
      some (key ++ [0], .bool false)
    else none
  | call => call.entry

/-- The entries of the calls, each with the server. -/
def callEntries (calls : List (Mmc × Bytes × HandlerCall)) : List (Mmc × Bytes × ArrayValue) :=
  calls.filterMap fun c => (c.2.2.multiEntry c.2.1).map fun e => (c.1, e)

theorem afterMultiCall_eq (key : Bytes) (a : ResultArray) (call : HandlerCall) :
    afterMultiCall key a call
      = (call.multiEntry key).elim a fun e => a.addAssoc e.1 e.2 := by
  cases call with
  | value => rfl
  | long => rfl
  | response response message len =>
    simp only [afterMultiCall, mmcNumericResponseHandlerMulti, HandlerCall.multiEntry]
    split
    · rfl
    · split <;> rfl

theorem foldl_afterMultiCall (calls : List (Mmc × Bytes × HandlerCall)) :
    calls.foldl (fun a c => afterMultiCall c.2.1 a c.2.2) arrayInit
      = writeAll ((callEntries calls).map Prod.snd) := by
  have hfold := foldl_eq_writeAll (fun a (c : Mmc × Bytes × HandlerCall) =>
    afterMultiCall_eq c.2.1 a c.2.2) calls
  refine hfold.trans (congrArg writeAll ?_)
  rw [callEntries, List.map_filterMap]
  refine List.filterMap_congr fun c _ => ?_
  cases c.2.2.multiEntry c.2.1 <;> rfl

/-- The entries of one server come from its calls. -/
theorem callEntries_filter (calls : List (Mmc × Bytes × HandlerCall)) (m : Mmc) :
    (callEntries calls).filter (fun e => e.1 = m) = callEntries (calls.filter fun c => c.1 = m) := by
  induction calls with
  | nil => rfl
  | cons c calls ih =>
    have hcons : callEntries (c :: calls)
        = ((c.2.2.multiEntry c.2.1).map fun e => (c.1, e)).toList ++ callEntries calls := by
      unfold callEntries
      rw [List.filterMap_cons]
      cases c.2.2.multiEntry c.2.1 <;> rfl
    by_cases hm : c.1 = m
    · rw [hcons, List.filter_append, ih, List.filter_cons_of_pos (by simpa using hm)]
      unfold callEntries
      rw [List.filterMap_cons]
      cases c.2.2.multiEntry c.2.1 <;> simp [hm]
    · rw [hcons, List.filter_append, ih, List.filter_cons_of_neg (by simpa using hm)]
      cases c.2.2.multiEntry c.2.1 <;> simp [hm]

/-- A request whose reply leads to one call, which makes one entry. -/
def OneEntry (unpack : Nat → Bytes → Option Bytes) (key : Bytes) (w : Wire)
    (entry : Bytes × ArrayValue) : Prop :=
  ∃ call, HandlerCall.multiEntry key call = some entry ∧
    ∀ calls result rest, Sees (numericHandlers unpack key) w calls result rest ↔
      result = .done ∧ [call] = calls ∧ [] = rest

/-- A request for the key `k` that waits for the reply to an increment. -/
structure AwaitsNumber (p : WireProtocol) (k : ZKey × Bytes) (req : MmcRequest) : Prop where
  readbuf : req.readbuf = {}
  key : req.key.take req.keyLen = k.2
  ascii : p = .ascii → req.parse = some .asciiParseMutate
  binary : p = .binary → req.parse = some .binaryParseResponse ∧
    req.bin.nextParseHandler = some .binaryReadMutate ∧ req.bin.keys = [k.1]

/-- The call of a handler that an outcome leads to: the value handler enters a number, a refusal is left
    to the response handler. -/
inductive HandlerCall.Reports (p : WireProtocol) (k : ZKey × Bytes) : Outcome → HandlerCall → Prop
  | number {n : UInt64} {v : Int} {flags cas : Nat}
      (h : numericEntry p k (.number n) = (resultKey p k, .long v)) :
      HandlerCall.Reports p k (.number n) (.long (resultKey p k) v flags cas)
  | refusal {o : Outcome} {response : Int} {message : Bytes} {len : Nat}
      (ho : o = .notFound ∨ o = .nonNumeric)
      (h : response = MMC_RESPONSE_NOT_FOUND ∨ response = MMC_RESPONSE_CLIENT_ERROR) :
      HandlerCall.Reports p k o (.response response message len)

theorem HandlerCall.Reports.multiEntry {p : WireProtocol} {k : ZKey × Bytes} {o : Outcome}
    {call : HandlerCall} (h : call.Reports p k o) :
    call.multiEntry k.2 = some (numericEntry p k o) := by
  cases h with
  | number h =>
    rw [h]
    rfl
  | refusal ho h =>
    rcases ho with rfl | rfl <;> rcases h with rfl | rfl <;> rfl

/-- A request whose reply leads to one call, which reports the outcome. -/
def OneReport (unpack : Nat → Bytes → Option Bytes) (key : Bytes) (w : Wire) (p : WireProtocol)
    (k : ZKey × Bytes) (o : Outcome) : Prop :=
  ∃ call : HandlerCall, call.Reports p k o ∧
    ∀ calls result rest, Sees (numericHandlers unpack key) w calls result rest ↔
      result = .done ∧ [call] = calls ∧ [] = rest

section Replies

variable {unpack : Nat → Bytes → Option Bytes} {args : MutateArgs} {key : Bytes} {req : MmcRequest}
  {k : ZKey × Bytes} {io : MmcStream} {chunks : List Bytes} {o : Outcome}

/-- A refusal in the text protocol. -/
theorem oneReport_line (h : AwaitsNumber .ascii k req) (hio : io.input = [])
    (ho : o = .notFound ∨ o = .nonNumeric) (line : Bytes) (hline : ShortLine (line ++ [13]))
    (hc : chunks.flatten = line ++ crlf)
    (hresponse : mmcRequestCheckResponse (line ++ [13] ++ [10]) = MMC_RESPONSE_NOT_FOUND ∨
      mmcRequestCheckResponse (line ++ [13] ++ [10]) = MMC_RESPONSE_CLIENT_ERROR) :
    OneReport unpack key { io, chunks, req } .ascii k o := by
  have hdone : (numericHandlers unpack key).ofLine (line ++ [13] ++ [10]) = .done := by
    simp only [Handlers.ofLine, numericHandlers]
    rcases hresponse with h | h <;> rw [h] <;> rfl
  refine ⟨lineCall (line ++ [13] ++ [10]), .refusal ho hresponse, ?_⟩
  intro calls result rest
  have hchunks : chunks.flatten = line ++ [13] ++ [10] ++ [] := by simpa [crlf] using hc
  rw [sees_asciiMutate_iff hline (w := { io, chunks, req }) ⟨hio, Or.inl h.readbuf⟩ (h.ascii rfl)
    hchunks (by rcases hresponse with h | h <;> rw [h] <;> decide) (by rw [hdone]; decide), hdone]
  exact Iff.rfl

/-- **The reply in the text protocol** leads to a call for the outcome. -/
theorem oneReport_ascii (h : AwaitsNumber .ascii k req) (hio : io.input = []) (ho : o.Numeric)
    (hc : chunks.flatten = args.reply .ascii (args.command .ascii k.2) o) :
    OneReport unpack key { io, chunks, req } .ascii k o := by
  have hreply : args.reply .ascii (args.command .ascii k.2) o
      = textReply false (.incr k.2 0 none) o := by
    unfold MutateArgs.reply MutateArgs.command
    dsimp only
    split <;> cases o <;> rfl
  rw [hreply] at hc
  rcases ho with ⟨n, rfl⟩ | rfl | rfl
  · refine ⟨.long k.2 (strtol false n.toNat) 0 0, .number rfl, fun calls result rest => ?_⟩
    have hsees := @sees_asciiNumber_iff (numericHandlers unpack key) { io, chunks, req } n.toNat
      n.toNat_lt [] ⟨hio, Or.inl h.readbuf⟩ (h.ascii rfl) (by rw [List.append_nil]; exact hc) calls
      result rest
    rw [h.key] at hsees
    exact hsees
  · exact oneReport_line h hio (Or.inl rfl) (bytes ['N', 'O', 'T', '_', 'F', 'O', 'U', 'N', 'D'])
      ⟨by decide, by decide⟩ hc (Or.inl rfl)
  · exact oneReport_line h hio (Or.inr rfl)
      (bytes "CLIENT_ERROR cannot increment or decrement non-numeric value".toList)
      ⟨by decide, by decide⟩ hc (Or.inr rfl)

theorem mutateOpcode (value : Int) : (if value ≥ 0 then MMC_OP_INCR else MMC_OP_DECR) < 256 ∧
    (if value ≥ 0 then MMC_OP_INCR else MMC_OP_DECR) ≠ MMC_OP_NOOP := by
  split <;> decide

theorem AwaitsNumber.awaitsHeader (h : AwaitsNumber .binary k req) (hio : io.input = []) :
    AwaitsHeader .binaryReadMutate { io, chunks, req } :=
  ⟨(h.binary rfl).1, (h.binary rfl).2.1, hio, h.readbuf⟩

/-- A refusal in the binary protocol. -/
theorem oneReport_status (h : AwaitsNumber .binary k req) (hio : io.input = [])
    (ho : o = .notFound ∨ o = .nonNumeric) (status : Nat) (text : Bytes) (hstatus : status < 2 ^ 16)
    (htext : text.length < 2 ^ 32) (hrefused : status = 0 → text = [])
    (hc : chunks.flatten
      = responseHeader (if args.value.toInt ≥ 0 then MMC_OP_INCR else MMC_OP_DECR) 0 status text.length
          0 0 ++ text)
    (hresponse : (binaryError status : Int) = MMC_RESPONSE_NOT_FOUND ∨
      (binaryError status : Int) = MMC_RESPONSE_CLIENT_ERROR) :
    OneReport unpack key { io, chunks, req } .binary k o := by
  have hdone : (numericHandlers unpack key).respond (binaryError status) text text.length = .done := by
    simp only [numericHandlers]
    rcases hresponse with h | h <;> rw [h] <;> rfl
  obtain ⟨hopcode, hnoop⟩ := mutateOpcode args.value.toInt
  refine ⟨.response (binaryError status) text text.length, .refusal ho hresponse, ?_⟩
  intro calls result rest
  rw [← List.append_nil (_ ++ text)] at hc
  rw [(h.awaitsHeader hio).sees_status_iff hopcode hnoop hstatus (by decide : 0 < 2 ^ 32) htext hrefused
    hc (by rw [hdone]; decide), hdone]
  exact Iff.rfl

/-- **The reply in the binary protocol** leads to a call for the outcome. -/
theorem oneReport_binary (h : AwaitsNumber .binary k req) (hio : io.input = []) (ho : o.Numeric)
    (hc : chunks.flatten = args.reply .binary (args.command .binary k.2) o) :
    OneReport unpack key { io, chunks, req } .binary k o := by
  have hreply : args.reply .binary (args.command .binary k.2) o
      = binaryReply (if args.value.toInt ≥ 0 then MMC_OP_INCR else MMC_OP_DECR) 0 (.incr k.2 0 none) o := by
    unfold MutateArgs.reply MutateArgs.command
    dsimp only
    split <;> cases o <;> rfl
  rw [hreply] at hc
  rcases ho with ⟨n, rfl⟩ | rfl | rfl
  · obtain ⟨hopcode, hnoop⟩ := mutateOpcode args.value.toInt
    refine ⟨.long k.1.str (zendLong n.toNat) req.bin.flags 0, .number rfl, fun calls result rest => ?_⟩
    have hsees := (h.awaitsHeader hio).sees_number_iff (H := numericHandlers unpack key) hopcode hnoop
      (by decide : 0 < 2 ^ 32) n.toNat_lt (by rw [List.append_nil]; exact hc) calls result rest
    have hkeys : req.bin.keys = [k.1] := (h.binary rfl).2.2
    dsimp only at hsees
    rw [hkeys] at hsees
    exact hsees
  · exact oneReport_status h hio (Or.inl rfl) 1 (bytes "Not found".toList) (by decide) (by decide)
      (by decide) hc (Or.inl rfl)
  · exact oneReport_status h hio (Or.inr rfl) 6
      (bytes "Non-numeric server-side value for incr or decr".toList) (by decide) (by decide)
      (by decide) hc (Or.inr rfl)

/-- **One reply** leads to one call, under either protocol. -/
theorem oneReport {p : WireProtocol} (h : AwaitsNumber p k req) (hio : io.input = []) (ho : o.Numeric)
    (hc : chunks.flatten = args.reply p (args.command p k.2) o) :
    OneReport unpack key { io, chunks, req } p k o := by
  cases p with
  | ascii => exact oneReport_ascii h hio ho hc
  | binary => exact oneReport_binary h hio ho hc

theorem awaitsNumber_numericRequest (p : WireProtocol) (args : MutateArgs) (q : MmcRequest)
    (k : ZKey × Bytes) : AwaitsNumber p k (numericRequest p args q k).rewind := by
  cases p with
  | ascii => exact ⟨rfl, List.take_length, fun _ => rfl, fun h => by cases h⟩
  | binary => exact ⟨rfl, List.take_length, (fun h => by cases h), fun _ => ⟨rfl, rfl, rfl⟩⟩

/-- **One request**: the reply makes the entry of the outcome, under either protocol. -/
theorem oneEntry (p : WireProtocol) {q : MmcRequest} (hio : io.input = []) (ho : o.Numeric)
    (hc : chunks.flatten = args.reply p (args.command p k.2) o) :
    OneEntry unpack k.2 { io, chunks, req := (numericRequest p args q k).rewind }
      (numericEntry p k o) := by
  obtain ⟨call, hreports, hsees⟩ :=
    @oneReport unpack args k.2 _ k io chunks o p (awaitsNumber_numericRequest p args q k) hio ho hc
  exact ⟨call, hreports.multiEntry, hsees⟩

end Replies

/-! ## All requests -/

section Run

variable {p : WireProtocol} {unpack : Nat → Bytes → Option Bytes} {keyPrefix : Bytes}
  {findServer : Bytes → Mmc} {args : MutateArgs}

/-- **All requests**: the calls make the entries of the valid keys, in this order. -/
theorem increments_makes {servers : Mmc → Memcached} {keys : List ZKey} (h : KeysFit keyPrefix keys) :
    (∃ calls, Increments p unpack keyPrefix findServer args servers keys calls) ∧
      ∀ calls, Increments p unpack keyPrefix findServer args servers keys calls →
        callEntries calls = numericEntries p findServer args servers (validKeys keyPrefix keys) := by
  induction keys generalizing servers with
  | nil =>
    refine ⟨⟨[], .nil⟩, fun calls hrun => ?_⟩
    cases hrun
    rfl
  | cons zkey keys ih =>
    cases hprepare : mmcPrepareKeyEx zkey.str keyPrefix with
    | none =>
      obtain ⟨⟨calls, hcalls⟩, hmakes⟩ := @ih servers h.tail
      rw [validKeys_cons_none hprepare]
      refine ⟨⟨calls, .invalid hprepare hcalls⟩, fun calls hrun => ?_⟩
      cases hrun with
      | invalid _ hnext => exact hmakes _ hnext
      | answered hprepared =>
        rw [hprepare] at hprepared
        cases hprepared
    | some key =>
      have hcons := validKeys_cons_some keys hprepare
      obtain ⟨hplain, hne, hlen⟩ := h.sent (hcons ▸ List.mem_cons_self)
      have hread := fun q => @serverReads_numericRequest p args q (zkey, key) hplain hne hlen
      have hnumeric : ((servers (findServer key)).execute (args.command p key)).1.Numeric :=
        args.outcome p _ key
      obtain ⟨⟨later, hlater⟩, hmakes⟩ := @ih (Function.update servers (findServer key)
        ((servers (findServer key)).execute (args.command p key)).2) h.tail
      rw [hcons]
      constructor
      · have hwhole : [args.reply p (args.command p key)
            ((servers (findServer key)).execute (args.command p key)).1].flatten
              = args.reply p (args.command p key)
                ((servers (findServer key)).execute (args.command p key)).1 := by simp
        obtain ⟨call, -, hsees⟩ := @oneEntry unpack args (zkey, key) {} _ _ p {} rfl hnumeric hwhole
        exact ⟨_, .answered hprepare rfl (hread {}) hwhole
          ((hsees _ _ _).mpr ⟨rfl, rfl, rfl⟩) hlater⟩
      · intro calls hrun
        cases hrun with
        | invalid hrefused =>
          rw [hprepare] at hrefused
          cases hrefused
        | @answered _ _ key' _ q io chunks c calls result rest later hprepared hio hreads hreply hsees
            hnext =>
          rw [hprepare] at hprepared
          cases hprepared
          rw [hread q] at hreads
          cases hreads
          obtain ⟨call, hentry, hiff⟩ := @oneEntry unpack args (zkey, key) io chunks _ p q hio hnumeric
            hreply
          obtain ⟨-, rfl, -⟩ := (hiff calls result rest).mp hsees
          have hlater := hmakes _ hnext
          unfold callEntries at hlater ⊢
          simp only [List.map_cons, List.map_nil, List.singleton_append, List.filterMap_cons, hentry,
            Option.map_some, hlater, numericEntries]

/-- The array when the replies come in the order of the requests. -/
theorem multiIncrement_inOrder {servers : Mmc → Memcached} {keys : List ZKey}
    (h : KeysFit keyPrefix keys) :
    MultiIncrement p unpack keyPrefix findServer args servers keys
      (writeAll ((numericEntries p findServer args servers (validKeys keyPrefix keys)).map Prod.snd)) := by
  obtain ⟨⟨calls, hcalls⟩, hmakes⟩ :=
    @increments_makes p unpack keyPrefix findServer args servers keys h
  refine ⟨calls, calls, hcalls, fun _ => rfl, ?_⟩
  rw [foldl_afterMultiCall, hmakes calls hcalls]

/-- **A multi-key increment** returns the entries of the outcomes, which for every server are in the
    order of the keys. -/
theorem MultiIncrement.entries {servers : Mmc → Memcached} {keys : List ZKey} {array : ResultArray}
    (h : KeysFit keyPrefix keys)
    (hrun : MultiIncrement p unpack keyPrefix findServer args servers keys array) :
    ∃ entries : List (Mmc × Bytes × ArrayValue), array = writeAll (entries.map Prod.snd) ∧
      ∀ m, (numericEntries p findServer args servers (validKeys keyPrefix keys)).filter
        (fun e => e.1 = m) = entries.filter fun e => e.1 = m := by
  obtain ⟨-, hmakes⟩ := @increments_makes p unpack keyPrefix findServer args servers keys h
  obtain ⟨calls, order, hcalls, horder, rfl⟩ := hrun
  refine ⟨callEntries order, foldl_afterMultiCall order, fun m => ?_⟩
  rw [← hmakes calls hcalls, callEntries_filter, callEntries_filter, horder]

end Run

end PeclMemcache
