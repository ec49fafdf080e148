import PeclMemcache.Parsers
import PeclMemcache.Pool

set_option autoImplicit false

/-! # Replaying a request on another server

When a request fails, its failover handler schedules the same object on another server.
`mmc_pool_schedule` rewinds the command and empties the read buffer; the parse handler and what the
parsers remember stay as the old response left them. This file says exactly when the response of the
new server is parsed like the response to a command that was just built. -/

namespace PeclMemcache

/-! ## Commands -/

/-- The commands a request can be built for. -/
inductive Command
  | asciiGet (op : MmcOp) (keys : List Bytes)
  | asciiStore (op : MmcOp) (key : Bytes) (exptime cas : Nat) (packed : Option (Bytes × Nat))
  | asciiDelete (key : Bytes) (exptime : Nat)
  | asciiMutate (key : Bytes) (value : Int)
  | asciiFlush (exptime : Nat)
  | asciiVersion
  | asciiStats (type : Option Bytes) (slabid limit : Int)
  | binaryGets (keys : List (ZKey × Bytes))
  | binaryGet (zkey : ZKey) (key : Bytes)
  | binaryStore (op : MmcOp) (key : Bytes) (exptime cas : Nat) (packed : Option (Bytes × Nat))
  | binaryDelete (key : Bytes)
  | binaryMutate (zkey : ZKey) (key : Bytes) (value defval : Int) (used : Bool) (exptime : Nat)
  | binaryFlush
  | binaryVersion
  | binaryStats
  | binarySasl (user password : Bytes)

/-- A request taken from the pool, with the command built in it. -/
def Command.build (q : MmcRequest) : Command → MmcRequest
  | .asciiGet op keys =>
    mmcAsciiEndGet (keys.foldl mmcAsciiAppendGet (mmcAsciiBeginGet (mmcAsciiResetRequest q) op))
  | .asciiStore op key exptime cas packed =>
    (mmcAsciiStore (mmcAsciiResetRequest q) op key exptime cas packed).2
  | .asciiDelete key exptime => mmcAsciiDelete (mmcAsciiResetRequest q) key exptime
  | .asciiMutate key value => mmcAsciiMutate (mmcAsciiResetRequest q) key value
  | .asciiFlush exptime => mmcAsciiFlush (mmcAsciiResetRequest q) exptime
  | .asciiVersion => mmcAsciiVersion (mmcAsciiResetRequest q)
  | .asciiStats type slabid limit => mmcAsciiStats (mmcAsciiResetRequest q) type slabid limit
  | .binaryGets keys =>
    mmcBinaryEndGet (keys.foldl (fun q k => mmcBinaryAppendGet q k.1 k.2)
      (mmcBinaryBeginGet (mmcBinaryResetRequest q)))
  | .binaryGet zkey key => mmcBinaryGet (mmcBinaryResetRequest q) zkey key
  | .binaryStore op key exptime cas packed =>
    (mmcBinaryStore (mmcBinaryResetRequest q) op key exptime cas packed).2
  | .binaryDelete key => mmcBinaryDelete (mmcBinaryResetRequest q) key
  | .binaryMutate zkey key value defval used exptime =>
    mmcBinaryMutate (mmcBinaryResetRequest q) zkey key value defval used exptime
  | .binaryFlush => mmcBinaryFlush (mmcBinaryResetRequest q)
  | .binaryVersion => mmcBinaryVersion (mmcBinaryResetRequest q)
  | .binaryStats => mmcBinaryStats (mmcBinaryResetRequest q)
  | .binarySasl user password => mmcSetSaslAuthData (mmcBinaryResetRequest q) user password

/-- The parsers a built request starts with. -/
inductive Initial (q : MmcRequest) : Prop
  | response (parse : q.parse = some .asciiParseResponse)
  | mutate (parse : q.parse = some .asciiParseMutate)
  | value (parse : q.parse = some .asciiParseValue)
  | binary (parse : q.parse = some .binaryParseResponse)
      (next : q.bin.nextParseHandler = some .binaryParseValue ∨
        q.bin.nextParseHandler = some .binaryReadMutate ∨
        q.bin.nextParseHandler = some .binaryReadResponse)

@[simp]
theorem MmcRequest.appendSend_parse (q : MmcRequest) (b : Bytes) :
    (q.appendSend b).parse = q.parse := rfl

@[simp]
theorem MmcRequest.appendSend_bin (q : MmcRequest) (b : Bytes) : (q.appendSend b).bin = q.bin := rfl

theorem foldl_mmcAsciiAppendGet_parse (keys : List Bytes) (q : MmcRequest) :
    (keys.foldl mmcAsciiAppendGet q).parse = q.parse := by
  induction keys generalizing q with
  | nil => rfl
  | cons key rest ih => rw [List.foldl_cons, ih]; rfl

theorem mmcBinaryAppendGet_parse (q : MmcRequest) (zkey : ZKey) (key : Bytes) :
    (mmcBinaryAppendGet q zkey key).parse = q.parse ∧
      (mmcBinaryAppendGet q zkey key).bin.nextParseHandler = q.bin.nextParseHandler := by
  unfold mmcBinaryAppendGet MmcRequest.pushKey
  split <;> exact ⟨rfl, rfl⟩

theorem foldl_mmcBinaryAppendGet_parse (keys : List (ZKey × Bytes)) (q : MmcRequest) :
    (keys.foldl (fun q k => mmcBinaryAppendGet q k.1 k.2) q).parse = q.parse ∧
      (keys.foldl (fun q k => mmcBinaryAppendGet q k.1 k.2) q).bin.nextParseHandler
        = q.bin.nextParseHandler := by
  induction keys generalizing q with
  | nil => exact ⟨rfl, rfl⟩
  | cons key rest ih =>
    obtain ⟨hparse, hnext⟩ := mmcBinaryAppendGet_parse q key.1 key.2
    rw [List.foldl_cons, (ih _).1, (ih _).2]
    exact ⟨hparse, hnext⟩

theorem MmcRequest.pushKey_parse (q : MmcRequest) (zkey : ZKey) :
    (q.pushKey zkey).parse = q.parse ∧
      (q.pushKey zkey).bin.nextParseHandler = q.bin.nextParseHandler := by
  unfold pushKey
  split <;> exact ⟨rfl, rfl⟩

/-- Every command starts with one of the initial parsers. -/
theorem Command.build_initial (c : Command) (q : MmcRequest) : Initial (c.build q) := by
  cases c with
  | asciiGet op keys =>
    refine .value ?_
    simp only [build, mmcAsciiEndGet, MmcRequest.appendSend_parse, foldl_mmcAsciiAppendGet_parse]
    unfold mmcAsciiBeginGet
    dsimp only
    split <;> rfl
  | asciiStore op key exptime cas packed =>
    refine .response ?_
    simp only [build, mmcAsciiStore]
    split <;> rfl
  | asciiDelete key exptime => exact .response rfl
  | asciiMutate key value => exact .mutate rfl
  | asciiFlush exptime => exact .response rfl
  | asciiVersion => exact .response rfl
  | asciiStats type slabid limit =>
    refine .response ?_
    simp only [build, mmcAsciiStats]
    split
    · rfl
    · split <;> rfl
  | binaryGets keys =>
    obtain ⟨hparse, hnext⟩ := foldl_mmcBinaryAppendGet_parse keys
      (mmcBinaryBeginGet (mmcBinaryResetRequest q))
    exact .binary hparse (Or.inl hnext)
  | binaryGet zkey key =>
    obtain ⟨hparse, hnext⟩ := MmcRequest.pushKey_parse _ zkey
    exact .binary hparse (Or.inl hnext)
  | binaryStore op key exptime cas packed =>
    cases packed with
    | none => exact .binary rfl (Or.inr (Or.inr rfl))
    | some p => exact .binary rfl (Or.inr (Or.inr rfl))
  | binaryDelete key => exact .binary rfl (Or.inr (Or.inr rfl))
  | binaryMutate zkey key value defval used exptime =>
    obtain ⟨hparse, hnext⟩ := MmcRequest.pushKey_parse _ zkey
    exact .binary hparse (Or.inr (Or.inl hnext))
  | binaryFlush => exact .binary rfl (Or.inr (Or.inr rfl))
  | binaryVersion => exact .binary rfl (Or.inr (Or.inr rfl))
  | binaryStats => exact .binary rfl (Or.inr (Or.inr rfl))
  | binarySasl user password => exact .binary rfl (Or.inr (Or.inr rfl))

/-! ## Parsing a response -/

/-- The parser calls on a stream, up to `n` of them: the result of each, the handler calls made so
    far and the data that is left. -/
def observe (H : Handlers) : Nat → Wire → List (MmcResult × List HandlerCall × List Bytes)
  | 0, _ => []
  | n + 1, w =>
    match parseRequest H w with
    | none => []
    | some (result, w') => (result, w'.calls, w'.chunks) ::
        if result = .more ∨ result = .again then observe H n w' else []

/-- The states a request can be in while parts of its response arrive. -/
inductive Received (H : Handlers) (q : MmcRequest) : MmcRequest → Prop
  | start : Received H q q
  | call {w w' : Wire} {result : MmcResult} : Received H q w.req →
      parseRequest H w = some (result, w') → result = .more ∨ result = .again →
      Received H q w'.req

/-- The states in which a request can be failed over: its connection died, or its parser made of the
    response that the server or the connection is not usable. -/
inductive FailedAfter (H : Handlers) (q : MmcRequest) : MmcRequest → Prop
  | connection {p : MmcRequest} : Received H q p → FailedAfter H q p
  | response {w w' : Wire} {result : MmcResult} : Received H q w.req →
      parseRequest H w = some (result, w') → result = .retry ∨ result = .failure →
      FailedAfter H q w'.req

/-- Rescheduling `p` makes its next response be parsed like that of `q`, on every stream. -/
def ReplaysAs (q p : MmcRequest) : Prop :=
  ∀ H io chunks n, io.input = [] →
    observe H n { io, chunks, req := p.rewind } = observe H n { io, chunks, req := q.rewind }

/-! ## Requests that parse alike -/

/-- Everything of two binary requests that was read from a header, except the flags. -/
def BinaryFields.SameHeader (a b : BinaryFields) : Prop := { a with flags := 0 } = { b with flags := 0 }

/-- What the parsers from here on depend on. -/
def SameParse (q p : MmcRequest) : Prop :=
  q.parse = p.parse ∧ q.readbuf = p.readbuf ∧ q.key = p.key ∧ q.keyLen = p.keyLen ∧
    match q.parse with
    | some .asciiParseValue => q.value.cas = p.value.cas
    | some .asciiReadValue => q.value = p.value
    | some .binaryParseResponse =>
      q.bin.keys = p.bin.keys ∧ q.bin.nextParseHandler = p.bin.nextParseHandler ∧
        (q.bin.nextParseHandler = some .binaryParseValue ∨
          q.bin.nextParseHandler = some .binaryReadMutate ∧ q.bin.flags = p.bin.flags ∨
          q.bin.nextParseHandler = some .binaryReadResponse)
    | some .binaryParseValue =>
      q.bin.SameHeader p.bin ∧ q.bin.nextParseHandler = some .binaryParseValue
    | some .binaryReadResponse => q.bin.SameHeader p.bin
    | some .binaryReadValue =>
      q.bin = p.bin ∧ q.bin.nextParseHandler = some .binaryParseValue
    | some .binaryReadMutate => q.bin = p.bin
    | _ => True

/-- `runHandler` on the same stream with a request that parses alike: the same result, the same
    stream, and requests that still parse alike if the parser goes on. -/
def StepsAlike (H : Handlers) (w : Wire) (p : MmcRequest) (handler : ParseHandler) : Prop :=
  ∃ p', runHandler H (w.withReq p) handler
      = ((runHandler H w handler).1, (runHandler H w handler).2.withReq p') ∧
    ((runHandler H w handler).1 = .more ∨ (runHandler H w handler).1 = .again →
      SameParse (runHandler H w handler).2.req p')

/-- The length of a `VALUE` line is only read behind a key and flags. -/
theorem scanValueHeader_of_length {line : Bytes} (h : (scanValueHeader line).2.2.1.isSome) :
    (scanValueHeader line).1.isSome ∧ (scanValueHeader line).2.1.isSome := by
  unfold scanValueHeader at h ⊢
  dsimp only at h ⊢
  split at h
  · simp at h
  · next hword =>
      rw [if_neg hword]
      split at h
      · simp at h
      · split at h
        · simp at h
        · split at h <;> simp_all

theorem stepsAlike_asciiParseResponse (H : Handlers) {w : Wire} {p : MmcRequest}
    (h : SameParse w.req p) : StepsAlike H w p .asciiParseResponse := by
  refine ⟨p, ?_, fun _ => ?_⟩
  · rcases hline : mmcStreamGetLine w with ⟨_ | line, w'⟩ <;>
      simp only [runHandler, asciiParseResponse, mmcStreamGetLine_withReq, hline,
        Wire.respond_withReq]
  · simp only [runHandler, asciiParseResponse_req]
    exact h

theorem stepsAlike_asciiParseMutate (H : Handlers) {w : Wire} {p : MmcRequest}
    (h : SameParse w.req p) : StepsAlike H w p .asciiParseMutate := by
  refine ⟨p, ?_, fun _ => ?_⟩
  · have hreq := mmcStreamGetLine_req w
    rcases hline : mmcStreamGetLine w with ⟨_ | line, w'⟩
    · simp only [runHandler, asciiParseMutate, mmcStreamGetLine_withReq, hline]
    · replace hreq : w'.req = w.req := by simpa [hline] using hreq
      simp only [runHandler, asciiParseMutate, mmcStreamGetLine_withReq, hline,
        Wire.respond_withReq, Wire.failure_withReq]
      split
      · rfl
      · -- The value handler gets the key, which is the same.
        split
        · rfl
        · simp only [Wire.withReq, hreq, h.2.2.1, h.2.2.2.1]
  · simp only [runHandler, asciiParseMutate_req]
    exact h

/-- A complete `VALUE` line leaves two requests that agree on the CAS token with the same value. -/
theorem AsciiValue.scan_eq {a b : AsciiValue} {line : Bytes} (hcas : a.cas = b.cas)
    (h : ¬ (scanValueHeader line).2.2.1.isNone) : a.scan line = b.scan line := by
  have hlength : (scanValueHeader line).2.2.1.isSome :=
    Option.isSome_iff_ne_none.mpr (by simpa using h)
  obtain ⟨hkey, hflags⟩ := scanValueHeader_of_length hlength
  obtain ⟨key, hkey⟩ := Option.isSome_iff_exists.mp hkey
  obtain ⟨flags, hflags⟩ := Option.isSome_iff_exists.mp hflags
  obtain ⟨length, hlength⟩ := Option.isSome_iff_exists.mp hlength
  simp only [scan, hkey, hflags, hlength, hcas, Option.getD_some]

theorem stepsAlike_asciiParseValue (H : Handlers) {w : Wire} {p : MmcRequest}
    (hw : w.req.parse = some .asciiParseValue) (h : SameParse w.req p) :
    StepsAlike H w p .asciiParseValue := by
  have hreq := mmcStreamGetLine_req w
  unfold StepsAlike
  simp only [runHandler, asciiParseValue, mmcStreamGetLine_withReq]
  rcases hline : mmcStreamGetLine w with ⟨_ | line, w'⟩
  · exact ⟨p, rfl, fun _ => by simpa [hline, ← hreq] using h⟩
  · replace hreq : w'.req = w.req := by simpa [hline] using hreq
    obtain ⟨hparse, hreadbuf, hkey, hkeyLen, hcas⟩ := id h
    simp only [hw] at hcas
    dsimp only
    by_cases hend : mmcStrLeft line (bytes ['E', 'N', 'D'])
    · simp only [if_pos hend]
      exact ⟨p, rfl, fun hgo => by simp at hgo⟩
    · simp only [if_neg hend]
      by_cases hlength : (scanValueHeader line).2.2.1.isNone
      · simp only [if_pos hlength]
        refine ⟨{ p with value := p.value.scan line }, rfl, fun hgo => ?_⟩
        obtain hfail | hfail := Wire.failure_result
          { w' with req := { w'.req with value := w'.req.value.scan line } } <;>
          simp [hfail] at hgo
      · simp only [if_neg hlength, Wire.withReq_req, hreq]
        refine ⟨{ p with value := p.value.scan line, parse := some .asciiReadValue }, rfl,
          fun _ => ⟨rfl, hreadbuf, hkey, hkeyLen, ?_⟩⟩
        exact AsciiValue.scan_eq hcas hlength

theorem stepsAlike_asciiReadValue (H : Handlers) {w : Wire} {p : MmcRequest}
    (hw : w.req.parse = some .asciiReadValue) (h : SameParse w.req p) :
    StepsAlike H w p .asciiReadValue := by
  obtain ⟨hparse, hreadbuf, hkey, hkeyLen, hvalue⟩ := h
  simp only [hw] at hvalue
  unfold StepsAlike
  simp only [runHandler, asciiReadValue, Wire.withReq_req, ← hvalue, ← hreadbuf,
    readBody_withReq _ w hreadbuf.symm]
  split
  · refine ⟨{ p with
      value := w.req.value, parse := some .asciiParseValue, readbuf := w.req.readbuf.reset },
      ?_, fun _ => ?_⟩
    · rw [← Wire.unpackValue_withReq]
      rfl
    · rw [Wire.unpackValue_req]
      exact ⟨rfl, rfl, hkey, hkeyLen, rfl⟩
  · refine ⟨_, rfl, fun _ => ⟨hparse, rfl, hkey, hkeyLen, ?_⟩⟩
    simp only [readBody_parse, hw]
    rfl

theorem BinaryFields.accept_sameHeader {a b : BinaryFields} (h : ResponseHeader)
    (hkeys : a.keys = b.keys) (hnext : a.nextParseHandler = b.nextParseHandler) :
    (a.accept h).SameHeader (b.accept h) := by
  simp [SameHeader, accept, hkeys, hnext]

theorem stepsAlike_binaryParseResponse (H : Handlers) {w : Wire} {p : MmcRequest}
    (hw : w.req.parse = some .binaryParseResponse) (h : SameParse w.req p) :
    StepsAlike H w p .binaryParseResponse := by
  have hreq := mmcStreamGet_req binaryHeaderSize w
  obtain ⟨hparse, hreadbuf, hkey, hkeyLen, hfields⟩ := id h
  simp only [hw] at hfields
  obtain ⟨hkeys, hnext, hcase⟩ := hfields
  unfold StepsAlike
  simp only [runHandler]
  rcases hget : mmcStreamGet binaryHeaderSize w with ⟨_ | b, w'⟩
  · refine ⟨p, ?_, fun _ => ?_⟩ <;>
      simp only [binaryParseResponse, mmcStreamGet_withReq, hget]
    replace hreq : w'.req = w.req := by simpa [hget] using hreq
    exact hreq ▸ h
  · replace hreq : w'.req = w.req := by simpa [hget] using hreq
    have hget' : mmcStreamGet binaryHeaderSize (w.withReq p) = (some b, w'.withReq p) := by
      rw [mmcStreamGet_withReq, hget]
    by_cases hannounces : (ResponseHeader.ofBytes b).announcesValue
    · rw [binaryParseResponse_announcesValue H hget hannounces,
        binaryParseResponse_announcesValue H hget' hannounces]
      refine ⟨_, rfl, fun _ => ?_⟩
      simp only [Wire.withReq_req, hreq, SameParse, hreadbuf, hkey, hkeyLen, true_and]
      rcases hcase with hvalue | ⟨hmutate, hflags⟩ | hresponse
      · refine ⟨hnext, ?_⟩
        simp [hvalue, BinaryFields.SameHeader, BinaryFields.accept, hkeys, ← hnext]
      · refine ⟨hnext, ?_⟩
        simp [hmutate, BinaryFields.accept, hkeys, hflags, ← hnext]
      · refine ⟨hnext, ?_⟩
        simp [hresponse, BinaryFields.SameHeader, BinaryFields.accept, hkeys, ← hnext]
    · simp only [binaryParseResponse, hget, hget', Wire.failure_withReq]
      by_cases hmagic : (ResponseHeader.ofBytes b).magic ≠ MMC_RESPONSE_MAGIC
      · simp only [if_pos hmagic]
        exact ⟨p, rfl, fun _ => by rw [Wire.failure_req, hreq]; exact h⟩
      · simp only [if_neg hmagic]
        by_cases hnoop : (ResponseHeader.ofBytes b).opcode = MMC_OP_NOOP
        · simp only [if_pos hnoop]
          exact ⟨p, rfl, fun _ => hreq ▸ h⟩
        · simp only [if_neg hnoop]
          by_cases hbody : (ResponseHeader.ofBytes b).totalBodyLength = 0
          · simp only [if_pos hbody]
            refine ⟨{ p with bin := p.bin.accept (ResponseHeader.ofBytes b) }, ?_, fun _ => ?_⟩
            · rw [← Wire.respond_withReq]
              rfl
            · rw [Wire.respond_req]
              rw [hreq]
              refine ⟨hparse, hreadbuf, hkey, hkeyLen, ?_⟩
              simp only [hw]
              exact ⟨hkeys, hnext, hcase⟩
          · simp only [if_neg hbody]
            have herror : binaryError (ResponseHeader.ofBytes b).status ≠ 0 := fun herror =>
              hannounces ⟨not_not.mp hmagic, hnoop, hbody, herror⟩
            simp only [if_pos herror]
            refine ⟨{ p with
              parse := some .binaryReadResponse, bin := p.bin.accept (ResponseHeader.ofBytes b) },
              rfl, fun _ => ⟨rfl, ?_, ?_, ?_, ?_⟩⟩
            · rw [hreq, hreadbuf]
            · rw [hreq, hkey]
            · rw [hreq, hkeyLen]
            · rw [hreq]
              exact BinaryFields.accept_sameHeader _ hkeys hnext

theorem stepsAlike_binaryReadResponse (H : Handlers) {w : Wire} {p : MmcRequest}
    (hw : w.req.parse = some .binaryReadResponse) (h : SameParse w.req p) :
    StepsAlike H w p .binaryReadResponse := by
  obtain ⟨hparse, hreadbuf, hkey, hkeyLen, hheader⟩ := h
  simp only [hw] at hheader
  have hlength : p.bin.length = w.req.bin.length := (congrArg BinaryFields.length hheader).symm
  have herror : p.bin.error = w.req.bin.error := (congrArg BinaryFields.error hheader).symm
  have hsame {readbuf : MmcBuffer} :
      SameParse { w.req with readbuf } { p with readbuf } := by
    refine ⟨hparse, rfl, hkey, hkeyLen, ?_⟩
    simp only [hw]
    exact hheader
  unfold StepsAlike
  simp only [runHandler, binaryReadResponse, Wire.withReq_req, hlength, ← hreadbuf,
    readBody_withReq _ w hreadbuf.symm, readBody_bin, herror]
  by_cases hread : w.req.bin.length ≤
      (readBody (w.req.bin.length - w.req.readbuf.idx) w).req.readbuf.idx
  · simp only [hread, if_true, Wire.respond_withReq, Wire.respond_req]
    exact ⟨_, rfl, fun _ => hsame⟩
  · simp only [hread, if_false]
    exact ⟨_, rfl, fun _ => hsame⟩

theorem stepsAlike_binaryReadMutate (H : Handlers) {w : Wire} {p : MmcRequest}
    (hw : w.req.parse = some .binaryReadMutate) (h : SameParse w.req p) :
    StepsAlike H w p .binaryReadMutate := by
  have hreq := mmcStreamGet_req 8 w
  obtain ⟨hparse, hreadbuf, hkey, hkeyLen, hbin⟩ := id h
  simp only [hw] at hbin
  unfold StepsAlike
  simp only [runHandler, binaryReadMutate, mmcStreamGet_withReq]
  rcases hget : mmcStreamGet 8 w with ⟨_ | b, w'⟩
  · exact ⟨p, rfl, fun _ => by simpa [hget, ← hreq] using h⟩
  · replace hreq : w'.req = w.req := by simpa [hget] using hreq
    refine ⟨p, ?_, fun hgo => by simp at hgo⟩
    simp only [Wire.withReq, binaryKey, hreq, hbin]

theorem stepsAlike_binaryParseValue (H : Handlers) {w : Wire} {p : MmcRequest}
    (hw : w.req.parse = some .binaryParseValue) (h : SameParse w.req p) :
    StepsAlike H w p .binaryParseValue := by
  have hreq := mmcStreamGet_req 4 w
  obtain ⟨hparse, hreadbuf, hkey, hkeyLen, hheader⟩ := id h
  simp only [hw] at hheader
  obtain ⟨hheader, hnext⟩ := hheader
  unfold StepsAlike
  simp only [runHandler, binaryParseValue, mmcStreamGet_withReq]
  rcases hget : mmcStreamGet 4 w with ⟨_ | b, w'⟩
  · exact ⟨p, rfl, fun _ => by simpa [hget, ← hreq] using h⟩
  · replace hreq : w'.req = w.req := by simpa [hget] using hreq
    refine ⟨{ p with
      parse := some .binaryReadValue, bin := { p.bin with flags := ofBigEndian b } }, rfl,
      fun _ => ?_⟩
    dsimp only
    rw [hreq]
    refine ⟨rfl, hreadbuf, hkey, hkeyLen, ?_, hnext⟩
    -- The flags were the only difference.
    exact congrArg (fun bin : BinaryFields => { bin with flags := ofBigEndian b }) hheader

theorem stepsAlike_binaryReadValue (H : Handlers) {w : Wire} {p : MmcRequest}
    (hw : w.req.parse = some .binaryReadValue) (h : SameParse w.req p) :
    StepsAlike H w p .binaryReadValue := by
  obtain ⟨hparse, hreadbuf, hkey, hkeyLen, hfields⟩ := h
  simp only [hw] at hfields
  obtain ⟨hbin, hnext⟩ := hfields
  have hbody := readBody_withReq (w.req.bin.length - w.req.readbuf.idx) w hreadbuf.symm
  have hcount : (w.withReq p).req.bin.length - (w.withReq p).req.readbuf.idx
      = w.req.bin.length - w.req.readbuf.idx := by
    rw [Wire.withReq_req, ← hbin, ← hreadbuf]
  unfold StepsAlike
  simp only [runHandler]
  by_cases hread : w.req.bin.length ≤
      (readBody (w.req.bin.length - w.req.readbuf.idx) w).req.readbuf.idx
  · have hread' : (w.withReq p).req.bin.length ≤ (readBody ((w.withReq p).req.bin.length
        - (w.withReq p).req.readbuf.idx) (w.withReq p)).req.readbuf.idx := by
      rw [hcount, hbody, Wire.withReq_req, ← hbin]
      exact hread
    rw [binaryReadValue_complete H w hread, binaryReadValue_complete H _ hread', hcount, hbody]
    simp only [Wire.withReq_req, Wire.withReq_withReq, ← hbin, ← hreadbuf, binaryKey]
    refine ⟨_, by rw [← Wire.unpackValue_withReq]; rfl, fun hgo => ?_⟩
    have hop : w.req.bin.opcode ≠ MMC_OP_GET := by
      intro hop
      simp [hop] at hgo
    simp only [Wire.unpackValue_req, Wire.withReq_req, hop, if_false]
    exact ⟨rfl, rfl, hkey, hkeyLen, rfl, rfl, Or.inl hnext⟩
  · have hread' : ¬ (w.withReq p).req.bin.length ≤ (readBody ((w.withReq p).req.bin.length
        - (w.withReq p).req.readbuf.idx) (w.withReq p)).req.readbuf.idx := by
      rw [hcount, hbody, Wire.withReq_req, ← hbin]
      exact hread
    rw [binaryReadValue_more H w hread, binaryReadValue_more H _ hread', hcount, hbody]
    refine ⟨_, rfl, fun _ => ⟨hparse, rfl, hkey, hkeyLen, ?_⟩⟩
    simp only [readBody_parse, hw]
    exact ⟨hbin, hnext⟩

/-- **Requests that parse alike are read alike.** -/
theorem observe_withReq (H : Handlers) (n : Nat) {w : Wire} {p : MmcRequest}
    (h : SameParse w.req p) : observe H n (w.withReq p) = observe H n w := by
  induction n generalizing w p with
  | zero => rfl
  | succ n ih =>
    cases hw : w.req.parse with
    | none =>
      have hp : p.parse = none := h.1 ▸ hw
      simp [observe, parseRequest, hw, hp]
    | some handler =>
      have hp : p.parse = some handler := h.1 ▸ hw
      have hstep : StepsAlike H w p handler := by
        cases handler with
        | asciiParseResponse => exact stepsAlike_asciiParseResponse H h
        | asciiParseMutate => exact stepsAlike_asciiParseMutate H h
        | asciiParseValue => exact stepsAlike_asciiParseValue H hw h
        | asciiReadValue => exact stepsAlike_asciiReadValue H hw h
        | binaryParseResponse => exact stepsAlike_binaryParseResponse H hw h
        | binaryParseNull => exact ⟨p, rfl, fun hgo => by simp [runHandler] at hgo⟩
        | binaryReadResponse => exact stepsAlike_binaryReadResponse H hw h
        | binaryReadMutate => exact stepsAlike_binaryReadMutate H hw h
        | binaryParseValue => exact stepsAlike_binaryParseValue H hw h
        | binaryReadValue => exact stepsAlike_binaryReadValue H hw h
      obtain ⟨p', hrun, hgo⟩ := hstep
      simp only [observe, parseRequest, hw, hp, Wire.withReq_req, Option.map_some, hrun]
      split
      · next hres => rw [ih (hgo hres)]; rfl
      · rfl

/-! ## What a response can leave behind -/

/-- What is known of a request `p` that was built as `q` and got any part of its response. -/
def Progress (q p : MmcRequest) : Prop :=
  p.key = q.key ∧ p.keyLen = q.keyLen ∧
    match q.parse with
    | some .asciiParseValue => p.parse = some .asciiParseValue ∨ p.parse = some .asciiReadValue
    | some .binaryParseResponse =>
      p.bin.keys = q.bin.keys ∧ p.bin.nextParseHandler = q.bin.nextParseHandler ∧
        p.value.cas = q.value.cas ∧
        (p.parse = some .binaryParseResponse ∨ p.parse = some .binaryReadResponse ∨
          p.parse = q.bin.nextParseHandler ∨ p.parse = some .binaryReadValue) ∧
        (p.bin.flags = q.bin.flags ∨ q.bin.nextParseHandler = some .binaryParseValue) ∧
        (p.parse = some .binaryReadValue → q.bin.nextParseHandler = some .binaryParseValue)
    | _ => p.parse = q.parse ∧ p.value.cas = q.value.cas

theorem Progress.refl {q : MmcRequest} (h : Initial q) : Progress q q := by
  refine ⟨rfl, rfl, ?_⟩
  cases h with
  | response parse => simp [parse]
  | mutate parse => simp [parse]
  | value parse => simp [parse]
  | binary parse next => simp [parse]

/-- No call that leaves the request unfinished takes it further than `Progress` says. -/
theorem progress_runHandler {H : Handlers} {q : MmcRequest} {w : Wire} {handler : ParseHandler}
    (hq : Initial q) (h : Progress q w.req) (hw : w.req.parse = some handler)
    (hres : (runHandler H w handler).1 ≠ .done) : Progress q (runHandler H w handler).2.req := by
  obtain ⟨hkey, hkeyLen, hrest⟩ := id h
  cases hq with
  | response parse =>
    simp only [parse, hw] at hrest
    obtain ⟨hhandler, hcas⟩ := hrest
    obtain rfl := Option.some.inj hhandler
    rw [show (runHandler H w .asciiParseResponse).2.req = w.req from asciiParseResponse_req H w]
    exact h
  | mutate parse =>
    simp only [parse, hw] at hrest
    obtain ⟨hhandler, hcas⟩ := hrest
    obtain rfl := Option.some.inj hhandler
    rw [show (runHandler H w .asciiParseMutate).2.req = w.req from asciiParseMutate_req H w]
    exact h
  | value parse =>
    simp only [parse, hw] at hrest
    unfold Progress
    simp only [parse]
    rcases hrest with hhandler | hhandler <;> obtain rfl := Option.some.inj hhandler
    · rw [show runHandler H w .asciiParseValue = asciiParseValue w from rfl]
      obtain hreq | ⟨value, hreq, -⟩ | ⟨value, hreq, -⟩ := asciiParseValue_req w <;> rw [hreq]
      · exact ⟨hkey, hkeyLen, Or.inl hw⟩
      · exact ⟨hkey, hkeyLen, Or.inl hw⟩
      · exact ⟨hkey, hkeyLen, Or.inr rfl⟩
    · rw [show runHandler H w .asciiReadValue = asciiReadValue H w from rfl]
      obtain ⟨readbuf, hreq | hreq⟩ := asciiReadValue_req H w <;> rw [hreq]
      · exact ⟨hkey, hkeyLen, Or.inr hw⟩
      · exact ⟨hkey, hkeyLen, Or.inl rfl⟩
  | binary parse next =>
    simp only [parse] at hrest
    obtain ⟨hkeys, hnext, hcas, hparse, hflags, hvalue⟩ := hrest
    unfold Progress
    simp only [parse]
    rw [hw] at hparse
    rcases hparse with hhandler | hhandler | hhandler | hhandler
    · obtain rfl := Option.some.inj hhandler
      rw [show runHandler H w .binaryParseResponse = binaryParseResponse H w from rfl]
      have hreq := mmcStreamGet_req binaryHeaderSize w
      rcases hget : mmcStreamGet binaryHeaderSize w with ⟨_ | b, w'⟩ <;> rw [hget] at hreq
      · rw [binaryParseResponse_more H hget, hreq]
        exact ⟨hkey, hkeyLen, hkeys, hnext, hcas, Or.inl hw, hflags, hvalue⟩
      · replace hreq : w'.req = w.req := hreq
        by_cases hannounces : (ResponseHeader.ofBytes b).announcesValue
        · rw [binaryParseResponse_announcesValue H hget hannounces, hreq]
          refine ⟨hkey, hkeyLen, hkeys, hnext, hcas, Or.inr (Or.inr (Or.inl hnext)), hflags, ?_⟩
          intro hread
          rw [hnext] at hread
          rcases next with next | next | next <;> simp [next] at hread
        · obtain hsame | ⟨parse', hsame, hparse'⟩ :=
            binaryParseResponse_not_announcesValue H hget hannounces <;> rw [hsame, hreq]
          · exact ⟨hkey, hkeyLen, hkeys, hnext, hcas, Or.inl hw, hflags, hvalue⟩
          · rw [hreq, hw] at hparse'
            refine ⟨hkey, hkeyLen, hkeys, hnext, hcas, hparse'.imp id Or.inl, hflags, ?_⟩
            rintro rfl
            simp at hparse'
    · obtain rfl := Option.some.inj hhandler
      rw [show runHandler H w .binaryReadResponse = binaryReadResponse H w from rfl]
      obtain ⟨readbuf, hreq⟩ := binaryReadResponse_req H w
      rw [hreq]
      exact ⟨hkey, hkeyLen, hkeys, hnext, hcas, Or.inr (Or.inl hw), hflags, hvalue⟩
    · rcases next with next | next | next <;> rw [next] at hhandler <;>
        obtain rfl := Option.some.inj hhandler
      · rw [show runHandler H w .binaryParseValue = binaryParseValue w from rfl]
        obtain hreq | ⟨flags, hreq⟩ := binaryParseValue_req w <;> rw [hreq]
        · exact ⟨hkey, hkeyLen, hkeys, hnext, hcas, Or.inr (Or.inr (Or.inl (hw.trans next.symm))),
            hflags, hvalue⟩
        · exact ⟨hkey, hkeyLen, hkeys, hnext, hcas, Or.inr (Or.inr (Or.inr rfl)), Or.inr next,
            fun _ => next⟩
      · rw [show runHandler H w .binaryReadMutate = binaryReadMutate w from rfl,
          binaryReadMutate_req]
        exact ⟨hkey, hkeyLen, hkeys, hnext, hcas, Or.inr (Or.inr (Or.inl (hw.trans next.symm))),
          hflags, hvalue⟩
      · rw [show runHandler H w .binaryReadResponse = binaryReadResponse H w from rfl]
        obtain ⟨readbuf, hreq⟩ := binaryReadResponse_req H w
        rw [hreq]
        exact ⟨hkey, hkeyLen, hkeys, hnext, hcas, Or.inr (Or.inl hw), hflags, hvalue⟩
    · obtain rfl := Option.some.inj hhandler
      rw [show runHandler H w .binaryReadValue = binaryReadValue H w from rfl] at hres ⊢
      by_cases hread : w.req.bin.length ≤
          (readBody (w.req.bin.length - w.req.readbuf.idx) w).req.readbuf.idx
      · rw [binaryReadValue_complete H w hread] at hres ⊢
        have hop : w.req.bin.opcode ≠ MMC_OP_GET := by
          intro hop
          simp [hop] at hres
        simp only [Wire.unpackValue_req, Wire.withReq_req, hop, if_false]
        exact ⟨hkey, hkeyLen, hkeys, hnext, hcas, Or.inl trivial, hflags, by simp⟩
      · rw [binaryReadValue_more H w hread]
        exact ⟨hkey, hkeyLen, hkeys, hnext, hcas, Or.inr (Or.inr (Or.inr hw)), hflags, hvalue⟩

theorem Progress.call {H : Handlers} {q : MmcRequest} {w w' : Wire} {result : MmcResult}
    (hq : Initial q) (h : Progress q w.req) (hcall : parseRequest H w = some (result, w'))
    (hres : result ≠ .done) : Progress q w'.req := by
  obtain ⟨handler, hw, hrun⟩ := Option.map_eq_some_iff.mp hcall
  have hprogress := progress_runHandler hq h hw (by rw [hrun]; exact hres)
  rwa [hrun] at hprogress

theorem FailedAfter.progress {H : Handlers} {q p : MmcRequest} (hq : Initial q)
    (h : FailedAfter H q p) : Progress q p := by
  have hreceived {p : MmcRequest} (h : Received H q p) : Progress q p := by
    induction h with
    | start => exact .refl hq
    | call _ hcall hres ih =>
      refine ih.call hq hcall ?_
      rcases hres with rfl | rfl <;> simp
  cases h with
  | connection hp => exact hreceived hp
  | response hp hcall hres =>
    refine (hreceived hp).call hq hcall ?_
    rcases hres with rfl | rfl <;> simp

/-! ## When the replay is right -/

/-- A request whose parser is back at the start, with the CAS token it started with, parses like a
    new one. -/
theorem Progress.sameParse_rewind {q p : MmcRequest} (hq : Initial q) (h : Progress q p)
    (hparse : p.parse = q.parse) (hcas : p.value.cas = q.value.cas) :
    SameParse q.rewind p.rewind := by
  obtain ⟨hkey, hkeyLen, hrest⟩ := h
  refine ⟨hparse.symm, rfl, hkey.symm, hkeyLen.symm, ?_⟩
  change match q.parse with | _ => _
  cases hq with
  | response parse => simp [MmcRequest.rewind, parse]
  | mutate parse => simp [MmcRequest.rewind, parse]
  | value parse => simpa [MmcRequest.rewind, parse] using hcas.symm
  | binary parse next =>
    simp only [parse] at hrest
    obtain ⟨hkeys, hnext, -, -, hflags, -⟩ := hrest
    simp only [MmcRequest.rewind, parse]
    refine ⟨hkeys.symm, hnext.symm, ?_⟩
    rcases next with next | next | next
    · exact Or.inl next
    · exact Or.inr (Or.inl ⟨next, by simpa [next, eq_comm] using hflags⟩)
    · exact Or.inr (Or.inr next)

/-- Handlers that accept every value and every response. -/
def acceptAll : Handlers := { unpack := fun _ data => some data, respond := fun _ _ _ => .done }

theorem asciiReadValue_result (H : Handlers) (w : Wire) :
    (asciiReadValue H w).1 = .more ∨ (asciiReadValue H w).1 = .again := by
  unfold asciiReadValue
  dsimp only
  split
  · exact Or.inr rfl
  · exact Or.inl rfl

/-- If the replay is right, the first parser calls agree. -/
theorem first_call_of_replays {q p : MmcRequest} {a b : ParseHandler} (h : ReplaysAs q p)
    (hp : p.parse = some a) (hq : q.parse = some b) (chunks : List Bytes) :
    (runHandler acceptAll { io := {}, chunks, req := p.rewind } a).1
        = (runHandler acceptAll { io := {}, chunks, req := q.rewind } b).1 ∧
      (runHandler acceptAll { io := {}, chunks, req := p.rewind } a).2.calls
        = (runHandler acceptAll { io := {}, chunks, req := q.rewind } b).2.calls := by
  have hone {r : MmcRequest} {c : ParseHandler} (hr : r.parse = some c) :
      (observe acceptAll 1 { io := {}, chunks, req := r.rewind }).head?
        = some ((runHandler acceptAll { io := {}, chunks, req := r.rewind } c).1,
          (runHandler acceptAll { io := {}, chunks, req := r.rewind } c).2.calls,
          (runHandler acceptAll { io := {}, chunks, req := r.rewind } c).2.chunks) := by
    have hr' : r.rewind.parse = some c := hr
    simp only [observe, parseRequest, hr', Option.map_some, List.head?_cons]
  have hobs := congrArg List.head? (h acceptAll {} chunks 1 rfl)
  rw [hone hp, hone hq] at hobs
  simp only [Option.some.injEq, Prod.mk.injEq] at hobs
  exact ⟨hobs.1, hobs.2.1⟩

/-- The line `END` tells a parser that expects a value from one that expects a line. -/
theorem parse_eq_of_replays_value {q p : MmcRequest} (hq : q.parse = some .asciiParseValue)
    (hp : p.parse = some .asciiParseValue ∨ p.parse = some .asciiReadValue)
    (h : ReplaysAs q p) : p.parse = some .asciiParseValue := by
  refine hp.resolve_right fun hp => ?_
  obtain ⟨hresult, -⟩ := first_call_of_replays h hp hq [bytes ['E', 'N', 'D', '\r'] ++ [10]]
  have hdone : (asciiParseValue
      { io := {}, chunks := [bytes ['E', 'N', 'D', '\r'] ++ [10]], req := q.rewind }).1 = .done := by
    unfold asciiParseValue
    rw [mmcStreamGetLine_chunk _ _ _ rfl rfl (by decide) (by decide)]
    rfl
  rw [show runHandler acceptAll _ .asciiReadValue = asciiReadValue _ _ from rfl,
    show runHandler acceptAll _ .asciiParseValue = asciiParseValue _ from rfl, hdone] at hresult
  rcases asciiReadValue_result acceptAll _ with hres | hres <;> rw [hres] at hresult <;>
    exact absurd hresult (by decide)

/-- A header for a value of no bytes under the key `a`, without a CAS token. -/
def valueLine : Bytes := bytes ['V', 'A', 'L', 'U', 'E', ' ', 'a', ' ', '0', ' ', '0', '\r']

theorem scanValueHeader_valueLine :
    scanValueHeader (valueLine ++ [10]) = (some [97], some 0, some 0, none) := by decide

/-- A value header without a CAS token brings out the token the request remembers. -/
theorem observe_valueLine {r : MmcRequest} (hr : r.parse = some .asciiParseValue) :
    observe acceptAll 2 { io := {}, req := r.rewind, chunks := [valueLine ++ [10], [13, 10]] }
      = [(.again, [], [[13, 10]]), (.again, [.value [97] [] 0 r.value.cas], [])] := by
  have hr' : r.rewind.parse = some .asciiParseValue := hr
  have hfirst : asciiParseValue
      { io := {}, req := r.rewind, chunks := [valueLine ++ [10], [13, 10]] }
      = (.again, { io := {}, chunks := [[13, 10]], req := { r.rewind with
          value := ⟨[97], 0, 0, r.value.cas⟩, parse := some .asciiReadValue } }) := by
    unfold asciiParseValue
    rw [mmcStreamGetLine_chunk _ valueLine _ rfl rfl (by decide) (by decide)]
    simp only [AsciiValue.scan, scanValueHeader_valueLine]
    rfl
  simp only [observe, parseRequest, hr', Option.map_some, runHandler, hfirst]
  rfl

theorem cas_eq_of_replays_value {q p : MmcRequest} (hq : q.parse = some .asciiParseValue)
    (hp : p.parse = some .asciiParseValue) (h : ReplaysAs q p) : p.value.cas = q.value.cas := by
  have hobs := h acceptAll {} [valueLine ++ [10], [13, 10]] 2 rfl
  rw [observe_valueLine hq, observe_valueLine hp] at hobs
  simpa using hobs

/-- The response to a no-op. -/
def noopHeader : Bytes :=
  [0x81, 0x0a, 0, 0, 0, 0, 0, 0, 0, 0, 0, 0, 0, 0, 0, 0, 0, 0, 0, 0, 0, 0, 0, 0]

/-- A binary parser behind the header is not done without having called a handler. -/
theorem runHandler_calls_of_done {w : Wire} {a : ParseHandler}
    (ha : a = .binaryReadResponse ∨ a = .binaryParseValue ∨ a = .binaryReadMutate ∨
      a = .binaryReadValue) (hdone : (runHandler acceptAll w a).1 = .done) :
    (runHandler acceptAll w a).2.calls ≠ w.calls := by
  intro hcalls
  rcases ha with rfl | rfl | rfl | rfl
  · simp only [runHandler, binaryReadResponse] at hdone hcalls
    split at hdone
    · next hread =>
        rw [if_pos hread] at hcalls
        simp [Wire.respond, acceptAll, readBody] at hcalls
    · simp at hdone
  · simp only [runHandler, binaryParseValue] at hdone
    split at hdone <;> simp at hdone
  · have hget := mmcStreamGet_calls 8 w
    simp only [runHandler, binaryReadMutate] at hdone hcalls
    rcases hread : mmcStreamGet 8 w with ⟨_ | b, w'⟩ <;> rw [hread] at hdone hcalls hget
    · simp at hdone
    · rw [← hget] at hcalls
      simp at hcalls
  · rw [show runHandler acceptAll w .binaryReadValue = binaryReadValue acceptAll w from rfl]
      at hdone hcalls
    by_cases hread : w.req.bin.length ≤
        (readBody (w.req.bin.length - w.req.readbuf.idx) w).req.readbuf.idx
    · rw [binaryReadValue_complete _ w hread] at hcalls
      simp [Wire.unpackValue, acceptAll, Wire.withReq, readBody] at hcalls
    · rw [binaryReadValue_more _ w hread] at hdone
      simp at hdone

/-- A no-op header ends the response for a parser that expects a header. Any other parser wants more
    or calls a handler. -/
theorem parse_eq_of_replays_binary {q p : MmcRequest} (hq : q.parse = some .binaryParseResponse)
    (hp : p.parse = some .binaryParseResponse ∨ p.parse = some .binaryReadResponse ∨
      p.parse = some .binaryParseValue ∨ p.parse = some .binaryReadMutate ∨
      p.parse = some .binaryReadValue) (h : ReplaysAs q p) :
    p.parse = some .binaryParseResponse := by
  have hnoop : binaryParseResponse acceptAll { io := {}, chunks := [noopHeader], req := q.rewind }
      = (.done, { io := {}, chunks := [], req := q.rewind }) := by
    unfold binaryParseResponse
    rw [show binaryHeaderSize = noopHeader.length from rfl,
      mmcStreamGet_chunk _ noopHeader [] rfl rfl]
    rfl
  have hother {a : ParseHandler} (hp : p.parse = some a) (ha : a = .binaryReadResponse ∨
      a = .binaryParseValue ∨ a = .binaryReadMutate ∨ a = .binaryReadValue) : False := by
    obtain ⟨hresult, hcalls⟩ := first_call_of_replays h hp hq [noopHeader]
    rw [show runHandler acceptAll _ .binaryParseResponse = binaryParseResponse _ _ from rfl,
      hnoop] at hresult hcalls
    exact runHandler_calls_of_done ha hresult hcalls
  rcases hp with hp | hp | hp | hp | hp
  · exact hp
  · exact (hother hp (by decide)).elim
  · exact (hother hp (by decide)).elim
  · exact (hother hp (by decide)).elim
  · exact (hother hp (by decide)).elim

/-- **The next response is parsed like that to a new command exactly when the parser is back at its
    start and no CAS token is remembered.** `p` is the request as it fails over: built for `c` in `q`,
    it has got any part of a response. -/
theorem failedAfter_replaysAs_iff (H : Handlers) (c : Command) (q p : MmcRequest)
    (h : FailedAfter H (c.build q) p) :
    ReplaysAs (c.build q) p ↔
      p.parse = (c.build q).parse ∧ p.value.cas = (c.build q).value.cas := by
  have hinitial := c.build_initial q
  have hprogress := h.progress hinitial
  constructor
  · intro hreplays
    have hrest := hprogress.2.2
    cases hinitial with
    | response parse =>
      simp only [parse] at hrest
      exact ⟨hrest.1.trans parse.symm, hrest.2⟩
    | mutate parse =>
      simp only [parse] at hrest
      exact ⟨hrest.1.trans parse.symm, hrest.2⟩
    | value parse =>
      simp only [parse] at hrest
      have hp := parse_eq_of_replays_value parse hrest hreplays
      exact ⟨hp.trans parse.symm, cas_eq_of_replays_value parse hp hreplays⟩
    | binary parse next =>
      simp only [parse] at hrest
      obtain ⟨-, -, hcas, hp, -, -⟩ := hrest
      refine ⟨(parse_eq_of_replays_binary parse ?_ hreplays).trans parse.symm, hcas⟩
      rcases next with next | next | next <;> rw [next] at hp <;> tauto
  · rintro ⟨hparse, hcas⟩ H' io chunks n hi
    exact observe_withReq H' n (w := { io, chunks, req := (c.build q).rewind })
      (hprogress.sameParse_rewind hinitial hparse hcas)

/-- A `get` whose server announced a value of five bytes. -/
def halfRead : MmcRequest :=
  { Command.build {} (.asciiGet .get [[97]]) with
    value := ⟨[97], 0, 5, 0⟩, parse := some .asciiReadValue }

theorem halfRead_failedAfter :
    FailedAfter acceptAll (Command.build {} (.asciiGet .get [[97]])) halfRead := by
  have hline : parseRequest acceptAll
      { io := {}, req := Command.build {} (.asciiGet .get [[97]])
        chunks := [bytes ['V', 'A', 'L', 'U', 'E', ' ', 'a', ' ', '0', ' ', '5', '\r'] ++ [10]] }
      = some (.again, { io := {}, chunks := [], req := halfRead }) := by
    have hp : (Command.build {} (.asciiGet .get [[97]])).parse = some .asciiParseValue := rfl
    simp only [parseRequest, hp, Option.map_some, runHandler, asciiParseValue]
    rw [mmcStreamGetLine_chunk _ _ _ rfl rfl (by decide) (by decide)]
    rfl
  exact .connection (Received.call .start hline (Or.inr rfl))

/-- Rescheduled in the middle of a value, the request takes the header of the second server for the
    rest of the value. -/
theorem halfRead_not_replaysAs :
    FailedAfter acceptAll (Command.build {} (.asciiGet .get [[97]])) halfRead ∧
      ¬ ReplaysAs (Command.build {} (.asciiGet .get [[97]])) halfRead := by
  refine ⟨halfRead_failedAfter, fun h => ?_⟩
  have hparse := parse_eq_of_replays_value rfl (Or.inr rfl) h
  exact absurd hparse (by decide)

/-- The theorem at a request whose connection dies before anything arrives. -/
theorem failedAfter_replaysAs_iff_start :
    ReplaysAs (Command.build {} (.asciiGet .get [[97]])) (Command.build {} (.asciiGet .get [[97]])) :=
  (failedAfter_replaysAs_iff acceptAll _ {} _ (.connection .start)).mpr ⟨rfl, rfl⟩

end PeclMemcache
