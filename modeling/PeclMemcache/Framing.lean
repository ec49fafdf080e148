import PeclMemcache.Fragments
import PeclMemcache.Opaque

set_option autoImplicit false

/-! # The frames of a binary multi-get

The response to a multi-get is a sequence of frames: one for every key that was found, possibly one
for a key that met an error, and the frame of the NOOP that closes the request. The parser has to
find the end of every frame and may report the request done only at the NOOP; what it leaves behind
is taken for the beginning of the next response. A frame with an error status is handed to the
response handler of the request, which for a get is the one that always returns done. -/

namespace PeclMemcache

/-! ## Frames -/

/-- The 24 bytes of a response header without a key. -/
def responseHeader (opcode extrasLen status totalBodyLength reqid cas : Nat) : Bytes :=
  [0x81, UInt8.ofNat opcode, 0, 0, UInt8.ofNat extrasLen, 0] ++ bigEndian 2 status
    ++ bigEndian 4 totalBodyLength ++ bigEndian 4 reqid ++ bigEndian 8 cas

/-- The frame of a key that was found: four bytes of flags and the value. -/
structure HitFrame where
  reqid : UInt32
  cas : UInt64
  flags : UInt32
  value : Bytes
  fits : value.length + 4 < 2 ^ 32

/-- The frame of a key that met an error: a status and a text. -/
structure ErrorFrame where
  status : UInt16
  reqid : UInt32
  cas : UInt64
  text : Bytes
  refused : status ≠ 0
  fits : text.length < 2 ^ 32

/-- A frame before the NOOP. -/
inductive ResponseFrame
  | hit (f : HitFrame)
  | error (f : ErrorFrame)

def HitFrame.header (f : HitFrame) : Bytes :=
  responseHeader MMC_OP_GETQ 4 0 (f.value.length + 4) f.reqid.toNat f.cas.toNat

def ErrorFrame.header (f : ErrorFrame) : Bytes :=
  responseHeader MMC_OP_GETQ 0 f.status.toNat f.text.length f.reqid.toNat f.cas.toNat

/-- The bytes of a frame on the wire. -/
def ResponseFrame.bytes : ResponseFrame → Bytes
  | .hit f => f.header ++ bigEndian 4 f.flags.toNat ++ f.value
  | .error f => f.header ++ f.text

/-- The frame that closes the response. -/
def noopFrame (reqid : UInt32) (cas : UInt64) : Bytes :=
  responseHeader MMC_OP_NOOP 0 0 0 reqid.toNat cas.toNat

@[simp]
theorem responseHeader_length (opcode extrasLen status totalBodyLength reqid cas : Nat) :
    (responseHeader opcode extrasLen status totalBodyLength reqid cas).length
      = binaryHeaderSize := by
  simp [responseHeader, binaryHeaderSize]

theorem take_append_bigEndian_of_lt (n : Nat) {x : Nat} (h : x < 2 ^ (8 * n)) (rest : Bytes) :
    ofBigEndian ((bigEndian n x ++ rest).take n) = x := by
  rw [List.take_append_of_le_length (by simp), List.take_of_length_le (by simp),
    ofBigEndian_bigEndian_of_lt n h]

/-- The fields of a packed header, as they are read back. -/
theorem ofBytes_responseHeader (opcode extrasLen status totalBodyLength : Nat) {reqid cas : Nat}
    (hopcode : opcode < 256) (hextras : extrasLen < 256) (hstatus : status < 2 ^ 16)
    (htotal : totalBodyLength < 2 ^ 32) (hreqid : reqid < 2 ^ 32) (hcas : cas < 2 ^ 64) :
    ResponseHeader.ofBytes (responseHeader opcode extrasLen status totalBodyLength reqid cas) =
      { magic := MMC_RESPONSE_MAGIC, opcode, keyLen := 0, extrasLen, status, totalBodyLength,
        reqid, cas } := by
  have hdigit : ∀ x < 256, ofBigEndian [UInt8.ofNat x] = x := by
    intro x hx
    simp [ofBigEndian, Nat.mod_eq_of_lt hx]
  have hstatus' := take_append_bigEndian_of_lt 2 hstatus
    (bigEndian 4 totalBodyLength ++ (bigEndian 4 reqid ++ bigEndian 8 cas))
  have htotal' := take_append_bigEndian_of_lt 4 htotal (bigEndian 4 reqid ++ bigEndian 8 cas)
  have hreqid' := take_append_bigEndian_of_lt 4 hreqid (bigEndian 8 cas)
  have hcas' := take_append_bigEndian_of_lt 8 hcas []
  simp only [ResponseHeader.ofBytes, responseHeader, List.append_assoc, ResponseHeader.mk.injEq]
  refine ⟨rfl, hdigit opcode hopcode, rfl, hdigit extrasLen hextras, hstatus', ?_, ?_, ?_⟩
  · simpa [List.drop_append] using htotal'
  · refine Eq.trans ?_ hreqid'
    simp [List.drop_append, List.drop_of_length_le]
  · refine Eq.trans ?_ hcas'
    simp [List.drop_append, List.drop_of_length_le]

/-- No status but 0 is taken for success. -/
theorem binaryError_ne_zero {status : Nat} (h : status ≠ 0) : binaryError status ≠ 0 := by
  unfold binaryError
  rw [if_neg h]
  repeat' split
  all_goals decide

/-! ## What the parser makes of a frame -/

/-- The handlers of a get: `mmc_pool_response_handler_null` and the value handlers. -/
def getHandlers (unpack : Nat → Bytes → Option Bytes) : Handlers where
  unpack := unpack
  respond _ _ _ := .done

/-- The parser waits for the header of a frame, at the boundary between two frames. -/
structure Ready (keys : List ZKey) (w : Wire) : Prop where
  parse : w.req.parse = some .binaryParseResponse
  next : w.req.bin.nextParseHandler = some .binaryParseValue
  keys : w.req.bin.keys = keys
  input : w.io.input = []
  readbuf : w.req.readbuf = {}

/-- The call of the value handler for a frame: none when the value does not decode. -/
def HitFrame.call (unpack : Nat → Bytes → Option Bytes) (keys : List ZKey) (f : HitFrame) :
    List HandlerCall :=
  match unpack f.flags.toNat f.value with
  | some value => [.value ((keys[f.reqid.toNat]?.map ZKey.str).getD []) value f.flags.toNat
      f.cas.toNat]
  | none => []

/-- The call of the response handler for a frame with an error status. -/
def ErrorFrame.call (f : ErrorFrame) : HandlerCall :=
  .response (binaryError f.status.toNat) f.text f.text.length

/-- What the parser does with the frames: the calls of the handlers and the bytes that are left when
    it reports the request done. -/
def outcome (unpack : Nat → Bytes → Option Bytes) (keys : List ZKey) (noop rest : Bytes) :
    List ResponseFrame → List HandlerCall × Bytes
  | [] => ([], rest)
  | .error f :: frames => ([f.call], frames.flatMap ResponseFrame.bytes ++ noop ++ rest)
  | .hit f :: frames =>
    if f.reqid.toNat < keys.length then
      (f.call unpack keys ++ (outcome unpack keys noop rest frames).1,
        (outcome unpack keys noop rest frames).2)
    else (f.call unpack keys, frames.flatMap ResponseFrame.bytes ++ noop ++ rest)

theorem Ready.withChunks {keys : List ZKey} {w : Wire} (hw : Ready keys w) (chunks : List Bytes) :
    Ready keys (w.withChunks chunks) :=
  ⟨hw.parse, hw.next, hw.keys, hw.input, hw.readbuf⟩

/-- How the rest of the stream is cut makes no difference at a frame boundary. -/
theorem Ready.sees_iff {H : Handlers} {keys : List ZKey} {w : Wire} (hw : Ready keys w)
    (chunks : List Bytes) (h : w.chunks.flatten = chunks.flatten) (calls : List HandlerCall)
    (result : MmcResult) (rest : Bytes) :
    Sees H w calls result rest ↔ Sees H (w.withChunks chunks) calls result rest :=
  Wire.Settled.sees_iff ⟨hw.input, Or.inl hw.readbuf⟩ chunks h calls result rest

/-! ## One frame -/

theorem HitFrame.ofBytes_header (f : HitFrame) :
    ResponseHeader.ofBytes f.header =
      { magic := MMC_RESPONSE_MAGIC, opcode := MMC_OP_GETQ, keyLen := 0, extrasLen := 4, status := 0,
        totalBodyLength := f.value.length + 4, reqid := f.reqid.toNat, cas := f.cas.toNat } :=
  ofBytes_responseHeader MMC_OP_GETQ 4 0 _ (by decide) (by decide) (by decide) f.fits
    f.reqid.toNat_lt f.cas.toNat_lt

theorem ErrorFrame.ofBytes_header (f : ErrorFrame) :
    ResponseHeader.ofBytes f.header =
      { magic := MMC_RESPONSE_MAGIC, opcode := MMC_OP_GETQ, keyLen := 0, extrasLen := 0,
        status := f.status.toNat, totalBodyLength := f.text.length, reqid := f.reqid.toNat,
        cas := f.cas.toNat } :=
  ofBytes_responseHeader MMC_OP_GETQ 0 _ _ (by decide) (by decide) f.status.toNat_lt f.fits
    f.reqid.toNat_lt f.cas.toNat_lt

/-- A body that is one chunk. -/
theorem collect_body_chunk {w : Wire} {b : Bytes} {rest : List Bytes} (hbuf : w.req.readbuf = {})
    (hc : w.chunks = b :: rest) :
    collect (.body b.length) w = (some b, { w with
      chunks := rest, req := { w.req with readbuf := { value := b, idx := b.length } } }) := by
  simp [collect, readBody, readChunk, hbuf, hc]

/-- A value handed over with all its bytes. -/
theorem unpackValue_calls (unpack : Nat → Bytes → Option Bytes) (w : Wire) (keys : List ZKey)
    (f : HitFrame) :
    w.unpackValue (getHandlers unpack) f.value ((keys[f.reqid.toNat]?.map ZKey.str).getD [])
        f.flags.toNat f.cas.toNat f.value.length
      = { w with calls := w.calls ++ f.call unpack keys } := by
  have hfits := f.fits
  have htake : f.value.take (f.value.length % 2 ^ 32) = f.value := by
    rw [Nat.mod_eq_of_lt (by omega), List.take_length]
  unfold Wire.unpackValue HitFrame.call
  rw [htake]
  simp only [getHandlers]
  cases unpack f.flags.toNat f.value with
  | some value => rfl
  | none => rw [List.append_nil]

/-- What the request holds once the header of the frame was read. -/
def HitFrame.remember (f : HitFrame) (bin : BinaryFields) : BinaryFields :=
  { bin with
    opcode := MMC_OP_GETQ, error := 0, reqid := f.reqid.toNat, length := f.value.length,
    cas := f.cas.toNat }

theorem Ready.hit_header {keys : List ZKey} {w : Wire} (hw : Ready keys w) (H : Handlers)
    (f : HitFrame) {rest : List Bytes} (hc : w.chunks = f.header :: rest) :
    parseRequest H w = some (.again, { w with
      chunks := rest
      req := { w.req with parse := some .binaryParseValue, bin := f.remember w.req.bin } }) := by
  have hheader := f.ofBytes_header
  have hannounces : (ResponseHeader.ofBytes f.header).announcesValue := by
    rw [hheader]
    exact ⟨rfl, (by decide : MMC_OP_GETQ ≠ MMC_OP_NOOP), Nat.succ_ne_zero _,
      (by decide : binaryError 0 = 0)⟩
  have hget := mmcStreamGet_chunk w f.header rest hw.input hc
  rw [show f.header.length = binaryHeaderSize from responseHeader_length _ _ _ _ _ _] at hget
  have hvalue : (ResponseHeader.ofBytes f.header).valueLength = f.value.length := by
    rw [hheader]
    exact if_pos (Nat.le_add_left 4 _)
  rw [parseRequest_eq H hw.parse, runHandler,
    binaryParseResponse_announcesValue H hget hannounces, hvalue, hheader]
  dsimp only [BinaryFields.accept, HitFrame.remember]
  rw [hw.next, show binaryError 0 = 0 by decide]

/-- The value of the frame is handed over, and the parser is back at the headers. -/
theorem parseRequest_hitValue (unpack : Nat → Bytes → Option Bytes) {keys : List ZKey} {w : Wire}
    (f : HitFrame) (bin : BinaryFields) {tail : List Bytes}
    (hparse : w.req.parse = some .binaryReadValue) (hin : w.io.input = [])
    (hbuf : w.req.readbuf = {}) (hc : w.chunks = f.value :: tail)
    (hbin : w.req.bin = { f.remember bin with flags := f.flags.toNat })
    (hkeys : bin.keys = keys) (hnext : bin.nextParseHandler = some .binaryParseValue) :
    ∃ v, parseRequest (getHandlers unpack) w
        = some (if keys.length ≤ f.reqid.toNat then .done else .again, v) ∧
      Ready keys v ∧ v.calls = w.calls ++ f.call unpack keys ∧ v.chunks = tail := by
  have hbody := collect_body_chunk hbuf hc
  have hlen : w.req.bin.length = f.value.length := by
    rw [hbin]
    rfl
  rw [← hlen] at hbody
  have hread := binaryReadValue_of_collect (getHandlers unpack) hbody
  subst hkeys
  have hopcode : MMC_OP_GETQ ≠ MMC_OP_GET := by decide
  simp only [binaryKey, hbin, HitFrame.remember, hopcode, false_or, if_false] at hread
  have hcall := fun w => unpackValue_calls unpack w bin.keys f
  rw [hcall] at hread
  refine ⟨_, (parseRequest_eq _ hparse).trans (congrArg some hread), ?_, rfl, rfl⟩
  exact ⟨rfl, hnext, rfl, hin, rfl⟩

/-- **A frame with a value** takes the parser to the next frame, with one call of the value handler
    if the value decodes; an opaque outside the key list ends the request. -/
theorem Ready.hit {keys : List ZKey} {w : Wire} (hw : Ready keys w)
    (unpack : Nat → Bytes → Option Bytes) (f : HitFrame) (tail : List Bytes)
    (hc : w.chunks = f.header :: bigEndian 4 f.flags.toNat :: f.value :: tail) :
    ∃ w₁ w₂ v, parseRequest (getHandlers unpack) w = some (.again, w₁) ∧
      parseRequest (getHandlers unpack) w₁ = some (.again, w₂) ∧
      parseRequest (getHandlers unpack) w₂
        = some (if keys.length ≤ f.reqid.toNat then .done else .again, v) ∧
      Ready keys v ∧ v.calls = w.calls ++ f.call unpack keys ∧ v.chunks = tail := by
  have hflags : ofBigEndian (bigEndian 4 f.flags.toNat) = f.flags.toNat := by
    exact ofBigEndian_bigEndian_of_lt 4 f.flags.toNat_lt
  have h₁ := hw.hit_header (getHandlers unpack) f hc
  have h₂ := parseRequest_flags (getHandlers unpack) (w := { w with
    chunks := bigEndian 4 f.flags.toNat :: f.value :: tail
    req := { w.req with parse := some .binaryParseValue, bin := f.remember w.req.bin } })
    rfl hw.input rfl (bigEndian_length _ _)
  rw [hflags] at h₂
  obtain ⟨v, h₃, hv⟩ := parseRequest_hitValue unpack f w.req.bin (w := { w with
    chunks := f.value :: tail
    req := { w.req with
      parse := some .binaryReadValue
      bin := { f.remember w.req.bin with flags := f.flags.toNat } } })
    rfl hw.input hw.readbuf rfl rfl hw.keys hw.next
  exact ⟨_, _, v, h₁, h₂, h₃, hv⟩

/-- The text of an error goes to the response handler. -/
theorem parseRequest_errorText (unpack : Nat → Bytes → Option Bytes) {w : Wire} (f : ErrorFrame)
    {tail : List Bytes} (hparse : w.req.parse = some .binaryReadResponse)
    (hbuf : w.req.readbuf = {}) (hc : w.chunks = f.text :: tail)
    (hlen : w.req.bin.length = f.text.length)
    (herror : w.req.bin.error = binaryError f.status.toNat) :
    ∃ v, parseRequest (getHandlers unpack) w = some (.done, v) ∧ v.calls = w.calls ++ [f.call] ∧
      v.chunks = tail := by
  have hbody := collect_body_chunk hbuf hc
  rw [← hlen] at hbody
  have hread := binaryReadResponse_of_collect (getHandlers unpack) hbody
  simp only [hlen, herror, List.take_length] at hread
  exact ⟨_, (parseRequest_eq _ hparse).trans (congrArg some hread), rfl, rfl⟩

/-- **A frame with an error status ends the request**, whether or not a text follows. -/
theorem Ready.error {keys : List ZKey} {w : Wire} (hw : Ready keys w)
    (unpack : Nat → Bytes → Option Bytes) (f : ErrorFrame) (tail : Bytes)
    (hc : w.chunks = f.header :: f.text :: [tail]) (calls : List HandlerCall) (result : MmcResult)
    (rest : Bytes) :
    Sees (getHandlers unpack) w calls result rest ↔
      result = .done ∧ w.calls ++ [f.call] = calls ∧ tail = rest := by
  have hheader := f.ofBytes_header
  have hget := mmcStreamGet_chunk w f.header _ hw.input hc
  rw [show f.header.length = binaryHeaderSize from responseHeader_length _ _ _ _ _ _] at hget
  have hstatus : binaryError f.status.toNat ≠ 0 :=
    binaryError_ne_zero fun h => f.refused (UInt16.toNat_inj.mp h)
  have hrun := parseRequest_eq (getHandlers unpack) hw.parse
  simp only [runHandler, binaryParseResponse, hget, hheader] at hrun
  rw [if_neg (by decide), if_neg (by decide)] at hrun
  by_cases htext : f.text = []
  · -- no text: the response handler is called at once, and the empty chunk stays in the stream
    rw [if_pos (by rw [htext]; rfl)] at hrun
    refine (sees_stop_iff hrun (by simp) (by simp) calls result rest).trans ?_
    simp [ErrorFrame.call, htext]
  · rw [if_neg (fun h => htext (List.eq_nil_of_length_eq_zero h)), if_pos hstatus] at hrun
    refine (sees_again_iff hrun calls result rest).trans ?_
    obtain ⟨v, hv, hcalls, hchunks⟩ := parseRequest_errorText unpack f (w := { w with
      chunks := [f.text, tail]
      req := { w.req with
        parse := some .binaryReadResponse
        bin := { w.req.bin with
          opcode := MMC_OP_GETQ, error := binaryError f.status.toNat, reqid := f.reqid.toNat,
          length := f.text.length, cas := f.cas.toNat } } }) rfl hw.readbuf rfl rfl rfl
    refine (sees_stop_iff hv (by simp) (by simp) calls result rest).trans ?_
    simp [hcalls, hchunks]

/-- **The frame of the NOOP ends the request** and nothing else of the stream is touched. -/
theorem Ready.noop {keys : List ZKey} {w : Wire} (hw : Ready keys w) (H : Handlers)
    (reqid : UInt32) (cas : UInt64) (tail : Bytes) (hc : w.chunks = [noopFrame reqid cas, tail])
    (calls : List HandlerCall) (result : MmcResult) (rest : Bytes) :
    Sees H w calls result rest ↔ result = .done ∧ w.calls = calls ∧ tail = rest := by
  have hheader := ofBytes_responseHeader MMC_OP_NOOP 0 0 0 (by decide) (by decide) (by decide)
    (by decide) reqid.toNat_lt cas.toNat_lt
  have hget := mmcStreamGet_chunk w (noopFrame reqid cas) _ hw.input hc
  rw [show (noopFrame reqid cas).length = binaryHeaderSize from responseHeader_length _ _ _ _ _ _]
    at hget
  have hrun := parseRequest_eq H hw.parse
  simp only [runHandler, binaryParseResponse, hget, noopFrame, hheader] at hrun
  rw [if_neg (by decide), if_pos trivial] at hrun
  refine (sees_stop_iff hrun (by simp) (by simp) calls result rest).trans ?_
  simp

/-! ## All frames -/

/-- **The run on a response** shows what `outcome` says, and nothing else, however the response is
    cut into chunks. -/
theorem Ready.sees_outcome_iff {unpack : Nat → Bytes → Option Bytes} {keys : List ZKey} {w : Wire}
    (hw : Ready keys w) (frames : List ResponseFrame) (reqid : UInt32) (cas : UInt64)
    (tail : Bytes)
    (hc : w.chunks.flatten = frames.flatMap ResponseFrame.bytes ++ noopFrame reqid cas ++ tail)
    (calls : List HandlerCall) (result : MmcResult) (rest : Bytes) :
    Sees (getHandlers unpack) w calls result rest ↔
      result = .done ∧ w.calls ++ (outcome unpack keys (noopFrame reqid cas) tail frames).1 = calls ∧
        (outcome unpack keys (noopFrame reqid cas) tail frames).2 = rest := by
  induction frames generalizing w with
  | nil =>
    rw [hw.sees_iff [noopFrame reqid cas, tail] (by simpa using hc)]
    refine ((hw.withChunks _).noop _ reqid cas tail rfl calls result rest).trans ?_
    simp [outcome, Wire.withChunks]
  | cons frame frames ih =>
    cases frame with
    | error f =>
      rw [hw.sees_iff [f.header, f.text,
        frames.flatMap ResponseFrame.bytes ++ noopFrame reqid cas ++ tail]
        (by simpa [ResponseFrame.bytes] using hc)]
      exact (hw.withChunks _).error unpack f _ rfl calls result rest
    | hit f =>
      rw [hw.sees_iff [f.header, bigEndian 4 f.flags.toNat, f.value,
        frames.flatMap ResponseFrame.bytes ++ noopFrame reqid cas ++ tail]
        (by simpa [ResponseFrame.bytes] using hc)]
      obtain ⟨w₁, w₂, v, h₁, h₂, h₃, hv, hcalls, hchunks⟩ := (hw.withChunks _).hit unpack f _ rfl
      rw [sees_again_iff h₁, sees_again_iff h₂, outcome]
      by_cases hkey : f.reqid.toNat < keys.length
      · rw [if_neg (Nat.not_le_of_lt hkey)] at h₃
        rw [sees_again_iff h₃, if_pos hkey, ih hv (by rw [hchunks]; simp), hcalls, List.append_assoc]
        rfl
      · rw [if_pos (Nat.le_of_not_lt hkey)] at h₃
        rw [sees_stop_iff h₃ (by simp) (by simp), if_neg hkey, hcalls, hchunks]
        simp [Wire.withChunks]

/-! ## Framing -/

/-- A call of a value handler. -/
def HandlerCall.isValue : HandlerCall → Bool
  | .value .. => true
  | .long .. => true
  | .response .. => false

/-- The call of the value handler a frame asks for. -/
def ResponseFrame.wants (unpack : Nat → Bytes → Option Bytes) (keys : List ZKey) :
    ResponseFrame → Option HandlerCall
  | .hit f => some (.value ((keys[f.reqid.toNat]?.map ZKey.str).getD [])
      ((unpack f.flags.toNat f.value).getD []) f.flags.toNat f.cas.toNat)
  | .error _ => none

/-- A frame with a value that decodes, for one of the keys. -/
def ResponseFrame.Plain (unpack : Nat → Bytes → Option Bytes) (keys : List ZKey) :
    ResponseFrame → Prop
  | .hit f => f.reqid.toNat < keys.length ∧ unpack f.flags.toNat f.value ≠ none
  | .error _ => False

instance (unpack : Nat → Bytes → Option Bytes) (keys : List ZKey) (frame : ResponseFrame) :
    Decidable (frame.Plain unpack keys) := by
  unfold ResponseFrame.Plain
  split <;> infer_instance

/-- The response is framed: the value handler is called once for every value, in order, and the
    request is reported done at the NOOP, where the bytes behind it begin. -/
def Framed (unpack : Nat → Bytes → Option Bytes) (keys : List ZKey) (w : Wire)
    (frames : List ResponseFrame) (rest : Bytes) : Prop :=
  ∃ calls, Sees (getHandlers unpack) w calls .done rest ∧
    calls.filter HandlerCall.isValue = frames.filterMap (ResponseFrame.wants unpack keys)

/-- Only keys inside the list and no errors leave exactly the bytes behind the NOOP. -/
theorem outcome_rest_of_lt {unpack : Nat → Bytes → Option Bytes} {keys : List ZKey}
    {noop tail : Bytes} (hnoop : noop ≠ []) (frames : List ResponseFrame)
    (h : (outcome unpack keys noop tail frames).2 = tail) :
    ∀ frame ∈ frames, ∃ f, frame = .hit f ∧ f.reqid.toNat < keys.length := by
  have hlonger : ∀ pre : Bytes, pre ++ noop ++ tail ≠ tail := by
    intro pre heq
    have hlen := congrArg List.length heq
    have hpos := List.length_pos_iff.mpr hnoop
    simp only [List.length_append] at hlen
    omega
  induction frames with
  | nil => simp
  | cons frame frames ih =>
    cases frame with
    | error f => exact absurd h (hlonger _)
    | hit f =>
      rw [outcome] at h
      split at h
      · rename_i hkey
        intro frame hframe
        rcases List.mem_cons.mp hframe with rfl | hframe
        · exact ⟨f, rfl, hkey⟩
        · exact ih h frame hframe
      · exact absurd h (hlonger _)

theorem HitFrame.call_isValue (unpack : Nat → Bytes → Option Bytes) (keys : List ZKey)
    (f : HitFrame) : (f.call unpack keys).filter HandlerCall.isValue = f.call unpack keys := by
  unfold call
  split <;> rfl

/-- A value that decodes is handed over once, any other value not at all. -/
theorem HitFrame.call_eq (unpack : Nat → Bytes → Option Bytes) (keys : List ZKey) (f : HitFrame) :
    (unpack f.flags.toNat f.value ≠ none ∧
        some (f.call unpack keys) = ((ResponseFrame.hit f).wants unpack keys).map ([·])) ∨
      (unpack f.flags.toNat f.value = none ∧ f.call unpack keys = []) := by
  unfold call
  rcases hvalue : unpack f.flags.toNat f.value with _ | value
  · exact Or.inr ⟨rfl, rfl⟩
  · refine Or.inl ⟨by simp, ?_⟩
    simp [ResponseFrame.wants, hvalue]

section Hits

variable {unpack : Nat → Bytes → Option Bytes} {keys : List ZKey} {noop tail : Bytes}
  {frames : List ResponseFrame}

/-- Without errors and with keys inside the list, the parser gets to the NOOP, with at most one call
    for a frame. -/
theorem outcome_of_hits
    (h : ∀ frame ∈ frames, ∃ f, frame = .hit f ∧ f.reqid.toNat < keys.length) :
    (outcome unpack keys noop tail frames).2 = tail ∧
      ((outcome unpack keys noop tail frames).1.filter HandlerCall.isValue).length
        ≤ (frames.filterMap (ResponseFrame.wants unpack keys)).length := by
  induction frames with
  | nil => exact ⟨rfl, Nat.le_refl _⟩
  | cons frame frames ih =>
    obtain ⟨f, rfl, hkey⟩ := h frame List.mem_cons_self
    obtain ⟨hrest, hlen⟩ := ih fun frame hframe => h frame (List.mem_cons_of_mem _ hframe)
    have hone : (f.call unpack keys).length ≤ 1 := by
      unfold HitFrame.call
      split <;> simp
    rw [outcome, if_pos hkey, List.filter_append, HitFrame.call_isValue]
    refine ⟨hrest, ?_⟩
    simp only [List.length_append, ResponseFrame.wants, List.filterMap_cons, List.length_cons]
    omega

/-- Without errors and with keys inside the list, the calls are those the frames ask for exactly when
    every value decodes. -/
theorem outcome_calls_iff
    (h : ∀ frame ∈ frames, ∃ f, frame = .hit f ∧ f.reqid.toNat < keys.length) :
    (outcome unpack keys noop tail frames).1.filter HandlerCall.isValue
        = frames.filterMap (ResponseFrame.wants unpack keys) ↔
      ∀ frame ∈ frames, frame.Plain unpack keys := by
  induction frames with
  | nil => simp [outcome]
  | cons frame frames ih =>
    obtain ⟨f, rfl, hkey⟩ := h frame List.mem_cons_self
    have hframes := fun frame hframe => h frame (List.mem_cons_of_mem _ hframe)
    rw [outcome, if_pos hkey, List.filter_append, HitFrame.call_isValue, List.forall_mem_cons,
      ← ih hframes]
    rcases f.call_eq unpack keys with ⟨hvalue, hcall⟩ | ⟨hvalue, hcall⟩
    · -- the value decodes: one call, the one asked for
      simp only [ResponseFrame.wants, Option.map_some, Option.some.injEq] at hcall
      rw [hcall]
      simp [ResponseFrame.wants, ResponseFrame.Plain, hkey, hvalue]
    · -- the value does not decode: there are fewer calls than values
      have hlen := (@outcome_of_hits unpack keys noop tail frames hframes).2
      rw [hcall, List.nil_append]
      constructor
      · intro heq
        have := congrArg List.length heq
        simp only [ResponseFrame.wants, List.filterMap_cons, List.length_cons] at this
        omega
      · intro hplain
        exact absurd hvalue hplain.1.2

end Hits

/-- The response of a multi-get begins at a frame boundary. -/
theorem Command.binaryGets_ready (zkeys : List (ZKey × Bytes)) (q : MmcRequest) {io : MmcStream}
    (hio : io.input = []) (chunks : List Bytes) :
    Ready ((Command.binaryGets zkeys).build q).bin.keys
      ((Command.binaryGets zkeys).awaiting q io chunks) := by
  obtain ⟨hparse, hnext⟩ := foldl_mmcBinaryAppendGet_parse zkeys
    (mmcBinaryBeginGet (mmcBinaryResetRequest q))
  exact ⟨hparse, hnext, rfl, hio, rfl⟩

/-- **The frames of a multi-get are kept apart exactly when no frame is an error** and every value
    decodes and is for a key of the request. This holds for every command of a multi-get, however
    the response is cut into chunks. -/
theorem framed_iff (unpack : Nat → Bytes → Option Bytes) (zkeys : List (ZKey × Bytes))
    (q : MmcRequest) (io : MmcStream) (hio : io.input = []) (frames : List ResponseFrame)
    (reqid : UInt32) (cas : UInt64) (rest : Bytes) (chunks : List Bytes)
    (hchunks : chunks.flatten
      = frames.flatMap ResponseFrame.bytes ++ noopFrame reqid cas ++ rest) :
    Framed unpack ((Command.binaryGets zkeys).build q).bin.keys
        ((Command.binaryGets zkeys).awaiting q io chunks) frames rest ↔
      ∀ frame ∈ frames, frame.Plain unpack ((Command.binaryGets zkeys).build q).bin.keys := by
  have hready := Command.binaryGets_ready zkeys q hio chunks
  have hsees := fun calls =>
    @Ready.sees_outcome_iff unpack _ _ hready frames reqid cas rest hchunks calls .done rest
  have hnoop : noopFrame reqid cas ≠ [] := by
    intro h
    have hlen : (noopFrame reqid cas).length = binaryHeaderSize := responseHeader_length _ _ _ _ _ _
    rw [h] at hlen
    cases hlen
  unfold Framed
  constructor
  · rintro ⟨calls, hrun, hcalls⟩
    obtain ⟨-, rfl, hrest⟩ := (hsees calls).mp hrun
    exact (outcome_calls_iff (outcome_rest_of_lt hnoop frames hrest)).mp hcalls
  · intro hplain
    have hhits : ∀ frame ∈ frames, ∃ f, frame = .hit f ∧
        f.reqid.toNat < ((Command.binaryGets zkeys).build q).bin.keys.length := by
      intro frame hframe
      have := hplain frame hframe
      cases frame with
      | hit f => exact ⟨f, rfl, this.1⟩
      | error f => exact absurd this id
    exact ⟨_, (hsees _).mpr ⟨rfl, rfl, (outcome_of_hits hhits).1⟩, (outcome_calls_iff hhits).mpr hplain⟩

/-- A multi-get for the keys `a` and `b`. -/
def twoKeys : List (ZKey × Bytes) :=
  [({ ptr := 1, str := [97] }, [97]), ({ ptr := 2, str := [98] }, [98])]

/-- The key `a` with an empty value, the key `b` with two bytes, the second value cut in two. -/
theorem framed_two_hits :
    Framed (fun _ data => some data) ((Command.binaryGets twoKeys).build {}).bin.keys
      ((Command.binaryGets twoKeys).awaiting {} {}
        [responseHeader MMC_OP_GETQ 4 0 4 0 7 ++ [0, 0, 0, 0],
          responseHeader MMC_OP_GETQ 4 0 6 1 8 ++ [0, 0, 0, 1, 120], 121 :: noopFrame 2 0 ++ [1]])
      [.hit ⟨0, 7, 0, [], by decide⟩, .hit ⟨1, 8, 1, [120, 121], by decide⟩] [1] :=
  (framed_iff (fun _ data => some data) twoKeys {} {} rfl _ 2 0 [1] _ (by decide)).mpr (by decide)

/-- The key `a` is refused with the status of a server that is out of memory, without a text; the
    request is done before the value of `b` and the NOOP, which are left for the next response. -/
theorem error_frame_not_framed :
    ¬ Framed (fun _ data => some data) ((Command.binaryGets twoKeys).build {}).bin.keys
      ((Command.binaryGets twoKeys).awaiting {} {}
        [responseHeader MMC_OP_GETQ 0 0x82 0 0 0, responseHeader MMC_OP_GETQ 4 0 5 1 8,
          [0, 0, 0, 0, 120], noopFrame 2 0])
      [.error ⟨0x82, 0, 0, [], by decide, by decide⟩, .hit ⟨1, 8, 0, [120], by decide⟩] [] := by
  rintro ⟨calls, hrun, -⟩
  have hready := @Command.binaryGets_ready twoKeys {} {} rfl
    [responseHeader MMC_OP_GETQ 0 0x82 0 0 0, responseHeader MMC_OP_GETQ 4 0 5 1 8,
      [0, 0, 0, 0, 120], noopFrame 2 0]
  have hrest := ((hready.sees_outcome_iff [.error ⟨0x82, 0, 0, [], by decide, by decide⟩,
    .hit ⟨1, 8, 0, [120], by decide⟩] 2 0 [] (by decide) calls .done []).mp hrun).2.2
  exact absurd hrest (by decide)

end PeclMemcache
