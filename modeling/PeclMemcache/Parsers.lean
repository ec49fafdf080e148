import PeclMemcache.BinaryProtocol

set_option autoImplicit false

/-! # What one parser call does

For every parse handler: what a call leaves in the request, and which results go with it. The proofs
about runs of the parsers use these lemmas and do not unfold the handlers again. -/

namespace PeclMemcache

/-! ## Reads and handler calls -/

@[simp]
theorem Wire.failure_req (w : Wire) : w.failure.2.req = w.req := rfl

@[simp]
theorem Wire.failure_calls (w : Wire) : w.failure.2.calls = w.calls := rfl

theorem Wire.failure_result (w : Wire) : w.failure.1 = .retry ∨ w.failure.1 = .failure := by
  simp only [failure, MmcStream.serverFailure]
  split <;> simp

@[simp]
theorem Wire.respond_req (H : Handlers) (w : Wire) (response : Int) (message : Bytes) (len : Nat) :
    (w.respond H response message len).2.req = w.req := by
  unfold respond
  dsimp only
  split <;> rfl

@[simp]
theorem Wire.unpackValue_req (H : Handlers) (w : Wire) (data key : Bytes) (flags cas count : Nat) :
    (w.unpackValue H data key flags cas count).req = w.req := by
  unfold unpackValue
  split <;> rfl

@[simp]
theorem mmcStreamGetLine_req (w : Wire) : (mmcStreamGetLine w).2.req = w.req := by
  unfold mmcStreamGetLine
  dsimp only
  split <;> rfl

@[simp]
theorem mmcStreamGet_req (count : Nat) (w : Wire) : (mmcStreamGet count w).2.req = w.req := by
  unfold mmcStreamGet
  dsimp only
  split <;> rfl

theorem mmcStreamGet_calls (count : Nat) (w : Wire) :
    (mmcStreamGet count w).2.calls = w.calls := by
  unfold mmcStreamGet
  dsimp only
  split <;> rfl

@[simp]
theorem readBody_bin (count : Nat) (w : Wire) : (readBody count w).req.bin = w.req.bin := rfl

@[simp]
theorem readBody_value (count : Nat) (w : Wire) : (readBody count w).req.value = w.req.value := rfl

@[simp]
theorem readBody_parse (count : Nat) (w : Wire) : (readBody count w).req.parse = w.req.parse := rfl

theorem lineOf_append_newline {line : Bytes} (h : 10 ∉ line) :
    lineOf (line ++ [10]) = line ++ [10] := by
  induction line with
  | nil => rfl
  | cons b rest ih =>
    rw [List.mem_cons, not_or] at h
    rw [List.cons_append, lineOf, if_neg (Ne.symm h.1), ih h.2]

/-- A chunk that is one short line is read as that line. -/
theorem mmcStreamGetLine_chunk (w : Wire) (line : Bytes) (rest : List Bytes) (hi : w.io.input = [])
    (hc : w.chunks = (line ++ [10]) :: rest) (hline : 10 ∉ line)
    (hlen : line.length + 2 ≤ MMC_BUFFER_SIZE) :
    mmcStreamGetLine w = (some (line ++ [10]), { w with chunks := rest }) := by
  obtain ⟨io, chunks, req, calls⟩ := w
  dsimp only at hi hc
  subst hc
  have htake : (line ++ [10]).take (MMC_BUFFER_SIZE - 0 - 1) = line ++ [10] :=
    List.take_of_length_le (by rw [List.length_append, List.length_singleton]; omega)
  simp only [mmcStreamGetLine, hi, readLineChunk, List.length_nil, htake,
    lineOf_append_newline hline, List.nil_append, List.getLast?_concat, Nat.le_refl, if_true]
  rw [← hi]

/-- A read of exactly one chunk. -/
theorem mmcStreamGet_chunk (w : Wire) (b : Bytes) (rest : List Bytes) (hi : w.io.input = [])
    (hc : w.chunks = b :: rest) :
    mmcStreamGet b.length w = (some b, { w with chunks := rest }) := by
  obtain ⟨io, chunks, req, calls⟩ := w
  dsimp only at hi hc
  subst hc
  simp only [mmcStreamGet, hi, readChunk, List.length_nil, Nat.sub_zero, List.take_length,
    List.nil_append, Nat.le_refl, if_true]
  rw [← hi]

/-! ## The request a parser does not look at

A read does not depend on the request, so the parsers of two requests on one stream can be compared
by exchanging the request. -/

/-- The same stream with another request. -/
def Wire.withReq (w : Wire) (p : MmcRequest) : Wire := { w with req := p }

@[simp]
theorem Wire.withReq_req (w : Wire) (p : MmcRequest) : (w.withReq p).req = p := rfl

@[simp]
theorem Wire.withReq_withReq (w : Wire) (p p' : MmcRequest) :
    (w.withReq p).withReq p' = w.withReq p' := rfl

theorem mmcStreamGetLine_withReq (w : Wire) (p : MmcRequest) :
    mmcStreamGetLine (w.withReq p) = ((mmcStreamGetLine w).1, (mmcStreamGetLine w).2.withReq p) := by
  unfold mmcStreamGetLine
  dsimp only [Wire.withReq]
  split <;> rfl

theorem mmcStreamGet_withReq (count : Nat) (w : Wire) (p : MmcRequest) :
    mmcStreamGet count (w.withReq p)
      = ((mmcStreamGet count w).1, (mmcStreamGet count w).2.withReq p) := by
  unfold mmcStreamGet
  dsimp only [Wire.withReq]
  split <;> rfl

theorem readBody_withReq (count : Nat) (w : Wire) {p : MmcRequest}
    (h : p.readbuf = w.req.readbuf) :
    readBody count (w.withReq p)
      = (readBody count w).withReq { p with readbuf := (readBody count w).req.readbuf } := by
  simp only [readBody, Wire.withReq, h]

theorem Wire.failure_withReq (w : Wire) (p : MmcRequest) :
    (w.withReq p).failure = (w.failure.1, w.failure.2.withReq p) := rfl

theorem Wire.respond_withReq (H : Handlers) (w : Wire) (p : MmcRequest) (response : Int)
    (message : Bytes) (len : Nat) :
    (w.withReq p).respond H response message len
      = ((w.respond H response message len).1, (w.respond H response message len).2.withReq p) := by
  unfold respond
  dsimp only [withReq]
  cases H.respond response message len <;> rfl

theorem Wire.unpackValue_withReq (H : Handlers) (w : Wire) (p : MmcRequest) (data key : Bytes)
    (flags cas count : Nat) :
    (w.withReq p).unpackValue H data key flags cas count
      = (w.unpackValue H data key flags cas count).withReq p := by
  unfold unpackValue
  dsimp only [withReq]
  cases H.unpack flags (data.take (count % 2 ^ 32)) <;> rfl

/-! ## The text protocol -/

/-- The parser of one-line responses leaves the request as it is. -/
theorem asciiParseResponse_req (H : Handlers) (w : Wire) :
    (asciiParseResponse H w).2.req = w.req := by
  have hline := mmcStreamGetLine_req w
  unfold asciiParseResponse
  split <;> rename_i heq <;> rw [heq] at hline <;> simpa using hline

theorem asciiParseMutate_req (H : Handlers) (w : Wire) :
    (asciiParseMutate H w).2.req = w.req := by
  have hline := mmcStreamGetLine_req w
  unfold asciiParseMutate
  split <;> rename_i heq <;> rw [heq] at hline
  · exact hline
  · dsimp only
    split
    · simpa using hline
    · split <;> simpa using hline

/-- A `VALUE` line is remembered; unless it is malformed the value is read next. -/
theorem asciiParseValue_req (w : Wire) :
    (asciiParseValue w).2.req = w.req ∨
      (∃ value, (asciiParseValue w).2.req = { w.req with value } ∧
        ((asciiParseValue w).1 = .retry ∨ (asciiParseValue w).1 = .failure)) ∨
      ∃ value, (asciiParseValue w).2.req = { w.req with value, parse := some .asciiReadValue } ∧
        (asciiParseValue w).1 = .again := by
  have hline := mmcStreamGetLine_req w
  unfold asciiParseValue
  split <;> rename_i heq <;> rw [heq] at hline
  · exact Or.inl hline
  · dsimp only
    split
    · exact Or.inl hline
    · refine Or.inr ?_
      split
      · exact Or.inl ⟨_, by rw [Wire.failure_req, hline], Wire.failure_result _⟩
      · exact Or.inr ⟨_, by rw [hline], rfl⟩

/-- While the value is incomplete only `readbuf` changes; then the parser is back at the lines. -/
theorem asciiReadValue_req (H : Handlers) (w : Wire) :
    ∃ readbuf, (asciiReadValue H w).2.req = { w.req with readbuf } ∨
      (asciiReadValue H w).2.req = { w.req with parse := some .asciiParseValue, readbuf } := by
  unfold asciiReadValue
  dsimp only
  split
  · exact ⟨_, Or.inr (Wire.unpackValue_req _ _ _ _ _ _ _)⟩
  · exact ⟨_, Or.inl rfl⟩

/-! ## The binary protocol -/

/-- The fields the request holds once a header was accepted. -/
def BinaryFields.accept (bin : BinaryFields) (h : ResponseHeader) : BinaryFields :=
  { bin with
    opcode := h.opcode, error := binaryError h.status, reqid := h.reqid,
    length := h.totalBodyLength, cas := h.cas }

/-- A header that is followed by something the value handler gets with its key. -/
def ResponseHeader.announcesValue (h : ResponseHeader) : Prop :=
  h.magic = MMC_RESPONSE_MAGIC ∧ h.opcode ≠ MMC_OP_NOOP ∧ h.totalBodyLength ≠ 0 ∧
    binaryError h.status = 0

instance (h : ResponseHeader) : Decidable h.announcesValue := by
  unfold ResponseHeader.announcesValue
  infer_instance

/-- The bytes of a value behind its extras. -/
def ResponseHeader.valueLength (h : ResponseHeader) : Nat :=
  if h.extrasLen ≤ h.totalBodyLength then h.totalBodyLength - h.extrasLen else h.totalBodyLength

/-- A header that announces a value hands over to the next parser. -/
theorem binaryParseResponse_announcesValue (H : Handlers) {w w' : Wire} {b : Bytes}
    (hget : mmcStreamGet binaryHeaderSize w = (some b, w'))
    (h : (ResponseHeader.ofBytes b).announcesValue) :
    binaryParseResponse H w = (.again, { w' with req := { w'.req with
      parse := w'.req.bin.nextParseHandler
      bin := { w'.req.bin.accept (ResponseHeader.ofBytes b) with
        length := (ResponseHeader.ofBytes b).valueLength } } }) := by
  obtain ⟨hmagic, hnoop, hbody, herror⟩ := h
  unfold binaryParseResponse
  rw [hget]
  dsimp only
  rw [if_neg (not_not_intro hmagic), if_neg hnoop, if_neg hbody, if_neg (not_not_intro herror)]
  rfl

/-- Any other header ends the response or makes the parser read the text of an error. -/
theorem binaryParseResponse_not_announcesValue (H : Handlers) {w w' : Wire} {b : Bytes}
    (hget : mmcStreamGet binaryHeaderSize w = (some b, w'))
    (h : ¬ (ResponseHeader.ofBytes b).announcesValue) :
    (binaryParseResponse H w).2.req = w'.req ∨
      ∃ parse, (binaryParseResponse H w).2.req =
          { w'.req with parse, bin := w'.req.bin.accept (ResponseHeader.ofBytes b) } ∧
        (parse = w'.req.parse ∨ parse = some .binaryReadResponse) := by
  unfold binaryParseResponse
  rw [hget]
  dsimp only
  split
  · exact Or.inl (Wire.failure_req _)
  · next hmagic =>
      split
      · exact Or.inl rfl
      · next hnoop =>
          refine Or.inr ?_
          split
          · exact ⟨_, Wire.respond_req _ _ _ _ _, Or.inl rfl⟩
          · next hbody =>
              split
              · exact ⟨_, rfl, Or.inr rfl⟩
              · next herror =>
                  exact absurd ⟨not_not.mp hmagic, hnoop, hbody, not_not.mp herror⟩ h

/-- A call that finds no whole header changes nothing. -/
theorem binaryParseResponse_more (H : Handlers) {w w' : Wire}
    (hget : mmcStreamGet binaryHeaderSize w = (none, w')) :
    binaryParseResponse H w = (.more, w') := by
  unfold binaryParseResponse
  rw [hget]

/-- The text of an error is collected in `readbuf`. -/
theorem binaryReadResponse_req (H : Handlers) (w : Wire) :
    ∃ readbuf, (binaryReadResponse H w).2.req = { w.req with readbuf } := by
  unfold binaryReadResponse
  dsimp only
  split
  · exact ⟨_, Wire.respond_req _ _ _ _ _⟩
  · exact ⟨_, rfl⟩

theorem binaryReadMutate_req (w : Wire) : (binaryReadMutate w).2.req = w.req := by
  have hget := mmcStreamGet_req 8 w
  unfold binaryReadMutate
  split <;> rename_i heq <;> rw [heq] at hget <;> exact hget

/-- The flags are remembered and the value is read next. -/
theorem binaryParseValue_req (w : Wire) :
    (binaryParseValue w).2.req = w.req ∨
      ∃ flags, (binaryParseValue w).2.req =
        { w.req with parse := some .binaryReadValue, bin := { w.req.bin with flags } } := by
  have hget := mmcStreamGet_req 4 w
  unfold binaryParseValue
  split <;> rename_i heq <;> rw [heq] at hget
  · exact Or.inl hget
  · exact Or.inr ⟨_, by rw [hget]⟩

/-- While the value is incomplete only `readbuf` changes. -/
theorem binaryReadValue_more (H : Handlers) (w : Wire)
    (h : ¬ w.req.bin.length ≤
      (readBody (w.req.bin.length - w.req.readbuf.idx) w).req.readbuf.idx) :
    binaryReadValue H w = (.more, readBody (w.req.bin.length - w.req.readbuf.idx) w) := by
  unfold binaryReadValue
  exact if_neg h

/-- Behind the value the parser has seen the last response or waits for the next header, and the
    value handler gets the value. -/
theorem binaryReadValue_complete (H : Handlers) (w : Wire)
    (h : w.req.bin.length ≤
      (readBody (w.req.bin.length - w.req.readbuf.idx) w).req.readbuf.idx) :
    binaryReadValue H w =
      (if w.req.bin.opcode = MMC_OP_GET ∨ w.req.bin.keys.length ≤ w.req.bin.reqid then .done
        else .again,
      ((readBody (w.req.bin.length - w.req.readbuf.idx) w).withReq { w.req with
        parse := some (if w.req.bin.opcode = MMC_OP_GET then .binaryParseNull
          else .binaryParseResponse)
        readbuf := w.req.readbuf.reset }).unpackValue H
          (readBody (w.req.bin.length - w.req.readbuf.idx) w).req.readbuf.value
          ((binaryKey w.req).getD []) w.req.bin.flags w.req.bin.cas w.req.bin.length) := by
  unfold binaryReadValue
  dsimp only
  rw [if_pos (show (readBody (w.req.bin.length - w.req.readbuf.idx) w).req.bin.length ≤ _ from h)]
  exact (apply_ite (fun r => (r, _)) _ _ _).symm

end PeclMemcache
