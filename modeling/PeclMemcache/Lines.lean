import PeclMemcache.Fragments

set_option autoImplicit false

/-! # Lines of the text protocol

What the parsers hand to the response handler of a line, and whether the line reader gets on. Both
depend on how the line ends: the length of the message is the length of the line less that of a CRLF,
whatever the line ends in, and the reader cannot take in the end of a line that fills its buffer. -/

namespace PeclMemcache

/-! ## Messages -/

/-- A line without the LF or the CRLF at its end. -/
def withoutTerminator (line : Bytes) : Bytes :=
  match line.reverse with
  | 10 :: 13 :: rest => rest.reverse
  | 10 :: rest => rest.reverse
  | _ => line

/-- A message of `len` bytes is the line without its terminator, and lies within the line. -/
structure MessageOf (line message : Bytes) (len : Nat) : Prop where
  inside : len ≤ line.length
  text : message.take len = withoutTerminator line

def EndsInCrlf (line : Bytes) : Prop := ∃ content, line = content ++ crlf

theorem withoutTerminator_crlf (content : Bytes) :
    withoutTerminator (content ++ crlf) = content := by
  simp [withoutTerminator, crlf, List.reverse_append]

theorem chopLine_crlf (content : Bytes) : chopLine (content ++ crlf) = content ++ [0, 10] := by
  simp [chopLine, crlf, List.reverse_append]

theorem withoutTerminator_lf {content : Bytes} {b : UInt8} (hb : b ≠ 13) :
    withoutTerminator (content ++ [b] ++ [10]) = content ++ [b] := by
  simp [withoutTerminator, List.reverse_append, hb]

theorem chopLine_lf {content : Bytes} {b : UInt8} (hb : b ≠ 13) :
    chopLine (content ++ [b] ++ [10]) = content ++ [b] ++ [10] := by
  simp [chopLine, List.reverse_append, hb]

theorem messageLen_of_two_le {line : Bytes} (h : 2 ≤ line.length) (hlen : line.length < 2 ^ 32) :
    messageLen line = line.length - 2 := by
  rw [messageLen]
  omega

theorem messageLen_crlf {content : Bytes} (hlen : (content ++ crlf).length < 2 ^ 32) :
    messageLen (content ++ crlf) = content.length := by
  have hlength : (content ++ crlf).length = content.length + 2 := List.length_append
  rw [messageLen_of_two_le (by omega) hlen]
  omega

/-- What is handed over is the message of the line where the line ends in a CRLF, and nowhere else: the
    length leaves out two bytes of it in any case. -/
theorem messageOf_chopLine_iff {line : Bytes} (hend : line.getLast? = some 10)
    (hlen : line.length < 2 ^ 32) :
    MessageOf line (chopLine line) (messageLen line) ↔ EndsInCrlf line := by
  obtain ⟨content, rfl⟩ : ∃ content, line = content ++ [10] := List.getLast?_eq_some_iff.mp hend
  constructor
  · intro h
    induction content using List.reverseRecOn with
    | nil => exact absurd h.inside (by decide)
    | append_singleton content b =>
      by_cases hb : b = 13
      · exact ⟨content, by simp [crlf, hb]⟩
      · have htwo : 2 ≤ (content ++ [b] ++ [10]).length := by simp
        have htext := h.text
        rw [chopLine_lf hb, withoutTerminator_lf hb, messageLen_of_two_le htwo hlen] at htext
        have hshort := congrArg List.length htext
        simp at hshort
  · rintro ⟨rest, hrest⟩
    rw [hrest] at hlen ⊢
    have hmessage := messageLen_crlf hlen
    refine ⟨?_, ?_⟩
    · rw [hmessage]
      simp
    · rw [hmessage, chopLine_crlf, withoutTerminator_crlf, List.take_left]

/-- The parsers that hand a line to the response handler. -/
def responseParsers : List ParseHandler := [.asciiParseResponse, .asciiParseMutate]

/-- The calls of handlers a parser makes. -/
def callsOf (H : Handlers) (w : Wire) (p : ParseHandler) : List HandlerCall :=
  (runHandler H w p).2.calls.drop w.calls.length

/-- Every message handed over is the one of the line that was read. -/
def MessagesExact (H : Handlers) (w : Wire) : Prop :=
  ∀ line v, mmcStreamGetLine w = (some line, v) → ∀ p ∈ responseParsers, ∀ code message len,
    .response code message len ∈ callsOf H w p → MessageOf line message len

theorem Wire.respond_calls (H : Handlers) (w : Wire) (response : Int) (message : Bytes) (len : Nat) :
    (w.respond H response message len).2.calls = w.calls ++ [.response response message len] := by
  unfold Wire.respond
  dsimp only
  split
  · rfl
  · rfl
  · rfl
  · rfl

theorem mmcStreamGetLine_calls (w : Wire) : (mmcStreamGetLine w).2.calls = w.calls := by
  unfold mmcStreamGetLine
  dsimp only
  split <;> rfl

/-- A line that is returned ends with a newline and was in the line buffer. -/
theorem mmcStreamGetLine_some {w v : Wire} {line : Bytes} (h : mmcStreamGetLine w = (some line, v))
    (hinput : w.io.input.length < MMC_BUFFER_SIZE) :
    line.getLast? = some 10 ∧ line.length < MMC_BUFFER_SIZE ∧ v.calls = w.calls := by
  have hcalls := mmcStreamGetLine_calls w
  rw [h] at hcalls
  unfold mmcStreamGetLine at h
  dsimp only at h
  split at h
  · next hlast =>
    obtain ⟨rfl, -⟩ : _ ∧ _ := by simpa using h
    refine ⟨hlast, ?_, hcalls⟩
    have hgot : (readLineChunk (MMC_BUFFER_SIZE - w.io.input.length) w.chunks).1.length
        ≤ MMC_BUFFER_SIZE - w.io.input.length - 1 := by
      cases w.chunks with
      | nil => simp [readLineChunk]
      | cons c rest =>
        refine (lineOf_length_le _).trans ?_
        rw [List.length_take]
        exact Nat.min_le_left _ _
    rw [List.length_append]
    omega
  · simp at h

theorem callsOf_asciiParseResponse (H : Handlers) {w v : Wire} {line : Bytes}
    (h : mmcStreamGetLine w = (some line, v)) (hcalls : v.calls = w.calls) :
    callsOf H w .asciiParseResponse
      = [.response (mmcRequestCheckResponse line) (chopLine line) (messageLen line)] := by
  simp [callsOf, runHandler, asciiParseResponse, h, Wire.respond_calls, hcalls]

/-- A line that is no response is a number, or malformed; neither is a message. -/
theorem mem_callsOf_asciiParseMutate (H : Handlers) {w v : Wire} {line : Bytes}
    (h : mmcStreamGetLine w = (some line, v)) (hcalls : v.calls = w.calls) {code : Int}
    {message : Bytes} {len : Nat} (hmem : .response code message len ∈ callsOf H w .asciiParseMutate) :
    message = chopLine line ∧ len = messageLen line := by
  simp only [callsOf, runHandler, asciiParseMutate, h] at hmem
  split at hmem
  · rw [Wire.respond_calls, hcalls, List.drop_left, List.mem_singleton] at hmem
    cases hmem
    exact ⟨rfl, rfl⟩
  · split at hmem
    · have hfailure : v.failure.2.calls = v.calls := rfl
      rw [hfailure, hcalls, List.drop_length] at hmem
      cases hmem
    · rw [hcalls, List.drop_left, List.mem_singleton] at hmem
      cases hmem

/-- **Messages are exact where lines end in a CRLF.** The message and its length that the parsers hand
    to the response handler are those of the line without its terminator if and only if the line ends
    in a CRLF. -/
theorem messagesExact_iff_crlf (H : Handlers) {w : Wire}
    (hinput : w.io.input.length < MMC_BUFFER_SIZE) :
    MessagesExact H w ↔ ∀ line v, mmcStreamGetLine w = (some line, v) → EndsInCrlf line := by
  have hshort {line : Bytes} (h : line.length < MMC_BUFFER_SIZE) : line.length < 2 ^ 32 :=
    h.trans (by norm_num [MMC_BUFFER_SIZE])
  constructor
  · intro h line v hline
    obtain ⟨hend, hlen, hcalls⟩ := mmcStreamGetLine_some hline hinput
    refine (messageOf_chopLine_iff hend (hshort hlen)).mp ?_
    refine h line v hline .asciiParseResponse (by simp [responseParsers]) (mmcRequestCheckResponse line)
      _ _ ?_
    rw [callsOf_asciiParseResponse H hline hcalls]
    exact List.mem_singleton_self _
  · intro h line v hline p hp code message len hmem
    obtain ⟨hend, hlen, hcalls⟩ := mmcStreamGetLine_some hline hinput
    have hexact := (messageOf_chopLine_iff hend (hshort hlen)).mpr (h line v hline)
    rcases List.mem_pair.mp hp with rfl | rfl
    · rw [callsOf_asciiParseResponse H hline hcalls, List.mem_singleton] at hmem
      cases hmem
      exact hexact
    · obtain ⟨hmessage, hmessageLen⟩ := mem_callsOf_asciiParseMutate H hline hcalls hmem
      rw [hmessage, hmessageLen]
      exact hexact

/-- A request that waits for a line, and the server sends these bytes. -/
def sentLine (reply : Bytes) : Wire where
  io := {}
  chunks := [reply]
  req := { parse := some .asciiParseResponse }

/-- Handlers that take every response. -/
def acceptingHandlers : Handlers where
  unpack _ data := some data
  respond _ _ _ := .done

theorem messagesExact_version : MessagesExact acceptingHandlers (sentLine (bytes ['O', 'K'] ++ crlf)) := by
  refine (messagesExact_iff_crlf acceptingHandlers (by decide)).mpr fun line v hline => ?_
  have hread : (mmcStreamGetLine (sentLine (bytes ['O', 'K'] ++ crlf))).1
      = some (bytes ['O', 'K'] ++ crlf) := by decide
  rw [hline] at hread
  exact ⟨bytes ['O', 'K'], Option.some_inj.mp hread⟩

/-- A line that is a mere LF is handed over with a length of 4 GB. -/
theorem bareNewline_not_messagesExact : ¬ MessagesExact acceptingHandlers (sentLine [10]) := by
  intro h
  have hmessage := h [10] { sentLine [10] with chunks := [] } (by decide) .asciiParseResponse
    (by decide) MMC_RESPONSE_UNKNOWN [10] (2 ^ 32 - 1) (by decide)
  exact absurd hmessage.inside (by decide)

/-! ## Progress -/

/-- Up to `n` calls of the line reader, until one returns a line. -/
def readLine : Nat → Wire → Option Bytes × Wire
  | 0, w => (none, w)
  | n + 1, w =>
    match mmcStreamGetLine w with
    | (some line, v) => (some line, v)
    | (none, v) => readLine n v

/-- The next read of the stream finds something. -/
def Wire.Readable (w : Wire) : Prop := ∃ c rest, w.chunks = c :: rest ∧ c ≠ []

/-- A call of the line reader returns a line or takes something from the stream. -/
def Wire.MovesOn (w : Wire) : Prop :=
  (mmcStreamGetLine w).1 ≠ none ∨ (mmcStreamGetLine w).2.chunks.flatten.length < w.chunks.flatten.length

/-- The calls of the line reader move on whenever something can be read, until the line is returned. -/
structure Wire.Advances (w : Wire) : Prop where
  progress : ∀ n v, readLine n w = (none, v) → v.Readable → v.MovesOn
  complete : 10 ∈ w.io.input ++ w.chunks.flatten → ∃ n line v, readLine n w = (some line, v)

theorem readLine_succ_of_none {w v : Wire} (h : mmcStreamGetLine w = (none, v)) (n : Nat) :
    readLine (n + 1) w = readLine n v := by
  rw [readLine, h]

/-- What a call that returns no line leaves behind. -/
theorem mmcStreamGetLine_none {w v : Wire} (hw : Reader.line.Holds w)
    (h : mmcStreamGetLine w = (none, v)) : Reader.line.Partial w v := by
  have hattempt := mmcStreamGetLine_attempt hw
  rw [h] at hattempt
  exact hattempt

theorem received_of_holds {w : Wire} (hw : Reader.line.Holds w) :
    w.received = w.io.input ++ w.chunks.flatten := by
  simp [Wire.received, Wire.buffered, hw.1]

theorem readLine_none {w v : Wire} {n : Nat} (hw : Reader.line.Holds w)
    (h : readLine n w = (none, v)) : Reader.line.Holds v ∧ v.received = w.received := by
  induction n generalizing w with
  | zero =>
    cases h
    exact ⟨hw, rfl⟩
  | succ n ih =>
    rcases hline : mmcStreamGetLine w with ⟨_ | line, v₁⟩
    · have hnoline := mmcStreamGetLine_none hw hline
      rw [readLine_succ_of_none hline] at h
      obtain ⟨hv, hreceived⟩ := ih hnoline.holds h
      exact ⟨hv, hreceived.trans hnoline.received⟩
    · simp [readLine, hline] at h

/-- The line the reader is at, as far as it is there: its end is a newline, if it has one. -/
def Wire.lineAhead (w : Wire) : Bytes := lineOf (w.io.input ++ w.chunks.flatten)

theorem lineAhead_of_received {w v : Wire} (hw : Reader.line.Holds w) (hv : Reader.line.Holds v)
    (h : v.received = w.received) : v.lineAhead = w.lineAhead := by
  rw [Wire.lineAhead, Wire.lineAhead, ← received_of_holds hw, ← received_of_holds hv, h]

theorem mmcStreamGetLine_chunks (w : Wire) : (mmcStreamGetLine w).2.chunks
    = (readLineChunk (MMC_BUFFER_SIZE - w.io.input.length) w.chunks).2 := by
  unfold mmcStreamGetLine
  dsimp only
  split <;> rfl

theorem lineOf_ne_nil {s : Bytes} (h : s ≠ []) : lineOf s ≠ [] := by
  cases s with
  | nil => exact absurd rfl h
  | cons b rest =>
    rw [lineOf]
    split
    · simp
    · simp

/-- A reader without room takes nothing. -/
theorem mmcStreamGetLine_full {w : Wire} (hw : Reader.line.Holds w) (hready : w.Readable)
    (hfull : maxLine ≤ w.io.input.length) : mmcStreamGetLine w = (none, w) := by
  obtain ⟨c, rest, hchunks, hc⟩ := hready
  have hroom : MMC_BUFFER_SIZE - w.io.input.length - 1 = 0 := by
    unfold maxLine at hfull
    omega
  have hread : readLineChunk (MMC_BUFFER_SIZE - w.io.input.length) w.chunks = ([], w.chunks) := by
    have hlength : ¬ c.length ≤ 0 := fun h => hc (List.eq_nil_of_length_eq_zero (by omega))
    rw [hchunks]
    simp only [readLineChunk, hroom, List.take_zero, lineOf, List.length_nil, if_neg hlength,
      List.drop_zero]
  have hlast : w.io.input.getLast? ≠ some 10 := fun h => hw.2.1 (List.mem_of_getLast? h)
  simp only [mmcStreamGetLine, hread, List.append_nil, if_neg hlast]

/-- **While the line buffer has room, the reader moves on**; without room it does not. -/
theorem movesOn_iff {w : Wire} (hw : Reader.line.Holds w) (hready : w.Readable) :
    w.MovesOn ↔ w.io.input.length < maxLine := by
  constructor
  · intro h
    by_contra hfull
    rw [Wire.MovesOn, mmcStreamGetLine_full hw hready (Nat.le_of_not_lt hfull)] at h
    exact h.elim (fun hsome => hsome rfl) (lt_irrefl _)
  · intro hroom
    right
    have hflat := congrArg List.length
      (readLineChunk_flatten (MMC_BUFFER_SIZE - w.io.input.length) w.chunks)
    rw [List.length_append] at hflat
    have hgot : (readLineChunk (MMC_BUFFER_SIZE - w.io.input.length) w.chunks).1 ≠ [] := by
      obtain ⟨c, rest, hchunks, hc⟩ := hready
      rw [hchunks]
      refine lineOf_ne_nil fun htake => ?_
      rcases List.take_eq_nil_iff.mp htake with hzero | hnil
      · unfold maxLine at hroom
        omega
      · exact hc hnil
    have hpos := List.length_pos_iff.mpr hgot
    rw [mmcStreamGetLine_chunks]
    omega

/-- A reader that does not move on never will: whatever `mmc_pool_run` does about the readable
    socket, the next call finds the same. -/
theorem readLine_stuck {w : Wire} (hw : Reader.line.Holds w) (hready : w.Readable)
    (hstuck : ¬ w.MovesOn) (n : Nat) : readLine n w = (none, w) := by
  rw [movesOn_iff hw hready, Nat.not_lt] at hstuck
  induction n with
  | zero => rfl
  | succ n ih => rw [readLine_succ_of_none (mmcStreamGetLine_full hw hready hstuck), ih]

/-- The parser of a line that does not fit asks for more each time it is called, and changes nothing. -/
theorem lineParser_stuck (H : Handlers) {w : Wire} (hw : Reader.line.Holds w) (hready : w.Readable)
    (hstuck : ¬ w.MovesOn) {p : ParseHandler} (hp : p.reader w.req = .line) :
    runHandler H w p = (.more, w) := by
  rw [movesOn_iff hw hready, Nat.not_lt] at hstuck
  have hnone := mmcStreamGetLine_full hw hready hstuck
  cases p with
  | asciiParseResponse => rw [runHandler, asciiParseResponse, hnone]
  | asciiParseMutate => rw [runHandler, asciiParseMutate, hnone]
  | asciiParseValue => rw [runHandler, asciiParseValue, hnone]
  | _ => cases hp

/-! ### Lines that fit -/

/-- A line that fits is found in what fits. -/
theorem lineOf_take_maxLine {s : Bytes} (hline : 10 ∈ s) (hfits : (lineOf s).length < MMC_BUFFER_SIZE) :
    Reader.line.item s = some (lineOf s) := by
  rcases lineOf_cases s with ⟨line, rest, hmem, rfl, hl⟩ | ⟨hmem, _⟩
  · rw [hl] at hfits
    have htake : (line ++ 10 :: rest).take maxLine
        = line ++ 10 :: rest.take (maxLine - (line.length + 1)) := by
      rw [List.length_append, List.length_singleton] at hfits
      rw [show line ++ 10 :: rest = (line ++ [10]) ++ rest by simp, List.take_append,
        List.take_of_length_le (by simp; unfold maxLine; omega), List.length_append,
        List.length_singleton, List.append_assoc]
      rfl
    have htaken : lineOf (line ++ 10 :: rest.take (maxLine - (line.length + 1))) = line ++ [10] := by
      rw [lineOf_append_of_not_mem hmem, lineOf, if_pos rfl]
    rw [Reader.item, htake, htaken, hl, if_pos (List.getLast?_concat ..)]
  · exact absurd hline hmem

/-- A line that is there as a whole and fits is returned. -/
theorem readLine_complete {w : Wire} (hw : Reader.line.Holds w)
    (hline : 10 ∈ w.io.input ++ w.chunks.flatten) (hfits : w.lineAhead.length < MMC_BUFFER_SIZE) :
    ∃ n line v, readLine n w = (some line, v) := by
  -- every call without a line leaves less in the stream
  induction hwork : pendingWork w.chunks using Nat.strong_induction_on generalizing w with
  | _ work ih =>
    rcases hcall : mmcStreamGetLine w with ⟨_ | line, v⟩
    · have hnoline := mmcStreamGetLine_none hw hcall
      have hitem : Reader.line.item w.received ≠ none := by
        rw [received_of_holds hw, lineOf_take_maxLine hline hfits]
        exact Option.some_ne_none _
      have hless : pendingWork v.chunks < pendingWork w.chunks := by
        refine (hnoline.progress (Or.inl hitem)).resolve_left fun hnil => ?_
        exact hitem (hnoline.starved hnil).1
      have hahead : v.lineAhead = w.lineAhead :=
        lineAhead_of_received hw hnoline.holds hnoline.received
      obtain ⟨n, line, v', hread⟩ := ih _ (hwork ▸ hless) hnoline.holds
        (by
          have hreceived := hnoline.received
          rw [received_of_holds hw, received_of_holds hnoline.holds] at hreceived
          rw [hreceived]
          exact hline) (hahead ▸ hfits) rfl
      exact ⟨n + 1, line, v', by rw [readLine_succ_of_none hcall, hread]⟩
    · exact ⟨1, line, v, by rw [readLine, hcall]⟩

/-! ### Lines that do not fit -/

/-- A line that was found is not too long. -/
theorem lineAhead_of_some {w v : Wire} {line : Bytes} (hw : Reader.line.Holds w)
    (h : mmcStreamGetLine w = (some line, v)) : w.lineAhead.length < MMC_BUFFER_SIZE := by
  have hattempt := mmcStreamGetLine_attempt hw
  rw [h] at hattempt
  have hitem := hattempt.item
  rw [received_of_holds hw, Reader.item] at hitem
  split at hitem
  · next hlast =>
    have hprefix := lineOf_append hlast ((w.io.input ++ w.chunks.flatten).drop maxLine)
    rw [List.take_append_drop] at hprefix
    rw [Wire.lineAhead, hprefix]
    refine lt_of_le_of_lt (lineOf_length_le _) ?_
    rw [List.length_take]
    unfold maxLine
    have hsize : 0 < MMC_BUFFER_SIZE := by decide
    omega
  · cases hitem

/-- A call that returns no line leaves less in a stream it can read from. -/
theorem pendingWork_of_none {w v : Wire} (hw : Reader.line.Holds w)
    (h : mmcStreamGetLine w = (none, v)) (hchunks : w.chunks ≠ [])
    (hroom : w.Readable → w.MovesOn) : pendingWork v.chunks < pendingWork w.chunks := by
  have hnoline := mmcStreamGetLine_none hw h
  have hv : v.chunks = (readLineChunk (MMC_BUFFER_SIZE - w.io.input.length) w.chunks).2 := by
    rw [← mmcStreamGetLine_chunks, h]
  obtain ⟨c, rest, hcons⟩ := List.exists_cons_of_ne_nil hchunks
  by_cases hc : c = []
  · rw [hv, hcons, hc, readLineChunk]
    simp [lineOf]
  · have hready : w.Readable := ⟨c, rest, hcons, hc⟩
    have hspace := (movesOn_iff hw hready).mp (hroom hready)
    have hgot : 10 ∉ (readLineChunk (MMC_BUFFER_SIZE - w.io.input.length) w.chunks).1 := by
      intro hmem
      have hinput : v.io.input = w.io.input
          ++ (readLineChunk (MMC_BUFFER_SIZE - w.io.input.length) w.chunks).1 := by
        unfold mmcStreamGetLine at h
        dsimp only at h
        split at h
        · simp at h
        · cases h
          rfl
      refine hnoline.holds.2.1 ?_
      rw [hinput]
      exact List.mem_append_right _ hmem
    rw [hv]
    unfold maxLine at hspace
    rcases readLineChunk_pendingWork (by omega) hgot with hnil | hless
    · rw [hnil, hcons]
      simp
    · exact hless

/-- A line that does not fit fills the buffer before it ends. -/
theorem exists_stuck {w : Wire} (hw : Reader.line.Holds w)
    (hlong : MMC_BUFFER_SIZE ≤ w.lineAhead.length) :
    ∃ n v, readLine n w = (none, v) ∧ v.Readable ∧ ¬ v.MovesOn := by
  induction hwork : pendingWork w.chunks using Nat.strong_induction_on generalizing w with
  | _ work ih =>
    by_cases hstuck : w.Readable ∧ ¬ w.MovesOn
    · exact ⟨0, w, rfl, hstuck⟩
    · have hroom : w.Readable → w.MovesOn := fun hready => by_contra fun hno => hstuck ⟨hready, hno⟩
      have hchunks : w.chunks ≠ [] := by
        intro hnil
        have hshort := hw.2.2
        rw [Wire.lineAhead, hnil, List.flatten_nil, List.append_nil, lineOf_of_not_mem hw.2.1] at hlong
        unfold maxLine at hshort
        have hsize : 0 < MMC_BUFFER_SIZE := by decide
        omega
      rcases hcall : mmcStreamGetLine w with ⟨_ | line, v⟩
      · have hnoline := mmcStreamGetLine_none hw hcall
        have hahead : v.lineAhead = w.lineAhead :=
          lineAhead_of_received hw hnoline.holds hnoline.received
        obtain ⟨n, v', hread, hv'⟩ := ih _ (hwork ▸ pendingWork_of_none hw hcall hchunks hroom)
          hnoline.holds (hahead ▸ hlong) rfl
        exact ⟨n + 1, v', by rw [readLine_succ_of_none hcall, hread], hv'⟩
      · exact absurd (lineAhead_of_some hw hcall) (Nat.not_lt.mpr hlong)

/-- **The line reader advances where the line fits its buffer.** Whatever the stream holds and however
    it comes, the calls of the reader take something in whenever there is something, and return the line
    in the end, if and only if the line and its newline are shorter than the buffer. -/
theorem advances_iff_fits {w : Wire} (hw : Reader.line.Holds w) :
    w.Advances ↔ w.lineAhead.length < MMC_BUFFER_SIZE := by
  constructor
  · intro h
    by_contra hlong
    obtain ⟨n, v, hread, hready, hstuck⟩ := exists_stuck hw (Nat.le_of_not_lt hlong)
    exact hstuck (h.progress n v hread hready)
  · intro hfits
    refine ⟨fun n v hread hready => ?_, fun hline => readLine_complete hw hline hfits⟩
    obtain ⟨hv, hreceived⟩ := readLine_none hw hread
    rw [movesOn_iff hv hready]
    -- a full buffer and something to read are more than the line
    by_contra hfull
    obtain ⟨c, rest, hchunks, hc⟩ := hready
    rw [← lineAhead_of_received hw hv hreceived, Wire.lineAhead, lineOf_append_of_not_mem hv.2.1,
      List.length_append] at hfits
    have hmore : lineOf v.chunks.flatten ≠ [] := lineOf_ne_nil (by simp [hchunks, hc])
    have hpos := List.length_pos_iff.mpr hmore
    unfold maxLine at hfull
    omega

/-- A short line that comes in two pieces. -/
def shortLine : Wire where
  io := {}
  chunks := [bytes ['E', 'N'], bytes ['D'] ++ crlf]
  req := {}

theorem advances_shortLine : shortLine.Advances :=
  (advances_iff_fits ⟨rfl, by decide, by decide⟩).mpr (by decide)

/-- A line of as many bytes as the buffer has. -/
def longLine : Wire where
  io := {}
  chunks := [List.replicate MMC_BUFFER_SIZE 120 ++ [10]]
  req := {}

theorem longLine_not_advances : ¬ longLine.Advances := by
  intro h
  have hw : Reader.line.Holds longLine := ⟨rfl, by simp [longLine], by simp [longLine]⟩
  have hnone : (10 : UInt8) ∉ List.replicate MMC_BUFFER_SIZE 120 := by
    intro hmem
    exact absurd (List.eq_of_mem_replicate hmem) (by decide)
  have hlong : MMC_BUFFER_SIZE ≤ longLine.lineAhead.length := by
    rw [Wire.lineAhead, show longLine.io.input ++ longLine.chunks.flatten
      = List.replicate MMC_BUFFER_SIZE 120 ++ [10] by simp [longLine], lineOf_append_of_not_mem hnone]
    simp
  obtain ⟨n, v, hread, hready, hstuck⟩ := exists_stuck hw hlong
  exact hstuck (h.progress n v hread hready)

end PeclMemcache
