import PeclMemcache.Replay

set_option autoImplicit false

/-! # Responses in fragments

A response reaches the parsers in whatever chunks the reads return. Every parser first collects one
item (a line, a header of fixed size, a body of announced size) and acts only on the whole item, so the
cuts between the chunks cannot be seen in what it does. What a reader makes of the bytes is stable: an
item found in some bytes is the item found when more bytes follow. From this, two streams with the same
bytes are parsed by runs with the same calls of handlers, the same result and the same bytes left. -/

namespace PeclMemcache

/-! ## Items -/

/-- What a parser collects before it acts. -/
inductive Reader
  | line
  | exactly (n : Nat)
  | body (n : Nat)
  | nothing

/-- What a parse handler collects. -/
def ParseHandler.reader (q : MmcRequest) : ParseHandler → Reader
  | .asciiParseResponse => .line
  | .asciiParseMutate => .line
  | .asciiParseValue => .line
  | .asciiReadValue => .body ((q.value.length + 2) % 2 ^ 64)
  | .binaryParseResponse => .exactly binaryHeaderSize
  | .binaryParseNull => .nothing
  | .binaryReadResponse => .body q.bin.length
  | .binaryReadMutate => .exactly 8
  | .binaryParseValue => .exactly 4
  | .binaryReadValue => .body q.bin.length

/-- One attempt to collect an item. -/
def collect : Reader → Wire → Option Bytes × Wire
  | .line, w => mmcStreamGetLine w
  | .exactly n, w => mmcStreamGet n w
  | .body n, w =>
    let w := readBody (n - w.req.readbuf.idx) w
    if n ≤ w.req.readbuf.idx then (some w.req.readbuf.value, w) else (none, w)
  | .nothing, w => (some [], w)

/-- The longest line `io->input` has room for, without its terminator. -/
def maxLine : Nat := MMC_BUFFER_SIZE - 1

/-- The item at the start of the bytes. -/
def Reader.item : Reader → Bytes → Option Bytes
  | .line, s => if (lineOf (s.take maxLine)).getLast? = some 10 then some (lineOf (s.take maxLine))
    else none
  | .exactly n, s => if n ≤ s.length then some (s.take n) else none
  | .body n, s => if n ≤ s.length then some (s.take n) else none
  | .nothing, _ => some []

/-- Whether bytes that hold no item can all be buffered. -/
def Reader.Fits : Reader → Bytes → Prop
  | .line, s => s.length ≤ maxLine
  | _, _ => True

/-! ## Lines -/

theorem lineOf_length_le (s : Bytes) : (lineOf s).length ≤ s.length := by
  induction s with
  | nil => simp [lineOf]
  | cons b rest ih =>
    rw [lineOf]
    split
    · simp
    · simpa using ih

theorem lineOf_of_not_mem {s : Bytes} (h : 10 ∉ s) : lineOf s = s := by
  induction s with
  | nil => rfl
  | cons b rest ih =>
    rw [List.mem_cons, not_or] at h
    rw [lineOf, if_neg (Ne.symm h.1), ih h.2]

theorem lineOf_append_of_not_mem {s : Bytes} (h : 10 ∉ s) (t : Bytes) :
    lineOf (s ++ t) = s ++ lineOf t := by
  induction s with
  | nil => rfl
  | cons b rest ih =>
    rw [List.mem_cons, not_or] at h
    rw [List.cons_append, lineOf, if_neg (Ne.symm h.1), ih h.2]
    rfl

/-- A line either ends with a newline or is all there is, without a newline. -/
theorem lineOf_cases (s : Bytes) :
    (∃ line rest, 10 ∉ line ∧ s = line ++ 10 :: rest ∧ lineOf s = line ++ [10]) ∨
      (10 ∉ s ∧ lineOf s = s) := by
  induction s with
  | nil => exact Or.inr ⟨by simp, rfl⟩
  | cons b rest ih =>
    by_cases hb : b = 10
    · exact Or.inl ⟨[], rest, by simp, by rw [hb]; rfl, by rw [lineOf, if_pos hb, hb]; rfl⟩
    · rw [lineOf, if_neg hb]
      rcases ih with ⟨line, rest', hline, hs, hl⟩ | ⟨hmem, hl⟩
      · refine Or.inl ⟨b :: line, rest', ?_, by rw [hs]; rfl, by rw [hl]; rfl⟩
        rw [List.mem_cons, not_or]
        exact ⟨Ne.symm hb, hline⟩
      · refine Or.inr ⟨?_, by rw [hl]⟩
        rw [List.mem_cons, not_or]
        exact ⟨Ne.symm hb, hmem⟩

/-- **Prefix stability of lines**: a line found in some bytes is found when more follow. -/
theorem lineOf_append {s : Bytes} (h : (lineOf s).getLast? = some 10) (t : Bytes) :
    lineOf (s ++ t) = lineOf s := by
  rcases lineOf_cases s with ⟨line, rest, hline, hs, hl⟩ | ⟨hmem, hl⟩
  · rw [hl, hs, List.append_assoc, lineOf_append_of_not_mem hline, List.cons_append, lineOf, if_pos rfl]
  · rw [hl] at h
    exact absurd (List.mem_of_getLast? h) hmem

/-- A line with a newline is a prefix. -/
theorem lineOf_take (s : Bytes) : s.take (lineOf s).length = lineOf s := by
  rcases lineOf_cases s with ⟨line, rest, _, hs, hl⟩ | ⟨_, hl⟩
  · rw [hl, hs, show line ++ 10 :: rest = (line ++ [10]) ++ rest by simp, List.take_left]
  · rw [hl, List.take_length]

/-! ## Buffered bytes -/

/-- The bytes already read but not acted on. -/
def Wire.buffered (w : Wire) : Bytes := w.io.input ++ w.req.readbuf.value

/-- All bytes that were received and not acted on. -/
def Wire.received (w : Wire) : Bytes := w.buffered ++ w.chunks.flatten

/-- Everything but the bytes. -/
def Wire.core (w : Wire) : Wire where
  io := { w.io with input := [] }
  chunks := []
  req := { w.req with readbuf := {} }
  calls := w.calls

/-- The buffers hold a part of the item that is being collected. -/
def Reader.Holds (r : Reader) (w : Wire) : Prop :=
  match r with
  | .line => w.req.readbuf = {} ∧ 10 ∉ w.io.input ∧ w.io.input.length ≤ maxLine
  | .exactly n => w.req.readbuf = {} ∧ w.io.input.length ≤ n
  | .body n => w.io.input = [] ∧ w.req.readbuf.idx = w.req.readbuf.value.length ∧
      w.req.readbuf.idx ≤ n
  | .nothing => w.req.readbuf = {} ∧ w.io.input = []

/-- What is left in `readbuf` when the item is complete. -/
def Reader.kept : Reader → Bytes → MmcBuffer
  | .body _, b => { value := b, idx := b.length }
  | _, _ => {}

/-- What is left of the stream, for the measure of a read. -/
def pendingWork (chunks : List Bytes) : Nat := (chunks.map fun c => c.length + 1).sum

@[simp]
theorem pendingWork_nil : pendingWork [] = 0 := rfl

@[simp]
theorem pendingWork_cons (c : Bytes) (rest : List Bytes) :
    pendingWork (c :: rest) = c.length + 1 + pendingWork rest := by
  simp [pendingWork]

/-! ## One read -/

theorem readChunk_flatten (count : Nat) (chunks : List Bytes) :
    (readChunk count chunks).1 ++ (readChunk count chunks).2.flatten = chunks.flatten := by
  cases chunks with
  | nil => rfl
  | cons c rest =>
    simp only [readChunk]
    split
    · rename_i h
      rw [List.take_of_length_le h, List.flatten_cons]
    · rw [List.flatten_cons, List.flatten_cons, ← List.append_assoc, List.take_append_drop]

theorem readChunk_length (count : Nat) (chunks : List Bytes) :
    (readChunk count chunks).1.length ≤ count := by
  cases chunks with
  | nil => exact Nat.zero_le _
  | cons c rest => exact List.length_take_le _ _

/-- A read that leaves the stream unfinished, or that has room for more, makes progress. -/
theorem readChunk_pendingWork {count : Nat} {chunks : List Bytes} (h : 0 < count) :
    (readChunk count chunks).2 = [] ∨
      pendingWork (readChunk count chunks).2 < pendingWork chunks := by
  cases chunks with
  | nil => exact Or.inl rfl
  | cons c rest =>
    right
    simp only [readChunk, pendingWork_cons]
    split
    · omega
    · rw [pendingWork_cons, List.length_drop]
      omega

theorem readLineChunk_flatten (maxlen : Nat) (chunks : List Bytes) :
    (readLineChunk maxlen chunks).1 ++ (readLineChunk maxlen chunks).2.flatten = chunks.flatten := by
  cases chunks with
  | nil => rfl
  | cons c rest =>
    have htake : c.take (lineOf (c.take (maxlen - 1))).length = lineOf (c.take (maxlen - 1)) := by
      have hle := lineOf_length_le (c.take (maxlen - 1))
      have hline := lineOf_take (c.take (maxlen - 1))
      rw [List.length_take] at hle
      rw [List.take_take, Nat.min_eq_left (by omega)] at hline
      exact hline
    simp only [readLineChunk]
    split
    · rename_i h
      rw [List.take_of_length_le h] at htake
      rw [← htake, List.flatten_cons]
    · rw [List.flatten_cons, List.flatten_cons, ← List.append_assoc]
      nth_rewrite 1 [← htake]
      rw [List.take_append_drop]

/-- A call of `readline` completes the line of the whole stream, or its bytes hold no newline. -/
theorem readLineChunk_line {input : Bytes} (hin : 10 ∉ input) (hlen : input.length ≤ maxLine)
    (chunks : List Bytes) :
    let got := (readLineChunk (MMC_BUFFER_SIZE - input.length) chunks).1
    ((input ++ got).getLast? = some 10 ∧
        lineOf ((input ++ chunks.flatten).take maxLine) = input ++ got) ∨
      ((input ++ got).getLast? ≠ some 10 ∧ 10 ∉ input ++ got ∧ (input ++ got).length ≤ maxLine) := by
  have hnone : input.getLast? ≠ some 10 := fun h => hin (List.mem_of_getLast? h)
  cases chunks with
  | nil => exact Or.inr ⟨by simpa [readLineChunk] using hnone, by simpa [readLineChunk] using hin,
      by simpa [readLineChunk] using hlen⟩
  | cons c rest =>
    have hroom : MMC_BUFFER_SIZE - input.length - 1 = maxLine - input.length := by
      unfold maxLine
      omega
    simp only [readLineChunk, hroom]
    rcases lineOf_cases (c.take (maxLine - input.length)) with ⟨line, tail, hline, hs, hl⟩ | ⟨hmem, hl⟩
    · -- the newline is in this chunk
      left
      have hlast : (lineOf (c.take (maxLine - input.length))).getLast? = some 10 := by
        rw [hl, List.getLast?_concat]
      constructor
      · rw [hl, ← List.append_assoc, List.getLast?_concat]
      · rw [List.take_append, List.take_of_length_le hlen, List.flatten_cons, List.take_append,
          lineOf_append_of_not_mem hin, lineOf_append hlast]
    · right
      rw [hl]
      have hmem' : 10 ∉ input ++ c.take (maxLine - input.length) := by
        rw [List.mem_append, not_or]
        exact ⟨hin, hmem⟩
      refine ⟨fun h => hmem' (List.mem_of_getLast? h), hmem', ?_⟩
      rw [List.length_append, List.length_take]
      omega

/-- A `readline` without a newline makes progress while the buffer has room. -/
theorem readLineChunk_pendingWork {maxlen : Nat} {chunks : List Bytes} (hroom : 1 < maxlen)
    (h : 10 ∉ (readLineChunk maxlen chunks).1) :
    (readLineChunk maxlen chunks).2 = [] ∨
      pendingWork (readLineChunk maxlen chunks).2 < pendingWork chunks := by
  cases chunks with
  | nil => exact Or.inl rfl
  | cons c rest =>
    right
    have hgot : lineOf (c.take (maxlen - 1)) = c.take (maxlen - 1) := by
      rcases lineOf_cases (c.take (maxlen - 1)) with ⟨line, tail, _, _, hl⟩ | ⟨_, hl⟩
      · refine absurd ?_ h
        simp only [readLineChunk]
        rw [hl]
        exact List.mem_append_right _ (List.mem_singleton.mpr rfl)
      · exact hl
    simp only [readLineChunk, hgot, pendingWork_cons, List.length_take]
    split
    · omega
    · rw [pendingWork_cons, List.length_drop]
      omega

/-- A `readline` on a stream without bytes makes progress. -/
theorem readLineChunk_pendingWork_empty (maxlen : Nat) {chunks : List Bytes}
    (h : chunks.flatten = []) :
    (readLineChunk maxlen chunks).2 = [] ∨
      pendingWork (readLineChunk maxlen chunks).2 < pendingWork chunks := by
  cases chunks with
  | nil => exact Or.inl rfl
  | cons c rest =>
    right
    rw [List.flatten_cons, List.append_eq_nil_iff] at h
    simp [readLineChunk, h.1]

/-! ## Collecting an item -/

/-- An attempt that collected the item `b`: it is the item at the start of the received bytes, and
    what follows it is still in the stream. -/
structure Reader.Complete (r : Reader) (w : Wire) (b : Bytes) (v : Wire) : Prop where
  item : r.item w.received = some b
  received : w.received = b ++ v.chunks.flatten
  input : v.io.input = []
  readbuf : v.req.readbuf = r.kept b
  core : v.core = w.core

/-- An attempt that found only a part of the item: the part is kept, and there is less to read unless
    the buffer is full. -/
structure Reader.Partial (r : Reader) (w v : Wire) : Prop where
  holds : r.Holds v
  received : v.received = w.received
  core : v.core = w.core
  starved : v.chunks = [] → r.item w.received = none ∧ r.Fits w.received
  progress : r.item w.received ≠ none ∨ r.Fits w.received →
    v.chunks = [] ∨ pendingWork v.chunks < pendingWork w.chunks

/-- What an attempt to collect an item does. -/
def Reader.Attempt (r : Reader) (w : Wire) : Option Bytes × Wire → Prop
  | (some b, v) => r.Complete w b v
  | (none, v) => r.Partial w v

theorem mmcStreamGetLine_attempt {w : Wire} (hw : Reader.line.Holds w) :
    Reader.line.Attempt w (mmcStreamGetLine w) := by
  obtain ⟨hbuf, hin, hlen⟩ := hw
  have hflat := readLineChunk_flatten (MMC_BUFFER_SIZE - w.io.input.length) w.chunks
  have hrec : w.received = w.io.input ++ w.chunks.flatten := by
    simp only [Wire.received, Wire.buffered, hbuf, List.append_nil]
  simp only [mmcStreamGetLine]
  rcases readLineChunk_line hin hlen w.chunks with ⟨hlast, hline⟩ | ⟨hlast, hmem, hlen'⟩
  · rw [if_pos hlast]
    rw [← hrec] at hline
    refine ⟨?_, ?_, rfl, hbuf, rfl⟩
    · rw [Reader.item, hline, if_pos hlast]
    · rw [hrec, ← hflat, List.append_assoc]
  · rw [if_neg hlast]
    refine ⟨⟨hbuf, hmem, hlen'⟩, ?_, rfl, ?_, ?_⟩
    · simp only [Wire.received, Wire.buffered, hbuf, List.append_nil, List.append_assoc, hflat]
    · intro hchunks
      dsimp only at hchunks
      have hall : w.received = w.io.input
          ++ (readLineChunk (MMC_BUFFER_SIZE - w.io.input.length) w.chunks).1 := by
        rw [hrec, ← hflat, hchunks, List.flatten_nil, List.append_nil]
      rw [Reader.item, hall, List.take_of_length_le hlen', lineOf_of_not_mem hmem]
      exact ⟨if_neg hlast, hlen'⟩
    · intro hprogress
      dsimp only
      by_cases hroom : w.io.input.length < maxLine
      · refine readLineChunk_pendingWork ?_ (fun h => hmem (List.mem_append_right _ h))
        unfold maxLine at hroom
        omega
      · -- the buffer is full: its bytes hold no line, so only empty chunks can be left
        have hfull : w.received.take maxLine = w.io.input := by
          rw [hrec, List.take_append, List.take_of_length_le hlen,
            show maxLine - w.io.input.length = 0 by omega, List.take_zero, List.append_nil]
        have hnone : Reader.line.item w.received = none := by
          rw [Reader.item, hfull, lineOf_of_not_mem hin]
          exact if_neg (fun h => hin (List.mem_of_getLast? h))
        have hfits : w.received.length ≤ maxLine := hprogress.resolve_left (not_not_intro hnone)
        refine readLineChunk_pendingWork_empty _ ?_
        rw [hrec, List.length_append] at hfits
        exact List.eq_nil_of_length_eq_zero (by omega)

/-- Both readers of `n` bytes find the `n` bytes at the start. -/
theorem item_of_length {n : Nat} {b : Bytes} (h : b.length = n) (rest : Bytes) :
    (if n ≤ (b ++ rest).length then some ((b ++ rest).take n) else none) = some b := by
  subst h
  rw [List.take_left, if_pos (by rw [List.length_append]; omega)]

theorem mmcStreamGet_attempt {n : Nat} {w : Wire} (hw : (Reader.exactly n).Holds w) :
    (Reader.exactly n).Attempt w (mmcStreamGet n w) := by
  obtain ⟨hbuf, hlen⟩ := hw
  have hflat := readChunk_flatten (n - w.io.input.length) w.chunks
  have hgot := readChunk_length (n - w.io.input.length) w.chunks
  have hrec : w.received = w.io.input ++ (readChunk (n - w.io.input.length) w.chunks).1
      ++ (readChunk (n - w.io.input.length) w.chunks).2.flatten := by
    rw [List.append_assoc, hflat]
    simp only [Wire.received, Wire.buffered, hbuf, List.append_nil]
  have hle : (w.io.input ++ (readChunk (n - w.io.input.length) w.chunks).1).length ≤ n := by
    rw [List.length_append]
    omega
  simp only [mmcStreamGet]
  split
  · rename_i hdone
    refine ⟨?_, hrec, rfl, hbuf, rfl⟩
    rw [Reader.item, hrec]
    exact item_of_length (Nat.le_antisymm hle hdone) _
  · rename_i hmore
    refine ⟨⟨hbuf, hle⟩, ?_, rfl, ?_, ?_⟩
    · rw [hrec]
      simp only [Wire.received, Wire.buffered, hbuf, List.append_nil]
    · intro hchunks
      dsimp only at hchunks
      rw [hchunks, List.flatten_nil, List.append_nil] at hrec
      rw [Reader.item, hrec]
      exact ⟨if_neg hmore, trivial⟩
    · intro _
      refine readChunk_pendingWork ?_
      rw [List.length_append] at hmore
      omega

theorem readBody_attempt {n : Nat} {w : Wire} (hw : (Reader.body n).Holds w) :
    (Reader.body n).Attempt w (collect (.body n) w) := by
  obtain ⟨hin, hidx, hlen⟩ := hw
  have hflat := readChunk_flatten (n - w.req.readbuf.idx) w.chunks
  have hgot := readChunk_length (n - w.req.readbuf.idx) w.chunks
  have hrec : w.received = w.req.readbuf.value ++ (readChunk (n - w.req.readbuf.idx) w.chunks).1
      ++ (readChunk (n - w.req.readbuf.idx) w.chunks).2.flatten := by
    rw [List.append_assoc, hflat]
    simp only [Wire.received, Wire.buffered, hin, List.nil_append]
  have hidx' : w.req.readbuf.idx + (readChunk (n - w.req.readbuf.idx) w.chunks).1.length
      = (w.req.readbuf.value ++ (readChunk (n - w.req.readbuf.idx) w.chunks).1).length := by
    rw [List.length_append, hidx]
  unfold collect
  by_cases hdone : n ≤ (readBody (n - w.req.readbuf.idx) w).req.readbuf.idx
  · dsimp only
    rw [if_pos hdone]
    simp only [readBody] at hdone
    refine ⟨?_, hrec, hin, ?_, rfl⟩
    · rw [Reader.item, hrec]
      exact item_of_length (by omega) _
    · simp only [readBody, Reader.kept, hidx']
  · dsimp only
    rw [if_neg hdone]
    simp only [readBody] at hdone
    refine ⟨⟨hin, hidx', Nat.le_of_not_le hdone⟩, ?_, rfl, ?_, ?_⟩
    · rw [hrec]
      change w.io.input ++ _ ++ _ = _
      rw [hin, List.nil_append]
      rfl
    · intro (hchunks : (readChunk (n - w.req.readbuf.idx) w.chunks).2 = [])
      rw [hchunks, List.flatten_nil, List.append_nil] at hrec
      rw [Reader.item, hrec]
      exact ⟨if_neg (by omega), trivial⟩
    · intro _
      exact readChunk_pendingWork (by omega)

/-- **One attempt**: on a stream that holds a part of the item, an attempt completes it or keeps what
    it got. -/
theorem collect_attempt {r : Reader} {w : Wire} (hw : r.Holds w) : r.Attempt w (collect r w) := by
  cases r with
  | line => exact mmcStreamGetLine_attempt hw
  | exactly n => exact mmcStreamGet_attempt hw
  | body n => exact readBody_attempt hw
  | nothing =>
    refine ⟨rfl, ?_, hw.2, hw.1, rfl⟩
    simp only [Wire.received, Wire.buffered, hw.1, hw.2, List.append_nil]

/-! ## Acting on an item -/

/-- The same stream with other data behind what was read. -/
def Wire.withChunks (w : Wire) (chunks : List Bytes) : Wire := { w with chunks }

theorem Wire.respond_withChunks (H : Handlers) (w : Wire) (chunks : List Bytes) (response : Int)
    (message : Bytes) (len : Nat) :
    (w.withChunks chunks).respond H response message len
      = ((w.respond H response message len).1,
        (w.respond H response message len).2.withChunks chunks) := by
  unfold respond
  dsimp only [withChunks]
  cases H.respond response message len <;> rfl

theorem Wire.unpackValue_withChunks (H : Handlers) (w : Wire) (chunks : List Bytes)
    (data key : Bytes) (flags cas count : Nat) :
    (w.withChunks chunks).unpackValue H data key flags cas count
      = (w.unpackValue H data key flags cas count).withChunks chunks := by
  unfold unpackValue
  dsimp only [withChunks]
  cases H.unpack flags (data.take (count % 2 ^ 32)) <;> rfl

theorem collect_body_none {n : Nat} {w v : Wire} (h : collect (.body n) w = (none, v)) :
    ¬ n ≤ (readBody (n - w.req.readbuf.idx) w).req.readbuf.idx ∧
      v = readBody (n - w.req.readbuf.idx) w := by
  unfold collect at h
  dsimp only at h
  split at h
  · cases h
  · rename_i hmore
    exact ⟨hmore, (congrArg Prod.snd h).symm⟩

theorem collect_body_some {n : Nat} {w v : Wire} {b : Bytes}
    (h : collect (.body n) w = (some b, v)) :
    n ≤ (readBody (n - w.req.readbuf.idx) w).req.readbuf.idx ∧
      v = readBody (n - w.req.readbuf.idx) w ∧ b = v.req.readbuf.value := by
  unfold collect at h
  dsimp only at h
  split at h
  · rename_i hdone
    cases h
    exact ⟨hdone, rfl, rfl⟩
  · cases h

/-- A handler that finds no complete item asks for more. -/
theorem runHandler_more (H : Handlers) {w v : Wire} {h : ParseHandler}
    (hc : collect (h.reader w.req) w = (none, v)) : runHandler H w h = (.more, v) := by
  cases h with
  | asciiParseResponse =>
    change mmcStreamGetLine w = _ at hc
    simp only [runHandler, asciiParseResponse, hc]
  | asciiParseMutate =>
    change mmcStreamGetLine w = _ at hc
    simp only [runHandler, asciiParseMutate, hc]
  | asciiParseValue =>
    change mmcStreamGetLine w = _ at hc
    simp only [runHandler, asciiParseValue, hc]
  | asciiReadValue =>
    obtain ⟨hmore, rfl⟩ := collect_body_none hc
    exact if_neg hmore
  | binaryParseResponse =>
    change mmcStreamGet binaryHeaderSize w = _ at hc
    simp only [runHandler, binaryParseResponse, hc]
  | binaryParseNull => cases hc
  | binaryReadResponse =>
    obtain ⟨hmore, rfl⟩ := collect_body_none hc
    exact if_neg hmore
  | binaryReadMutate =>
    change mmcStreamGet 8 w = _ at hc
    simp only [runHandler, binaryReadMutate, hc]
  | binaryParseValue =>
    change mmcStreamGet 4 w = _ at hc
    simp only [runHandler, binaryParseValue, hc]
  | binaryReadValue =>
    obtain ⟨hmore, rfl⟩ := collect_body_none hc
    exact if_neg hmore

/-- The buffers a handler that acted leaves behind: empty, except that the text of an error stays in
    `readbuf`. -/
def Wire.Settled (w : Wire) : Prop :=
  w.io.input = [] ∧
    (w.req.readbuf = {} ∨
      w.req.parse = some .binaryReadResponse ∧ w.req.readbuf.idx = w.req.readbuf.value.length ∧
        w.req.readbuf.idx ≤ w.req.bin.length)

theorem Wire.failure_settled {w : Wire} (h : w.Settled) :
    w.failure.1 ≠ .more ∧ w.failure.1 ≠ .again ∧ w.failure.2.Settled := by
  simp only [failure, MmcStream.serverFailure]
  split <;> exact ⟨by simp, by simp, h⟩

theorem Wire.respond_settled (H : Handlers) {w : Wire} (h : w.Settled) (response : Int)
    (message : Bytes) (len : Nat) :
    (w.respond H response message len).1 ≠ .more ∧
      (w.respond H response message len).2.Settled := by
  unfold respond
  dsimp only
  split
  · exact ⟨by simp, h⟩
  · exact ⟨by simp, h⟩
  · have hfail := Wire.failure_settled (w := { w with calls := w.calls ++
      [.response response message len] }) h
    exact ⟨hfail.1, hfail.2.2⟩
  · exact ⟨by simp, h⟩

theorem Wire.unpackValue_settled (H : Handlers) {w : Wire} (h : w.Settled) (data key : Bytes)
    (flags cas count : Nat) : (w.unpackValue H data key flags cas count).Settled := by
  unfold unpackValue
  split <;> exact h

/-- What a handler that has its item does: it does not ask for more, and what lies behind the item
    makes no difference. -/
def Acts (run : Wire → MmcResult × Wire) (reader : MmcRequest → Reader) (w : Wire) (b : Bytes)
    (v : Wire) : Prop :=
  (run w).1 ≠ .more ∧ (run w).2.Settled ∧
    ∀ w₂ chunks, collect (reader w₂.req) w₂ = (some b, v.withChunks chunks) →
      run w₂ = ((run w).1, (run w).2.withChunks chunks)

theorem asciiParseResponse_acts (H : Handlers) {w v : Wire} {b : Bytes} (hv : v.Settled)
    (he : mmcStreamGetLine w = (some b, v)) :
    Acts (asciiParseResponse H) (fun _ => .line) w b v := by
  have hrespond := Wire.respond_settled H hv (mmcRequestCheckResponse b) (chopLine b) (messageLen b)
  unfold Acts asciiParseResponse
  rw [he]
  refine ⟨hrespond.1, hrespond.2, ?_⟩
  intro w₂ chunks (he₂ : mmcStreamGetLine w₂ = _)
  simp only [he₂, Wire.respond_withChunks]

theorem asciiParseMutate_acts (H : Handlers) {w v : Wire} {b : Bytes} (hv : v.Settled)
    (he : mmcStreamGetLine w = (some b, v)) :
    Acts (asciiParseMutate H) (fun _ => .line) w b v := by
  unfold Acts asciiParseMutate
  rw [he]
  dsimp only
  refine ⟨?_, ?_, ?_⟩
  · split
    · exact (Wire.respond_settled H hv _ _ _).1
    · split
      · exact (Wire.failure_settled hv).1
      · simp
  · split
    · exact (Wire.respond_settled H hv _ _ _).2
    · split
      · exact (Wire.failure_settled hv).2.2
      · exact hv
  · intro w₂ chunks (he₂ : mmcStreamGetLine w₂ = _)
    rw [he₂]
    dsimp only
    split
    · exact Wire.respond_withChunks H v chunks _ _ _
    · split <;> rfl

theorem asciiParseValue_acts {w v : Wire} {b : Bytes} (hv : v.Settled) (hbuf : v.req.readbuf = {})
    (he : mmcStreamGetLine w = (some b, v)) : Acts asciiParseValue (fun _ => .line) w b v := by
  unfold Acts asciiParseValue
  rw [he]
  dsimp only
  refine ⟨?_, ?_, ?_⟩
  · split
    · simp
    · split
      · exact (Wire.failure_settled (w := { v with req := { v.req with
          value := v.req.value.scan b } }) ⟨hv.1, Or.inl hbuf⟩).1
      · simp
  · split
    · exact hv
    · split
      · exact (Wire.failure_settled (w := { v with req := { v.req with
          value := v.req.value.scan b } }) ⟨hv.1, Or.inl hbuf⟩).2.2
      · exact ⟨hv.1, Or.inl hbuf⟩
  · intro w₂ chunks (he₂ : mmcStreamGetLine w₂ = _)
    rw [he₂]
    dsimp only
    split
    · rfl
    · split <;> rfl

/-- The value is handed over and the next line is awaited. -/
theorem asciiReadValue_of_collect (H : Handlers) {w v : Wire} {b : Bytes}
    (he : collect (.body ((w.req.value.length + 2) % 2 ^ 64)) w = (some b, v)) :
    asciiReadValue H w = (.again,
      (v.withReq { v.req with parse := some .asciiParseValue, readbuf := {} }).unpackValue H b
        v.req.value.key v.req.value.flags v.req.value.cas v.req.value.length) := by
  obtain ⟨hdone, rfl, rfl⟩ := collect_body_some he
  exact if_pos hdone

theorem asciiReadValue_acts (H : Handlers) {w v : Wire} {b : Bytes} (hin : v.io.input = [])
    (he : collect (.body ((w.req.value.length + 2) % 2 ^ 64)) w = (some b, v)) :
    Acts (asciiReadValue H) (fun q => .body ((q.value.length + 2) % 2 ^ 64)) w b v := by
  unfold Acts
  rw [asciiReadValue_of_collect H he]
  refine ⟨by simp, Wire.unpackValue_settled H ?_ _ _ _ _ _, ?_⟩
  · exact ⟨hin, Or.inl rfl⟩
  · intro w₂ chunks he₂
    rw [asciiReadValue_of_collect H he₂]
    rw [Wire.unpackValue_withReq, Wire.unpackValue_withReq, Wire.unpackValue_withChunks]
    rfl

theorem binaryParseResponse_acts (H : Handlers) {w v : Wire} {b : Bytes} (hv : v.Settled)
    (hbuf : v.req.readbuf = {}) (he : mmcStreamGet binaryHeaderSize w = (some b, v)) :
    Acts (binaryParseResponse H) (fun _ => .exactly binaryHeaderSize) w b v := by
  have hset : ∀ parse bin, ({ v with req := { v.req with parse, bin } } : Wire).Settled :=
    fun _ _ => ⟨hv.1, Or.inl hbuf⟩
  unfold Acts binaryParseResponse
  rw [he]
  dsimp only
  refine ⟨?_, ?_, ?_⟩
  · split
    · exact (Wire.failure_settled hv).1
    · split
      · simp
      · split
        · exact (Wire.respond_settled H (hset _ _) _ _ _).1
        · split <;> simp
  · split
    · exact (Wire.failure_settled hv).2.2
    · split
      · exact hv
      · split
        · exact (Wire.respond_settled H (hset _ _) _ _ _).2
        · split <;> exact hset _ _
  · intro w₂ chunks (he₂ : mmcStreamGet binaryHeaderSize w₂ = _)
    rw [he₂]
    dsimp only
    split
    · rfl
    · split
      · rfl
      · split
        · exact Wire.respond_withChunks H { v with req := { v.req with
            bin := v.req.bin.accept (ResponseHeader.ofBytes b) } } chunks _ _ _
        · split <;> rfl

theorem binaryReadResponse_of_collect (H : Handlers) {w v : Wire} {b : Bytes}
    (he : collect (.body w.req.bin.length) w = (some b, v)) :
    binaryReadResponse H w
      = v.respond H v.req.bin.error (b.take v.req.bin.length) v.req.bin.length := by
  obtain ⟨hdone, rfl, rfl⟩ := collect_body_some he
  exact if_pos hdone

theorem binaryReadResponse_acts (H : Handlers) {w v : Wire} {b : Bytes} (hv : v.Settled)
    (he : collect (.body w.req.bin.length) w = (some b, v)) :
    Acts (binaryReadResponse H) (fun q => .body q.bin.length) w b v := by
  have hrespond := Wire.respond_settled H hv v.req.bin.error (b.take v.req.bin.length)
    v.req.bin.length
  unfold Acts
  rw [binaryReadResponse_of_collect H he]
  refine ⟨hrespond.1, hrespond.2, ?_⟩
  intro w₂ chunks he₂
  rw [binaryReadResponse_of_collect H he₂]
  exact Wire.respond_withChunks H v chunks _ _ _

theorem binaryReadMutate_acts {w v : Wire} {b : Bytes} (hv : v.Settled)
    (he : mmcStreamGet 8 w = (some b, v)) : Acts binaryReadMutate (fun _ => .exactly 8) w b v := by
  unfold Acts binaryReadMutate
  rw [he]
  refine ⟨by simp, hv, ?_⟩
  intro w₂ chunks (he₂ : mmcStreamGet 8 w₂ = _)
  rw [he₂]
  rfl

theorem binaryParseValue_acts {w v : Wire} {b : Bytes} (hv : v.Settled) (hbuf : v.req.readbuf = {})
    (he : mmcStreamGet 4 w = (some b, v)) : Acts binaryParseValue (fun _ => .exactly 4) w b v := by
  unfold Acts binaryParseValue
  rw [he]
  refine ⟨by simp, ⟨hv.1, Or.inl hbuf⟩, ?_⟩
  intro w₂ chunks (he₂ : mmcStreamGet 4 w₂ = _)
  rw [he₂]
  rfl

/-- The value is handed over and the next header is awaited, unless this was the last value. -/
theorem binaryReadValue_of_collect (H : Handlers) {w v : Wire} {b : Bytes}
    (he : collect (.body w.req.bin.length) w = (some b, v)) :
    binaryReadValue H w =
      (if v.req.bin.opcode = MMC_OP_GET ∨ v.req.bin.keys.length ≤ v.req.bin.reqid then .done
        else .again,
      (v.withReq { v.req with
        parse := some (if v.req.bin.opcode = MMC_OP_GET then .binaryParseNull
          else .binaryParseResponse)
        readbuf := {} }).unpackValue H b ((binaryKey v.req).getD []) v.req.bin.flags v.req.bin.cas
          v.req.bin.length) := by
  obtain ⟨hdone, rfl, rfl⟩ := collect_body_some he
  exact binaryReadValue_complete H w hdone

theorem binaryReadValue_acts (H : Handlers) {w v : Wire} {b : Bytes} (hin : v.io.input = [])
    (he : collect (.body w.req.bin.length) w = (some b, v)) :
    Acts (binaryReadValue H) (fun q => .body q.bin.length) w b v := by
  unfold Acts
  rw [binaryReadValue_of_collect H he]
  refine ⟨?_, Wire.unpackValue_settled H ?_ _ _ _ _ _, ?_⟩
  · dsimp only
    split <;> simp
  · exact ⟨hin, Or.inl rfl⟩
  · intro w₂ chunks he₂
    rw [binaryReadValue_of_collect H he₂]
    rw [Wire.unpackValue_withReq, Wire.unpackValue_withReq, Wire.unpackValue_withChunks]
    rfl

/-- **A handler that has its item** acts on it. -/
theorem runHandler_acts (H : Handlers) {w v : Wire} {h : ParseHandler} {b : Bytes}
    (hparse : w.req.parse = some h) (hw : (h.reader w.req).Holds w)
    (he : collect (h.reader w.req) w = (some b, v)) :
    Acts (fun w => runHandler H w h) h.reader w b v := by
  have hc : (h.reader w.req).Attempt w (some b, v) := he ▸ collect_attempt hw
  have hbuf := hc.readbuf
  cases h with
  | asciiParseResponse => exact asciiParseResponse_acts H ⟨hc.input, Or.inl hbuf⟩ he
  | asciiParseMutate => exact asciiParseMutate_acts H ⟨hc.input, Or.inl hbuf⟩ he
  | asciiParseValue => exact asciiParseValue_acts ⟨hc.input, Or.inl hbuf⟩ hbuf he
  | asciiReadValue => exact asciiReadValue_acts H hc.input he
  | binaryParseResponse => exact binaryParseResponse_acts H ⟨hc.input, Or.inl hbuf⟩ hbuf he
  | binaryParseNull =>
    cases he
    exact ⟨by simp [runHandler], ⟨hc.input, Or.inl hbuf⟩, fun w₂ chunks he₂ => by cases he₂; rfl⟩
  | binaryReadResponse =>
    have hv : v.req.parse = some .binaryReadResponse :=
      (congrArg (fun c => c.req.parse) hc.core).trans hparse
    have hbin : v.req.bin = w.req.bin := congrArg (fun c => c.req.bin) hc.core
    have hlen : b.length ≤ w.req.bin.length := by
      have hitem := hc.item
      simp only [ParseHandler.reader, Reader.item] at hitem
      split at hitem
      · cases hitem
        exact List.length_take_le _ _
      · cases hitem
    refine binaryReadResponse_acts H ⟨hc.input, Or.inr ⟨hv, ?_, ?_⟩⟩ he
    · rw [hbuf]
      rfl
    · rw [hbuf, hbin]
      exact hlen
  | binaryReadMutate => exact binaryReadMutate_acts ⟨hc.input, Or.inl hbuf⟩ he
  | binaryParseValue => exact binaryParseValue_acts ⟨hc.input, Or.inl hbuf⟩ hbuf he
  | binaryReadValue => exact binaryReadValue_acts H hc.input he

/-! ## Running the parser -/

/-- The parser is run until it stops asking for more, or until the stream ends while it asks: the
    last result and the stream it leaves. -/
inductive Runs (H : Handlers) : Wire → MmcResult → Wire → Prop
  | stop {w w' : Wire} {result : MmcResult} : parseRequest H w = some (result, w') →
      result ≠ .more → result ≠ .again → Runs H w result w'
  | starved {w w' : Wire} : parseRequest H w = some (.more, w') → w'.chunks = [] →
      Runs H w .more w'
  | more {w w₁ w' : Wire} {result : MmcResult} : parseRequest H w = some (.more, w₁) →
      w₁.chunks ≠ [] → Runs H w₁ result w' → Runs H w result w'
  | again {w w₁ w' : Wire} {result : MmcResult} : parseRequest H w = some (.again, w₁) →
      Runs H w₁ result w' → Runs H w result w'

/-- What is seen of a run: the calls of handlers, the result and the bytes that are left. -/
def Sees (H : Handlers) (w : Wire) (calls : List HandlerCall) (result : MmcResult)
    (rest : Bytes) : Prop :=
  ∃ w', Runs H w result w' ∧ w'.calls = calls ∧ w'.chunks.flatten = rest

/-- Two streams with the same bytes, cut in different places, before the same parser. -/
structure Alike (w₁ w₂ : Wire) : Prop where
  core : w₁.core = w₂.core
  received : w₁.received = w₂.received
  holds₁ : ∀ h, w₁.req.parse = some h → (h.reader w₁.req).Holds w₁
  holds₂ : ∀ h, w₂.req.parse = some h → (h.reader w₂.req).Holds w₂

theorem Alike.parse {w₁ w₂ : Wire} (h : Alike w₁ w₂) : w₁.req.parse = w₂.req.parse :=
  congrArg (fun c => c.req.parse) h.core

theorem Alike.calls {w₁ w₂ : Wire} (h : Alike w₁ w₂) : w₁.calls = w₂.calls :=
  congrArg (fun c => c.calls) h.core

/-- The reader depends on nothing but what was parsed before. -/
theorem reader_core (w : Wire) (h : ParseHandler) : h.reader w.core.req = h.reader w.req := by
  cases h <;> rfl

theorem Alike.reader {w₁ w₂ : Wire} (hw : Alike w₁ w₂) (h : ParseHandler) :
    h.reader w₁.req = h.reader w₂.req := by
  rw [← reader_core w₁, ← reader_core w₂, hw.core]

/-- Settled buffers hold a part of whatever is collected next. -/
theorem Wire.Settled.holds {w : Wire} (h : w.Settled) (p : ParseHandler)
    (hp : w.req.parse = some p) : (p.reader w.req).Holds w := by
  obtain ⟨hin, hbuf | ⟨hparse, hidx, hlen⟩⟩ := h
  · cases p <;> simp [ParseHandler.reader, Reader.Holds, hin, hbuf]
  · obtain rfl : p = .binaryReadResponse := Option.some.inj (hp.symm.trans hparse)
    exact ⟨hin, hidx, hlen⟩

/-- An attempt that fails leaves a stream like the one before. -/
theorem Reader.Partial.alike {w₁ w₂ v : Wire} {h : ParseHandler} (hw : Alike w₁ w₂)
    (hp : w₂.req.parse = some h) (hv : (h.reader w₂.req).Partial w₂ v) : Alike w₁ v := by
  have hparse : v.req.parse = some h := (congrArg (fun c => c.req.parse) hv.core).trans hp
  refine ⟨hw.core.trans hv.core.symm, hw.received.trans hv.received.symm, hw.holds₁, ?_⟩
  intro h' hh'
  obtain rfl : h' = h := Option.some.inj (hh'.symm.trans hparse)
  rw [← reader_core v, hv.core, reader_core]
  exact hv.holds

theorem Alike.symm {w₁ w₂ : Wire} (h : Alike w₁ w₂) : Alike w₂ w₁ :=
  ⟨h.core.symm, h.received.symm, h.holds₂, h.holds₁⟩

theorem Wire.eq_withChunks {v₁ v₂ : Wire} (hcore : v₁.core = v₂.core)
    (hin : v₁.io.input = v₂.io.input) (hbuf : v₁.req.readbuf = v₂.req.readbuf) :
    v₂ = v₁.withChunks v₂.chunks := by
  have hall : ∀ v : Wire, v = { v.core with
      io := { v.core.io with input := v.io.input }
      chunks := v.chunks
      req := { v.core.req with readbuf := v.req.readbuf } } := fun _ => rfl
  refine (hall v₂).trans ?_
  rw [← hcore, ← hin, ← hbuf]
  rfl

/-- Two streams that completed the same item differ only in how the rest is cut. -/
theorem Reader.Complete.withChunks {r : Reader} {w₁ w₂ v₁ v₂ : Wire} {b₁ b₂ : Bytes}
    (hw : Alike w₁ w₂) (h₁ : r.Complete w₁ b₁ v₁) (h₂ : r.Complete w₂ b₂ v₂) :
    b₂ = b₁ ∧ v₂ = v₁.withChunks v₂.chunks ∧ v₁.chunks.flatten = v₂.chunks.flatten := by
  have hb : b₂ = b₁ := by
    have hitem := h₂.item
    rw [← hw.received, h₁.item] at hitem
    exact (Option.some.inj hitem).symm
  subst hb
  have hcore : v₁.core = v₂.core := h₁.core.trans (hw.core.trans h₂.core.symm)
  refine ⟨rfl, Wire.eq_withChunks hcore (h₁.input.trans h₂.input.symm)
    (h₁.readbuf.trans h₂.readbuf.symm), ?_⟩
  · have hbytes := hw.received
    rw [h₁.received, h₂.received] at hbytes
    exact List.append_cancel_left hbytes

/-- Acting on the same item leaves alike streams. -/
theorem Acts.alike {run : Wire → MmcResult × Wire} {reader : MmcRequest → Reader} {w : Wire}
    {b : Bytes} {v : Wire} (h : Acts run reader w b v) (chunks : List Bytes)
    (hchunks : (run w).2.chunks.flatten = chunks.flatten) :
    Alike (run w).2 ((run w).2.withChunks chunks) := by
  refine ⟨rfl, ?_, h.2.1.holds, ?_⟩
  · exact congrArg (Wire.buffered (run w).2 ++ ·) hchunks
  · exact Wire.Settled.holds (w := (run w).2.withChunks chunks) h.2.1

theorem Sees.more {H : Handlers} {w v : Wire} {calls : List HandlerCall} {result : MmcResult}
    {rest : Bytes} (hmore : parseRequest H w = some (.more, v)) (hchunks : v.chunks ≠ [])
    (h : Sees H v calls result rest) : Sees H w calls result rest := by
  obtain ⟨w', hrun, hcalls, hrest⟩ := h
  exact ⟨w', .more hmore hchunks hrun, hcalls, hrest⟩

theorem Sees.again {H : Handlers} {w v : Wire} {calls : List HandlerCall} {result : MmcResult}
    {rest : Bytes} (hagain : parseRequest H w = some (.again, v)) (h : Sees H v calls result rest) :
    Sees H w calls result rest := by
  obtain ⟨w', hrun, hcalls, hrest⟩ := h
  exact ⟨w', .again hagain hrun, hcalls, hrest⟩

theorem parseRequest_eq (H : Handlers) {w : Wire} {h : ParseHandler} (hp : w.req.parse = some h) :
    parseRequest H w = some (runHandler H w h) := by
  rw [parseRequest, hp, Option.map_some]

/-- Where the other stream completes the item, failed attempts lead to the attempt that does so
    here. -/
theorem Alike.sees_of_collect (H : Handlers) {w₁ w₂ v₁ : Wire} {h : ParseHandler} {b : Bytes}
    {calls : List HandlerCall} {result : MmcResult} {rest : Bytes} (hw : Alike w₁ w₂)
    (hp : w₁.req.parse = some h) (he : collect (h.reader w₁.req) w₁ = (some b, v₁))
    (hsees : ∀ w₂ v₂, Alike w₁ w₂ → collect (h.reader w₂.req) w₂ = (some b, v₂) →
      Sees H w₂ calls result rest) : Sees H w₂ calls result rest := by
  have hc₁ : (h.reader w₁.req).Attempt w₁ (some b, v₁) := he ▸ collect_attempt (hw.holds₁ h hp)
  have hitem : (h.reader w₁.req).item w₁.received ≠ none := by
    rw [hc₁.item]
    exact Option.some_ne_none b
  -- the measure is what is left to read here
  generalize hn : pendingWork w₂.chunks = n
  induction n using Nat.strongRecOn generalizing w₂ with
  | ind n ih =>
    have hp₂ : w₂.req.parse = some h := hw.parse.symm.trans hp
    have hattempt := collect_attempt (hw.holds₂ h hp₂)
    rw [hw.reader, hw.received] at hitem
    rcases he₂ : collect (h.reader w₂.req) w₂ with ⟨_ | b₂, v₂⟩
    · rw [he₂] at hattempt
      have hchunks : v₂.chunks ≠ [] := fun hnil => hitem (hattempt.starved hnil).1
      have hless := (hattempt.progress (Or.inl hitem)).resolve_left hchunks
      refine Sees.more ((parseRequest_eq H hp₂).trans (congrArg some (runHandler_more H he₂))) hchunks ?_
      exact ih _ (hn ▸ hless) (hattempt.alike hw hp₂) rfl
    · rw [he₂, ← hw.reader] at hattempt
      obtain ⟨rfl, _, _⟩ := Reader.Complete.withChunks hw hc₁ hattempt
      exact hsees w₂ v₂ hw he₂

/-- Where the other stream ends within an item, it ends here. -/
theorem Alike.sees_of_starved (H : Handlers) {w₁ w₂ v₁ : Wire} {h : ParseHandler} (hw : Alike w₁ w₂)
    (hp : w₁.req.parse = some h) (he : collect (h.reader w₁.req) w₁ = (none, v₁))
    (hnil : v₁.chunks = []) : Sees H w₂ v₁.calls .more [] := by
  have hc₁ : (h.reader w₁.req).Attempt w₁ (none, v₁) := he ▸ collect_attempt (hw.holds₁ h hp)
  obtain ⟨hnone, hfits⟩ := hc₁.starved hnil
  generalize hn : pendingWork w₂.chunks = n
  induction n using Nat.strongRecOn generalizing w₂ with
  | ind n ih =>
    have hp₂ : w₂.req.parse = some h := hw.parse.symm.trans hp
    have hattempt := collect_attempt (hw.holds₂ h hp₂)
    rcases he₂ : collect (h.reader w₂.req) w₂ with ⟨_ | b₂, v₂⟩
    · rw [he₂] at hattempt
      have hmore := (parseRequest_eq H hp₂).trans (congrArg some (runHandler_more H he₂))
      by_cases hchunks : v₂.chunks = []
      · refine ⟨v₂, .starved hmore hchunks, ?_, by rw [hchunks, List.flatten_nil]⟩
        exact ((hattempt.alike hw hp₂).calls.symm).trans (congrArg (fun c => c.calls) hc₁.core).symm
      · rw [hw.reader, hw.received] at hfits
        have hless := (hattempt.progress (Or.inr hfits)).resolve_left hchunks
        exact Sees.more hmore hchunks (ih _ (hn ▸ hless) (hattempt.alike hw hp₂) rfl)
    · rw [he₂, ← hw.reader] at hattempt
      have hitem := hattempt.item
      rw [← hw.received, hnone] at hitem
      cases hitem

/-- A call that does not ask for more had its item. -/
theorem parseRequest_ne_more {H : Handlers} {w w' : Wire} {result : MmcResult}
    (h : parseRequest H w = some (result, w')) (hmore : result ≠ .more) :
    ∃ p b v, w.req.parse = some p ∧ collect (p.reader w.req) w = (some b, v) ∧
      runHandler H w p = (result, w') := by
  obtain ⟨p, hp, hrun⟩ := Option.map_eq_some_iff.mp h
  rcases he : collect (p.reader w.req) w with ⟨_ | b, v⟩
  · rw [runHandler_more H he] at hrun
    cases hrun
    exact absurd rfl hmore
  · exact ⟨p, b, v, hp, he, hrun⟩

/-- A call that asks for more had no item. -/
theorem parseRequest_more {H : Handlers} {w w' : Wire}
    (hw : ∀ h, w.req.parse = some h → (h.reader w.req).Holds w)
    (h : parseRequest H w = some (.more, w')) :
    ∃ p, w.req.parse = some p ∧ collect (p.reader w.req) w = (none, w') := by
  obtain ⟨p, hp, hrun⟩ := Option.map_eq_some_iff.mp h
  rcases he : collect (p.reader w.req) w with ⟨_ | b, v⟩
  · rw [runHandler_more H he] at hrun
    cases hrun
    exact ⟨p, hp, he⟩
  · exact absurd (congrArg Prod.fst hrun) (runHandler_acts H hp (hw p hp) he).1

/-- What the call with the item does on one stream, it does on an alike one. -/
theorem Alike.act {H : Handlers} {w₁ w₂ w₁' v₁ v₂ : Wire} {h : ParseHandler} {b : Bytes}
    {result : MmcResult} (hw : Alike w₁ w₂) (hp : w₁.req.parse = some h)
    (he₁ : collect (h.reader w₁.req) w₁ = (some b, v₁)) (hrun : runHandler H w₁ h = (result, w₁'))
    (he₂ : collect (h.reader w₂.req) w₂ = (some b, v₂)) :
    ∃ w₂', parseRequest H w₂ = some (result, w₂') ∧ Alike w₁' w₂' ∧ w₂'.calls = w₁'.calls ∧
      w₂'.chunks.flatten = w₁'.chunks.flatten := by
  have hp₂ : w₂.req.parse = some h := hw.parse.symm.trans hp
  have hc₁ : (h.reader w₁.req).Attempt w₁ (some b, v₁) := he₁ ▸ collect_attempt (hw.holds₁ h hp)
  have hc₂ : (h.reader w₂.req).Attempt w₂ (some b, v₂) := he₂ ▸ collect_attempt (hw.holds₂ h hp₂)
  rw [← hw.reader] at hc₂
  obtain ⟨_, hv₂, hrest⟩ := Reader.Complete.withChunks hw hc₁ hc₂
  have hacts := runHandler_acts H hp (hw.holds₁ h hp) he₁
  have hrun₂ := hacts.2.2 w₂ v₂.chunks (he₂.trans (by rw [← hv₂]))
  -- the handler leaves what lies behind the item as it is
  have hself := hacts.2.2 w₁ v₁.chunks he₁
  dsimp only at hrun₂ hself
  rw [hrun] at hrun₂ hself
  have hchunks : w₁'.chunks = v₁.chunks := congrArg (fun x => x.2.chunks) hself
  rw [← hchunks] at hrest
  have halike : Alike w₁' (w₁'.withChunks v₂.chunks) := by
    have hacted := hacts.alike v₂.chunks
    rw [hrun] at hacted
    exact hacted hrest
  exact ⟨_, (parseRequest_eq H hp₂).trans (congrArg some hrun₂), halike, rfl, hrest.symm⟩

/-- What a run on one stream shows, a run on every alike stream shows. -/
theorem Runs.sees {H : Handlers} {w₁ w₁' : Wire} {result : MmcResult} (hrun : Runs H w₁ result w₁') :
    ∀ w₂, Alike w₁ w₂ → Sees H w₂ w₁'.calls result w₁'.chunks.flatten := by
  induction hrun with
  | stop hparse hmore hagain =>
    intro w₂ hw
    obtain ⟨p, b, v, hp, he, hact⟩ := parseRequest_ne_more hparse hmore
    refine hw.sees_of_collect H hp he ?_
    intro w₂ v₂ hw he₂
    obtain ⟨w₂', hparse₂, _, hcalls, hrest⟩ := hw.act hp he hact he₂
    exact ⟨w₂', .stop hparse₂ hmore hagain, hcalls, hrest⟩
  | starved hparse hnil =>
    intro w₂ hw
    obtain ⟨p, hp, he⟩ := parseRequest_more hw.holds₁ hparse
    rw [hnil]
    exact hw.sees_of_starved H hp he hnil
  | more hparse hchunks _ ih =>
    intro w₂ hw
    obtain ⟨p, hp, he⟩ := parseRequest_more hw.holds₁ hparse
    have hattempt := collect_attempt (hw.holds₁ p hp)
    rw [he] at hattempt
    exact ih w₂ (hattempt.alike hw.symm hp).symm
  | again hparse _ ih =>
    intro w₂ hw
    obtain ⟨p, b, v, hp, he, hact⟩ := parseRequest_ne_more hparse (by simp)
    refine hw.sees_of_collect H hp he ?_
    intro w₂ v₂ hw he₂
    obtain ⟨w₂', hparse₂, halike, _, _⟩ := hw.act hp he hact he₂
    exact Sees.again hparse₂ (ih w₂' halike)

/-- How the rest of the stream is cut makes no difference before an item. -/
theorem Wire.Settled.sees_iff {H : Handlers} {w : Wire} (hw : w.Settled) (chunks : List Bytes)
    (h : w.chunks.flatten = chunks.flatten) (calls : List HandlerCall) (result : MmcResult)
    (rest : Bytes) :
    Sees H w calls result rest ↔ Sees H (w.withChunks chunks) calls result rest := by
  have halike : Alike w (w.withChunks chunks) := by
    refine ⟨rfl, ?_, hw.holds, Wire.Settled.holds hw⟩
    exact congrArg (w.buffered ++ ·) h
  constructor
  · rintro ⟨w', hrun, rfl, rfl⟩
    exact hrun.sees _ halike
  · rintro ⟨w', hrun, rfl, rfl⟩
    exact hrun.sees _ halike.symm

/-- A run continues behind a call that asks for another loop. -/
theorem sees_again_iff {H : Handlers} {w v : Wire} (h : parseRequest H w = some (.again, v))
    (calls : List HandlerCall) (result : MmcResult) (rest : Bytes) :
    Sees H w calls result rest ↔ Sees H v calls result rest := by
  constructor
  · rintro ⟨w', hrun, hcalls, hrest⟩
    cases hrun with
    | stop hparse _ hagain =>
      cases h.symm.trans hparse
      exact absurd rfl hagain
    | starved hparse _ => cases h.symm.trans hparse
    | more hparse _ _ => cases h.symm.trans hparse
    | again hparse hrun =>
      cases h.symm.trans hparse
      exact ⟨w', hrun, hcalls, hrest⟩
  · exact Sees.again h

/-- A run ends with a call that asks for nothing. -/
theorem sees_stop_iff {H : Handlers} {w v : Wire} {stop : MmcResult}
    (h : parseRequest H w = some (stop, v)) (hmore : stop ≠ .more) (hagain : stop ≠ .again)
    (calls : List HandlerCall) (result : MmcResult) (rest : Bytes) :
    Sees H w calls result rest ↔
      result = stop ∧ v.calls = calls ∧ v.chunks.flatten = rest := by
  constructor
  · rintro ⟨w', hrun, hcalls, hrest⟩
    cases hrun with
    | stop hparse _ _ =>
      cases h.symm.trans hparse
      exact ⟨rfl, hcalls, hrest⟩
    | starved hparse _ =>
      cases h.symm.trans hparse
      exact absurd rfl hmore
    | more hparse _ _ =>
      cases h.symm.trans hparse
      exact absurd rfl hmore
    | again hparse _ =>
      cases h.symm.trans hparse
      exact absurd rfl hagain
  · rintro ⟨rfl, hcalls, hrest⟩
    exact ⟨v, .stop h hmore hagain, hcalls, hrest⟩

/-! ## Fragmentation independence -/

/-- The request of a command on a stream whose next reads return `chunks`. -/
def Command.awaiting (c : Command) (q : MmcRequest) (io : MmcStream) (chunks : List Bytes) : Wire where
  io := io
  chunks := chunks
  req := (c.build q).rewind

theorem Command.awaiting_alike (c : Command) (q : MmcRequest) {io : MmcStream} (hio : io.input = [])
    {chunks chunks' : List Bytes} (h : chunks.flatten = chunks'.flatten) :
    Alike (c.awaiting q io chunks) (c.awaiting q io chunks') := by
  have hholds : ∀ cs p, (c.awaiting q io cs).req.parse = some p →
      (p.reader (c.awaiting q io cs).req).Holds (c.awaiting q io cs) :=
    fun cs => Wire.Settled.holds (w := c.awaiting q io cs) ⟨hio, Or.inl rfl⟩
  refine ⟨rfl, ?_, hholds chunks, hholds chunks'⟩
  exact congrArg ((c.awaiting q io chunks).buffered ++ ·) h

/-- Handlers for a request whose values are plain strings. -/
def plainHandlers : Handlers where
  unpack _ data := some data
  respond _ _ _ := .done

end PeclMemcache
