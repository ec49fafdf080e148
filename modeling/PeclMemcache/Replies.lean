import PeclMemcache.Memcached

set_option autoImplicit false

/-! # Replies of the server, as the client reads them

The run of the parsers on each kind of reply: a line, a number, a value, a binary header without or
with a text, a binary number and a binary value. Whatever follows the reply in the stream is left
there. -/

namespace PeclMemcache

/-! ## Handler results -/

/-- The result a handler's answer leads to. -/
def Verdict.result (io : MmcStream) : Verdict → MmcResult
  | .done => .done
  | .again => .again
  | .requestFailure => io.serverFailure.1
  | .failure => .failure

theorem serverFailure_ne (io : MmcStream) :
    io.serverFailure.1 ≠ .more ∧ io.serverFailure.1 ≠ .again ∧ io.serverFailure.1 ≠ .done := by
  unfold MmcStream.serverFailure
  split <;> simp

theorem Verdict.result_ne {v : Verdict} (h : v ≠ .again) (io : MmcStream) :
    v.result io ≠ .more ∧ v.result io ≠ .again := by
  cases v with
  | done => simp [result]
  | again => exact absurd rfl h
  | requestFailure => exact ⟨(serverFailure_ne io).1, (serverFailure_ne io).2.1⟩
  | failure => simp [result]

theorem Wire.respond_eq (H : Handlers) (w : Wire) (response : Int) (message : Bytes) (len : Nat) :
    (w.respond H response message len).1 = (H.respond response message len).result w.io ∧
      (w.respond H response message len).2.calls
        = w.calls ++ [.response response message len] ∧
      (w.respond H response message len).2.chunks = w.chunks := by
  unfold respond
  cases H.respond response message len <;> exact ⟨rfl, rfl, rfl⟩

/-- A run whose next step is the call of the response handler. -/
theorem sees_respond_iff {H : Handlers} {w v : Wire} {response : Int} {message : Bytes} {len : Nat}
    (h : parseRequest H w = some (v.respond H response message len))
    (hverdict : H.respond response message len ≠ .again) (calls : List HandlerCall)
    (result : MmcResult) (rest : Bytes) :
    Sees H w calls result rest ↔ result = (H.respond response message len).result v.io ∧
      v.calls ++ [.response response message len] = calls ∧ v.chunks.flatten = rest := by
  obtain ⟨hresult, hcalls, hchunks⟩ := v.respond_eq H response message len
  obtain ⟨hmore, hagain⟩ := Verdict.result_ne hverdict v.io
  rw [← hresult] at hmore hagain
  have hstop : parseRequest H w = some ((v.respond H response message len).1,
      (v.respond H response message len).2) := h
  rw [sees_stop_iff hstop hmore hagain, hresult, hcalls, hchunks]

/-! ## Lines -/

/-- A line the buffer has room for. -/
structure ShortLine (line : Bytes) : Prop where
  newline : 10 ∉ line
  short : line.length + 2 ≤ MMC_BUFFER_SIZE

theorem ShortLine.getLine {line : Bytes} (h : ShortLine line) {w : Wire} {rest : List Bytes}
    (hin : w.io.input = []) (hc : w.chunks = (line ++ [10]) :: rest) :
    mmcStreamGetLine w = (some (line ++ [10]), { w with chunks := rest }) :=
  mmcStreamGetLine_chunk w line rest hin hc h.newline h.short

/-- The call of the response handler for a line. -/
def lineCall (line : Bytes) : HandlerCall :=
  .response (mmcRequestCheckResponse line) (chopLine line) (messageLen line)

/-- What the response handler makes of a line. -/
def Handlers.ofLine (H : Handlers) (line : Bytes) : Verdict :=
  H.respond (mmcRequestCheckResponse line) (chopLine line) (messageLen line)

/-- **A status line** goes to the response handler. -/
theorem sees_asciiResponse_iff {H : Handlers} {w : Wire} {line tail : Bytes} (hline : ShortLine line)
    (hw : w.Settled) (hparse : w.req.parse = some .asciiParseResponse)
    (hc : w.chunks.flatten = line ++ [10] ++ tail) (hverdict : H.ofLine (line ++ [10]) ≠ .again)
    (calls : List HandlerCall) (result : MmcResult) (rest : Bytes) :
    Sees H w calls result rest ↔ result = (H.ofLine (line ++ [10])).result w.io ∧
      w.calls ++ [lineCall (line ++ [10])] = calls ∧ tail = rest := by
  rw [hw.sees_iff [line ++ [10], tail] (by simpa using hc)]
  have hget := hline.getLine (w := w.withChunks [line ++ [10], tail]) hw.1 rfl
  have hp : (w.withChunks [line ++ [10], tail]).req.parse = some .asciiParseResponse := hparse
  have hrun : parseRequest H (w.withChunks [line ++ [10], tail])
      = some ((w.withChunks [tail]).respond H (mmcRequestCheckResponse (line ++ [10]))
        (chopLine (line ++ [10])) (messageLen (line ++ [10]))) := by
    rw [parseRequest_eq H hp]
    simp only [runHandler, asciiParseResponse, hget]
    rfl
  rw [sees_respond_iff hrun hverdict]
  simp [Wire.withChunks, lineCall, Handlers.ofLine]

/-! ## Numbers in lines -/

/-- The sign in front of a number. -/
def scanSign : Bytes → Bool × Bytes
  | 45 :: rest => (true, rest)
  | 43 :: rest => (false, rest)
  | s => (false, s)

theorem scanNumber_eq (s : Bytes) :
    scanNumber s =
      match (scanSign (s.dropWhile isSpace)).2.takeWhile isDigit with
      | [] => none
      | ds => some ((scanSign (s.dropWhile isSpace)).1, digitsValue ds,
        (scanSign (s.dropWhile isSpace)).2.dropWhile isDigit) := by
  unfold scanNumber scanSign
  generalize s.dropWhile isSpace = t
  rcases t with _ | ⟨b, t⟩
  · rfl
  · by_cases h45 : b = 45
    · subst h45
      rfl
    · by_cases h43 : b = 43
      · subst h43
        rfl
      · cases hdigits : List.takeWhile isDigit (b :: t) <;> simp [h45, h43, hdigits]

theorem scanSign_cons {d : UInt8} (h : 48 ≤ d.toNat) (s : Bytes) :
    scanSign (d :: s) = (false, d :: s) := by
  unfold scanSign
  split
  · rename_i heq
    cases heq
    exact absurd h (by decide)
  · rename_i heq
    cases heq
    exact absurd h (by decide)
  · rfl

/-- A number is scanned up to the first byte that is no digit. -/
theorem scanNumber_decimal (n : Nat) {rest : Bytes} (h : ∀ b ∈ rest.head?, isDigit b = false) :
    scanNumber (decimal n ++ rest) = some (false, n, rest) := by
  obtain ⟨d, ds, hds⟩ := List.exists_cons_of_ne_nil (decimal_ne_nil n)
  have hall : ∀ b ∈ decimal n, isDigit b = true := fun b hb => isDigit_of_mem_decimal hb
  have hd := (isDigit_iff d).mp (hall d (hds ▸ List.mem_cons_self))
  have hspace : isSpace d = false := by
    rw [isSpace, Bool.or_eq_false_iff, Bool.and_eq_false_iff]
    refine ⟨decide_eq_false ?_, Or.inr (decide_eq_false ?_)⟩
    · rintro rfl
      exact absurd hd.1 (by decide)
    · rw [UInt8.le_iff_toNat_le]
      exact Nat.not_le_of_lt (Nat.lt_of_lt_of_le (by decide) hd.1)
  have hdrop : (decimal n ++ rest).dropWhile isSpace = decimal n ++ rest := by
    rw [hds, List.cons_append, List.dropWhile_cons_of_neg (by simp [hspace])]
  have htake : (decimal n ++ rest).takeWhile isDigit = decimal n := by
    rw [List.takeWhile_append_of_pos hall]
    cases rest with
    | nil => simp
    | cons b rest => simp [h b rfl]
  have hrest : (decimal n ++ rest).dropWhile isDigit = rest := by
    rw [List.dropWhile_append_of_pos hall]
    cases rest with
    | nil => rfl
    | cons b rest => rw [List.dropWhile_cons_of_neg (by simp [h b rfl])]
  have hsign : scanSign (decimal n ++ rest) = (false, decimal n ++ rest) := by
    rw [hds, List.cons_append, scanSign_cons hd.1]
  rw [scanNumber_eq, hdrop, hsign, htake, hrest]
  split
  · rename_i heq
    exact absurd heq (decimal_ne_nil n)
  · rw [digitsValue_decimal]

/-- A space before the number is skipped. -/
theorem scanNumber_space (s : Bytes) : scanNumber (32 :: s) = scanNumber s := by
  unfold scanNumber
  rw [List.dropWhile_cons_of_pos (by decide)]

/-! ## Values in lines -/

theorem isSpace_of_lt {b : UInt8} (h : 32 < b) : isSpace b = false := by
  rw [UInt8.lt_iff_toNat_lt] at h
  rw [isSpace, Bool.or_eq_false_iff, Bool.and_eq_false_iff]
  refine ⟨decide_eq_false ?_, Or.inr (decide_eq_false ?_)⟩
  · rintro rfl
    exact absurd h (by decide)
  · rw [UInt8.le_iff_toNat_le]
    exact Nat.not_le_of_lt (Nat.lt_trans (by decide) h)

/-- The key of a line is scanned up to the space behind it. -/
theorem takeWhile_key {key : Bytes} (hplain : Plain key) (hlen : key.length ≤ MMC_MAX_KEY_LEN)
    (rest : Bytes) :
    ((key ++ 32 :: rest).take MMC_MAX_KEY_LEN).takeWhile (fun b => !isSpace b) = key := by
  have hkey : ∀ b ∈ key, (!isSpace b) = true := by
    intro b hb
    rw [isSpace_of_lt (hplain b hb)]
    rfl
  rw [List.take_append, List.take_of_length_le hlen, List.takeWhile_append_of_pos hkey]
  cases hroom : MMC_MAX_KEY_LEN - key.length with
  | zero => simp
  | succ n =>
    rw [List.take_succ_cons, List.takeWhile_cons_of_neg (by decide), List.append_nil]

/-- The line that announces a value. -/
def announceLine (key : Bytes) (flags length : Nat) (token : Option Nat) : Bytes :=
  Words.join 32 (bytes ['V', 'A', 'L', 'U', 'E'] :: key :: decimal flags :: decimal length ::
    token.toList.map decimal)

theorem announceLine_eq (key : Bytes) (flags length : Nat) (token : Option Nat) :
    announceLine key flags length token = bytes ['V', 'A', 'L', 'U', 'E'] ++ 32 :: (key ++ 32 ::
      (decimal flags ++ 32 :: (decimal length ++ token.toList.flatMap (32 :: decimal ·)))) := by
  cases token <;> simp [announceLine, Words.join]

theorem mem_announceLine {key : Bytes} (hplain : Plain key) {flags length : Nat}
    {token : Option Nat} {b : UInt8} (h : b ∈ announceLine key flags length token) :
    b = 32 ∨ 32 < b := by
  rcases Words.mem_join h with rfl | ⟨w, hw, hb⟩
  · exact Or.inl rfl
  · right
    have hverb : Plain (bytes ['V', 'A', 'L', 'U', 'E']) := by decide
    simp only [List.mem_cons, List.mem_map] at hw
    rcases hw with rfl | rfl | rfl | rfl | ⟨n, _, rfl⟩
    · exact hverb b hb
    · exact hplain b hb
    · exact plain_decimal _ b hb
    · exact plain_decimal _ b hb
    · exact plain_decimal _ b hb

/-- A line without NUL is the string it is in C. -/
theorem cString_eq_self {line : Bytes} (h : 0 ∉ line) : cString line = line := by
  rw [cString, List.takeWhile_eq_self_iff]
  intro b hb
  have hb : b ≠ 0 := by
    rintro rfl
    exact h hb
  simpa using hb

theorem strtoul_of_lt {n : Nat} (h : n < 2 ^ 64) : strtoul false n = n := by
  rw [strtoul, if_neg (Nat.not_le_of_lt h)]
  rfl

/-- The last number of the line, if there is one. -/
theorem scanNumber_token (token : Option Nat) :
    (scanNumber (token.toList.flatMap (32 :: decimal ·) ++ crlf)).map
      (fun x => strtoul x.1 x.2.1) = token.map (strtoul false) := by
  cases token with
  | none => rfl
  | some n =>
    have hend : ∀ b ∈ crlf.head?, isDigit b = false := by
      intro b hb
      cases hb
      decide
    simp [scanNumber_space, scanNumber_decimal n hend]

/-- **The line of a value is scanned back.** -/
theorem scanValueHeader_announceLine {key : Bytes} (hplain : Plain key) (hne : key ≠ [])
    (hlen : key.length ≤ MMC_MAX_KEY_LEN) (flags length : Nat) (token : Option Nat) :
    scanValueHeader (announceLine key flags length token ++ crlf)
      = (some key, some (strtoul false flags % 2 ^ 32), some (strtoul false length),
        token.map (strtoul false)) := by
  have hstring : cString (announceLine key flags length token ++ crlf)
      = announceLine key flags length token ++ crlf := by
    refine cString_eq_self fun h => ?_
    rcases List.mem_append.mp h with h | h
    · rcases mem_announceLine hplain h with h | h <;> exact absurd h (by decide)
    · exact absurd h (by decide)
  have hspace : ∀ s : Bytes, ∀ b ∈ ((32 : UInt8) :: s).head?, isDigit b = false := by
    intro s b hb
    cases hb
    decide
  have htoken : ∀ b ∈ (token.toList.flatMap (32 :: decimal ·) ++ crlf).head?, isDigit b = false := by
    cases token with
    | none =>
      intro b hb
      cases hb
      decide
    | some n => exact hspace _
  obtain ⟨k, ks, hk⟩ := List.exists_cons_of_ne_nil hne
  have hskip : ∀ s, List.dropWhile isSpace (32 :: (key ++ s)) = key ++ s := by
    intro s
    rw [List.dropWhile_cons_of_pos (by decide), hk, List.cons_append, List.dropWhile_cons_of_neg]
    rw [isSpace_of_lt (hplain k (hk ▸ List.mem_cons_self))]
    decide
  unfold scanValueHeader
  rw [hstring, announceLine_eq]
  simp only [List.append_assoc, List.cons_append]
  rw [if_neg (by simp [mmcStrLeft]), List.drop_left, hskip, takeWhile_key hplain hlen]
  split
  · exact absurd rfl hne
  · rw [List.drop_left, scanNumber_space, scanNumber_decimal flags (hspace _)]
    dsimp only
    rw [scanNumber_space, scanNumber_decimal length htoken]
    dsimp only
    rw [scanNumber_token]

/-- The decimal digits of a 64-bit number. -/
theorem length_decimal_le {n : Nat} (h : n < 2 ^ 64) : (decimal n).length ≤ 20 := by
  rw [decimal, bytes, List.length_map, Nat.length_toDigits_le_iff (by decide) (by decide)]
  exact Nat.lt_trans h (by decide)

theorem announceLine_short {key : Bytes} (hplain : Plain key) (hlen : key.length ≤ MMC_MAX_KEY_LEN)
    {flags length : Nat} {token : Option Nat} (hflags : flags < 2 ^ 64) (hlength : length < 2 ^ 64)
    (htoken : ∀ t ∈ token, t < 2 ^ 64) : ShortLine (announceLine key flags length token ++ [13]) := by
  refine ⟨fun h => ?_, ?_⟩
  · rcases List.mem_append.mp h with h | h
    · rcases mem_announceLine hplain h with h | h <;> exact absurd h (by decide)
    · exact absurd h (by decide)
  · have hf := length_decimal_le hflags
    have hl := length_decimal_le hlength
    have ht : (token.toList.flatMap (32 :: decimal ·)).length ≤ 21 := by
      cases token with
      | none => simp
      | some t =>
        have hlen := length_decimal_le (htoken t rfl)
        simp only [Option.toList_some, List.flatMap_singleton, List.length_cons]
        omega
    rw [MMC_MAX_KEY_LEN] at hlen
    rw [announceLine_eq, MMC_BUFFER_SIZE]
    simp only [List.length_append, List.length_cons, List.length_nil]
    have hverb : (bytes ['V', 'A', 'L', 'U', 'E']).length = 5 := rfl
    omega

/-! ## A value in the text protocol -/

/-- The call of the value handler for a value: none when it does not decode. -/
def Handlers.valueCall (H : Handlers) (key data : Bytes) (flags cas : Nat) : List HandlerCall :=
  match H.unpack flags data with
  | some value => [.value key value flags cas]
  | none => []

theorem Wire.unpackValue_eq (H : Handlers) (w : Wire) {data : Bytes} (rest key : Bytes)
    (flags cas : Nat) (hshort : data.length < 2 ^ 32) :
    w.unpackValue H (data ++ rest) key flags cas data.length
      = { w with calls := w.calls ++ H.valueCall key data flags cas } := by
  unfold unpackValue Handlers.valueCall
  rw [Nat.mod_eq_of_lt hshort, List.take_left]
  cases H.unpack flags data with
  | some value => rfl
  | none => rw [List.append_nil]

def endLine : Bytes := bytes ['E', 'N', 'D'] ++ [13]

theorem parseRequest_endLine (H : Handlers) {w : Wire} {rest : List Bytes} (hin : w.io.input = [])
    (hparse : w.req.parse = some .asciiParseValue) (hc : w.chunks = (endLine ++ [10]) :: rest) :
    parseRequest H w = some (.done, { w with chunks := rest }) := by
  have hline : ShortLine endLine := ⟨by decide, by decide⟩
  rw [parseRequest_eq H hparse]
  simp only [runHandler, asciiParseValue, hline.getLine hin hc]
  rfl

/-- The reply to a get that found nothing. -/
theorem sees_endLine_iff {H : Handlers} {w : Wire} {tail : Bytes} (hw : w.Settled)
    (hparse : w.req.parse = some .asciiParseValue) (hc : w.chunks.flatten = endLine ++ [10] ++ tail)
    (calls : List HandlerCall) (result : MmcResult) (rest : Bytes) :
    Sees H w calls result rest ↔ result = .done ∧ w.calls = calls ∧ tail = rest := by
  rw [hw.sees_iff [endLine ++ [10], tail] (by simpa using hc)]
  have hrun := parseRequest_endLine H (w := w.withChunks [endLine ++ [10], tail]) hw.1 hparse rfl
  rw [sees_stop_iff hrun (by simp) (by simp)]
  simp [Wire.withChunks]

/-- The line of a value makes the parser read the value. -/
theorem parseRequest_announceLine (H : Handlers) {w : Wire} {key : Bytes} (hplain : Plain key)
    (hne : key ≠ []) (hlen : key.length ≤ MMC_MAX_KEY_LEN) {flags length : Nat}
    {token : Option Nat} (hflags : flags < 2 ^ 32) (hlength : length < 2 ^ 64)
    (htoken : ∀ t ∈ token, t < 2 ^ 64) {rest : List Bytes} (hin : w.io.input = [])
    (hparse : w.req.parse = some .asciiParseValue)
    (hc : w.chunks = (announceLine key flags length token ++ [13] ++ [10]) :: rest) :
    ∃ v, parseRequest H w = some (.again, v) ∧ v.chunks = rest ∧ v.io = w.io ∧ v.calls = w.calls ∧
      v.req = { w.req with
        parse := some .asciiReadValue
        value := { key, flags, length, cas := token.getD w.req.value.cas } } := by
  have hflags' : flags < 2 ^ 64 := Nat.lt_trans hflags (by decide)
  have hline := announceLine_short hplain hlen hflags' hlength htoken
  have hscan := scanValueHeader_announceLine hplain hne hlen flags length token
  have hshape : announceLine key flags length token ++ [13] ++ [10]
      = announceLine key flags length token ++ crlf := by simp [crlf]
  have hnoEnd : mmcStrLeft (announceLine key flags length token ++ crlf) (bytes ['E', 'N', 'D'])
      = false := by
    rw [announceLine_eq]
    rfl
  have hcas : (token.map (strtoul false)).getD w.req.value.cas = token.getD w.req.value.cas := by
    cases token with
    | none => rfl
    | some t => exact strtoul_of_lt (htoken t rfl)
  refine ⟨{ w with
    chunks := rest
    req := { w.req with
      parse := some .asciiReadValue
      value := { key, flags, length, cas := token.getD w.req.value.cas } } }, ?_, rfl, rfl, rfl, rfl⟩
  rw [parseRequest_eq H hparse]
  simp only [runHandler, asciiParseValue, hline.getLine hin hc]
  rw [hshape, if_neg (by rw [hnoEnd]; decide)]
  simp only [AsciiValue.scan, hscan, Option.getD_some, Option.isNone_some, hcas,
    strtoul_of_lt hflags', strtoul_of_lt hlength, Nat.mod_eq_of_lt hflags]
  rfl

/-- The value is handed over, and the parser waits for the next line. -/
theorem parseRequest_asciiValue (H : Handlers) {w : Wire} {data : Bytes}
    (hshort : data.length < 2 ^ 32) {rest : List Bytes} (hparse : w.req.parse = some .asciiReadValue)
    (hbuf : w.req.readbuf = {}) (hlen : w.req.value.length = data.length)
    (hc : w.chunks = (data ++ crlf) :: rest) :
    ∃ v, parseRequest H w = some (.again, v) ∧ v.chunks = rest ∧ v.io = w.io ∧
      v.calls = w.calls ++ H.valueCall w.req.value.key data w.req.value.flags w.req.value.cas ∧
      v.req = { w.req with parse := some .asciiParseValue, readbuf := {} } := by
  have hcount : (w.req.value.length + 2) % 2 ^ 64 = (data ++ crlf).length := by
    rw [hlen, List.length_append]
    exact Nat.mod_eq_of_lt (Nat.lt_trans (Nat.add_lt_add_right hshort 2) (by decide))
  have hbody := collect_body_chunk hbuf hc
  rw [← hcount] at hbody
  refine ⟨{ w with
    chunks := rest
    req := { w.req with parse := some .asciiParseValue, readbuf := {} }
    calls := w.calls ++ H.valueCall w.req.value.key data w.req.value.flags w.req.value.cas },
    ?_, rfl, rfl, rfl, rfl⟩
  rw [parseRequest_eq H hparse, runHandler, asciiReadValue_of_collect H hbody]
  dsimp only
  rw [hlen, Wire.unpackValue_eq H _ _ _ _ _ hshort]
  rfl

/-- **The reply with a value** leads to a call of the value handler with what the line says. -/
theorem sees_asciiValue_iff {H : Handlers} {w : Wire} {key : Bytes} (hplain : Plain key)
    (hne : key ≠ []) (hlen : key.length ≤ MMC_MAX_KEY_LEN) {flags : Nat} {data : Bytes}
    {token : Option Nat} (hflags : flags < 2 ^ 32) (hshort : data.length < 2 ^ 32)
    (htoken : ∀ t ∈ token, t < 2 ^ 64) {tail : Bytes} (hin : w.io.input = [])
    (hbuf : w.req.readbuf = {}) (hparse : w.req.parse = some .asciiParseValue)
    (hc : w.chunks.flatten = announceLine key flags data.length token ++ crlf ++ data ++ crlf
      ++ endLine ++ [10] ++ tail) (calls : List HandlerCall) (result : MmcResult) (rest : Bytes) :
    Sees H w calls result rest ↔ result = .done ∧
      w.calls ++ H.valueCall key data flags (token.getD w.req.value.cas) = calls ∧ tail = rest := by
  have hlength : data.length < 2 ^ 64 := Nat.lt_trans hshort (by decide)
  have hw : w.Settled := ⟨hin, Or.inl hbuf⟩
  rw [hw.sees_iff [announceLine key flags data.length token ++ [13] ++ [10], data ++ crlf,
    endLine ++ [10], tail] (by simpa [crlf] using hc)]
  obtain ⟨v₁, h₁, hchunks₁, hio₁, hcalls₁, hreq₁⟩ := parseRequest_announceLine H
    (w := w.withChunks [announceLine key flags data.length token ++ [13] ++ [10], data ++ crlf,
      endLine ++ [10], tail]) hplain hne hlen hflags hlength htoken hin hparse rfl
  obtain ⟨v₂, h₂, hchunks₂, hio₂, hcalls₂, hreq₂⟩ := parseRequest_asciiValue H hshort
    (w := v₁) (by rw [hreq₁]) (by rw [hreq₁]; exact hbuf) (by rw [hreq₁]) hchunks₁
  have h₃ := parseRequest_endLine H (w := v₂) (by rw [hio₂, hio₁]; exact hin) (by rw [hreq₂]) hchunks₂
  rw [sees_again_iff h₁, sees_again_iff h₂, sees_stop_iff h₃ (by simp) (by simp), hcalls₂, hcalls₁,
    hreq₁]
  simp [Wire.withChunks]

/-! ## A number in the text protocol -/

/-- No status line begins with a digit. -/
theorem mmcRequestCheckResponse_decimal (n : Nat) (rest : Bytes) :
    mmcRequestCheckResponse (decimal n ++ rest) = MMC_RESPONSE_UNKNOWN := by
  obtain ⟨d, ds, hds⟩ := List.exists_cons_of_ne_nil (decimal_ne_nil n)
  have hd := (isDigit_iff d).mp (isDigit_of_mem_decimal (hds ▸ List.mem_cons_self))
  have hleft : ∀ c word, 57 < (UInt8.ofNat c).toNat →
      mmcStrLeft (decimal n ++ rest) (UInt8.ofNat c :: word) = false := by
    intro c word hc
    rw [mmcStrLeft, hds, List.cons_append, List.isPrefixOf_cons_cons, Bool.and_eq_false_iff]
    left
    rw [beq_eq_false_iff_ne]
    rintro rfl
    exact absurd hc (Nat.not_lt_of_le hd.2)
  unfold mmcRequestCheckResponse
  simp only [bytes, List.map_cons]
  rw [hleft _ _ (by decide), hleft _ _ (by decide), hleft _ _ (by decide), hleft _ _ (by decide),
    hleft _ _ (by decide), hleft _ _ (by decide), hleft _ _ (by decide), hleft _ _ (by decide),
    hleft _ _ (by decide), hleft _ _ (by decide), hleft _ _ (by decide)]
  rfl

theorem cString_of_not_mem {s : Bytes} (h : 0 ∉ s) (rest : Bytes) : cString (s ++ 0 :: rest) = s := by
  have hs : ∀ b ∈ s, decide (b ≠ 0) = true := by
    intro b hb
    have hb : b ≠ 0 := by
      rintro rfl
      exact h hb
    simpa using hb
  rw [cString, List.takeWhile_append_of_pos hs, List.takeWhile_cons_of_neg (by decide),
    List.append_nil]

/-- The line of a number is chopped and scanned. -/
theorem scanNumber_chopLine (n : Nat) :
    scanNumber (cString (chopLine (decimal n ++ crlf))) = some (false, n, []) := by
  have hchop : chopLine (decimal n ++ crlf) = decimal n ++ 0 :: [10] := by
    rw [chopLine, List.reverse_append]
    simp [crlf]
  have hzero : 0 ∉ decimal n := fun h => absurd (plain_decimal n 0 h) (by decide)
  have hscan := @scanNumber_decimal n [] (by simp)
  rw [List.append_nil] at hscan
  rw [hchop, cString_of_not_mem hzero, hscan]

/-- **The reply with a number** leads to a call of the value handler with what `strtol` makes of
    it. -/
theorem sees_asciiNumber_iff {H : Handlers} {w : Wire} {n : Nat} (hn : n < 2 ^ 64) {tail : Bytes}
    (hw : w.Settled) (hparse : w.req.parse = some .asciiParseMutate)
    (hc : w.chunks.flatten = decimal n ++ crlf ++ tail) (calls : List HandlerCall)
    (result : MmcResult) (rest : Bytes) :
    Sees H w calls result rest ↔ result = .done ∧
      w.calls ++ [.long (w.req.key.take w.req.keyLen) (strtol false n) 0 0] = calls ∧
        tail = rest := by
  have hshape : decimal n ++ [13] ++ [10] = decimal n ++ crlf := by simp [crlf]
  have hline : ShortLine (decimal n ++ [13]) := by
    have hlen := length_decimal_le hn
    refine ⟨fun h => ?_, ?_⟩
    · rcases List.mem_append.mp h with h | h
      · exact absurd (plain_decimal n 10 h) (by decide)
      · exact absurd h (by decide)
    · rw [List.length_append, List.length_singleton, MMC_BUFFER_SIZE]
      omega
  rw [hw.sees_iff [decimal n ++ [13] ++ [10], tail] (by simpa [crlf] using hc)]
  have hget := hline.getLine (w := w.withChunks [decimal n ++ [13] ++ [10], tail]) hw.1 rfl
  have hp : (w.withChunks [decimal n ++ [13] ++ [10], tail]).req.parse = some .asciiParseMutate :=
    hparse
  have hrun : parseRequest H (w.withChunks [decimal n ++ [13] ++ [10], tail])
      = some (.done, { w.withChunks [tail] with
        calls := w.calls ++ [.long (w.req.key.take w.req.keyLen) (strtol false n) 0 0] }) := by
    rw [parseRequest_eq H hp]
    simp only [runHandler, asciiParseMutate, hget]
    rw [hshape, mmcRequestCheckResponse_decimal, if_neg (by decide), scanNumber_chopLine]
    rfl
  rw [sees_stop_iff hrun (by simp) (by simp)]
  simp [Wire.withChunks]

/-- A line that is no number but a status goes to the response handler there, too. -/
theorem sees_asciiMutate_iff {H : Handlers} {w : Wire} {line tail : Bytes} (hline : ShortLine line)
    (hw : w.Settled) (hparse : w.req.parse = some .asciiParseMutate)
    (hc : w.chunks.flatten = line ++ [10] ++ tail)
    (hstatus : mmcRequestCheckResponse (line ++ [10]) ≠ MMC_RESPONSE_UNKNOWN)
    (hverdict : H.ofLine (line ++ [10]) ≠ .again) (calls : List HandlerCall) (result : MmcResult)
    (rest : Bytes) :
    Sees H w calls result rest ↔ result = (H.ofLine (line ++ [10])).result w.io ∧
      w.calls ++ [lineCall (line ++ [10])] = calls ∧ tail = rest := by
  rw [hw.sees_iff [line ++ [10], tail] (by simpa using hc)]
  have hget := hline.getLine (w := w.withChunks [line ++ [10], tail]) hw.1 rfl
  have hp : (w.withChunks [line ++ [10], tail]).req.parse = some .asciiParseMutate := hparse
  have hrun : parseRequest H (w.withChunks [line ++ [10], tail])
      = some ((w.withChunks [tail]).respond H (mmcRequestCheckResponse (line ++ [10]))
        (chopLine (line ++ [10])) (messageLen (line ++ [10]))) := by
    rw [parseRequest_eq H hp]
    simp only [runHandler, asciiParseMutate, hget]
    rw [if_pos hstatus]
    rfl
  rw [sees_respond_iff hrun hverdict]
  simp [Wire.withChunks, lineCall, Handlers.ofLine]

/-! ## Binary replies -/

/-- The parser waits for the header of a response. -/
structure AwaitsHeader (next : ParseHandler) (w : Wire) : Prop where
  parse : w.req.parse = some .binaryParseResponse
  next : w.req.bin.nextParseHandler = some next
  input : w.io.input = []
  readbuf : w.req.readbuf = {}

theorem AwaitsHeader.settled {next : ParseHandler} {w : Wire} (hw : AwaitsHeader next w) :
    w.Settled := ⟨hw.input, Or.inl hw.readbuf⟩

theorem AwaitsHeader.withChunks {next : ParseHandler} {w : Wire} (hw : AwaitsHeader next w)
    (chunks : List Bytes) : AwaitsHeader next (w.withChunks chunks) :=
  ⟨hw.parse, hw.next, hw.input, hw.readbuf⟩

/-- The wire once the fields of a header were stored. -/
def Wire.accept (w : Wire) (opcode status total reqid cas : Nat) (rest : List Bytes) : Wire :=
  { w with
    chunks := rest
    req := { w.req with
      bin := { w.req.bin with opcode, error := binaryError status, reqid, length := total, cas } } }

/-- Read a body of `length` bytes with another parser. -/
def Wire.readOn (w : Wire) (parse : ParseHandler) (length : Nat) : Wire :=
  { w with req := { w.req with parse := some parse, bin := { w.req.bin with length } } }

/-- The step on a header. -/
theorem AwaitsHeader.step {next : ParseHandler} {w : Wire} (hw : AwaitsHeader next w) (H : Handlers)
    {opcode extrasLen status total reqid cas : Nat} (hopcode : opcode < 256)
    (hnoop : opcode ≠ MMC_OP_NOOP) (hextras : extrasLen ≤ 255) (hstatus : status < 2 ^ 16)
    (htotal : extrasLen ≤ total ∧ total < 2 ^ 32) (hreqid : reqid < 2 ^ 32) (hcas : cas < 2 ^ 64)
    {rest : List Bytes}
    (hc : w.chunks = responseHeader opcode extrasLen status total reqid cas :: rest) :
    parseRequest H w = some (
      if total = 0 then (w.accept opcode status total reqid cas rest).respond H (binaryError status) [] 0
      else if binaryError status ≠ 0 then
        (.again, (w.accept opcode status total reqid cas rest).readOn .binaryReadResponse total)
      else (.again, (w.accept opcode status total reqid cas rest).readOn next (total - extrasLen))) := by
  have hheader := ofBytes_responseHeader opcode extrasLen status total hopcode
    (Nat.lt_succ_of_le hextras) hstatus htotal.2 hreqid hcas
  have hget := mmcStreamGet_chunk w _ rest hw.input hc
  rw [responseHeader_length] at hget
  rw [parseRequest_eq H hw.parse]
  simp only [runHandler, binaryParseResponse, hget, hheader]
  rw [if_neg (by decide), if_neg hnoop, if_pos htotal.1]
  simp only [Wire.accept, Wire.readOn, hw.next]

/-- The text of a response goes to the response handler. -/
theorem parseRequest_text (H : Handlers) {w : Wire} {text : Bytes} {rest : List Bytes}
    (hparse : w.req.parse = some .binaryReadResponse) (hbuf : w.req.readbuf = {})
    (hlen : w.req.bin.length = text.length) (hc : w.chunks = text :: rest) :
    ∃ v : Wire, parseRequest H w = some (v.respond H w.req.bin.error text text.length) ∧ v.chunks = rest ∧
      v.io = w.io ∧ v.calls = w.calls := by
  have hbody := collect_body_chunk hbuf hc
  rw [← hlen] at hbody
  have hread := binaryReadResponse_of_collect H hbody
  simp only [hlen, List.take_length] at hread
  exact ⟨_, (parseRequest_eq H hparse).trans (congrArg some hread), rfl, rfl, rfl⟩

/-- **A header with a status and, perhaps, a text** goes to the response handler. -/
theorem AwaitsHeader.sees_status_iff {next : ParseHandler} {w : Wire} (hw : AwaitsHeader next w)
    {H : Handlers} {opcode status reqid : Nat} {text tail : Bytes} (hopcode : opcode < 256)
    (hnoop : opcode ≠ MMC_OP_NOOP) (hstatus : status < 2 ^ 16) (hreqid : reqid < 2 ^ 32)
    (htext : text.length < 2 ^ 32) (hrefused : status = 0 → text = [])
    (hc : w.chunks.flatten = responseHeader opcode 0 status text.length reqid 0 ++ text ++ tail)
    (hverdict : H.respond (binaryError status) text text.length ≠ .again)
    (calls : List HandlerCall) (result : MmcResult) (rest : Bytes) :
    Sees H w calls result rest ↔
      result = (H.respond (binaryError status) text text.length).result w.io ∧
        w.calls ++ [.response (binaryError status) text text.length] = calls ∧ tail = rest := by
  rw [hw.settled.sees_iff [responseHeader opcode 0 status text.length reqid 0, text, tail]
    (by simpa using hc)]
  have hstep := (hw.withChunks [responseHeader opcode 0 status text.length reqid 0, text, tail]).step
    H hopcode hnoop (by decide) hstatus ⟨Nat.zero_le _, htext⟩ hreqid (by decide) rfl
  by_cases hempty : text = []
  · -- the response handler is called at once, and the empty chunk stays in the stream
    subst hempty
    rw [if_pos List.length_nil] at hstep
    refine (sees_respond_iff hstep hverdict calls result rest).trans ?_
    simp [Wire.accept, Wire.withChunks]
  · have herror : binaryError status ≠ 0 := binaryError_ne_zero fun h => hempty (hrefused h)
    rw [if_neg (fun h => hempty (List.eq_nil_of_length_eq_zero h)), if_pos herror] at hstep
    obtain ⟨v, hv, hchunks, hio, hcalls⟩ := parseRequest_text H (w := Wire.readOn (Wire.accept
      (w.withChunks _) opcode status text.length reqid 0 [text, tail]) .binaryReadResponse text.length)
      rfl hw.readbuf rfl rfl
    refine (sees_again_iff hstep calls result rest).trans ?_
    refine (sees_respond_iff hv hverdict calls result rest).trans ?_
    rw [hchunks, hio, hcalls]
    simp [Wire.accept, Wire.readOn, Wire.withChunks]

/-- `(zend_long)` of an unsigned 64-bit number. -/
def zendLong (u : Nat) : Int := if u < 2 ^ 63 then u else (u : Int) - 2 ^ 64

/-- **A binary number** goes to the value handler as a signed one. -/
theorem AwaitsHeader.sees_number_iff {w : Wire} (hw : AwaitsHeader .binaryReadMutate w)
    {H : Handlers} {opcode reqid n : Nat} {tail : Bytes} (hopcode : opcode < 256)
    (hnoop : opcode ≠ MMC_OP_NOOP) (hreqid : reqid < 2 ^ 32) (hn : n < 2 ^ 64)
    (hc : w.chunks.flatten = responseHeader opcode 0 0 8 reqid 0 ++ bigEndian 8 n ++ tail)
    (calls : List HandlerCall) (result : MmcResult) (rest : Bytes) :
    Sees H w calls result rest ↔ result = .done ∧
      w.calls ++ [.long ((w.req.bin.keys[reqid]?.map ZKey.str).getD []) (zendLong n)
        w.req.bin.flags 0] = calls ∧ tail = rest := by
  rw [hw.settled.sees_iff [responseHeader opcode 0 0 8 reqid 0, bigEndian 8 n, tail]
    (by simpa using hc)]
  have hstep := (hw.withChunks [responseHeader opcode 0 0 8 reqid 0, bigEndian 8 n, tail]).step
    H hopcode hnoop (by decide) (by decide) (by decide) hreqid (by decide) rfl
  rw [if_neg (by decide), if_neg (by decide)] at hstep
  have hget := mmcStreamGet_chunk (Wire.readOn (Wire.accept (w.withChunks
    [responseHeader opcode 0 0 8 reqid 0, bigEndian 8 n, tail]) opcode 0 8 reqid 0
    [bigEndian 8 n, tail]) .binaryReadMutate 8) (bigEndian 8 n) [tail] hw.input rfl
  rw [bigEndian_length] at hget
  have hvalue : ofBigEndian (bigEndian 8 n) = n := by
    exact ofBigEndian_bigEndian_of_lt 8 hn
  have hrun := parseRequest_eq H (w := Wire.readOn (Wire.accept (w.withChunks
    [responseHeader opcode 0 0 8 reqid 0, bigEndian 8 n, tail]) opcode 0 8 reqid 0
    [bigEndian 8 n, tail]) .binaryReadMutate 8) rfl
  simp only [runHandler, binaryReadMutate, hget, hvalue] at hrun
  refine (sees_again_iff hstep calls result rest).trans ?_
  refine (sees_stop_iff hrun (by simp) (by simp) calls result rest).trans ?_
  simp [Wire.accept, Wire.readOn, Wire.withChunks, binaryKey, zendLong]

/-- The flags in front of the value. -/
theorem parseRequest_binaryFlags (H : Handlers) {w : Wire} {flags : Nat} {rest : List Bytes}
    (hparse : w.req.parse = some .binaryParseValue) (hin : w.io.input = []) (hflags : flags < 2 ^ 32)
    (hc : w.chunks = bigEndian 4 flags :: rest) :
    ∃ v : Wire, parseRequest H w = some (.again, v) ∧ v.chunks = rest ∧ v.calls = w.calls ∧
      v.req = { w.req with
        parse := some .binaryReadValue, bin := { w.req.bin with flags } } := by
  have hrun := parseRequest_flags H hparse hin hc (bigEndian_length _ _)
  rw [ofBigEndian_bigEndian_of_lt 4 hflags] at hrun
  exact ⟨_, hrun, rfl, rfl, rfl⟩

/-- The value of a get that names its key in the header. -/
theorem parseRequest_binaryValue (H : Handlers) {w : Wire} {data : Bytes} {rest : List Bytes}
    (hparse : w.req.parse = some .binaryReadValue) (hbuf : w.req.readbuf = {})
    (hopcode : w.req.bin.opcode = MMC_OP_GET) (hshort : data.length < 2 ^ 32)
    (hlen : w.req.bin.length = data.length) (hc : w.chunks = data :: rest) :
    ∃ v : Wire, parseRequest H w = some (.done, v) ∧ v.chunks = rest ∧
      v.calls = w.calls ++ H.valueCall ((binaryKey w.req).getD []) data w.req.bin.flags
        w.req.bin.cas := by
  have hbody := collect_body_chunk hbuf hc
  rw [← hlen] at hbody
  have hread := binaryReadValue_of_collect H hbody
  have hunpack := fun v key flags cas => @Wire.unpackValue_eq H v data [] key flags cas hshort
  simp only [List.append_nil] at hunpack
  simp only [hopcode, hlen, hunpack, true_or, if_true] at hread
  exact ⟨_, (parseRequest_eq H hparse).trans (congrArg some hread), rfl, rfl⟩

/-- **A binary value** goes to the value handler with what the header says. -/
theorem AwaitsHeader.sees_value_iff {w : Wire} (hw : AwaitsHeader .binaryParseValue w)
    {H : Handlers} {reqid flags cas : Nat} {data tail : Bytes} (hreqid : reqid < 2 ^ 32)
    (hflags : flags < 2 ^ 32) (hcas : cas < 2 ^ 64) (hshort : data.length + 4 < 2 ^ 32)
    (hc : w.chunks.flatten = responseHeader MMC_OP_GET 4 0 (data.length + 4) reqid cas
      ++ bigEndian 4 flags ++ data ++ tail)
    (calls : List HandlerCall) (result : MmcResult) (rest : Bytes) :
    Sees H w calls result rest ↔ result = .done ∧
      w.calls ++ H.valueCall ((w.req.bin.keys[reqid]?.map ZKey.str).getD []) data flags cas = calls ∧
        tail = rest := by
  rw [hw.settled.sees_iff [responseHeader MMC_OP_GET 4 0 (data.length + 4) reqid cas,
    bigEndian 4 flags, data, tail] (by simpa using hc)]
  have h₁ := (hw.withChunks [responseHeader MMC_OP_GET 4 0 (data.length + 4) reqid cas,
    bigEndian 4 flags, data, tail]).step H (by decide) (by decide) (by decide) (by decide)
    ⟨Nat.le_add_left _ _, hshort⟩ hreqid hcas rfl
  rw [if_neg (Nat.succ_ne_zero _), if_neg (by decide), Nat.add_sub_cancel] at h₁
  obtain ⟨v₂, h₂, hchunks₂, hcalls₂, hreq₂⟩ := parseRequest_binaryFlags H (w := Wire.readOn
    (Wire.accept (w.withChunks _) MMC_OP_GET 0 (data.length + 4) reqid cas
      [bigEndian 4 flags, data, tail]) .binaryParseValue data.length) rfl hw.input hflags rfl
  obtain ⟨v₃, h₃, hchunks₃, hcalls₃⟩ := parseRequest_binaryValue H (w := v₂) (by rw [hreq₂])
    (by rw [hreq₂]; exact hw.readbuf) (by rw [hreq₂]; rfl) (Nat.lt_of_le_of_lt (Nat.le_add_right _ 4)
    hshort) (by rw [hreq₂]; rfl) hchunks₂
  refine (sees_again_iff h₁ calls result rest).trans ?_
  refine (sees_again_iff h₂ calls result rest).trans ?_
  refine (sees_stop_iff h₃ (by simp) (by simp) calls result rest).trans ?_
  rw [hchunks₃, hcalls₃, hcalls₂, hreq₂]
  simp [Wire.accept, Wire.readOn, Wire.withChunks, binaryKey]

end PeclMemcache
