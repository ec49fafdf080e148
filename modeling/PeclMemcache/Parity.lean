import PeclMemcache.Exchange

set_option autoImplicit false

/-! # Two protocols, one behaviour

A script of operations against one server, run under the text and under the binary protocol. The two
status mappings send the refusals of the server to different codes, and the handlers of `memcache.c`
take some of them for a failure of the server. -/

namespace PeclMemcache

/-! ## Scripts -/

/-- A step of a script: an operation on the key of the user, or items that go away by themselves
    because they expire, are evicted or a flush is due. -/
inductive ScriptStep
  | operation (zkey : ZKey) (op : ApiOperation)
  | vanish (gone : Bytes → Bool)

/-- What the script sees of an operation: its result, and whether the server was taken for failed. -/
structure Answer where
  result : ReturnValue
  failed : Bool
  deriving DecidableEq, Repr

def Memcached.vanish (s : Memcached) (gone : Bytes → Bool) : Memcached :=
  { s with items := fun key => if gone key then none else s.items key }

/-- The prepared key; a flush has none. -/
def ApiOperation.prepare (keyPrefix : Bytes) (zkey : ZKey) : ApiOperation → Option Bytes
  | .flush _ => some []
  | _ => mmcPrepareKeyEx zkey.str keyPrefix

section

variable (p : WireProtocol) (unpack : Nat → Bytes → Option Bytes) (keyPrefix : Bytes)

/-- One step. A request without a valid key is not sent; the others are read and executed by the
    server, and the reply comes in any pieces. -/
inductive Exchange : Memcached → ScriptStep → List Answer → Memcached → Prop
  | invalid {s : Memcached} {zkey : ZKey} {op : ApiOperation}
      (prepared : op.prepare keyPrefix zkey = none) :
      Exchange s (.operation zkey op) [⟨.bool false, false⟩] s
  | answered {s : Memcached} {zkey : ZKey} {op : ApiOperation} {key : Bytes} {q : MmcRequest}
      {io : MmcStream} {chunks : List Bytes} {c : ServerCommand} {calls : List HandlerCall}
      {result : MmcResult} {rest : Bytes}
      (prepared : op.prepare keyPrefix zkey = some key) (input : io.input = [])
      (reads : serverReads p ((op.command p zkey key).sent q) = some c)
      (reply : chunks.flatten = op.reply p op.opcode c (s.execute c).1)
      (sees : Sees (op.handlers unpack) ((op.command p zkey key).awaiting q io chunks) calls result
        rest) :
      Exchange s (.operation zkey op) [⟨op.result calls, result ≠ .done⟩] (s.execute c).2
  | vanish {s : Memcached} {gone : Bytes → Bool} : Exchange s (.vanish gone) [] (s.vanish gone)

/-- A run of a script. -/
inductive Conversation : Memcached → List ScriptStep → List Answer → Memcached → Prop
  | nil {s : Memcached} : Conversation s [] [] s
  | cons {s s₁ s₂ : Memcached} {step : ScriptStep} {steps : List ScriptStep} {answers answers' : List Answer}
      (first : Exchange p unpack keyPrefix s step answers s₁)
      (later : Conversation s₁ steps answers' s₂) :
      Conversation s (step :: steps) (answers ++ answers') s₂

end

/-- The script gives the same answers under both protocols, however the replies come in, and takes
    the server for failed under neither. -/
def Parity (unpack : Nat → Bytes → Option Bytes) (keyPrefix : Bytes) (s : Memcached)
    (steps : List ScriptStep) : Prop :=
  ∃ answers s', (∀ a ∈ answers, a.failed = false) ∧ ∀ p answers₁ s₁,
    Conversation p unpack keyPrefix s steps answers₁ s₁ ↔ answers₁ = answers ∧ s₁ = s'

/-! ## Where the protocols agree -/

/-- The value a counter gets. -/
def counterAfter (value : Int64) (n : UInt64) : UInt64 :=
  if 0 ≤ value.toInt then n + UInt64.ofNat value.toInt.natAbs
  else UInt64.ofNat (n.toNat - value.toInt.natAbs)

/-- The condition on an operation with a prepared key: what is changed in place exists, a counter
    stays below the largest PHP integer, and a flush is immediate. -/
def ApiOperation.Agrees (op : ApiOperation) (s : Memcached) (key : Bytes) : Prop :=
  op.Sendable ∧
    match op with
    | .store verb _ _ _ => key ≠ [] ∧ (verb = .set ∨ verb = .add ∨ s.items key ≠ none)
    | .cas .. => key ≠ [] ∧ s.items key ≠ none
    | .delete => key ≠ []
    | .mutate value => key ≠ [] ∧ ∀ item ∈ s.items key, ∀ n ∈ item.counter,
        (counterAfter value n).toNat < 2 ^ 63
    | .get _ => key ≠ []
    | .flush delay => delay = 0

/-- What an operation answers to what the server did. -/
def ApiOperation.answer (unpack : Nat → Bytes → Option Bytes) (op : ApiOperation) (o : Outcome) :
    Option ReturnValue :=
  match op, o with
  | .store .., .stored => some (.bool true)
  | .store .., .tooLarge => some (.bool false)
  | .store .add _ _ _, .notStored => some (.bool false)
  | .cas .., .stored => some (.bool true)
  | .cas .., .differs => some (.bool false)
  | .cas .., .tooLarge => some (.bool false)
  | .delete, .deleted => some (.bool true)
  | .delete, .notFound => some (.bool false)
  | .mutate _, .number n => if n.toNat < 2 ^ 63 then some (.long n.toNat) else none
  | .mutate _, .notFound => some (.bool false)
  | .mutate _, .nonNumeric => some (.bool false)
  | .get withCas, .value item =>
    match unpack item.flags.toNat item.data with
    | some value => some (.value value item.flags.toNat
        (if withCas then some (zendLong item.token.toNat) else none))
    | none => some (.bool false)
  | .get _, .notFound => some (.bool false)
  | .flush _, .ok => some (.bool true)
  | _, _ => none

theorem Memcached.put_outcome (s : Memcached) (key : Bytes) (flags : UInt32) (data : Bytes) :
    (s.put key flags data).1 = .stored ∨ (s.put key flags data).1 = .tooLarge := by
  unfold put
  split
  · exact Or.inl rfl
  · exact Or.inr rfl

theorem Memcached.change_outcome (s : Memcached) (key : Bytes) (f : UInt64 → UInt64) :
    (s.change key f none).1 = .notFound ∨ (s.change key f none).1 = .nonNumeric ∨
      ∃ item ∈ s.items key, ∃ n ∈ item.counter, (s.change key f none).1 = .number (f n) := by
  unfold change
  cases s.items key with
  | none => exact Or.inl rfl
  | some item =>
    cases hcounter : item.counter with
    | none =>
      right; left
      simp only [hcounter]
    | some n =>
      right; right
      refine ⟨item, rfl, n, hcounter, ?_⟩
      simp only [hcounter]

/-- Both protocols ask for the same. -/
theorem ApiOperation.Agrees.execute_eq {op : ApiOperation} {s : Memcached} {key : Bytes}
    (h : op.Agrees s key) (p : WireProtocol) :
    s.execute (op.serverCommand p key) = s.execute (op.serverCommand .ascii key) := by
  cases op with
  | store verb exptime flags value =>
    cases verb with
    | append =>
      simp only [serverCommand, Memcached.execute]
      cases s.items key <;> rfl
    | prepend =>
      simp only [serverCommand, Memcached.execute]
      cases s.items key <;> rfl
    | set => simp [serverCommand, StoreVerb.op, binaryStoreCommand]
    | add => simp [serverCommand, StoreVerb.op, binaryStoreCommand]
    | replace => simp [serverCommand, StoreVerb.op, binaryStoreCommand]
  | flush delay =>
    have hdelay : delay = 0 := h.2
    subst hdelay
    cases p <;> rfl
  | _ => rfl

/-- The server gives an outcome both protocols have an answer for. -/
theorem ApiOperation.Agrees.answer {op : ApiOperation} {s : Memcached} {key : Bytes}
    (h : op.Agrees s key) (unpack : Nat → Bytes → Option Bytes) :
    ∃ r, op.answer unpack (s.execute (op.serverCommand .ascii key)).1 = some r := by
  have hput := s.put_outcome
  cases op with
  | store verb exptime flags value =>
    have hstored : ∀ flags' data, ∃ r, (ApiOperation.store verb exptime flags value).answer unpack
        (s.put key flags' data).1 = some r := by
      intro flags' data
      rcases hput key flags' data with ho | ho <;> rw [ho] <;> exact ⟨_, rfl⟩
    obtain ⟨-, -, hverb⟩ := h
    simp only [serverCommand, Memcached.execute]
    cases hitem : s.items key with
    | none =>
      rcases hverb with rfl | rfl | hverb
      · exact hstored ..
      · exact hstored ..
      · exact absurd hitem hverb
    | some item =>
      cases verb with
      | add => exact ⟨_, rfl⟩
      | _ => exact hstored ..
  | cas exptime flags value token =>
    obtain ⟨-, -, hpresent⟩ := h
    obtain ⟨item, hitem⟩ := Option.ne_none_iff_exists'.mp hpresent
    simp only [serverCommand, Memcached.execute, hitem]
    split
    · rcases hput key flags value with ho | ho <;> rw [ho] <;> exact ⟨_, rfl⟩
    · exact ⟨_, rfl⟩
  | delete =>
    simp only [serverCommand, Memcached.execute]
    cases s.items key <;> exact ⟨_, rfl⟩
  | mutate value =>
    obtain ⟨-, -, hsmall⟩ := h
    have hchange : (s.execute ((ApiOperation.mutate value).serverCommand .ascii key)).1
        = (s.change key (counterAfter value) none).1 := by
      unfold counterAfter
      simp only [serverCommand]
      split <;> rfl
    rw [hchange]
    rcases s.change_outcome key (counterAfter value) with ho | ho | ⟨item, hitem, n, hn, ho⟩
    · rw [ho]
      exact ⟨_, rfl⟩
    · rw [ho]
      exact ⟨_, rfl⟩
    · rw [ho]
      exact ⟨_, if_pos (hsmall item hitem n hn)⟩
  | get withCas =>
    simp only [serverCommand, Memcached.execute]
    cases s.items key with
    | none => exact ⟨_, rfl⟩
    | some item =>
      simp only [ApiOperation.answer]
      split <;> exact ⟨_, rfl⟩
  | flush delay =>
    have hdelay : delay = 0 := h.2
    subst hdelay
    exact ⟨_, rfl⟩

/-! ## What a reply leads to -/

/-- Under the protocol, the reply to the operation ends with the result, however it is cut. -/
def ApiOperation.Shows (op : ApiOperation) (p : WireProtocol) (key : Bytes) (o : Outcome)
    (unpack : Nat → Bytes → Option Bytes) (r : ReturnValue) : Prop :=
  ∀ (q : MmcRequest) (zkey : ZKey) (io : MmcStream) (chunks : List Bytes), io.input = [] →
    chunks.flatten = op.reply p op.opcode (op.serverCommand p key) o →
    ∃ calls, (∀ calls' result rest, Sees (op.handlers unpack)
        ((op.command p zkey key).awaiting q io chunks) calls' result rest ↔
          result = .done ∧ calls = calls' ∧ [] = rest) ∧ op.result calls = r

section

variable {op : ApiOperation} {key : Bytes} {o : Outcome} {unpack : Nat → Bytes → Option Bytes}
  {r : ReturnValue}

/-- The reply is a status line the handlers accept. -/
theorem ApiOperation.shows_line (line : Bytes)
    (hparse : ∀ q, ((op.textCommand key).build q).parse = some .asciiParseResponse ∨
      ((op.textCommand key).build q).parse = some .asciiParseMutate ∧
        mmcRequestCheckResponse (line ++ crlf) ≠ MMC_RESPONSE_UNKNOWN)
    (hline : ShortLine (line ++ [13]))
    (hreply : op.reply .ascii op.opcode (op.serverCommand .ascii key) o = line ++ crlf)
    (hdone : (op.handlers unpack).ofLine (line ++ crlf) = .done)
    (hresult : op.result [lineCall (line ++ crlf)] = r) : op.Shows .ascii key o unpack r := by
  have hshape : line ++ [13] ++ [10] = line ++ crlf := by simp [crlf]
  intro q zkey io chunks hio hchunks
  refine ⟨[lineCall (line ++ crlf)], ?_, hresult⟩
  intro calls' result rest
  have hsettled : (((op.command .ascii zkey key).awaiting q io chunks)).Settled := ⟨hio, Or.inl rfl⟩
  have hflatten : ((op.command .ascii zkey key).awaiting q io chunks).chunks.flatten
      = line ++ [13] ++ [10] ++ [] := by
    rw [hshape, List.append_nil]
    exact hchunks.trans hreply
  have hverdict : (op.handlers unpack).ofLine (line ++ [13] ++ [10]) ≠ .again := by
    rw [hshape, hdone]
    decide
  rcases hparse q with hparse | ⟨hparse, hstatus⟩
  · rw [sees_asciiResponse_iff hline hsettled hparse hflatten hverdict, hshape, hdone]
    rfl
  · rw [sees_asciiMutate_iff hline hsettled hparse hflatten (by rw [hshape]; exact hstatus) hverdict,
      hshape, hdone]
    rfl

/-- The parser of a binary operation waits for a header. -/
theorem ApiOperation.awaitsHeader (op : ApiOperation) (zkey : ZKey) (key : Bytes) (q : MmcRequest)
    {io : MmcStream} (hio : io.input = []) (chunks : List Bytes) :
    ∃ next, AwaitsHeader next ((op.command .binary zkey key).awaiting q io chunks) := by
  cases op <;> exact ⟨_, rfl, rfl, hio, rfl⟩

theorem ApiOperation.opcode_lt (op : ApiOperation) : op.opcode < 256 ∧ op.opcode ≠ MMC_OP_NOOP := by
  unfold opcode
  cases op with
  | store verb _ _ _ =>
    dsimp only
    cases verb <;> decide
  | mutate value =>
    dsimp only
    split <;> decide
  | _ =>
    dsimp only
    decide

/-- The reply is a header with a status the handlers accept, and perhaps a text. -/
theorem ApiOperation.shows_status (status : Nat) (text : Bytes) (hstatus : status < 2 ^ 16)
    (htext : text.length < 2 ^ 32) (hrefused : status = 0 → text = [])
    (hreply : op.reply .binary op.opcode (op.serverCommand .binary key) o
      = responseHeader op.opcode 0 status text.length 0 0 ++ text)
    (hdone : (op.handlers unpack).respond (binaryError status) text text.length = .done)
    (hresult : op.result [.response (binaryError status) text text.length] = r) :
    op.Shows .binary key o unpack r := by
  intro q zkey io chunks hio hchunks
  obtain ⟨next, hawaits⟩ := op.awaitsHeader zkey key q hio chunks
  refine ⟨[.response (binaryError status) text text.length], ?_, hresult⟩
  intro calls' result rest
  have hflatten : ((op.command .binary zkey key).awaiting q io chunks).chunks.flatten
      = responseHeader op.opcode 0 status text.length 0 0 ++ text ++ [] := by
    rw [List.append_nil]
    exact hchunks.trans hreply
  rw [hawaits.sees_status_iff op.opcode_lt.1 op.opcode_lt.2 hstatus (by decide) htext hrefused
    hflatten (by rw [hdone]; decide), hdone]
  rfl

/-- A number below the largest PHP integer is the same for `strtol`. -/
theorem strtol_of_lt {n : Nat} (h : n < 2 ^ 63) : strtol false n = n := by
  rw [strtol, if_neg (by decide)]
  omega

theorem ApiOperation.shows_ascii_number {value : Int64} {n : UInt64}
    (h : (ApiOperation.mutate value).answer unpack (.number n) = some r) :
    (ApiOperation.mutate value).Shows .ascii key (.number n) unpack r := by
  simp only [answer] at h
  split at h
  · rename_i hsmall
    cases h
    intro q zkey io chunks hio hchunks
    have hreply : (ApiOperation.mutate value).reply .ascii (ApiOperation.mutate value).opcode
        ((ApiOperation.mutate value).serverCommand .ascii key) (.number n)
          = decimal n.toNat ++ crlf := by
      simp only [reply, serverCommand]
      split <;> rfl
    refine ⟨_, fun calls' result rest => sees_asciiNumber_iff n.toNat_lt ⟨hio, Or.inl rfl⟩ rfl
      (by rw [List.append_nil, ← hreply]; exact hchunks) calls' result rest, ?_⟩
    rw [strtol_of_lt hsmall]
    rfl
  · cases h

theorem ApiOperation.shows_ascii_value {withCas : Bool} {item : Item} (hplain : Plain key)
    (hword : keyWord key = some key) (hne : key ≠ [])
    (h : (ApiOperation.get withCas).answer unpack (.value item) = some r) :
    (ApiOperation.get withCas).Shows .ascii key (.value item) unpack r := by
  intro q zkey io chunks hio hchunks
  have hshort : item.data.length < 2 ^ 32 := Nat.lt_of_le_of_lt (Nat.le_add_right _ 4) item.length_lt
  have htoken : ∀ t ∈ (if withCas then some item.token.toNat else none), t < 2 ^ 64 := by
    intro t ht
    split at ht
    · cases ht
      exact item.token.toNat_lt
    · cases ht
  refine ⟨_, fun calls' result rest => sees_asciiValue_iff hplain hne (keyWord_length hword)
    item.flags.toNat_lt hshort htoken hio rfl
    (by cases withCas <;> rfl) (by rw [← textReply_value]; exact hchunks) calls' result rest, ?_⟩
  simp only [answer] at h
  rw [Handlers.valueCall]
  cases hunpack : unpack item.flags.toNat item.data with
  | none =>
    rw [hunpack] at h
    cases h
    simp only [handlers]
    rw [hunpack]
    rfl
  | some value =>
    rw [hunpack] at h
    cases h
    simp only [handlers]
    rw [hunpack]
    cases withCas <;> rfl

/-- **The reply under the text protocol** leads to the answer. -/
theorem ApiOperation.shows_ascii (hplain : Plain key) (hword : keyWord key = some key)
    (hne : (∃ delay, op = .flush delay) ∨ key ≠ []) (h : op.answer unpack o = some r) :
    op.Shows .ascii key o unpack r := by
  have hstored : ShortLine (bytes ['S', 'T', 'O', 'R', 'E', 'D'] ++ [13]) := ⟨by decide, by decide⟩
  have hlarge : ShortLine (bytes "SERVER_ERROR object too large for cache".toList ++ [13]) :=
    ⟨by decide, by decide⟩
  have hnotFound : ShortLine (bytes ['N', 'O', 'T', '_', 'F', 'O', 'U', 'N', 'D'] ++ [13]) :=
    ⟨by decide, by decide⟩
  cases op with
  | store verb exptime flags value =>
    have hparse : ∀ q, (((ApiOperation.store verb exptime flags value).textCommand key).build q).parse
        = some .asciiParseResponse := by
      intro q
      cases verb <;> rfl
    cases o with
    | stored =>
      cases h
      exact shows_line _ (fun q => Or.inl (hparse q)) hstored rfl rfl rfl
    | tooLarge =>
      cases h
      exact shows_line _ (fun q => Or.inl (hparse q)) hlarge rfl rfl rfl
    | notStored =>
      cases verb with
      | add =>
        cases h
        exact shows_line (bytes ['N', 'O', 'T', '_', 'S', 'T', 'O', 'R', 'E', 'D'])
          (fun q => Or.inl (hparse q)) ⟨by decide, by decide⟩ rfl rfl rfl
      | _ => cases h
    | _ => cases h
  | cas exptime flags value token =>
    cases o with
    | stored =>
      cases h
      exact shows_line _ (fun q => Or.inl rfl) hstored rfl rfl rfl
    | tooLarge =>
      cases h
      exact shows_line _ (fun q => Or.inl rfl) hlarge rfl rfl rfl
    | differs =>
      cases h
      exact shows_line (bytes ['E', 'X', 'I', 'S', 'T', 'S']) (fun q => Or.inl rfl)
        ⟨by decide, by decide⟩ rfl rfl rfl
    | _ => cases h
  | delete =>
    cases o with
    | deleted =>
      cases h
      exact shows_line (bytes ['D', 'E', 'L', 'E', 'T', 'E', 'D']) (fun q => Or.inl rfl)
        ⟨by decide, by decide⟩ rfl rfl rfl
    | notFound =>
      cases h
      exact shows_line _ (fun q => Or.inl rfl) hnotFound rfl rfl rfl
    | _ => cases h
  | mutate value =>
    cases o with
    | number n => exact shows_ascii_number h
    | notFound =>
      cases h
      refine shows_line _ (fun q => Or.inr ⟨rfl, by decide⟩) hnotFound ?_ rfl rfl
      simp only [reply, serverCommand]
      split <;> rfl
    | nonNumeric =>
      cases h
      refine shows_line (bytes "CLIENT_ERROR cannot increment or decrement non-numeric value".toList)
        (fun q => Or.inr ⟨rfl, by decide⟩) ⟨by decide, by decide⟩ ?_ rfl rfl
      simp only [reply, serverCommand]
      split <;> rfl
    | _ => cases h
  | get withCas =>
    rcases hne with ⟨delay, hne⟩ | hne
    · cases hne
    cases o with
    | value item => exact shows_ascii_value hplain hword hne h
    | notFound =>
      cases h
      intro q zkey io chunks hio hchunks
      refine ⟨[], ?_, rfl⟩
      intro calls' result rest
      exact sees_endLine_iff ⟨hio, Or.inl rfl⟩ (by cases withCas <;> rfl)
        (by rw [List.append_nil]; exact hchunks) calls' result rest
    | _ => cases h
  | flush delay =>
    cases o with
    | ok =>
      cases h
      exact shows_line (bytes ['O', 'K']) (fun q => Or.inl rfl) ⟨by decide, by decide⟩ rfl rfl rfl
    | _ => cases h

theorem ApiOperation.shows_binary_number {value : Int64} {n : UInt64}
    (h : (ApiOperation.mutate value).answer unpack (.number n) = some r) :
    (ApiOperation.mutate value).Shows .binary key (.number n) unpack r := by
  simp only [answer] at h
  split at h
  · rename_i hsmall
    cases h
    intro q zkey io chunks hio hchunks
    have hreply : (ApiOperation.mutate value).reply .binary (ApiOperation.mutate value).opcode
        ((ApiOperation.mutate value).serverCommand .binary key) (.number n)
          = responseHeader (ApiOperation.mutate value).opcode 0 0 8 0 0 ++ bigEndian 8 n.toNat := by
      simp only [reply, serverCommand]
      split <;> rfl
    have hawaits : AwaitsHeader .binaryReadMutate
        (((ApiOperation.mutate value).command .binary zkey key).awaiting q io chunks) :=
      ⟨rfl, rfl, hio, rfl⟩
    obtain ⟨hopcode, hnoop⟩ := (ApiOperation.mutate value).opcode_lt
    refine ⟨_, fun calls' result rest => hawaits.sees_number_iff hopcode hnoop
      (by decide : 0 < 2 ^ 32) n.toNat_lt
      (by rw [List.append_nil, ← hreply]; exact hchunks) calls' result rest, ?_⟩
    rw [zendLong, if_pos hsmall]
    rfl
  · cases h

theorem ApiOperation.shows_binary_value {withCas : Bool} {item : Item}
    (h : (ApiOperation.get withCas).answer unpack (.value item) = some r) :
    (ApiOperation.get withCas).Shows .binary key (.value item) unpack r := by
  intro q zkey io chunks hio hchunks
  have hawaits : AwaitsHeader .binaryParseValue
      (((ApiOperation.get withCas).command .binary zkey key).awaiting q io chunks) :=
    ⟨rfl, rfl, hio, rfl⟩
  refine ⟨_, fun calls' result rest => hawaits.sees_value_iff (by decide : 0 < 2 ^ 32)
    item.flags.toNat_lt item.token.toNat_lt item.length_lt (by rw [List.append_nil]; exact hchunks) calls' result rest,
    ?_⟩
  simp only [answer] at h
  rw [Handlers.valueCall]
  cases hunpack : unpack item.flags.toNat item.data with
  | none =>
    rw [hunpack] at h
    cases h
    simp only [handlers]
    rw [hunpack]
    rfl
  | some value =>
    rw [hunpack] at h
    cases h
    simp only [handlers]
    rw [hunpack]
    cases withCas <;> rfl

/-- **The reply under the binary protocol** leads to the answer. -/
theorem ApiOperation.shows_binary (h : op.answer unpack o = some r) :
    op.Shows .binary key o unpack r := by
  cases op with
  | store verb exptime flags value =>
    cases o with
    | stored =>
      cases h
      exact shows_status 0 [] (by decide) (by decide) (fun _ => rfl) rfl rfl rfl
    | tooLarge =>
      cases h
      exact shows_status 3 (bytes "Too large.".toList) (by decide) (by decide) (by decide) rfl rfl rfl
    | notStored =>
      cases verb with
      | add =>
        cases h
        exact shows_status 2 (bytes "Data exists for key.".toList) (by decide) (by decide) (by decide)
          rfl rfl rfl
      | _ => cases h
    | _ => cases h
  | cas exptime flags value token =>
    cases o with
    | stored =>
      cases h
      exact shows_status 0 [] (by decide) (by decide) (fun _ => rfl) rfl rfl rfl
    | tooLarge =>
      cases h
      exact shows_status 3 (bytes "Too large.".toList) (by decide) (by decide) (by decide) rfl rfl rfl
    | differs =>
      cases h
      exact shows_status 2 (bytes "Data exists for key.".toList) (by decide) (by decide) (by decide)
        rfl rfl rfl
    | _ => cases h
  | delete =>
    cases o with
    | deleted =>
      cases h
      exact shows_status 0 [] (by decide) (by decide) (fun _ => rfl) rfl rfl rfl
    | notFound =>
      cases h
      exact shows_status 1 (bytes "Not found".toList) (by decide) (by decide) (by decide) rfl rfl rfl
    | _ => cases h
  | mutate value =>
    cases o with
    | number n => exact shows_binary_number h
    | notFound =>
      cases h
      refine shows_status 1 (bytes "Not found".toList) (by decide) (by decide) (by decide) ?_ rfl rfl
      simp only [reply, serverCommand]
      split <;> rfl
    | nonNumeric =>
      cases h
      refine shows_status 6 (bytes "Non-numeric server-side value for incr or decr".toList) (by decide)
        (by decide) (by decide) ?_ rfl rfl
      simp only [reply, serverCommand]
      split <;> rfl
    | _ => cases h
  | get withCas =>
    cases o with
    | value item => exact shows_binary_value h
    | notFound =>
      cases h
      exact shows_status 1 (bytes "Not found".toList) (by decide) (by decide) (by decide) rfl rfl rfl
    | _ => cases h
  | flush delay =>
    cases o with
    | ok =>
      cases h
      exact shows_status 0 [] (by decide) (by decide) (fun _ => rfl) rfl rfl rfl
    | _ => cases h

end

/-! ## Whole scripts -/

/-- The condition on a step: on the server's state before it. -/
def ScriptStep.Agrees (keyPrefix : Bytes) (s : Memcached) : ScriptStep → Prop
  | .operation zkey op => ∀ key ∈ op.prepare keyPrefix zkey, op.Agrees s key
  | .vanish _ => True

/-- The server's state after a step. -/
def ScriptStep.next (keyPrefix : Bytes) (s : Memcached) : ScriptStep → Memcached
  | .operation zkey op =>
    match op.prepare keyPrefix zkey with
    | none => s
    | some key => (s.execute (op.serverCommand .ascii key)).2
  | .vanish gone => s.vanish gone

/-- Every step of the script meets its condition. -/
def Agreeing (keyPrefix : Bytes) : Memcached → List ScriptStep → Prop
  | _, [] => True
  | s, step :: steps => step.Agrees keyPrefix s ∧ Agreeing keyPrefix (step.next keyPrefix s) steps

theorem ApiOperation.prepare_spec {op : ApiOperation} {keyPrefix key : Bytes} {zkey : ZKey}
    (hshort : keyPrefix.length ≤ 250) (h : op.prepare keyPrefix zkey = some key) :
    Plain key ∧ keyWord key = some key := by
  cases op with
  | flush delay =>
    cases h
    exact ⟨by decide, by decide⟩
  | _ => exact ⟨(mmcPrepareKeyEx_spec hshort h).1, (mmcPrepareKeyEx_spec hshort h).2.1⟩

theorem ApiOperation.Agrees.key_ne_nil {op : ApiOperation} {s : Memcached} {key : Bytes}
    (h : op.Agrees s key) : (∃ delay, op = .flush delay) ∨ key ≠ [] := by
  cases op with
  | store _ _ _ _ => exact Or.inr h.2.1
  | cas _ _ _ _ => exact Or.inr h.2.1
  | delete => exact Or.inr h.2
  | mutate _ => exact Or.inr h.2.1
  | get _ => exact Or.inr h.2
  | flush delay => exact Or.inl ⟨delay, rfl⟩

/-- The server reads the operation, under either protocol. -/
theorem ApiOperation.Agrees.serverReads {op : ApiOperation} {s : Memcached} {key : Bytes}
    (h : op.Agrees s key) (hplain : Plain key) (hword : keyWord key = some key) (p : WireProtocol)
    (q : MmcRequest) (zkey : ZKey) :
    serverReads p ((op.command p zkey key).sent q) = some (op.serverCommand p key) := by
  cases p with
  | ascii =>
    rcases h.key_ne_nil with ⟨delay, rfl⟩ | hne
    · -- the command of a flush does not depend on the key
      exact @serverReads_ascii [107] (by decide) (by decide) (by decide) q zkey (.flush delay)
    · exact serverReads_ascii hplain hword hne q zkey op
  | binary => exact serverReads_binary (keyWord_length hword) q zkey h.1

/-- An operation that meets its condition has the answer to what the server did, however its reply comes
    in, and leads to one state. -/
theorem ApiOperation.Agrees.exchange_iff {op : ApiOperation} {s : Memcached} {keyPrefix key : Bytes}
    {zkey : ZKey} (hagrees : op.Agrees s key) (hshort : keyPrefix.length ≤ 250)
    (hprepare : op.prepare keyPrefix zkey = some key) {unpack : Nat → Bytes → Option Bytes}
    {r : ReturnValue} (hr : op.answer unpack (s.execute (op.serverCommand .ascii key)).1 = some r)
    (p : WireProtocol) (answers : List Answer) (s' : Memcached) :
    Exchange p unpack keyPrefix s (.operation zkey op) answers s' ↔
      answers = [⟨r, false⟩] ∧ s' = (s.execute (op.serverCommand .ascii key)).2 := by
  obtain ⟨hplain, hword⟩ := op.prepare_spec hshort hprepare
  have hshows : op.Shows p key (s.execute (op.serverCommand p key)).1 unpack r := by
    rw [hagrees.execute_eq p]
    cases p with
    | ascii => exact ApiOperation.shows_ascii hplain hword hagrees.key_ne_nil hr
    | binary => exact ApiOperation.shows_binary hr
  constructor
  · intro hexchange
    cases hexchange with
    | invalid hprepared =>
      rw [hprepare] at hprepared
      cases hprepared
    | @answered _ _ _ q io chunks c calls result rest hprepared hinput hreads hreply hsees =>
      rw [hprepare] at hprepared
      cases hprepared
      rw [hagrees.serverReads hplain hword p q zkey] at hreads
      cases hreads
      obtain ⟨calls', hiff, hresult⟩ := hshows q zkey io chunks hinput hreply
      obtain ⟨rfl, rfl, -⟩ := (hiff calls result rest).mp hsees
      rw [hresult, hagrees.execute_eq p]
      simp
  · rintro ⟨rfl, rfl⟩
    obtain ⟨calls, hiff, hresult⟩ := hshows {} zkey {}
      [op.reply p op.opcode (op.serverCommand p key) (s.execute (op.serverCommand p key)).1] rfl
      (by simp)
    have hexchange := Exchange.answered (s := s) hprepare rfl (hagrees.serverReads hplain hword p {} zkey)
      (by simp) ((hiff calls .done []).mpr ⟨rfl, rfl, rfl⟩)
    rw [hresult, hagrees.execute_eq p] at hexchange
    simpa using hexchange

/-- **The step lemma**: a step that meets its condition has one answer and one state after it, under
    both protocols. -/
theorem ScriptStep.Agrees.exchange_iff {keyPrefix : Bytes} {s : Memcached} {step : ScriptStep}
    (h : step.Agrees keyPrefix s) (hshort : keyPrefix.length ≤ 250)
    (unpack : Nat → Bytes → Option Bytes) :
    ∃ answers, (∀ a ∈ answers, a.failed = false) ∧ ∀ p answers' s',
      Exchange p unpack keyPrefix s step answers' s' ↔
        answers' = answers ∧ s' = step.next keyPrefix s := by
  cases step with
  | vanish gone =>
    refine ⟨[], by simp, fun p answers' s' => ⟨?_, ?_⟩⟩
    · rintro ⟨⟩
      exact ⟨rfl, rfl⟩
    · rintro ⟨rfl, rfl⟩
      exact .vanish
  | operation zkey op =>
    cases hprepare : op.prepare keyPrefix zkey with
    | none =>
      refine ⟨[⟨.bool false, false⟩], by simp, fun p answers' s' => ?_⟩
      simp only [ScriptStep.next, hprepare]
      constructor
      · intro hexchange
        cases hexchange with
        | invalid _ => exact ⟨rfl, rfl⟩
        | answered hprepared _ _ _ _ =>
          rw [hprepare] at hprepared
          cases hprepared
      · rintro ⟨rfl, rfl⟩
        exact .invalid hprepare
    | some key =>
      have hagrees : op.Agrees s key := h key hprepare
      obtain ⟨r, hr⟩ := hagrees.answer unpack
      refine ⟨[⟨r, false⟩], by simp, fun p answers' s' => ?_⟩
      simp only [ScriptStep.next, hprepare]
      exact hagrees.exchange_iff hshort hprepare hr p answers' s'

/-- **The two protocols behave alike** on every script whose steps meet the condition: the answers
    are the same and the server is never taken for failed, however the replies are cut. -/
theorem parity_of_agreeing (unpack : Nat → Bytes → Option Bytes) (keyPrefix : Bytes)
    (hshort : keyPrefix.length ≤ 250) (steps : List ScriptStep) (s : Memcached)
    (h : Agreeing keyPrefix s steps) : Parity unpack keyPrefix s steps := by
  induction steps generalizing s with
  | nil =>
    refine ⟨[], s, by simp, fun p answers₁ s₁ => ⟨?_, ?_⟩⟩
    · rintro ⟨⟩
      exact ⟨rfl, rfl⟩
    · rintro ⟨rfl, rfl⟩
      exact .nil
  | cons step steps ih =>
    obtain ⟨answers, hok, hstep⟩ := h.1.exchange_iff hshort unpack
    obtain ⟨answers', s', hok', hrest⟩ := ih (step.next keyPrefix s) h.2
    refine ⟨answers ++ answers', s', ?_, fun p answers₁ s₁ => ⟨?_, ?_⟩⟩
    · intro a ha
      rcases List.mem_append.mp ha with ha | ha
      · exact hok a ha
      · exact hok' a ha
    · intro hrun
      cases hrun with
      | cons first later =>
        obtain ⟨rfl, rfl⟩ := (hstep p _ _).mp first
        obtain ⟨rfl, rfl⟩ := (hrest p _ _).mp later
        exact ⟨rfl, rfl⟩
    · rintro ⟨rfl, rfl⟩
      exact .cons ((hstep p _ _).mpr ⟨rfl, rfl⟩) ((hrest p _ _).mpr ⟨rfl, rfl⟩)

/-- An add of the key `k`, which is refused the second time, and a delete of a key that is missing. -/
def refusals : List ScriptStep :=
  [.operation ⟨1, [107]⟩ (.store .add 0 0 [120]), .operation ⟨1, [107]⟩ (.store .add 0 0 [121]),
    .operation ⟨2, [106]⟩ .delete]

theorem parity_refusals : Parity (fun _ data => some data) [] {} refusals := by
  refine parity_of_agreeing _ [] (by decide) refusals {} ⟨?_, ?_, ?_, trivial⟩
  · rintro key ⟨⟩
    exact ⟨(by decide : 1 + 258 < 2 ^ 32), by decide, Or.inr (Or.inl rfl)⟩
  · rintro key ⟨⟩
    exact ⟨(by decide : 1 + 258 < 2 ^ 32), by decide, Or.inr (Or.inl rfl)⟩
  · rintro key ⟨⟩
    exact ⟨trivial, by decide⟩

/-- Under the binary protocol a replace of a key that is missing makes the server failed: the status
    is taken for `MMC_RESPONSE_NOT_FOUND`, which `mmc_stored_handler` does not list. -/
theorem replace_missing_not_parity : ¬ Parity (fun _ data => some data) [] {}
    [.operation ⟨1, [107]⟩ (.store .replace 0 0 [120])] := by
  rintro ⟨answers, s', hok, hiff⟩
  have hagain : ((ApiOperation.store .replace 0 0 [120]).handlers fun _ data => some data).respond
      (binaryError 1) (bytes "Not found".toList) 9 ≠ .again := by decide
  obtain ⟨next, hawaits⟩ := (ApiOperation.store .replace 0 0 [120]).awaitsHeader ⟨1, [107]⟩ [107] {}
    (rfl : ({ status := .connected } : MmcStream).input = [])
    [errorReply MMC_OP_REPLACE 0 1 "Not found".toList]
  have hsees := (@AwaitsHeader.sees_status_iff next _ hawaits _ MMC_OP_REPLACE 1 0
    (bytes "Not found".toList) [] (by decide) (by decide) (by decide) (by decide) (by decide)
    (by decide) (by rw [List.append_nil]; exact List.append_nil _) hagain _ _ []).mpr ⟨rfl, rfl, rfl⟩
  have hreads := @serverReads_binary [107] (by decide) {} ⟨1, [107]⟩ (.store .replace 0 0 [120])
    (by decide : 1 + 258 < 2 ^ 32)
  have hprepare : (ApiOperation.store .replace 0 0 [120]).prepare [] ⟨1, [107]⟩ = some [107] := rfl
  have hexchange := Exchange.answered (s := {}) hprepare rfl hreads rfl hsees
  obtain ⟨rfl, -⟩ := (hiff .binary _ _).mp (.cons hexchange .nil)
  exact absurd (hok _ List.mem_cons_self) (by decide)

end PeclMemcache
