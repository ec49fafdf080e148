import PeclMemcache.MultiValues
import PeclMemcache.Parity
import PeclMemcache.Writes

set_option autoImplicit false

/-! # The arrays of multi-key operations

A get or an increment for an array of keys returns an array. The text protocol enters a value under
the key that was sent, the binary one under the key of the user; the two differ where
`mmc_prepare_key` changes the key. -/

namespace PeclMemcache

open Writes

/-! ## Arrays -/

inductive ArrayValue
  | value (value : Bytes)
  | long (n : Int)
  | bool (b : Bool)
  deriving DecidableEq, Repr

/-- A PHP array with string keys. A numeric string becomes an integer key, which no other string
    does. -/
abbrev ResultArray : Type := Bytes → Option ArrayValue

/-- `array_init`. -/
def arrayInit : ResultArray := fun _ => none

/-- `add_assoc_*_ex`. -/
def ResultArray.addAssoc (a : ResultArray) (key : Bytes) (v : ArrayValue) : ResultArray :=
  Function.update a key (some v)

/-- `mmc_value_handler_multi` as far as the array of values is concerned. -/
def mmcValueHandlerMulti (a : ResultArray) : HandlerCall → ResultArray
  | .value key value _ _ => a.addAssoc key (.value value)
  | .long key n _ _ => a.addAssoc key (.long n)
  | .response .. => a

/-- `mmc_numeric_response_handler` for an array: the length of the key includes the NUL behind it. -/
def mmcNumericResponseHandlerMulti (key : Bytes) (response : Int) (a : ResultArray) :
    Verdict × ResultArray :=
  if response = MMC_OK then (.done, a.addAssoc (key ++ [0]) (.bool true))
  else if response = MMC_RESPONSE_NOT_FOUND ∨ response = MMC_RESPONSE_CLIENT_ERROR then
    (.done, a.addAssoc (key ++ [0]) (.bool false))
  else (.requestFailure, a)

/-- The keys that are sent, each with what is sent for it. -/
def validKeys (keyPrefix : Bytes) (keys : List ZKey) : List (ZKey × Bytes) :=
  keys.filterMap fun zkey => (mmcPrepareKeyEx zkey.str keyPrefix).map fun key => (zkey, key)

/-- What a value is entered under: the key on the wire, or the remembered one. -/
def resultKey : WireProtocol → ZKey × Bytes → Bytes
  | .ascii, k => k.2
  | .binary, k => k.1.str

/-! ## Multi-key gets -/

/-- A request of a multi-key get: its server and its keys. -/
structure GetRequest where
  server : Mmc
  keys : List (ZKey × Bytes)

def GetRequest.command (p : WireProtocol) (withCas : Bool) (g : GetRequest) : Command :=
  match p with
  | .ascii => .asciiGet (if withCas then .gets else .get) (g.keys.map Prod.snd)
  | .binary => .binaryGets g.keys

/-- What the server answers to the bytes of a multi-key get; `none` if it cannot read them. -/
def Memcached.answers (s : Memcached) : WireProtocol → Bytes → Option Bytes
  | .ascii, sent =>
    match parseText sent with
    | some (.get withCas keys, []) => some (s.textValues withCas keys)
    | _ => none
  | .binary, sent => (parseFrames sent.length sent).map fun frames => frames.flatMap s.quietReply

section Get

variable (p : WireProtocol) (unpack : Nat → Bytes → Option Bytes) (keyPrefix : Bytes) (withCas : Bool)
  (findServer : Bytes → Mmc) (servers : Mmc → Memcached)

/-- The calls of the handlers for a request: the server reads it and answers, and the answer comes in
    any pieces. -/
def GetRequest.Answered (g : GetRequest) (calls : List HandlerCall) : Prop :=
  ∃ q io chunks reply result rest, io.input = [] ∧
    (servers g.server).answers p ((g.command p withCas).sent q) = some reply ∧
    chunks.flatten = reply ∧
    Sees (getHandlers unpack) ((g.command p withCas).awaiting q io chunks) calls result rest

/-- What `memcache_get` returns for an array of keys. The valid keys are spread over requests, each to
    the server its keys belong to, and the answers come in any order. -/
def MultiGet (keys : List ZKey) (array : ResultArray) : Prop :=
  ∃ (requests : List GetRequest) (answers : List (List HandlerCall)) (order : List HandlerCall),
    (requests.flatMap GetRequest.keys).Perm (validKeys keyPrefix keys) ∧
    (∀ g ∈ requests, g.keys ≠ [] ∧ ∀ k ∈ g.keys, findServer k.2 = g.server) ∧
    List.Forall₂ (fun g calls => g.Answered p unpack withCas servers calls) requests answers ∧
    order.Perm answers.flatten ∧ array = order.foldl mmcValueHandlerMulti arrayInit

/-- The value of a key, if the server has it and it decodes. -/
def foundValue (s : Memcached) (key : Bytes) : Option ArrayValue :=
  (s.items key).bind fun item => (unpack item.flags.toNat item.data).map ArrayValue.value

/-- The entries for the values of the keys. -/
def getEntries (s : Bytes → Memcached) (ks : List (ZKey × Bytes)) : List (Bytes × ArrayValue) :=
  ks.filterMap fun k => (foundValue unpack (s k.2) k.2).map fun v => (resultKey p k, v)

end Get

/-- The entry a call makes. -/
def HandlerCall.entry : HandlerCall → Option (Bytes × ArrayValue)
  | .value key data _ _ => some (key, ArrayValue.value data)
  | .long key n _ _ => some (key, ArrayValue.long n)
  | .response .. => none

theorem foldl_mmcValueHandlerMulti (calls : List HandlerCall) :
    calls.foldl mmcValueHandlerMulti arrayInit = writeAll (calls.filterMap HandlerCall.entry) :=
  foldl_eq_writeAll (fun _ call => by cases call <;> rfl) calls

theorem validKeys_cons_none {keyPrefix : Bytes} {zkey : ZKey} {keys : List ZKey}
    (h : mmcPrepareKeyEx zkey.str keyPrefix = none) :
    validKeys keyPrefix (zkey :: keys) = validKeys keyPrefix keys := by
  simp [validKeys, h]

theorem validKeys_cons_some {keyPrefix : Bytes} {zkey : ZKey} (keys : List ZKey) {key : Bytes}
    (h : mmcPrepareKeyEx zkey.str keyPrefix = some key) :
    validKeys keyPrefix (zkey :: keys) = (zkey, key) :: validKeys keyPrefix keys := by
  simp [validKeys, h]

theorem mem_validKeys {keyPrefix : Bytes} {keys : List ZKey} {k : ZKey × Bytes} :
    k ∈ validKeys keyPrefix keys ↔ k.1 ∈ keys ∧ mmcPrepareKeyEx k.1.str keyPrefix = some k.2 := by
  unfold validKeys
  rw [List.mem_filterMap]
  constructor
  · rintro ⟨zkey, hmem, hprepare⟩
    obtain ⟨key, hkey, rfl⟩ := Option.map_eq_some_iff.mp hprepare
    exact ⟨hmem, hkey⟩
  · rintro ⟨hmem, hkey⟩
    exact ⟨k.1, hmem, by rw [hkey]; rfl⟩

/-- What is assumed of the arguments: the prefix and the number of keys have the lengths PHP and the
    configuration allow, the elements of an array are different variables, and the length of no key
    wraps to 0 in an `unsigned int`. -/
structure KeysFit (keyPrefix : Bytes) (keys : List ZKey) : Prop where
  prefixShort : keyPrefix.length ≤ 250
  few : keys.length < 2 ^ 32
  distinct : (keys.map ZKey.ptr).Nodup
  nowrap : ∀ k ∈ keys, keyPrefix.length + k.str.length % 2 ^ 32 ≠ 2 ^ 32

section Valid

variable {keyPrefix : Bytes} {keys : List ZKey}

theorem KeysFit.tail {zkey : ZKey} (h : KeysFit keyPrefix (zkey :: keys)) : KeysFit keyPrefix keys where
  prefixShort := h.prefixShort
  few := Nat.lt_of_le_of_lt (Nat.le_succ _) h.few
  distinct := (List.nodup_cons.mp h.distinct).2
  nowrap k hk := h.nowrap k (List.mem_cons_of_mem _ hk)

/-- What is sent for a key is a word the server accepts. -/
theorem KeysFit.sent (h : KeysFit keyPrefix keys) {k : ZKey × Bytes}
    (hk : k ∈ validKeys keyPrefix keys) :
    Plain k.2 ∧ k.2 ≠ [] ∧ k.2.length ≤ MMC_MAX_KEY_LEN := by
  obtain ⟨hmem, hprepare⟩ := mem_validKeys.mp hk
  obtain ⟨hplain, hword, hnil⟩ := mmcPrepareKeyEx_spec h.prefixShort hprepare
  exact ⟨hplain, fun heq => h.nowrap _ hmem (hnil.mp heq), keyWord_length hword⟩

theorem validKeys_sublist (keyPrefix : Bytes) (keys : List ZKey) :
    ((validKeys keyPrefix keys).map fun k => k.1.ptr).Sublist (keys.map ZKey.ptr) := by
  induction keys with
  | nil => exact List.Sublist.refl _
  | cons zkey keys ih =>
    cases hprepare : mmcPrepareKeyEx zkey.str keyPrefix with
    | none =>
      rw [validKeys_cons_none hprepare]
      exact ih.cons _
    | some key =>
      rw [validKeys_cons_some keys hprepare]
      exact ih.cons_cons _

end Valid

/-! ### The entries of a get -/

theorem entry_valueCall (unpack : Nat → Bytes → Option Bytes) (key : Bytes) (item : Item) (cas : Nat) :
    ((getHandlers unpack).valueCall key item.data item.flags.toNat cas).filterMap HandlerCall.entry
      = ((unpack item.flags.toNat item.data).map fun v => (key, ArrayValue.value v)).toList := by
  unfold Handlers.valueCall getHandlers
  dsimp only
  cases unpack item.flags.toNat item.data <;> rfl

theorem textCalls_entries (unpack : Nat → Bytes → Option Bytes) (s : Memcached) (withCas : Bool)
    (cas : Nat) (ks : List (ZKey × Bytes)) :
    (s.textCalls (getHandlers unpack) withCas cas (ks.map Prod.snd)).filterMap HandlerCall.entry
      = getEntries .ascii unpack (fun _ => s) ks := by
  induction ks with
  | nil => rfl
  | cons k ks ih =>
    have htail := ih
    unfold Memcached.textCalls at htail ⊢
    rw [List.map_cons, List.flatMap_cons, List.filterMap_append, htail]
    cases hitem : s.items k.2 with
    | none => simp [getEntries, foundValue, hitem]
    | some item =>
      rw [Option.map_some, Option.getD_some, entry_valueCall]
      cases hvalue : unpack item.flags.toNat item.data <;>
        simp [getEntries, foundValue, hitem, hvalue, resultKey]

theorem binaryCalls_entries (unpack : Nat → Bytes → Option Bytes) (s : Memcached)
    (ks : List (ZKey × Bytes)) :
    (s.binaryCalls (getHandlers unpack) ks).filterMap HandlerCall.entry
      = getEntries .binary unpack (fun _ => s) ks := by
  induction ks with
  | nil => rfl
  | cons k ks ih =>
    have htail := ih
    unfold Memcached.binaryCalls at htail ⊢
    rw [List.flatMap_cons, List.filterMap_append, htail]
    cases hitem : s.items k.2 with
    | none => simp [getEntries, foundValue, hitem]
    | some item =>
      rw [Option.map_some, Option.getD_some, entry_valueCall]
      cases hvalue : unpack item.flags.toNat item.data <;>
        simp [getEntries, foundValue, hitem, hvalue, resultKey]

section Answers

variable {unpack : Nat → Bytes → Option Bytes} {withCas : Bool} {servers : Mmc → Memcached}
  {g : GetRequest}

theorem answers_ascii (s : Memcached) (hne : g.keys ≠ [])
    (hkeys : ∀ k ∈ g.keys, Plain k.2 ∧ k.2 ≠ [] ∧ k.2.length ≤ MMC_MAX_KEY_LEN) (q : MmcRequest) :
    s.answers .ascii ((g.command .ascii withCas).sent q)
      = some (s.textValues withCas (g.keys.map Prod.snd)) := by
  have hall : ∀ key ∈ g.keys.map Prod.snd, Plain key ∧ key ≠ [] ∧ key.length ≤ MMC_MAX_KEY_LEN := by
    intro key hkey
    obtain ⟨k, hk, rfl⟩ := List.mem_map.mp hkey
    exact hkeys k hk
  have hsent := mmcAsciiGet_text (mmcAsciiResetRequest q) (if withCas then .gets else .get)
    (g.keys.map Prod.snd)
  have hparse := (@parseText_get (g.keys.map Prod.snd) (if withCas then .gets else .get)
    (by simpa using hne) (fun key h => (hall key h).1)
    (fun key h => by rw [keyWord]; exact if_pos (hall key h).2.2)).mpr fun key h => (hall key h).2.1
  have hop : decide ((if withCas then MmcOp.gets else .get) = MmcOp.gets) = withCas := by
    cases withCas <;> rfl
  rw [hop] at hparse
  simp only [Memcached.answers, Command.sent, GetRequest.command, Command.build, hsent]
  have hreset : (mmcAsciiResetRequest q).sendbuf.value = [] := rfl
  rw [hreset, List.nil_append, hparse]

theorem answers_binary (s : Memcached) (hlen : ∀ k ∈ g.keys, k.2.length ≤ MMC_MAX_KEY_LEN)
    (hfew : g.keys.length < 2 ^ 32) (hptr : (g.keys.map fun k => k.1.ptr).Nodup) (q : MmcRequest) :
    s.answers .binary ((g.command .binary withCas).sent q)
      = some ((s.hits 0 g.keys).flatMap ResponseFrame.bytes
          ++ noopFrame (UInt32.ofNat g.keys.length) 0) := by
  obtain ⟨hsent, -⟩ := sent_binaryGets q hptr
  have hlong : g.keys.length < ((Command.binaryGets g.keys).sent q).length := by
    rw [hsent]
    have hgets : ∀ n, g.keys.length ≤ (quietGets n g.keys).length := by
      induction g.keys with
      | nil => exact fun _ => Nat.zero_le _
      | cons k ks ih =>
        intro n
        have := ih (n + 1)
        simp only [quietGets, List.length_append, List.length_cons, mmcPackHeader]
        omega
    have := hgets 0
    simp only [List.length_append, mmcPackHeader, List.length_cons, List.length_nil]
    omega
  obtain ⟨frames, hparse, hreply⟩ := parseFrames_quietGets s (n := 0) hlen (by omega) hlong
  rw [Nat.zero_add] at hparse hreply
  simp only [Memcached.answers, GetRequest.command]
  rw [hsent] at hparse ⊢
  rw [hparse, Option.map_some, hreply]

/-- What a request of valid keys is like. -/
structure GetRequest.Sendable (g : GetRequest) : Prop where
  some : g.keys ≠ []
  keys : ∀ k ∈ g.keys, Plain k.2 ∧ k.2 ≠ [] ∧ k.2.length ≤ MMC_MAX_KEY_LEN
  few : g.keys.length < 2 ^ 32
  distinct : (g.keys.map fun k => k.1.ptr).Nodup

/-- The parser of a text get waits for a line. -/
theorem command_ascii_awaiting (q : MmcRequest) (io : MmcStream) (chunks : List Bytes) :
    (((g.command .ascii withCas).awaiting q io chunks)).req.parse = Option.some .asciiParseValue := by
  have hbegin : ∀ (q : MmcRequest) (op : MmcOp),
      (mmcAsciiBeginGet q op).parse = Option.some .asciiParseValue := by
    intro q op
    unfold mmcAsciiBeginGet
    dsimp only
    split <;> rfl
  simp only [Command.awaiting, GetRequest.command, Command.build, MmcRequest.rewind, mmcAsciiEndGet,
    MmcRequest.appendSend_parse, foldl_mmcAsciiAppendGet_parse, hbegin]

/-- The calls for the answer to a request; without tokens those of a text answer carry the one of the
    request. -/
def GetRequest.calls (g : GetRequest) (p : WireProtocol) (H : Handlers) (withCas : Bool) (cas : Nat)
    (s : Memcached) : List HandlerCall :=
  match p with
  | .ascii => s.textCalls H withCas cas (g.keys.map Prod.snd)
  | .binary => s.binaryCalls H g.keys

/-- **One request** is answered, and the answer leads to the calls for its keys. -/
theorem GetRequest.Sendable.answered_calls (hg : g.Sendable) (p : WireProtocol) :
    (∃ calls, g.Answered p unpack withCas servers calls) ∧
      ∀ calls, g.Answered p unpack withCas servers calls →
        ∃ cas, calls = g.calls p (getHandlers unpack) withCas cas (servers g.server) := by
  have hall : ∀ key ∈ g.keys.map Prod.snd, Plain key ∧ key ≠ [] ∧ key.length ≤ MMC_MAX_KEY_LEN := by
    intro key hkey
    obtain ⟨k, hk, rfl⟩ := List.mem_map.mp hkey
    exact hg.keys k hk
  cases p with
  | ascii =>
    have hread := @answers_ascii withCas g (servers g.server) hg.some hg.keys
    have hsees := fun (q : MmcRequest) (io : MmcStream) (chunks : List Bytes) (hio : io.input = [])
        (hc : chunks.flatten = (servers g.server).textValues withCas (g.keys.map Prod.snd)) =>
      @sees_textValues_iff (getHandlers unpack) (servers g.server) withCas _ hall
        ((g.command .ascii withCas).awaiting q io chunks) hio rfl (command_ascii_awaiting q io chunks)
        [] (by rw [List.append_nil]; exact hc)
    constructor
    · have hwhole : [(servers g.server).textValues withCas (g.keys.map Prod.snd)].flatten
          = (servers g.server).textValues withCas (g.keys.map Prod.snd) := by simp
      exact ⟨_, {}, {}, _, _, .done, [], rfl, hread {}, hwhole,
        (hsees {} {} _ rfl hwhole _ _ _).mpr ⟨rfl, rfl, rfl⟩⟩
    · rintro calls ⟨q, io, chunks, reply, result, rest, hio, hanswer, hchunks, hrun⟩
      rw [hread q] at hanswer
      cases hanswer
      obtain ⟨-, rfl, -⟩ := (hsees q io chunks hio hchunks calls result rest).mp hrun
      exact ⟨_, rfl⟩
  | binary =>
    have hread := @answers_binary withCas g (servers g.server) (fun k hk => (hg.keys k hk).2.2) hg.few
      hg.distinct
    have hsees := fun (q : MmcRequest) (io : MmcStream) (chunks : List Bytes) (hio : io.input = [])
        (hc : chunks.flatten = ((servers g.server).hits 0 g.keys).flatMap ResponseFrame.bytes
          ++ noopFrame (UInt32.ofNat g.keys.length) 0) =>
      @Ready.sees_outcome_iff unpack _ _ (Command.binaryGets_ready g.keys q hio chunks)
        ((servers g.server).hits 0 g.keys) (UInt32.ofNat g.keys.length) 0 []
        (by rw [List.append_nil]; exact hc)
    have hcalls : ∀ q : MmcRequest, (outcome unpack ((Command.binaryGets g.keys).build q).bin.keys
        (noopFrame (UInt32.ofNat g.keys.length) 0) [] ((servers g.server).hits 0 g.keys)).1
          = (servers g.server).binaryCalls (getHandlers unpack) g.keys := by
      intro q
      rw [(sent_binaryGets q hg.distinct).2]
      have hfew := hg.few
      have hout := @outcome_hits unpack (servers g.server)
        (noopFrame (UInt32.ofNat g.keys.length) 0) [] g.keys [] (by
          rw [List.length_nil]
          omega)
      exact congrArg Prod.fst hout
    constructor
    · have hwhole : [((servers g.server).hits 0 g.keys).flatMap ResponseFrame.bytes
          ++ noopFrame (UInt32.ofNat g.keys.length) 0].flatten
          = ((servers g.server).hits 0 g.keys).flatMap ResponseFrame.bytes
            ++ noopFrame (UInt32.ofNat g.keys.length) 0 := by simp
      exact ⟨_, {}, {}, _, _, .done, _, rfl, hread {}, hwhole,
        (hsees {} {} _ rfl hwhole _ _ _).mpr ⟨rfl, rfl, rfl⟩⟩
    · rintro calls ⟨q, io, chunks, reply, result, rest, hio, hanswer, hchunks, hrun⟩
      rw [hread q] at hanswer
      cases hanswer
      obtain ⟨-, rfl, -⟩ := (hsees q io chunks hio hchunks calls result rest).mp hrun
      exact ⟨0, hcalls q⟩

/-- The answer makes the entries of its keys. -/
theorem GetRequest.Sendable.answered (hg : g.Sendable) (p : WireProtocol) :
    (∃ calls, g.Answered p unpack withCas servers calls) ∧
      ∀ calls, g.Answered p unpack withCas servers calls →
        calls.filterMap HandlerCall.entry = getEntries p unpack (fun _ => servers g.server) g.keys := by
  obtain ⟨hexists, hcalls⟩ := @GetRequest.Sendable.answered_calls unpack withCas servers g hg p
  refine ⟨hexists, fun calls hanswered => ?_⟩
  obtain ⟨cas, rfl⟩ := hcalls calls hanswered
  cases p with
  | ascii => exact textCalls_entries unpack (servers g.server) withCas cas g.keys
  | binary => exact binaryCalls_entries unpack (servers g.server) g.keys

end Answers

/-! ### The array of a get -/

section Get

variable {unpack : Nat → Bytes → Option Bytes} {keyPrefix : Bytes} {withCas : Bool}
  {findServer : Bytes → Mmc} {servers : Mmc → Memcached} {keys : List ZKey}

/-- The same key of the array stands for the same key on the wire. -/
theorem resultKey_inj {p : WireProtocol} {k k' : ZKey × Bytes} (hk : k ∈ validKeys keyPrefix keys)
    (hk' : k' ∈ validKeys keyPrefix keys) (h : resultKey p k = resultKey p k') : k.2 = k'.2 := by
  cases p with
  | ascii => exact h
  | binary =>
    have hstr : k.1.str = k'.1.str := h
    have h₁ := (mem_validKeys.mp hk).2
    rw [hstr, (mem_validKeys.mp hk').2] at h₁
    exact (Option.some.inj h₁).symm

theorem mem_getEntries {p : WireProtocol} {s : Bytes → Memcached} {ks : List (ZKey × Bytes)}
    {e : Bytes × ArrayValue} :
    e ∈ getEntries p unpack s ks ↔
      ∃ k ∈ ks, foundValue unpack (s k.2) k.2 = some e.2 ∧ resultKey p k = e.1 := by
  unfold getEntries
  rw [List.mem_filterMap]
  refine exists_congr fun k => and_congr_right fun _ => ?_
  rw [Option.map_eq_some_iff]
  constructor
  · rintro ⟨v, hv, rfl⟩
    exact ⟨hv, rfl⟩
  · rintro ⟨hv, hkey⟩
    exact ⟨e.2, hv, by rw [hkey]⟩

theorem getEntries_append (p : WireProtocol) (s : Bytes → Memcached) (ks ks' : List (ZKey × Bytes)) :
    getEntries p unpack s (ks ++ ks') = getEntries p unpack s ks ++ getEntries p unpack s ks' :=
  List.filterMap_append

theorem getEntries_agree (p : WireProtocol) (s : Bytes → Memcached) :
    ∀ e ∈ getEntries p unpack s (validKeys keyPrefix keys),
      ∀ e' ∈ getEntries p unpack s (validKeys keyPrefix keys), e.1 = e'.1 → e.2 = e'.2 := by
  intro e he e' he' heq
  obtain ⟨k, hk, hv, hkey⟩ := mem_getEntries.mp he
  obtain ⟨k', hk', hv', hkey'⟩ := mem_getEntries.mp he'
  rw [resultKey_inj hk hk' (hkey.trans (heq.trans hkey'.symm)), hv'] at hv
  exact (Option.some.inj hv).symm

/-- **A multi-key get** returns the values of the keys the servers have, whatever requests they are
    sent in and in whatever order the answers come. -/
theorem multiGet_iff (h : KeysFit keyPrefix keys) (p : WireProtocol) (array : ResultArray) :
    MultiGet p unpack keyPrefix withCas findServer servers keys array ↔
      array = writeAll (getEntries p unpack (fun key => servers (findServer key))
        (validKeys keyPrefix keys)) := by
  have hptr : ((validKeys keyPrefix keys).map fun k => k.1.ptr).Nodup :=
    (validKeys_sublist keyPrefix keys).nodup h.distinct
  have hfew : (validKeys keyPrefix keys).length < 2 ^ 32 :=
    Nat.lt_of_le_of_lt (List.length_filterMap_le _ _) h.few
  have hserver : ∀ g : GetRequest, (∀ k ∈ g.keys, findServer k.2 = g.server) →
      getEntries p unpack (fun _ => servers g.server) g.keys
        = getEntries p unpack (fun key => servers (findServer key)) g.keys := by
    intro g hg
    refine List.filterMap_congr fun k hk => ?_
    simp only [hg k hk]
  constructor
  · rintro ⟨requests, answers, order, hperm, hrequests, hanswers, horder, rfl⟩
    have hsendable : ∀ g ∈ requests, g.Sendable := by
      intro g hg
      have hsub : g.keys.Sublist (requests.flatMap GetRequest.keys) :=
        List.sublist_flatten_of_mem (List.mem_map_of_mem hg)
      have hsubperm := hsub.subperm.trans hperm.subperm
      refine ⟨(hrequests g hg).1, fun k hk => h.sent (hsubperm.subset hk), ?_, ?_⟩
      · exact Nat.lt_of_le_of_lt hsubperm.length_le hfew
      · have hall := (hperm.map fun k => k.1.ptr).nodup_iff.mpr hptr
        exact (hsub.map fun k => k.1.ptr).nodup hall
    have hentries : (answers.flatten.filterMap HandlerCall.entry)
        = getEntries p unpack (fun key => servers (findServer key))
            (requests.flatMap GetRequest.keys) := by
      clear hperm horder
      induction hanswers with
      | nil => rfl
      | @cons g calls gs rest hfirst _ ih =>
        have hg := hsendable g List.mem_cons_self
        rw [List.flatten_cons, List.filterMap_append, List.flatMap_cons,
          ih (fun g h => hrequests g (List.mem_cons_of_mem _ h))
            fun g h => hsendable g (List.mem_cons_of_mem _ h),
          (hg.answered p).2 calls hfirst, hserver g (hrequests g List.mem_cons_self).2,
          getEntries_append]
    rw [foldl_mmcValueHandlerMulti]
    have hall : (order.filterMap HandlerCall.entry).Perm
        (getEntries p unpack (fun key => servers (findServer key)) (validKeys keyPrefix keys)) := by
      have hkeys := hperm.filterMap fun k =>
        (foundValue unpack (servers (findServer k.2)) k.2).map fun v => (resultKey p k, v)
      exact ((horder.filterMap _).trans (List.Perm.of_eq hentries)).trans hkeys
    exact (writeAll_perm hall.symm (getEntries_agree p _)).symm
  · -- every key in a request of its own
    rintro rfl
    have hone : ∀ k ∈ validKeys keyPrefix keys, (GetRequest.mk (findServer k.2) [k]).Sendable := by
      intro k hk
      exact ⟨by simp, by simpa using h.sent hk, by simp, by simp⟩
    have hexists : ∀ ks : List (ZKey × Bytes),
        (∀ k ∈ ks, (GetRequest.mk (findServer k.2) [k]).Sendable) →
        ∃ answers, List.Forall₂ (fun g calls => GetRequest.Answered p unpack withCas servers g calls)
            (ks.map fun k => ⟨findServer k.2, [k]⟩) answers ∧
          answers.flatten.filterMap HandlerCall.entry
            = getEntries p unpack (fun key => servers (findServer key)) ks := by
      intro ks
      induction ks with
      | nil => exact fun _ => ⟨[], .nil, rfl⟩
      | cons k ks ih =>
        intro hks
        obtain ⟨answers, hanswers, hentries⟩ := ih fun k' h => hks k' (List.mem_cons_of_mem k h)
        obtain ⟨⟨calls, hcalls⟩, hentry⟩ := @GetRequest.Sendable.answered unpack withCas servers _
          (hks k List.mem_cons_self) p
        refine ⟨calls :: answers, .cons hcalls hanswers, ?_⟩
        rw [List.flatten_cons, List.filterMap_append, hentries, hentry calls hcalls,
          hserver ⟨findServer k.2, [k]⟩ (by simp), ← getEntries_append, List.singleton_append]
    obtain ⟨answers, hanswers, hentries⟩ := hexists _ hone
    refine ⟨_, answers, answers.flatten, ?_, ?_, hanswers, List.Perm.refl _, ?_⟩
    · rw [List.flatMap_map]
      simp
    · intro g hg
      obtain ⟨k, -, rfl⟩ := List.mem_map.mp hg
      simp
    · rw [foldl_mmcValueHandlerMulti, hentries]

end Get

end PeclMemcache
