import PeclMemcache.Exchange

set_option autoImplicit false

/-! # Compare and swap

A token travels from the reply to a get into a PHP integer and from there into the request of a cas.
The text protocol has a command of its own for it; the binary protocol sets the cas field of a SET,
where 0 means that no token is to be compared. -/

namespace PeclMemcache

/-! ## The number -/

/-- **A token fits into a PHP integer**: its sign changes, but it comes back. -/
theorem unsignedLong_zendLong {u : Nat} (h : u < 2 ^ 64) : unsignedLong (zendLong u) = u := by
  unfold unsignedLong zendLong
  split <;> omega

theorem unsignedLong_lt (t : Int) : unsignedLong t < 2 ^ 64 := by
  unfold unsignedLong
  omega

/-! ## What a cas asks for -/

/-- A cas on the key stores only if the item has the token: whatever the server reads in the request
    and whatever it holds. -/
def CasSafe (p : WireProtocol) (key : Bytes) (t : Int) : Prop :=
  ∀ q zkey exptime flags value c, serverReads p
      (((ApiOperation.cas exptime flags value t).command p zkey key).sent q) = some c →
    ∀ s : Memcached, (s.execute c).1 = .stored →
      ∃ item, s.items key = some item ∧ item.token.toNat = unsignedLong t

/-- The token in a request. -/
def sentToken : WireProtocol → Bytes → Option Nat
  | .ascii, s =>
    match parseText s with
    | some (.cas _ _ _ unique _, _) => some unique
    | _ => none
  | .binary, s => some (ofBigEndian ((s.drop 16).take 8))

/-- The token of an item comes back: the reply to a get leads to one call of the value handler, and a
    cas with the integer the handler makes of the token sends the same token. -/
def TokenKept (p : WireProtocol) (key : Bytes) : Prop :=
  ∀ q zkey, serverReads p (((ApiOperation.get true).command p zkey key).sent q) = some (.get key) →
    ∀ (item : Item) (H : Handlers) (io : MmcStream) (chunks : List Bytes) (value : Bytes),
      io.input = [] →
      chunks.flatten = (ApiOperation.get true).reply p MMC_OP_GET (.get key) (.value item) →
      H.unpack item.flags.toNat item.data = some value →
      ∃ name flags cas,
        (∀ calls result rest, Sees H (((ApiOperation.get true).command p zkey key).awaiting q io chunks)
          calls result rest ↔ result = .done ∧ [.value name value flags cas] = calls ∧ [] = rest) ∧
        ∀ q' exptime flags' value', sentToken p
          (((ApiOperation.cas exptime flags' value' (zendLong cas)).command p zkey key).sent q')
            = some item.token.toNat

theorem execute_cas_stored {s : Memcached} {key data : Bytes} {flags : UInt32} {unique : UInt64}
    (h : (s.execute (.cas key flags data unique)).1 = .stored) :
    ∃ item, s.items key = some item ∧ item.token = unique := by
  unfold Memcached.execute at h
  dsimp only at h
  split at h
  · rename_i item hitem
    split at h
    · rename_i htoken
      exact ⟨item, hitem, htoken⟩
    · cases h
  · cases h

/-- The frame of a cas, if the server can read it: a set, conditional unless the token is 0. -/
theorem serverReads_binaryCas {key : Bytes} (hlen : key.length ≤ 250) {q : MmcRequest} {zkey : ZKey}
    {exptime : Nat} {flags : UInt32} {value : Bytes} {t : Int} {c : ServerCommand}
    (h : serverReads .binary
      (((ApiOperation.cas exptime flags value t).command .binary zkey key).sent q) = some c) :
    ∃ flags' data, c = if unsignedLong t = 0 then .store .set key flags' data
      else .cas key flags' data (UInt64.ofNat (unsignedLong t)) := by
  obtain ⟨⟨f, rest⟩, hframe, hcommand⟩ := Option.bind_eq_some_iff.mp h
  rw [ApiOperation.command, ApiOperation.binaryCommand, sent_binaryStore] at hframe
  obtain ⟨hopcode, hcas, -, hkey⟩ := parseFrame_fields (by decide) (unsignedLong_lt t)
    (by rw [storeExtras_length]; decide) (Nat.lt_of_le_of_lt hlen (by decide)) hframe
  replace hopcode : f.opcode = MMC_OP_SET := hopcode
  dsimp only at hcommand
  unfold BinaryFrame.toServer at hcommand
  dsimp only at hcommand
  rw [hopcode, if_neg (by decide), if_pos rfl, hcas, hkey] at hcommand
  refine ⟨UInt32.ofNat (ofBigEndian (f.extras.take 4)), f.value, ?_⟩
  by_cases hzero : unsignedLong t = 0
  · rw [if_pos hzero] at hcommand ⊢
    exact (Option.some.inj hcommand).symm
  · rw [if_neg hzero] at hcommand ⊢
    exact (Option.some.inj hcommand).symm

/-- The line of a cas, if the server can read it. -/
theorem serverReads_asciiCas {key : Bytes} (hplain : Plain key) (hword : keyWord key = some key)
    {q : MmcRequest} {zkey : ZKey} {exptime : Nat} {flags : UInt32} {value : Bytes} {t : Int}
    {c : ServerCommand} (h : serverReads .ascii
      (((ApiOperation.cas exptime flags value t).command .ascii zkey key).sent q) = some c) :
    c = .cas key flags value (UInt64.ofNat (unsignedLong t)) := by
  obtain ⟨⟨command, rest⟩, hparse, hcommand⟩ := Option.bind_eq_some_iff.mp h
  rw [ApiOperation.command, ApiOperation.textCommand, parseText_cas _ _ _ _ hplain hword] at hparse
  split at hparse
  · cases hparse
  · cases hparse
    have hflags : UInt32.ofNat flags.toNat = flags := UInt32.ofNat_toNat
    dsimp only [TextCommand.toServer] at hcommand
    rw [hflags] at hcommand
    exact (Option.some.inj hcommand).symm

/-- Without a token the frame is that of a set. -/
theorem serverReads_binaryCas_zero {key : Bytes} (hlen : key.length ≤ 250) (zkey : ZKey) {t : Int}
    (h : unsignedLong t = 0) :
    serverReads .binary (((ApiOperation.cas 0 0 [] t).command .binary zkey key).sent {})
      = some (.store .set key 0 []) := by
  have hframe := @parseFrame_binaryStore {} .cas key [] 0 0 (0 : UInt32).toNat hlen (by decide)
    (by decide)
  rw [serverReads, ApiOperation.command, ApiOperation.binaryCommand, h, hframe]
  rfl

/-- **A cas is conditional** unless it has no token under the binary protocol. -/
theorem casSafe_iff (p : WireProtocol) {key : Bytes} (hplain : Plain key)
    (hword : keyWord key = some key) (t : Int) :
    CasSafe p key t ↔ p = .ascii ∨ unsignedLong t ≠ 0 := by
  have hlen := keyWord_length hword
  have htoken : (UInt64.ofNat (unsignedLong t)).toNat = unsignedLong t :=
    UInt64.toNat_ofNat_of_lt' (unsignedLong_lt t)
  cases p with
  | ascii =>
    refine iff_of_true ?_ (Or.inl rfl)
    intro q zkey exptime flags value c hread s hstored
    rw [serverReads_asciiCas hplain hword hread] at hstored
    obtain ⟨item, hitem, hunique⟩ := execute_cas_stored hstored
    exact ⟨item, hitem, by rw [hunique, htoken]⟩
  | binary =>
    constructor
    · intro hsafe
      right
      intro hzero
      -- a server that does not hold the key stores the value
      obtain ⟨item, hitem, -⟩ := hsafe {} ⟨0, key⟩ 0 0 [] _
        (serverReads_binaryCas_zero hlen _ hzero) {} rfl
      cases hitem
    · rintro (hp | hne)
      · cases hp
      · intro q zkey exptime flags value c hread s hstored
        obtain ⟨flags', data, hc⟩ := serverReads_binaryCas hlen hread
        rw [if_neg hne] at hc
        rw [hc] at hstored
        obtain ⟨item, hitem, hunique⟩ := execute_cas_stored hstored
        exact ⟨item, hitem, by rw [hunique, htoken]⟩

/-! ## The way of a token -/

theorem sentToken_ascii {key : Bytes} (hplain : Plain key) (hword : keyWord key = some key)
    (hne : key ≠ []) (q : MmcRequest) (zkey : ZKey) (exptime : Nat) (flags : UInt32) (value : Bytes)
    (t : Int) : sentToken .ascii (((ApiOperation.cas exptime flags value t).command .ascii zkey
      key).sent q) = some (unsignedLong t) := by
  rw [sentToken, ApiOperation.command, ApiOperation.textCommand, parseText_cas _ _ _ _ hplain hword,
    if_neg hne]

theorem sentToken_binary (key : Bytes) (q : MmcRequest) (zkey : ZKey) (exptime : Nat)
    (flags : UInt32) (value : Bytes) (t : Int) :
    sentToken .binary (((ApiOperation.cas exptime flags value t).command .binary zkey key).sent q)
      = some (unsignedLong t) := by
  rw [sentToken, ApiOperation.command, ApiOperation.binaryCommand, sent_binaryStore]
  obtain ⟨k₁, k₂, hk⟩ := bigEndian_two key.length
  obtain ⟨t₁, t₂, t₃, t₄, ht⟩ := bigEndian_four (key.length
    + (storeExtras .cas flags.toNat exptime).length + value.length)
  obtain ⟨r₁, r₂, r₃, r₄, hr⟩ := bigEndian_four 0
  simp only [mmcPackHeader, hk, ht, hr, List.cons_append, List.nil_append, List.append_assoc,
    List.drop_succ_cons, List.drop_zero]
  rw [take_append_bigEndian_of_lt 8 (unsignedLong_lt t)]

/-- A get without a key is no command. -/
theorem ne_nil_of_serverReads_get {key : Bytes} {q : MmcRequest} {zkey : ZKey}
    (h : serverReads .ascii (((ApiOperation.get true).command .ascii zkey key).sent q)
      = some (.get key)) : key ≠ [] := by
  rintro rfl
  have hverb : Plain (bytes ['g', 'e', 't', 's']) := by decide
  have hsent : ((ApiOperation.get true).command .ascii zkey []).sent q
      = Words.join 32 [bytes ['g', 'e', 't', 's'], []] ++ crlf ++ [] :=
    mmcAsciiGet_text (mmcAsciiResetRequest q) .gets [[]]
  rw [serverReads, hsent, parseText_line (by decide) (by simpa [Plain] using hverb)] at h
  cases h

theorem tokenKept_ascii {key : Bytes} (hplain : Plain key) (hword : keyWord key = some key) :
    TokenKept .ascii key := by
  intro q zkey hread item H io chunks value hio hchunks hunpack
  have hne := ne_nil_of_serverReads_get hread
  have hlength := item.length_lt
  refine ⟨key, item.flags.toNat, item.token.toNat, ?_, ?_⟩
  · intro calls result rest
    rw [ApiOperation.reply, textReply_value] at hchunks
    have hsees := sees_asciiValue_iff (H := H)
      (w := ((ApiOperation.get true).command .ascii zkey key).awaiting q io chunks) hplain hne
      (keyWord_length hword) item.flags.toNat_lt (by omega)
      (by simpa using item.token.toNat_lt) hio rfl rfl hchunks calls result rest
    rw [hsees, Handlers.valueCall, hunpack]
    rfl
  · intro q' exptime flags' value'
    rw [sentToken_ascii hplain hword hne, unsignedLong_zendLong item.token.toNat_lt]

theorem tokenKept_binary (key : Bytes) : TokenKept .binary key := by
  intro q zkey _ item H io chunks value hio hchunks hunpack
  have hawaits : AwaitsHeader .binaryParseValue
      (((ApiOperation.get true).command .binary zkey key).awaiting q io chunks) := by
    refine ⟨rfl, rfl, hio, rfl⟩
  refine ⟨zkey.str, item.flags.toNat, item.token.toNat, ?_, ?_⟩
  · intro calls result rest
    have hsees := @AwaitsHeader.sees_value_iff _ hawaits H 0 item.flags.toNat item.token.toNat
      item.data [] (by decide) item.flags.toNat_lt item.token.toNat_lt item.length_lt
      (by rw [List.append_nil]; exact hchunks) calls result rest
    rw [hsees, Handlers.valueCall, hunpack]
    rfl
  · intro q' exptime flags' value'
    rw [sentToken_binary, unsignedLong_zendLong item.token.toNat_lt]

/-- **Compare and swap is safe** under the text protocol, and with a token that is not 0 under the
    binary one; and under both a token the server returns comes back as it was. -/
theorem casSafe_and_tokenKept (p : WireProtocol) (key keyPrefix prepared : Bytes) (t : Int)
    (hshort : keyPrefix.length ≤ 250) (h : mmcPrepareKeyEx key keyPrefix = some prepared) :
    (CasSafe p prepared t ∧ TokenKept p prepared) ↔ (p = .ascii ∨ unsignedLong t ≠ 0) := by
  obtain ⟨hplain, hword, -⟩ := mmcPrepareKeyEx_spec hshort h
  have hkept : TokenKept p prepared := by
    cases p with
    | ascii => exact tokenKept_ascii hplain hword
    | binary => exact tokenKept_binary prepared
  rw [and_iff_left hkept, casSafe_iff p hplain hword]

/-- The text protocol compares the token 0, the default of the argument, like any other. -/
theorem casSafe_ascii_zero : CasSafe .ascii [107] 0 ∧ TokenKept .ascii [107] :=
  (casSafe_and_tokenKept .ascii [107] [] [107] 0 (by decide) (by decide)).mpr (Or.inl rfl)

/-- The key `k` with the value `x` under the token 5. -/
def tokenFive : Memcached where
  items := Function.update (fun _ => none) [107] (some ⟨[120], 0, 5, by decide⟩)
  lastToken := 5

/-- Under the binary protocol a cas with the token 0 replaces the item with the token 5. -/
theorem binaryCas_zero_not_safe : ¬ CasSafe .binary [107] 0 := by
  intro hsafe
  obtain ⟨item, hitem, htoken⟩ := hsafe {} ⟨0, [107]⟩ 0 0 [] _
    (serverReads_binaryCas_zero (by decide) _ rfl) tokenFive rfl
  have hfive : tokenFive.items [107] = some ⟨[120], 0, 5, by decide⟩ := rfl
  rw [hfive] at hitem
  cases hitem
  exact absurd htoken (by decide)

end PeclMemcache
