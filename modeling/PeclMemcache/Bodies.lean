import PeclMemcache.Values

set_option autoImplicit false

/-! # The buffer of a response body

A parser reserves room for the body that was announced, reads it in as many pieces as it comes in, and
terminates it with a `NUL`. The announced length is an `unsigned long`, the room and the index of the
buffer are counted in an `unsigned int`. -/

namespace PeclMemcache

/-! ## Reading a body -/

/-- A body that is to be read: how many bytes were announced, how many of them other reads take off
    it, how many the parser waits for, the room that is reserved for them, and where the `NUL` is
    written behind them, if any is. -/
structure Body where
  announced : Nat
  before : Nat := 0
  want : Nat
  reserved : Nat
  terminator : Option Nat := none

/-- The reads so far: the index of the buffer, the bytes taken from the stream, where the reads wrote
    how much, and whether the parser has all it waits for. -/
structure BodyReads where
  idx : Nat := 0
  consumed : Nat := 0
  writes : List (Nat × Nat) := []
  done : Bool := false

/-- One more read, which finds so many bytes. The number asked for is a `size_t`. -/
def Body.read (b : Body) (s : BodyReads) (arrived : Nat) : BodyReads :=
  if s.done then s
  else
    let got := min arrived ((b.want + 2 ^ 64 - s.idx) % 2 ^ 64)
    let idx := (s.idx + got) % 2 ^ 32
    { idx, consumed := s.consumed + got, writes := (s.idx, got) :: s.writes, done := b.want ≤ idx }

/-- The body comes in pieces. -/
def Body.reads (b : Body) (arrivals : List Nat) : BodyReads := arrivals.foldl b.read {}

/-- However the body comes, what is written lies within the room reserved for it, and what was taken
    from the stream in the end is what was announced. -/
def Body.Contained (b : Body) : Prop :=
  ∀ arrivals, (∀ w ∈ (b.reads arrivals).writes, w.1 + w.2 ≤ b.reserved) ∧
    ((b.reads arrivals).done → b.before + (b.reads arrivals).consumed = b.announced ∧
      ∀ p ∈ b.terminator, p < b.reserved)

/-! ## What is announced -/

/-- `mmc_unpack_value` terminates the data in its buffer: it is not compressed, not serialized and not a
    boolean. -/
def unpackTerminates (flags : UInt32) : Bool :=
  flags &&& MMC_COMPRESSED = 0 && flags &&& MMC_SERIALIZED = 0 && flags &&& 0x0f00 ≠ MMC_TYPE_BOOL

/-- The length field a server sends: the one of a `VALUE` line with its flags, or the header of a
    binary response with the handler for its body and the flags in front of a value. -/
inductive Announced
  | value (length : UInt64) (flags : UInt32)
  | response (header : Bytes) (next : ParseHandler) (flags : UInt32)

/-- The body as the parsers read it. -/
def Announced.body : Announced → Body
  | .value length flags =>
    { announced := length.toNat + 2
      want := (length.toNat + 2) % 2 ^ 64
      reserved := (length.toNat + 2) % 2 ^ 32
      terminator := if unpackTerminates flags then some (length.toNat % 2 ^ 32) else none }
  | .response header next flags =>
    let h := ResponseHeader.ofBytes header
    let announced := h.totalBodyLength
    -- the body of a `NOOP` is not read
    if h.opcode = MMC_OP_NOOP ∨ announced = 0 then { announced, want := 0, reserved := 0 }
    else if binaryError h.status ≠ 0 then
      { announced, want := announced, reserved := (announced + 1) % 2 ^ 32
        terminator := some announced }
    else
      let length := h.valueLength
      match next with
      | .binaryParseValue =>
        { announced, before := 4, want := length, reserved := (length + 1) % 2 ^ 32
          terminator := if unpackTerminates flags then some (length % 2 ^ 32) else none }
      -- the number goes into the line buffer
      | .binaryReadMutate => { announced, want := 8, reserved := MMC_BUFFER_SIZE }
      | _ =>
        { announced, want := length, reserved := (length + 1) % 2 ^ 32, terminator := some length }

/-- The condition. The length of a `VALUE` line and its `CRLF` fit into 32 bits; in a binary response,
    a `NOOP` has no body, a body for the response handler is not the longest there is and has no extras
    in front of it that fit, a value has its flags as extras and nothing else, and a number is 8 bytes
    long. -/
def Announced.Fits : Announced → Prop
  | .value length _ => length.toNat + 2 < 2 ^ 32
  | .response header next _ =>
    let h := ResponseHeader.ofBytes header
    let total := h.totalBodyLength
    if h.opcode = MMC_OP_NOOP then total = 0
    else if total = 0 then True
    else if binaryError h.status ≠ 0 then total + 1 < 2 ^ 32
    else
      match next with
      | .binaryParseValue => h.extrasLen = 4 ∧ 4 ≤ total
      | .binaryReadMutate => total = 8
      | _ => total + 1 < 2 ^ 32 ∧ (h.extrasLen = 0 ∨ total < h.extrasLen)

/-! ## The reads -/

/-- The invariant: what was taken from the stream lies in the buffer up to the index, which does not
    pass the length waited for, and the parser is done when it reaches it. -/
structure Body.Filling (b : Body) (s : BodyReads) : Prop where
  consumed : s.consumed = s.idx
  idx : s.idx ≤ b.want
  done : s.done → s.idx = b.want
  writes : ∀ w ∈ s.writes, w.1 + w.2 ≤ b.want

theorem Body.Filling.read {b : Body} (hwant : b.want < 2 ^ 32) {s : BodyReads} (h : b.Filling s)
    (arrived : Nat) : b.Filling (b.read s arrived) := by
  unfold Body.read
  split
  · exact h
  · have hidx := h.idx
    have hcount : (b.want + 2 ^ 64 - s.idx) % 2 ^ 64 = b.want - s.idx := by omega
    have hkept : (s.idx + min arrived (b.want - s.idx)) % 2 ^ 32
        = s.idx + min arrived (b.want - s.idx) := Nat.mod_eq_of_lt (by omega)
    dsimp only
    rw [hcount, hkept]
    refine ⟨?_, ?_, ?_, ?_⟩
    · simp only [h.consumed]
    · dsimp only
      omega
    · intro hdone
      have hdone : b.want ≤ s.idx + min arrived (b.want - s.idx) := of_decide_eq_true hdone
      dsimp only
      omega
    · refine List.forall_mem_cons.mpr ⟨?_, h.writes⟩
      dsimp only
      omega

theorem Body.filling_reads {b : Body} (hwant : b.want < 2 ^ 32) (arrivals : List Nat) :
    b.Filling (b.reads arrivals) := by
  have hfold : ∀ s, b.Filling s → b.Filling (arrivals.foldl b.read s) := by
    induction arrivals with
    | nil => exact fun s h => h
    | cons arrived rest ih => exact fun s h => ih _ (h.read hwant arrived)
  exact hfold {} ⟨rfl, Nat.zero_le _, by simp, by simp⟩

/-- **The room for a body** is kept, however it comes, if and only if the parser waits for no more than
    it has reserved and for exactly the rest of what was announced, and the terminator fits. -/
theorem Body.contained_iff {b : Body} (hwant : b.want < 2 ^ 64) (hreserved : b.reserved < 2 ^ 32) :
    b.Contained ↔ b.want ≤ b.reserved ∧ b.before + b.want = b.announced ∧
      ∀ p ∈ b.terminator, p < b.reserved := by
  constructor
  · intro h
    -- the whole body at once
    obtain ⟨hwrites, hdone⟩ := h [b.want]
    have hcount : min b.want ((b.want + 2 ^ 64 - 0) % 2 ^ 64) = b.want := by omega
    have hread : b.reads [b.want] = { idx := b.want % 2 ^ 32, consumed := b.want
                                      writes := [(0, b.want)]
                                      done := b.want ≤ b.want % 2 ^ 32 } := by
      simp only [Body.reads, List.foldl_cons, List.foldl_nil, Body.read, Bool.false_eq_true, if_false,
        hcount, Nat.zero_add]
    rw [hread] at hwrites hdone
    have hroom : b.want ≤ b.reserved := by simpa using hwrites (0, b.want) (by simp)
    have hall := hdone (decide_eq_true (by omega))
    exact ⟨hroom, hall.1, hall.2⟩
  · rintro ⟨hroom, hannounced, hterminator⟩ arrivals
    have hfilling := Body.filling_reads (b := b) (by omega) arrivals
    refine ⟨fun w hw => (hfilling.writes w hw).trans hroom, fun hdone => ⟨?_, hterminator⟩⟩
    rw [hfilling.consumed, hfilling.done hdone, hannounced]

/-! ## The announced lengths -/

theorem ofBigEndian_lt (b : Bytes) : ofBigEndian b < 256 ^ b.length := by
  induction b using List.reverseRecOn with
  | nil => simp [ofBigEndian]
  | append_singleton b d ih =>
    have hdigit : d.toNat < 256 := d.toNat_lt
    rw [ofBigEndian_append_singleton, List.length_append, List.length_singleton, Nat.pow_succ]
    omega

theorem totalBodyLength_lt (header : Bytes) :
    (ResponseHeader.ofBytes header).totalBodyLength < 2 ^ 32 := by
  have hlength : ((header.drop 8).take 4).length ≤ 4 := by simp
  have hpow : 256 ^ ((header.drop 8).take 4).length ≤ 256 ^ 4 := Nat.pow_le_pow_right (by decide) hlength
  exact (ofBigEndian_lt _).trans_le hpow

theorem ResponseHeader.valueLength_le (h : ResponseHeader) :
    h.valueLength ≤ h.totalBodyLength := by
  unfold valueLength
  split <;> omega

/-- The numbers the parsers keep are those of their types. -/
theorem Announced.body_bounds (a : Announced) : a.body.want < 2 ^ 64 ∧ a.body.reserved < 2 ^ 32 := by
  cases a with
  | value length flags => exact ⟨Nat.mod_lt _ (by decide), Nat.mod_lt _ (by decide)⟩
  | response header next flags =>
    have htotal := totalBodyLength_lt header
    have hlength := (ResponseHeader.ofBytes header).valueLength_le
    simp only [body]
    split
    · simp
    · split
      · refine ⟨?_, Nat.mod_lt _ (by decide)⟩
        dsimp only
        omega
      · split
        · refine ⟨?_, Nat.mod_lt _ (by decide)⟩
          dsimp only
          omega
        · simp [MMC_BUFFER_SIZE]
        · refine ⟨?_, Nat.mod_lt _ (by decide)⟩
          dsimp only
          omega

/-- **The body is contained** in its buffer if and only if the announced length fits. -/
theorem contained_iff_fits (a : Announced) : a.body.Contained ↔ a.Fits := by
  rw [Body.contained_iff a.body_bounds.1 a.body_bounds.2]
  cases a with
  | value length flags =>
    have hlt := length.toNat_lt
    simp only [Announced.body, Announced.Fits]
    constructor
    · rintro ⟨hroom, hannounced, -⟩
      omega
    · intro hfits
      refine ⟨by omega, by omega, fun p hp => ?_⟩
      split at hp
      · cases hp
        omega
      · cases hp
  | response header next flags =>
    have htotal := totalBodyLength_lt header
    simp only [Announced.body, Announced.Fits]
    generalize ResponseHeader.ofBytes header = h at htotal
    have hlength := h.valueLength_le
    by_cases hnoop : h.opcode = MMC_OP_NOOP
    · simp [hnoop, eq_comm]
    rw [if_neg hnoop]
    by_cases hempty : h.totalBodyLength = 0
    · simp [hnoop, hempty]
    rw [if_neg hempty, if_neg (not_or.mpr ⟨hnoop, hempty⟩)]
    by_cases herror : binaryError h.status ≠ 0
    · rw [if_pos herror, if_pos herror]
      constructor
      · rintro ⟨hroom, -, -⟩
        dsimp only at hroom
        omega
      · intro hfits
        refine ⟨by dsimp only; omega, by simp, ?_⟩
        rintro _ ⟨⟩
        dsimp only
        omega
    rw [if_neg herror, if_neg herror]
    have hplain : (h.valueLength ≤ (h.valueLength + 1) % 2 ^ 32 ∧
        0 + h.valueLength = h.totalBodyLength ∧
        ∀ p ∈ some h.valueLength, p < (h.valueLength + 1) % 2 ^ 32) ↔
        h.totalBodyLength + 1 < 2 ^ 32 ∧ (h.extrasLen = 0 ∨ h.totalBodyLength < h.extrasLen) := by
      unfold ResponseHeader.valueLength at hlength ⊢
      constructor
      · rintro ⟨hroom, hannounced, -⟩
        split at hroom <;> split at hannounced <;> omega
      · rintro ⟨hfits, hextras⟩
        have hall : (if h.extrasLen ≤ h.totalBodyLength then h.totalBodyLength - h.extrasLen
            else h.totalBodyLength) = h.totalBodyLength := by
          split <;> omega
        rw [hall]
        refine ⟨by omega, by omega, ?_⟩
        rintro _ ⟨⟩
        omega
    cases next with
    | binaryParseValue =>
      unfold ResponseHeader.valueLength at hlength ⊢
      constructor
      · rintro ⟨-, hannounced, -⟩
        dsimp only at hannounced
        split at hannounced <;> omega
      · rintro ⟨hextras, hflags⟩
        rw [hextras, if_pos hflags]
        refine ⟨by dsimp only; omega, by dsimp only; omega, fun p hp => ?_⟩
        dsimp only at hp ⊢
        split at hp
        · cases hp
          omega
        · cases hp
    | binaryReadMutate => simp [MMC_BUFFER_SIZE, eq_comm]
    | _ => exact hplain

/-- A `VALUE` line that announces 4294967294 bytes: no room is reserved for them and the `CRLF`. -/
theorem wrappedLength_not_contained : ¬(Announced.value 4294967294 0).body.Contained := by
  intro h
  obtain ⟨hwrites, -⟩ := h [1]
  exact absurd (hwrites (0, 1) (by decide)) (by decide)

/-! ## The parsers -/

/-- The reads of the parsers are these, for a body whose length fits into the index. -/
theorem readBody_idx {b : Body} (hwant : b.want < 2 ^ 32) {s : BodyReads} (hs : b.Filling s)
    (hmore : s.done = false) {w : Wire} (hidx : w.req.readbuf.idx = s.idx) {chunk : Bytes}
    {rest : List Bytes} (hchunks : w.chunks = chunk :: rest) :
    (readBody (b.want - w.req.readbuf.idx) w).req.readbuf.idx = (b.read s chunk.length).idx := by
  have hle := hs.idx
  have hcount : (b.want + 2 ^ 64 - s.idx) % 2 ^ 64 = b.want - s.idx := by omega
  have hkept : (s.idx + min chunk.length (b.want - s.idx)) % 2 ^ 32
      = s.idx + min chunk.length (b.want - s.idx) := Nat.mod_eq_of_lt (by omega)
  simp only [Body.read, hmore, Bool.false_eq_true, if_false, hcount, hkept, readBody, hidx, hchunks,
    readChunk, List.length_take]
  rw [Nat.min_comm]

end PeclMemcache
