import PeclMemcache.Bodies
import PeclMemcache.MultiNumbers
import PeclMemcache.MultiValues
import PeclMemcache.Values

set_option autoImplicit false

/-! # The frames of binary requests

What every operation of the binary protocol appends to the send buffer, cut into frames again by the
length fields. A store leaves room for its header, appends the key, packs the value into the buffer,
where zlib may put it into a new one, and writes the header last, with a length that is the difference
of two positions. The length field has 32 bits, and the length of a value is an `int` on its way through
`mmc_compress`. -/

namespace PeclMemcache

/-! ## Stores -/

/-- The `int` of a length is negative. -/
def negativeInt (n : Nat) : Bool := 2 ^ 31 ≤ n % 2 ^ 32

variable {δ ω : Type} (C : Codec δ ω) (pool : CompressSettings)

/-- `mmc_compress` uses a negative length: as a number of bytes it is one of nearly `2 ^ 64`, which ends
    the script. A value that is in the buffer and stays as it is is not touched. -/
def compressStops (value : Bytes) (flags : UInt32) (copy : Bool) : Bool :=
  negativeInt value.length && (!copy || decide (flags &&& MMC_COMPRESSED ≠ 0)
    || decide (pool.threshold ≠ 0 ∧ pool.threshold.toNat ≤ value.length % 2 ^ 32))

/-- The same for the call in `mmc_pack_value`. -/
def packStops (value : Zval δ ω) (flags : UInt32) : Bool :=
  if flags &&& 0xffff &&& ~~~MMC_COMPRESSED ≠ 0 then false
  else
    match value with
    | .string s => compressStops pool s (flags &&& ~~~MMC_SERIALIZED ||| MMC_TYPE_STRING) false
    | .other v =>
      compressStops pool ((C.serialize v).getD []) (flags &&& ~~~MMC_SERIALIZED ||| MMC_SERIALIZED) true
    | _ => false

/-- What becomes of an operation: it is refused before anything is sent, the script ends, or a request
    is there to be sent. -/
inductive Encoding
  | refused
  | stopped
  | sends (q : MmcRequest)

/-- Write bytes over those from a position on. -/
def MmcBuffer.overwrite (buffer : MmcBuffer) (pos : Nat) (b : Bytes) : MmcBuffer :=
  { buffer with value := buffer.value.take pos ++ b ++ buffer.value.drop (pos + b.length) }

/-- `mmc_binary_store` on the buffer; `space` is what the memory held that is reserved for the header. -/
def mmcBinaryStoreValue (space : Nat → UInt8) (q : MmcRequest) (op : MmcOp) (key : Bytes)
    (flags exptime : UInt32) (cas : UInt64) (value : Zval δ ω) : Encoding :=
  let q := q.parseBinary .binaryReadResponse
  let prevlen := q.sendbuf.value.length
  let (opcode, extrasLen) := binaryStoreCommand op
  let buffer := q.sendbuf.append ((List.range (binaryHeaderSize + extrasLen)).map space)
  let buffer := buffer.append key
  let valuelen := buffer.value.length
  if packStops C pool value flags then .stopped
  else
    match mmcPackValue C pool buffer value flags with
    | none => .refused
    | some (buffer, flags) =>
      let header := mmcPackHeader opcode 0 key.length extrasLen (buffer.value.length - valuelen) cas.toNat
      let extras := if extrasLen = 0 then [] else bigEndian 4 flags.toNat ++ bigEndian 4 exptime.toNat
      .sends { q with sendbuf := buffer.overwrite prevlen (header ++ extras) }

/-! ## Operations -/

/-- The operations of the binary protocol with the arguments of the API. -/
inductive BinaryOperation (δ ω : Type)
  | get (zkey : ZKey)
  | multiGet (zkeys : List ZKey)
  | store (verb : StoreVerb) (zkey : ZKey) (flags exptime : UInt32) (value : Zval δ ω)
  | cas (zkey : ZKey) (flags exptime : UInt32) (token : UInt64) (value : Zval δ ω)
  | delete (zkey : ZKey)
  | mutate (zkey : ZKey) (args : MutateArgs)
  | flush
  | version
  | stats
  | sasl (user password : Bytes)

variable (keyPrefix : Bytes)

/-- An operation on a key that is prepared first. -/
def withPrepared (zkey : ZKey) (f : Bytes → Encoding) : Encoding :=
  match mmcPrepareKeyEx zkey.str keyPrefix with
  | none => .refused
  | some key => f key

/-- The valid keys of a multi-key get and what they are prepared to. -/
def preparedKeys (zkeys : List ZKey) : List (ZKey × Bytes) :=
  zkeys.filterMap fun zkey => (mmcPrepareKeyEx zkey.str keyPrefix).map (zkey, ·)

/-- What an operation makes of a request. -/
def BinaryOperation.encode (space : Nat → UInt8) (q : MmcRequest) : BinaryOperation δ ω → Encoding
  | .get zkey => withPrepared keyPrefix zkey fun key => .sends (mmcBinaryGet q zkey key)
  | .multiGet zkeys =>
    match preparedKeys keyPrefix zkeys with
    | [] => .refused
    | ks =>
      .sends (mmcBinaryEndGet (ks.foldl (fun q k => mmcBinaryAppendGet q k.1 k.2) (mmcBinaryBeginGet q)))
  | .store verb zkey flags exptime value =>
    withPrepared keyPrefix zkey fun key =>
      mmcBinaryStoreValue C pool space q verb.op key flags exptime 0 value
  | .cas zkey flags exptime token value =>
    withPrepared keyPrefix zkey fun key =>
      mmcBinaryStoreValue C pool space q .cas key flags exptime token value
  | .delete zkey => withPrepared keyPrefix zkey fun key => .sends (mmcBinaryDelete q key)
  | .mutate zkey args =>
    withPrepared keyPrefix zkey fun key => .sends (mmcBinaryMutate q zkey key args.value.toInt
      args.defval.toInt args.defvalUsed args.exptime.toNat)
  | .flush => .sends (mmcBinaryFlush q)
  | .version => .sends (mmcBinaryVersion q)
  | .stats => .sends (mmcBinaryStats q)
  | .sasl user password => .sends (mmcSetSaslAuthData q (cString user) (cString password))

/-! ## What the frames should say -/

/-- The extra bytes of a frame as numbers. -/
inductive FrameExtras
  | none
  | item (flags exptime : Nat)
  | counter (delta initial expiration : Nat)
  | other (b : Bytes)
  deriving DecidableEq, Repr

/-- Read the extra bytes. -/
def FrameExtras.ofBytes (b : Bytes) : FrameExtras :=
  if b.length = 0 then .none
  else if b.length = 8 then .item (ofBigEndian (b.take 4)) (ofBigEndian (b.drop 4))
  else if b.length = 20 then
    .counter (ofBigEndian (b.take 8)) (ofBigEndian ((b.drop 8).take 8))
      (ofBigEndian ((b.drop 16).take 4))
  else .other b

/-- What a frame says. -/
structure FrameContent where
  opcode : Nat
  cas : Nat := 0
  extras : FrameExtras := .none
  key : Bytes := []
  value : Bytes := []
  deriving DecidableEq, Repr

/-- The content of a frame that was read. -/
def BinaryFrame.content (f : BinaryFrame) : FrameContent where
  opcode := f.opcode
  cas := f.cas
  extras := .ofBytes f.extras
  key := f.key
  value := f.value

/-- The opcodes of the storage commands. -/
def StoreVerb.opcode : StoreVerb → Nat
  | .set => MMC_OP_SET
  | .add => MMC_OP_ADD
  | .replace => MMC_OP_REPLACE
  | .append => MMC_BIN_OP_APPEND
  | .prepend => MMC_BIN_OP_PREPEND

/-- The commands that create an item or give it a new value carry its flags and its time. -/
def StoreVerb.hasExtras : StoreVerb → Bool
  | .append => false
  | .prepend => false
  | _ => true

/-- The content of a frame about the prepared key. -/
def withKey (zkey : ZKey) (f : Bytes → Option FrameContent) : Option (List FrameContent) :=
  ((mmcPrepareKeyEx zkey.str keyPrefix).bind f).map fun c => [c]

/-- The content of a storage command, with what packing into an empty buffer gives. -/
def storeContent (opcode : Nat) (hasExtras : Bool) (key : Bytes) (flags exptime : UInt32) (cas : UInt64)
    (value : Zval δ ω) : Option FrameContent :=
  (mmcPackValue C pool {} value flags).map fun packed =>
    { opcode, cas := cas.toNat, key, value := packed.1.value
      extras := if hasExtras then .item packed.2.toNat exptime.toNat else .none }

/-- The frames an operation should be sent in. -/
def BinaryOperation.contents : BinaryOperation δ ω → Option (List FrameContent)
  | .get zkey => withKey keyPrefix zkey fun key => some { opcode := MMC_OP_GET, key }
  | .multiGet zkeys =>
    some ((preparedKeys keyPrefix zkeys).map (fun k => { opcode := MMC_OP_GETQ, key := k.2 })
      ++ [{ opcode := MMC_OP_NOOP }])
  | .store verb zkey flags exptime value =>
    withKey keyPrefix zkey fun key =>
      storeContent C pool verb.opcode verb.hasExtras key flags exptime 0 value
  | .cas zkey flags exptime token value =>
    withKey keyPrefix zkey fun key => storeContent C pool MMC_OP_SET true key flags exptime token value
  | .delete zkey => withKey keyPrefix zkey fun key => some { opcode := MMC_OP_DELETE, key }
  | .mutate zkey args =>
    withKey keyPrefix zkey fun key => some
      { opcode := if 0 ≤ args.value.toInt then MMC_OP_INCR else MMC_OP_DECR, key
        extras := .counter args.value.toInt.natAbs (args.defval.toInt % 2 ^ 64).toNat
          (if args.defvalUsed then args.exptime.toNat else 2 ^ 32 - 1) }
  | .flush => some [{ opcode := MMC_OP_FLUSH }]
  | .version => some [{ opcode := MMC_OP_VERSION }]
  | .stats => some [{ opcode := MMC_OP_NOOP }]
  | .sasl user password =>
    some [{ opcode := MMC_OP_SASL_AUTH, key := bytes ['P', 'L', 'A', 'I', 'N']
            value := [0] ++ cString user ++ [0] ++ cString password }]

/-- The bytes appended to the send buffer are the frames with these contents, and nothing is left. -/
def Appends (before after : MmcRequest) (contents : List FrameContent) : Prop :=
  ∃ added frames, after.sendbuf.value = before.sendbuf.value ++ added ∧
    parseFrames added.length added = some frames ∧ frames.map BinaryFrame.content = contents

/-- What is sent, if the operation is not refused, are these frames. -/
def Encoding.Meets (q : MmcRequest) (contents : Option (List FrameContent)) : Encoding → Prop
  | .refused => True
  | .stopped => False
  | .sends q' => ∃ cs, contents = some cs ∧ Appends q q' cs

/-- What is sent of an operation are its frames. -/
def BinaryOperation.SelfConsistent (space : Nat → UInt8) (q : MmcRequest) (op : BinaryOperation δ ω) :
    Prop :=
  (op.encode C pool keyPrefix space q).Meets q (op.contents C pool keyPrefix)

/-- A store has room in its header: packing does not stop, and what follows the header is shorter than
    `2 ^ 32` bytes. -/
def StoreFits (extrasLen : Nat) (zkey : ZKey) (flags : UInt32) (value : Zval δ ω) : Prop :=
  ∀ key, mmcPrepareKeyEx zkey.str keyPrefix = some key → packStops C pool value flags = false ∧
    ∀ packed, mmcPackValue C pool {} value flags = some packed →
      key.length + extrasLen + packed.1.value.length < 2 ^ 32

/-- The lengths that fit into a header. -/
def BinaryOperation.Fits : BinaryOperation δ ω → Prop
  | .store verb zkey flags _ value =>
    StoreFits C pool keyPrefix (if verb.hasExtras then 8 else 0) zkey flags value
  | .cas zkey flags _ _ value => StoreFits C pool keyPrefix 8 zkey flags value
  | .sasl user password => (cString user).length + (cString password).length + 7 < 2 ^ 32
  | _ => True

/-! ## Cutting bytes into frames -/

theorem bigEndian_mod (n x : Nat) : bigEndian n (x % 256 ^ n) = bigEndian n x := by
  induction n generalizing x with
  | zero => rfl
  | succ n ih =>
    have hhigh : x % 256 ^ (n + 1) / 256 = x / 256 % 256 ^ n := by
      rw [Nat.pow_succ', Nat.mod_mul_right_div_self]
    have hlow : UInt8.ofNat (x % 256 ^ (n + 1)) = UInt8.ofNat x := by
      rw [← UInt8.toNat_inj, UInt8.toNat_ofNat', UInt8.toNat_ofNat']
      exact Nat.mod_mod_of_dvd x (Dvd.intro_left (256 ^ n) rfl)
    rw [bigEndian, bigEndian, hhigh, hlow, ih]

/-- **A frame is read back** whatever its index, which is cut to 32 bits. -/
theorem parseFrame_content {opcode cas : Nat} {extras key value : Bytes} (reqid : Nat)
    (hopcode : opcode < 256) (hcas : cas < 2 ^ 64) (hextras : extras.length < 256)
    (hkey : key.length ≤ 250) (htotal : key.length + extras.length + value.length < 2 ^ 32)
    (rest : Bytes) :
    ∃ f, parseFrame (mmcPackHeader opcode reqid key.length extras.length value.length cas
        ++ (extras ++ key ++ value ++ rest)) = some (f, rest) ∧
      f.content = { opcode, cas, extras := .ofBytes extras, key, value } := by
  have hheader : mmcPackHeader opcode reqid key.length extras.length value.length cas
      = mmcPackHeader opcode (reqid % 2 ^ 32) key.length extras.length value.length cas := by
    have hmod : bigEndian 4 (reqid % 2 ^ 32) = bigEndian 4 reqid := bigEndian_mod 4 reqid
    rw [mmcPackHeader, mmcPackHeader, hmod]
  rw [hheader]
  exact ⟨_, parseFrame_mmcPackHeader hopcode (Nat.mod_lt _ (by decide)) hcas hextras (by omega) htotal
    rest, rfl⟩

/-- A frame ends less than `2 ^ 32` bytes behind its header. -/
theorem length_of_parseFrame {s : Bytes} {f : BinaryFrame} {rest : Bytes}
    (h : parseFrame s = some (f, rest)) : s.length < 24 + rest.length + 2 ^ 32 := by
  have htotal := ofBigEndian_lt ((s.drop 8).take 4)
  have hfour : 256 ^ ((s.drop 8).take 4).length ≤ 2 ^ 32 := by
    calc 256 ^ ((s.drop 8).take 4).length ≤ 256 ^ 4 :=
          Nat.pow_le_pow_right (by decide) (List.length_take_le 4 _)
      _ = 2 ^ 32 := by decide
  unfold parseFrame at h
  dsimp only at h
  split at h
  · cases h
    simp only [List.length_drop, binaryHeaderSize]
    omega
  · cases h

theorem parseFrames_succ (fuel : Nat) (b : UInt8) (s : Bytes) :
    parseFrames (fuel + 1) (b :: s)
      = (parseFrame (b :: s)).bind fun p => (parseFrames fuel p.2).map (p.1 :: ·) := rfl

theorem parseFrames_cons {fuel : Nat} {s : Bytes} {f : BinaryFrame} {rest : Bytes}
    (h : parseFrame s = some (f, rest)) :
    parseFrames (fuel + 1) s = (parseFrames fuel rest).map (f :: ·) := by
  cases s with
  | nil => simp [parseFrame] at h
  | cons b s => rw [parseFrames_succ, h, Option.bind_some]

/-- More fuel does not change what is read. -/
theorem parseFrames_mono {fuel : Nat} {s : Bytes} {frames : List BinaryFrame}
    (h : parseFrames fuel s = some frames) {fuel' : Nat} (hle : fuel ≤ fuel') :
    parseFrames fuel' s = some frames := by
  induction fuel generalizing s frames fuel' with
  | zero =>
    cases s with
    | nil => cases fuel' <;> exact h
    | cons => cases h
  | succ fuel ih =>
    obtain ⟨fuel', rfl⟩ := Nat.exists_eq_add_of_le' (Nat.lt_of_lt_of_le fuel.succ_pos hle)
    cases s with
    | nil => exact h
    | cons b s =>
      rw [parseFrames_succ] at h ⊢
      obtain ⟨⟨f, rest⟩, hframe, hrest⟩ := Option.bind_eq_some_iff.mp h
      obtain ⟨later, hlater, hcons⟩ := Option.map_eq_some_iff.mp hrest
      rw [hframe, Option.bind_some, ih hlater (by omega), Option.map_some, hcons]

/-- A single frame, whose bytes are all there is. -/
theorem parseFrames_singleton {fuel : Nat} {s : Bytes} {f : BinaryFrame}
    (h : parseFrames fuel s = some [f]) : parseFrame s = some (f, []) := by
  cases fuel with
  | zero => cases s <;> cases h
  | succ fuel =>
    cases s with
    | nil => cases h
    | cons b s =>
      rw [parseFrames_succ] at h
      obtain ⟨⟨f', rest⟩, hframe, hrest⟩ := Option.bind_eq_some_iff.mp h
      obtain ⟨later, hlater, hcons⟩ := Option.map_eq_some_iff.mp hrest
      cases hcons
      have hempty : rest = [] := by
        cases fuel with
        | zero => cases rest <;> [rfl; cases hlater]
        | succ fuel =>
          cases rest with
          | nil => rfl
          | cons b rest =>
            rw [parseFrames_succ] at hlater
            obtain ⟨p, -, hp⟩ := Option.bind_eq_some_iff.mp hlater
            simp at hp
      rw [hframe, hempty]

/-! ## Operations with one frame -/

/-- **One frame** is cut off again exactly when the length of its body fits into the header. -/
theorem appends_frame_iff {before after : MmcRequest} {opcode reqid cas : Nat}
    {extras key value : Bytes} (hopcode : opcode < 256) (hcas : cas < 2 ^ 64)
    (hextras : extras.length < 256) (hkey : key.length ≤ 250)
    (hsent : after.sendbuf.value = before.sendbuf.value
      ++ (mmcPackHeader opcode reqid key.length extras.length value.length cas
        ++ (extras ++ key ++ value))) :
    Appends before after [{ opcode, cas, extras := .ofBytes extras, key, value }] ↔
      key.length + extras.length + value.length < 2 ^ 32 := by
  constructor
  · rintro ⟨added, frames, hadded, hframes, hcontents⟩
    rw [hsent] at hadded
    obtain rfl := List.append_cancel_left hadded
    obtain ⟨f, rfl, -⟩ := List.map_eq_singleton_iff.mp hcontents
    have hlength := length_of_parseFrame (parseFrames_singleton hframes)
    simp only [mmcPackHeader, List.length_append, bigEndian_length, List.length_cons,
      List.length_nil] at hlength
    omega
  · intro htotal
    obtain ⟨f, hframe, hcontent⟩ := parseFrame_content reqid hopcode hcas hextras hkey htotal []
    rw [List.append_nil] at hframe
    refine ⟨_, [f], hsent, ?_, by rw [List.map_singleton, hcontent]⟩
    have hone : parseFrames 1 (mmcPackHeader opcode reqid key.length extras.length value.length cas
        ++ (extras ++ key ++ value)) = some [f] := by
      rw [parseFrames_cons hframe]
      rfl
    refine parseFrames_mono hone ?_
    simp only [mmcPackHeader, List.length_append, bigEndian_length, List.length_cons]
    omega

/-- A frame without a value always fits. -/
theorem appends_frame {before after : MmcRequest} {opcode reqid : Nat} {extras key : Bytes}
    (hopcode : opcode < 256) (hextras : extras.length < 256) (hkey : key.length ≤ 250)
    (hsent : after.sendbuf.value = before.sendbuf.value
      ++ (mmcPackHeader opcode reqid key.length extras.length 0 0 ++ (extras ++ key))) :
    Appends before after [{ opcode, extras := .ofBytes extras, key }] := by
  have hsent' : after.sendbuf.value = before.sendbuf.value
      ++ (mmcPackHeader opcode reqid key.length extras.length ([] : Bytes).length 0
        ++ (extras ++ key ++ [])) := by
    rw [hsent, List.append_nil, List.length_nil]
  exact (appends_frame_iff hopcode (by decide) hextras hkey hsent').mpr
    (by rw [List.length_nil]; omega)

theorem FrameExtras.ofBytes_item (flags exptime : UInt32) :
    FrameExtras.ofBytes (bigEndian 4 flags.toNat ++ bigEndian 4 exptime.toNat)
      = .item flags.toNat exptime.toNat := by
  have hflags := take_append_bigEndian_of_lt 4 flags.toNat_lt (bigEndian 4 exptime.toNat)
  have hexptime : ofBigEndian ((bigEndian 4 flags.toNat ++ bigEndian 4 exptime.toNat).drop 4)
      = exptime.toNat := by
    rw [List.drop_left' (bigEndian_length 4 _), ofBigEndian_bigEndian_of_lt 4 exptime.toNat_lt]
  rw [FrameExtras.ofBytes, if_neg (by simp), if_pos (by simp), hflags, hexptime]

theorem FrameExtras.ofBytes_counter (args : MutateArgs) :
    FrameExtras.ofBytes args.extras
      = .counter args.value.toInt.natAbs (args.defval.toInt % 2 ^ 64).toNat
          (if args.defvalUsed then args.exptime.toNat else 2 ^ 32 - 1) := by
  obtain ⟨hdelta, hinitial, hexpiration⟩ := args.extras_fields
  have hlength := args.extras_length
  rw [FrameExtras.ofBytes, if_neg (by omega), if_neg (by omega), if_pos hlength, hdelta, hinitial,
    hexpiration]

/-! ## Multi-key gets -/

theorem mmcBinaryAppendGet_sendbuf (q : MmcRequest) (k : ZKey × Bytes) :
    (mmcBinaryAppendGet q k.1 k.2).sendbuf.value = q.sendbuf.value
      ++ (mmcPackHeader MMC_OP_GETQ q.bin.keys.length k.2.length 0 0 0 ++ k.2) := by
  simp [mmcBinaryAppendGet, MmcRequest.appendSend, MmcRequest.pushKey_sendbuf]

/-- A frame for every key, by induction on the keys: the frames of the bytes behind them follow. -/
theorem foldl_mmcBinaryAppendGet_frames {ks : List (ZKey × Bytes)} (q : MmcRequest)
    (hkeys : ∀ k ∈ ks, k.2.length ≤ 250) :
    ∃ added, (ks.foldl (fun q k => mmcBinaryAppendGet q k.1 k.2) q).sendbuf.value
        = q.sendbuf.value ++ added ∧ ks.length ≤ added.length ∧
      ∀ fuel rest later, parseFrames fuel rest = some later →
        ∃ frames, parseFrames (ks.length + fuel) (added ++ rest) = some (frames ++ later) ∧
          frames.map BinaryFrame.content = ks.map fun k => { opcode := MMC_OP_GETQ, key := k.2 } := by
  induction ks generalizing q with
  | nil =>
    refine ⟨[], by simp, Nat.le_refl 0, ?_⟩
    intro fuel rest later hlater
    exact ⟨[], by simpa using hlater, rfl⟩
  | cons k ks ih =>
    obtain ⟨added, hadded, hlength, hframes⟩ := ih (mmcBinaryAppendGet q k.1 k.2)
      fun k' hk' => hkeys k' (List.mem_cons_of_mem k hk')
    refine ⟨mmcPackHeader MMC_OP_GETQ q.bin.keys.length k.2.length 0 0 0 ++ k.2 ++ added, ?_, ?_, ?_⟩
    · rw [List.foldl_cons, hadded, mmcBinaryAppendGet_sendbuf]
      simp
    · simp only [mmcPackHeader, List.length_append, List.length_cons]
      omega
    · intro fuel rest later hlater
      obtain ⟨frames, hparse, hcontents⟩ := hframes fuel rest later hlater
      have hk := hkeys k List.mem_cons_self
      obtain ⟨f, hframe, hcontent⟩ := @parseFrame_content MMC_OP_GETQ 0 [] k.2 [] q.bin.keys.length
        (by decide) (by decide) (by decide) hk (by simp only [List.length_nil]; omega) (added ++ rest)
      have hshape : mmcPackHeader MMC_OP_GETQ q.bin.keys.length k.2.length 0 0 0 ++ k.2 ++ added ++ rest
          = mmcPackHeader MMC_OP_GETQ q.bin.keys.length k.2.length ([] : Bytes).length
              ([] : Bytes).length 0 ++ ([] ++ k.2 ++ [] ++ (added ++ rest)) := by
        simp
      refine ⟨f :: frames, ?_, ?_⟩
      · rw [hshape, List.length_cons, Nat.succ_add, parseFrames_cons hframe, hparse]
        rfl
      · rw [List.map_cons, hcontents, hcontent]
        rfl

theorem appends_multiGet {ks : List (ZKey × Bytes)} (q : MmcRequest)
    (hkeys : ∀ k ∈ ks, k.2.length ≤ 250) :
    Appends q (mmcBinaryEndGet (ks.foldl (fun q k => mmcBinaryAppendGet q k.1 k.2) (mmcBinaryBeginGet q)))
      (ks.map (fun k => { opcode := MMC_OP_GETQ, key := k.2 }) ++ [{ opcode := MMC_OP_NOOP }]) := by
  obtain ⟨added, hadded, hlength, hframes⟩ :=
    foldl_mmcBinaryAppendGet_frames (mmcBinaryBeginGet q) hkeys
  -- The frame of the NOOP is the last one.
  generalize hindex : (ks.foldl (fun q k => mmcBinaryAppendGet q k.1 k.2)
    (mmcBinaryBeginGet q)).bin.keys.length = index
  obtain ⟨f, hframe, hcontent⟩ := @parseFrame_content MMC_OP_NOOP 0 [] [] [] index (by decide)
    (by decide) (by decide) (by decide) (by decide) []
  have hnoop : parseFrames 1 (mmcPackHeader MMC_OP_NOOP index 0 0 0 0) = some [f] := by
    have hempty : parseFrames 0 [] = some [] := rfl
    have hlast := @parseFrames_cons 0 _ f [] hframe
    rw [hempty] at hlast
    simpa using hlast
  obtain ⟨frames, hparse, hcontents⟩ := hframes 1 _ _ hnoop
  refine ⟨added ++ mmcPackHeader MMC_OP_NOOP index 0 0 0 0, frames ++ [f], ?_, ?_, ?_⟩
  · rw [mmcBinaryEndGet, MmcRequest.appendSend, hindex]
    simp only [hadded]
    simp [mmcBinaryBeginGet, MmcRequest.parseBinary]
  · refine parseFrames_mono hparse ?_
    simp only [mmcPackHeader, List.length_append, List.length_cons]
    omega
  · rw [List.map_append, hcontents, List.map_singleton, hcontent]
    rfl

/-! ## Packing into a buffer -/

theorem append_take_length_sub (prev s : Bytes) {n : Nat} (h : n ≤ s.length) :
    (prev ++ s).take ((prev ++ s).length - n) = prev ++ s.take (s.length - n) := by
  have hlength : (prev ++ s).length - n = prev.length + (s.length - n) := by
    rw [List.length_append]
    omega
  rw [hlength, List.take_length_add_append]

/-- What is in the buffer in front of the value stays, also where the value is packed into a new one. -/
theorem mmcCompress_append (buffer start : MmcBuffer) (value : Bytes) (flags : UInt32) (copy : Bool)
    (hstart : copy = true → value.length ≤ start.value.length) :
    mmcCompress C pool (buffer.append start.value) value flags copy
      = (buffer.append (mmcCompress C pool start value flags copy).1.value,
          (mmcCompress C pool start value flags copy).2) := by
  have hprev : (if copy then (buffer.value ++ start.value).take
        ((buffer.value ++ start.value).length - value.length % 2 ^ 32)
      else buffer.value ++ start.value) = buffer.value ++ (if copy then start.value.take
        (start.value.length - value.length % 2 ^ 32) else start.value) := by
    have hmod := Nat.mod_le value.length (2 ^ 32)
    cases copy with
    | false => rfl
    | true => exact append_take_length_sub _ _ (hmod.trans (hstart rfl))
  unfold mmcCompress
  simp only [MmcBuffer.append]
  rw [hprev]
  generalize (if pool.threshold ≠ 0 ∧ pool.threshold.toNat ≤ value.length % 2 ^ 32
    then flags ||| MMC_COMPRESSED else flags) = f
  split
  · cases C.compress (pool.resultLen (value.length % 2 ^ 32)) (value.take (value.length % 2 ^ 32)) <;>
      simp
  · cases copy <;> simp

variable {C pool keyPrefix}

/-- Packing does not depend on what the buffer held before. -/
theorem mmcPackValue_append (buffer : MmcBuffer) (value : Zval δ ω) (flags : UInt32) :
    mmcPackValue C pool buffer value flags
      = (mmcPackValue C pool {} value flags).map fun packed =>
          (buffer.append packed.1.value, packed.2) := by
  have hself : buffer = buffer.append [] := by simp [MmcBuffer.append]
  have hempty : ∀ s : Bytes, MmcBuffer.append {} s = { value := s, idx := 0 } := by
    intro s
    simp [MmcBuffer.append]
  unfold mmcPackValue
  split
  · rfl
  · cases value with
    | string s =>
      have hcompress := mmcCompress_append C pool buffer {} s
        (flags &&& ~~~MMC_SERIALIZED ||| MMC_TYPE_STRING) false (by simp)
      rw [← hself] at hcompress
      simp only [hcompress, Option.map_some]
    | long n => simp [MmcBuffer.append]
    | double d => simp [MmcBuffer.append]
    | bool b => simp [MmcBuffer.append]
    | other v =>
      cases hser : C.serialize v with
      | none => simp [hser]
      | some s =>
        cases s with
        | nil => simp [hser]
        | cons b s =>
          have hcompress := mmcCompress_append C pool buffer { value := b :: s } (b :: s)
            (flags &&& ~~~MMC_SERIALIZED ||| MMC_SERIALIZED) true (fun _ => Nat.le_refl _)
          simp only [hser, hempty, hcompress, Option.map_some]

/-- The header is written into the room that was left for it. -/
theorem overwrite_space (buffer : MmcBuffer) (space header tail : Bytes)
    (hspace : space.length = header.length) :
    ((buffer.append space).append tail).overwrite buffer.value.length header
      = buffer.append (header ++ tail) := by
  simp [MmcBuffer.overwrite, MmcBuffer.append, ← hspace, List.drop_append]

/-! ## Stores -/

theorem mmcBinaryStore_sendbuf (q : MmcRequest) (op : MmcOp) (key value : Bytes)
    (flags exptime cas : Nat) :
    (mmcBinaryStore q op key exptime cas (some (value, flags))).2.sendbuf.value
      = q.sendbuf.value ++ (mmcPackHeader (binaryStoreCommand op).1 0 key.length
          (storeExtras op flags exptime).length value.length cas
        ++ (storeExtras op flags exptime ++ key ++ value)) := by
  rw [storeExtras_length]
  simp [mmcBinaryStore, MmcRequest.appendSend, MmcRequest.parseBinary, storeExtras]

/-- **On the buffer** a store appends what it would if the value were packed before. -/
theorem mmcBinaryStoreValue_eq (space : Nat → UInt8) (q : MmcRequest) (op : MmcOp) (key : Bytes)
    (flags exptime : UInt32) (cas : UInt64) (value : Zval δ ω)
    (hstops : packStops C pool value flags = false) {packed : MmcBuffer × UInt32}
    (hpacked : mmcPackValue C pool {} value flags = some packed) :
    mmcBinaryStoreValue C pool space q op key flags exptime cas value
      = .sends (mmcBinaryStore q op key exptime.toNat cas.toNat
          (some (packed.1.value, packed.2.toNat))).2 := by
  have hextras := storeExtras_length op packed.2.toNat exptime.toNat
  unfold mmcBinaryStoreValue mmcBinaryStore
  rw [storeExtras] at hextras
  generalize binaryStoreCommand op = command at hextras ⊢
  obtain ⟨opcode, extrasLen⟩ := command
  dsimp only at hextras ⊢
  rw [hstops, mmcPackValue_append, hpacked, Option.map_some]
  -- the difference of the two positions is the length of the packed value
  generalize hbuffer : (MmcBuffer.append (MmcBuffer.append (q.parseBinary .binaryReadResponse).sendbuf
    ((List.range (binaryHeaderSize + extrasLen)).map space)) key) = buffer
  have hlength : (buffer.append packed.1.value).value.length - buffer.value.length
      = packed.1.value.length := by
    simp [MmcBuffer.append]
  have hroom : ((List.range (binaryHeaderSize + extrasLen)).map space).length
      = (mmcPackHeader opcode 0 key.length extrasLen packed.1.value.length cas.toNat
        ++ if extrasLen = 0 then [] else bigEndian 4 packed.2.toNat ++ bigEndian 4 exptime.toNat).length := by
    rw [List.length_append, hextras]
    simp [mmcPackHeader, binaryHeaderSize]
  have happend : buffer.append packed.1.value = MmcBuffer.append (MmcBuffer.append
      (q.parseBinary .binaryReadResponse).sendbuf
        ((List.range (binaryHeaderSize + extrasLen)).map space)) (key ++ packed.1.value) := by
    subst hbuffer
    simp [MmcBuffer.append]
  dsimp only
  rw [hlength, happend, overwrite_space _ _ _ _ hroom, MmcRequest.appendSend, MmcBuffer.append]
  simp

/-- An operation on a key, which is refused or goes on with the prepared one. -/
theorem withPrepared_meets_iff (zkey : ZKey) (f : Bytes → Encoding) (content : Bytes → Option FrameContent)
    (q : MmcRequest) :
    (withPrepared keyPrefix zkey f).Meets q (withKey keyPrefix zkey content) ↔
      ∀ key, mmcPrepareKeyEx zkey.str keyPrefix = some key →
        (f key).Meets q ((content key).map fun c => [c]) := by
  rw [withPrepared, withKey]
  cases hkey : mmcPrepareKeyEx zkey.str keyPrefix with
  | none => simp [Encoding.Meets]
  | some key => simp

theorem FrameExtras.ofBytes_storeExtras {op : MmcOp} {hasExtras : Bool}
    (hop : (binaryStoreCommand op).2 = if hasExtras then 8 else 0) (flags exptime : UInt32) :
    FrameExtras.ofBytes (storeExtras op flags.toNat exptime.toNat)
      = if hasExtras then .item flags.toNat exptime.toNat else .none := by
  rw [storeExtras, hop]
  cases hasExtras with
  | false => rfl
  | true => exact FrameExtras.ofBytes_item flags exptime

/-- **A store** is sent in its frame exactly when it fits. -/
theorem store_meets_iff (space : Nat → UInt8) (q : MmcRequest) {op : MmcOp} {opcode : Nat}
    {hasExtras : Bool} (hop : binaryStoreCommand op = (opcode, if hasExtras then 8 else 0))
    (zkey : ZKey) (flags exptime : UInt32) (cas : UInt64) (value : Zval δ ω) :
    (withPrepared keyPrefix zkey fun key =>
        mmcBinaryStoreValue C pool space q op key flags exptime cas value).Meets q
      (withKey keyPrefix zkey fun key =>
        storeContent C pool opcode hasExtras key flags exptime cas value) ↔
      StoreFits C pool keyPrefix (if hasExtras then 8 else 0) zkey flags value := by
  rw [withPrepared_meets_iff, StoreFits]
  refine forall₂_congr fun key hkey => ?_
  cases hstops : packStops C pool value flags with
  | true =>
    simp [mmcBinaryStoreValue, hstops, Encoding.Meets]
  | false =>
    cases hpacked : mmcPackValue C pool {} value flags with
    | none =>
      simp [mmcBinaryStoreValue, hstops, mmcPackValue_append (MmcBuffer.append _ key), hpacked,
        Encoding.Meets]
    | some packed =>
      have hsends := mmcBinaryStoreValue_eq space q op key flags exptime cas value hstops hpacked
      have hvalue := mmcBinaryStore_sendbuf q op key packed.1.value packed.2.toNat exptime.toNat
        cas.toNat
      obtain ⟨hopcode, hlen⟩ := binaryStoreCommand_lt op
      have hframe := appends_frame_iff hopcode cas.toNat_lt
        (by rw [storeExtras_length]; omega) (length_of_mmcPrepareKeyEx hkey) hvalue
      rw [storeExtras_length, FrameExtras.ofBytes_storeExtras (by rw [hop]), hop] at hframe
      rw [hsends, Encoding.Meets, storeContent, hpacked]
      simp only [Option.map_some, Option.some.injEq, exists_eq_left', hframe, true_and]
      simp

/-! ## All operations -/

theorem StoreVerb.command (verb : StoreVerb) :
    binaryStoreCommand verb.op = (verb.opcode, if verb.hasExtras then 8 else 0) := by
  cases verb <;> rfl

/-- An operation whose frame holds no value. -/
theorem meets_of_noValue {q q' : MmcRequest} {opcode reqid : Nat} {extras key : Bytes}
    (hopcode : opcode < 256) (hextras : extras.length < 256) (hkey : key.length ≤ 250)
    (hsent : q'.sendbuf.value = q.sendbuf.value
      ++ (mmcPackHeader opcode reqid key.length extras.length 0 0 ++ (extras ++ key))) :
    (Encoding.sends q').Meets q (some [{ opcode, extras := .ofBytes extras, key }]) :=
  ⟨_, rfl, appends_frame hopcode hextras hkey hsent⟩

theorem appends_sasl_iff (q : MmcRequest) (user password : Bytes) :
    Appends q (mmcSetSaslAuthData q user password)
        [{ opcode := MMC_OP_SASL_AUTH, key := bytes ['P', 'L', 'A', 'I', 'N']
           value := [0] ++ user ++ [0] ++ password }] ↔
      user.length + password.length + 7 < 2 ^ 32 := by
  have hlength : ([0] ++ user ++ [0] ++ password : Bytes).length = user.length + password.length + 2 := by
    simp only [List.length_append, List.length_singleton]
    omega
  have hframe := @appends_frame_iff q (mmcSetSaslAuthData q user password) MMC_OP_SASL_AUTH 0 0 []
    (bytes ['P', 'L', 'A', 'I', 'N']) ([0] ++ user ++ [0] ++ password) (by decide) (by decide) (by decide)
    (by decide) (by
      rw [hlength]
      simp [mmcSetSaslAuthData, MmcRequest.appendSend, MmcRequest.parseBinary, bytes])
  have hkey : (bytes ['P', 'L', 'A', 'I', 'N']).length = 5 := rfl
  rw [hlength, hkey, List.length_nil] at hframe
  refine hframe.trans ⟨fun h => ?_, fun h => ?_⟩ <;> omega

/-- **Binary requests are self-consistent** exactly when their lengths fit into the header. -/
theorem binaryOperation_selfConsistent_iff (space : Nat → UInt8) (q : MmcRequest)
    (op : BinaryOperation δ ω) :
    op.SelfConsistent C pool keyPrefix space q ↔ op.Fits C pool keyPrefix := by
  unfold BinaryOperation.SelfConsistent
  cases op with
  | get zkey =>
    refine iff_of_true ((withPrepared_meets_iff zkey _ _ q).mpr fun key hkey => ?_) trivial
    refine @meets_of_noValue q _ MMC_OP_GET q.bin.keys.length [] key (by decide) (by decide)
      (length_of_mmcPrepareKeyEx hkey) ?_
    simp [mmcBinaryGet, MmcRequest.appendSend, MmcRequest.parseBinary, MmcRequest.pushKey_sendbuf]
  | multiGet zkeys =>
    refine iff_of_true ?_ trivial
    rw [BinaryOperation.encode, BinaryOperation.contents]
    cases hks : preparedKeys keyPrefix zkeys with
    | nil => trivial
    | cons k ks =>
      refine ⟨_, rfl, appends_multiGet q fun k' hk' => ?_⟩
      rw [← hks, preparedKeys] at hk'
      obtain ⟨zkey, -, hzkey⟩ := List.mem_filterMap.mp hk'
      obtain ⟨key, hkey, rfl⟩ := Option.map_eq_some_iff.mp hzkey
      exact length_of_mmcPrepareKeyEx hkey
  | store verb zkey flags exptime value =>
    exact store_meets_iff space q verb.command zkey flags exptime 0 value
  | cas zkey flags exptime token value =>
    exact @store_meets_iff _ _ _ _ _ space q .cas MMC_OP_SET true rfl zkey flags exptime token value
  | delete zkey =>
    refine iff_of_true ((withPrepared_meets_iff zkey _ _ q).mpr fun key hkey => ?_) trivial
    refine @meets_of_noValue q _ MMC_OP_DELETE 0 [] key (by decide) (by decide)
      (length_of_mmcPrepareKeyEx hkey) ?_
    simp [mmcBinaryDelete, MmcRequest.appendSend, MmcRequest.parseBinary]
  | mutate zkey args =>
    refine iff_of_true ((withPrepared_meets_iff zkey _ _ q).mpr fun key hkey => ?_) trivial
    have hopcode : (if 0 ≤ args.value.toInt then MMC_OP_INCR else MMC_OP_DECR) < 256 := by
      split <;> decide
    rw [Option.map_some, ← FrameExtras.ofBytes_counter]
    refine @meets_of_noValue q _ _ q.bin.keys.length args.extras key hopcode
      (by rw [args.extras_length]; decide) (length_of_mmcPrepareKeyEx hkey) ?_
    rw [args.extras_length]
    simp [mmcBinaryMutate, MmcRequest.appendSend, MmcRequest.parseBinary, MutateArgs.extras,
      MmcRequest.pushKey_sendbuf]
  | flush =>
    refine iff_of_true (@meets_of_noValue q _ MMC_OP_FLUSH 0 [] [] ?_ ?_ ?_ rfl) trivial <;> decide
  | version =>
    refine iff_of_true (@meets_of_noValue q _ MMC_OP_VERSION 0 [] [] ?_ ?_ ?_ rfl) trivial <;> decide
  | stats =>
    refine iff_of_true (@meets_of_noValue q _ MMC_OP_NOOP 0 [] [] ?_ ?_ ?_ rfl) trivial <;> decide
  | sasl user password =>
    have hframe := appends_sasl_iff q (cString user) (cString password)
    simp only [BinaryOperation.encode, BinaryOperation.contents, Encoding.Meets, Option.some.injEq,
      exists_eq_left', hframe, BinaryOperation.Fits]

/-! ## A long value -/

/-- The serialization of an array with a single string, as PHP writes it; nothing is compressed. -/
def singletonCodec : Codec Unit Bytes where
  compress _ _ := none
  uncompress _ _ := .failed
  serialize s := some (bytes ['a', ':', '1', ':'] ++ [123] ++ bytes ['i', ':', '0', ';', 's', ':']
    ++ decimal s.length ++ bytes [':', '"'] ++ s ++ bytes ['"', ';'] ++ [125])
  unserialize _ := none
  printDouble _ := []
  scanDouble _ := ()

/-- No compression. -/
def neverCompress : CompressSettings where
  threshold := 0
  resultLen n := n

theorem mmcPackValue_singleton (s : Bytes) :
    ∃ packed, mmcPackValue singletonCodec neverCompress {} (.other s) 0 = some packed ∧
      s.length ≤ packed.1.value.length := by
  generalize hser : bytes ['a', ':', '1', ':'] ++ [123] ++ bytes ['i', ':', '0', ';', 's', ':']
    ++ decimal s.length ++ bytes [':', '"'] ++ s ++ bytes ['"', ';'] ++ [125] = b
  have hlength : s.length ≤ b.length := by
    rw [← hser]
    simp only [List.length_append]
    omega
  have hserialize : singletonCodec.serialize s = some b := congrArg some hser
  have hcompress : mmcCompress singletonCodec neverCompress (MmcBuffer.append {} b) b MMC_SERIALIZED true
      = (MmcBuffer.append {} b, MMC_SERIALIZED) := by
    have hzero : MMC_SERIALIZED &&& MMC_COMPRESSED = 0 := by decide
    simp [mmcCompress, neverCompress, hzero]
  refine ⟨(MmcBuffer.append {} b, MMC_SERIALIZED), ?_, by simpa [MmcBuffer.append] using hlength⟩
  cases b with
  | nil => simp at hser
  | cons d b =>
    unfold mmcPackValue
    rw [if_neg (by decide)]
    simp only [hserialize]
    exact congrArg some hcompress

/-- An array with a string of `2 ^ 32` bytes: the length in the header lacks its upper bits. -/
theorem longArray_not_selfConsistent :
    ¬(.store .set { ptr := 0, str := [107] } 0 0 (.other (List.replicate (2 ^ 32) 97)) :
        BinaryOperation Unit Bytes).SelfConsistent singletonCodec neverCompress []
          (fun _ => 0) {} := by
  rw [BinaryOperation.SelfConsistent, BinaryOperation.encode, BinaryOperation.contents,
    store_meets_iff _ _ (StoreVerb.command .set)]
  intro hfits
  obtain ⟨packed, hpacked, hlength⟩ := mmcPackValue_singleton (List.replicate (2 ^ 32) 97)
  have htotal := (hfits [107] (by decide)).2 packed hpacked
  rw [List.length_replicate] at hlength
  omega

end PeclMemcache
