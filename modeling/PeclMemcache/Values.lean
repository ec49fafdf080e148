import PeclMemcache.Replies
import PeclMemcache.Requests

set_option autoImplicit false

/-! # Packed values

`mmc_pack_value` and `mmc_unpack_value` of `memcache_pool.c`: how a value of PHP becomes the bytes
and the flags of an item and is read back from them. Serialization, the compression of zlib and the
formats of floating point numbers are parameters. -/

namespace PeclMemcache

/-! ## Values and flags -/

def MMC_SERIALIZED : UInt32 := 0x0001
def MMC_COMPRESSED : UInt32 := 0x0002
def MMC_TYPE_STRING : UInt32 := 0x0000
def MMC_TYPE_BOOL : UInt32 := 0x0100
def MMC_TYPE_LONG : UInt32 := 0x0300
def MMC_TYPE_DOUBLE : UInt32 := 0x0700

/-- A value of PHP: `δ` are the floating point numbers, and `other` is null, an array or an
    object. -/
inductive Zval (δ ω : Type)
  | string (s : Bytes)
  | long (n : Int64)
  | double (d : δ)
  | bool (b : Bool)
  | other (v : ω)
  deriving DecidableEq, Repr

/-- What zlib's `uncompress` returns: `Z_OK` with the result, `Z_BUF_ERROR` or another status. -/
inductive Uncompressed
  | ok (result : Bytes)
  | bufError
  | failed

/-- The functions of zlib and of PHP that packing calls. `compress` and `uncompress` are told the
    size of the output; `compress` gives nothing where the status is not `Z_OK`. -/
structure Codec (δ ω : Type) where
  compress : Nat → Bytes → Option Bytes
  uncompress : Nat → Bytes → Uncompressed
  serialize : ω → Option Bytes
  unserialize : Bytes → Option (Zval δ ω)
  printDouble : δ → Bytes
  scanDouble : Bytes → δ

/-- `pool->compress_threshold`, and `value_len * (1 - pool->min_compress_savings)` as an integer. -/
structure CompressSettings where
  threshold : UInt32
  resultLen : Nat → Nat

/-- Append to the value of a buffer. -/
def MmcBuffer.append (buffer : MmcBuffer) (b : Bytes) : MmcBuffer :=
  { buffer with value := buffer.value ++ b }

variable {δ ω : Type} (C : Codec δ ω)

/-! ## Packing -/

/-- `mmc_compress`. With `copy` the value is already at the end of the buffer. Its length is an
    `int`. -/
def mmcCompress (pool : CompressSettings) (buffer : MmcBuffer) (value : Bytes) (flags : UInt32)
    (copy : Bool) : MmcBuffer × UInt32 :=
  let valueLen := value.length % 2 ^ 32
  let value := value.take valueLen
  let flags :=
    if pool.threshold ≠ 0 ∧ pool.threshold.toNat ≤ valueLen then flags ||| MMC_COMPRESSED else flags
  if flags &&& MMC_COMPRESSED ≠ 0 then
    let prev := if copy then buffer.value.take (buffer.value.length - valueLen) else buffer.value
    match C.compress (pool.resultLen valueLen) value with
    | some result => ({ buffer with value := prev ++ result }, flags)
    | none => ({ buffer with value := prev ++ value }, flags &&& ~~~MMC_COMPRESSED)
  else if copy then (buffer, flags)
  else (buffer.append value, flags)

/-- `mmc_pack_value`: the buffer and the flags, or nothing where it fails. -/
def mmcPackValue (pool : CompressSettings) (buffer : MmcBuffer) (value : Zval δ ω)
    (flags : UInt32) : Option (MmcBuffer × UInt32) :=
  if flags &&& 0xffff &&& ~~~MMC_COMPRESSED ≠ 0 then none
  else
    let flags := flags &&& ~~~MMC_SERIALIZED
    match value with
    | .string s => some (mmcCompress C pool buffer s (flags ||| MMC_TYPE_STRING) false)
    | .long n =>
      some (buffer.append (decimalInt n.toInt), (flags ||| MMC_TYPE_LONG) &&& ~~~MMC_COMPRESSED)
    | .double d =>
      some (buffer.append (C.printDouble d), (flags ||| MMC_TYPE_DOUBLE) &&& ~~~MMC_COMPRESSED)
    | .bool b =>
      some (buffer.append [if b then 49 else 48],
        (flags ||| MMC_TYPE_BOOL) &&& ~~~MMC_COMPRESSED)
    | .other v =>
      match C.serialize v with
      | none => none
      | some [] => none
      | some s => some (mmcCompress C pool (buffer.append s) s (flags ||| MMC_SERIALIZED) true)

/-! ## Unpacking -/

/-- The loop of `mmc_uncompress`: the output has `2 ^ factor` times the size of the data, and `fuel`
    more attempts are left. -/
def uncompressFrom (data : Bytes) : Nat → Nat → Option Bytes
  | fuel, factor =>
    match C.uncompress (data.length * 2 ^ factor) data with
    | .ok result => some result
    | .failed => none
    | .bufError =>
      match fuel with
      | 0 => none
      | fuel + 1 => uncompressFrom data fuel (factor + 1)

/-- `mmc_uncompress`: the factor runs from 1 to 15. -/
def mmcUncompress (data : Bytes) : Option Bytes := uncompressFrom C data 14 1

/-- `strtol` on a string. -/
def strtolString (s : Bytes) : Int :=
  match scanNumber (cString s) with
  | some (neg, n, _) => strtol neg n
  | none => 0

/-- The data of an item without its compression. -/
def expanded (data : Bytes) (flags : UInt32) : Option Bytes :=
  if flags &&& MMC_COMPRESSED ≠ 0 then mmcUncompress C data else some data

/-- `mmc_unpack_value`: the value the handler is called with; it is not called where the data cannot
    be uncompressed or unserialized. -/
def mmcUnpackValue (data : Bytes) (flags : UInt32) : Option (Zval δ ω) :=
  match expanded C data flags with
  | none => none
  | some data =>
    if flags &&& MMC_SERIALIZED ≠ 0 then C.unserialize data
    else if flags &&& 0x0f00 = MMC_TYPE_LONG then some (.long (Int64.ofInt (strtolString data)))
    else if flags &&& 0x0f00 = MMC_TYPE_DOUBLE then some (.double (C.scanDouble data))
    else if flags &&& 0x0f00 = MMC_TYPE_BOOL then some (.bool (decide (data = [49])))
    else some (.string data)

/-! ## What zlib and PHP guarantee -/

/-- The documented behaviour of the parameters, for data that grows less than `2 ^ 15` times when it
    is uncompressed. -/
structure Codec.Lawful (C : Codec δ ω) : Prop where
  uncompress_compress : ∀ {capacity : Nat} {value result : Bytes},
    C.compress capacity value = some result → ∀ size,
      C.uncompress size result = if value.length ≤ size then .ok value else .bufError
  expansion : ∀ {capacity : Nat} {value result : Bytes},
    C.compress capacity value = some result → value.length < result.length * 2 ^ 15
  unserialize_serialize : ∀ {v : ω} {s : Bytes},
    C.serialize v = some s → C.unserialize s = some (.other v)

variable {C}

/-- The loop ends with the value, by induction on the attempts that are left: the last one is large
    enough. -/
theorem uncompressFrom_eq {data value : Bytes}
    (h : ∀ size, C.uncompress size data = if value.length ≤ size then .ok value else .bufError) :
    ∀ fuel factor, value.length ≤ data.length * 2 ^ (factor + fuel) →
      uncompressFrom C data fuel factor = some value := by
  intro fuel
  induction fuel with
  | zero =>
    intro factor hlen
    have hok := h (data.length * 2 ^ factor)
    rw [if_pos (by simpa using hlen)] at hok
    rw [uncompressFrom, hok]
  | succ fuel ih =>
    intro factor hlen
    by_cases hfits : value.length ≤ data.length * 2 ^ factor
    · have hok := h (data.length * 2 ^ factor)
      rw [if_pos hfits] at hok
      rw [uncompressFrom, hok]
    · have hfull := h (data.length * 2 ^ factor)
      rw [if_neg hfits] at hfull
      have hnext : value.length ≤ data.length * 2 ^ (factor + 1 + fuel) := by
        rwa [Nat.add_assoc, Nat.add_comm 1 fuel]
      rw [uncompressFrom, hfull]
      exact ih (factor + 1) hnext

theorem mmcUncompress_compress (hC : C.Lawful) {capacity : Nat} {value result : Bytes}
    (h : C.compress capacity value = some result) : mmcUncompress C result = some value :=
  uncompressFrom_eq (hC.uncompress_compress h) 14 1 (Nat.le_of_lt (hC.expansion h))

/-! ## Flags -/

theorem or_and_distrib (a b c : UInt32) : (a ||| b) &&& c = (a &&& c) ||| (b &&& c) :=
  UInt32.toBitVec_inj.1 BitVec.and_or_distrib_right

/-- Flags `f` that have the user's upper half and the type bits of `kind`. -/
structure KindFlags (flags kind f : UInt32) : Prop where
  serialized : f &&& MMC_SERIALIZED = kind &&& MMC_SERIALIZED
  type : f &&& 0x0f00 = kind &&& 0x0f00
  upper : f &&& 0xffff0000 = flags &&& 0xffff0000

/-- Flags that are those of the user and a type up to the bit for compression. -/
theorem kindFlags_of_masked {flags kind f : UInt32}
    (hlow : flags &&& 0xffff &&& ~~~MMC_COMPRESSED = 0) (hkind : kind &&& 0xffff0000 = 0)
    (h : f &&& ~~~MMC_COMPRESSED
      = ((flags &&& ~~~MMC_SERIALIZED) ||| kind) &&& ~~~MMC_COMPRESSED) :
    KindFlags flags kind f := by
  have hmask : ∀ m, ~~~MMC_COMPRESSED &&& m = m →
      f &&& m = (flags &&& (~~~MMC_SERIALIZED &&& m)) ||| (kind &&& m) := by
    intro m hm
    calc f &&& m = f &&& ~~~MMC_COMPRESSED &&& m := by rw [UInt32.and_assoc, hm]
      _ = ((flags &&& ~~~MMC_SERIALIZED) ||| kind) &&& m := by rw [h, UInt32.and_assoc, hm]
      _ = _ := by rw [or_and_distrib, UInt32.and_assoc]
  have hzero : ∀ m, 0xffff &&& (~~~MMC_COMPRESSED &&& m) = m → flags &&& m = 0 := by
    intro m hm
    rw [← hm, ← UInt32.and_assoc, ← UInt32.and_assoc, hlow, UInt32.zero_and]
  refine ⟨?_, ?_, ?_⟩
  · rw [hmask _ (by decide), hzero _ (by decide), UInt32.zero_or]
  · rw [hmask _ (by decide), hzero _ (by decide), UInt32.zero_or]
  · rw [hmask _ (by decide), hkind, UInt32.or_zero]
    rfl

/-! ## Round trips -/

/-- What `mmc_compress` leaves behind the previous content expands to the value, and of the flags
    only the bit for compression has changed. -/
theorem mmcCompress_spec (hC : C.Lawful) (pool : CompressSettings) (buffer start : MmcBuffer)
    {value : Bytes} (hlen : value.length < 2 ^ 31) (flags : UInt32) (copy : Bool)
    (hstart : start = if copy then buffer.append value else buffer) :
    ∃ appended f,
      mmcCompress C pool start value flags copy = (buffer.append appended, f) ∧
        expanded C appended f = some value ∧
        f &&& ~~~MMC_COMPRESSED = flags &&& ~~~MMC_COMPRESSED := by
  have hmod : value.length % 2 ^ 32 = value.length := Nat.mod_eq_of_lt (by omega)
  have hprev : (if copy then start.value.take (start.value.length - value.length)
      else start.value) = buffer.value := by
    subst hstart
    cases copy with
    | false => rfl
    | true => simp [MmcBuffer.append]
  have hidx : start.idx = buffer.idx := by
    subst hstart
    cases copy <;> rfl
  unfold mmcCompress
  simp only [hmod, List.take_length, hprev, hidx]
  generalize hauto : (if pool.threshold ≠ 0 ∧ pool.threshold.toNat ≤ value.length
    then flags ||| MMC_COMPRESSED else flags) = f
  have hf : f &&& ~~~MMC_COMPRESSED = flags &&& ~~~MMC_COMPRESSED := by
    subst hauto
    split
    · rw [or_and_distrib, UInt32.and_not_self, UInt32.or_zero]
    · rfl
  by_cases hset : f &&& MMC_COMPRESSED ≠ 0
  · rw [if_pos hset]
    cases hcompress : C.compress (pool.resultLen value.length) value with
    | some result =>
      refine ⟨result, f, rfl, ?_, hf⟩
      rw [expanded, if_pos hset, mmcUncompress_compress hC hcompress]
    | none =>
      refine ⟨value, f &&& ~~~MMC_COMPRESSED, rfl, ?_, ?_⟩
      · rw [expanded, UInt32.and_assoc, UInt32.not_and_self, UInt32.and_zero, if_neg (by simp)]
      · rw [UInt32.and_assoc, UInt32.and_self, hf]
  · rw [if_neg hset]
    refine ⟨value, f, ?_, by rw [expanded, if_neg hset], hf⟩
    subst hstart
    cases copy <;> rfl

theorem scanNumber_minus (n : Nat) : scanNumber (45 :: decimal n) = some (true, n, []) := by
  have hall : ∀ b ∈ decimal n, isDigit b = true := fun b hb => isDigit_of_mem_decimal hb
  obtain ⟨d, ds, hds⟩ := List.exists_cons_of_ne_nil (decimal_ne_nil n)
  have htake : (decimal n).takeWhile isDigit = d :: ds := by
    rw [List.takeWhile_eq_self_iff.mpr hall, hds]
  have hdrop : (decimal n).dropWhile isDigit = [] := List.dropWhile_eq_nil_iff.mpr hall
  rw [scanNumber_eq, List.dropWhile_cons_of_neg (by decide)]
  simp only [scanSign, htake, hdrop]
  rw [← hds, digitsValue_decimal]

/-- `strtol` reads back what `smart_string_append_long` prints. -/
theorem strtolString_decimalInt {n : Int} (hmin : -2 ^ 63 ≤ n) (hmax : n < 2 ^ 63) :
    strtolString (decimalInt n) = n := by
  have hplain : cString (decimalInt n) = decimalInt n := by
    rw [cString, List.takeWhile_eq_self_iff]
    intro b hb
    have hb := (decimalInt_plain n).1 b hb
    rw [UInt8.lt_iff_toNat_lt] at hb
    refine decide_eq_true ?_
    rintro rfl
    exact absurd hb (by decide)
  have hscan := @scanNumber_decimal n.natAbs [] (by simp)
  rw [List.append_nil] at hscan
  rw [strtolString, hplain, decimalInt]
  by_cases hneg : n < 0
  · have hminus : scanNumber (bytes ['-'] ++ decimal n.natAbs) = some (true, n.natAbs, []) :=
      scanNumber_minus n.natAbs
    rw [if_pos hneg, hminus]
    simp only [strtol, if_true]
    omega
  · rw [if_neg hneg, hscan]
    simp only [strtol, Bool.false_eq_true, if_false]
    omega

/-- What of a value is packed, before it is compressed. -/
def Zval.packed (C : Codec δ ω) : Zval δ ω → Bytes
  | .string s => s
  | .long n => decimalInt n.toInt
  | .double d => C.printDouble d
  | .bool b => [if b then 49 else 48]
  | .other v => (C.serialize v).getD []

/-- **Values survive packing.** The previous content of the buffer and the upper half of the flags
    stay, and what is appended is unpacked to the value. -/
theorem mmcUnpackValue_mmcPackValue (hC : C.Lawful) (pool : CompressSettings)
    {buffer buffer' : MmcBuffer} {value : Zval δ ω} {flags flags' : UInt32}
    (hvalue : ∀ d, value ≠ .double d) (hsize : (value.packed C).length < 2 ^ 31)
    (h : mmcPackValue C pool buffer value flags = some (buffer', flags')) :
    ∃ appended, buffer'.value = buffer.value ++ appended ∧
      flags' &&& 0xffff0000 = flags &&& 0xffff0000 ∧
      mmcUnpackValue C appended flags' = some value := by
  unfold mmcPackValue at h
  by_cases hlow : flags &&& 0xffff &&& ~~~MMC_COMPRESSED = 0
  · rw [if_neg (not_not_intro hlow)] at h
    -- Values that are never compressed: their flags have the type and no bit for compression.
    have hplain : ∀ kind : UInt32, kind &&& 0xffff0000 = 0 →
        KindFlags flags kind (((flags &&& ~~~MMC_SERIALIZED) ||| kind) &&& ~~~MMC_COMPRESSED) ∧
          ∀ data, expanded C data
            (((flags &&& ~~~MMC_SERIALIZED) ||| kind) &&& ~~~MMC_COMPRESSED) = some data := by
      intro kind hkind
      refine ⟨kindFlags_of_masked hlow hkind (by rw [UInt32.and_assoc, UInt32.and_self]), ?_⟩
      intro data
      rw [expanded, UInt32.and_assoc, UInt32.not_and_self, UInt32.and_zero, if_neg (by simp)]
    cases value with
    | string s =>
      obtain ⟨appended, f, hpack, hexpand, hmask⟩ := @mmcCompress_spec _ _ C hC pool buffer
        buffer s hsize ((flags &&& ~~~MMC_SERIALIZED) ||| MMC_TYPE_STRING) false rfl
      have hkind := kindFlags_of_masked hlow (by decide) hmask
      dsimp only at h
      rw [hpack] at h
      cases h
      refine ⟨appended, rfl, hkind.upper, ?_⟩
      rw [mmcUnpackValue, hexpand]
      dsimp only
      rw [hkind.serialized, hkind.type]
      rfl
    | long n =>
      obtain ⟨hkind, hexpand⟩ := hplain MMC_TYPE_LONG (by decide)
      cases h
      refine ⟨decimalInt n.toInt, rfl, hkind.upper, ?_⟩
      rw [mmcUnpackValue, hexpand]
      dsimp only
      rw [hkind.serialized, hkind.type, strtolString_decimalInt n.le_toInt n.toInt_lt,
        Int64.ofInt_toInt]
      rfl
    | double d => exact absurd rfl (hvalue d)
    | bool b =>
      obtain ⟨hkind, hexpand⟩ := hplain MMC_TYPE_BOOL (by decide)
      cases h
      refine ⟨[if b then 49 else 48], rfl, hkind.upper, ?_⟩
      rw [mmcUnpackValue, hexpand]
      dsimp only
      rw [hkind.serialized, hkind.type]
      cases b <;> rfl
    | other v =>
      cases hs : C.serialize v with
      | none => simp [hs] at h
      | some s =>
        rcases s with _ | ⟨b, s⟩
        · simp [hs] at h
        · rw [Zval.packed, hs] at hsize
          obtain ⟨appended, f, hpack, hexpand, hmask⟩ := @mmcCompress_spec _ _ C hC pool
            buffer (buffer.append (b :: s)) (b :: s) hsize
            ((flags &&& ~~~MMC_SERIALIZED) ||| MMC_SERIALIZED) true rfl
          have hkind := kindFlags_of_masked hlow (by decide) hmask
          simp only [hs] at h
          rw [hpack] at h
          cases h
          refine ⟨appended, rfl, hkind.upper, ?_⟩
          rw [mmcUnpackValue, hexpand]
          dsimp only
          rw [hkind.serialized, if_pos (by decide)]
          exact hC.unserialize_serialize hs
  · rw [if_pos hlow] at h
    cases h

/-! ### A compressed string -/

/-- What zlib makes of forty times the letter `a`. -/
def deflatedLetters : Bytes := [120, 156, 75, 76, 36, 14, 0, 0, 54, 235, 15, 41]

/-- A codec for forty times the letter `a` and for null. -/
def sampleCodec : Codec Unit Unit where
  compress size value :=
    if value = List.replicate 40 97 ∧ deflatedLetters.length ≤ size then some deflatedLetters
    else none
  uncompress size data :=
    if data = deflatedLetters then
      if 40 ≤ size then .ok (List.replicate 40 97) else .bufError
    else .failed
  serialize _ := some (bytes ['N', ';'])
  unserialize data := if data = bytes ['N', ';'] then some (.other ()) else none
  printDouble _ := [48]
  scanDouble _ := ()

theorem sampleCodec_lawful : sampleCodec.Lawful where
  uncompress_compress := by
    intro capacity value result h size
    obtain ⟨⟨hvalue, _⟩, hresult⟩ := Option.ite_none_right_eq_some.mp h
    cases hresult
    rw [hvalue, List.length_replicate]
    rfl
  expansion := by
    intro capacity value result h
    obtain ⟨⟨hvalue, _⟩, hresult⟩ := Option.ite_none_right_eq_some.mp h
    cases hresult
    rw [hvalue, List.length_replicate]
    decide
  unserialize_serialize := by
    intro v s h
    cases h
    rfl

/-- The string survives behind two bytes, with a flag of the user and the one for compression. -/
theorem unpack_pack_deflatedLetters :
    ∃ appended, [1, 2] ++ deflatedLetters = [1, 2] ++ appended ∧
      (0x00070002 : UInt32) &&& 0xffff0000 = 0x00070002 &&& 0xffff0000 ∧
      mmcUnpackValue sampleCodec appended 0x00070002 = some (.string (List.replicate 40 97)) :=
  @mmcUnpackValue_mmcPackValue _ _ sampleCodec sampleCodec_lawful
    { threshold := 0, resultLen := fun n => n * 4 / 5 } { value := [1, 2], idx := 0 }
    { value := [1, 2] ++ deflatedLetters, idx := 0 } (.string (List.replicate 40 97)) 0x00070002
    0x00070002 (by simp) (by decide) (by decide)

end PeclMemcache
