import PeclMemcache.Crc
import PeclMemcache.Fnv

set_option autoImplicit false

/-! # The hash function CRC-32

`mmc_hash_crc32` of `memcache_pool.c` against the published function. The macro `CRC32` and its table are
PHP's. It looks at the lowest eight bits of a byte only, so that it does not matter whether `char` is
signed; and keys that differ in no more than four bytes in a row never have the same hash. -/

namespace PeclMemcache

/-! ## The two functions -/

/-- `CRC32(crc, ch)`. -/
def crc32Step (crc32tab : UInt8 → UInt32) (crc ch : UInt32) : UInt32 :=
  (crc >>> 8) ^^^ crc32tab ((crc ^^^ ch) &&& 0xff).toUInt8

/-- `mmc_hash_crc32_combine`. -/
def mmcHashCrc32Combine (crc32tab : UInt8 → UInt32) (signedChar : Bool) (seed : UInt32) (key : Bytes) :
    UInt32 :=
  key.foldl (fun seed b => crc32Step crc32tab seed (charToUnsigned signedChar b)) seed

/-- `mmc_hash_crc32`, where `char` is signed or not. -/
def mmcHashCrc32 (crc32tab : UInt8 → UInt32) (signedChar : Bool) : MmcHashFunction where
  init := ~~~0
  combine := mmcHashCrc32Combine crc32tab signedChar
  finish seed := ~~~seed

/-- The polynomial of CRC-32, its highest coefficient lowest. -/
def crc32Poly : BitVec 32 := 0xEDB88320#32

/-- The published CRC-32, bit by bit. -/
def crc32 (data : Bytes) : UInt32 :=
  ~~~UInt32.ofBitVec (Crc.register crc32Poly (BitVec.allOnes 32) (data.map UInt8.toBitVec))

/-- The table of PHP holds what each byte leaves behind. -/
def IsCrc32Table (crc32tab : UInt8 → UInt32) : Prop :=
  ∀ b, (crc32tab b).toBitVec = Crc.entry crc32Poly b.toBitVec

/-- The hash of a key is the published one, its pieces can be combined one after the other, and changing
    up to four bytes in a row changes it. -/
structure HashesCrc32 (crc32tab : UInt8 → UInt32) (signedChar : Bool) (key : Bytes) : Prop where
  hash : mmcHash (mmcHashCrc32 crc32tab signedChar) key = crc32 key
  pieces : ∀ front back, key = front ++ back → ∀ seed,
    (mmcHashCrc32 crc32tab signedChar).combine seed key
      = (mmcHashCrc32 crc32tab signedChar).combine ((mmcHashCrc32 crc32tab signedChar).combine seed front)
        back
  burst : ∀ front u v back, key = front ++ u ++ back → u.length = v.length → u.length ≤ 4 → u ≠ v →
    mmcHash (mmcHashCrc32 crc32tab signedChar) (front ++ v ++ back)
      ≠ mmcHash (mmcHashCrc32 crc32tab signedChar) key

/-! ## Bytes -/

section Bytes

variable {crc32tab : UInt8 → UInt32} (htab : IsCrc32Table crc32tab) (signedChar : Bool)

/-- Only the lowest eight bits of a byte count. -/
theorem charToUnsigned_toUInt8 (b : UInt8) : (charToUnsigned signedChar b).toUInt8 = b := by
  have hall : ∀ signed : Bool, ∀ n : Fin 256,
      (charToUnsigned signed (UInt8.ofFin n)).toUInt8 = UInt8.ofFin n := by
    decide +kernel
  exact hall signedChar b.toFin

theorem crc32Index (crc : UInt32) (b : UInt8) :
    ((crc ^^^ charToUnsigned signedChar b) &&& 0xff).toUInt8 = crc.toUInt8 ^^^ b := by
  have hmask (x : UInt8) : x &&& 0xff = x := by
    have hall : ∀ n : Fin 256, UInt8.ofFin n &&& 0xff = UInt8.ofFin n := by decide +kernel
    exact hall x.toFin
  rw [UInt32.toUInt8_and, UInt32.toUInt8_xor, charToUnsigned_toUInt8]
  exact hmask _

include htab

/-- The macro does what eight turns of the register do. -/
theorem crc32Step_toBitVec (crc : UInt32) (b : UInt8) :
    (crc32Step crc32tab crc (charToUnsigned signedChar b)).toBitVec =
      Crc.feed crc32Poly crc.toBitVec b.toBitVec := by
  rw [crc32Step, crc32Index, Crc.feed_eq_table _ (by decide), UInt32.toBitVec_xor, htab]
  rfl

theorem mmcHashCrc32Combine_toBitVec (seed : UInt32) (key : Bytes) :
    (mmcHashCrc32Combine crc32tab signedChar seed key).toBitVec =
      Crc.register crc32Poly seed.toBitVec (key.map UInt8.toBitVec) := by
  induction key generalizing seed with
  | nil => rfl
  | cons b rest ih =>
    rw [mmcHashCrc32Combine, List.foldl_cons, ← mmcHashCrc32Combine, ih, crc32Step_toBitVec htab]
    rfl

theorem mmcHash_mmcHashCrc32 (key : Bytes) : mmcHash (mmcHashCrc32 crc32tab signedChar) key = crc32 key := by
  refine congrArg (~~~·) (UInt32.toBitVec_inj.mp ?_)
  exact mmcHashCrc32Combine_toBitVec htab signedChar _ key

end Bytes

/-! ## Keys -/

theorem crc32_burst {front u v back : Bytes} (hlen : u.length = v.length) (hroom : u.length ≤ 4) (hne : u ≠ v) :
    crc32 (front ++ u ++ back) ≠ crc32 (front ++ v ++ back) := by
  intro heq
  have hregister := congrArg UInt32.toBitVec (UInt32.not_inj.mp heq)
  simp only [List.map_append] at hregister
  refine Crc.register_burst crc32Poly (by decide) (BitVec.allOnes 32) (front.map UInt8.toBitVec)
    (back.map UInt8.toBitVec) (by simpa using hlen) (by simpa using by omega) (fun h => hne ?_) hregister
  exact List.map_injective_iff.mpr (fun _ _ => UInt8.toBitVec_inj.mp) h

/-- **`mmc_hash_crc32` is the published CRC-32**, whether `char` is signed or not. -/
theorem mmcHashCrc32_hashes (crc32tab : UInt8 → UInt32) (htab : IsCrc32Table crc32tab) (signedChar : Bool)
    (key : Bytes) : HashesCrc32 crc32tab signedChar key where
  hash := mmcHash_mmcHashCrc32 htab signedChar key
  pieces front back hkey seed := hkey ▸ List.foldl_append
  burst front u v back hkey hlen hroom hne := by
    rw [hkey, mmcHash_mmcHashCrc32 htab, mmcHash_mmcHashCrc32 htab]
    exact (crc32_burst hlen hroom hne).symm

/-- The table, computed. -/
def crc32Table (b : UInt8) : UInt32 := UInt32.ofBitVec (Crc.entry crc32Poly b.toBitVec)

/-- The check value of the published function. -/
theorem digits_hashCrc32 :
    HashesCrc32 crc32Table true [49, 50, 51, 52, 53, 54, 55, 56, 57] ∧
      mmcHash (mmcHashCrc32 crc32Table true) [49, 50, 51, 52, 53, 54, 55, 56, 57] = 0xCBF43926 :=
  ⟨mmcHashCrc32_hashes crc32Table (fun _ => rfl) true _, by decide +kernel⟩

end PeclMemcache
