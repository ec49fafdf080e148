import PeclMemcache.Authentication

set_option autoImplicit false

/-! # The hash function FNV-1a

`mmc_hash_fnv1a` of `memcache_pool.c` against the published function. The source reads the bytes of a
key through a `const char *`. Where `char` is signed, a byte from `0x80` on is sign-extended before it
is combined, and the upper 24 bits of the hash are inverted by the way. -/

namespace PeclMemcache

/-! ## The two functions -/

def FNV_32_PRIME : UInt32 := 0x01000193
def FNV_32_INIT : UInt32 := 0x811c9dc5

/-- `(unsigned int)*p` for a `char` that is signed or not. -/
def charToUnsigned (signedChar : Bool) (b : UInt8) : UInt32 :=
  if signedChar ∧ 128 ≤ b.toNat then UInt32.ofNat (0xffffff00 + b.toNat) else UInt32.ofNat b.toNat

/-- One turn of the loop of `mmc_hash_fnv1a_combine`. -/
def combineByte (signedChar : Bool) (seed : UInt32) (b : UInt8) : UInt32 :=
  (seed ^^^ charToUnsigned signedChar b) * FNV_32_PRIME

/-- `mmc_hash_fnv1a_combine`. -/
def mmcHashFnv1aCombine (signedChar : Bool) (seed : UInt32) (key : Bytes) : UInt32 :=
  key.foldl (combineByte signedChar) seed

/-- `mmc_hash_fnv1a`, where `char` is signed or not. -/
def mmcHashFnv1aOf (signedChar : Bool) : MmcHashFunction where
  init := FNV_32_INIT
  combine := mmcHashFnv1aCombine signedChar
  finish seed := seed

theorem charToUnsigned_signed (b : UInt8) :
    charToUnsigned true b = if b < 128 then b.toUInt32 else b.toUInt32 ||| 0xffffff00 := by
  have hall : ∀ n : Fin 256, charToUnsigned true (UInt8.ofFin n)
      = if UInt8.ofFin n < 128 then (UInt8.ofFin n).toUInt32
        else (UInt8.ofFin n).toUInt32 ||| 0xffffff00 := by
    decide +kernel
  exact hall b.toFin

/-- With a signed `char` it is the function the servers are placed with. -/
theorem mmcHashFnv1aOf_signed : mmcHashFnv1aOf true = mmcHashFnv1a := by
  have hbyte : combineByte true = fun seed c =>
      (seed ^^^ (if c < 128 then c.toUInt32 else c.toUInt32 ||| 0xffffff00)) * 0x01000193 := by
    funext seed b
    rw [combineByte, charToUnsigned_signed]
    rfl
  have hcombine : mmcHashFnv1aCombine true = mmcHashFnv1a.combine := by
    funext seed key
    rw [mmcHashFnv1aCombine, hbyte]
    rfl
  rw [mmcHashFnv1aOf, hcombine]
  rfl

/-- A byte of the published function, with its prime `2 ^ 24 + 2 ^ 8 + 0x93`. -/
def fnv1aByte (h : UInt32) (b : UInt8) : UInt32 := (h ^^^ UInt32.ofNat b.toNat) * 16777619

/-- The published 32-bit FNV-1a. -/
def fnv1a (data : Bytes) : UInt32 := data.foldl fnv1aByte 2166136261

/-- The hash of a key is the published one, and its pieces can be combined one after the other. -/
structure HashesFnv1a (signedChar : Bool) (key : Bytes) : Prop where
  hash : mmcHash (mmcHashFnv1aOf signedChar) key = fnv1a key
  pieces : ∀ front back, key = front ++ back → ∀ seed,
    (mmcHashFnv1aOf signedChar).combine seed key
      = (mmcHashFnv1aOf signedChar).combine ((mmcHashFnv1aOf signedChar).combine seed front) back

theorem mmcHashFnv1aCombine_append (signedChar : Bool) (seed : UInt32) (front back : Bytes) :
    mmcHashFnv1aCombine signedChar seed (front ++ back)
      = mmcHashFnv1aCombine signedChar (mmcHashFnv1aCombine signedChar seed front) back :=
  List.foldl_append

/-! ## The upper 24 bits -/

/-- A byte that is negative as a signed `char`. -/
def isHigh (b : UInt8) : Bool := 128 ≤ b.toNat

/-- How far the inverted bits lead away from the published hash, as a number of which the upper 24 bits
    of the hash are the remainder: a sum over the bytes from `0x80` on, in which the bits `h` that each
    inverts count `1 + 2 * h`, with a sign that the bytes from `0x80` on behind it change. -/
def signExcess (h : UInt32) : Bytes → Int
  | [] => 0
  | b :: rest =>
    signExcess (fnv1aByte h b) rest +
      if isHigh b then
        (-1 : Int) ^ (b :: rest).countP isHigh * 16777619 ^ (b :: rest).length
          * (1 + 2 * (h.toNat / 256))
      else 0

/-- Two hashes with the same low byte, whose upper bits differ by `d`. -/
structure Apart24 (d : Int) (h h' : UInt32) : Prop where
  low : h'.toNat % 256 = h.toNat % 256
  upper : (h'.toNat / 256 : Int) ≡ h.toNat / 256 + d [ZMOD 2 ^ 24]

theorem Apart24.refl (h : UInt32) : Apart24 0 h h := ⟨rfl, by rw [add_zero]⟩

theorem Apart24.eq_iff {d : Int} {h h' : UInt32} (ha : Apart24 d h h') :
    h' = h ↔ (2 : Int) ^ 24 ∣ d := by
  have hlt := h.toNat_lt
  have hlt' := h'.toNat_lt
  have hlow := ha.low
  have hupper := ha.upper
  rw [← UInt32.toNat_inj, Int.modEq_iff_dvd] at *
  constructor
  · intro heq
    rw [heq] at hupper
    simpa using hupper
  · intro hd
    rw [add_sub_right_comm] at hupper
    have := (Int.dvd_add_left hd).mp hupper
    omega

/-- What is multiplied by the prime. -/
theorem Apart24.mul {d : Int} {x x' : UInt32} (ha : Apart24 d x x') :
    Apart24 (16777619 * d) (x * 16777619) (x' * 16777619) := by
  have hlow := ha.low
  have hupper := ha.upper
  have hlt := x.toNat_lt
  have hlt' := x'.toNat_lt
  have hprime : (16777619 : UInt32).toNat = 16777619 := rfl
  rw [Int.modEq_iff_dvd] at hupper
  obtain ⟨k, hk⟩ := hupper
  refine ⟨?_, ?_⟩
  · rw [UInt32.toNat_mul, UInt32.toNat_mul, hprime]
    omega
  · rw [UInt32.toNat_mul, UInt32.toNat_mul, hprime, Int.modEq_iff_dvd]
    refine ⟨k * 16777619 + (x'.toNat * 16777619 / 2 ^ 32) - (x.toNat * 16777619 / 2 ^ 32), ?_⟩
    push_cast
    omega

/-! ## One byte -/

theorem xor_byte (h : UInt32) (b : UInt8) :
    (h ^^^ UInt32.ofNat b.toNat).toNat / 256 = h.toNat / 256 ∧
      (h ^^^ UInt32.ofNat b.toNat).toNat % 256 = h.toNat % 256 ^^^ b.toNat := by
  have hb := b.toNat_lt
  have hbyte : (UInt32.ofNat b.toNat).toNat = b.toNat := UInt32.toNat_ofNat_of_lt' (by
    rw [UInt32.size]
    omega)
  rw [UInt32.toNat_xor, hbyte]
  constructor
  · rw [Nat.xor_div_two_pow (n := 8), Nat.div_eq_of_lt (b := 2 ^ 8) hb, Nat.xor_zero]
  · rw [Nat.xor_mod_two_pow (n := 8), Nat.mod_eq_of_lt (b := 2 ^ 8) hb]

theorem xor_ones {n x : Nat} (h : x < 2 ^ n) : x ^^^ (2 ^ n - 1) = 2 ^ n - 1 - x := by
  have hnot := BitVec.toNat_not (x := BitVec.ofNat n x)
  rw [← BitVec.xor_allOnes, BitVec.toNat_xor, BitVec.toNat_allOnes, BitVec.toNat_ofNat,
    Nat.mod_eq_of_lt h] at hnot
  exact hnot

/-- The sign bits of the byte invert the upper 24 bits. -/
theorem xor_extended (h : UInt32) {b : UInt8} :
    (h ^^^ UInt32.ofNat (0xffffff00 + b.toNat)).toNat / 256 = 2 ^ 24 - 1 - h.toNat / 256 ∧
      (h ^^^ UInt32.ofNat (0xffffff00 + b.toNat)).toNat % 256 = h.toNat % 256 ^^^ b.toNat := by
  have hb := b.toNat_lt
  have hlt := h.toNat_lt
  have hbyte : (UInt32.ofNat (0xffffff00 + b.toNat)).toNat = 0xffffff00 + b.toNat :=
    UInt32.toNat_ofNat_of_lt' (by
      rw [UInt32.size]
      omega)
  have hdiv : (0xffffff00 + b.toNat) / 2 ^ 8 = 2 ^ 24 - 1 := by omega
  have hmod : (0xffffff00 + b.toNat) % 2 ^ 8 = b.toNat := by omega
  rw [UInt32.toNat_xor, hbyte]
  constructor
  · rw [Nat.xor_div_two_pow (n := 8), hdiv, xor_ones (by omega)]
  · rw [Nat.xor_mod_two_pow (n := 8), hmod]

/-- A byte below `0x80`, or any byte where `char` has no sign, keeps the distance up to the prime. -/
theorem Apart24.plain {d : Int} {h h' : UInt32} (ha : Apart24 d h h') {signedChar : Bool} {b : UInt8}
    (hb : ¬ (signedChar = true ∧ isHigh b = true)) :
    Apart24 (16777619 * d) (fnv1aByte h b) (combineByte signedChar h' b) := by
  have hchar : charToUnsigned signedChar b = UInt32.ofNat b.toNat :=
    if_neg fun hhigh => hb ⟨hhigh.1, decide_eq_true hhigh.2⟩
  obtain ⟨hdiv, hmod⟩ := xor_byte h b
  obtain ⟨hdiv', hmod'⟩ := xor_byte h' b
  have hupper := ha.upper
  rw [combineByte, hchar]
  refine Apart24.mul ⟨?_, ?_⟩
  · rw [hmod, hmod', ha.low]
  · rw [Int.modEq_iff_dvd] at hupper ⊢
    omega

/-- A byte from `0x80` on turns the distance around. -/
theorem Apart24.high {d : Int} {h h' : UInt32} (ha : Apart24 d h h') {b : UInt8}
    (hb : isHigh b = true) :
    Apart24 (16777619 * -(d + (1 + 2 * (h.toNat / 256)))) (fnv1aByte h b) (combineByte true h' b) := by
  have hchar : charToUnsigned true b = UInt32.ofNat (0xffffff00 + b.toNat) :=
    if_pos ⟨rfl, of_decide_eq_true hb⟩
  obtain ⟨hdiv, hmod⟩ := xor_byte h b
  obtain ⟨hdiv', hmod'⟩ := @xor_extended h' b
  have hupper := ha.upper
  have hlt' := h'.toNat_lt
  rw [combineByte, hchar]
  refine Apart24.mul ⟨?_, ?_⟩
  · rw [hmod, hmod', ha.low]
  · rw [Int.modEq_iff_dvd] at hupper ⊢
    omega

/-! ## A whole key -/

/-- The distance behind a key, by induction on its bytes. -/
theorem apart24_combine (key : Bytes) : ∀ (d : Int) (h h' : UInt32), Apart24 d h h' →
    Apart24 ((-1) ^ key.countP isHigh * 16777619 ^ key.length * d + signExcess h key)
      (key.foldl fnv1aByte h) (mmcHashFnv1aCombine true h' key) := by
  induction key with
  | nil =>
    intro d h h' ha
    simpa [signExcess, mmcHashFnv1aCombine] using ha
  | cons b rest ih =>
    intro d h h' ha
    by_cases hb : isHigh b = true
    · have hstep := ih _ _ _ (ha.high hb)
      have hdistance : (-1) ^ rest.countP isHigh * 16777619 ^ rest.length
            * (16777619 * -(d + (1 + 2 * ((h.toNat : Int) / 256)))) + signExcess (fnv1aByte h b) rest
          = (-1) ^ (b :: rest).countP isHigh * 16777619 ^ (b :: rest).length * d
            + signExcess h (b :: rest) := by
        rw [signExcess, if_pos hb, List.countP_cons_of_pos hb, List.length_cons]
        ring
      rw [hdistance] at hstep
      exact hstep
    · have hstep := ih _ _ _ (@Apart24.plain d h h' ha true b fun hhigh => hb hhigh.2)
      have hdistance : (-1) ^ rest.countP isHigh * 16777619 ^ rest.length * (16777619 * d)
            + signExcess (fnv1aByte h b) rest
          = (-1) ^ (b :: rest).countP isHigh * 16777619 ^ (b :: rest).length * d
            + signExcess h (b :: rest) := by
        rw [signExcess, if_neg hb, List.countP_cons_of_neg hb, List.length_cons]
        ring
      rw [hdistance] at hstep
      exact hstep

/-- A `char` without a sign gives the published function. -/
theorem combineByte_false : combineByte false = fnv1aByte := by
  funext h b
  rw [combineByte, charToUnsigned, if_neg (by simp)]
  rfl

/-- The bits that the bytes from `0x80` on invert have to cancel out. -/
theorem mmcHash_eq_fnv1a_iff (key : Bytes) :
    mmcHash (mmcHashFnv1aOf true) key = fnv1a key ↔ (2 : Int) ^ 24 ∣ signExcess FNV_32_INIT key := by
  have hapart := apart24_combine key 0 FNV_32_INIT FNV_32_INIT (Apart24.refl _)
  rw [mul_zero, zero_add] at hapart
  exact hapart.eq_iff

/-- A key of ASCII characters has the published hash where `char` is signed. -/
theorem mmcHash_eq_fnv1a_of_ascii {key : Bytes} (hkey : ∀ b ∈ key, b < 0x80) :
    mmcHash (mmcHashFnv1aOf true) key = fnv1a key := by
  have hexcess : ∀ h, signExcess h key = 0 := by
    induction key with
    | nil => exact fun h => rfl
    | cons b rest ih =>
      intro h
      have hb : isHigh b ≠ true := by
        have hlt := UInt8.lt_iff_toNat_lt.mp (hkey b List.mem_cons_self)
        simpa [isHigh] using hlt
      rw [signExcess, if_neg hb, add_zero]
      exact ih (fun c hc => hkey c (List.mem_cons_of_mem b hc)) _
  exact (mmcHash_eq_fnv1a_iff key).mpr (hexcess _ ▸ dvd_zero _)

/-- The number of bytes from `0x80` on decides whether the sum is odd. -/
theorem signExcess_modEq (key : Bytes) (h : UInt32) :
    signExcess h key ≡ key.countP isHigh [ZMOD 2] := by
  induction key generalizing h with
  | nil => exact Int.ModEq.refl _
  | cons b rest ih =>
    rw [signExcess]
    by_cases hb : isHigh b = true
    · have hodd : Odd ((-1 : Int) ^ (b :: rest).countP isHigh * 16777619 ^ (b :: rest).length
          * (1 + 2 * ((h.toNat : Int) / 256))) := by
        refine ((Odd.pow (by decide)).mul (Odd.pow (by decide))).mul ⟨(h.toNat : Int) / 256, ?_⟩
        exact add_comm _ _
      have hone : (-1 : Int) ^ (b :: rest).countP isHigh * 16777619 ^ (b :: rest).length
          * (1 + 2 * ((h.toNat : Int) / 256)) ≡ 1 [ZMOD 2] := Int.odd_iff.mp hodd
      rw [if_pos hb]
      refine (Int.ModEq.add (ih _) hone).trans ?_
      rw [List.countP_cons_of_pos hb]
      push_cast
      exact Int.ModEq.refl _
    · rw [if_neg hb, add_zero, List.countP_cons_of_neg hb]
      exact ih _

/-- With an odd number of bytes from `0x80` on, the hash depends on the platform. -/
theorem mmcHash_ne_fnv1a_of_odd {key : Bytes} (hodd : Odd (key.countP isHigh)) :
    mmcHash (mmcHashFnv1aOf true) key ≠ fnv1a key := by
  rw [Ne, mmcHash_eq_fnv1a_iff]
  intro hdvd
  have htwo : (2 : Int) ∣ signExcess FNV_32_INIT key := (by decide : (2 : Int) ∣ 2 ^ 24).trans hdvd
  have hparity := signExcess_modEq key FNV_32_INIT
  have hcount := Nat.odd_iff.mp hodd
  unfold Int.ModEq at hparity
  omega

/-- Two such bytes can cancel out: the letter U+0640 behind an ampersand. -/
example : mmcHash (mmcHashFnv1aOf true) [0x26, 0xd9, 0x80] = fnv1a [0x26, 0xd9, 0x80] := by decide

/-- **FNV-1a.** The hash of a key is the published one where `char` has no sign, and elsewhere exactly
    if the bits that the bytes from `0x80` on invert cancel out. -/
theorem hashesFnv1a_iff (signedChar : Bool) (key : Bytes) :
    HashesFnv1a signedChar key ↔
      signedChar = false ∨ (2 : Int) ^ 24 ∣ signExcess FNV_32_INIT key := by
  have hpieces : ∀ front back, key = front ++ back → ∀ seed,
      (mmcHashFnv1aOf signedChar).combine seed key
        = (mmcHashFnv1aOf signedChar).combine ((mmcHashFnv1aOf signedChar).combine seed front) back := by
    intro front back hkey seed
    rw [hkey]
    exact mmcHashFnv1aCombine_append signedChar seed front back
  have hiff : HashesFnv1a signedChar key ↔ mmcHash (mmcHashFnv1aOf signedChar) key = fnv1a key :=
    ⟨fun h => h.hash, fun h => ⟨h, hpieces⟩⟩
  rw [hiff]
  cases signedChar with
  | false =>
    refine iff_of_true ?_ (Or.inl rfl)
    change key.foldl (combineByte false) FNV_32_INIT = _
    rw [combineByte_false]
    rfl
  | true =>
    rw [or_iff_right (by simp)]
    exact mmcHash_eq_fnv1a_iff key

/-- Where `char` is signed, the key of the one byte `0x80` has another hash. -/
theorem highByte_not_hashesFnv1a : ¬ HashesFnv1a true [0x80] :=
  fun h => absurd h.hash (by decide)

end PeclMemcache
