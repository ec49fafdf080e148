import Mathlib

set_option autoImplicit false

/-! # Cyclic redundancy checks

A register of `w` bits takes a message in letters of `n` bits, the lowest bit first. Shifting a letter out
bit by bit agrees with a table that has an entry for each letter. Two messages that differ only within as
many letters as the register has room for leave different registers. -/

namespace Crc

variable {w : Nat} (poly : BitVec w)

/-! ## The register -/

/-- The register moves down by a bit; the bit that falls out decides on the feedback. -/
def shift (c : BitVec w) : BitVec w := (c >>> 1) ^^^ if c.getLsbD 0 then poly else 0#w

theorem shift_xor (a b : BitVec w) : shift poly (a ^^^ b) = shift poly a ^^^ shift poly b := by
  have hfeedback : (if (a ^^^ b).getLsbD 0 then poly else 0#w) =
      (if a.getLsbD 0 then poly else 0#w) ^^^ if b.getLsbD 0 then poly else 0#w := by
    rw [BitVec.getLsbD_xor]
    cases a.getLsbD 0 <;> cases b.getLsbD 0 <;> simp
  rw [shift, shift, shift, hfeedback, BitVec.ushiftRight_xor_distrib]
  ac_rfl

theorem shift_iterate_xor (n : Nat) (a b : BitVec w) :
    (shift poly)^[n] (a ^^^ b) = (shift poly)^[n] a ^^^ (shift poly)^[n] b := by
  induction n generalizing a b with
  | zero => rfl
  | succ n ih => rw [Function.iterate_succ_apply, shift_xor, ih, ← Function.iterate_succ_apply,
      ← Function.iterate_succ_apply]

theorem shift_eq_zero (hpoly : poly.msb = true) {c : BitVec w} (h : shift poly c = 0#w) : c = 0#w := by
  rw [shift, BitVec.xor_eq_zero_iff] at h
  cases hc : c.getLsbD 0 with
  | true =>
    -- the feedback sets the highest bit, which is free
    rw [hc, if_pos rfl] at h
    have hmsb := congrArg BitVec.msb h
    rw [BitVec.msb_ushiftRight] at hmsb
    simp [hpoly] at hmsb
  | false =>
    rw [hc] at h
    have hshift : c >>> 1 = 0#w := by simpa using h
    refine BitVec.eq_of_getLsbD_eq fun i hi => ?_
    cases i with
    | zero => simpa using hc
    | succ i =>
      have hbit := congrArg (fun x => x.getLsbD i) hshift
      simpa [Nat.add_comm] using hbit

theorem shift_injective (hpoly : poly.msb = true) : Function.Injective (shift poly) := by
  intro a b h
  refine BitVec.xor_eq_zero_iff.mp (shift_eq_zero poly hpoly ?_)
  rw [shift_xor, h, BitVec.xor_self]

/-- Bits that are zero fall out without feedback. -/
theorem shift_iterate_shiftLeft (n : Nat) {c : BitVec w} (hc : c.toNat * 2 ^ n < 2 ^ w) :
    (shift poly)^[n] (c <<< n) = c := by
  induction n with
  | zero => simp
  | succ n ih =>
    have hroom : c.toNat * 2 ^ n < 2 ^ w :=
      lt_of_le_of_lt (Nat.mul_le_mul_left _ (Nat.pow_le_pow_right (by omega) (by omega))) hc
    have hstep : shift poly (c <<< (n + 1)) = c <<< n := by
      have hzero : (c <<< (n + 1)).getLsbD 0 = false := by simp
      rw [shift, hzero]
      apply BitVec.eq_of_toNat_eq
      rw [pow_succ, ← mul_assoc] at hc
      simp [BitVec.toNat_shiftLeft, Nat.shiftLeft_eq, Nat.shiftRight_eq_div_pow, Nat.mod_eq_of_lt hroom,
        pow_succ, ← mul_assoc, Nat.mod_eq_of_lt hc]
    rw [Function.iterate_succ_apply, hstep, ih hroom]

theorem shift_iterate_injective (hpoly : poly.msb = true) (n : Nat) :
    Function.Injective (shift poly)^[n] := (shift_injective poly hpoly).iterate n

/-! ## Letters -/

variable {n : Nat}

/-- A letter is added to the register and shifted out. -/
def feed (c : BitVec w) (b : BitVec n) : BitVec w := (shift poly)^[n] (c ^^^ b.setWidth w)

/-- What shifting out a letter leaves behind. -/
def entry (b : BitVec n) : BitVec w := (shift poly)^[n] (b.setWidth w)

theorem shiftLeft_ushiftRight_xor_setWidth (x : BitVec w) :
    x = (x >>> n) <<< n ^^^ (x.setWidth n).setWidth w := by
  refine BitVec.eq_of_getLsbD_eq fun i hi => ?_
  by_cases hn : i < n
  · simp [hi, hn]
  · simp [hi, hn, Nat.add_sub_cancel' (Nat.le_of_not_lt hn)]

/-- **A table does it a letter at a time.** -/
theorem feed_eq_table (hn : n ≤ w) (c : BitVec w) (b : BitVec n) :
    feed poly c b = (c >>> n) ^^^ entry poly (c.setWidth n ^^^ b) := by
  set x : BitVec w := c ^^^ b.setWidth w
  have hroom : (x >>> n).toNat * 2 ^ n < 2 ^ w := by
    rw [BitVec.toNat_ushiftRight, Nat.shiftRight_eq_div_pow]
    exact lt_of_le_of_lt (Nat.div_mul_le_self _ _) x.isLt
  have hhigh : x >>> n = c >>> n := by
    refine BitVec.eq_of_getLsbD_eq fun i hi => ?_
    simp [x]
  have hlow : x.setWidth n = c.setWidth n ^^^ b := by
    refine BitVec.eq_of_getLsbD_eq fun i hi => ?_
    simp [x, hi, lt_of_lt_of_le hi hn]
  calc feed poly c b
      = (shift poly)^[n] ((x >>> n) <<< n ^^^ (x.setWidth n).setWidth w) := by
        rw [← shiftLeft_ushiftRight_xor_setWidth, feed]
    _ = (c >>> n) ^^^ entry poly (c.setWidth n ^^^ b) := by
        rw [shift_iterate_xor, shift_iterate_shiftLeft poly n hroom, hhigh, hlow, entry]

theorem feed_injective (hpoly : poly.msb = true) (b : BitVec n) :
    Function.Injective fun c : BitVec w => feed poly c b := by
  intro c d h
  exact (BitVec.xor_left_inj _).mp (shift_iterate_injective poly hpoly n h)

/-! ## Messages -/

/-- The register after a message. -/
def register (c : BitVec w) (message : List (BitVec n)) : BitVec w := message.foldl (feed poly) c

@[simp] theorem register_append (c : BitVec w) (front back : List (BitVec n)) :
    register poly c (front ++ back) = register poly (register poly c front) back := List.foldl_append

/-- What differs stays different. -/
theorem register_injective (hpoly : poly.msb = true) (message : List (BitVec n)) :
    Function.Injective fun c : BitVec w => register poly c message := by
  induction message with
  | nil => exact fun _ _ => id
  | cons b rest ih => exact ih.comp (feed_injective poly hpoly b)

/-- The letters of a short message side by side, the first one lowest. -/
def pack : List (BitVec n) → Nat
  | [] => 0
  | b :: rest => 2 ^ n * pack rest + b.toNat

theorem pack_lt (message : List (BitVec n)) : pack message < 2 ^ (n * message.length) := by
  induction message with
  | nil => simp [pack]
  | cons b rest ih =>
    rw [pack, List.length_cons, Nat.mul_succ, Nat.pow_add]
    have hb := b.isLt
    nlinarith

theorem pack_injective {u v : List (BitVec n)} (hlen : u.length = v.length) (h : pack u = pack v) : u = v := by
  induction u generalizing v with
  | nil => exact (List.length_eq_zero_iff.mp hlen.symm).symm
  | cons a u ih =>
    cases v with
    | nil => cases hlen
    | cons b v =>
      have hhead : a.toNat = b.toNat := by
        have hmod := congrArg (· % 2 ^ n) h
        simpa [pack, Nat.mod_eq_of_lt a.isLt, Nat.mod_eq_of_lt b.isLt] using hmod
      have htail : pack u = pack v := by
        have hpos : 0 < 2 ^ n := Nat.two_pow_pos n
        rw [pack, pack, hhead] at h
        exact Nat.eq_of_mul_eq_mul_left hpos (Nat.add_right_cancel h)
      rw [BitVec.eq_of_toNat_eq hhead, ih (by simpa using hlen) htail]

/-- As long as the register has room for all of them, the letters are shifted out together. -/
theorem register_eq_shift_iterate (c : BitVec w) (message : List (BitVec n))
    (hroom : n * message.length ≤ w) :
    register poly c message = (shift poly)^[n * message.length] (c ^^^ BitVec.ofNat w (pack message)) := by
  induction message generalizing c with
  | nil => simp [register, pack]
  | cons b rest ih =>
    have hlen : n * (b :: rest).length = n * rest.length + n := by rw [List.length_cons, Nat.mul_succ]
    have hrest : 2 ^ n * pack rest < 2 ^ w := by
      have hpack := pack_lt rest
      calc 2 ^ n * pack rest < 2 ^ n * 2 ^ (n * rest.length) :=
            Nat.mul_lt_mul_of_pos_left hpack (Nat.two_pow_pos n)
        _ = 2 ^ (n * (b :: rest).length) := by rw [hlen, Nat.add_comm, Nat.pow_add]
        _ ≤ 2 ^ w := Nat.pow_le_pow_right (by omega) hroom
    have hlt : pack rest < 2 ^ w := lt_of_le_of_lt (Nat.le_mul_of_pos_left _ (Nat.two_pow_pos n)) hrest
    have hshifted : (shift poly)^[n] (BitVec.ofNat w (pack rest) <<< n) = BitVec.ofNat w (pack rest) :=
      shift_iterate_shiftLeft poly n (by simpa [Nat.mod_eq_of_lt hlt, Nat.mul_comm] using hrest)
    have hpack : BitVec.ofNat w (pack (b :: rest)) = b.setWidth w ^^^ BitVec.ofNat w (pack rest) <<< n := by
      refine BitVec.eq_of_getLsbD_eq fun i hi => ?_
      rw [BitVec.getLsbD_ofNat, pack, Nat.testBit_two_pow_mul_add _ b.isLt]
      by_cases hin : i < n
      · simp [hi, hin, Nat.not_le.mpr hin, BitVec.getLsbD]
      · have hlow : i - n < w := lt_of_le_of_lt (Nat.sub_le i n) hi
        have hbit : (BitVec.ofNat w (pack rest))[i - n] = (pack rest).testBit (i - n) := by
          rw [← BitVec.getLsbD_eq_getElem hlow, BitVec.getLsbD_ofNat]
          simp [hlow]
        simp [hi, hin, hbit, BitVec.getLsbD_of_ge b i (Nat.le_of_not_lt hin)]
    rw [show register poly c (b :: rest) = register poly (feed poly c b) rest from rfl,
      ih _ (le_trans (by omega) hroom), hlen, Function.iterate_add_apply, hpack, ← BitVec.xor_assoc,
      shift_iterate_xor _ n, hshifted, feed]

/-- **Bursts are detected**: messages that differ only in a part for which the register has room. -/
theorem register_burst (hpoly : poly.msb = true) (c : BitVec w) (front back : List (BitVec n))
    {u v : List (BitVec n)} (hlen : u.length = v.length) (hroom : n * u.length ≤ w) (hne : u ≠ v) :
    register poly c (front ++ u ++ back) ≠ register poly c (front ++ v ++ back) := by
  intro heq
  rw [register_append, register_append, register_append, register_append] at heq
  have hpart := register_injective poly hpoly back heq
  rw [register_eq_shift_iterate poly _ u hroom, register_eq_shift_iterate poly _ v (hlen ▸ hroom),
    hlen] at hpart
  have hpack := (BitVec.xor_right_inj _).mp (shift_iterate_injective poly hpoly _ hpart)
  refine hne (pack_injective hlen ?_)
  have hu : pack u < 2 ^ w := lt_of_lt_of_le (pack_lt u) (Nat.pow_le_pow_right (by omega) hroom)
  have hv : pack v < 2 ^ w := lt_of_lt_of_le (pack_lt v) (Nat.pow_le_pow_right (by omega) (hlen ▸ hroom))
  simpa [Nat.mod_eq_of_lt hu, Nat.mod_eq_of_lt hv] using congrArg BitVec.toNat hpack

end Crc
