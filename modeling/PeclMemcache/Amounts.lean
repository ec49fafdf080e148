import PeclMemcache.MultiNumbers

set_option autoImplicit false

/-! # The amounts of increments

`increment` and `decrement` take a signed amount. `php_mmc_numeric` turns the sign of a decrement
around, the encoders test the sign and turn it around again, and what goes to the server is one of two
commands with an unsigned amount. Every negation is one of 64 bits, in which the smallest number is its
own negative. -/

namespace PeclMemcache

/-! ## Changes of a counter -/

/-- What a server is told to do with a counter: the command and its unsigned amount. -/
structure Change where
  grows : Bool
  amount : UInt64
  deriving DecidableEq, Repr

/-- What the change adds to the counter. -/
def Change.effect (c : Change) : Int := if c.grows then c.amount.toNat else -(c.amount.toNat : Int)

/-- The command of the text protocol. -/
def Change.line (c : Change) (key : Bytes) : Bytes :=
  (if c.grows then bytes ['i', 'n', 'c', 'r'] else bytes ['d', 'e', 'c', 'r']) ++ [32] ++ key ++ [32]
    ++ decimal c.amount.toNat ++ crlf

/-- The opcode of the binary protocol. -/
def Change.opcode (c : Change) : Nat := if c.grows then MMC_OP_INCR else MMC_OP_DECR

/-- The bytes that were sent denote the change. The last 12 extra bytes of the binary command say what
    becomes of a counter that does not exist. -/
def Change.SentAs (c : Change) (key sent : Bytes) : WireProtocol → Prop
  | .ascii => sent = c.line key
  | .binary => ∃ missing : Bytes, missing.length = 12 ∧
    sent = mmcPackHeader c.opcode 0 key.length 20 0 0 ++ (bigEndian 8 c.amount.toNat ++ missing ++ key)

/-- `value >= 0 ? value : -value`, passed as an unsigned number. -/
def magnitude (value : Int64) : UInt64 := if 0 ≤ value then value.toUInt64 else (-value).toUInt64

/-- The change the encoders make of the amount they are passed. -/
def Change.ofValue (value : Int64) : Change := { grows := 0 ≤ value, amount := magnitude value }

/-- `invert ? -value : value`. -/
def amountPassed (invert : Bool) (value : Int64) : Int64 := if invert then -value else value

/-- The request `php_mmc_numeric` makes for a key; `invert` is set by `decrement`. -/
def phpMmcNumericRequest (p : WireProtocol) (invert : Bool) (args : MutateArgs) (q : MmcRequest)
    (k : ZKey × Bytes) : MmcRequest :=
  numericRequest p { args with value := amountPassed invert args.value } q k

/-! ## Signed and unsigned numbers -/

theorem zero_le_iff (value : Int64) : 0 ≤ value ↔ 0 ≤ value.toInt := Int64.le_iff_toInt_le

/-- A signed number and the same bits as an unsigned one. -/
theorem toNat_toUInt64 (value : Int64) : (value.toUInt64.toNat : Int) = value.toInt % 2 ^ 64 := by
  have hcond := BitVec.toInt_eq_toNat_cond value.toBitVec
  have hlt : value.toUInt64.toNat < 2 ^ 64 := value.toUInt64.toNat_lt
  change value.toInt = if 2 * value.toUInt64.toNat < 2 ^ 64 then (value.toUInt64.toNat : Int)
    else (value.toUInt64.toNat : Int) - (2 ^ 64 : Nat) at hcond
  split at hcond <;> omega

/-- The negative, which wraps for the smallest number only. -/
theorem toInt_neg_of_ne {value : Int64} (h : value ≠ Int64.minValue) :
    (-value).toInt = -value.toInt := by
  have hlow := value.le_toInt
  have hhigh := value.toInt_lt
  have hne : value.toInt ≠ -2 ^ 63 := by
    rw [← Int64.toInt_minValue]
    exact fun heq => h (Int64.toInt_inj.mp heq)
  rw [Int64.toInt_neg, Int.bmod_eq_of_le_mul_two] <;> omega

/-- The encoders negate as if without bounds: the unsigned number has room for the smallest one. -/
theorem toNat_magnitude (value : Int64) : (magnitude value).toNat = value.toInt.natAbs := by
  have hlow := value.le_toInt
  have hhigh := value.toInt_lt
  unfold magnitude
  by_cases hpos : 0 ≤ value
  · have hbits := toNat_toUInt64 value
    rw [if_pos hpos]
    rw [zero_le_iff] at hpos
    omega
  · have hbits := toNat_toUInt64 (-value)
    rw [if_neg hpos]
    rw [zero_le_iff] at hpos
    have hwrap : (-value.toInt).bmod (2 ^ 64) % 2 ^ 64 = -value.toInt % 2 ^ 64 := Int.bmod_emod
    rw [Int64.toInt_neg, hwrap] at hbits
    omega

/-- **The effect of a change is the amount that was passed.** -/
theorem Change.effect_ofValue (value : Int64) : (Change.ofValue value).effect = value.toInt := by
  simp only [effect, ofValue, toNat_magnitude, decide_eq_true_iff, zero_le_iff]
  split <;> omega

/-! ## Requests -/

/-- Both encoders send the change of the amount they are passed. -/
theorem numericRequest_sentAs (p : WireProtocol) (args : MutateArgs) (q : MmcRequest)
    (k : ZKey × Bytes) :
    (Change.ofValue args.value).SentAs k.2 (numericRequest p args q k).sendbuf.value p := by
  cases p with
  | ascii =>
    rw [Change.SentAs, numericRequest_ascii_text, Change.line, Change.ofValue, toNat_magnitude]
    simp only [decide_eq_true_iff, zero_le_iff]
    simp [Words.join]
  | binary =>
    refine ⟨args.extras.drop 8, by rw [List.length_drop, args.extras_length], ?_⟩
    rw [numericRequest_binary_bytes, args.extras_length, Change.opcode, Change.ofValue, toNat_magnitude]
    simp only [decide_eq_true_iff, zero_le_iff]
    simp [MutateArgs.extras]

/-- A line is the command of one change. -/
theorem Change.line_inj {c c' : Change} {key : Bytes} (h : c.line key = c'.line key) : c = c' := by
  have hverb : c.grows = c'.grows := by
    have htake := congrArg (List.take 4) h
    cases hc : c.grows <;> cases hc' : c'.grows <;> simp_all [line, bytes]
  have hdigits : decimal c.amount.toNat = decimal c'.amount.toNat := by
    simpa [line, hverb] using h
  have hamount := congrArg digitsValue hdigits
  rw [digitsValue_decimal, digitsValue_decimal, UInt64.toNat_inj] at hamount
  cases c
  cases c'
  simp_all

/-- The signed effect that is asked for: `increment` adds the amount and `decrement` takes it away. -/
def wantedEffect (invert : Bool) (value : Int64) : Int := if invert then -value.toInt else value.toInt

theorem toInt_amountPassed_iff (invert : Bool) (value : Int64) :
    (amountPassed invert value).toInt = wantedEffect invert value ↔
      ¬(invert = true ∧ value = Int64.minValue) := by
  cases invert with
  | false => simp [amountPassed, wantedEffect]
  | true =>
    rw [amountPassed, wantedEffect, if_pos rfl, if_pos rfl]
    constructor
    · rintro heq ⟨-, rfl⟩
      exact absurd heq (by decide)
    · intro hmin
      exact toInt_neg_of_ne fun heq => hmin ⟨rfl, heq⟩

/-- What is sent denotes one change, that of the amount passed. -/
theorem sendsEffect_iff (invert : Bool) (args : MutateArgs) (q : MmcRequest) (k : ZKey × Bytes)
    (effect : Int) :
    (∃ c : Change, c.effect = effect ∧
        ∀ p, c.SentAs k.2 (phpMmcNumericRequest p invert args q k).sendbuf.value p) ↔
      (amountPassed invert args.value).toInt = effect := by
  rw [← Change.effect_ofValue]
  have hsent := fun p => numericRequest_sentAs p { args with value := amountPassed invert args.value } q k
  constructor
  · rintro ⟨c, rfl, hc⟩
    rw [Change.line_inj ((hsent .ascii).symm.trans (hc .ascii))]
  · intro heffect
    exact ⟨_, heffect, hsent⟩

/-- **Amounts are exact**, in both protocols and for every key, except that the smallest number is
    taken away where it should be added. -/
theorem sendsAmount_iff (invert : Bool) (args : MutateArgs) (q : MmcRequest) (k : ZKey × Bytes) :
    (∃ c : Change, c.effect = wantedEffect invert args.value ∧
        ∀ p, c.SentAs k.2 (phpMmcNumericRequest p invert args q k).sendbuf.value p) ↔
      ¬(invert = true ∧ args.value = Int64.minValue) := by
  rw [sendsEffect_iff, toInt_amountPassed_iff]

/-- A decrement by the smallest number is sent as a decrement by `2 ^ 63`. -/
theorem decrement_smallest_not_exact :
    ¬∃ c : Change, c.effect = wantedEffect true Int64.minValue ∧
      ∀ p, c.SentAs (bytes ['n']) (phpMmcNumericRequest p true { value := Int64.minValue } {}
        ({ ptr := 0, str := bytes ['n'] }, bytes ['n'])).sendbuf.value p := by
  intro h
  rw [sendsEffect_iff true { value := Int64.minValue } {} ({ ptr := 0, str := bytes ['n'] }, bytes ['n']),
    toInt_amountPassed_iff] at h
  exact h ⟨rfl, rfl⟩

end PeclMemcache
