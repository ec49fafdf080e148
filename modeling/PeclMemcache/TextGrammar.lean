import PeclMemcache.AsciiProtocol
import PeclMemcache.Words

set_option autoImplicit false

/-! # The text grammar of memcached

How the server reads a command of the text protocol: a line is split at spaces into words, the first
word names the command, and a storage command is followed by a data block of the announced length.
The grammar knows nothing of the client; it says what the bytes of a request mean to the other
side. -/

namespace PeclMemcache

/-! ## Decimal numbers -/

theorem isDigit_iff (b : UInt8) : isDigit b = true ↔ 48 ≤ b.toNat ∧ b.toNat ≤ 57 := by
  simp [isDigit, UInt8.le_iff_toNat_le]

theorem toNat_of_isDigit {c : Char} (h : c.isDigit = true) :
    (UInt8.ofNat c.toNat).toNat = c.toNat ∧ 48 ≤ c.toNat ∧ c.toNat ≤ 57 := by
  simp only [Char.isDigit, Bool.and_eq_true, decide_eq_true_eq, UInt32.le_iff_toNat_le] at h
  have hbounds : 48 ≤ c.toNat ∧ c.toNat ≤ 57 := h
  refine ⟨?_, hbounds⟩
  rw [UInt8.toNat_ofNat']
  omega

theorem isDigit_of_mem_decimal {n : Nat} {b : UInt8} (h : b ∈ decimal n) : isDigit b = true := by
  obtain ⟨c, hc, rfl⟩ := List.mem_map.mp h
  obtain ⟨hval, hbounds⟩ := toNat_of_isDigit (Nat.isDigit_of_mem_toDigits (by decide) (by decide) hc)
  rw [isDigit_iff, hval]
  exact hbounds

theorem decimal_ne_nil (n : Nat) : decimal n ≠ [] := by
  simp [decimal, bytes, Nat.toDigits_ne_nil]

/-- **Decimal numbers are read back.** -/
theorem digitsValue_decimal (n : Nat) : digitsValue (decimal n) = n := by
  have hfold : ∀ (ds : List Char) (m : Nat), (∀ c ∈ ds, c.isDigit = true) →
      (bytes ds).foldl (fun n d => 10 * n + (d.toNat - 48)) m = Nat.ofDigitChars 10 ds m := by
    intro ds
    induction ds with
    | nil => intro m _; rfl
    | cons c ds ih =>
      intro m hds
      have hc := toNat_of_isDigit (hds c List.mem_cons_self)
      rw [bytes, List.map_cons, List.foldl_cons, ← bytes,
        ih _ fun d hd => hds d (List.mem_cons_of_mem c hd), Nat.ofDigitChars_cons, hc.1]
      rfl
  rw [digitsValue, decimal, hfold _ _ fun c hc => Nat.isDigit_of_mem_toDigits (by decide) (by decide) hc,
    Nat.ofDigitChars_ten_toDigits]

/-! ## Commands -/

/-- The storage commands without a token. -/
inductive StoreVerb
  | set
  | add
  | replace
  | append
  | prepend
  deriving DecidableEq, Repr

/-- The commands of the text protocol. -/
inductive TextCommand
  | get (withCas : Bool) (keys : List Bytes)
  | store (verb : StoreVerb) (key : Bytes) (flags exptime : Nat) (data : Bytes)
  | cas (key : Bytes) (flags exptime unique : Nat) (data : Bytes)
  | delete (key : Bytes) (time : Nat)
  | incr (key : Bytes) (delta : Nat)
  | decr (key : Bytes) (delta : Nat)
  | flushAll (delay : Nat)
  | version
  | stats (args : List Bytes)
  deriving DecidableEq, Repr

/-- A word that is a decimal number. -/
def number (w : Bytes) : Option Nat :=
  if w ≠ [] ∧ w.all isDigit then some (digitsValue w) else none

/-- The longest key the server accepts. -/
def maxKeyLength : Nat := 250

def keyWord (w : Bytes) : Option Bytes := if w.length ≤ maxKeyLength then some w else none

theorem keyWord_eq_some {w key : Bytes} (h : keyWord w = some key) : key = w := by
  unfold keyWord at h
  split at h
  · exact (Option.some.inj h).symm
  · cases h

theorem keyWord_length {w key : Bytes} (h : keyWord w = some key) : w.length ≤ maxKeyLength := by
  unfold keyWord at h
  split at h
  · assumption
  · cases h

/-- A block of `n` bytes closed by CRLF. -/
def dataBlock (n : Nat) (s : Bytes) : Option (Bytes × Bytes) :=
  if (s.drop n).take 2 = [13, 10] then some (s.take n, s.drop (n + 2)) else none

def StoreVerb.ofWord (w : Bytes) : Option StoreVerb :=
  if w = bytes ['s', 'e', 't'] then some .set
  else if w = bytes ['a', 'd', 'd'] then some .add
  else if w = bytes ['r', 'e', 'p', 'l', 'a', 'c', 'e'] then some .replace
  else if w = bytes ['a', 'p', 'p', 'e', 'n', 'd'] then some .append
  else if w = bytes ['p', 'r', 'e', 'p', 'e', 'n', 'd'] then some .prepend
  else none

def parseGet (withCas : Bool) (args : List Bytes) (rest : Bytes) : Option (TextCommand × Bytes) := do
  let keys ← args.mapM keyWord
  if keys = [] then none else some (.get withCas keys, rest)

def parseStore (verb : StoreVerb) : List Bytes → Bytes → Option (TextCommand × Bytes)
  | [key, flags, exptime, length], rest => do
    let key ← keyWord key
    let flags ← number flags
    let exptime ← number exptime
    let length ← number length
    let (data, rest) ← dataBlock length rest
    some (.store verb key flags exptime data, rest)
  | _, _ => none

def parseCas : List Bytes → Bytes → Option (TextCommand × Bytes)
  | [key, flags, exptime, length, unique], rest => do
    let key ← keyWord key
    let flags ← number flags
    let exptime ← number exptime
    let length ← number length
    let unique ← number unique
    let (data, rest) ← dataBlock length rest
    some (.cas key flags exptime unique data, rest)
  | _, _ => none

def parseDelete : List Bytes → Bytes → Option (TextCommand × Bytes)
  | [key], rest => do
    let key ← keyWord key
    some (.delete key 0, rest)
  | [key, time], rest => do
    let key ← keyWord key
    let time ← number time
    some (.delete key time, rest)
  | _, _ => none

/-- `incr` and `decr`. -/
def parseArithmetic (command : Bytes → Nat → TextCommand) :
    List Bytes → Bytes → Option (TextCommand × Bytes)
  | [key, delta], rest => do
    let key ← keyWord key
    let delta ← number delta
    some (command key delta, rest)
  | _, _ => none

def parseFlushAll : List Bytes → Bytes → Option (TextCommand × Bytes)
  | [], rest => some (.flushAll 0, rest)
  | [delay], rest => do
    let delay ← number delay
    some (.flushAll delay, rest)
  | _, _ => none

def parseVersion : List Bytes → Bytes → Option (TextCommand × Bytes)
  | [], rest => some (.version, rest)
  | _, _ => none

/-- The command a word stands for, with its arguments and the bytes behind the line. -/
def parseCommand (w : Bytes) (args : List Bytes) (rest : Bytes) : Option (TextCommand × Bytes) :=
  if w = bytes ['g', 'e', 't'] then parseGet false args rest
  else if w = bytes ['g', 'e', 't', 's'] then parseGet true args rest
  else if w = bytes ['c', 'a', 's'] then parseCas args rest
  else if w = bytes ['d', 'e', 'l', 'e', 't', 'e'] then parseDelete args rest
  else if w = bytes ['i', 'n', 'c', 'r'] then parseArithmetic .incr args rest
  else if w = bytes ['d', 'e', 'c', 'r'] then parseArithmetic .decr args rest
  else if w = bytes ['f', 'l', 'u', 's', 'h', '_', 'a', 'l', 'l'] then parseFlushAll args rest
  else if w = bytes ['v', 'e', 'r', 's', 'i', 'o', 'n'] then parseVersion args rest
  else if w = bytes ['s', 't', 'a', 't', 's'] then some (.stats args, rest)
  else
    match StoreVerb.ofWord w with
    | some verb => parseStore verb args rest
    | none => none

/-- The line without the CR of its CRLF. -/
def stripCr (line : Bytes) : Bytes := if line.getLast? = some 13 then line.dropLast else line

/-- **One command** at the start of the bytes, and the bytes behind it. -/
def parseText (s : Bytes) : Option (TextCommand × Bytes) :=
  match Words.splitFirst 10 s with
  | none => none
  | some (line, rest) =>
    match Words.split 32 (stripCr line) with
    | [] => none
    | w :: args => parseCommand w args rest

/-! ## Reading what was put together -/

/-- A word without white space. -/
def Plain (w : Bytes) : Prop := ∀ b ∈ w, 32 < b

instance decidablePlainWord (w : Bytes) : Decidable (Plain w) :=
  List.decidableBAll (fun b => 32 < b) w

theorem plain_decimal (n : Nat) : Plain (decimal n) := by
  intro b hb
  have hdigit := (isDigit_iff b).mp (isDigit_of_mem_decimal hb)
  rw [UInt8.lt_iff_toNat_lt]
  exact Nat.lt_of_lt_of_le (by decide) hdigit.1

/-- **A line of words** is read as the command of its first word; empty words are lost. -/
theorem parseText_line {w : Bytes} (hne : w ≠ []) {args : List Bytes}
    (h : ∀ v ∈ w :: args, Plain v) (rest : Bytes) :
    parseText (Words.join 32 (w :: args) ++ crlf ++ rest)
      = parseCommand w (args.filter fun v => v ≠ []) rest := by
  have hchars : ∀ b ∈ Words.join 32 (w :: args), b ≠ 10 ∧ b ≠ 13 := by
    intro b hb
    rcases Words.mem_join hb with rfl | ⟨v, hv, hbv⟩
    · decide
    · have hlt := h v hv b hbv
      constructor <;> rintro rfl <;> exact absurd hlt (by decide)
  have hline : (10 : UInt8) ∉ Words.join 32 (w :: args) ++ [13] := by
    rw [List.mem_append, not_or]
    exact ⟨fun hb => (hchars 10 hb).1 rfl, by decide⟩
  have hspace : ∀ v ∈ w :: args, (32 : UInt8) ∉ v := fun v hv hb =>
    absurd (h v hv 32 hb) (by decide)
  have hshape : Words.join 32 (w :: args) ++ crlf ++ rest
      = (Words.join 32 (w :: args) ++ [13]) ++ 10 :: rest := by
    simp [crlf]
  have hstrip : stripCr (Words.join 32 (w :: args) ++ [13]) = Words.join 32 (w :: args) := by
    rw [stripCr, List.getLast?_concat, if_pos rfl, List.dropLast_concat]
  unfold parseText
  rw [hshape, Words.splitFirst_append hline]
  dsimp only
  rw [hstrip, Words.split_join hspace, List.filter_cons_of_pos (by simpa using hne)]

@[simp]
theorem number_decimal (n : Nat) : number (decimal n) = some n := by
  have hdigits : (decimal n).all isDigit = true := by
    rw [List.all_eq_true]
    exact fun b hb => isDigit_of_mem_decimal hb
  rw [number, if_pos ⟨decimal_ne_nil n, hdigits⟩, digitsValue_decimal]

@[simp]
theorem dataBlock_append (data : Bytes) : dataBlock data.length (data ++ crlf) = some (data, []) := by
  simp [dataBlock, crlf]

end PeclMemcache
