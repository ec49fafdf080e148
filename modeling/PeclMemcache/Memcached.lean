import PeclMemcache.Framing
import PeclMemcache.TextGrammar

set_option autoImplicit false

/-! # The server

What memcached does, as its protocol documents it: a store of items with flags and a token each, the
commands on it, and the two front ends that read a command from the bytes of a request and write the
reply. Commands are executed one after the other. -/

namespace PeclMemcache

/-! ## Items and commands -/

/-- The largest item. -/
def itemLimit : Nat := 2 ^ 20

structure Item where
  data : Bytes
  flags : UInt32
  token : UInt64
  small : data.length ≤ itemLimit

/-- The items by key, the last token given out and whether a flush is due at a later time. -/
structure Memcached where
  items : Bytes → Option Item := fun _ => none
  lastToken : UInt64 := 0
  flushPending : Bool := false

/-- A command on one key; `initial` is the value a counter is created with, if it may be. -/
inductive ServerCommand
  | get (key : Bytes)
  | store (verb : StoreVerb) (key : Bytes) (flags : UInt32) (data : Bytes)
  | cas (key : Bytes) (flags : UInt32) (data : Bytes) (unique : UInt64)
  | delete (key : Bytes)
  | incr (key : Bytes) (delta : Nat) (initial : Option UInt64)
  | decr (key : Bytes) (delta : Nat) (initial : Option UInt64)
  | flush (delay : Nat)

inductive Outcome
  | value (item : Item)
  | notFound
  | stored
  | notStored
  | differs
  | tooLarge
  | deleted
  | number (n : UInt64)
  | nonNumeric
  | ok

/-- Store an item under a new token. -/
def Memcached.put (s : Memcached) (key : Bytes) (flags : UInt32) (data : Bytes) :
    Outcome × Memcached :=
  if h : data.length ≤ itemLimit then
    (.stored, { s with
      items := Function.update s.items key (some ⟨data, flags, s.lastToken + 1, h⟩)
      lastToken := s.lastToken + 1 })
  else (.tooLarge, s)

/-- The value of a counter. -/
def Item.counter (item : Item) : Option UInt64 :=
  match number item.data with
  | some n => if n < 2 ^ 64 then some (UInt64.ofNat n) else none
  | none => none

/-- Change a counter with `f`, or create it. -/
def Memcached.change (s : Memcached) (key : Bytes) (f : UInt64 → UInt64) (initial : Option UInt64) :
    Outcome × Memcached :=
  match s.items key with
  | none =>
    match initial with
    | none => (.notFound, s)
    | some n => (.number n, (s.put key 0 (decimal n.toNat)).2)
  | some item =>
    match item.counter with
    | none => (.nonNumeric, s)
    | some n => (.number (f n), (s.put key item.flags (decimal (f n).toNat)).2)

/-- The execution of a command. -/
def Memcached.execute (s : Memcached) : ServerCommand → Outcome × Memcached
  | .get key =>
    match s.items key with
    | some item => (.value item, s)
    | none => (.notFound, s)
  | .store verb key flags data =>
    match verb, s.items key with
    | .set, _ => s.put key flags data
    | .add, none => s.put key flags data
    | .add, some _ => (.notStored, s)
    | .replace, some _ => s.put key flags data
    | .append, some item => s.put key item.flags (item.data ++ data)
    | .prepend, some item => s.put key item.flags (data ++ item.data)
    | _, none => (.notStored, s)
  | .cas key flags data unique =>
    match s.items key with
    | some item => if item.token = unique then s.put key flags data else (.differs, s)
    | none => (.notFound, s)
  | .delete key =>
    match s.items key with
    | some _ => (.deleted, { s with items := Function.update s.items key none })
    | none => (.notFound, s)
  | .incr key delta initial => s.change key (fun n => n + UInt64.ofNat delta) initial
  | .decr key delta initial =>
    s.change key (fun n => UInt64.ofNat (n.toNat - delta)) initial
  | .flush delay =>
    if delay = 0 then (.ok, { s with items := fun _ => none, flushPending := false })
    else (.ok, { s with flushPending := true })

/-! ## The text front end -/

/-- The command on one key a text command is. -/
def TextCommand.toServer : TextCommand → Option ServerCommand
  | .get _ [key] => some (.get key)
  | .get _ _ => none
  | .store verb key flags _ data => some (.store verb key (UInt32.ofNat flags) data)
  | .cas key flags _ unique data => some (.cas key (UInt32.ofNat flags) data (UInt64.ofNat unique))
  | .delete key _ => some (.delete key)
  | .incr key delta => some (.incr key delta none)
  | .decr key delta => some (.decr key delta none)
  | .flushAll delay => some (.flush delay)
  | .version => none
  | .stats _ => none

/-- The reply to a text command: a line, or a value and the closing line. -/
def textReply (withCas : Bool) : ServerCommand → Outcome → Bytes
  | .get key, .value item =>
    let token := if withCas then [decimal item.token.toNat] else []
    Words.join 32 (bytes ['V', 'A', 'L', 'U', 'E'] :: key :: decimal item.flags.toNat ::
        decimal item.data.length :: token) ++ crlf ++ item.data ++ crlf
      ++ bytes ['E', 'N', 'D'] ++ crlf
  | .get _, _ => bytes ['E', 'N', 'D'] ++ crlf
  | _, .stored => bytes ['S', 'T', 'O', 'R', 'E', 'D'] ++ crlf
  | _, .notStored => bytes ['N', 'O', 'T', '_', 'S', 'T', 'O', 'R', 'E', 'D'] ++ crlf
  | _, .differs => bytes ['E', 'X', 'I', 'S', 'T', 'S'] ++ crlf
  | _, .notFound => bytes ['N', 'O', 'T', '_', 'F', 'O', 'U', 'N', 'D'] ++ crlf
  | _, .tooLarge => bytes "SERVER_ERROR object too large for cache".toList ++ crlf
  | _, .deleted => bytes ['D', 'E', 'L', 'E', 'T', 'E', 'D'] ++ crlf
  | _, .number n => decimal n.toNat ++ crlf
  | _, .nonNumeric =>
    bytes "CLIENT_ERROR cannot increment or decrement non-numeric value".toList ++ crlf
  | _, .ok => bytes ['O', 'K'] ++ crlf
  | _, .value _ => bytes ['E', 'R', 'R', 'O', 'R'] ++ crlf

/-! ## The binary front end -/

/-- A request frame. -/
structure BinaryFrame where
  opcode : Nat
  reqid : Nat
  cas : Nat
  extras : Bytes
  key : Bytes
  value : Bytes
  deriving DecidableEq, Repr

/-- The frame at the start of the bytes, and the bytes behind it. -/
def parseFrame (s : Bytes) : Option (BinaryFrame × Bytes) :=
  let keyLen := ofBigEndian ((s.drop 2).take 2)
  let extrasLen := ofBigEndian ((s.drop 4).take 1)
  let total := ofBigEndian ((s.drop 8).take 4)
  let body := s.drop binaryHeaderSize
  if s.take 1 = [0x80] ∧ binaryHeaderSize ≤ s.length ∧ extrasLen + keyLen ≤ total
      ∧ total ≤ body.length then
    some ({
      opcode := ofBigEndian ((s.drop 1).take 1)
      reqid := ofBigEndian ((s.drop 12).take 4)
      cas := ofBigEndian ((s.drop 16).take 8)
      extras := body.take extrasLen
      key := (body.drop extrasLen).take keyLen
      value := (body.take total).drop (extrasLen + keyLen) }, body.drop total)
  else none

/-- The initial value of a counter: an expiration of all ones forbids to create it. -/
def BinaryFrame.initial (f : BinaryFrame) : Option UInt64 :=
  if ofBigEndian ((f.extras.drop 16).take 4) = 2 ^ 32 - 1 then none
  else some (UInt64.ofNat (ofBigEndian ((f.extras.drop 8).take 8)))

/-- The command a frame is. A token that is not 0 makes a set conditional. -/
def BinaryFrame.toServer (f : BinaryFrame) : Option ServerCommand :=
  let flags := UInt32.ofNat (ofBigEndian (f.extras.take 4))
  let delta := ofBigEndian (f.extras.take 8)
  if f.opcode = MMC_OP_GET then some (.get f.key)
  else if f.opcode = MMC_OP_SET then
    if f.cas = 0 then some (.store .set f.key flags f.value)
    else some (.cas f.key flags f.value (UInt64.ofNat f.cas))
  else if f.opcode = MMC_OP_DELETE then some (.delete f.key)
  else if f.opcode = MMC_OP_INCR then some (.incr f.key delta f.initial)
  else if f.opcode = MMC_OP_DECR then some (.decr f.key delta f.initial)
  else if f.opcode = MMC_OP_FLUSH then some (.flush (ofBigEndian f.extras))
  else if f.cas ≠ 0 then none
  else if f.opcode = MMC_OP_ADD then some (.store .add f.key flags f.value)
  else if f.opcode = MMC_OP_REPLACE then some (.store .replace f.key flags f.value)
  else if f.opcode = MMC_BIN_OP_APPEND then some (.store .append f.key 0 f.value)
  else if f.opcode = MMC_BIN_OP_PREPEND then some (.store .prepend f.key 0 f.value)
  else none

/-- A reply with a status and a text. -/
def errorReply (opcode reqid status : Nat) (text : List Char) : Bytes :=
  responseHeader opcode 0 status text.length reqid 0 ++ bytes text

/-- The reply to a binary command. -/
def binaryReply (opcode reqid : Nat) : ServerCommand → Outcome → Bytes
  | _, .value item =>
    responseHeader opcode 4 0 (item.data.length + 4) reqid item.token.toNat
      ++ bigEndian 4 item.flags.toNat ++ item.data
  | _, .number n => responseHeader opcode 0 0 8 reqid 0 ++ bigEndian 8 n.toNat
  | .store .add _ _ _, .notStored => errorReply opcode reqid 2 "Data exists for key.".toList
  | .store .replace _ _ _, .notStored => errorReply opcode reqid 1 "Not found".toList
  | _, .notStored => errorReply opcode reqid 5 "Not stored.".toList
  | _, .differs => errorReply opcode reqid 2 "Data exists for key.".toList
  | _, .notFound => errorReply opcode reqid 1 "Not found".toList
  | _, .tooLarge => errorReply opcode reqid 3 "Too large.".toList
  | _, .nonNumeric =>
    errorReply opcode reqid 6 "Non-numeric server-side value for incr or decr".toList
  | _, .stored => responseHeader opcode 0 0 0 reqid 0
  | _, .deleted => responseHeader opcode 0 0 0 reqid 0
  | _, .ok => responseHeader opcode 0 0 0 reqid 0

/-! ## Reading a packed frame -/

theorem bigEndian_two (x : Nat) : ∃ a b, bigEndian 2 x = [a, b] := ⟨_, _, rfl⟩

theorem bigEndian_four (x : Nat) : ∃ a b c d, bigEndian 4 x = [a, b, c, d] := ⟨_, _, _, _, rfl⟩

theorem bigEndian_eight (x : Nat) : ∃ a b c d e f g h, bigEndian 8 x = [a, b, c, d, e, f, g, h] :=
  ⟨_, _, _, _, _, _, _, _, rfl⟩

/-- **A packed frame is read back.** -/
theorem parseFrame_mmcPackHeader {opcode reqid cas : Nat} {extras key value : Bytes}
    (hopcode : opcode < 256) (hreqid : reqid < 2 ^ 32) (hcas : cas < 2 ^ 64)
    (hextras : extras.length < 256) (hkey : key.length < 2 ^ 16)
    (htotal : key.length + extras.length + value.length < 2 ^ 32) (rest : Bytes) :
    parseFrame (mmcPackHeader opcode reqid key.length extras.length value.length cas
        ++ (extras ++ key ++ value ++ rest))
      = some ({ opcode, reqid, cas, extras, key, value }, rest) := by
  obtain ⟨k₁, k₂, hk⟩ := bigEndian_two key.length
  obtain ⟨t₁, t₂, t₃, t₄, ht⟩ := bigEndian_four (key.length + extras.length + value.length)
  obtain ⟨r₁, r₂, r₃, r₄, hr⟩ := bigEndian_four reqid
  obtain ⟨c₁, c₂, c₃, c₄, c₅, c₆, c₇, c₈, hc⟩ := bigEndian_eight cas
  have hkeyLen : ofBigEndian [k₁, k₂] = key.length := by
    rw [← hk, ofBigEndian_bigEndian_of_lt 2 hkey]
  have htotalLen : ofBigEndian [t₁, t₂, t₃, t₄] = key.length + extras.length + value.length := by
    rw [← ht, ofBigEndian_bigEndian_of_lt 4 htotal]
  have hreqid' : ofBigEndian [r₁, r₂, r₃, r₄] = reqid := by
    rw [← hr, ofBigEndian_bigEndian_of_lt 4 hreqid]
  have hcas' : ofBigEndian [c₁, c₂, c₃, c₄, c₅, c₆, c₇, c₈] = cas := by
    rw [← hc, ofBigEndian_bigEndian_of_lt 8 hcas]
  have hdigit : ∀ x < 256, ofBigEndian [UInt8.ofNat x] = x := by
    intro x hx
    simp [ofBigEndian, Nat.mod_eq_of_lt hx]
  simp only [mmcPackHeader, hk, ht, hr, hc, List.cons_append, List.nil_append]
  simp only [parseFrame, binaryHeaderSize, List.drop_succ_cons, List.drop_zero, List.take_succ_cons,
    List.take_zero, hkeyLen, htotalLen, hreqid', hcas', hdigit opcode hopcode,
    hdigit extras.length hextras, List.length_cons, List.length_append]
  rw [if_pos ⟨trivial, by omega, by omega, by omega⟩]
  have hext : (extras ++ key ++ value ++ rest).take extras.length = extras := by
    rw [List.append_assoc, List.append_assoc, List.take_left]
  have hkey' : ((extras ++ key ++ value ++ rest).drop extras.length).take key.length = key := by
    rw [List.append_assoc, List.append_assoc, List.drop_left, List.take_left]
  have hlen : key.length + extras.length + value.length = (extras ++ key ++ value).length := by
    rw [List.length_append, List.length_append]
    omega
  have hvalue : ((extras ++ key ++ value ++ rest).take
      (key.length + extras.length + value.length)).drop (extras.length + key.length) = value := by
    rw [hlen, List.take_left, ← List.length_append, List.drop_left]
  have hrest : (extras ++ key ++ value ++ rest).drop
      (key.length + extras.length + value.length) = rest := by
    rw [hlen, List.drop_left]
  rw [hext, hkey', hvalue, hrest]

end PeclMemcache
