import PeclMemcache.Datagrams
import PeclMemcache.ResultArrays
import PeclMemcache.Values

set_option autoImplicit false

/-! # A get of a key and a get of an array with this key

The two forms of `memcache_get` send different commands, over different transports, and have different
value handlers. What the get of a key returns is false where there is no value, and where there is one
that is false or null. -/

namespace PeclMemcache

variable {δ ω : Type} (C : Codec δ ω) (null : ω) (withCas : Bool)

/-! ## The value handlers -/

/-- The data that the parsers hand over, if a value is unpacked from it. -/
def handedOver (flags : Nat) (data : Bytes) : Option Bytes :=
  (mmcUnpackValue C data (UInt32.ofNat flags)).map fun _ => data

/-- The return value of the get of a key, and what is written to the arguments `flags` and `cas`. -/
structure GetAnswer (δ ω : Type) where
  value : Zval δ ω
  flags : Option Nat := none
  cas : Option Int := none

/-- The arrays of the get of an array. A numeric string becomes an integer key, which no other string
    does. -/
structure GetArrays (δ ω : Type) where
  values : Bytes → Option (Zval δ ω) := fun _ => none
  flags : Bytes → Option Nat := fun _ => none
  cas : Bytes → Option Int := fun _ => none

/-- `mmc_value_handler_single` with the value that is unpacked. -/
def GetAnswer.mmcValueHandlerSingle (a : GetAnswer δ ω) : HandlerCall → GetAnswer δ ω
  | .value _ data flags cas =>
    match mmcUnpackValue C data (UInt32.ofNat flags) with
    | some value =>
      { value, flags := some flags, cas := if withCas then some (zendLong cas) else a.cas }
    | none => a
  | .long _ n flags cas =>
    { value := .long (Int64.ofInt n), flags := some flags,
      cas := if withCas then some (zendLong cas) else a.cas }
  | .response .. => a

/-- `mmc_value_handler_multi` with the value that is unpacked. -/
def GetArrays.mmcValueHandlerMulti (b : GetArrays δ ω) : HandlerCall → GetArrays δ ω
  | .value key data flags cas =>
    match mmcUnpackValue C data (UInt32.ofNat flags) with
    | some value =>
      { values := Function.update b.values key (some value)
        flags := Function.update b.flags key (some flags)
        cas := if withCas then Function.update b.cas key (some (zendLong cas)) else b.cas }
    | none => b
  | .long key n flags cas =>
    { values := Function.update b.values key (some (.long (Int64.ofInt n)))
      flags := Function.update b.flags key (some flags)
      cas := if withCas then Function.update b.cas key (some (zendLong cas)) else b.cas }
  | .response .. => b

/-- `RETURN_FALSE` where the value is `NULL`. -/
def Zval.orFalse [DecidableEq ω] : Zval δ ω → Zval δ ω
  | .other v => if v = null then .bool false else .other v
  | v => v

/-- `memcache_get` of a key after the calls of its handler. -/
def memcacheGetKey [DecidableEq ω] (calls : List HandlerCall) : GetAnswer δ ω :=
  let a := calls.foldl (GetAnswer.mmcValueHandlerSingle C withCas) { value := .bool false }
  { a with value := a.value.orFalse null }

/-- `memcache_get` of an array after the calls of its handler; an array is not `NULL`. -/
def memcacheGetArray (calls : List HandlerCall) : GetArrays δ ω :=
  calls.foldl (GetArrays.mmcValueHandlerMulti C withCas) {}

/-! ## The calls -/

/-- How a reply comes in: in pieces over TCP, or in datagrams for the request, the pieces being their
    payloads. A request that is lost is sent over TCP. -/
inductive Delivered (reply : Bytes) : List Bytes → Prop
  | tcp {chunks : List Bytes} : chunks.flatten = reply → Delivered reply chunks
  | udp {reqid : Nat} {events : List UdpEvent} : Fitting (.opened reqid) events →
      (events.foldl UdpStream.after (.opened reqid)).available = reply →
      Delivered reply ((events.foldl UdpStream.after (.opened reqid)).accepted.map payload)

/-- The get of a key, which a server that is reachable reads and answers over TCP. -/
def KeyGet [DecidableEq ω] (p : WireProtocol) (s : Memcached) (zkey : ZKey) (a : GetAnswer δ ω) :
    Prop :=
  ∃ key q io chunks c calls result rest, mmcPrepareKeyEx zkey.str [] = some key ∧ io.input = [] ∧
    serverReads p (((ApiOperation.get withCas).command p zkey key).sent q) = some c ∧
    chunks.flatten = (ApiOperation.get withCas).reply p (ApiOperation.get withCas).opcode c
      (s.execute c).1 ∧
    Sees ((ApiOperation.get withCas).handlers (handedOver C))
      (((ApiOperation.get withCas).command p zkey key).awaiting q io chunks) calls result rest ∧
    a = memcacheGetKey C null withCas calls

/-- The get of an array with one key. -/
def ArrayGet (p : WireProtocol) (s : Memcached) (zkey : ZKey) (b : GetArrays δ ω) : Prop :=
  ∃ key m q io chunks reply calls result rest, mmcPrepareKeyEx zkey.str [] = some key ∧
    io.input = [] ∧
    s.answers p (((GetRequest.mk m [(zkey, key)]).command p withCas).sent q) = some reply ∧
    Delivered reply chunks ∧
    Sees (getHandlers (handedOver C))
      (((GetRequest.mk m [(zkey, key)]).command p withCas).awaiting q io chunks) calls result rest ∧
    b = memcacheGetArray C withCas calls

/-- What is stored under a key. -/
def storedValue (s : Memcached) (key : Bytes) : Option (Zval δ ω × Item) :=
  (s.items key).bind fun item => (mmcUnpackValue C item.data item.flags).map fun v => (v, item)

/-! ## What the calls lead to -/

/-- The answer for what is stored. -/
def keyAnswer [DecidableEq ω] (found : Option (Zval δ ω × Item)) : GetAnswer δ ω :=
  match found with
  | some (v, item) =>
    { value := v.orFalse null, flags := some item.flags.toNat,
      cas := if withCas then some (zendLong item.token.toNat) else none }
  | none => { value := .bool false }

/-- The arrays for what is stored under a key. -/
def arrayAnswer (key : Bytes) (found : Option (Zval δ ω × Item)) : GetArrays δ ω :=
  match found with
  | some (v, item) =>
    { values := Function.update (fun _ => none) key (some v)
      flags := Function.update (fun _ => none) key (some item.flags.toNat)
      cas := if withCas then Function.update (fun _ => none) key (some (zendLong item.token.toNat))
        else fun _ => none }
  | none => {}

variable {C}

/-- The handlers are called where a value is unpacked. -/
theorem valueCall_handedOver {H : Handlers} (hH : H.unpack = handedOver C) (key : Bytes) (item : Item)
    (cas : Nat) :
    H.valueCall key item.data item.flags.toNat cas
      = ((mmcUnpackValue C item.data item.flags).map fun _ =>
          HandlerCall.value key item.data item.flags.toNat cas).toList := by
  rw [Handlers.valueCall, hH, handedOver, UInt32.ofNat_toNat]
  cases mmcUnpackValue C item.data item.flags <;> rfl

variable {null withCas}

theorem memcacheGetKey_valueCall [DecidableEq ω] {H : Handlers} (hH : H.unpack = handedOver C)
    (key : Bytes) (item : Item) {cas : Nat} (hcas : withCas → cas = item.token.toNat) :
    memcacheGetKey C null withCas (H.valueCall key item.data item.flags.toNat cas)
      = keyAnswer null withCas ((mmcUnpackValue C item.data item.flags).map fun v => (v, item)) := by
  rw [valueCall_handedOver hH]
  cases hvalue : mmcUnpackValue C item.data item.flags with
  | none => rfl
  | some v =>
    have hflags : UInt32.ofNat item.flags.toNat = item.flags := UInt32.ofNat_toNat
    simp only [Option.map_some, Option.toList_some, memcacheGetKey, List.foldl_cons, List.foldl_nil,
      GetAnswer.mmcValueHandlerSingle, hflags, hvalue, keyAnswer]
    cases withCas with
    | false => simp only [Bool.false_eq_true, if_false]
    | true => simp only [if_true, hcas rfl]

theorem memcacheGetArray_valueCall {H : Handlers} (hH : H.unpack = handedOver C)
    (key : Bytes) (item : Item) {cas : Nat} (hcas : withCas → cas = item.token.toNat) :
    memcacheGetArray C withCas (H.valueCall key item.data item.flags.toNat cas)
      = arrayAnswer withCas key ((mmcUnpackValue C item.data item.flags).map fun v => (v, item)) := by
  rw [valueCall_handedOver hH]
  cases hvalue : mmcUnpackValue C item.data item.flags with
  | none => rfl
  | some v =>
    have hflags : UInt32.ofNat item.flags.toNat = item.flags := UInt32.ofNat_toNat
    simp only [Option.map_some, Option.toList_some, memcacheGetArray, List.foldl_cons, List.foldl_nil,
      GetArrays.mmcValueHandlerMulti, hflags, hvalue, arrayAnswer]
    cases withCas with
    | false => simp only [Bool.false_eq_true, if_false]
    | true => simp only [if_true, hcas rfl]

section KeyGet

variable [DecidableEq ω] {s : Memcached} {zkey : ZKey} {key : Bytes}

/-- The reply to the get of a key leads to the answer for what is stored, however it is cut. -/
theorem sees_keyAnswer (hplain : Plain key) (hword : keyWord key = some key) (hne : key ≠ [])
    (p : WireProtocol) (q : MmcRequest) {io : MmcStream} (hio : io.input = []) {chunks : List Bytes}
    (hchunks : chunks.flatten = (ApiOperation.get withCas).reply p (ApiOperation.get withCas).opcode
      (.get key) (s.execute (.get key)).1) :
    ∃ calls, (∀ calls' result rest, Sees ((ApiOperation.get withCas).handlers (handedOver C))
        (((ApiOperation.get withCas).command p zkey key).awaiting q io chunks) calls' result rest ↔
          result = .done ∧ calls = calls' ∧ [] = rest) ∧
      memcacheGetKey C null withCas calls = keyAnswer null withCas (storedValue C s key) := by
  rw [storedValue]
  cases hitem : s.items key with
  | none =>
    simp only [Memcached.execute, hitem] at hchunks
    cases p with
    | ascii =>
      refine ⟨[], fun calls' result rest => ?_, rfl⟩
      exact sees_endLine_iff ⟨hio, Or.inl rfl⟩ (by cases withCas <;> rfl)
        (by rw [List.append_nil]; exact hchunks) calls' result rest
    | binary =>
      have hawaits : AwaitsHeader .binaryParseValue
          (((ApiOperation.get withCas).command .binary zkey key).awaiting q io chunks) :=
        ⟨rfl, rfl, hio, rfl⟩
      refine ⟨[.response (binaryError 1) (bytes "Not found".toList) 9], fun calls' result rest => ?_, rfl⟩
      exact @AwaitsHeader.sees_status_iff _ _ hawaits _ MMC_OP_GET 1 0 (bytes "Not found".toList) []
        (by decide) (by decide) (by decide) (by decide) (by decide) (by decide)
        (by rw [List.append_nil]; exact hchunks) (by simp [ApiOperation.handlers]) calls' result rest
  | some item =>
    simp only [Memcached.execute, hitem] at hchunks
    rw [Option.bind_some]
    cases p with
    | ascii =>
      have hshort : item.data.length < 2 ^ 32 :=
        Nat.lt_of_le_of_lt (Nat.le_add_right _ 4) item.length_lt
      have htoken : ∀ t ∈ (if withCas then some item.token.toNat else none), t < 2 ^ 64 := by
        intro t ht
        split at ht
        · cases ht
          exact item.token.toNat_lt
        · cases ht
      refine ⟨_, fun calls' result rest => sees_asciiValue_iff hplain hne (keyWord_length hword)
        item.flags.toNat_lt hshort htoken hio rfl (by cases withCas <;> rfl)
        (by rw [← textReply_value]; exact hchunks) calls' result rest, ?_⟩
      refine memcacheGetKey_valueCall rfl key item fun hcas => ?_
      rw [if_pos hcas]
      rfl
    | binary =>
      have hawaits : AwaitsHeader .binaryParseValue
          (((ApiOperation.get withCas).command .binary zkey key).awaiting q io chunks) :=
        ⟨rfl, rfl, hio, rfl⟩
      refine ⟨_, fun calls' result rest => hawaits.sees_value_iff (by decide : 0 < 2 ^ 32)
        item.flags.toNat_lt item.token.toNat_lt item.length_lt
        (by rw [List.append_nil]; exact hchunks) calls' result rest, ?_⟩
      exact memcacheGetKey_valueCall rfl _ item fun _ => rfl

/-- **The get of a key** returns what is stored. -/
theorem keyGet_iff (hkey : mmcPrepareKeyEx zkey.str [] = some key) (p : WireProtocol)
    (a : GetAnswer δ ω) :
    KeyGet C null withCas p s zkey a ↔ a = keyAnswer null withCas (storedValue C s key) := by
  obtain ⟨hplain, hword, hnil⟩ := mmcPrepareKeyEx_spec (by decide) hkey
  have hne : key ≠ [] := by
    intro h
    have hwrap := hnil.mp h
    rw [List.length_nil] at hwrap
    omega
  have hreads : ∀ q, serverReads p (((ApiOperation.get withCas).command p zkey key).sent q)
      = some (.get key) := by
    intro q
    cases p with
    | ascii => exact serverReads_ascii hplain hword hne q zkey (.get withCas)
    | binary => exact @serverReads_binary key (keyWord_length hword) q zkey (.get withCas) trivial
  constructor
  · rintro ⟨key', q, io, chunks, c, calls, result, rest, hkey', hio, hc, hchunks, hsees, rfl⟩
    rw [hkey] at hkey'
    cases hkey'
    rw [hreads q] at hc
    cases hc
    obtain ⟨calls', hiff, hanswer⟩ := @sees_keyAnswer δ ω C null withCas _ s zkey key hplain hword hne p q
      io hio chunks hchunks
    obtain ⟨-, rfl, -⟩ := (hiff calls result rest).mp hsees
    exact hanswer
  · rintro rfl
    obtain ⟨calls, hiff, hanswer⟩ := @sees_keyAnswer δ ω C null withCas _ s zkey key hplain hword hne p {}
      {} rfl [_] (List.append_nil _)
    exact ⟨key, {}, {}, _, _, calls, .done, [], hkey, rfl, hreads {}, List.append_nil _,
      (hiff calls .done []).mpr ⟨rfl, rfl, rfl⟩, hanswer.symm⟩

end KeyGet

/-- The pieces make up the reply. -/
theorem Delivered.flatten {reply : Bytes} {chunks : List Bytes} (h : Delivered reply chunks) :
    chunks.flatten = reply := by
  cases h with
  | tcp hchunks => exact hchunks
  | @udp reqid events hfitting havailable =>
    rw [← List.flatMap_def, ← ((UdpStream.synced_opened reqid).afterAll hfitting).available,
      havailable]

/-- **The get of an array** returns what is stored under its key. -/
theorem arrayGet_iff {zkey : ZKey} (hkey : mmcPrepareKeyEx zkey.str [] = some zkey.str)
    (p : WireProtocol) (s : Memcached) (b : GetArrays δ ω) :
    ArrayGet C withCas p s zkey b ↔ b = arrayAnswer withCas zkey.str (storedValue C s zkey.str) := by
  obtain ⟨hplain, hword, hnil⟩ := mmcPrepareKeyEx_spec (by decide) hkey
  have hne : zkey.str ≠ [] := by
    intro h
    have hwrap := hnil.mp h
    rw [List.length_nil] at hwrap
    omega
  have hsendable (m : Mmc) : (GetRequest.mk m [(zkey, zkey.str)]).Sendable := by
    refine ⟨by simp, ?_, by simp, by simp⟩
    intro k hk
    obtain rfl := List.mem_singleton.mp hk
    exact ⟨hplain, hne, keyWord_length hword⟩
  have hanswer (m : Mmc) (cas : Nat) :
      memcacheGetArray C withCas
          ((GetRequest.mk m [(zkey, zkey.str)]).calls p (getHandlers (handedOver C)) withCas cas s)
        = arrayAnswer withCas zkey.str (storedValue C s zkey.str) := by
    rw [storedValue]
    cases p with
    | ascii =>
      simp only [GetRequest.calls, Memcached.textCalls, List.map_cons, List.map_nil, List.flatMap_cons,
        List.flatMap_nil, List.append_nil]
      cases s.items zkey.str with
      | none => rfl
      | some item => exact memcacheGetArray_valueCall rfl zkey.str item fun hcas => if_pos hcas
    | binary =>
      simp only [GetRequest.calls, Memcached.binaryCalls, List.flatMap_cons, List.flatMap_nil,
        List.append_nil]
      cases s.items zkey.str with
      | none => rfl
      | some item => exact memcacheGetArray_valueCall rfl zkey.str item fun _ => rfl
  constructor
  · rintro ⟨key, m, q, io, chunks, reply, calls, result, rest, hkey', hio, hreply, hdelivered, hsees, rfl⟩
    rw [hkey] at hkey'
    cases hkey'
    have hcalls := (@GetRequest.Sendable.answered_calls (handedOver C) withCas (fun _ => s) _
      (hsendable m) p).2
    obtain ⟨cas, rfl⟩ := hcalls calls
      ⟨q, io, chunks, reply, result, rest, hio, hreply, hdelivered.flatten, hsees⟩
    exact hanswer m cas
  · rintro rfl
    obtain ⟨⟨calls, hanswered⟩, hcalls⟩ := @GetRequest.Sendable.answered_calls (handedOver C) withCas
      (fun _ => s) _ (hsendable 0) p
    obtain ⟨cas, hsame⟩ := hcalls calls hanswered
    obtain ⟨q, io, chunks, reply, result, rest, hio, hreply, hchunks, hsees⟩ := hanswered
    exact ⟨_, 0, q, io, chunks, reply, calls, result, rest, hkey, hio, hreply, .tcp hchunks, hsees,
      by rw [hsame, hanswer 0 cas]⟩

/-! ## Agreement -/

/-- The two forms match: the get of a key returns the value that the array has for it, with its flags
    and its token, and what it returns is not false exactly when the array has a value. -/
structure GetsMatch (key : Bytes) (a : GetAnswer δ ω) (b : GetArrays δ ω) : Prop where
  value : ∀ v ∈ b.values key, a.value = v
  told : a.value ≠ .bool false ↔ b.values key ≠ none
  flags : a.flags = b.flags key
  cas : a.cas = b.cas key

variable (null) in
/-- They agree: the same but for null, which becomes false; and a value other than null and false is
    returned exactly when the array has it. -/
structure GetsAgree [DecidableEq ω] (key : Bytes) (a : GetAnswer δ ω) (b : GetArrays δ ω) : Prop where
  value : ∀ v ∈ b.values key, a.value = v.orFalse null
  miss : b.values key = none → a.value = .bool false
  told : ∀ v, v ≠ .bool false → v ≠ .other null → (a.value = v ↔ b.values key = some v)
  flags : a.flags = b.flags key
  cas : a.cas = b.cas key

theorem Zval.orFalse_of_ne [DecidableEq ω] {v : Zval δ ω} (h : v ≠ .other null) : v.orFalse null = v := by
  cases v with
  | other w => exact if_neg fun hw => h (congrArg Zval.other hw)
  | _ => rfl

theorem Zval.orFalse_eq_iff [DecidableEq ω] {v w : Zval δ ω} (hfalse : w ≠ .bool false)
    (hnull : w ≠ .other null) : v.orFalse null = w ↔ v = w := by
  by_cases hv : v = .other null
  · have hbool : v.orFalse null = .bool false := by
      rw [hv]
      exact if_pos rfl
    rw [hbool, hv]
    exact iff_of_false (Ne.symm hfalse) (Ne.symm hnull)
  · rw [orFalse_of_ne hv]

theorem arrayAnswer_values (key : Bytes) (found : Option (Zval δ ω × Item)) :
    (arrayAnswer withCas key found).values key = found.map Prod.fst := by
  cases found with
  | none => rfl
  | some found => simp [arrayAnswer]

theorem getsAgree_answers [DecidableEq ω] (key : Bytes) (found : Option (Zval δ ω × Item)) :
    GetsAgree null key (keyAnswer null withCas found) (arrayAnswer withCas key found) := by
  cases found with
  | none =>
    refine ⟨?_, fun _ => rfl, ?_, rfl, rfl⟩
    · rintro v ⟨⟩
    · intro v hfalse _
      exact iff_of_false (Ne.symm hfalse) (by rintro ⟨⟩)
  | some found =>
    obtain ⟨v, item⟩ := found
    have hvalue := @arrayAnswer_values δ ω withCas key (some (v, item))
    rw [Option.map_some] at hvalue
    refine ⟨?_, ?_, ?_, ?_, ?_⟩
    · intro w hw
      rw [hvalue] at hw
      cases hw
      rfl
    · intro hmiss
      rw [hvalue] at hmiss
      cases hmiss
    · intro w hfalse hnull
      rw [hvalue, Option.some.injEq]
      exact Zval.orFalse_eq_iff hfalse hnull
    · simp [keyAnswer, arrayAnswer]
    · cases withCas <;> simp [keyAnswer, arrayAnswer]

/-- **The two forms of the get agree** on what is stored under a key that is sent as it is, under both
    protocols. -/
theorem gets_agree [DecidableEq ω] {zkey : ZKey} (hkey : mmcPrepareKeyEx zkey.str [] = some zkey.str)
    (s : Memcached) :
    ∃ (a : GetAnswer δ ω) (b : GetArrays δ ω), (∀ p a', KeyGet C null withCas p s zkey a' ↔ a' = a) ∧
      (∀ p b', ArrayGet C withCas p s zkey b' ↔ b' = b) ∧ GetsAgree null zkey.str a b ∧
      b.values zkey.str = (storedValue C s zkey.str).map Prod.fst :=
  ⟨_, _, fun p => keyGet_iff hkey p, fun p => arrayGet_iff hkey p s, getsAgree_answers zkey.str _,
    arrayAnswer_values zkey.str _⟩

/-- A server with one item. -/
def serverHolding (flags : UInt32) (data : Bytes) : Memcached := (Memcached.put {} [107] flags data).2

theorem gets_agree_string : ∃ (a : GetAnswer Unit Unit) (b : GetArrays Unit Unit),
    (∀ p a', KeyGet sampleCodec () true p (serverHolding 0 [120]) ⟨1, [107]⟩ a' ↔ a' = a) ∧
      (∀ p b', ArrayGet sampleCodec true p (serverHolding 0 [120]) ⟨1, [107]⟩ b' ↔ b' = b) ∧
      GetsAgree () [107] a b ∧
      b.values [107] = (storedValue sampleCodec (serverHolding 0 [120]) [107]).map Prod.fst :=
  @gets_agree _ _ sampleCodec () true _ ⟨1, [107]⟩ (by decide) (serverHolding 0 [120])

/-- Null and false: the one is not what the get of the key returns, the other is what it returns for a
    key that is missing. -/
theorem nullAndFalse_not_match :
    (∃ a b, KeyGet sampleCodec () false .ascii (serverHolding MMC_SERIALIZED (bytes ['N', ';'])) ⟨1, [107]⟩ a ∧
      ArrayGet sampleCodec false .ascii (serverHolding MMC_SERIALIZED (bytes ['N', ';'])) ⟨1, [107]⟩ b ∧
      ¬GetsMatch [107] a b) ∧
    ∃ a b, KeyGet sampleCodec () false .ascii (serverHolding MMC_TYPE_BOOL [48]) ⟨1, [107]⟩ a ∧
      ArrayGet sampleCodec false .ascii (serverHolding MMC_TYPE_BOOL [48]) ⟨1, [107]⟩ b ∧
      ¬GetsMatch [107] a b := by
  have hkey : mmcPrepareKeyEx (ZKey.str ⟨1, [107]⟩) [] = some (ZKey.str ⟨1, [107]⟩) := by decide
  have hnull : ∃ item, storedValue sampleCodec (serverHolding MMC_SERIALIZED (bytes ['N', ';'])) [107]
      = some (.other (), item) := ⟨_, rfl⟩
  have hfalse : ∃ item, storedValue sampleCodec (serverHolding MMC_TYPE_BOOL [48]) [107]
      = some (.bool false, item) := ⟨_, rfl⟩
  obtain ⟨item, hnull⟩ := hnull
  obtain ⟨item', hfalse⟩ := hfalse
  refine ⟨⟨_, _, (keyGet_iff hkey .ascii _).mpr rfl, (arrayGet_iff hkey .ascii _ _).mpr rfl, ?_⟩,
    _, _, (keyGet_iff hkey .ascii _).mpr rfl, (arrayGet_iff hkey .ascii _ _).mpr rfl, ?_⟩
  · intro h
    have hvalue := h.value (.other ()) (by rw [arrayAnswer_values, hnull]; rfl)
    rw [hnull] at hvalue
    cases hvalue
  · intro h
    have htold := h.told.mpr (by rw [arrayAnswer_values, hfalse]; simp)
    rw [hfalse] at htold
    exact htold rfl

end PeclMemcache
