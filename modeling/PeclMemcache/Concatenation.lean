import PeclMemcache.Values
import PeclMemcache.Parity

set_option autoImplicit false

/-! # Appending and prepending

A string that is appended or prepended is packed like one that is set. What `mmc_compress` makes of it
is recorded in the flags, which the server takes from a set alone. -/

namespace PeclMemcache

variable {δ ω : Type}

/-! ## Scripts -/

/-- A call of `memcache_append` or `memcache_prepend`. -/
structure Extension where
  inFront : Bool
  exptime : Nat
  string : Bytes

/-- What the call should make of a value. -/
def Extension.apply (value : Bytes) (e : Extension) : Bytes :=
  if e.inFront then e.string ++ value else value ++ e.string

/-- `MMC_OP_APPEND` or `MMC_OP_PREPEND`. -/
def Extension.verb (e : Extension) : StoreVerb := if e.inFront then .prepend else .append

/-- A string is set with some flags, it is extended with the default flags, and the result is read. -/
structure StringScript (δ ω : Type) where
  codec : Codec δ ω
  compression : CompressSettings
  protocol : WireProtocol
  keyPrefix : Bytes
  room : keyPrefix.length ≤ MMC_MAX_KEY_LEN
  zkey : ZKey
  flags : UInt32
  exptime : Nat
  string : Bytes
  extensions : List Extension
  withCas : Bool

namespace StringScript

variable (S : StringScript δ ω)

/-- The packed string and its flags. -/
def pack (flags : UInt32) (s : Bytes) : Option (Bytes × UInt32) :=
  (mmcPackValue S.codec S.compression {} (.string s) flags).map fun p => (p.1.value, p.2)

/-- `php_mmc_store` with a string; nothing is sent if it cannot be packed. -/
def store (verb : StoreVerb) (exptime : Nat) (flags : UInt32) (s : Bytes) : Option ScriptStep :=
  (S.pack flags s).map fun p => .operation S.zkey (.store verb exptime p.2 p.1)

/-- The operations of the script. -/
def steps : Option (List ScriptStep) := do
  let set ← S.store .set S.exptime S.flags S.string
  let extend ← S.extensions.mapM fun e => S.store e.verb e.exptime 0 e.string
  return set :: extend ++ [.operation S.zkey (.get S.withCas)]

/-- The string in an item, as the parsers hand it to the value handler. -/
def unpack (flags : Nat) (data : Bytes) : Option Bytes :=
  match mmcUnpackValue S.codec data (UInt32.ofNat flags) with
  | some (.string value) => some value
  | _ => none

/-- The prepended strings, the string that was set and the appended ones. -/
def concatenation : Bytes := S.extensions.foldl Extension.apply S.string

/-- The answers to strings that were stored, and the one to the get. -/
def answersTo (extensions : List Extension) (answer : Answer) : List Answer :=
  extensions.map (fun _ => ⟨.bool true, false⟩) ++ [answer]

/-- If all strings were stored, the get returns their concatenation. -/
def Concatenates : Prop :=
  ∀ s₀ steps answer s', S.steps = some steps →
    Conversation S.protocol S.unpack S.keyPrefix s₀ steps
      (⟨.bool true, false⟩ :: answersTo S.extensions answer) s' →
    ∃ flags cas, answer = ⟨.value S.concatenation flags cas, false⟩

/-- The string is stored compressed: this is asked for or it is long enough, and zlib saves enough. -/
def Compresses (flags : UInt32) (s : Bytes) : Prop :=
  (flags &&& MMC_COMPRESSED ≠ 0 ∨
      S.compression.threshold ≠ 0 ∧ S.compression.threshold.toNat ≤ s.length) ∧
    S.codec.compress (S.compression.resultLen s.length) s ≠ none

/-- The condition. No string of an append or a prepend is compressed, nor the one that is set unless it
    is extended by empty strings only. The lengths of the strings fit into an `int`, and what is set
    into a frame; the key is not empty. -/
structure Plain : Prop where
  key : mmcPrepareKeyEx S.zkey.str S.keyPrefix ≠ some []
  string : S.string.length < 2 ^ 31
  frame : ∀ packed ∈ S.codec.compress (S.compression.resultLen S.string.length) S.string,
    packed.length + 258 < 2 ^ 32
  set : S.Compresses S.flags S.string → ∀ e ∈ S.extensions, e.string = []
  extensions : ∀ e ∈ S.extensions, e.string.length < 2 ^ 31 ∧ ¬S.Compresses 0 e.string

end StringScript

/-! ## Strings that are not compressed -/

/-- Flags under which data is a string as it is. -/
def Verbatim (C : Codec δ ω) (flags : UInt32) : Prop :=
  ∀ data, mmcUnpackValue C data flags = some (.string data)

theorem verbatim_of_flags {C : Codec δ ω} {flags f : UInt32}
    (hcompressed : f &&& MMC_COMPRESSED = 0) (hkind : KindFlags flags MMC_TYPE_STRING f) :
    Verbatim C f := by
  intro data
  have hexpand : expanded C data f = some data := by
    rw [expanded, if_neg (by simp [hcompressed])]
  rw [mmcUnpackValue, hexpand]
  dsimp only
  rw [hkind.serialized, hkind.type]
  rfl

/-- A string that zlib is not asked for, or that it does not make short enough, stays as it is. -/
theorem mmcCompress_of_not_compresses {C : Codec δ ω} {pool : CompressSettings} {value : Bytes}
    (hlen : value.length < 2 ^ 31) {flags : UInt32}
    (h : flags &&& MMC_COMPRESSED ≠ 0 ∨ pool.threshold ≠ 0 ∧ pool.threshold.toNat ≤ value.length →
      C.compress (pool.resultLen value.length) value = none) (buffer : MmcBuffer) :
    ∃ f, mmcCompress C pool buffer value flags false = (buffer.append value, f) ∧
      f &&& MMC_COMPRESSED = 0 ∧ f &&& ~~~MMC_COMPRESSED = flags &&& ~~~MMC_COMPRESSED := by
  have hmod : value.length % 2 ^ 32 = value.length := Nat.mod_eq_of_lt (by omega)
  unfold mmcCompress
  simp only [hmod, List.take_length]
  generalize hauto : (if pool.threshold ≠ 0 ∧ pool.threshold.toNat ≤ value.length
    then flags ||| MMC_COMPRESSED else flags) = f
  have hf : f &&& ~~~MMC_COMPRESSED = flags &&& ~~~MMC_COMPRESSED := by
    subst hauto
    split
    · rw [or_and_distrib, UInt32.and_not_self, UInt32.or_zero]
    · rfl
  by_cases hset : f &&& MMC_COMPRESSED ≠ 0
  · have hnone : C.compress (pool.resultLen value.length) value = none := by
      refine h ?_
      by_contra hplain
      obtain ⟨hflags, hshort⟩ := not_or.mp hplain
      rw [if_neg hshort] at hauto
      exact hflags (hauto ▸ hset)
    rw [if_pos hset, hnone]
    refine ⟨f &&& ~~~MMC_COMPRESSED, rfl, ?_, ?_⟩
    · rw [UInt32.and_assoc, UInt32.not_and_self, UInt32.and_zero]
    · rw [UInt32.and_assoc, UInt32.and_self, hf]
  · rw [if_neg hset]
    exact ⟨f, rfl, not_not.mp hset, hf⟩

namespace StringScript

variable {S : StringScript δ ω}

/-- What packing a string does: its compression, with flags that have the type of a string. -/
theorem pack_eq_some {flags f : UInt32} {s packed : Bytes} (h : S.pack flags s = some (packed, f)) :
    flags &&& 0xffff &&& ~~~MMC_COMPRESSED = 0 ∧ ∃ buffer,
      mmcCompress S.codec S.compression {} s ((flags &&& ~~~MMC_SERIALIZED) ||| MMC_TYPE_STRING) false
        = (buffer, f) ∧ buffer.value = packed := by
  obtain ⟨⟨buffer, f'⟩, hpack, hp⟩ := Option.map_eq_some_iff.mp h
  cases hp
  unfold mmcPackValue at hpack
  split at hpack
  · cases hpack
  · rename_i hlow
    exact ⟨not_not.mp hlow, buffer, Option.some.inj hpack, rfl⟩

/-- A packed string is unpacked to itself. -/
theorem pack_spec (hC : S.codec.Lawful) {flags f : UInt32} {s packed : Bytes}
    (hlen : s.length < 2 ^ 31) (h : S.pack flags s = some (packed, f)) :
    mmcUnpackValue S.codec packed f = some (.string s) := by
  obtain ⟨hlow, buffer, hcompress, rfl⟩ := pack_eq_some h
  obtain ⟨appended, f', hspec, hexpand, hmask⟩ := mmcCompress_spec hC S.compression {} {} hlen
    ((flags &&& ~~~MMC_SERIALIZED) ||| MMC_TYPE_STRING) false rfl
  cases hcompress.symm.trans hspec
  have hkind := kindFlags_of_masked hlow (by decide) hmask
  have happended : (({} : MmcBuffer).append appended).value = appended := rfl
  rw [mmcUnpackValue, happended, hexpand]
  dsimp only
  rw [hkind.serialized, hkind.type]
  rfl

/-- A string that is not compressed is packed as it is. -/
theorem pack_of_not_compresses {flags f : UInt32} {s packed : Bytes} (hlen : s.length < 2 ^ 31)
    (hplain : ¬S.Compresses flags s) (h : S.pack flags s = some (packed, f)) :
    packed = s ∧ Verbatim S.codec f := by
  obtain ⟨hlow, buffer, hcompress, rfl⟩ := pack_eq_some h
  have hbit : ((flags &&& ~~~MMC_SERIALIZED) ||| MMC_TYPE_STRING) &&& MMC_COMPRESSED
      = flags &&& MMC_COMPRESSED := by
    rw [or_and_distrib, UInt32.and_assoc]
    exact UInt32.or_zero
  have hnone : ((flags &&& ~~~MMC_SERIALIZED) ||| MMC_TYPE_STRING) &&& MMC_COMPRESSED ≠ 0 ∨
      S.compression.threshold ≠ 0 ∧ S.compression.threshold.toNat ≤ s.length →
      S.codec.compress (S.compression.resultLen s.length) s = none := by
    rw [hbit]
    intro hasked
    by_contra hsome
    exact hplain ⟨hasked, hsome⟩
  obtain ⟨f', hspec, hcompressed, hmask⟩ := mmcCompress_of_not_compresses hlen hnone {}
  cases hcompress.symm.trans hspec
  exact ⟨rfl, verbatim_of_flags hcompressed (kindFlags_of_masked hlow (by decide) hmask)⟩

/-- What is stored fits into a frame if the string does and what zlib makes of it. -/
theorem pack_length {flags f : UInt32} {s packed : Bytes} (hlen : s.length < 2 ^ 31)
    (hframe : ∀ packed ∈ S.codec.compress (S.compression.resultLen s.length) s,
      packed.length + 258 < 2 ^ 32) (h : S.pack flags s = some (packed, f)) :
    packed.length + 258 < 2 ^ 32 := by
  obtain ⟨-, buffer, hcompress, rfl⟩ := pack_eq_some h
  have hmod : s.length % 2 ^ 32 = s.length := Nat.mod_eq_of_lt (by omega)
  have hsmall : (({} : MmcBuffer).append s).value.length + 258 < 2 ^ 32 := by
    have hvalue : (({} : MmcBuffer).append s).value = s := rfl
    rw [hvalue]
    omega
  unfold mmcCompress at hcompress
  simp only [hmod, List.take_length] at hcompress
  generalize (if S.compression.threshold ≠ 0 ∧ S.compression.threshold.toNat ≤ s.length then
    _ else _ : UInt32) = asked at hcompress
  split at hcompress
  · cases hresult : S.codec.compress (S.compression.resultLen s.length) s with
    | some result =>
      rw [hresult] at hcompress
      cases hcompress
      exact hframe result hresult
    | none =>
      rw [hresult] at hcompress
      cases hcompress
      exact hsmall
  · cases hcompress
    exact hsmall

/-! ## Runs -/

/-- The item holds the value, as it is or with nothing but empty strings to come. -/
def Holds (S : StringScript δ ω) (item : Item) (value : Bytes) (rest : List Extension) : Prop :=
  mmcUnpackValue S.codec item.data item.flags = some (.string value) ∧
    (item.data = value ∧ Verbatim S.codec item.flags ∨ ∀ e ∈ rest, e.string = [])

/-- What a store leaves that has succeeded. -/
theorem put_of_true {s : Memcached} {verb : StoreVerb} {exptime : Nat} {flags : UInt32}
    {value : Bytes} {unpack : Nat → Bytes → Option Bytes} {key : Bytes} {flags' : UInt32}
    {data : Bytes} (h : (ApiOperation.store verb exptime flags value).answer unpack
      (s.put key flags' data).1 = some (.bool true)) :
    ∃ item, (s.put key flags' data).2.items key = some item ∧ item.data = data ∧
      item.flags = flags' := by
  unfold Memcached.put at h ⊢
  split
  · exact ⟨_, Function.update_self .., rfl, rfl⟩
  · rename_i hlarge
    rw [dif_neg hlarge] at h
    simp [ApiOperation.answer] at h

theorem conversation_cons {p : WireProtocol} {unpack : Nat → Bytes → Option Bytes} {keyPrefix : Bytes}
    {s s' : Memcached} {step : ScriptStep} {steps : List ScriptStep} {all : List Answer}
    (h : Conversation p unpack keyPrefix s (step :: steps) all s') :
    ∃ answers answers' s₁, all = answers ++ answers' ∧ Exchange p unpack keyPrefix s step answers s₁ ∧
      Conversation p unpack keyPrefix s₁ steps answers' s' := by
  cases h with
  | cons first later => exact ⟨_, _, _, rfl, first, later⟩

/-- The get returns the value of the item. -/
theorem conversation_get {key value : Bytes} {item : Item} {s s' : Memcached} {answers : List Answer}
    (hkey : mmcPrepareKeyEx S.zkey.str S.keyPrefix = some key) (hne : key ≠ [])
    (hitem : s.items key = some item) {rest : List Extension} (hholds : S.Holds item value rest)
    (hrun : Conversation S.protocol S.unpack S.keyPrefix s [.operation S.zkey (.get S.withCas)]
      answers s') : ∃ flags cas, answers = [⟨.value value flags cas, false⟩] := by
  have hunpack : S.unpack item.flags.toNat item.data = some value := by
    rw [unpack, UInt32.ofNat_toNat, hholds.1]
  have hagrees : (ApiOperation.get S.withCas).Agrees s key := ⟨trivial, hne⟩
  have hr : (ApiOperation.get S.withCas).answer S.unpack
      (s.execute ((ApiOperation.get S.withCas).serverCommand .ascii key)).1
      = some (.value value item.flags.toNat
          (if S.withCas then some (zendLong item.token.toNat) else none)) := by
    simp only [ApiOperation.serverCommand, Memcached.execute, hitem, ApiOperation.answer, hunpack]
  cases hrun with
  | cons first later =>
    cases later
    obtain ⟨rfl, -⟩ := (hagrees.exchange_iff S.room hkey hr _ _ _).mp first
    exact ⟨_, _, rfl⟩

/-- A store that has succeeded leaves its data in the item. -/
theorem exchange_store {key : Bytes} {s s' : Memcached} {verb : StoreVerb} {exptime : Nat}
    {flags flags' : UInt32} {packed data : Bytes} {answers : List Answer}
    (hkey : mmcPrepareKeyEx S.zkey.str S.keyPrefix = some key)
    (hagrees : (ApiOperation.store verb exptime flags packed).Agrees s key)
    (hput : s.execute ((ApiOperation.store verb exptime flags packed).serverCommand .ascii key)
      = s.put key flags' data)
    (hexchange : Exchange S.protocol S.unpack S.keyPrefix s
      (.operation S.zkey (.store verb exptime flags packed)) answers s') :
    ∃ r, answers = [⟨r, false⟩] ∧ (r = .bool true → ∃ item, s'.items key = some item ∧
      item.data = data ∧ item.flags = flags') := by
  obtain ⟨r, hr⟩ := hagrees.answer S.unpack
  obtain ⟨rfl, rfl⟩ := (hagrees.exchange_iff S.room hkey hr _ _ _).mp hexchange
  refine ⟨r, rfl, ?_⟩
  rintro rfl
  rw [hput] at hr ⊢
  exact put_of_true hr

/-- What an extension leaves in the item. -/
theorem holds_extend {e : Extension} {rest : List Extension} {item item' : Item} {value packed : Bytes}
    (hholds : S.Holds item value (e :: rest)) (hpacked : packed = e.string)
    (hdata : item'.data = if e.inFront then packed ++ item.data else item.data ++ packed)
    (hflags : item'.flags = item.flags) : S.Holds item' (e.apply value) rest := by
  subst hpacked
  obtain ⟨hvalue, ⟨hsame, hverbatim⟩ | hempty⟩ := hholds
  · have hdata' : item'.data = e.apply value := by
      rw [hdata, hsame, Extension.apply]
    refine ⟨?_, Or.inl ⟨hdata', hflags ▸ hverbatim⟩⟩
    rw [hdata', hflags, hverbatim]
  · obtain ⟨hnil, hrest⟩ := List.forall_mem_cons.mp hempty
    have hdata' : item'.data = item.data := by
      rw [hdata, hnil]
      simp
    have hvalue' : e.apply value = value := by
      rw [Extension.apply, hnil]
      simp
    refine ⟨?_, Or.inr hrest⟩
    rw [hdata', hflags, hvalue', hvalue]

/-- **The extensions**, by induction on them: the get behind them returns what they should make of the
    value. -/
theorem conversation_extensions {key : Bytes}
    (hkey : mmcPrepareKeyEx S.zkey.str S.keyPrefix = some key) (hne : key ≠ [])
    (extensions : List Extension)
    (hplain : ∀ e ∈ extensions, e.string.length < 2 ^ 31 ∧ ¬S.Compresses 0 e.string) :
    ∀ (s s' : Memcached) (steps : List ScriptStep) (item : Item) (value : Bytes) (answer : Answer),
      extensions.mapM (fun e => S.store e.verb e.exptime 0 e.string) = some steps →
      s.items key = some item → S.Holds item value extensions →
      Conversation S.protocol S.unpack S.keyPrefix s
        (steps ++ [.operation S.zkey (.get S.withCas)]) (answersTo extensions answer) s' →
      ∃ flags cas, answer = ⟨.value (extensions.foldl Extension.apply value) flags cas, false⟩ := by
  induction extensions with
  | nil =>
    intro s s' steps item value answer hsteps hitem hholds hrun
    cases hsteps
    obtain ⟨flags, cas, hanswer⟩ := conversation_get hkey hne hitem hholds hrun
    exact ⟨flags, cas, List.head_eq_of_cons_eq hanswer⟩
  | cons e rest ih =>
    intro s s' steps item value answer hsteps hitem hholds hrun
    obtain ⟨⟨hlen, hnot⟩, hrest⟩ := List.forall_mem_cons.mp hplain
    rw [List.mapM_cons] at hsteps
    obtain ⟨step, hstep, hsteps⟩ := Option.bind_eq_some_iff.mp hsteps
    obtain ⟨steps', hsteps', hcons⟩ := Option.bind_eq_some_iff.mp hsteps
    cases hcons
    obtain ⟨⟨packed, f⟩, hpack, rfl⟩ := Option.map_eq_some_iff.mp hstep
    obtain ⟨hpacked, -⟩ := pack_of_not_compresses hlen hnot hpack
    have hsome : s.items key ≠ none := by rw [hitem]; simp
    have hagrees : (ApiOperation.store e.verb e.exptime f packed).Agrees s key := by
      refine ⟨?_, hne, Or.inr (Or.inr hsome)⟩
      change packed.length + 258 < 2 ^ 32
      rw [hpacked]
      omega
    have hput : s.execute ((ApiOperation.store e.verb e.exptime f packed).serverCommand .ascii key)
        = s.put key item.flags (if e.inFront then packed ++ item.data else item.data ++ packed) := by
      unfold Extension.verb
      cases e.inFront <;> simp [ApiOperation.serverCommand, Memcached.execute, hitem]
    obtain ⟨answers, answers', s₁, hanswers, hfirst, hlater⟩ := conversation_cons hrun
    obtain ⟨r, rfl, hstored⟩ := exchange_store hkey hagrees hput hfirst
    obtain ⟨hr, rfl⟩ := List.cons_eq_cons.mp hanswers
    obtain ⟨item', hitem', hdata, hflags⟩ := hstored (congrArg Answer.result hr).symm
    exact ih hrest s₁ s' steps' item' _ answer hsteps' hitem'
      (holds_extend hholds hpacked hdata hflags) hlater

/-- **Appending and prepending concatenate** where the strings are stored plain. -/
theorem concatenates_of_plain (S : StringScript δ ω) (hC : S.codec.Lawful) (h : S.Plain) :
    S.Concatenates := by
  intro s₀ steps answer s' hsteps hrun
  obtain ⟨set, hset, hsteps⟩ := Option.bind_eq_some_iff.mp hsteps
  obtain ⟨extend, hextend, hcons⟩ := Option.bind_eq_some_iff.mp hsteps
  cases hcons
  obtain ⟨⟨packed, f⟩, hpack, rfl⟩ := Option.map_eq_some_iff.mp hset
  obtain ⟨answers, answers', s₁, hanswers, hfirst, hlater⟩ := conversation_cons hrun
  cases hprepare : mmcPrepareKeyEx S.zkey.str S.keyPrefix with
  | none =>
    -- a request without a valid key is not sent, and the call returns false
    cases hfirst with
    | invalid _ =>
      have hanswer := (List.cons_eq_cons.mp hanswers).1
      cases hanswer
    | answered hprepared _ _ _ _ =>
      cases hprepare.symm.trans hprepared
  | some key =>
    have hne : key ≠ [] := by
      rintro rfl
      exact h.key hprepare
    have hagrees : (ApiOperation.store .set S.exptime f packed).Agrees s₀ key :=
      ⟨pack_length h.string h.frame hpack, hne, Or.inl rfl⟩
    have hput : s₀.execute ((ApiOperation.store .set S.exptime f packed).serverCommand .ascii key)
        = s₀.put key f packed := by
      simp [ApiOperation.serverCommand, Memcached.execute]
    obtain ⟨r, rfl, hstored⟩ := exchange_store hprepare hagrees hput hfirst
    obtain ⟨hr, rfl⟩ := List.cons_eq_cons.mp hanswers
    obtain ⟨item, hitem, hdata, hflags⟩ := hstored (congrArg Answer.result hr).symm
    have hholds : S.Holds item S.string S.extensions := by
      refine ⟨?_, ?_⟩
      · rw [hdata, hflags]
        exact pack_spec hC h.string hpack
      · by_cases hcompresses : S.Compresses S.flags S.string
        · exact Or.inr (h.set hcompresses)
        · obtain ⟨hsame, hverbatim⟩ := pack_of_not_compresses h.string hcompresses hpack
          rw [hdata, hflags]
          exact Or.inl ⟨hsame, hverbatim⟩
    exact conversation_extensions hprepare hne S.extensions h.extensions s₁ s' extend item S.string
      answer hextend hitem hholds hlater

end StringScript

/-! ### A compressed string is appended -/

/-- A string of one letter is set, and forty times the letter `a` is appended, in a pool that compresses
    from a given length. -/
def letterScript (threshold : UInt32) : StringScript Unit Unit where
  codec := sampleCodec
  compression := { threshold, resultLen := fun n => n * 4 / 5 }
  protocol := .ascii
  keyPrefix := []
  room := by decide
  zkey := ⟨1, [107]⟩
  flags := 0
  exptime := 0
  string := [120]
  extensions := [{ inFront := false, exptime := 0, string := List.replicate 40 97 }]
  withCas := false

/-- Without a threshold the strings are stored as they are. -/
theorem concatenates_letters : (letterScript 0).Concatenates :=
  StringScript.concatenates_of_plain _ sampleCodec_lawful
    { key := by decide
      string := by decide
      frame := by decide
      set := by
        rintro ⟨hasked, -⟩
        exact absurd hasked (by decide)
      extensions := by
        refine List.forall_mem_singleton.mpr ⟨by decide, ?_⟩
        rintro ⟨hasked, -⟩
        exact absurd hasked (by decide) }

/-- The appended letters are compressed, and the get returns what zlib made of them. -/
theorem compressedAppend_not_concatenates : ¬(letterScript 20).Concatenates := by
  intro h
  have hkey : ∀ op : ApiOperation, op = .store .set 0 0 [120] ∨
      op = .store .append 0 2 deflatedLetters ∨ op = .get false →
      op.prepare [] ⟨1, [107]⟩ = some [107] := by
    rintro _ (rfl | rfl | rfl) <;> rfl
  have hset : (ApiOperation.store .set 0 0 [120]).Agrees {} [107] :=
    ⟨(by decide : 1 + 258 < 2 ^ 32), by decide, Or.inl rfl⟩
  have happend : (ApiOperation.store .append 0 2 deflatedLetters).Agrees
      (({} : Memcached).execute (.store .set [107] 0 [120])).2 [107] := by
    refine ⟨(by decide : deflatedLetters.length + 258 < 2 ^ 32), by decide, Or.inr (Or.inr ?_)⟩
    simp [Memcached.execute, Memcached.put, itemLimit]
  have hget : (ApiOperation.get false).Agrees ((({} : Memcached).execute (.store .set [107] 0 [120])).2.execute
      (.store .append [107] 2 deflatedLetters)).2 [107] := ⟨trivial, by decide⟩
  have hvalue : (ApiOperation.get false).answer (letterScript 20).unpack
      (((({} : Memcached).execute (.store .set [107] 0 [120])).2.execute
        (.store .append [107] 2 deflatedLetters)).2.execute (.get [107])).1
      = some (.value ([120] ++ deflatedLetters) 0 none) := by decide
  have hrun := Conversation.cons
    ((hset.exchange_iff (by decide) (hkey _ (Or.inl rfl)) rfl .ascii _ _).mpr ⟨rfl, rfl⟩)
    (Conversation.cons
      ((happend.exchange_iff (by decide) (hkey _ (Or.inr (Or.inl rfl))) rfl .ascii _ _).mpr ⟨rfl, rfl⟩)
      (Conversation.cons
        ((hget.exchange_iff (by decide) (hkey _ (Or.inr (Or.inr rfl))) hvalue .ascii _ _).mpr ⟨rfl, rfl⟩)
        Conversation.nil))
  obtain ⟨flags, cas, hanswer⟩ := h {} _ ⟨.value ([120] ++ deflatedLetters) 0 none, false⟩ _ rfl hrun
  exact absurd hanswer (by simp [StringScript.concatenation, letterScript, Extension.apply, deflatedLetters])

end PeclMemcache
