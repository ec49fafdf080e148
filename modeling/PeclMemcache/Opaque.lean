import PeclMemcache.Parsers

set_option autoImplicit false

/-! # The opaque field of binary commands

A binary command carries, as its opaque, the index its key gets in `req->keys`; the response repeats
the opaque, and the parsers look the key up with it. The index is read off before the push, and the
push refuses a `zval` that is already there, so a repeated `zval` breaks the mapping; and the opaque
of a response is never compared with the number of keys. This file says exactly when the lookups are
right. -/

namespace PeclMemcache

/-! ## Numbers in network order -/

@[simp]
theorem bigEndian_length (n x : Nat) : (bigEndian n x).length = n := by
  induction n generalizing x with
  | zero => rfl
  | succ n ih => simp [bigEndian, ih]

theorem ofBigEndian_append_singleton (b : Bytes) (d : UInt8) :
    ofBigEndian (b ++ [d]) = 256 * ofBigEndian b + d.toNat := by
  simp [ofBigEndian]

theorem ofBigEndian_bigEndian (n x : Nat) : ofBigEndian (bigEndian n x) = x % 256 ^ n := by
  induction n generalizing x with
  | zero => simp [bigEndian, ofBigEndian, Nat.mod_one]
  | succ n ih =>
    have hdigit : (UInt8.ofNat x).toNat = x % 256 := by simp
    rw [bigEndian, ofBigEndian_append_singleton, ih, hdigit, Nat.pow_succ, Nat.mul_comm (256 ^ n),
      Nat.mod_mul]
    omega

theorem ofBigEndian_bigEndian_of_lt (n : Nat) {x : Nat} (h : x < 2 ^ (8 * n)) :
    ofBigEndian (bigEndian n x) = x := by
  rw [Nat.pow_mul] at h
  rw [ofBigEndian_bigEndian]
  exact Nat.mod_eq_of_lt h

/-- The opaque of a packed header, as it is read back. -/
theorem mmcPackHeader_opaque (opcode reqid keyLen extrasLen length cas : Nat) (rest : Bytes) :
    ofBigEndian (((mmcPackHeader opcode reqid keyLen extrasLen length cas ++ rest).drop 12).take 4)
      = reqid % 2 ^ 32 := by
  have hdrop : (mmcPackHeader opcode reqid keyLen extrasLen length cas ++ rest).drop 12
      = bigEndian 4 reqid ++ (bigEndian 8 cas ++ rest) := by
    simp [mmcPackHeader, List.drop_append]
  have hpow : 256 ^ 4 = 2 ^ 32 := by decide
  rw [hdrop, List.take_append_of_le_length (by simp), List.take_of_length_le (by simp),
    ofBigEndian_bigEndian, hpow]

/-! ## Commands and their opaques -/

/-- The calls that put a command with a key into a request; `key` is the prepared key. -/
inductive BinaryCall
  | appendGet (zkey : ZKey) (key : Bytes)
  | get (zkey : ZKey) (key : Bytes)
  | mutate (zkey : ZKey) (key : Bytes) (value defval : Int) (defvalUsed : Bool) (exptime : Nat)

/-- The `zval` of the key. -/
def BinaryCall.zkey : BinaryCall → ZKey
  | .appendGet zkey _ => zkey
  | .get zkey _ => zkey
  | .mutate zkey _ _ _ _ _ => zkey

def BinaryCall.run : BinaryCall → MmcRequest → MmcRequest
  | .appendGet zkey key, q => mmcBinaryAppendGet q zkey key
  | .get zkey key, q => mmcBinaryGet q zkey key
  | .mutate zkey key value defval used exptime, q =>
    mmcBinaryMutate q zkey key value defval used exptime

def runCalls (q : MmcRequest) (calls : List BinaryCall) : MmcRequest :=
  calls.foldl (fun q c => c.run q) q

/-- The opaque in the header of the command that a call appends to the send buffer. -/
def BinaryCall.opaqueField (c : BinaryCall) (q : MmcRequest) : Nat :=
  ofBigEndian ((((c.run q).sendbuf.value.drop q.sendbuf.value.length).drop 12).take 4)

/-- The opaques of a sequence of commands. -/
def opaques (q : MmcRequest) : List BinaryCall → List Nat
  | [] => []
  | c :: rest => c.opaqueField q :: opaques (c.run q) rest

/-- Every opaque looks up, in the finished request, the key of its own command. -/
def OpaquesMatch (q : MmcRequest) (calls : List BinaryCall) : Prop :=
  ∀ (i : Nat) (c : BinaryCall) (o : Nat), calls[i]? = some c → (opaques q calls)[i]? = some o →
    (runCalls q calls).bin.keys[o]? = some c.zkey

/-- The keys after a push: unchanged if the pointer is there. -/
def pushKeys (keys : List ZKey) (zkey : ZKey) : List ZKey :=
  if keys.any (fun k => k.ptr = zkey.ptr) then keys else keys ++ [zkey]

@[simp]
theorem MmcRequest.pushKey_keys (q : MmcRequest) (zkey : ZKey) :
    (q.pushKey zkey).bin.keys = pushKeys q.bin.keys zkey := by
  unfold pushKey pushKeys
  split <;> rfl

@[simp]
theorem MmcRequest.pushKey_sendbuf (q : MmcRequest) (zkey : ZKey) :
    (q.pushKey zkey).sendbuf = q.sendbuf := by
  unfold pushKey
  split <;> rfl

theorem BinaryCall.run_keys (c : BinaryCall) (q : MmcRequest) :
    (c.run q).bin.keys = pushKeys q.bin.keys c.zkey := by
  cases c <;> simp [run, zkey, mmcBinaryAppendGet, mmcBinaryGet, mmcBinaryMutate,
    MmcRequest.appendSend, MmcRequest.parseBinary]

theorem BinaryCall.opaqueField_eq (c : BinaryCall) (q : MmcRequest) :
    c.opaqueField q = q.bin.keys.length % 2 ^ 32 := by
  cases c <;> simp only [opaqueField, run, mmcBinaryAppendGet, mmcBinaryGet, mmcBinaryMutate,
    MmcRequest.pushKey_sendbuf, MmcRequest.appendSend, MmcRequest.parseBinary, List.append_assoc,
    List.drop_left, mmcPackHeader_opaque]

theorem runCalls_keys (q : MmcRequest) (calls : List BinaryCall) :
    (runCalls q calls).bin.keys = (calls.map BinaryCall.zkey).foldl pushKeys q.bin.keys := by
  induction calls generalizing q with
  | nil => rfl
  | cons c rest ih =>
    rw [runCalls, List.foldl_cons, ← runCalls, ih, c.run_keys, List.map_cons, List.foldl_cons]

/-- The opaque of the `i`-th command is the number of keys the commands before it left. -/
theorem opaques_getElem? (q : MmcRequest) (calls : List BinaryCall) (i : Nat) (o : Nat)
    (h : (opaques q calls)[i]? = some o) :
    o = (((calls.take i).map BinaryCall.zkey).foldl pushKeys q.bin.keys).length % 2 ^ 32 := by
  induction calls generalizing q i with
  | nil => simp [opaques] at h
  | cons c rest ih =>
    cases i with
    | zero =>
      simp only [opaques, List.getElem?_cons_zero, Option.some.injEq] at h
      simp [← h, c.opaqueField_eq]
    | succ i =>
      rw [opaques, List.getElem?_cons_succ] at h
      rw [ih _ i h, c.run_keys, List.take_succ_cons, List.map_cons, List.foldl_cons]

theorem opaques_length (q : MmcRequest) (calls : List BinaryCall) :
    (opaques q calls).length = calls.length := by
  induction calls generalizing q with
  | nil => rfl
  | cons c rest ih => simp [opaques, ih]

/-! ## Key lists without repetition -/

theorem foldl_pushKeys_extends (keys : List ZKey) (zkeys : List ZKey) :
    keys <+: zkeys.foldl pushKeys keys := by
  induction zkeys generalizing keys with
  | nil => exact List.prefix_refl _
  | cons z rest ih =>
    refine List.IsPrefix.trans ?_ (ih _)
    unfold pushKeys
    split
    · exact List.prefix_refl _
    · exact List.prefix_append _ _

theorem nodup_foldl_pushKeys (keys zkeys : List ZKey) (h : (keys.map ZKey.ptr).Nodup) :
    ((zkeys.foldl pushKeys keys).map ZKey.ptr).Nodup := by
  induction zkeys generalizing keys with
  | nil => exact h
  | cons z rest ih =>
    refine ih _ ?_
    unfold pushKeys
    split
    · exact h
    · next hz =>
        have hfresh : z.ptr ∉ keys.map ZKey.ptr := by simpa using hz
        rw [List.map_append, List.map_singleton]
        exact h.append (List.nodup_singleton _) (by simpa using hfresh)

/-- Pushing pointers that are all different appends them all. -/
theorem foldl_pushKeys_of_nodup (keys zkeys : List ZKey)
    (h : ((keys ++ zkeys).map ZKey.ptr).Nodup) : zkeys.foldl pushKeys keys = keys ++ zkeys := by
  induction zkeys generalizing keys with
  | nil => simp
  | cons z rest ih =>
    have hz : keys.any (fun k => k.ptr = z.ptr) = false := by
      rw [List.map_append, List.nodup_append] at h
      simpa using fun (k : ZKey) hk => h.2.2 k.ptr (List.mem_map_of_mem hk) z.ptr (by simp)
    rw [List.foldl_cons, show pushKeys keys z = keys ++ [z] by simp [pushKeys, hz],
      ih _ (by simpa using h), List.append_assoc, List.singleton_append]

theorem length_foldl_pushKeys_le (keys zkeys : List ZKey) :
    (zkeys.foldl pushKeys keys).length ≤ keys.length + zkeys.length := by
  induction zkeys generalizing keys with
  | nil => simp
  | cons z rest ih =>
    have hone : (pushKeys keys z).length ≤ keys.length + 1 := by
      unfold pushKeys
      split <;> simp
    have := ih (pushKeys keys z)
    simp only [List.foldl_cons, List.length_cons]
    omega

/-- A pointer that is pushed is there afterwards. -/
theorem mem_ptr_foldl_pushKeys {keys zkeys : List ZKey} {z : ZKey} (h : z ∈ zkeys) :
    z.ptr ∈ (zkeys.foldl pushKeys keys).map ZKey.ptr := by
  induction zkeys generalizing keys with
  | nil => simp at h
  | cons y rest ih =>
    rcases List.mem_cons.mp h with rfl | hz
    · have hy : z.ptr ∈ (pushKeys keys z).map ZKey.ptr := by
        unfold pushKeys
        split
        · next hany => simpa using hany
        · simp
      exact ((foldl_pushKeys_extends _ rest).map ZKey.ptr).subset hy
    · exact ih hz

/-- A pointer that was pushed among the first `j` has its index below the number of keys these
    left. -/
theorem exists_index_of_mem_take {zkeys : List ZKey} {z : ZKey} {j : Nat} (h : z ∈ zkeys.take j) :
    ∃ k < ((zkeys.take j).foldl pushKeys []).length,
      ((zkeys.foldl pushKeys []).map ZKey.ptr)[k]? = some z.ptr := by
  obtain ⟨k, hk, hkptr⟩ := List.getElem_of_mem (@mem_ptr_foldl_pushKeys [] _ _ h)
  have hpre : (zkeys.take j).foldl pushKeys [] <+: zkeys.foldl pushKeys [] := by
    conv => rhs; rw [← List.take_append_drop j zkeys, List.foldl_append]
    exact foldl_pushKeys_extends _ _
  have hk' : k < ((zkeys.take j).foldl pushKeys []).length := by simpa using hk
  refine ⟨k, hk', ?_⟩
  have hlt : k < ((zkeys.foldl pushKeys []).map ZKey.ptr).length := by
    simpa using Nat.lt_of_lt_of_le hk' hpre.length_le
  rw [List.getElem?_eq_getElem hlt, ← hkptr, (hpre.map ZKey.ptr).getElem hk]

/-- **Commands and opaques match exactly when no `zval` is used twice.** The opaque field has 32
    bits, and so has the length of the key queue. -/
theorem opaquesMatch_iff (q : MmcRequest) (calls : List BinaryCall) (hlen : calls.length ≤ 2 ^ 32) :
    OpaquesMatch (mmcBinaryResetRequest q) calls
      ↔ (calls.map fun c => c.zkey.ptr).Nodup := by
  have hempty : (mmcBinaryResetRequest q).bin.keys = [] := rfl
  have hmap : (calls.map fun c => c.zkey.ptr) = (calls.map BinaryCall.zkey).map ZKey.ptr := by simp
  unfold OpaquesMatch
  rw [runCalls_keys, hempty, hmap]
  constructor
  · -- If the pointer of command `j` occurs before, at `i`, the key list already holds it when `j` is
    -- appended; so the opaque of `j`, the length of that list, is the index of another pointer.
    intro hmatch
    rw [List.Nodup, List.pairwise_iff_getElem]
    intro i j hi hj hij heq
    simp only [List.length_map] at hi hj
    simp only [List.getElem_map] at heq
    obtain ⟨o, ho⟩ : ∃ o, (opaques (mmcBinaryResetRequest q) calls)[j]? = some o :=
      ⟨_, List.getElem?_eq_getElem (by rw [opaques_length]; exact hj)⟩
    have hofield := opaques_getElem? _ _ _ _ ho
    rw [hempty, List.map_take] at hofield
    have hbefore : calls[i].zkey ∈ (calls.map BinaryCall.zkey).take j := by
      rw [← List.map_take]
      exact List.mem_map_of_mem (List.mem_take_iff_getElem.mpr ⟨i, by omega, rfl⟩)
    obtain ⟨k, hk, hkptr⟩ := exists_index_of_mem_take hbefore
    have hshort := length_foldl_pushKeys_le [] ((calls.map BinaryCall.zkey).take j)
    simp only [List.length_nil, List.length_take, List.length_map] at hshort
    rw [Nat.mod_eq_of_lt (by omega)] at hofield
    have hoptr : (((calls.map BinaryCall.zkey).foldl pushKeys []).map ZKey.ptr)[o]?
        = some calls[j].zkey.ptr := by
      rw [List.getElem?_map, hmatch j calls[j] o (List.getElem?_eq_getElem hj) ho]
      rfl
    have hko : k = o :=
      (List.getElem?_inj (List.getElem?_eq_some_iff.mp hkptr).1
        (nodup_foldl_pushKeys [] _ (by simp))).mp (by rw [hkptr, hoptr, heq])
    omega
  · intro hnodup i c o hc ho
    have hall := foldl_pushKeys_of_nodup [] (calls.map BinaryCall.zkey) (by simpa using hnodup)
    have hofield := opaques_getElem? _ _ _ _ ho
    have htake : ((calls.take i).map BinaryCall.zkey).foldl pushKeys []
        = (calls.take i).map BinaryCall.zkey := by
      rw [foldl_pushKeys_of_nodup, List.nil_append]
      rw [List.nil_append]
      refine hnodup.sublist ?_
      exact ((List.take_sublist i calls).map _).map _
    have hi : i < calls.length := (List.getElem?_eq_some_iff.mp hc).1
    rw [hempty, htake, List.length_map, List.length_take, Nat.min_eq_left (by omega),
      Nat.mod_eq_of_lt (by omega)] at hofield
    rw [hall, hofield, List.nil_append, List.getElem?_map, hc]
    rfl

/-! ## Lookups of the opaques of responses -/

/-- The next call of the parser finds its data complete and looks the key up. -/
def Wire.looksUp (w : Wire) : Prop :=
  (w.req.parse = some .binaryReadMutate ∧ (mmcStreamGet 8 w).1.isSome) ∨
    (w.req.parse = some .binaryReadValue ∧
      w.req.bin.length ≤ (readBody (w.req.bin.length - w.req.readbuf.idx) w).req.readbuf.idx)

/-- The parser calls on one response: the header, then everything up to the next header. -/
inductive ResponseRun (H : Handlers) : Wire → Wire → Prop
  | header {w w' : Wire} : binaryParseResponse H w = (.again, w') → ResponseRun H w w'
  | body {w v v' : Wire} {result : MmcResult} : ResponseRun H w v →
      v.req.parse ≠ some .binaryParseResponse → parseRequest H v = some (result, v') →
      result = .more ∨ result = .again → ResponseRun H w v'

/-- Whatever follows the header, every lookup made for the response is inside the key list. -/
def LookupsInside (H : Handlers) (q : MmcRequest) (header : Bytes) : Prop :=
  ∀ io rest w, io.input = [] → ResponseRun H { io, chunks := header :: rest, req := q } w →
    w.looksUp → (binaryKey w.req).isSome

/-- Reading on after a header changes neither the keys nor the opaque, and a parser that reads the
    text of an error stays at it. -/
theorem runHandler_keeps (H : Handlers) (w : Wire) {handler : ParseHandler}
    (hp : handler ≠ .binaryParseResponse) (hw : w.req.parse = some handler) :
    (runHandler H w handler).2.req.bin.keys = w.req.bin.keys ∧
      (runHandler H w handler).2.req.bin.reqid = w.req.bin.reqid ∧
      (handler = .binaryReadResponse →
        (runHandler H w handler).2.req.parse = some .binaryReadResponse) := by
  cases handler with
  | asciiParseResponse => simp [runHandler, asciiParseResponse_req]
  | asciiParseMutate => simp [runHandler, asciiParseMutate_req]
  | asciiParseValue =>
    obtain h | ⟨value, h, -⟩ | ⟨value, h, -⟩ := asciiParseValue_req w <;> simp [runHandler, h]
  | asciiReadValue =>
    obtain ⟨readbuf, h | h⟩ := asciiReadValue_req H w <;> simp [runHandler, h]
  | binaryParseResponse => exact absurd rfl hp
  | binaryParseNull => simp [runHandler]
  | binaryReadResponse =>
    obtain ⟨readbuf, h⟩ := binaryReadResponse_req H w
    simp [runHandler, h, hw]
  | binaryReadMutate => simp [runHandler, binaryReadMutate_req]
  | binaryParseValue =>
    obtain h | ⟨flags, h⟩ := binaryParseValue_req w <;> simp [runHandler, h]
  | binaryReadValue =>
    by_cases hread : w.req.bin.length ≤
        (readBody (w.req.bin.length - w.req.readbuf.idx) w).req.readbuf.idx
    · simp [runHandler, binaryReadValue_complete H w hread]
    · simp [runHandler, binaryReadValue_more H w hread]

/-- What is known once the header of a response was accepted and more of it is to be read: the
    request keeps its keys and holds the opaque, and unless the header announces a value the parser
    reads the text of an error or waits for the next header. -/
theorem ResponseRun.spec {H : Handlers} {q : MmcRequest} {header : Bytes} {io : MmcStream}
    {rest : List Bytes} {w : Wire} (hlen : header.length = binaryHeaderSize)
    (hq : q.parse = some .binaryParseResponse) (hi : io.input = [])
    (h : ResponseRun H { io, chunks := header :: rest, req := q } w) :
    w.req.bin.keys = q.bin.keys ∧
      ((ResponseHeader.ofBytes header).announcesValue ∧
          w.req.bin.reqid = (ResponseHeader.ofBytes header).reqid ∨
        w.req.parse = some .binaryReadResponse ∨ w.req.parse = some .binaryParseResponse) := by
  generalize hw0 : ({ io, chunks := header :: rest, req := q } : Wire) = w0 at h
  subst hw0
  induction h with
  | @header w' hrun =>
    have hget : mmcStreamGet binaryHeaderSize { io, chunks := header :: rest, req := q } = _ :=
      hlen ▸ mmcStreamGet_chunk _ header rest hi rfl
    by_cases hannounces : (ResponseHeader.ofBytes header).announcesValue
    · rw [binaryParseResponse_announcesValue H hget hannounces] at hrun
      obtain ⟨-, rfl⟩ := Prod.mk.inj hrun
      exact ⟨rfl, Or.inl ⟨hannounces, rfl⟩⟩
    · have hreq := binaryParseResponse_not_announcesValue H hget hannounces
      rw [hrun] at hreq
      obtain hreq | ⟨parse, hreq, hparse⟩ := hreq
      · rw [show w'.req = q from hreq]
        exact ⟨rfl, Or.inr (Or.inr hq)⟩
      · rw [show w'.req = _ from hreq]
        exact ⟨rfl, Or.inr (hparse.symm.imp id fun h => h.trans hq)⟩
  | @body v v' result hrun hp hstep hres ih =>
    obtain ⟨hkeys, hcases⟩ := ih
    obtain ⟨handler, hv, hv'⟩ := Option.map_eq_some_iff.mp hstep
    obtain rfl : (runHandler H v handler).2 = v' := congrArg Prod.snd hv'
    obtain ⟨hkeys', hreqid', herror'⟩ := runHandler_keeps H v (fun h => hp (h ▸ hv)) hv
    refine ⟨hkeys'.trans hkeys, ?_⟩
    rcases hcases with ⟨hannounces, hreqid⟩ | herror | hwait
    · exact Or.inl ⟨hannounces, hreqid'.trans hreqid⟩
    · exact Or.inr (Or.inl (herror' (by simpa [hv] using herror)))
    · exact absurd hwait hp

/-- Four bytes of flags lead on to the value. -/
theorem parseRequest_flags (H : Handlers) {w : Wire} {flags : Bytes} {rest : List Bytes}
    (hp : w.req.parse = some .binaryParseValue) (hi : w.io.input = [])
    (hc : w.chunks = flags :: rest) (hlen : flags.length = 4) :
    parseRequest H w = some (.again, { w with
      chunks := rest
      req := { w.req with
        parse := some .binaryReadValue, bin := { w.req.bin with flags := ofBigEndian flags } } }) := by
  simp only [parseRequest, hp, Option.map_some, runHandler, binaryParseValue]
  rw [← hlen, mmcStreamGet_chunk w flags rest hi hc]

/-- A header that announces a value can be followed by data that makes the parser look its key up. -/
theorem exists_looksUp (H : Handlers) (q : MmcRequest) {header : Bytes}
    (hlen : header.length = binaryHeaderSize)
    (hannounces : (ResponseHeader.ofBytes header).announcesValue)
    (hnext : q.bin.nextParseHandler = some .binaryParseValue ∨
      q.bin.nextParseHandler = some .binaryReadMutate) :
    ∃ rest w, ResponseRun H { io := {}, chunks := header :: rest, req := q } w ∧ w.looksUp ∧
      w.req.bin.keys = q.bin.keys ∧
      w.req.bin.reqid = (ResponseHeader.ofBytes header).reqid := by
  have hget (rest : List Bytes) :
      mmcStreamGet binaryHeaderSize { io := {}, chunks := header :: rest, req := q } = _ :=
    hlen ▸ mmcStreamGet_chunk _ header rest rfl rfl
  have hrun (rest : List Bytes) :=
    ResponseRun.header (binaryParseResponse_announcesValue H (hget rest) hannounces)
  rcases hnext with hnext | hnext
  · -- The flags and then as many bytes as the header announced.
    have hbody := hrun [[0, 0, 0, 0],
      List.replicate (ResponseHeader.ofBytes header).valueLength 0]
    refine ⟨_, _, ResponseRun.body hbody (by simp [hnext])
      (parseRequest_flags H hnext rfl rfl rfl) (Or.inr rfl), Or.inr ⟨rfl, ?_⟩, rfl, rfl⟩
    simp only [readBody, readChunk, List.length_take, List.length_replicate]
    omega
  · refine ⟨[List.replicate 8 0], _, hrun _, Or.inl ⟨by simp [hnext], ?_⟩, rfl, rfl⟩
    rw [show (8 : Nat) = (List.replicate 8 (0 : UInt8)).length from rfl,
      mmcStreamGet_chunk _ (List.replicate 8 0) [] rfl rfl]
    rfl

/-- **Lookups stay inside the key list exactly when the opaque of the header does.** -/
theorem lookupsInside_iff (H : Handlers) {q : MmcRequest} {header : Bytes}
    (hlen : header.length = binaryHeaderSize) (hq : q.parse = some .binaryParseResponse)
    (hnext : q.bin.nextParseHandler = some .binaryParseValue ∨
      q.bin.nextParseHandler = some .binaryReadMutate) :
    LookupsInside H q header ↔ ((ResponseHeader.ofBytes header).announcesValue →
      (ResponseHeader.ofBytes header).reqid < q.bin.keys.length) := by
  constructor
  · intro hinside hannounces
    obtain ⟨rest, w, hrun, hlook, hkeys, hreqid⟩ := exists_looksUp H q hlen hannounces hnext
    have hsome := hinside {} rest w rfl hrun hlook
    simpa [binaryKey, hkeys, hreqid, List.getElem?_eq_some_iff] using hsome
  · intro hbound io rest w hi hrun hlook
    obtain ⟨hkeys, ⟨hannounces, hreqid⟩ | herror | hwait⟩ := hrun.spec hlen hq hi
    · simpa [binaryKey, hkeys, hreqid] using hbound hannounces
    · simp [Wire.looksUp, herror] at hlook
    · simp [Wire.looksUp, hwait] at hlook

/-! ## Commands and responses together -/

theorem runCalls_keys_length_of_nodup (q : MmcRequest) (calls : List BinaryCall)
    (h : (calls.map fun c => c.zkey.ptr).Nodup) :
    (runCalls (mmcBinaryResetRequest q) calls).bin.keys.length = calls.length := by
  have hempty : (mmcBinaryResetRequest q).bin.keys = [] := rfl
  rw [runCalls_keys, hempty, foldl_pushKeys_of_nodup [] _ (by simpa [Function.comp_def] using h)]
  simp

/-- **The opaque mapping holds exactly when no `zval` is used twice and the server sends back an
    opaque of the request.** `next` is the parser the last command installed for its response. -/
theorem binaryOpaque_iff (H : Handlers) (q : MmcRequest) (calls : List BinaryCall)
    (next : ParseHandler) (header : Bytes) (hlen : calls.length ≤ 2 ^ 32)
    (hnext : next = .binaryParseValue ∨ next = .binaryReadMutate)
    (hheader : header.length = binaryHeaderSize) :
    OpaquesMatch (mmcBinaryResetRequest q) calls ∧
        LookupsInside H ((runCalls (mmcBinaryResetRequest q) calls).parseBinary next) header
      ↔ (calls.map fun c => c.zkey.ptr).Nodup ∧
        ((ResponseHeader.ofBytes header).announcesValue →
          (ResponseHeader.ofBytes header).reqid < calls.length) := by
  have hnext' : some next = some .binaryParseValue ∨ some next = some .binaryReadMutate :=
    hnext.imp (congrArg some) (congrArg some)
  rw [opaquesMatch_iff q calls hlen, lookupsInside_iff H hheader rfl hnext']
  refine and_congr_right fun hnodup => ?_
  rw [← runCalls_keys_length_of_nodup q calls hnodup]
  rfl

/-- The key `a`, asked for twice with one `zval`, and the key `b`. -/
def repeatedCalls : List BinaryCall :=
  let a : ZKey := { ptr := 1, str := [97] }
  let b : ZKey := { ptr := 2, str := [98] }
  [.appendGet a [97], .appendGet a [97], .appendGet b [98]]

/-- A response header of a get: opcode 9, four bytes of extras, a value of one byte, opaque 7. -/
def foreignHeader : Bytes :=
  [0x81, 9, 0, 0, 4, 0, 0, 0, 0, 0, 0, 5, 0, 0, 0, 7, 0, 0, 0, 0, 0, 0, 0, 0]

/-- The second command for `a` carries the opaque of `b`, and an opaque of 7 is looked up although
    the request has two keys. -/
theorem repeatedCalls_not_matched :
    ¬ OpaquesMatch (mmcBinaryResetRequest {}) repeatedCalls ∧
      ¬ LookupsInside { unpack := fun _ v => some v, respond := fun _ _ _ => .done }
        ((runCalls (mmcBinaryResetRequest {}) repeatedCalls).parseBinary .binaryParseValue)
        foreignHeader := by
  constructor
  · rw [opaquesMatch_iff _ _ (by decide)]
    decide
  · rw [lookupsInside_iff _ rfl rfl (Or.inl rfl)]
    decide

/-- The theorem at two commands with different keys and a response to the second. -/
theorem binaryOpaque_iff_two :
    OpaquesMatch (mmcBinaryResetRequest {}) (repeatedCalls.drop 1) ∧
      LookupsInside { unpack := fun _ v => some v, respond := fun _ _ _ => .done }
        ((runCalls (mmcBinaryResetRequest {}) (repeatedCalls.drop 1)).parseBinary .binaryParseValue)
        (foreignHeader.take 15 ++ [1] ++ foreignHeader.drop 16) :=
  (binaryOpaque_iff _ {} (repeatedCalls.drop 1) .binaryParseValue _ (by decide) (Or.inl rfl)
    rfl).mpr (by decide)

end PeclMemcache
