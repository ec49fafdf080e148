import PeclMemcache.Exchange

set_option autoImplicit false

/-! # The replies to multi-key gets

What the server answers to a get for many keys under either protocol, and which calls of the value
handler the client makes of the answer. The text protocol repeats the key of the request in front of
every value; the binary one repeats the index of the command, and leaves out the keys it does not
have. -/

namespace PeclMemcache

/-! ## Text replies -/

/-- The block of an item in the reply to a get. -/
def textValue (withCas : Bool) (key : Bytes) (item : Item) : Bytes :=
  announceLine key item.flags.toNat item.data.length (if withCas then some item.token.toNat else none)
    ++ crlf ++ item.data ++ crlf

/-- The reply to a get: the items that are there, in the order of the keys, and the closing line. -/
def Memcached.textValues (s : Memcached) (withCas : Bool) (keys : List Bytes) : Bytes :=
  keys.flatMap (fun key => ((s.items key).map (textValue withCas key)).getD []) ++ (endLine ++ [10])

/-- The calls for the values of a text reply; without a token in the line the one of the request
    stays. -/
def Memcached.textCalls (s : Memcached) (H : Handlers) (withCas : Bool) (cas : Nat)
    (keys : List Bytes) : List HandlerCall :=
  keys.flatMap fun key => ((s.items key).map fun item =>
    H.valueCall key item.data item.flags.toNat (if withCas then item.token.toNat else cas)).getD []

/-- One block of a text reply, and the parser is at a line again. -/
theorem parseRequest_textValue {H : Handlers} {w : Wire} {key : Bytes} (hplain : Plain key)
    (hne : key ≠ []) (hlen : key.length ≤ MMC_MAX_KEY_LEN) (withCas : Bool) (item : Item)
    {tail : Bytes} (hin : w.io.input = []) (hbuf : w.req.readbuf = {})
    (hparse : w.req.parse = some .asciiParseValue)
    (hc : w.chunks.flatten = textValue withCas key item ++ tail) :
    ∃ v : Wire, (∀ calls result rest, Sees H w calls result rest ↔ Sees H v calls result rest) ∧
      v.chunks.flatten = tail ∧ v.io.input = [] ∧ v.req.readbuf = {} ∧
      v.req.parse = some .asciiParseValue ∧
      v.req.value.cas = (if withCas then item.token.toNat else w.req.value.cas) ∧
      v.calls = w.calls ++ H.valueCall key item.data item.flags.toNat
        (if withCas then item.token.toNat else w.req.value.cas) := by
  have hshort : item.data.length < 2 ^ 32 := by
    have := item.length_lt
    omega
  have htoken : ∀ t ∈ (if withCas then some item.token.toNat else none), t < 2 ^ 64 := by
    intro t ht
    split at ht
    · cases ht
      exact item.token.toNat_lt
    · cases ht
  have hcas : (if withCas then some item.token.toNat else none).getD w.req.value.cas
      = if withCas then item.token.toNat else w.req.value.cas := by
    cases withCas <;> rfl
  -- cut the stream behind the line and behind the value
  let chunks := [announceLine key item.flags.toNat item.data.length
    (if withCas then some item.token.toNat else none) ++ [13] ++ [10], item.data ++ crlf, tail]
  have hflatten : w.chunks.flatten = chunks.flatten := by
    rw [hc]
    simp [chunks, textValue, crlf]
  have hw : w.Settled := ⟨hin, Or.inl hbuf⟩
  obtain ⟨v₁, h₁, hchunks₁, hio₁, hcalls₁, hreq₁⟩ := parseRequest_announceLine H
    (w := w.withChunks chunks) hplain hne hlen item.flags.toNat_lt
    (Nat.lt_trans hshort (by decide)) htoken hin hparse rfl
  obtain ⟨v₂, h₂, hchunks₂, hio₂, hcalls₂, hreq₂⟩ := parseRequest_asciiValue H hshort
    (w := v₁) (by rw [hreq₁]) (by rw [hreq₁]; exact hbuf) (by rw [hreq₁]) hchunks₁
  refine ⟨v₂, fun calls result rest => ?_, ?_, ?_, ?_, ?_, ?_, ?_⟩
  · rw [hw.sees_iff chunks hflatten, sees_again_iff h₁, sees_again_iff h₂]
  · rw [hchunks₂]
    simp
  · rw [hio₂, hio₁]
    exact hin
  · rw [hreq₂]
  · rw [hreq₂]
  · rw [hreq₂, hreq₁]
    exact hcas
  · rw [hcalls₂, hcalls₁, hreq₁]
    dsimp only
    exact congrArg (fun cas => w.calls ++ H.valueCall key item.data item.flags.toNat cas) hcas

/-- **A text reply** leads to one call for each value. -/
theorem sees_textValues_iff {H : Handlers} {s : Memcached} (withCas : Bool) {keys : List Bytes}
    (hkeys : ∀ key ∈ keys, Plain key ∧ key ≠ [] ∧ key.length ≤ MMC_MAX_KEY_LEN) {w : Wire}
    (hin : w.io.input = []) (hbuf : w.req.readbuf = {})
    (hparse : w.req.parse = some .asciiParseValue) {tail : Bytes}
    (hc : w.chunks.flatten = s.textValues withCas keys ++ tail) (calls : List HandlerCall)
    (result : MmcResult) (rest : Bytes) :
    Sees H w calls result rest ↔ result = .done ∧
      w.calls ++ s.textCalls H withCas w.req.value.cas keys = calls ∧ tail = rest := by
  induction keys generalizing w with
  | nil =>
    have hline : w.chunks.flatten = endLine ++ [10] ++ tail := hc
    rw [sees_endLine_iff ⟨hin, Or.inl hbuf⟩ hparse hline]
    simp [Memcached.textCalls]
  | cons key keys ih =>
    obtain ⟨hplain, hne, hlen⟩ := hkeys key List.mem_cons_self
    have hkeys' := fun key' h => hkeys key' (List.mem_cons_of_mem key h)
    cases hitem : s.items key with
    | none =>
      have hc' : w.chunks.flatten = s.textValues withCas keys ++ tail := by
        simpa [Memcached.textValues, hitem] using hc
      rw [ih hkeys' hin hbuf hparse hc']
      simp [Memcached.textCalls, hitem]
    | some item =>
      have hc' : w.chunks.flatten = textValue withCas key item ++ (s.textValues withCas keys ++ tail) := by
        simpa [Memcached.textValues, hitem] using hc
      obtain ⟨v, hsees, hchunks, hin', hbuf', hparse', hcas, hcalls⟩ :=
        parseRequest_textValue (H := H) hplain hne hlen withCas item hin hbuf hparse hc'
      -- the token of the last line is not used where the lines have tokens
      have hsame : s.textCalls H withCas v.req.value.cas keys
          = s.textCalls H withCas w.req.value.cas keys := by
        rw [hcas]
        cases withCas <;> rfl
      rw [hsees, ih hkeys' hin' hbuf' hparse' hchunks, hsame, hcalls]
      simp [Memcached.textCalls, hitem]

/-! ## Binary requests -/

/-- The commands of a multi-get, with their indices from `n` on. -/
def quietGets : Nat → List (ZKey × Bytes) → Bytes
  | _, [] => []
  | n, k :: ks => mmcPackHeader MMC_OP_GETQ n k.2.length 0 0 0 ++ k.2 ++ quietGets (n + 1) ks

/-- With different key pointers, every key gets the next index. -/
theorem foldl_mmcBinaryAppendGet {ks : List (ZKey × Bytes)} {q : MmcRequest}
    (hptr : ((q.bin.keys ++ ks.map Prod.fst).map ZKey.ptr).Nodup) :
    (ks.foldl (fun q k => mmcBinaryAppendGet q k.1 k.2) q).sendbuf.value
        = q.sendbuf.value ++ quietGets q.bin.keys.length ks ∧
      (ks.foldl (fun q k => mmcBinaryAppendGet q k.1 k.2) q).bin.keys
        = q.bin.keys ++ ks.map Prod.fst := by
  induction ks generalizing q with
  | nil => simp [quietGets]
  | cons k ks ih =>
    have hnew : ¬ ∃ z ∈ q.bin.keys, z.ptr = k.1.ptr := by
      rintro ⟨z, hz, heq⟩
      rw [List.map_append, List.nodup_append] at hptr
      exact hptr.2.2 z.ptr (List.mem_map_of_mem hz) k.1.ptr
        (List.mem_map_of_mem (List.mem_map_of_mem List.mem_cons_self)) heq
    have hkeys : (mmcBinaryAppendGet q k.1 k.2).bin.keys = q.bin.keys ++ [k.1] := by
      simp [mmcBinaryAppendGet, pushKeys, hnew]
    have hsend : (mmcBinaryAppendGet q k.1 k.2).sendbuf.value = q.sendbuf.value
        ++ (mmcPackHeader MMC_OP_GETQ q.bin.keys.length k.2.length 0 0 0 ++ k.2) := by
      simp [mmcBinaryAppendGet, MmcRequest.appendSend]
    obtain ⟨hvalue, hall⟩ := @ih (mmcBinaryAppendGet q k.1 k.2) (by
      rw [hkeys]
      simpa using hptr)
    rw [List.foldl_cons, hvalue, hall, hkeys, hsend]
    simp [quietGets]

theorem sent_binaryGets (q : MmcRequest) {ks : List (ZKey × Bytes)}
    (hptr : (ks.map fun k => k.1.ptr).Nodup) :
    (Command.binaryGets ks).sent q
        = quietGets 0 ks ++ mmcPackHeader MMC_OP_NOOP ks.length 0 0 0 0 ∧
      ((Command.binaryGets ks).build q).bin.keys = ks.map Prod.fst := by
  obtain ⟨hvalue, hkeys⟩ := @foldl_mmcBinaryAppendGet ks (mmcBinaryBeginGet (mmcBinaryResetRequest q))
    (by simpa [mmcBinaryBeginGet, MmcRequest.parseBinary, mmcBinaryResetRequest, mmcRequestReset,
      Function.comp_def] using hptr)
  simp only [Command.sent, Command.build, mmcBinaryEndGet]
  constructor
  · simp only [MmcRequest.appendSend, hvalue, hkeys]
    simp [mmcBinaryBeginGet, MmcRequest.parseBinary, mmcBinaryResetRequest, mmcRequestReset,
      MmcBuffer.reset]
  · rw [MmcRequest.appendSend_bin, hkeys]
    simp [mmcBinaryBeginGet, MmcRequest.parseBinary, mmcBinaryResetRequest, mmcRequestReset]

/-! ## Binary replies -/

/-- The frames in the bytes of a request. -/
def parseFrames : Nat → Bytes → Option (List BinaryFrame)
  | _, [] => some []
  | 0, _ => none
  | fuel + 1, s => (parseFrame s).bind fun p => (parseFrames fuel p.2).map (p.1 :: ·)

/-- What the server answers to a frame of a multi-get: nothing for a key it does not have. -/
def Memcached.quietReply (s : Memcached) (f : BinaryFrame) : Bytes :=
  if f.opcode = MMC_OP_GETQ then
    match s.items f.key with
    | some item => responseHeader MMC_OP_GETQ 4 0 (item.data.length + 4) f.reqid item.token.toNat
        ++ bigEndian 4 item.flags.toNat ++ item.data
    | none => []
  else if f.opcode = MMC_OP_NOOP then responseHeader MMC_OP_NOOP 0 0 0 f.reqid 0
  else []

/-- The frame an item is sent in. -/
def Item.hit (item : Item) (reqid : UInt32) : HitFrame :=
  ⟨reqid, item.token, item.flags, item.data, item.length_lt⟩

/-- The frames of the reply. -/
def Memcached.hits (s : Memcached) : Nat → List (ZKey × Bytes) → List ResponseFrame
  | _, [] => []
  | n, k :: ks => ((s.items k.2).map fun item => ResponseFrame.hit (item.hit (UInt32.ofNat n))).toList
      ++ s.hits (n + 1) ks

/-- The calls for the values of a binary reply. -/
def Memcached.binaryCalls (s : Memcached) (H : Handlers) (ks : List (ZKey × Bytes)) :
    List HandlerCall :=
  ks.flatMap fun k => ((s.items k.2).map fun item =>
    H.valueCall k.1.str item.data item.flags.toNat item.token.toNat).getD []

theorem toNat_ofNat_of_lt {n : Nat} (h : n < 2 ^ 32) : (UInt32.ofNat n).toNat = n := by
  rw [UInt32.toNat_ofNat']
  exact Nat.mod_eq_of_lt h

/-- A frame without extras and value. -/
theorem parseFrame_key {opcode reqid : Nat} {key : Bytes} (hopcode : opcode < 256)
    (hreqid : reqid < 2 ^ 32) (hlen : key.length ≤ MMC_MAX_KEY_LEN) (rest : Bytes) :
    parseFrame (mmcPackHeader opcode reqid key.length 0 0 0 ++ (key ++ rest))
      = some ({ opcode, reqid, cas := 0, extras := [], key, value := [] }, rest) := by
  have hmax : key.length ≤ 250 := hlen
  have h := @parseFrame_mmcPackHeader opcode reqid 0 [] key [] hopcode hreqid (by decide) (by decide)
    (by omega) (by simp only [List.length_nil]; omega) rest
  simpa using h

/-- **The server reads the commands** of a multi-get, and answers with the items it has. -/
theorem parseFrames_quietGets (s : Memcached) {ks : List (ZKey × Bytes)} {n fuel : Nat}
    (hlen : ∀ k ∈ ks, k.2.length ≤ MMC_MAX_KEY_LEN) (hfits : n + ks.length < 2 ^ 32)
    (hfuel : ks.length < fuel) :
    ∃ frames, parseFrames fuel (quietGets n ks ++ mmcPackHeader MMC_OP_NOOP (n + ks.length) 0 0 0 0)
        = some frames ∧
      frames.flatMap s.quietReply
        = (s.hits n ks).flatMap ResponseFrame.bytes ++ noopFrame (UInt32.ofNat (n + ks.length)) 0 := by
  induction ks generalizing n fuel with
  | nil =>
    obtain ⟨fuel, rfl⟩ := Nat.exists_eq_add_of_lt hfuel
    have hframe := @parseFrame_key MMC_OP_NOOP n [] (by decide) hfits (by decide) []
    have hstep : ∀ s : Bytes, s ≠ [] → parseFrames (0 + fuel + 1) s
        = (parseFrame s).bind fun p => (parseFrames (0 + fuel) p.2).map (p.1 :: ·) := by
      intro s hs
      cases s with
      | nil => exact absurd rfl hs
      | cons => rfl
    refine ⟨[{ opcode := MMC_OP_NOOP, reqid := n, cas := 0, extras := [], key := [], value := [] }], ?_, ?_⟩
    · rw [quietGets, List.nil_append, List.length_nil, hstep _ (by simp [mmcPackHeader])]
      rw [List.append_nil, List.append_nil] at hframe
      rw [Nat.add_zero, List.length_nil] at *
      rw [hframe]
      cases 0 + fuel <;> rfl
    · rw [List.length_nil, Nat.add_zero] at hfits
      rw [noopFrame, List.length_nil, Nat.add_zero, toNat_ofNat_of_lt hfits]
      simp [Memcached.hits, Memcached.quietReply, MMC_OP_NOOP, MMC_OP_GETQ]
  | cons k ks ih =>
    obtain ⟨fuel, rfl⟩ := Nat.exists_eq_add_of_lt hfuel
    rw [List.length_cons] at hfits
    have hframe := @parseFrame_key MMC_OP_GETQ n k.2 (by decide) (by omega)
      (hlen k List.mem_cons_self)
      (quietGets (n + 1) ks ++ mmcPackHeader MMC_OP_NOOP (n + 1 + ks.length) 0 0 0 0)
    obtain ⟨frames, hparse, hreply⟩ := @ih (n + 1) ((k :: ks).length + fuel)
      (fun k' h => hlen k' (List.mem_cons_of_mem k h)) (by omega) (by rw [List.length_cons]; omega)
    have hindex : n + (ks.length + 1) = n + 1 + ks.length := by omega
    refine ⟨{ opcode := MMC_OP_GETQ, reqid := n, cas := 0, extras := [], key := k.2, value := [] }
      :: frames, ?_, ?_⟩
    · have hshape : quietGets n (k :: ks) ++ mmcPackHeader MMC_OP_NOOP (n + (k :: ks).length) 0 0 0 0
          = mmcPackHeader MMC_OP_GETQ n k.2.length 0 0 0
            ++ (k.2 ++ (quietGets (n + 1) ks ++ mmcPackHeader MMC_OP_NOOP (n + 1 + ks.length) 0 0 0 0)) := by
        rw [List.length_cons, hindex]
        simp [quietGets]
      rw [hshape]
      have hstep : parseFrames ((k :: ks).length + fuel + 1) (mmcPackHeader MMC_OP_GETQ n k.2.length 0 0 0
            ++ (k.2 ++ (quietGets (n + 1) ks ++ mmcPackHeader MMC_OP_NOOP (n + 1 + ks.length) 0 0 0 0)))
          = (parseFrame (mmcPackHeader MMC_OP_GETQ n k.2.length 0 0 0
            ++ (k.2 ++ (quietGets (n + 1) ks ++ mmcPackHeader MMC_OP_NOOP (n + 1 + ks.length) 0 0 0 0)))).bind
              fun p => (parseFrames ((k :: ks).length + fuel) p.2).map (p.1 :: ·) := rfl
      rw [hstep, hframe, Option.bind_some, hparse]
      rfl
    · rw [List.flatMap_cons, hreply, List.length_cons, hindex, Memcached.hits]
      cases hitem : s.items k.2 with
      | none => simp [Memcached.quietReply, hitem]
      | some item =>
        simp [Memcached.quietReply, hitem, ResponseFrame.bytes, HitFrame.header, Item.hit,
          toNat_ofNat_of_lt (show n < 2 ^ 32 by omega)]

/-- **The frames of the reply** lead to one call for each value. -/
theorem outcome_hits (unpack : Nat → Bytes → Option Bytes) (s : Memcached) (noop rest : Bytes)
    {ks : List (ZKey × Bytes)} {keys : List ZKey} (hfits : keys.length + ks.length ≤ 2 ^ 32) :
    outcome unpack (keys ++ ks.map Prod.fst) noop rest (s.hits keys.length ks)
      = (s.binaryCalls (getHandlers unpack) ks, rest) := by
  induction ks generalizing keys with
  | nil => rfl
  | cons k ks ih =>
    rw [List.length_cons] at hfits
    have htail := @ih (keys ++ [k.1]) (by rw [List.length_append, List.length_singleton]; omega)
    rw [List.length_append, List.length_singleton, List.append_assoc, List.singleton_append] at htail
    rw [Memcached.hits, List.map_cons]
    cases hitem : s.items k.2 with
    | none =>
      rw [Option.map_none, Option.toList_none, List.nil_append, htail]
      simp [Memcached.binaryCalls, hitem]
    | some item =>
      have hreqid : (item.hit (UInt32.ofNat keys.length)).reqid.toNat = keys.length :=
        toNat_ofNat_of_lt (by omega)
      have hcall : (item.hit (UInt32.ofNat keys.length)).call unpack (keys ++ k.1 :: ks.map Prod.fst)
          = (getHandlers unpack).valueCall k.1.str item.data item.flags.toNat item.token.toNat := by
        have hkey : ((keys ++ k.1 :: ks.map Prod.fst)[keys.length]?.map ZKey.str).getD [] = k.1.str := by
          simp
        rw [HitFrame.call, hreqid, hkey]
        cases hvalue : unpack item.flags.toNat item.data <;>
          simp [Item.hit, Handlers.valueCall, getHandlers, hvalue]
      rw [Option.map_some, Option.toList_some, List.singleton_append, outcome, hreqid,
        if_pos (by simp), htail, hcall]
      simp [Memcached.binaryCalls, hitem]

end PeclMemcache
