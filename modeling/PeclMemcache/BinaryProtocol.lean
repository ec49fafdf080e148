import PeclMemcache.AsciiProtocol

set_option autoImplicit false

/-! # The binary protocol

The encoders and the response parsers of `memcache_binary_protocol.c`. The opaque field of a command
(`reqid`) is an index into `keys`, the keys of the commands in the request. -/

namespace PeclMemcache

/-! ## Headers -/

def MMC_RESPONSE_MAGIC : Nat := 0x81

def MMC_OP_GET : Nat := 0x00
def MMC_OP_SET : Nat := 0x01
def MMC_OP_ADD : Nat := 0x02
def MMC_OP_REPLACE : Nat := 0x03
def MMC_OP_DELETE : Nat := 0x04
def MMC_OP_INCR : Nat := 0x05
def MMC_OP_DECR : Nat := 0x06
def MMC_OP_FLUSH : Nat := 0x08
def MMC_OP_GETQ : Nat := 0x09
def MMC_OP_NOOP : Nat := 0x0a
def MMC_OP_VERSION : Nat := 0x0b
def MMC_BIN_OP_APPEND : Nat := 0x0e
def MMC_BIN_OP_PREPEND : Nat := 0x0f
def MMC_OP_SASL_AUTH : Nat := 0x21

/-- `sizeof(mmc_request_header_t)` and `sizeof(mmc_response_header_t)`. -/
def binaryHeaderSize : Nat := 24

/-- The `n` low bytes of a number, most significant first. -/
def bigEndian : Nat → Nat → Bytes
  | 0, _ => []
  | n + 1, x => bigEndian n (x / 256) ++ [UInt8.ofNat x]

/-- The number whose bytes are given, most significant first. -/
def ofBigEndian (b : Bytes) : Nat := b.foldl (fun n d => 256 * n + d.toNat) 0

/-- `mmc_pack_header` with the `cas` field the caller leaves in it. -/
def mmcPackHeader (opcode reqid keyLen extrasLen length cas : Nat) : Bytes :=
  [0x80, UInt8.ofNat opcode] ++ bigEndian 2 keyLen ++ [UInt8.ofNat extrasLen, 0, 0, 0]
    ++ bigEndian 4 (keyLen + extrasLen + length) ++ bigEndian 4 reqid ++ bigEndian 8 cas

/-- `mmc_response_header_t`. -/
structure ResponseHeader where
  magic : Nat
  opcode : Nat
  keyLen : Nat
  extrasLen : Nat
  status : Nat
  totalBodyLength : Nat
  reqid : Nat
  cas : Nat
  deriving DecidableEq, Repr

/-- Read the 24 bytes of a response header. -/
def ResponseHeader.ofBytes (b : Bytes) : ResponseHeader where
  magic := ofBigEndian (b.take 1)
  opcode := ofBigEndian ((b.drop 1).take 1)
  keyLen := ofBigEndian ((b.drop 2).take 2)
  extrasLen := ofBigEndian ((b.drop 4).take 1)
  status := ofBigEndian ((b.drop 6).take 2)
  totalBodyLength := ofBigEndian ((b.drop 8).take 4)
  reqid := ofBigEndian ((b.drop 12).take 4)
  cas := ofBigEndian ((b.drop 16).take 8)

/-! ## Encoders -/

/-- `mmc_binary_clone_request`. -/
def mmcBinaryCloneRequest (clone request : MmcRequest) : MmcRequest :=
  { clone with bin := { clone.bin with
    nextParseHandler := request.bin.nextParseHandler, keys := request.bin.keys } }

/-- `mmc_binary_reset_request`. -/
def mmcBinaryResetRequest (q : MmcRequest) : MmcRequest :=
  mmcRequestReset { q with bin := { q.bin with keys := [], cas := 0 } }

/-- Install `mmc_request_parse_response` with its follow-up parser. -/
def MmcRequest.parseBinary (q : MmcRequest) (next : ParseHandler) : MmcRequest :=
  { q with parse := some .binaryParseResponse, bin := { q.bin with nextParseHandler := some next } }

/-- `mmc_queue_push(&(req->keys), zkey)`. -/
def MmcRequest.pushKey (q : MmcRequest) (zkey : ZKey) : MmcRequest :=
  if q.bin.keys.any (fun k => k.ptr = zkey.ptr) then q
  else { q with bin := { q.bin with keys := q.bin.keys ++ [zkey] } }

/-- `mmc_binary_begin_get`. -/
def mmcBinaryBeginGet (q : MmcRequest) : MmcRequest := q.parseBinary .binaryParseValue

/-- `mmc_binary_append_get`. -/
def mmcBinaryAppendGet (q : MmcRequest) (zkey : ZKey) (key : Bytes) : MmcRequest :=
  ((q.appendSend (mmcPackHeader MMC_OP_GETQ q.bin.keys.length key.length 0 0 0)).appendSend
    key).pushKey zkey

/-- `mmc_binary_end_get`. -/
def mmcBinaryEndGet (q : MmcRequest) : MmcRequest :=
  q.appendSend (mmcPackHeader MMC_OP_NOOP q.bin.keys.length 0 0 0 0)

/-- `mmc_binary_get`. -/
def mmcBinaryGet (q : MmcRequest) (zkey : ZKey) (key : Bytes) : MmcRequest :=
  let q := q.parseBinary .binaryParseValue
  ((q.appendSend (mmcPackHeader MMC_OP_GET q.bin.keys.length key.length 0 0 0)).appendSend
    key).pushKey zkey

/-- The opcode and the number of extra bytes of a store operation. -/
def binaryStoreCommand : MmcOp → Nat × Nat
  | .append => (MMC_BIN_OP_APPEND, 0)
  | .prepend => (MMC_BIN_OP_PREPEND, 0)
  | .cas => (MMC_OP_SET, 8)
  | .set => (MMC_OP_SET, 8)
  | .add => (MMC_OP_ADD, 8)
  | .replace => (MMC_OP_REPLACE, 8)
  | .get => (MMC_OP_GET, 8)
  | .gets => (0x32, 8)

/-- `mmc_binary_store`; `packed` is what `mmc_pack_value` made of the value and the flags. -/
def mmcBinaryStore (q : MmcRequest) (op : MmcOp) (key : Bytes) (exptime cas : Nat)
    (packed : Option (Bytes × Nat)) : MmcResult × MmcRequest :=
  let q := q.parseBinary .binaryReadResponse
  match packed with
  | none => (.failure, q)
  | some (value, flags) =>
    let (opcode, extrasLen) := binaryStoreCommand op
    let extras := if extrasLen = 0 then [] else bigEndian 4 flags ++ bigEndian 4 exptime
    (.ok, q.appendSend (mmcPackHeader opcode 0 key.length extrasLen value.length cas ++ extras
      ++ key ++ value))

/-- `mmc_binary_delete`. -/
def mmcBinaryDelete (q : MmcRequest) (key : Bytes) : MmcRequest :=
  ((q.parseBinary .binaryReadResponse).appendSend
    (mmcPackHeader MMC_OP_DELETE 0 key.length 0 0 0)).appendSend key

/-- `mmc_binary_mutate`. -/
def mmcBinaryMutate (q : MmcRequest) (zkey : ZKey) (key : Bytes) (value defval : Int)
    (defvalUsed : Bool) (exptime : Nat) : MmcRequest :=
  let q := q.parseBinary .binaryReadMutate
  let op := if value ≥ 0 then MMC_OP_INCR else MMC_OP_DECR
  let initial := (defval % 2 ^ 64).toNat
  let expiration := if defvalUsed then exptime else 2 ^ 32 - 1
  ((q.appendSend (mmcPackHeader op q.bin.keys.length key.length 20 0 0
    ++ bigEndian 8 value.natAbs ++ bigEndian 8 initial ++ bigEndian 4 expiration)).appendSend
    key).pushKey zkey

/-- `mmc_binary_flush`. -/
def mmcBinaryFlush (q : MmcRequest) : MmcRequest :=
  (q.parseBinary .binaryReadResponse).appendSend (mmcPackHeader MMC_OP_FLUSH 0 0 0 0 0)

/-- `mmc_binary_version`. -/
def mmcBinaryVersion (q : MmcRequest) : MmcRequest :=
  (q.parseBinary .binaryReadResponse).appendSend (mmcPackHeader MMC_OP_VERSION 0 0 0 0 0)

/-- `mmc_binary_stats`. -/
def mmcBinaryStats (q : MmcRequest) : MmcRequest :=
  (q.parseBinary .binaryReadResponse).appendSend (mmcPackHeader MMC_OP_NOOP 0 0 0 0 0)

/-- `mmc_set_sasl_auth_data`. -/
def mmcSetSaslAuthData (q : MmcRequest) (user password : Bytes) : MmcRequest :=
  let plain := bytes ['P', 'L', 'A', 'I', 'N']
  let q := { q.parseBinary .binaryReadResponse with key := plain }
  q.appendSend (mmcPackHeader MMC_OP_SASL_AUTH 0 5 0 (user.length + password.length + 2) 0
    ++ plain ++ [0] ++ user ++ [0] ++ password)

/-! ## Parsers -/

/-- What `mmc_request_parse_response` makes of a status; the result goes into an unsigned 16-bit
    field. -/
def binaryError (status : Nat) : Nat :=
  let code : Int :=
    if status = 0x00 then MMC_OK
    else if status = 0x01 then MMC_RESPONSE_NOT_FOUND
    else if status = 0x02 then MMC_RESPONSE_EXISTS
    else if status = 0x03 then MMC_RESPONSE_TOO_LARGE
    else if status = 0x04 ∨ status = 0x06 then MMC_RESPONSE_CLIENT_ERROR
    else if status = 0x05 then MMC_RESPONSE_NOT_STORED
    else if status = 0x81 then MMC_RESPONSE_UNKNOWN_CMD
    else if status = 0x82 then MMC_RESPONSE_OUT_OF_MEMORY
    else MMC_RESPONSE_UNKNOWN
  (code % 2 ^ 16).toNat

/-- `mmc_request_parse_response`. -/
def binaryParseResponse (H : Handlers) (w : Wire) : MmcResult × Wire :=
  match mmcStreamGet binaryHeaderSize w with
  | (none, w) => (.more, w)
  | (some b, w) =>
    let header := ResponseHeader.ofBytes b
    if header.magic ≠ MMC_RESPONSE_MAGIC then w.failure
    else if header.opcode = MMC_OP_NOOP then (.done, w)
    else
      let bin : BinaryFields := { w.req.bin with
        opcode := header.opcode, error := binaryError header.status, reqid := header.reqid,
        length := header.totalBodyLength, cas := header.cas }
      let w := { w with req := { w.req with bin } }
      if header.totalBodyLength = 0 then w.respond H bin.error [] 0
      else if bin.error ≠ 0 then
        (.again, { w with req := { w.req with parse := some .binaryReadResponse } })
      else
        let length := if header.extrasLen ≤ bin.length then bin.length - header.extrasLen
          else bin.length
        (.again, { w with req := { w.req with
          parse := bin.nextParseHandler, bin := { bin with length } } })

/-- `mmc_request_read_response`. -/
def binaryReadResponse (H : Handlers) (w : Wire) : MmcResult × Wire :=
  let w := readBody (w.req.bin.length - w.req.readbuf.idx) w
  if w.req.bin.length ≤ w.req.readbuf.idx then
    w.respond H w.req.bin.error (w.req.readbuf.value.take w.req.bin.length) w.req.bin.length
  else (.more, w)

/-- `mmc_queue_item(&(req->keys), reqid)` as the key string passed to a value handler; `none` when
    the index lies outside the key list. -/
def binaryKey (q : MmcRequest) : Option Bytes := (q.bin.keys[q.bin.reqid]?).map ZKey.str

/-- `mmc_request_read_mutate`. -/
def binaryReadMutate (w : Wire) : MmcResult × Wire :=
  match mmcStreamGet 8 w with
  | (none, w) => (.more, w)
  | (some b, w) =>
    let key := (binaryKey w.req).getD []
    let n := ofBigEndian b
    let value : Int := if n < 2 ^ 63 then n else (n : Int) - 2 ^ 64
    (.done, { w with calls := w.calls ++ [.long key value w.req.bin.flags w.req.bin.cas] })

/-- `mmc_request_parse_value`. -/
def binaryParseValue (w : Wire) : MmcResult × Wire :=
  match mmcStreamGet 4 w with
  | (none, w) => (.more, w)
  | (some b, w) =>
    (.again, { w with req := { w.req with
      parse := some .binaryReadValue, bin := { w.req.bin with flags := ofBigEndian b } } })

/-- `mmc_request_read_value`. -/
def binaryReadValue (H : Handlers) (w : Wire) : MmcResult × Wire :=
  let w := readBody (w.req.bin.length - w.req.readbuf.idx) w
  let bin := w.req.bin
  if bin.length ≤ w.req.readbuf.idx then
    let data := w.req.readbuf.value
    let parse := if bin.opcode = MMC_OP_GET then ParseHandler.binaryParseNull
      else .binaryParseResponse
    let w := { w with req := { w.req with parse := some parse, readbuf := w.req.readbuf.reset } }
    let w := w.unpackValue H data ((binaryKey w.req).getD []) bin.flags bin.cas bin.length
    if bin.opcode = MMC_OP_GET ∨ bin.keys.length ≤ bin.reqid then (.done, w) else (.again, w)
  else (.more, w)

/-! ## The parse pointer -/

/-- The call of a parse handler. -/
def runHandler (H : Handlers) (w : Wire) : ParseHandler → MmcResult × Wire
  | .asciiParseResponse => asciiParseResponse H w
  | .asciiParseMutate => asciiParseMutate H w
  | .asciiParseValue => asciiParseValue w
  | .asciiReadValue => asciiReadValue H w
  | .binaryParseResponse => binaryParseResponse H w
  | .binaryParseNull => (.done, w)
  | .binaryReadResponse => binaryReadResponse H w
  | .binaryReadMutate => binaryReadMutate w
  | .binaryParseValue => binaryParseValue w
  | .binaryReadValue => binaryReadValue H w

/-- `request->parse(mmc, request)`; `none` when the pointer is `NULL`. -/
def parseRequest (H : Handlers) (w : Wire) : Option (MmcResult × Wire) :=
  w.req.parse.map (runHandler H w)

end PeclMemcache
