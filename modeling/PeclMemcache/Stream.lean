import PeclMemcache.Types

set_option autoImplicit false

/-! # Reading from a stream

What the response parsers see of a connection: the stream with its line buffer `io->input`, the
data the next reads return, and the request being read. Reads do not block: each returns at most
what one chunk holds, an empty chunk standing for a read that finds nothing. -/

namespace PeclMemcache

/-- What a response code means to the handler it is passed to: `MMC_REQUEST_DONE`,
    `MMC_REQUEST_AGAIN`, `mmc_request_failure`, or `MMC_REQUEST_FAILURE` outright. -/
inductive Verdict
  | done
  | again
  | requestFailure
  | failure
  deriving DecidableEq, Repr

/-- The functions the parsers call. `unpack` is the part of `mmc_unpack_value` that decompresses and
    unserialises `data` under `flags` (`none` when that fails), `respond` is the response handler of
    the request, given the response code, the message and `message_len`. -/
structure Handlers where
  unpack : Nat → Bytes → Option Bytes
  respond : Int → Bytes → Nat → Verdict

/-- A call of the value handler or of the response handler. -/
inductive HandlerCall
  | value (key : Bytes) (value : Bytes) (flags cas : Nat)
  | long (key : Bytes) (value : Int) (flags cas : Nat)
  | response (response : Int) (message : Bytes) (messageLen : Nat)
  deriving DecidableEq, Repr

/-- A request being read on a stream. -/
structure Wire where
  io : MmcStream
  chunks : List Bytes
  req : MmcRequest
  calls : List HandlerCall := []
  deriving DecidableEq, Repr

/-- The bytes of an ASCII string. -/
def bytes (s : List Char) : Bytes := s.map (fun c => UInt8.ofNat c.toNat)

/-! ## Reads -/

/-- One read of at most `count` bytes. -/
def readChunk (count : Nat) : List Bytes → Bytes × List Bytes
  | [] => ([], [])
  | c :: rest => (c.take count, if c.length ≤ count then rest else c.drop count :: rest)

/-- The bytes up to and including the first newline. -/
def lineOf : Bytes → Bytes
  | [] => []
  | b :: rest => if b = 10 then [b] else b :: lineOf rest

/-- One call of `io->readline` with room for `maxlen` bytes including the terminator. -/
def readLineChunk (maxlen : Nat) : List Bytes → Bytes × List Bytes
  | [] => ([], [])
  | c :: rest =>
    let got := lineOf (c.take (maxlen - 1))
    (got, if c.length ≤ got.length then rest else c.drop got.length :: rest)

/-- `mmc_stream_get_line`. -/
def mmcStreamGetLine (w : Wire) : Option Bytes × Wire :=
  let (got, chunks) := readLineChunk (MMC_BUFFER_SIZE - w.io.input.length) w.chunks
  let input := w.io.input ++ got
  if input.getLast? = some 10 then
    (some input, { w with io := { w.io with input := [] }, chunks })
  else
    (none, { w with io := { w.io with input }, chunks })

/-- `mmc_stream_get`. -/
def mmcStreamGet (count : Nat) (w : Wire) : Option Bytes × Wire :=
  let (got, chunks) := readChunk (count - w.io.input.length) w.chunks
  let input := w.io.input ++ got
  if count ≤ input.length then
    (some input, { w with io := { w.io with input := [] }, chunks })
  else
    (none, { w with io := { w.io with input }, chunks })

/-- `io->read` into `readbuf` at its index. -/
def readBody (count : Nat) (w : Wire) : Wire :=
  let (got, chunks) := readChunk count w.chunks
  let readbuf : MmcBuffer :=
    { value := w.req.readbuf.value ++ got, idx := w.req.readbuf.idx + got.length }
  { w with chunks, req := { w.req with readbuf } }

/-! ## Failures and handler calls -/

/-- `mmc_server_failure` as far as the stream is concerned: a stream in an unknown state is tried
    again on a new connection. -/
def MmcStream.serverFailure (io : MmcStream) : MmcResult × MmcStream :=
  match io.status with
  | .disconnected => (.retry, io)
  | .unknown => (.retry, { io with status := .disconnected })
  | _ => (.failure, io)

/-- `mmc_server_failure` from a parser. -/
def Wire.failure (w : Wire) : MmcResult × Wire :=
  let (result, io) := w.io.serverFailure
  (result, { w with io })

/-- Call the response handler. -/
def Wire.respond (H : Handlers) (w : Wire) (response : Int) (message : Bytes) (len : Nat) :
    MmcResult × Wire :=
  let w := { w with calls := w.calls ++ [.response response message len] }
  match H.respond response message len with
  | .done => (.done, w)
  | .again => (.again, w)
  | .requestFailure => w.failure
  | .failure => (.failure, w)

/-- `mmc_unpack_value` on the first `count` bytes of `readbuf`: the value handler is called unless
    decoding fails, and `MMC_REQUEST_DONE` is returned either way. -/
def Wire.unpackValue (H : Handlers) (w : Wire) (data key : Bytes) (flags cas count : Nat) : Wire :=
  match H.unpack flags (data.take (count % 2 ^ 32)) with
  | some value => { w with calls := w.calls ++ [.value key value flags cas] }
  | none => w

end PeclMemcache
