import Mathlib

set_option autoImplicit false

/-! # The data of the client

The records of `memcache_pool.h` (`mmc_buffer_t`, `mmc_stream_t`, `mmc_request_t`, `mmc_t`,
`mmc_pool_t`) and the protocol fields the two request extensions add
(`mmc_ascii_request_t`, `mmc_binary_request_t`). Pointers to servers and requests are numbers into
the two heaps of `World`; `NULL` is `none`. A queue is the list of its items, oldest first (every
`mmc_queue_push` refuses duplicates, see `Queue.lean`). -/

namespace PeclMemcache

abbrev Bytes := List UInt8

/-- Keys are compared byte by byte. -/
instance lawfulBEqBytes : LawfulBEq Bytes := inferInstance

/-- A pointer to an `mmc_t`. -/
abbrev Mmc := Nat

/-- A pointer to an `mmc_request_t`. -/
abbrev ReqId := Nat

/-! ## Constants and enumerations -/

def MMC_BUFFER_SIZE : Nat := 4096
def MMC_MAX_UDP_LEN : Nat := 1400
def MMC_MAX_KEY_LEN : Nat := 250

/-- `sizeof(mmc_udp_header_t)`. -/
def udpHeaderSize : Nat := 8

/-- `MMC_STATUS_*`. -/
inductive MmcStatus
  | failed
  | disconnected
  | unknown
  | connected
  deriving DecidableEq, Repr

/-- `MMC_REQUEST_*`; `MMC_OK` and `MMC_REQUEST_DONE` are the same number. -/
inductive MmcResult
  | failure
  | done
  | more
  | again
  | retry
  deriving DecidableEq, Repr

/-- `MMC_OK`. -/
abbrev MmcResult.ok : MmcResult := .done

/-- `MMC_PROTO_*`: the delivery a request was created for, and the two streams of a server. -/
inductive MmcProto
  | tcp
  | udp
  deriving DecidableEq, Repr

/-- `mmc_ascii_protocol` or `mmc_binary_protocol`. -/
inductive WireProtocol
  | ascii
  | binary
  deriving DecidableEq, Repr

/-- `MMC_API_SELECT` or `MMC_API_POLL`. -/
inductive SelectApi
  | select
  | poll
  deriving DecidableEq, Repr

/-- The operation codes of `memcache_pool.h`. -/
inductive MmcOp
  | get
  | gets
  | set
  | add
  | replace
  | cas
  | append
  | prepend
  deriving DecidableEq, Repr

/-- The functions `request->parse` and `next_parse_handler` point to. -/
inductive ParseHandler
  | asciiParseResponse
  | asciiParseMutate
  | asciiParseValue
  | asciiReadValue
  | binaryParseResponse
  | binaryParseNull
  | binaryReadResponse
  | binaryReadMutate
  | binaryParseValue
  | binaryReadValue
  deriving DecidableEq, Repr

/-- The functions `request->response_handler` points to. -/
inductive ResponseHandler
  | null
  | stored
  | numeric
  | version
  | stats
  | flush
  deriving DecidableEq, Repr

/-- The functions `request->value_handler` points to. -/
inductive ValueHandler
  | single
  | multi
  deriving DecidableEq, Repr

/-- The functions `request->failover_handler` points to; the parameter of
    `mmc_value_failover_handler` is the `memcache_get` call whose keys it reschedules. -/
inductive FailoverHandler
  | null
  | pool
  | value (call : Nat)
  deriving DecidableEq, Repr

/-! ## Buffers, streams and requests -/

/-- `mmc_buffer_t`: the bytes of `value` and the index `idx` into them. -/
structure MmcBuffer where
  value : Bytes := []
  idx : Nat := 0
  deriving DecidableEq, Repr

/-- `mmc_buffer_reset`. -/
def MmcBuffer.reset (_ : MmcBuffer) : MmcBuffer := { value := [], idx := 0 }

/-- A `zval *` holding a key: the pointer and the string behind it. -/
structure ZKey where
  ptr : Nat
  str : Bytes
  deriving DecidableEq, Repr

/-- `mmc_stream_t`. `stream` names the connection behind the `php_stream *`; `input` is the filled
    part `input.value[0 .. input.idx)` of the line buffer; `buffered` says which pair of read
    handlers is installed. -/
structure MmcStream where
  stream : Option Nat := none
  fd : Nat := 0
  port : Nat := 0
  chunkSize : Nat := 32768
  status : MmcStatus := .disconnected
  failed : Int := 0
  retryInterval : Int := 15
  buffer : MmcBuffer := {}
  buffered : Bool := false
  input : Bytes := []
  deriving DecidableEq, Repr

/-- `mmc_ascii_request_t.value`: what the last `VALUE` line announced. -/
structure AsciiValue where
  key : Bytes := []
  flags : Nat := 0
  length : Nat := 0
  cas : Nat := 0
  deriving DecidableEq, Repr

/-- The fields `mmc_binary_request_t` adds: the follow-up parser, the keys of the commands in the
    request and what the last response header announced. -/
structure BinaryFields where
  nextParseHandler : Option ParseHandler := none
  keys : List ZKey := []
  opcode : Nat := 0
  error : Nat := 0
  reqid : Nat := 0
  flags : Nat := 0
  length : Nat := 0
  cas : Nat := 0
  deriving DecidableEq, Repr

/-- `mmc_request_t.udp`. -/
structure UdpFields where
  reqid : Nat := 0
  seqid : Nat := 0
  total : Nat := 0
  deriving DecidableEq, Repr

/-- `mmc_request_t` with the fields of both protocol extensions. `io` points to a stream of a
    server; `read` is set when `mmc_request_read_udp` is installed. The handler parameter `call`
    names the API call whose result the handlers write. -/
structure MmcRequest where
  io : Option (Mmc × MmcProto) := none
  sendbuf : MmcBuffer := {}
  readbuf : MmcBuffer := {}
  key : Bytes := []
  keyLen : Nat := 0
  protocol : MmcProto := .tcp
  failedServers : List Mmc := []
  failedIndex : Nat := 0
  read : Bool := false
  parse : Option ParseHandler := none
  valueHandler : Option ValueHandler := none
  responseHandler : ResponseHandler := .null
  call : Nat := 0
  failoverHandler : FailoverHandler := .null
  udp : UdpFields := {}
  value : AsciiValue := {}
  bin : BinaryFields := {}
  deriving DecidableEq, Repr

/-- `mmc_t`. -/
structure MmcServer where
  tcp : MmcStream := {}
  udp : MmcStream := {}
  sendreq : Option ReqId := none
  readreq : Option ReqId := none
  buildreq : Option ReqId := none
  sendqueue : List ReqId := []
  readqueue : List ReqId := []
  host : Bytes := []
  persistent : Bool := false
  reqid : Nat := 0
  error : Option String := none
  errnum : Int := 0

/-- `&(mmc->tcp)` or `&(mmc->udp)`. -/
def MmcServer.io (s : MmcServer) : MmcProto → MmcStream
  | .tcp => s.tcp
  | .udp => s.udp

/-- Update one of the two streams of a server. -/
def MmcServer.modifyIo (s : MmcServer) (t : MmcProto) (f : MmcStream → MmcStream) : MmcServer :=
  match t with
  | .tcp => { s with tcp := f s.tcp }
  | .udp => { s with udp := f s.udp }

/-- The requests waiting for their response, in line order: `readreq`, then `readqueue`. -/
def MmcServer.readLine (s : MmcServer) : List ReqId := s.readreq.toList ++ s.readqueue

/-- The requests not completely sent, in line order: `sendreq`, then `sendqueue`. -/
def MmcServer.sendLine (s : MmcServer) : List ReqId := s.sendreq.toList ++ s.sendqueue

/-- A `struct pollfd`: the events asked for and the events reported. -/
structure PollFd where
  fd : Nat
  pollin : Bool := false
  pollout : Bool := false
  rpollin : Bool := false
  rpollout : Bool := false
  deriving DecidableEq, Repr

/-- `mmc_pool_t`. The two buffers behind `sending` (and `reading`) are `sendingBuf false` for
    `_sending1` and `sendingBuf true` for `_sending2`; `cur` says which one `sending` points to.
    `findServer` is `hash->find_server` on the pool's hash state. -/
structure MmcPool where
  servers : List Mmc := []
  protocol : WireProtocol := .ascii
  findServer : Bytes → Mmc
  selectApi : SelectApi := .select
  inSelect : Bool := false
  cur : Bool := false
  sendingBuf : Bool → List Mmc := fun _ => []
  readingBuf : Bool → List Mmc := fun _ => []
  pending : List Mmc := []
  freeRequests : List (Option ReqId) := []
  wfds : List Nat := []
  rfds : List Nat := []
  pollfds : List PollFd := []

/-- `pool->sending`. -/
def MmcPool.sending (p : MmcPool) : List Mmc := p.sendingBuf p.cur

/-- `pool->reading`. -/
def MmcPool.reading (p : MmcPool) : List Mmc := p.readingBuf p.cur

end PeclMemcache
