import PeclMemcache.Stream

set_option autoImplicit false

/-! # The text protocol

The encoders and the response parsers of `memcache_ascii_protocol.c`. -/

namespace PeclMemcache

/-- Append to `request->sendbuf`. -/
def MmcRequest.appendSend (q : MmcRequest) (b : Bytes) : MmcRequest :=
  { q with sendbuf := { q.sendbuf with value := q.sendbuf.value ++ b } }

/-- `smart_string_append_unsigned` and `%lu`. -/
def decimal (n : Nat) : Bytes := bytes (Nat.toDigits 10 n)

/-- `%ld`. -/
def decimalInt (n : Int) : Bytes :=
  if n < 0 then bytes ['-'] ++ decimal n.natAbs else decimal n.natAbs

def crlf : Bytes := [13, 10]

/-! ## Encoders -/

/-- `mmc_request_reset`. -/
def mmcRequestReset (q : MmcRequest) : MmcRequest :=
  { q with keyLen := 0, sendbuf := q.sendbuf.reset, failedServers := [], failedIndex := 0 }

/-- `mmc_ascii_reset_request`. -/
def mmcAsciiResetRequest (q : MmcRequest) : MmcRequest :=
  mmcRequestReset { q with value := { q.value with cas := 0 } }

/-- `mmc_ascii_begin_get`. -/
def mmcAsciiBeginGet (q : MmcRequest) (op : MmcOp) : MmcRequest :=
  let q := { q with parse := some .asciiParseValue }
  if op = .gets then q.appendSend (bytes ['g', 'e', 't', 's'])
  else q.appendSend (bytes ['g', 'e', 't'])

/-- `mmc_ascii_append_get`. -/
def mmcAsciiAppendGet (q : MmcRequest) (key : Bytes) : MmcRequest :=
  (q.appendSend [32]).appendSend key

/-- `mmc_ascii_end_get`. -/
def mmcAsciiEndGet (q : MmcRequest) : MmcRequest := q.appendSend crlf

/-- `mmc_ascii_get`. -/
def mmcAsciiGet (q : MmcRequest) (op : MmcOp) (key : Bytes) : MmcRequest :=
  mmcAsciiEndGet (mmcAsciiAppendGet (mmcAsciiBeginGet q op) key)

/-- The command word of a store operation; `none` for an operation `mmc_ascii_store` refuses. -/
def asciiStoreCommand : MmcOp → Option Bytes
  | .set => some (bytes ['s', 'e', 't'])
  | .add => some (bytes ['a', 'd', 'd'])
  | .replace => some (bytes ['r', 'e', 'p', 'l', 'a', 'c', 'e'])
  | .cas => some (bytes ['c', 'a', 's'])
  | .append => some (bytes ['a', 'p', 'p', 'e', 'n', 'd'])
  | .prepend => some (bytes ['p', 'r', 'e', 'p', 'e', 'n', 'd'])
  | _ => none

/-- `mmc_ascii_store`; `packed` is what `mmc_pack_value` made of the value and the flags. -/
def mmcAsciiStore (q : MmcRequest) (op : MmcOp) (key : Bytes) (exptime cas : Nat)
    (packed : Option (Bytes × Nat)) : MmcResult × MmcRequest :=
  let q := { q with parse := some .asciiParseResponse }
  match packed, asciiStoreCommand op with
  | none, _ => (.failure, q)
  | some _, none => (.failure, q)
  | some (value, flags), some word =>
    let casField := if op = .cas then [32] ++ decimal cas else []
    (.ok, q.appendSend (word ++ [32] ++ key ++ [32] ++ decimal flags ++ [32] ++ decimal exptime
      ++ [32] ++ decimal value.length ++ casField ++ crlf ++ value ++ crlf))

/-- `mmc_ascii_delete`. -/
def mmcAsciiDelete (q : MmcRequest) (key : Bytes) (exptime : Nat) : MmcRequest :=
  let q := { q with parse := some .asciiParseResponse }
  let exp := if exptime > 0 then [32] ++ decimal exptime else []
  q.appendSend (bytes ['d', 'e', 'l', 'e', 't', 'e'] ++ [32] ++ key ++ exp ++ crlf)

/-- `mmc_ascii_mutate`. -/
def mmcAsciiMutate (q : MmcRequest) (key : Bytes) (value : Int) : MmcRequest :=
  let q := { q with parse := some .asciiParseMutate }
  let word := if value ≥ 0 then bytes ['i', 'n', 'c', 'r'] else bytes ['d', 'e', 'c', 'r']
  q.appendSend (word ++ [32] ++ key ++ [32] ++ decimal value.natAbs ++ crlf)

/-- `mmc_ascii_flush`. -/
def mmcAsciiFlush (q : MmcRequest) (exptime : Nat) : MmcRequest :=
  let q := { q with parse := some .asciiParseResponse }
  let exp := if exptime > 0 then [32] ++ decimal exptime else []
  q.appendSend (bytes ['f', 'l', 'u', 's', 'h', '_', 'a', 'l', 'l'] ++ exp ++ crlf)

/-- `mmc_ascii_version`. -/
def mmcAsciiVersion (q : MmcRequest) : MmcRequest :=
  { q with parse := some .asciiParseResponse }.appendSend
    (bytes ['v', 'e', 'r', 's', 'i', 'o', 'n'] ++ crlf)

/-- `mmc_ascii_stats`; `%s` prints `(null)` for `NULL`. -/
def mmcAsciiStats (q : MmcRequest) (type : Option Bytes) (slabid limit : Int) : MmcRequest :=
  let q := { q with parse := some .asciiParseResponse }
  let stats := bytes ['s', 't', 'a', 't', 's']
  if slabid ≠ 0 then
    let null := bytes ['(', 'n', 'u', 'l', 'l', ')']
    q.appendSend (stats ++ [32] ++ type.getD null ++ [32] ++ decimalInt slabid ++ [32]
      ++ decimalInt limit ++ crlf)
  else
    match type with
    | some type => q.appendSend (stats ++ [32] ++ type ++ crlf)
    | none => q.appendSend (stats ++ crlf)

/-! ## The response codes -/

def MMC_OK : Int := 0
def MMC_RESPONSE_UNKNOWN : Int := -2
def MMC_RESPONSE_ERROR : Int := -1
def MMC_RESPONSE_NOT_FOUND : Int := 0x01
def MMC_RESPONSE_EXISTS : Int := 0x02
def MMC_RESPONSE_TOO_LARGE : Int := 0x03
def MMC_RESPONSE_NOT_STORED : Int := 0x05
def MMC_RESPONSE_CLIENT_ERROR : Int := 0x06
def MMC_RESPONSE_UNKNOWN_CMD : Int := 0x81
def MMC_RESPONSE_OUT_OF_MEMORY : Int := 0x82

/-- `mmc_str_left`. -/
def mmcStrLeft (line word : Bytes) : Bool := word.isPrefixOf line

/-- `mmc_request_check_response`: the response code of a line. -/
def mmcRequestCheckResponse (line : Bytes) : Int :=
  if mmcStrLeft line (bytes ['O', 'K']) || mmcStrLeft line (bytes ['S', 'T', 'O', 'R', 'E', 'D'])
      || mmcStrLeft line (bytes ['D', 'E', 'L', 'E', 'T', 'E', 'D']) then MMC_OK
  else if mmcStrLeft line (bytes ['N', 'O', 'T', '_', 'F', 'O', 'U', 'N', 'D']) then
    MMC_RESPONSE_NOT_FOUND
  else if mmcStrLeft line (bytes ['N', 'O', 'T', '_', 'S', 'T', 'O', 'R', 'E', 'D'])
      || mmcStrLeft line (bytes ['E', 'X', 'I', 'S', 'T', 'S']) then MMC_RESPONSE_EXISTS
  else if mmcStrLeft line (bytes ['S', 'E', 'R', 'V', 'E', 'R', '_', 'E', 'R', 'R', 'O', 'R', ' ',
      'o', 'u', 't', ' ', 'o', 'f', ' ', 'm', 'e', 'm', 'o', 'r', 'y']) then
    MMC_RESPONSE_OUT_OF_MEMORY
  else if mmcStrLeft line (bytes ['S', 'E', 'R', 'V', 'E', 'R', '_', 'E', 'R', 'R', 'O', 'R', ' ',
      'o', 'b', 'j', 'e', 'c', 't', ' ', 't', 'o', 'o', ' ', 'l', 'a', 'r', 'g', 'e']) then
    MMC_RESPONSE_TOO_LARGE
  else if mmcStrLeft line (bytes ['E', 'R', 'R', 'O', 'R'])
      || mmcStrLeft line (bytes ['S', 'E', 'R', 'V', 'E', 'R', '_', 'E', 'R', 'R', 'O', 'R']) then
    MMC_RESPONSE_ERROR
  else if mmcStrLeft line (bytes ['C', 'L', 'I', 'E', 'N', 'T', '_', 'E', 'R', 'R', 'O', 'R']) then
    MMC_RESPONSE_CLIENT_ERROR
  else MMC_RESPONSE_UNKNOWN

/-- The line as the handlers see it: the CR of a CRLF is overwritten with NUL. -/
def chopLine (line : Bytes) : Bytes :=
  match line.reverse with
  | 10 :: 13 :: rest => (10 :: 0 :: rest).reverse
  | _ => line

/-- `line_len - (sizeof("\r\n")-1)` as an unsigned number. -/
def messageLen (line : Bytes) : Nat := (line.length + (2 ^ 32 - 2)) % 2 ^ 32

/-! ## `sscanf` -/

def isSpace (b : UInt8) : Bool := b = 32 || (9 ≤ b && b ≤ 13)

def isDigit (b : UInt8) : Bool := 48 ≤ b && b ≤ 57

/-- The characters a C string function sees of a line. -/
def cString (line : Bytes) : Bytes := line.takeWhile (fun b => b ≠ 0)

/-- The value of a string of digits. -/
def digitsValue (ds : Bytes) : Nat := ds.foldl (fun n d => 10 * n + (d.toNat - 48)) 0

/-- An optionally signed decimal number after optional white space: its sign, its absolute value and
    what follows it. -/
def scanNumber (s : Bytes) : Option (Bool × Nat × Bytes) :=
  let s := s.dropWhile isSpace
  let (neg, s) := match s with
    | 45 :: rest => (true, rest)
    | 43 :: rest => (false, rest)
    | _ => (false, s)
  match s.takeWhile isDigit with
  | [] => none
  | ds => some (neg, digitsValue ds, s.dropWhile isDigit)

/-- What `strtoul` returns for a scanned number. -/
def strtoul (neg : Bool) (n : Nat) : Nat :=
  if 2 ^ 64 ≤ n then 2 ^ 64 - 1 else if neg then (2 ^ 64 - n) % 2 ^ 64 else n

/-- What `strtol` returns for a scanned number. -/
def strtol (neg : Bool) (n : Nat) : Int :=
  if neg then max (-(n : Int)) (-(2 ^ 63)) else min (n : Int) (2 ^ 63 - 1)

/-- `sscanf(line, MMC_VALUE_HEADER, ..)`: the fields that were assigned, in the order of the
    format. -/
def scanValueHeader (line : Bytes) : Option Bytes × Option Nat × Option Nat × Option Nat :=
  let s := cString line
  let word := bytes ['V', 'A', 'L', 'U', 'E']
  if !mmcStrLeft s word then (none, none, none, none)
  else
    let s := (s.drop word.length).dropWhile isSpace
    match (s.take MMC_MAX_KEY_LEN).takeWhile (fun b => !isSpace b) with
    | [] => (none, none, none, none)
    | key =>
      match scanNumber (s.drop key.length) with
      | none => (some key, none, none, none)
      | some (neg, flags, s) =>
        match scanNumber s with
        | none => (some key, some (strtoul neg flags % 2 ^ 32), none, none)
        | some (neg', length, s) =>
          (some key, some (strtoul neg flags % 2 ^ 32), some (strtoul neg' length),
            (scanNumber s).map (fun x => strtoul x.1 x.2.1))

/-! ## Parsers -/

/-- `mmc_request_parse_response`. -/
def asciiParseResponse (H : Handlers) (w : Wire) : MmcResult × Wire :=
  match mmcStreamGetLine w with
  | (none, w) => (.more, w)
  | (some line, w) =>
    w.respond H (mmcRequestCheckResponse line) (chopLine line) (messageLen line)

/-- `mmc_request_parse_mutate`. -/
def asciiParseMutate (H : Handlers) (w : Wire) : MmcResult × Wire :=
  match mmcStreamGetLine w with
  | (none, w) => (.more, w)
  | (some line, w) =>
    let response := mmcRequestCheckResponse line
    if response ≠ MMC_RESPONSE_UNKNOWN then
      w.respond H response (chopLine line) (messageLen line)
    else
      match scanNumber (cString (chopLine line)) with
      | none => w.failure
      | some (neg, n, _) =>
        let key := w.req.key.take w.req.keyLen
        (.done, { w with calls := w.calls ++ [.long key (strtol neg n) 0 0] })

/-- The fields `sscanf` assigns from a `VALUE` line; the others keep what they held. -/
def AsciiValue.scan (old : AsciiValue) (line : Bytes) : AsciiValue :=
  let (key, flags, length, cas) := scanValueHeader line
  { key := key.getD old.key, flags := flags.getD old.flags, length := length.getD old.length,
    cas := cas.getD old.cas }

/-- `mmc_request_parse_value`; fewer than three assigned fields make a malformed line. -/
def asciiParseValue (w : Wire) : MmcResult × Wire :=
  match mmcStreamGetLine w with
  | (none, w) => (.more, w)
  | (some line, w) =>
    if mmcStrLeft line (bytes ['E', 'N', 'D']) then (.done, w)
    else
      let w := { w with req := { w.req with value := w.req.value.scan line } }
      if (scanValueHeader line).2.2.1.isNone then w.failure
      else (.again, { w with req := { w.req with parse := some .asciiReadValue } })

/-- `mmc_server_read_value`; `length + 2` is computed in an `unsigned long`. -/
def asciiReadValue (H : Handlers) (w : Wire) : MmcResult × Wire :=
  let want := (w.req.value.length + 2) % 2 ^ 64
  let w := readBody (want - w.req.readbuf.idx) w
  if want ≤ w.req.readbuf.idx then
    let data := w.req.readbuf.value
    let value := w.req.value
    let w := { w with req := { w.req with
      parse := some .asciiParseValue, readbuf := w.req.readbuf.reset } }
    (.again, w.unpackValue H data value.key value.flags value.cas value.length)
  else (.more, w)

end PeclMemcache
