import PeclMemcache.Pool

set_option autoImplicit false

/-! # What one connection leaves to the next

A read that finds only part of a line or of a header keeps it in `io->input` for the next read. The
functions that drop a connection free `io->buffer` and leave `io->input` alone, so that part is
taken for the beginning of what the next connection sends. This file says exactly when the reads on
a connection depend on its own bytes only. -/

namespace PeclMemcache

/-! ## Sequences of reads -/

/-- What a parser asks a stream for: a line, or a header of `count` bytes. -/
inductive StreamRead
  | line
  | header (count : Nat)
  deriving DecidableEq, Repr

def StreamRead.run : StreamRead → Wire → Option Bytes × Wire
  | .line => mmcStreamGetLine
  | .header count => mmcStreamGet count

/-- A stream and the data its next reads find. -/
def MmcStream.wire (io : MmcStream) (chunks : List Bytes) : Wire := { io, chunks, req := {} }

/-- The results of a sequence of reads, and what is left. -/
def readAll : List StreamRead → Wire → List (Option Bytes) × Wire
  | [], w => ([], w)
  | r :: rest, w =>
    let (got, w) := r.run w
    let (results, w) := readAll rest w
    (got :: results, w)

/-- Reads look at the line buffer and at the data, at no other field of the stream. -/
theorem StreamRead.run_congr (r : StreamRead) {w v : Wire} (hi : w.io.input = v.io.input)
    (hc : w.chunks = v.chunks) :
    (r.run w).1 = (r.run v).1 ∧ (r.run w).2.io.input = (r.run v).2.io.input ∧
      (r.run w).2.chunks = (r.run v).2.chunks := by
  cases r with
  | line =>
    unfold run mmcStreamGetLine
    dsimp only
    rw [hi, hc]
    split <;> simp
  | header count =>
    unfold run mmcStreamGet
    dsimp only
    rw [hi, hc]
    split <;> simp

theorem readAll_congr (reads : List StreamRead) {w v : Wire} (hi : w.io.input = v.io.input)
    (hc : w.chunks = v.chunks) : (readAll reads w).1 = (readAll reads v).1 := by
  induction reads generalizing w v with
  | nil => rfl
  | cons r rest ih =>
    obtain ⟨hgot, hi', hc'⟩ := r.run_congr hi hc
    simp only [readAll]
    rw [hgot, ih hi' hc']

/-- A line read returns the kept bytes and the new ones if they end a line. -/
theorem mmcStreamGetLine_fst (w : Wire) :
    (mmcStreamGetLine w).1 =
      let line := w.io.input ++ (readLineChunk (MMC_BUFFER_SIZE - w.io.input.length) w.chunks).1
      if line.getLast? = some 10 then some line else none := by
  unfold mmcStreamGetLine
  dsimp only
  split <;> rfl

/-! ## Dropping a connection and opening the next -/

/-- The ways a connection of a server is dropped or put aside: `mmc_server_disconnect` on a stream,
    `mmc_server_deactivate`, and `mmc_server_sleep` at the end of a PHP request. -/
inductive Drop
  | disconnect (t : MmcProto)
  | deactivate (time : Int)
  | sleep

/-- What a drop does to the struct of the server. -/
def Drop.apply : Drop → MmcServer → MmcServer
  | .disconnect t, s => s.modifyIo t MmcStream.disconnect
  | .deactivate time, s => { s with
      tcp := s.tcp.disconnect.markFailed time, udp := s.udp.disconnect.markFailed time }
  | .sleep, s => mmcServerSleep s

/-- The stream of the server once `mmc_server_connect` has opened connection `c` on it, after the
    given drops. -/
def nextConnection (drops : List Drop) (s : MmcServer) (t : MmcProto) (c fd : Nat) : MmcStream :=
  let io := (drops.foldl (fun s d => d.apply s) s).io t
  (if io.stream.isSome then io.disconnect else io).opened c fd t

/-- What is read from the stream depends only on the bytes the connection delivers: it is what a
    stream without a past would read. -/
def MmcStream.Isolated (io : MmcStream) : Prop :=
  ∀ reads chunks, (readAll reads (io.wire chunks)).1
    = (readAll reads (MmcStream.wire { io with input := [] } chunks)).1

/-- The stream is isolated exactly when its line buffer is empty. One newline tells the two
    apart. -/
theorem MmcStream.isolated_iff (io : MmcStream) : io.Isolated ↔ io.input = [] := by
  constructor
  · intro h
    by_contra hne
    have hline : (mmcStreamGetLine (io.wire [[10]])).1 = some [10] :=
      (List.cons.inj (h [.line] [[10]])).1
    -- The line read begins with the old bytes, so it can be `[10]` only if no byte was read.
    rw [mmcStreamGetLine_fst] at hline
    dsimp only [MmcStream.wire] at hline
    have hshort : 1 ≤ io.input.length := List.length_pos_iff.mpr hne
    split at hline
    · simp only [Option.some.injEq] at hline
      have hlen := congrArg List.length hline
      have hone : io.input.length = 1 := by
        rw [List.length_append, List.length_singleton] at hlen
        omega
      rw [hone] at hlen
      simp [readLineChunk, lineOf, MMC_BUFFER_SIZE, hone] at hlen
    · simp at hline
  · intro h reads chunks
    exact readAll_congr reads (by simp [MmcStream.wire, h]) rfl

@[simp]
theorem MmcStream.disconnect_input (io : MmcStream) : io.disconnect.input = io.input := rfl

@[simp]
theorem MmcStream.markFailed_input (io : MmcStream) (time : Int) :
    (io.markFailed time).input = io.input := rfl

@[simp]
theorem MmcStream.opened_input (io : MmcStream) (c fd : Nat) (t : MmcProto) :
    (io.opened c fd t).input = io.input := rfl

/-- No way of dropping a connection touches the line buffer of a stream. -/
theorem Drop.apply_input (d : Drop) (s : MmcServer) (t : MmcProto) :
    ((d.apply s).io t).input = (s.io t).input := by
  cases d with
  | disconnect t' => cases t <;> cases t' <;> rfl
  | deactivate time => cases t <;> rfl
  | sleep => cases t <;> rfl

theorem nextConnection_input (drops : List Drop) (s : MmcServer) (t : MmcProto) (c fd : Nat) :
    (nextConnection drops s t c fd).input = (s.io t).input := by
  have hdrops : ((drops.foldl (fun s d => d.apply s) s).io t).input = (s.io t).input := by
    induction drops generalizing s with
    | nil => rfl
    | cons d rest ih => rw [List.foldl_cons, ih, d.apply_input]
  unfold nextConnection
  dsimp only
  split <;> simp [hdrops]

/-- The server after a sequence of reads on one of its streams. -/
def MmcServer.afterReads (s : MmcServer) (t : MmcProto) (reads : List StreamRead)
    (chunks : List Bytes) : MmcServer :=
  s.modifyIo t fun io => (readAll reads (io.wire chunks)).2.io

/-- **Connections are isolated exactly when they are dropped between two reads.** Whatever was read
    on the old connection and however it was dropped, the next connection is isolated from it if and
    only if no line or header was partly assembled. -/
theorem nextConnection_isolated_iff (s : MmcServer) (t : MmcProto) (reads : List StreamRead)
    (chunks : List Bytes) (drops : List Drop) (c fd : Nat) :
    (nextConnection drops (s.afterReads t reads chunks) t c fd).Isolated
      ↔ ((s.afterReads t reads chunks).io t).input = [] := by
  rw [MmcStream.isolated_iff, nextConnection_input]

/-- The old connection delivers `VAL` of a line and is dropped; the first line of the next
    connection is not what it sent. -/
theorem nextConnection_not_isolated :
    ¬ (nextConnection [.disconnect .tcp]
        (({} : MmcServer).afterReads .tcp [.line] [bytes ['V', 'A', 'L']]) .tcp 1 3).Isolated := by
  rw [nextConnection_isolated_iff]
  decide

end PeclMemcache
