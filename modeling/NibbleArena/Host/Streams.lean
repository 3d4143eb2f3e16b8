import NibbleArena.Fault.System
import NibbleArena.Host

/-! # Streams — the host of a single program

    A program on its own reads from an input stream and writes to an output
    stream.  What the streams will do is given beforehand, call by call: a read
    brings a byte, the end of the input or a failure; a write takes the byte,
    takes nothing or fails; a flush succeeds or fails.  Behind the last event
    the input is at its end, and writes and flushes succeed.

    The streams keep a journal of the calls made on them.  The bytes written and
    the number of flushes are read off the journal.

    * A character is written whole: an interrupted write is tried again, and a
      write that takes nothing is a failure.
    * A character is read after a flush, so that all output can be seen before
      the program waits; an interrupted read is tried again.  The end of the
      input is the character zero. -/

namespace NibbleArena

/-- What one read does. -/
inductive ReadEvent
  | byte (b : UInt8)
  | ending
  | failure (e : SystemError)
  deriving DecidableEq

/-- What one write of a byte does. -/
inductive WriteEvent
  | done
  | nothing
  | failure (e : SystemError)
  deriving DecidableEq

/-- What one flush does. -/
inductive FlushEvent
  | done
  | failure (e : SystemError)
  deriving DecidableEq

/-- A call that was made on the streams, with what it did. -/
inductive StreamCall
  | read (event : ReadEvent)
  | write (byte : UInt8) (event : WriteEvent)
  | flush (event : FlushEvent)
  deriving DecidableEq

/-- The byte that a call has put out, if it is a successful write. -/
def StreamCall.written? : StreamCall → Option UInt8
  | .write b .done => some b
  | _ => none

/-- Whether a call is a successful flush. -/
def StreamCall.isFlush : StreamCall → Bool
  | .flush .done => true
  | _ => false

/-- An input stream, an output stream and a buffer of one character. -/
structure Streams where
  /-- What the coming reads do. -/
  reads : List ReadEvent
  /-- What the coming writes do. -/
  writes : List WriteEvent
  /-- What the coming flushes do. -/
  flushes : List FlushEvent
  /-- The calls made so far, the latest first. -/
  journal : List StreamCall
  buffer : UInt8
  deriving DecidableEq

namespace Streams

/-- Streams on which no call was made yet, with a zero buffer. -/
def ofEvents (reads : List ReadEvent) (writes : List WriteEvent)
    (flushes : List FlushEvent) : Streams :=
  ⟨reads, writes, flushes, [], 0⟩

/-- Streams that give the bytes of a text and never fail. -/
def ofBytes (bytes : List UInt8) : Streams := ofEvents (bytes.map .byte) [] []

/-- The bytes written so far. -/
def written (s : Streams) : List UInt8 := (s.journal.filterMap StreamCall.written?).reverse

/-- The number of flushes that succeeded. -/
def flushCount (s : Streams) : Nat := s.journal.countP StreamCall.isFlush

/-- Enters a call in the journal. -/
def enter (s : Streams) (c : StreamCall) : Streams := { s with journal := c :: s.journal }

/-! ## Flushing -/

/-- One call of flush. -/
def flushOnce (s : Streams) : Except SystemError Unit × Streams :=
  match s.flushes with
  | [] => (.ok (), s.enter (.flush .done))
  | event :: rest =>
    let s := ({ s with flushes := rest } : Streams).enter (.flush event)
    match event with
    | .done => (.ok (), s)
    | .failure e => (.error e, s)

/-- Makes all output visible. -/
def flush (s : Streams) : Except Fault Unit × Streams :=
  match s.flushOnce with
  | (.ok (), s) => (.ok (), s)
  | (.error e, s) => (.error ((Fault.ofSystem e).during "host::flush"), s)

/-! ## Writing -/

/-- The failure of a write that takes nothing. -/
def nothingWritten : SystemError := ⟨.writeZero, "failed to write whole buffer"⟩

/-- Writes a byte, again after each interruption.  The events are those of
    `s.writes`. -/
def writeAll (b : UInt8) (s : Streams) : List WriteEvent → Except SystemError Unit × Streams
  | [] => (.ok (), ({ s with writes := [] } : Streams).enter (.write b .done))
  | event :: rest =>
    let s := ({ s with writes := rest } : Streams).enter (.write b event)
    match event with
    | .done => (.ok (), s)
    | .nothing => (.error nothingWritten, s)
    | .failure e => if e.kind = .interrupted then writeAll b s rest else (.error e, s)

/-- Hands a character to the output. -/
def output (b : UInt8) (s : Streams) : Except Fault Unit × Streams :=
  match writeAll b s s.writes with
  | (.ok (), s) => (.ok (), s)
  | (.error e, s) => (.error ((Fault.ofSystem e).during "host::output"), s)

/-! ## Reading -/

/-- Reads a byte, again after each interruption.  The events are those of
    `s.reads`. -/
def readAgain (s : Streams) : List ReadEvent → Except SystemError UInt8 × Streams
  | [] => (.ok 0, ({ s with reads := [] } : Streams).enter (.read .ending))
  | event :: rest =>
    let s := ({ s with reads := rest } : Streams).enter (.read event)
    match event with
    | .byte b => (.ok b, s)
    | .ending => (.ok 0, s)
    | .failure e => if e.kind = .interrupted then readAgain s rest else (.error e, s)

/-- Asks the input for a character, after a flush. -/
def input (s : Streams) : Except Fault (Option UInt8) × Streams :=
  match s.flush with
  | (.error f, s) => (.error f, s)
  | (.ok (), s) =>
    match readAgain s s.reads with
    | (.ok b, s) => (.ok (some b), s)
    | (.error e, s) => (.error ((Fault.ofSystem e).during "host::input"), s)

/-- Exchanges a character with the buffer. -/
def swap (b : UInt8) (s : Streams) : Option UInt8 × Streams :=
  (some s.buffer, { s with buffer := b })

end Streams

instance : Host Streams where
  output := Streams.output
  input := Streams.input
  swap := Streams.swap

end NibbleArena
