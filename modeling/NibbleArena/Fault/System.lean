import NibbleArena.Fault

/-! # System errors — failures of files and streams

    The system reports a failure with a kind and a text.  As a fault it keeps
    the text both as its message and as its cause; the kinds that the machine
    does not tell apart become "ioFailed". -/

namespace NibbleArena

/-- The kinds of failures that files and streams report. -/
inductive SystemError.Kind
  | notFound
  | permissionDenied
  /-- The call was interrupted and can be made again at once. -/
  | interrupted
  /-- Nothing can be done without waiting. -/
  | wouldBlock
  /-- The other end of the stream is gone. -/
  | brokenPipe
  | unexpectedEof
  | timedOut
  | invalidData
  | alreadyExists
  /-- A write has taken nothing. -/
  | writeZero
  | other
  deriving DecidableEq

/-- A failure reported by the system. -/
structure SystemError where
  kind : SystemError.Kind
  message : String
  deriving DecidableEq

namespace Fault

/-- The kind of fault that a failure of the system is. -/
def Kind.ofSystem : SystemError.Kind → Kind
  | .notFound => fileNotFound
  | .permissionDenied => permissionDenied
  | .interrupted | .wouldBlock => interrupted
  | _ => ioFailed

/-- A failure of the system as a fault. -/
def ofSystem (e : SystemError) : Fault :=
  ((new (Kind.ofSystem e.kind) e.message).during "io").causedBy [e.message]

end Fault

end NibbleArena
