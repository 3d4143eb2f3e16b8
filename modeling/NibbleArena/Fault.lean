/-! # Faults — what can go wrong outside of a program

    A running program cannot fail: a missing bracket ends it and a spent budget
    stops it.  A fault is about what surrounds it: a configuration, a file, a
    stream.  It says what went wrong (`Kind`), whether it helps to try again
    (`Status`), which operation was under way, and what else is known (the
    context, in the order in which it was added).

    The causes are the texts of the faults beneath this one, the nearest first.

    Amendments are the ways in which a fault grows on its way up.  A new
    operation pushes the one before into the context as "called", so that the
    chain of operations can be read there. -/

namespace NibbleArena

/-- What went wrong. -/
inductive Fault.Kind
  /-- A setting has a value that cannot be used. -/
  | configInvalid
  /-- An operation was asked for something that makes no sense. -/
  | invalidArgument
  /-- A program text is longer than the arena allows. -/
  | programTooLong
  /-- There are not enough programs for a battle. -/
  | tooFewAgents
  /-- No cell is left to start an agent on. -/
  | placementFailed
  /-- There is no such file. -/
  | fileNotFound
  /-- A file or stream may not be used. -/
  | permissionDenied
  /-- A file or stream failed in another way. -/
  | ioFailed
  /-- A file or stream was interrupted. -/
  | interrupted
  /-- A document could not be read. -/
  | parseFailed
  /-- A document could not be written. -/
  | serializationFailed
  deriving DecidableEq

/-- Whether it helps to try again. -/
inductive Fault.Status
  /-- It will not help. -/
  | permanent
  /-- It may help. -/
  | temporary
  /-- It might have helped, but the attempts are used up. -/
  | persistent
  deriving DecidableEq

/-- A failure with its circumstances. -/
structure Fault where
  kind : Fault.Kind
  message : String
  status : Fault.Status
  /-- The operation that failed; empty if none was named. -/
  operation : String
  /-- What else is known, by keys that may repeat. -/
  context : List (String × String)
  /-- The texts of the faults beneath, the nearest first. -/
  causes : List String
  deriving DecidableEq

namespace Fault

namespace Kind

/-- The name of a kind. -/
def name : Kind → String
  | configInvalid => "ConfigInvalid"
  | invalidArgument => "InvalidArgument"
  | programTooLong => "ProgramTooLong"
  | tooFewAgents => "TooFewAgents"
  | placementFailed => "PlacementFailed"
  | fileNotFound => "FileNotFound"
  | permissionDenied => "PermissionDenied"
  | ioFailed => "IoFailed"
  | interrupted => "Interrupted"
  | parseFailed => "ParseFailed"
  | serializationFailed => "SerializationFailed"

/-- The status a fault of this kind starts with: only an interruption may go
    away by itself. -/
def firstStatus : Kind → Status
  | interrupted => .temporary
  | _ => .permanent

end Kind

namespace Status

/-- The name of a status. -/
def name : Status → String
  | permanent => "permanent"
  | temporary => "temporary"
  | persistent => "persistent"

/-- Whether the operation may be tried again. -/
def isRetryable : Status → Bool
  | temporary => true
  | _ => false

/-- The status after the last attempt has failed. -/
def persist : Status → Status
  | temporary => persistent
  | s => s

end Status

/-- A fault about which nothing else is known yet. -/
def new (kind : Kind) (message : String) : Fault :=
  ⟨kind, message, kind.firstStatus, "", [], []⟩

/-- Whether the operation may be tried again. -/
def isRetryable (f : Fault) : Bool := f.status.isRetryable

/-! ## Amendments -/

/-- Names the operation that failed; one named before becomes context. -/
def during (f : Fault) (operation : String) : Fault :=
  let called := if f.operation.isEmpty then [] else [("called", f.operation)]
  { f with operation := operation, context := f.context ++ called }

/-- Adds a fact. -/
def noting (f : Fault) (key value : String) : Fault :=
  { f with context := f.context ++ [(key, value)] }

/-- Sets the status. -/
def withStatus (f : Fault) (s : Status) : Fault := { f with status := s }

/-- Marks the attempts as used up. -/
def persist (f : Fault) : Fault := { f with status := f.status.persist }

/-- Sets the texts of the faults beneath, the nearest first. -/
def causedBy (f : Fault) (causes : List String) : Fault := { f with causes := causes }

/-- One way for a fault to grow. -/
inductive Amendment
  | operation (name : String)
  | context (key value : String)
  | status (s : Status)
  | temporary
  | permanent
  | persist
  | source (causes : List String)
  deriving DecidableEq

/-- The fault after an amendment. -/
def amend (f : Fault) : Amendment → Fault
  | .operation name => f.during name
  | .context key value => f.noting key value
  | .status s => f.withStatus s
  | .temporary => f.withStatus .temporary
  | .permanent => f.withStatus .permanent
  | .persist => f.persist
  | .source causes => f.causedBy causes

/-! ## The faults of the machine -/

/-- A field of a configuration has a value that cannot be used. -/
def configInvalid (field reason : String) : Fault :=
  (new .configInvalid reason).noting "field" field

/-- The text of a program is longer than allowed.  Agents are counted from one
    in texts. -/
def programTooLong (agent length limit : Nat) : Fault :=
  (((new .programTooLong s!"warrior {agent + 1} too long: {length} > {limit}").noting
    "agent" (toString (agent + 1))).noting
    "length" (toString length)).noting
    "max_length" (toString limit)

/-- There are not enough programs for a battle. -/
def tooFewAgents (count : Nat) : Fault :=
  (new .tooFewAgents s!"an arena needs at least 2 programs, got {count}").noting
    "count" (toString count)

/-- All of the core is reserved before the agent could be placed. -/
def placementFailed (agent coreSize : Nat) : Fault :=
  ((new .placementFailed s!"no free offset left for warrior {agent + 1}").noting
    "agent" (toString (agent + 1))).noting
    "core_size" (toString coreSize)

end Fault

end NibbleArena
