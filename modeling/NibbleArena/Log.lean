import NibbleArena.Machine

/-! # The log — what is told about runs and rounds

    An event is something worth telling.  It has a level, a topic (the part of
    the system that tells it) and a line of text: the message, then what belongs
    to it as `key=value`, in a fixed order.

    A log has a threshold and keeps the lines of the events that pass it. -/

namespace NibbleArena

/-- How much is told.  Each level includes those before it. -/
inductive LogLevel
  | error
  | warn
  | info
  | debug
  | trace
  deriving DecidableEq

namespace LogLevel

/-- The name of a level at the head of a line. -/
def name : LogLevel → String
  | error => "ERROR"
  | warn => "WARN"
  | info => "INFO"
  | debug => "DEBUG"
  | trace => "TRACE"

/-- How far a level is from `error`. -/
def detail : LogLevel → Nat
  | error => 0
  | warn => 1
  | info => 2
  | debug => 3
  | trace => 4

end LogLevel

/-- Something worth telling. -/
inductive LogEvent
  | programLoaded (origin cells : Nat)
  | step (exec cell : Nat) (op : Opcode)
  | unmatchedBracket (exec : Nat) (family : BracketFamily)
  | programHalted (reason : HaltReason) (cycles exec : Nat)
  | cycleLimitReached (maxCycles : Nat)
  | agentsPlaced (round : Nat) (starts : List Nat)
  | agentDied (agent cycle : Nat) (reason : HaltReason)
  | roundFinished (round cycles : Nat) (survivors : List Nat) (reward : Nat)
  | battleFinished (rounds : Nat) (scores : List Nat)
  | runHalted (reason : HaltReason) (cycles : Nat)
  | runStopped (cycles : Nat)
  deriving DecidableEq

namespace LogEvent

/-- The level of an event. -/
def level : LogEvent → LogLevel
  | step .. | unmatchedBracket .. => .trace
  | programLoaded .. | programHalted .. | agentsPlaced .. | agentDied ..
  | roundFinished .. => .debug
  | battleFinished .. | runHalted .. | runStopped .. => .info
  | cycleLimitReached .. => .warn

/-- The part of the system that tells an event. -/
def topic : LogEvent → String
  | programLoaded .. => "agony_vm::loader"
  | step .. | unmatchedBracket .. => "agony_vm::engine"
  | programHalted .. | cycleLimitReached .. => "agony_vm::interpreter"
  | agentsPlaced .. | agentDied .. | roundFinished .. | battleFinished .. =>
    "agony_vm::arena"
  | runHalted .. | runStopped .. => "agony"

/-- Numbers as a list in brackets. -/
def numbers (ns : List Nat) : String := "[" ++ ", ".intercalate (ns.map toString) ++ "]"

/-- What an event says. -/
def message : LogEvent → String
  | programLoaded origin cells => s!"program loaded origin={origin} cells={cells}"
  | step exec cell op => s!"step exec={exec} cell={cell} op=\"{op.mnemonic}\""
  | unmatchedBracket exec family => s!"no matching bracket exec={exec} family={family.name}"
  | programHalted reason cycles exec =>
    s!"program halted reason={reason.name} cycles={cycles} exec={exec}"
  | cycleLimitReached maxCycles => s!"cycle limit reached max_cycles={maxCycles}"
  | agentsPlaced round starts => s!"agents placed round={round} starts={numbers starts}"
  | agentDied agent cycle reason =>
    s!"agent died agent={agent} cycle={cycle} reason={reason.name}"
  | roundFinished round cycles survivors reward =>
    s!"round finished round={round} cycles={cycles} survivors={numbers survivors} "
      ++ s!"reward={reward}"
  | battleFinished rounds scores => s!"battle finished rounds={rounds} scores={numbers scores}"
  | runHalted reason cycles => s!"program halted reason={reason.name} cycles={cycles}"
  | runStopped cycles => s!"program stopped on cycle limit cycles={cycles}"

/-- The line of an event. -/
def line (e : LogEvent) : String := s!"{e.level.name} {e.topic}: {e.message}"

end LogEvent

/-- Lines that were told, down to a level of detail. -/
structure Log where
  threshold : LogLevel
  /-- The lines, the latest first. -/
  told : List String
  deriving DecidableEq

namespace Log

/-- A log in which nothing was told yet. -/
def new (threshold : LogLevel) : Log := ⟨threshold, []⟩

/-- Whether events of a level pass the threshold. -/
def shows (l : Log) (level : LogLevel) : Bool := level.detail ≤ l.threshold.detail

/-- Tells an event. -/
def tell (l : Log) (e : LogEvent) : Log :=
  if l.shows e.level then { l with told := e.line :: l.told } else l

/-- Tells events, in order. -/
def tellAll (l : Log) (es : List LogEvent) : Log := es.foldl tell l

/-- The lines, in order. -/
def lines (l : Log) : List String := l.told.reverse

end Log

end NibbleArena
