import NibbleArena.Arena.Settings
import NibbleArena.CommandLine.Argument
import NibbleArena.Log
import NibbleArena.Run.Settings

/-! # Requests — what a command line asks for

    The first operand names the command.  How much is logged may be said before
    and after it; what is said after it counts.  Of the other options each may
    be given once.  The files of a battle stand together: each row of them has at
    least two.

    A command line is gone through from left to right, and the first argument that
    is wrong, or that asks for help or the version, ends it.  Only what is missing
    is noticed at the end. -/

namespace NibbleArena.CommandLine

/-- A command with its operands and options. -/
inductive Command
  /-- Run a program file. -/
  | run (file : String) (overrides : RunSettings.Overrides)
  /-- Run a program text. -/
  | eval (program : String) (overrides : RunSettings.Overrides)
  /-- Let programs fight in an arena. -/
  | arena (files : List String) (config : Option String)
      (overrides : ArenaSettings.Overrides) (json : Bool)
  /-- Show the instruction table. -/
  | schema
  /-- Load a program and show the core. -/
  | dump (file : String) (coreSize : Option Nat)
  deriving DecidableEq

/-- What a command line asks for. -/
inductive Request
  | version
  | help
  | perform (threshold : LogLevel) (command : Command)
  deriving DecidableEq

/-! ## Verbosity -/

/-- How often each of the options on logging was given. -/
structure Verbosity where
  verbose : Nat
  quiet : Bool
  deriving DecidableEq

namespace Verbosity

/-- Nothing was said. -/
def unsaid : Verbosity := ⟨0, false⟩

/-- What counts if something was said before and after the command. -/
def merge (before after : Verbosity) : Verbosity :=
  ⟨if after.verbose = 0 then before.verbose else after.verbose, before.quiet || after.quiet⟩

/-- The least important level that is shown. -/
def threshold (v : Verbosity) : LogLevel :=
  if v.quiet then .error
  else
    match v.verbose with
    | 0 => .warn
    | 1 => .info
    | 2 => .debug
    | _ => .trace

end Verbosity

/-! ## Forms of commands -/

/-- The operands that a command takes. -/
inductive OperandRule
  /-- None. -/
  | nothing
  /-- Exactly one. -/
  | one
  /-- Rows of at least two, and at least one row. -/
  | rows
  deriving DecidableEq

/-- The options and operands of a command. -/
structure CommandForm where
  options : List OptionForm
  operands : OperandRule
  deriving DecidableEq

/-- The options that are known everywhere. -/
def sharedOptions : List OptionForm :=
  [{ name := "verbose", letter := some 'v' }, { name := "quiet", letter := some 'q' },
    { name := "help", letter := some 'h' }]

/-- An option whose value is a word of 64 bits. -/
def wordOption (name : String) : OptionForm := { name := name, kind := .number Word.max64 }

/-- What may stand before the command. -/
def rootForm : CommandForm :=
  ⟨sharedOptions ++ [{ name := "version", letter := some 'V' }], .nothing⟩

/-- The form of `run` and `eval`. -/
def runForm : CommandForm :=
  ⟨sharedOptions ++ [wordOption "core-size", wordOption "max-cycles"], .one⟩

/-- The form of `dump`. -/
def dumpForm : CommandForm := ⟨sharedOptions ++ [wordOption "core-size"], .one⟩

/-- The form of `schema`. -/
def schemaForm : CommandForm := ⟨sharedOptions, .nothing⟩

/-- The form of `arena`. -/
def arenaForm : CommandForm :=
  ⟨sharedOptions
    ++ [{ name := "config", letter := some 'c', kind := .text }, { name := "json" },
      { name := "rounds", kind := .signedNumber Word.max32 }]
    ++ ["core-size", "separation", "max-length", "max-cycles", "seed"].map wordOption, .rows⟩

/-! ## Options given -/

/-- Why a command line is not carried out. -/
inductive Stop
  /-- It cannot be read. -/
  | rejected
  /-- It asks for help. -/
  | help
  /-- It asks for the version. -/
  | version
  deriving DecidableEq

/-- What was given so far. -/
structure Given where
  verbosity : Verbosity := .unsaid
  flags : List String := []
  settings : List (String × OptionValue) := []
  /-- All operands, the latest first. -/
  operands : List String := []
  /-- How many of them stand together at the end; an option ends a row. -/
  row : Nat := 0
  deriving DecidableEq

namespace Given

/-- Adds an operand, if the command takes one more. -/
def addOperand (rule : OperandRule) (g : Given) (text : String) : Except Stop Given :=
  let longer := { g with operands := text :: g.operands, row := g.row + 1 }
  match rule, g.operands with
  | .nothing, _ => .error .rejected
  | .one, [] => .ok longer
  | .one, _ :: _ => .error .rejected
  | .rows, _ => .ok longer

/-- Ends the row of operands, if it is long enough. -/
def endRow (rule : OperandRule) (g : Given) : Except Stop Given :=
  if rule = .rows ∧ g.row = 1 then .error .rejected else .ok { g with row := 0 }

/-- Adds a flag. -/
def addFlag (g : Given) (name : String) : Except Stop Given :=
  match name with
  | "help" => .error .help
  | "version" => .error .version
  | "verbose" =>
    .ok { g with verbosity := { g.verbosity with verbose := g.verbosity.verbose + 1 } }
  | "quiet" =>
    if g.verbosity.quiet then .error .rejected
    else .ok { g with verbosity := { g.verbosity with quiet := true } }
  | name =>
    if g.flags.contains name then .error .rejected
    else .ok { g with flags := name :: g.flags }

/-- Adds an option with a value. -/
def addSetting (g : Given) (name : String) (value : OptionValue) : Except Stop Given :=
  if (g.settings.lookup name).isSome then .error .rejected
  else .ok { g with settings := (name, value) :: g.settings }

/-- Adds an argument. -/
def add (rule : OperandRule) (g : Given) : Argument → Except Stop Given
  | .operand text => g.addOperand rule text
  | .flag name => do
    let g ← g.endRow rule
    g.addFlag name
  | .setting name value => do
    let g ← g.endRow rule
    g.addSetting name value
  | .invalid => .error .rejected

/-- Goes through arguments from left to right.  The first that cannot be taken, or
    that asks for help or the version, decides. -/
def addAll (rule : OperandRule) (g : Given) (args : List Argument) : Except Stop Given :=
  args.foldlM (add rule) g

/-- Whether a command that takes operands was given some. -/
def isEnough (rule : OperandRule) (g : Given) : Bool := rule = .nothing || !g.operands.isEmpty

/-- What is given by the words after the name of a command. -/
def ofWords (form : CommandForm) (words : List String) : Except Stop Given := do
  let g ← addAll form.operands {} (readArguments form.options words)
  let g ← g.endRow form.operands
  if g.isEnough form.operands then .ok g else .error .rejected

/-- The operands, in order. -/
def files (g : Given) : List String := g.operands.reverse

/-- The only operand. -/
def operand (g : Given) : String := g.operands.headD ""

/-- The text given for an option. -/
def text? (g : Given) (name : String) : Option String :=
  match g.settings.lookup name with
  | some (.text s) => some s
  | _ => none

/-- The number given for an option. -/
def number? (g : Given) (name : String) : Option Nat :=
  match g.settings.lookup name with
  | some (.number n) => some n
  | _ => none

/-- The settings of `run` and `eval`. -/
def runOverrides (g : Given) : RunSettings.Overrides :=
  ⟨g.number? "core-size", g.number? "max-cycles"⟩

/-- The settings of `arena`. -/
def arenaOverrides (g : Given) : ArenaSettings.Overrides :=
  ⟨g.number? "core-size", g.number? "separation", g.number? "max-length",
    g.number? "max-cycles", g.number? "rounds", (g.number? "seed").map some⟩

end Given

/-! ## Commands -/

/-- The names that help can be asked for. -/
def helpTopics : List String := ["run", "eval", "arena", "schema", "dump", "help"]

/-- Help about everything or about one topic. -/
def readHelp : List String → Stop
  | [] => .help
  | [topic] => if helpTopics.contains topic then .help else .rejected
  | _ => .rejected

/-- The command of a name, from what follows the name. -/
def readCommand (name : String) (words : List String) : Except Stop (Verbosity × Command) :=
  match name with
  | "run" => do
    let g ← Given.ofWords runForm words
    .ok (g.verbosity, .run g.operand g.runOverrides)
  | "eval" => do
    let g ← Given.ofWords runForm words
    .ok (g.verbosity, .eval g.operand g.runOverrides)
  | "dump" => do
    let g ← Given.ofWords dumpForm words
    .ok (g.verbosity, .dump g.operand (g.number? "core-size"))
  | "schema" => do
    let g ← Given.ofWords schemaForm words
    .ok (g.verbosity, .schema)
  | "arena" => do
    let g ← Given.ofWords arenaForm words
    .ok (g.verbosity, .arena g.files (g.text? "config") g.arenaOverrides
      (g.flags.contains "json"))
  | "help" => .error (readHelp words)
  | _ => .error .rejected

/-- Reads the words before the command, the command and the words after it. -/
def readFrom (g : Given) : List String → Except Stop (Verbosity × Command)
  | [] => .error .rejected
  | word :: rest =>
    match Reading.ofWord rootForm.options word with
    | .operand =>
      (readCommand word rest).map fun (v, command) => (g.verbosity.merge v, command)
    | .complete args | .awaiting args _ =>
      match g.addAll rootForm.operands args with
      | .ok g => readFrom g rest
      | .error stop => .error stop

/-- Reads a command line; `none` if it is rejected. -/
def Request.read? (words : List String) : Option Request :=
  match readFrom {} words with
  | .ok (v, command) => some (.perform v.threshold command)
  | .error .version => some .version
  | .error .help => some .help
  | .error .rejected => none

end NibbleArena.CommandLine
