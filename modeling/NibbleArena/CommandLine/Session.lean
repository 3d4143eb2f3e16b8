import NibbleArena.CommandLine.Request
import NibbleArena.Fault.Report
import NibbleArena.Fault.System
import NibbleArena.Host.Streams
import NibbleArena.Log.Narration
import NibbleArena.Opcode.Table
import NibbleArena.Text.Lines

/-! # Sessions — a command line carried out

    A session has surroundings: files that can be read, the bytes of the
    standard input, and some entropy.  It gives an exit code, the bytes of the
    standard output and the lines of the standard error.

    What is logged comes first on the standard error; a fault ends the session
    with a last line that shows it.  A crash has an exit code of its own and shows its
    message; the lines that say where in the program it was are left out. -/

namespace NibbleArena.CommandLine

/-- What a session can see. -/
structure Surroundings where
  /-- The bytes of the file at a path. -/
  read : String → Except SystemError ByteArray
  stdin : List UInt8
  entropy : UInt64

/-- What a session leaves behind. -/
structure Outcome where
  exitCode : Nat
  stdout : List UInt8
  stderr : List String
  deriving DecidableEq

namespace Outcome

/-- The outcome of a command line that cannot be read. -/
def rejected : Outcome := ⟨2, [], ["Error: the command line cannot be read"]⟩

/-- A session that went well. -/
def success (stdout : List UInt8) (log : Log) : Outcome := ⟨0, stdout, log.lines⟩

/-- A session that ended with a failure. -/
def failure (e : Failure) (stdout : List UInt8) (log : Log) : Outcome :=
  match e with
  | .fault f => ⟨1, stdout, log.lines ++ ["Error: " ++ f.display]⟩
  | .crash c => ⟨101, stdout, log.lines ++ [c.message]⟩

end Outcome

/-- The bytes of a text. -/
def bytesOf (text : String) : List UInt8 := text.toUTF8.toList

/-! ## Files -/

/-- The failure to read a file that is no text. -/
def notText : SystemError := ⟨.invalidData, "stream did not contain valid UTF-8"⟩

/-- The fault of a file that could not be read. -/
def unreadable (path : String) (e : SystemError) : Fault :=
  ((Fault.ofSystem e).during "cli::read_file").noting "path" path

/-- The text of a file. -/
def Surroundings.readText (w : Surroundings) (path : String) : Except Fault String :=
  match w.read path with
  | .error e => .error (unreadable path e)
  | .ok bytes =>
    match String.fromUTF8? bytes with
    | some text => .ok text
    | none => .error (unreadable path notText)

/-- The text of a program file, on one line. -/
def Surroundings.readProgram (w : Surroundings) (path : String) : Except Fault String :=
  (w.readText path).map Text.unwrapped

/-- The texts of program files, up to the first that cannot be read. -/
def Surroundings.readPrograms (w : Surroundings) : List String → Except Fault (List String)
  | [] => .ok []
  | path :: rest =>
    match w.readProgram path with
    | .error f => .error f
    | .ok text => (w.readPrograms rest).map (text :: ·)

/-! ## Commands -/

/-- What is told of a run that ended. -/
def ending : RunResult → LogEvent
  | .halted reason cycles => .runHalted reason cycles
  | .cycleLimit cycles => .runStopped cycles

/-- Runs a program between the standard streams. -/
def runProgram (w : Surroundings) (source : String) (o : RunSettings.Overrides) (log : Log) :
    Outcome :=
  let p := Program.parse source
  match Run.start (RunSettings.default.override o) p (Streams.ofBytes w.stdin) with
  | .error e => .failure e [] log
  | .ok r =>
    let log := log.tell (r.opening p)
    match r.finishTold log with
    | (result, r, log) =>
      match r.machine.host.flush with
      | (.error f, s) => .failure f s.written log
      | (.ok (), s) =>
        match result with
        | .error f => .failure f s.written log
        | .ok result => .success s.written (log.tell (ending result))

/-- The settings of a battle: an option before the file, the file before the
    default. -/
def Surroundings.arenaSettings (w : Surroundings) (config : Option String)
    (o : ArenaSettings.Overrides) : Except Fault ArenaSettings :=
  match config with
  | none => .ok (ArenaSettings.default.override o)
  | some path =>
    match w.readText path with
    | .error f => .error f
    | .ok text => (ArenaSettings.ofJson text).map (·.override o)

/-- The standing after a battle, one line for each agent. -/
def scoreLines (r : BattleReport) : String :=
  Text.ofLines (r.scores.zipIdx.map fun (score, i) => s!"W{i + 1} scores: {score}")

/-- The standing after a battle as a JSON document.  A battle has agents, so the
    list of scores is not empty. -/
def scoreJson (r : BattleReport) : String :=
  Text.ofLines <|
    ["\x7b", s!"  \"rounds\": {r.rounds},", "  \"scores\": ["]
      ++ [",\n".intercalate (r.scores.map fun score => s!"    {score}")]
      ++ ["  ]", "\x7d"]

/-- Lets programs fight. -/
def runArena (w : Surroundings) (files : List String) (config : Option String)
    (o : ArenaSettings.Overrides) (json : Bool) (log : Log) : Outcome :=
  match w.arenaSettings config o with
  | .error f => .failure f [] log
  | .ok settings =>
    match w.readPrograms files with
    | .error f => .failure f [] log
    | .ok sources =>
      match Arena.seeded settings sources w.entropy with
      | .error e => .failure e [] log
      | .ok arena =>
        match arena.battleTold log with
        | (.error e, _, log) => .failure e [] log
        | (.ok report, _, log) =>
          .success (bytesOf (if json then scoreJson report else scoreLines report)) log

/-- Shows a loaded program. -/
def dumpProgram (w : Surroundings) (path : String) (coreSize : Option Nat) (log : Log) :
    Outcome :=
  match w.readProgram path with
  | .error f => .failure f [] log
  | .ok source =>
    let p := Program.parse source
    match Run.start (RunSettings.default.override { coreSize := coreSize }) p
        SealedHost.sealed with
    | .error e => .failure e [] log
    | .ok r =>
      let m := r.machine
      .success
        (bytesOf (Text.ofLines
          [s!"Program: {path} ({p.length} instructions)", m.core.disassemble,
            m.core.pointerLine m.regs.cell m.regs.exec]))
        (log.tell (r.opening p))

/-- The files that a command may read, in order. -/
def Command.paths : Command → List String
  | .run file _ => [file]
  | .arena files config _ _ => config.toList ++ files
  | .dump file _ => [file]
  | .eval .. | .schema => []

/-- Whether a command may read the standard input. -/
def Command.readsInput : Command → Bool
  | .run .. | .eval .. => true
  | _ => false

/-- Carries out a command. -/
def perform (w : Surroundings) (log : Log) : Command → Outcome
  | .run file o =>
    match w.readProgram file with
    | .error f => .failure f [] log
    | .ok source => runProgram w source o log
  | .eval program o => runProgram w program o log
  | .arena files config o json => runArena w files config o json log
  | .schema => .success (bytesOf Opcode.table) log
  | .dump file coreSize => dumpProgram w file coreSize log

/-- The name and version of the program. -/
def versionLine : String := "agony 0.1.0\n"

/-- How to use the program. -/
def helpText : String :=
  Text.ofLines
    ["Usage: agony [OPTIONS] <COMMAND>", "", "Commands:",
      "  run FILE            Run a program file with stdin/stdout attached",
      "  eval PROGRAM        Run program text given on the command line",
      "  arena FILE FILE...  Battle two or more programs in the arena",
      "  schema              Show the instruction table",
      "  dump FILE           Load a program and print the core"]

/-- Carries out a command line. -/
def session (w : Surroundings) (words : List String) : Outcome :=
  match Request.read? words with
  | none => .rejected
  | some .version => ⟨0, bytesOf versionLine, []⟩
  | some .help => ⟨0, bytesOf helpText, []⟩
  | some (.perform threshold command) => perform w (Log.new threshold) command

end NibbleArena.CommandLine
