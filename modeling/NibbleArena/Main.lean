import NibbleArena.CommandLine.Session

/-! # The program — a session with the surroundings of the process

    The files and the input that a command may read are read beforehand; then
    the session is computed and its outcome written out. -/

namespace NibbleArena.CommandLine

/-- The number of a failure; some are reported as its negation. -/
def errorNumber (code : UInt32) : Nat := (min code (0 - code)).toNat

/-- The words for the failures that are usual with files, by their numbers. -/
def usualWords : List (Nat × String) :=
  [(2, "No such file or directory"), (4, "Interrupted system call"),
    (5, "Input/output error"), (13, "Permission denied"), (20, "Not a directory"),
    (21, "Is a directory"), (24, "Too many open files"), (36, "File name too long"),
    (40, "Too many levels of symbolic links")]

/-- A failure with its words and its number. -/
def numbered (kind : SystemError.Kind) (code : UInt32) (words : String) : SystemError :=
  let number := errorNumber code
  ⟨kind, s!"{(usualWords.lookup number).getD words} (os error {number})"⟩

/-- A failure of the system with its kind and text. -/
def describeFailure : IO.Error → SystemError
  | .noFileOrDirectory _ code words => numbered .notFound code words
  | .permissionDenied _ code words => numbered .permissionDenied code words
  | .interrupted _ code words => numbered .interrupted code words
  | .alreadyExists _ code words => numbered .alreadyExists code words
  | .timeExpired code words => numbered .timedOut code words
  | .invalidArgument _ code words | .resourceExhausted _ code words
  | .inappropriateType _ code words | .noSuchThing _ code words => numbered .other code words
  | .otherError code words | .resourceBusy code words | .resourceVanished code words
  | .unsupportedOperation code words | .hardwareFault code words
  | .unsatisfiedConstraints code words | .illegalOperation code words
  | .protocolError code words => numbered .other code words
  | .unexpectedEof => ⟨.unexpectedEof, "unexpected end of file"⟩
  | .userError text => ⟨.other, text⟩

/-- The bytes of a file, or why they cannot be had. -/
def readBytes (path : String) : IO (Except SystemError ByteArray) := do
  try
    return .ok (← IO.FS.readBinFile path)
  catch e =>
    return .error (describeFailure e)

/-- All bytes of a stream. -/
partial def drain (stream : IO.FS.Stream) (bytes : ByteArray) : IO ByteArray := do
  let chunk ← stream.read 65536
  if chunk.isEmpty then return bytes
  drain stream (bytes ++ chunk)

/-- Eight bytes as a word. -/
def wordOfBytes (bytes : ByteArray) : UInt64 :=
  bytes.toList.foldl (fun w b => w * 256 + b.toUInt64) 0

/-- What a command can see. -/
def surroundingsOf (command : Command) : IO Surroundings := do
  let files ← command.paths.mapM fun path => do return (path, ← readBytes path)
  let stdin ← if command.readsInput then drain (← IO.getStdin) .empty else pure .empty
  let entropy ← IO.getRandomBytes 8
  return {
    read := fun path => (files.lookup path).getD (.error ⟨.notFound, "not read"⟩)
    stdin := stdin.toList
    entropy := wordOfBytes entropy
  }

/-- Nothing to see. -/
def noSurroundings : Surroundings := ⟨fun _ => .error ⟨.notFound, "not read"⟩, [], 0⟩

/-- Carries out the words of a command line.  Gives the exit code. -/
def carryOut (words : List String) : IO UInt32 := do
  let surroundings ←
    match Request.read? words with
    | some (.perform _ command) => surroundingsOf command
    | _ => pure noSurroundings
  let outcome := session surroundings words
  let stdout ← IO.getStdout
  stdout.write ⟨outcome.stdout.toArray⟩
  stdout.flush
  outcome.stderr.forM IO.eprintln
  return UInt32.ofNat outcome.exitCode

end NibbleArena.CommandLine

/-- The entry of the program. -/
def main (words : List String) : IO UInt32 := NibbleArena.CommandLine.carryOut words
