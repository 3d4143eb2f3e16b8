import NibbleArena.Fault
import NibbleArena.Text.Columns

/-! # Reports of faults — on one line and on many

    * `Fault.display` is the form for logs, on one line.
    * `Fault.report` is the form for a reader: message, context and causes in
      paragraphs.

    In a report a single cause beneath the first is indented; of several, each
    has a number, and its further lines stand under its text. -/

namespace NibbleArena.Fault

/-- Kind, status and operation: how both forms begin. -/
def heading (f : Fault) : String :=
  s!"{f.kind.name} ({f.status.name}) at {f.operation}"

/-- A fact of the context. -/
def fact (entry : String × String) : String := entry.1 ++ ": " ++ entry.2

/-- The form for logs. -/
def display (f : Fault) : String :=
  f.heading
    ++ (if f.context.isEmpty then ""
        else ", context \x7b " ++ ", ".intercalate (f.context.map fact) ++ " \x7d")
    ++ (if f.message.isEmpty then "" else " => " ++ f.message)

/-- The texts of a fault and of all beneath it, for use as the causes of another. -/
def chain (f : Fault) : List String := f.display :: f.causes

/-- A text with `first` before its first line and `other` before each further one. -/
def hang (first other text : String) : String :=
  first ++ ("\n" ++ other).intercalate (text.splitOn "\n")

/-- The causes beneath the first, each on lines of its own. -/
def deeperCauses : List String → String
  | [] => ""
  | [cause] => "\n\nCaused by:\n" ++ hang (Text.blanks 4) (Text.blanks 4) cause
  | causes =>
    "\n\nCaused by:" ++ String.join (causes.zipIdx.map fun (cause, i) =>
      "\n" ++ hang (Text.flushRight 5 (toString i) ++ ": ") (Text.blanks 7) cause)

/-- The form for a reader. -/
def report (f : Fault) : String :=
  f.heading ++ "\n"
    ++ (if f.message.isEmpty then "" else s!"\n    Message: {f.message}\n")
    ++ (if f.context.isEmpty then ""
        else "\n    Context:\n"
          ++ String.join (f.context.map fun e => "        " ++ fact e ++ "\n"))
    ++ (match f.causes with
        | [] => ""
        | cause :: deeper => "\n    Source: " ++ cause ++ deeperCauses deeper ++ "\n")

end NibbleArena.Fault
