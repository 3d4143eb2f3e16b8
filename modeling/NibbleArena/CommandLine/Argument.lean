import NibbleArena.Text.Numeral

/-! # Arguments — the words of a command line

    A command has options.  An option has a long name, perhaps a letter, and
    perhaps a value.

    * `--name` gives an option, and `--name=value` or `--name value` its value.
    * `-x` gives an option by its letter; letters may be bundled, and what
      follows the letter of an option with a value is that value, with or
      without an equals sign between them.
    * A value in a word of its own does not begin with a dash, unless the dash
      is all of it.
    * Any other word is an operand; so is all that follows `--`.

    Reading never fails: what cannot be read, a value included, becomes an
    `invalid` argument, and whoever goes through the arguments stops there. -/

namespace NibbleArena.CommandLine

/-- What an option takes. -/
inductive OptionKind
  /-- Nothing. -/
  | flag
  /-- Any text. -/
  | text
  /-- A number up to a limit. -/
  | number (limit : Nat)
  /-- A number up to a limit that may be written as a negated zero. -/
  | signedNumber (limit : Nat)
  deriving DecidableEq

/-- The value of an option. -/
inductive OptionValue
  | text (s : String)
  | number (n : Nat)
  deriving DecidableEq

/-- Reads the value of an option. -/
def OptionKind.read? (s : String) : OptionKind → Option OptionValue
  | flag => none
  | text => some (.text s)
  | number limit => (Text.numeral? limit s).map .number
  | signedNumber limit => (Text.signedNumeral? limit s).map .number

/-- An option of a command. -/
structure OptionForm where
  name : String
  letter : Option Char := none
  kind : OptionKind := .flag
  deriving DecidableEq

/-- A part of a command line. -/
inductive Argument
  | operand (text : String)
  | flag (name : String)
  | setting (name : String) (value : OptionValue)
  | invalid
  deriving DecidableEq

namespace OptionForm

/-- Whether the option takes a value. -/
def hasValue (form : OptionForm) : Bool := form.kind ≠ .flag

/-- The option with a value. -/
def give (form : OptionForm) (value : String) : Argument :=
  match form.kind.read? value with
  | some v => .setting form.name v
  | none => .invalid

end OptionForm

/-- What a word holds. -/
inductive Reading
  | operand
  /-- All of its arguments. -/
  | complete (arguments : List Argument)
  /-- Its arguments, and an option whose value has to follow. -/
  | awaiting (arguments : List Argument) (form : OptionForm)
  deriving DecidableEq

namespace Reading

/-- Puts an argument before those of a word. -/
def cons (a : Argument) : Reading → Reading
  | operand => complete [a]
  | complete args => complete (a :: args)
  | awaiting args form => awaiting (a :: args) form

/-- A word that begins with two dashes, which are left out here. -/
def ofLong (forms : List OptionForm) (cs : List Char) : Reading :=
  let name := String.ofList (cs.takeWhile (· ≠ '='))
  match forms.find? (·.name = name), cs.dropWhile (· ≠ '=') with
  | none, _ => complete [.invalid]
  | some form, [] => if form.hasValue then awaiting [] form else complete [.flag name]
  | some form, _ :: value => complete [form.give (String.ofList value)]

/-- The letters of a word that begins with one dash. -/
def ofLetters (forms : List OptionForm) : List Char → Reading
  | [] => complete []
  | c :: rest =>
    match forms.find? (·.letter = some c) with
    | none => complete [.invalid]
    | some form =>
      if form.hasValue then
        match rest with
        | [] => awaiting [] form
        | '=' :: value => complete [form.give (String.ofList value)]
        | value => complete [form.give (String.ofList value)]
      else cons (.flag form.name) (ofLetters forms rest)

/-- Reads a word that is not `--`. -/
def ofWord (forms : List OptionForm) (word : String) : Reading :=
  match word.toList with
  | '-' :: '-' :: cs => ofLong forms cs
  | '-' :: c :: cs => ofLetters forms (c :: cs)
  | _ => operand

end Reading

/-- Whether a word can be the value of the option before it. -/
def canBeValue (word : String) : Bool :=
  match word.toList with
  | '-' :: _ :: _ => false
  | _ => true

/-- Reads the words of a command with the given options. -/
def readArguments (forms : List OptionForm) : List String → List Argument
  | [] => []
  -- The last word has no value after it.
  | [word] =>
    if word = "--" then []
    else
      match Reading.ofWord forms word with
      | .operand => [.operand word]
      | .complete args => args
      | .awaiting args _ => args ++ [.invalid]
  | word :: next :: rest =>
    if word = "--" then (next :: rest).map .operand
    else
      match Reading.ofWord forms word with
      | .operand => .operand word :: readArguments forms (next :: rest)
      | .complete args => args ++ readArguments forms (next :: rest)
      | .awaiting args form =>
        if canBeValue next then args ++ form.give next :: readArguments forms rest
        else args ++ [.invalid]

end NibbleArena.CommandLine
