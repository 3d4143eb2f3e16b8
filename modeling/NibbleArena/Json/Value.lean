import NibbleArena.Json.Token

/-! # JSON values — from tokens to a document

    A document is built token by token on a stack of the containers that are
    still open, so the depth of its nesting does not matter.  `Expecting` says
    what may come next; any other token rejects the document. -/

namespace NibbleArena.Json

/-- A JSON value.  Members keep their order, and a key may occur more than once. -/
inductive Value
  | null
  | boolean (b : Bool)
  /-- A number written with digits alone. -/
  | natural (n : Nat)
  /-- A number with a sign, a fraction or an exponent. -/
  | number
  /-- A string; `none` if it is no text. -/
  | text (s : Option String)
  | array (items : List Value)
  | object (members : List (Option String × Value))

namespace Value

/-- A number written with digits alone, if it is at most `limit`. -/
def naturalUpTo? (limit : Nat) : Value → Option Nat
  | natural n => if n ≤ limit then some n else none
  | _ => none

end Value

/-- A container that is still open, with what it holds so far, the latest first. -/
inductive Frame
  | array (items : List Value)
  /-- `key` is the key that was read last. -/
  | object (members : List (Option String × Value)) (key : Option String)

/-- What may come next in the innermost container. -/
inductive Expecting
  | value
  | valueOrEnd
  | key
  | keyOrEnd
  | colon
  | commaOrEnd
  deriving DecidableEq

/-- How far a document has been read. -/
inductive Progress
  /-- Containers are open, the innermost first. -/
  | reading (frames : List Frame) (expecting : Expecting)
  /-- The document is complete. -/
  | complete (v : Value)

namespace Progress

/-- Nothing has been read. -/
def start : Progress := reading [] .value

/-- Puts a value where it belongs. -/
def deliver (v : Value) : List Frame → Progress
  | [] => complete v
  | .array items :: outer => reading (.array (v :: items) :: outer) .commaOrEnd
  | .object members key :: outer =>
    reading (.object ((key, v) :: members) key :: outer) .commaOrEnd

/-- A token where a value is due. -/
def takeValue? (frames : List Frame) : Token → Option Progress
  | .null => some (deliver .null frames)
  | .boolean b => some (deliver (.boolean b) frames)
  | .natural n => some (deliver (.natural n) frames)
  | .number => some (deliver .number frames)
  | .text s => some (deliver (.text s) frames)
  | .openBracket => some (reading (.array [] :: frames) .valueOrEnd)
  | .openBrace => some (reading (.object [] none :: frames) .keyOrEnd)
  | _ => none

/-- A token where a key is due. -/
def takeKey? : List Frame → Token → Option Progress
  | .object members _ :: outer, .text s => some (reading (.object members s :: outer) .colon)
  | _, _ => none

/-- A token that closes the innermost container. -/
def takeEnd? : List Frame → Token → Option Progress
  | .array items :: outer, .closeBracket => some (deliver (.array items.reverse) outer)
  | .object members _ :: outer, .closeBrace => some (deliver (.object members.reverse) outer)
  | _, _ => none

/-- A token after a value. -/
def takeComma? : List Frame → Token → Option Progress
  | .array items :: outer, .comma => some (reading (.array items :: outer) .value)
  | .object members key :: outer, .comma => some (reading (.object members key :: outer) .key)
  | frames, t => takeEnd? frames t

/-- Reads one token. -/
def feed? : Progress → Token → Option Progress
  | complete _, _ => none
  | reading frames .value, t => takeValue? frames t
  -- The end may follow an opening bracket, but not a comma.
  | reading frames .valueOrEnd, t =>
    if t = .closeBracket then takeEnd? frames t else takeValue? frames t
  | reading frames .key, t => takeKey? frames t
  | reading frames .keyOrEnd, t =>
    if t = .closeBrace then takeEnd? frames t else takeKey? frames t
  | reading frames .colon, t => if t = .colon then some (reading frames .value) else none
  | reading frames .commaOrEnd, t => takeComma? frames t

/-- The document, if it is complete. -/
def value? : Progress → Option Value
  | complete v => some v
  | reading _ _ => none

end Progress

/-- The value that tokens spell. -/
def Value.ofTokens? (ts : List Token) : Option Value :=
  (ts.foldlM Progress.feed? Progress.start).bind Progress.value?

/-- Reads a document. -/
def parse? (text : String) : Option Value := (tokenize? text).bind Value.ofTokens?

end NibbleArena.Json
