import NibbleArena.Fault
import NibbleArena.Json.Fields
import NibbleArena.Placement
import NibbleArena.Word

/-! # Settings of an arena — the core, the spacing, the limits and the seed

    Settings may be given as a JSON document: an object, where what is missing
    keeps its default and unknown members are passed over, or an array with the
    fields in order.  A field may be given once; the seed alone may be null.

    Settings are valid if two agents fit on the core: it has to be longer than
    two windows of one side each, `2 * (maxLength + separation)` cells. -/

namespace NibbleArena

/-- The settings of an arena. -/
structure ArenaSettings where
  /-- The number of cells of the shared core. -/
  coreSize : Nat
  /-- The least gap between the programs of two agents. -/
  separation : Nat
  /-- The largest number of characters of a program text. -/
  maxLength : Nat
  /-- The largest number of sweeps of a round. -/
  maxCycles : Nat
  /-- The number of rounds of a battle. -/
  rounds : Nat
  /-- What the placement is drawn from; without it, every battle differs. -/
  seed : Option Nat
  deriving DecidableEq

namespace ArenaSettings

/-- The settings of an arena, unless told otherwise. -/
def default : ArenaSettings := ⟨8000, 100, 100, 10000, 10000, none⟩

/-- How far the window of a start reaches to each side. -/
def reach (s : ArenaSettings) : Nat := Word.saturated (s.maxLength + s.separation)

/-- The length of a whole window, if it is a word. -/
def span? (s : ArenaSettings) : Option Nat :=
  (Word.checked? (s.maxLength + s.separation)).bind fun reach => Word.checked? (reach * 2)

/-- Whether the core is longer than a whole window. -/
def holdsTwo (s : ArenaSettings) : Bool :=
  match s.span? with
  | some span => span < s.coreSize
  | none => false

/-- A field has a value that an arena cannot use. -/
def invalid (field reason : String) : Fault :=
  (Fault.configInvalid field reason).during "arena::validate"

/-- The fault of settings without cells. -/
def emptyCore : Fault := invalid "core_size" "core size must be nonzero"

/-- Says whether an arena can have these settings. -/
def validate (s : ArenaSettings) : Except Fault Unit :=
  if s.coreSize = 0 then .error emptyCore
  else if s.maxLength = 0 then .error (invalid "max_length" "max length must be nonzero")
  else if s.rounds = 0 then .error (invalid "rounds" "a battle needs at least one round")
  else if s.holdsTwo then .ok ()
  else .error (invalid "core_size"
    s!"core of {s.coreSize} cells cannot hold two agents with reach {s.reach}")

/-- Fields that replace those of other settings. -/
structure Overrides where
  coreSize : Option Nat := none
  separation : Option Nat := none
  maxLength : Option Nat := none
  maxCycles : Option Nat := none
  rounds : Option Nat := none
  seed : Option (Option Nat) := none
  deriving DecidableEq

/-- The settings with the given fields replaced. -/
def override (s : ArenaSettings) (o : Overrides) : ArenaSettings :=
  ⟨o.coreSize.getD s.coreSize, o.separation.getD s.separation, o.maxLength.getD s.maxLength,
    o.maxCycles.getD s.maxCycles, o.rounds.getD s.rounds, o.seed.getD s.seed⟩

/-! ## Documents -/

namespace Overrides

/-- The fields in the order of an array. -/
def fieldNames : List String :=
  ["core_size", "separation", "max_length", "max_cycles", "rounds", "seed"]

/-- A seed or null. -/
def seed? : Json.Value → Option (Option Nat)
  | .null => some none
  | v => (v.naturalUpTo? Word.max64).map some

/-- Takes in a member of a document; an unknown one is passed over. -/
def add? (o : Overrides) (key : String) (v : Json.Value) : Option Overrides :=
  match key with
  | "core_size" =>
    (Json.give? o.coreSize (v.naturalUpTo? Word.max64)).map ({ o with coreSize := · })
  | "separation" =>
    (Json.give? o.separation (v.naturalUpTo? Word.max64)).map ({ o with separation := · })
  | "max_length" =>
    (Json.give? o.maxLength (v.naturalUpTo? Word.max64)).map ({ o with maxLength := · })
  | "max_cycles" =>
    (Json.give? o.maxCycles (v.naturalUpTo? Word.max64)).map ({ o with maxCycles := · })
  | "rounds" =>
    (Json.give? o.rounds (v.naturalUpTo? Word.max32)).map ({ o with rounds := · })
  | "seed" =>
    (Json.give? o.seed (seed? v)).map ({ o with seed := · })
  | _ => some o

/-- The fields that a document gives. -/
def ofValue? (v : Json.Value) : Option Overrides := v.fields? add? fieldNames {}

end Overrides

/-- A document that does not give settings. -/
def unreadable : Fault :=
  let reason := "the document does not give arena settings"
  ((Fault.new .parseFailed s!"invalid arena config: {reason}").during
    "arena::config").causedBy [reason]

/-- Settings from a JSON document. -/
def ofJson (text : String) : Except Fault ArenaSettings :=
  match (Json.parse? text).bind Overrides.ofValue? with
  | some o => .ok (default.override o)
  | none => .error unreadable

end ArenaSettings

end NibbleArena
