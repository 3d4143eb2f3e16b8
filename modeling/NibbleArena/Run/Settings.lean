import NibbleArena.Core
import NibbleArena.Fault
import NibbleArena.Json.Fields
import NibbleArena.Word

/-! # Settings of a run — size of the core and budget of cycles

    Settings may be given as a JSON document: an object, where what is missing
    keeps its default and unknown members are passed over, or an array with the
    fields in order.  A field may be given once. -/

namespace NibbleArena

/-- The core size and the largest number of steps of a run. -/
structure RunSettings where
  coreSize : Nat
  maxCycles : Nat
  deriving DecidableEq

namespace RunSettings

/-- The settings of a run, unless told otherwise. -/
def default : RunSettings := ⟨Core.defaultSize, 100000000⟩

/-- The fault of settings without cells. -/
def emptyCore : Fault :=
  (Fault.configInvalid "core_size" "core size must be nonzero").during
    "interpreter::validate"

/-- Says whether a run can have these settings. -/
def validate (s : RunSettings) : Except Fault Unit :=
  if s.coreSize = 0 then .error emptyCore else .ok ()

/-- Fields that replace those of other settings. -/
structure Overrides where
  coreSize : Option Nat := none
  maxCycles : Option Nat := none
  deriving DecidableEq

/-- The settings with the given fields replaced. -/
def override (s : RunSettings) (o : Overrides) : RunSettings :=
  ⟨o.coreSize.getD s.coreSize, o.maxCycles.getD s.maxCycles⟩

namespace Overrides

/-- The fields in the order of an array. -/
def fieldNames : List String := ["core_size", "max_cycles"]

/-- Takes in a member of a document; an unknown one is passed over. -/
def add? (o : Overrides) (key : String) (v : Json.Value) : Option Overrides :=
  match key with
  | "core_size" =>
    (Json.give? o.coreSize (v.naturalUpTo? Word.max64)).map ({ o with coreSize := · })
  | "max_cycles" =>
    (Json.give? o.maxCycles (v.naturalUpTo? Word.max64)).map ({ o with maxCycles := · })
  | _ => some o

/-- The fields that a document gives. -/
def ofValue? (v : Json.Value) : Option Overrides := v.fields? add? fieldNames {}

end Overrides

/-- Settings from a JSON document. -/
def ofJson? (text : String) : Option RunSettings :=
  ((Json.parse? text).bind Overrides.ofValue?).map default.override

end RunSettings

end NibbleArena
