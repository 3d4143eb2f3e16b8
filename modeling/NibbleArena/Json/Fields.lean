import NibbleArena.Json.Value

/-! # Fields — settings given as a document

    Settings are a document with named fields: an object whose members are the
    fields, in any order, or an array of the fields in their own order.  What is
    missing is left as it was.  What a member does is up to the settings; that a
    field is given at most once is said by `give?`. -/

namespace NibbleArena.Json

/-- Gives a field its value, if it has none yet. -/
def give? {α : Type} (field value : Option α) : Option (Option α) :=
  if field.isSome then none else value.map some

/-- Takes in members from left to right.  A key that is no text rejects them. -/
def gather? {ω : Type} (add? : ω → String → Value → Option ω) (start : ω)
    (members : List (Option String × Value)) : Option ω :=
  members.foldlM (fun o m => m.1.bind fun key => add? o key m.2) start

/-- Takes in a document, whose array form has the fields of `names`. -/
def Value.fields? {ω : Type} (add? : ω → String → Value → Option ω) (names : List String)
    (start : ω) : Value → Option ω
  | object members => gather? add? start members
  | array items =>
    if items.length ≤ names.length then gather? add? start ((names.map some).zip items)
    else none
  | _ => none

end NibbleArena.Json
