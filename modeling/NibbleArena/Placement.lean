import NibbleArena.Crash
import NibbleArena.Draw
import NibbleArena.Placement.Reservation
import NibbleArena.Word

/-! # Placement — where the agents of a round start

    The first agent starts at address zero.  Every other agent starts at a cell
    drawn from those that no earlier start has taken.  Since a start takes the
    cells on both sides of it, no two programs can come to lie on each other.

    A placement that fails has used the draws it has made.  Before the first draw it makes
    two lists: the flags of all cells, a byte each, and the starts, a word for each agent.
    If one of them is too long for any memory, it crashes there. -/

namespace NibbleArena

namespace Placement

/-- The start of the first agent. -/
def anchor : Nat := 0

/-- How far the window of a start reaches to each side. -/
def reach (separation maxLength : Nat) : Nat := Word.saturated (separation + maxLength)

/-- There is no cell to place an agent on. -/
def emptyCore : Fault :=
  (Fault.new .invalidArgument "cannot place agents in an empty core").during "arena::place"

/-- No cell is left for an agent. -/
def crowded (agent coreSize : Nat) : Fault :=
  (Fault.placementFailed agent coreSize).during "arena::place"

variable {σ : Type} [Chooser σ]

/-- Draws one of the cells, if there are any. -/
def drawCell (cells : List Nat) (s : σ) : Option Nat × σ :=
  match cells with
  | [] => (none, s)
  | first :: rest =>
    match Chooser.choose (rest.length + 1) (Nat.succ_pos _) s with
    | (i, s) => (some ((first :: rest).get i), s)

/-- Places `count` more agents, of which the first has the number `agent`. -/
def placeRest (reach : Nat) : (count agent : Nat) → Reservations → σ →
    Except Fault (List Nat) × σ
  | 0, _, _, s => (.ok [], s)
  | count + 1, agent, r, s =>
    match drawCell r.free s with
    | (none, s) => (.error (crowded agent r.size), s)
    | (some start, s) =>
      match placeRest reach count (agent + 1) (r.reserve start reach) s with
      | (.ok starts, s) => (.ok (start :: starts), s)
      | (.error f, s) => (.error f, s)

/-- Places `count` agents on a core with no cell taken. -/
def placeAll (coreSize count separation maxLength : Nat) (s : σ) :
    Except Fault (List Nat) × σ :=
  match count with
  -- Without agents nothing is reserved.
  | 0 => (.ok [], s)
  | count + 1 =>
    let reach := reach separation maxLength
    match placeRest reach count 1 ((Reservations.empty coreSize).reserve anchor reach) s with
    | (.ok starts, s) => (.ok (anchor :: starts), s)
    | (.error f, s) => (.error f, s)

/-- The flags of the cells and the starts of the agents find their memory. -/
def Fits (coreSize count : Nat) : Prop :=
  Memory.Holds coreSize 1 ∧ Memory.Holds count Memory.wordBytes

instance (coreSize count : Nat) : Decidable (Fits coreSize count) :=
  inferInstanceAs (Decidable (Memory.Holds coreSize 1 ∧ Memory.Holds count Memory.wordBytes))

/-- Chooses a start for each of `count` agents. -/
def place (coreSize count separation maxLength : Nat) (s : σ) :
    Except Failure (List Nat) × σ :=
  if coreSize = 0 then (.error emptyCore, s)
  else if Fits coreSize count then
    match placeAll coreSize count separation maxLength s with
    | (.ok starts, s) => (.ok starts, s)
    | (.error f, s) => (.error f, s)
  else (.error (.crash .capacityOverflow), s)

end Placement

end NibbleArena
