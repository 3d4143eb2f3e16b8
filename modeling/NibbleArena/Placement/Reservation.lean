/-! # Reservations — the cells around a start that are taken

    A start takes the half-open window from `reach` cells before it up to
    `reach` cells after it, around the circle.  A window at least as long as the
    core takes all of it. -/

namespace NibbleArena

/-- Which cells of a core are taken. -/
structure Reservations where
  taken : Array Bool
  deriving DecidableEq

namespace Reservations

/-- A core of `n` cells with none taken. -/
def empty (n : Nat) : Reservations := ⟨Array.replicate n false⟩

/-- The number of cells. -/
def size (r : Reservations) : Nat := r.taken.size

/-- Whether a cell is taken; outside of the core all is. -/
def isTaken (r : Reservations) (a : Nat) : Bool := r.taken.getD a true

/-- The cells that are not taken, in address order. -/
def free (r : Reservations) : List Nat :=
  (List.range r.size).filter fun a => !r.isTaken a

/-- The first cell of the window around a start. -/
def windowStart (size start reach : Nat) : Nat := (start + size - reach % size) % size

/-- Takes `count` cells from `first` on, around the circle. -/
def take (r : Reservations) (first : Nat) : (count : Nat) → Reservations
  | 0 => r
  | k + 1 => take ⟨r.taken.setIfInBounds ((first + k) % r.taken.size) true⟩ first k

/-- Takes all cells. -/
def takeAll (r : Reservations) : Reservations := ⟨Array.replicate r.size true⟩

/-- Takes the window around a start. -/
def reserve (r : Reservations) (start reach : Nat) : Reservations :=
  if r.size ≤ 2 * reach then r.takeAll
  else
    let first := windowStart r.size start reach
    r.take first (2 * reach)

end Reservations

end NibbleArena
