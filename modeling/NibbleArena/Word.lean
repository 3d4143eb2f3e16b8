/-! # Words — the ranges of sizes and counts

    Sizes, addresses, seeds, scores and cycle counts are words of 64 bits; the number of
    rounds is a word of 32 bits.  They are plain numbers here, and the places where a sum
    may leave the range say what then happens: `saturated` stays at the top of the range,
    `checked?` gives nothing, and `wrapped` and `wrapped32` go on from zero.

    To go on from zero is what a sum does that nobody checks, unless the program was built
    to stop there.  The scores of an arena, its count of rounds and the points that a round
    shares out are such numbers.  Sums that stay in the range by their own bounds, such as
    the cycles of a bout, are left as they are. -/

namespace NibbleArena.Word

/-- The largest word of 64 bits. -/
def max64 : Nat := UInt64.size - 1

/-- The largest word of 32 bits. -/
def max32 : Nat := UInt32.size - 1

/-- The number itself, or the top of the range. -/
def saturated (n : Nat) : Nat := min n max64

/-- The number itself, if it is a word. -/
def checked? (n : Nat) : Option Nat := if n ≤ max64 then some n else none

/-- The number itself, or what is left of it behind the top of the range. -/
def wrapped (n : Nat) : Nat := n % UInt64.size

/-- The same for words of 32 bits. -/
def wrapped32 (n : Nat) : Nat := n % UInt32.size

theorem wrapped_of_lt {n : Nat} (h : n < UInt64.size) : wrapped n = n := Nat.mod_eq_of_lt h

theorem wrapped32_of_lt {n : Nat} (h : n < UInt32.size) : wrapped32 n = n := Nat.mod_eq_of_lt h

theorem wrapped_lt (n : Nat) : wrapped n < UInt64.size := Nat.mod_lt n (by decide)

theorem wrapped32_lt (n : Nat) : wrapped32 n < UInt32.size := Nat.mod_lt n (by decide)

/-- It does not matter whether the first summand is wrapped before. -/
theorem wrapped_add_wrapped (m n : Nat) : wrapped (wrapped m + n) = wrapped (m + n) :=
  Nat.mod_add_mod m UInt64.size n

/-- It does not matter whether the first summand is wrapped before. -/
theorem wrapped32_add_wrapped32 (m n : Nat) :
    wrapped32 (wrapped32 m + n) = wrapped32 (m + n) :=
  Nat.mod_add_mod m UInt32.size n

end NibbleArena.Word
