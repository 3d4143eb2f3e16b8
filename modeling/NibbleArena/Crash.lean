import NibbleArena.Fault

/-! # Crashes — what ends a program at once

    A fault is handed back to whoever asked.  A crash is not: the program ends there and
    leaves nothing but a message.  What does not succeed has met one or the other, a
    `Failure`.

    A list of a known length asks for all of its memory at once.  No memory is larger than
    `2 ^ 63 - 1` bytes, so a longer list is a crash on every machine; any other list is
    taken to find its memory.  Lists that grow while they are filled are not counted: the
    longest of them has the free cells of a core, and it would be too long only on a core
    of more than `2 ^ 59` cells. -/

namespace NibbleArena

/-- What ended the program. -/
inductive Crash
  /-- A core without cells was asked for. -/
  | emptyCore
  /-- A list was asked for that no memory holds. -/
  | capacityOverflow
  deriving DecidableEq

/-- What a crash leaves. -/
def Crash.message : Crash → String
  | emptyCore => "core size must be nonzero"
  | capacityOverflow => "capacity overflow"

/-- Why something did not succeed. -/
inductive Failure
  | fault (f : Fault)
  | crash (c : Crash)
  deriving DecidableEq

instance : Coe Fault Failure := ⟨.fault⟩

namespace Memory

/-- The number of bytes of the largest memory: a word counts no more than half of its
    numbers as lengths. -/
def limit : Nat := UInt64.size / 2 - 1

/-- The bytes of a word. -/
def wordBytes : Nat := 8

/-- A list of `count` items of so many bytes each may find its memory. -/
def Holds (count bytes : Nat) : Prop := count * bytes ≤ limit

instance (count bytes : Nat) : Decidable (Holds count bytes) :=
  inferInstanceAs (Decidable (count * bytes ≤ limit))

/-- A list of bytes is as long as it may be. -/
theorem holds_one_iff {count : Nat} : Holds count 1 ↔ count < UInt64.size / 2 := by
  rw [Holds, Nat.mul_one, limit]
  exact Nat.le_sub_one_iff_lt (by decide)

/-- A word takes eight bytes. -/
theorem holds_word_iff {count : Nat} : Holds count wordBytes ↔ count < UInt64.size / 16 := by
  rw [Holds, limit, wordBytes, UInt64.size]
  omega

end Memory

end NibbleArena
