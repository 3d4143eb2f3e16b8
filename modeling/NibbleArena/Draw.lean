/-! # Draws — choosing one of several options by random words

    A choice among `n` options takes words one at a time until one is accepted.
    The product of a word and `n` is read in two halves: the high half is the
    option, and the low half decides whether the word counts.  Just as many low
    halves are accepted for one option as for any other, so all options are
    equally likely.

    The words have 32 bits if the number of options is a word of 32 bits, and
    64 bits otherwise.

    Words of 32 bits come from a `WordSource`, and two of them make a word of 64
    bits.  The source says how many words a choice may take before it settles for
    the first option; a source that is going to give an acceptable word gives it
    within that number.

    Whoever only needs a choice asks a `Chooser`, and does not see by which words
    it was made. -/

namespace NibbleArena

/-- A state that can choose one of several options. -/
class Chooser (σ : Type) where
  /-- The number of the option that is chosen. -/
  choose : (n : Nat) → 0 < n → σ → Fin n × σ

namespace Draw

variable {bits n word i : Nat}

/-- The number of bits of the words by which one of `n` options is chosen. -/
def width (n : Nat) : Nat := if n < UInt32.size then 32 else 64

/-- The number of leading zeros of a word of so many bits that is not zero. -/
def leadingZeros (bits n : Nat) : Nat := bits - 1 - n.log2

/-- The largest low half that is accepted for `n` options. -/
def zone (bits n : Nat) : Nat := (n <<< leadingZeros bits n) - 1

/-- The option that a word of so many bits selects among `n`, if the word is accepted. -/
def select? (bits n word : Nat) : Option Nat :=
  if word * n % (1 <<< bits) ≤ zone bits n then some ((word * n) >>> bits) else none

/-- A selected option is one of the `n`. -/
theorem select?_lt (hw : word < 1 <<< bits) (hn : 0 < n) (h : select? bits n word = some i) :
    i < n := by
  unfold select? at h
  split at h
  · cases h
    rw [Nat.one_shiftLeft] at hw
    rw [Nat.shiftRight_eq_div_pow, Nat.div_lt_iff_lt_mul (Nat.two_pow_pos bits), Nat.mul_comm n]
    exact Nat.mul_lt_mul_of_pos_right hw hn
  · exact nomatch h

end Draw

/-- A state that gives words of 32 bits. -/
class WordSource (σ : Type) where
  /-- The next word. -/
  next : σ → UInt32 × σ
  /-- How many words a choice may take. -/
  patience : σ → Nat

namespace Draw

variable {σ : Type} [WordSource σ]

/-- The next word of 64 bits; its low half comes first. -/
def nextPair (s : σ) : UInt64 × σ :=
  match WordSource.next s with
  | (low, s) =>
    match WordSource.next s with
    | (high, s) => (low.toUInt64 ||| (high.toUInt64 <<< 32), s)

/-- The next word by which one of `n` options is chosen. -/
def nextWord (n : Nat) (s : σ) : Nat × σ :=
  if n < UInt32.size then
    match WordSource.next s with
    | (w, s) => (w.toNat, s)
  else
    match nextPair s with
    | (w, s) => (w.toNat, s)

/-- A word has the bits that it should have. -/
theorem nextWord_lt (n : Nat) (s : σ) : (nextWord n s).1 < 1 <<< width n := by
  unfold nextWord width
  split
  · exact (WordSource.next s).1.toNat_lt_size
  · exact (nextPair s).1.toNat_lt_size

/-- Takes words until one is accepted, at most `limit` of them. -/
def chooseWithin (n : Nat) : (limit : Nat) → σ → Nat × σ
  | 0, s => (0, s)
  | limit + 1, s =>
    match nextWord n s with
    | (w, s) =>
      match select? (width n) n w with
      | some i => (i, s)
      | none => chooseWithin n limit s

/-- Chooses one of `n` options. -/
def choose (n : Nat) (s : σ) : Nat × σ := chooseWithin n (WordSource.patience s) s

/-- A choice among at least one option is one of them. -/
theorem chooseWithin_lt (hn : 0 < n) (limit : Nat) (s : σ) :
    (chooseWithin n limit s).1 < n := by
  induction limit generalizing s with
  | zero => exact hn
  | succ limit ih =>
    unfold chooseWithin
    dsimp only
    split
    · rename_i i hi
      exact select?_lt (nextWord_lt n s) hn hi
    · exact ih (nextWord n s).2

/-- A source of words chooses by its words. -/
instance : Chooser σ where
  choose n hn s :=
    let drawn := choose n s
    (⟨drawn.1, chooseWithin_lt hn _ s⟩, drawn.2)

end Draw

end NibbleArena
