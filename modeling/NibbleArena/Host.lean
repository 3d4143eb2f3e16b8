import NibbleArena.Fault

/-! # Hosts — what lies outside of the core

    Three instructions reach out of the core: one hands over a character, one
    asks for a character and one exchanges a character with a buffer.  A host
    answers them.  Each answer comes with the host as it is afterwards, also
    when the answer is a fault.

    A sealed host answers nothing: inside an arena these instructions do not
    have an effect. -/

namespace NibbleArena

/-- A state that can answer the three instructions. -/
class Host (σ : Type) where
  /-- Takes a character. -/
  output : UInt8 → σ → Except Fault Unit × σ
  /-- Gives a character to store; `none` stores nothing. -/
  input : σ → Except Fault (Option UInt8) × σ
  /-- Takes a character for the buffer and gives the one that was there; `none`
      stores nothing. -/
  swap : UInt8 → σ → Option UInt8 × σ

/-- The host of an arena. -/
inductive SealedHost
  | sealed
  deriving DecidableEq

/-- A sealed host takes every character, has none to give and has no buffer. -/
instance : Host SealedHost where
  output _ h := (.ok (), h)
  input h := (.ok none, h)
  swap _ h := (none, h)

end NibbleArena
