import NibbleArena.Proofs.Json.Document

/-! # Rendering documents — a spelling for every value

    A value has many spellings.  The one that is made here has no blanks and no fractions,
    and escapes in a string only what cannot stand for itself.  Numbers that are not
    natural have lost their digits, so any of them will do; so will any string that is no
    text.

    A rendered value is a spelling of it (`denotes_render`), so it is read again
    (`parse?_render`). -/

namespace NibbleArena.Json

/-! ## Writing -/

/-- The character as a piece that may stand in a string. -/
def pieceOf (c : Char) : Piece :=
  if c = '"' ∨ c = '\\' ∨ c.toNat < 0x20 then .unit c.toNat else .char c

/-- A piece written down. -/
def Piece.write : Piece → List Char
  | char c => [c]
  | unit n =>
    ['\\', 'u', (n / 4096).digitChar, (n / 256 % 16).digitChar, (n / 16 % 16).digitChar,
      (n % 16).digitChar]

/-- Pieces between quotes. -/
def quoted (ps : List Piece) : List Char := '"' :: (ps.flatMap Piece.write ++ ['"'])

/-- A token written down. -/
def Token.write : Token → List Char
  | openBrace => ['\x7b']
  | closeBrace => ['\x7d']
  | openBracket => ['[']
  | closeBracket => [']']
  | colon => [':']
  | comma => [',']
  | null => ['n', 'u', 'l', 'l']
  | boolean true => ['t', 'r', 'u', 'e']
  | boolean false => ['f', 'a', 'l', 's', 'e']
  | natural n => Nat.toDigits 10 n
  | number => ['-', '0']
  | text (some s) => quoted (s.toList.map pieceOf)
  | text none => quoted [.unit 0xd800]

/-- A value written down without blanks. -/
def Value.render (v : Value) : String := String.ofList (v.tokens.flatMap Token.write)

/-! ## Numbers -/

/-- No number but zero begins with a zero. -/
theorem head_toDigits (n : Nat) (h : (Nat.toDigits 10 n).head? = some '0') : n = 0 := by
  induction n using Nat.strongRecOn with
  | ind n ih =>
      rcases Nat.lt_or_ge n 10 with hn | hn
      · have hdigit : ∀ d : Fin 10, some d.val.digitChar = some '0' → d.val = 0 := by decide
        rw [Nat.toDigits_of_lt_base hn] at h
        exact hdigit ⟨n, hn⟩ h
      · obtain ⟨d, ds, hfront⟩ : ∃ d ds, Nat.toDigits 10 (n / 10) = d :: ds :=
          List.exists_cons_of_ne_nil Nat.toDigits_ne_nil
        rw [Nat.toDigits_of_base_le (by omega) hn, hfront] at h
        have hhead : (Nat.toDigits 10 (n / 10)).head? = some '0' := by
          rw [hfront]
          exact h
        have hzero := ih (n / 10) (by omega) hhead
        omega

theorem whole_toDigits (n : Nat) : Whole (Nat.toDigits 10 n) where
  ne_nil := Nat.toDigits_ne_nil
  isDigit _ hc := Nat.isDigit_of_mem_toDigits (by omega) (by omega) hc
  alone h := by
    rw [head_toDigits n h]
    rfl

/-! ## Strings -/

theorem hexDigit_digitChar {n : Nat} (h : n < 16) : HexDigit n.digitChar n := by
  have hall : ∀ d : Fin 16, "0123456789abcdef".toList[d.val]? = some d.val.digitChar := by decide
  exact Or.inl (hall ⟨n, h⟩)

theorem spelled_unit {n : Nat} (h : n < 65536) : (Piece.unit n).Spelled (Piece.unit n).write := by
  have hdigits : n = ((n / 4096 * 16 + n / 256 % 16) * 16 + n / 16 % 16) * 16 + n % 16 := by omega
  have hspelled := Piece.Spelled.unit (hexDigit_digitChar (n := n / 4096) (by omega))
    (hexDigit_digitChar (n := n / 256 % 16) (by omega))
    (hexDigit_digitChar (n := n / 16 % 16) (by omega))
    (hexDigit_digitChar (n := n % 16) (by omega))
  rw [← hdigits] at hspelled
  exact hspelled

/-- A character that has to be escaped is below the surrogates. -/
theorem toNat_of_escaped {c : Char} (h : c = '"' ∨ c = '\\' ∨ c.toNat < 0x20) :
    c.toNat < 0x80 := by
  rcases h with rfl | rfl | h
  · decide
  · decide
  · omega

theorem spelled_pieceOf (c : Char) : (pieceOf c).Spelled (pieceOf c).write := by
  by_cases hc : c = '"' ∨ c = '\\' ∨ c.toNat < 0x20
  · rw [pieceOf, if_pos hc]
    have hsmall := toNat_of_escaped hc
    exact spelled_unit (by omega)
  · rw [pieceOf, if_neg hc]
    obtain ⟨hquote, hslash, hprint⟩ := not_or.1 hc |>.imp_right not_or.1
    exact .plain hquote hslash (Nat.le_of_not_lt hprint)

theorem makesText_pieceOf (c : Char) {ps : List Piece} {t : List Char} (h : MakesText ps t) :
    MakesText (pieceOf c :: ps) (c :: t) := by
  by_cases hc : c = '"' ∨ c = '\\' ∨ c.toNat < 0x20
  · rw [pieceOf, if_pos hc]
    have hsmall := toNat_of_escaped hc
    have hscalar := h.scalar (n := c.toNat) (by omega)
    rw [Char.ofNat_toNat] at hscalar
    exact hscalar
  · rw [pieceOf, if_neg hc]
    exact h.char

theorem spellsPieces_write {ps : List Piece} (h : ∀ p ∈ ps, p.Spelled p.write) :
    SpellsPieces ps (ps.flatMap Piece.write) := by
  induction ps with
  | nil => exact .nil
  | cons p ps ih =>
      exact .cons (h p List.mem_cons_self) (ih fun q hq => h q (List.mem_cons_of_mem p hq))

theorem makesText_map (t : List Char) : MakesText (t.map pieceOf) t := by
  induction t with
  | nil => exact .nil
  | cons c t ih => exact makesText_pieceOf c ih

/-! ## Tokens and documents -/

theorem spelled_write (t : Token) : t.Spelled t.write := by
  cases t with
  | openBrace => exact .openBrace
  | closeBrace => exact .closeBrace
  | openBracket => exact .openBracket
  | closeBracket => exact .closeBracket
  | colon => exact .colon
  | comma => exact .comma
  | null => exact .null
  | boolean b =>
      cases b with
      | false => exact .false
      | true => exact .true
  | natural n =>
      have hspelled := Token.Spelled.natural (whole_toDigits n)
      rw [Nat.ofDigitChars_ten_toDigits] at hspelled
      exact hspelled
  | number =>
      have hzero : Whole ['0'] := whole_toDigits 0
      exact .number (List.mem_cons_of_mem _ List.mem_cons_self) hzero .absent .absent
        (List.cons_ne_nil _ _)
  | text s =>
      cases s with
      | some s =>
          have hspells : SpellsPieces (s.toList.map pieceOf)
              ((s.toList.map pieceOf).flatMap Piece.write) := by
            refine spellsPieces_write fun p hp => ?_
            obtain ⟨c, -, rfl⟩ := List.mem_map.1 hp
            exact spelled_pieceOf c
          have hspelled := Token.Spelled.text hspells (makesText_map s.toList)
          rw [String.ofList_toList] at hspelled
          exact hspelled
      | none =>
          have hspells : SpellsPieces [.unit 0xd800] ([Piece.unit 0xd800].flatMap Piece.write) := by
            refine spellsPieces_write fun p hp => ?_
            rw [List.mem_singleton.1 hp]
            exact spelled_unit (by omega)
          refine .noText hspells fun t ht => ?_
          exact nomatch charsOfPieces?_of_makesText ht

section Rows

variable {t : Token} {ts : List Token} {cs rest : List Char}

/-- A token may be followed at once by what spells the others. -/
theorem Spells.token (ht : t.Spelled cs) (h : Spells ts rest) : Spells (t :: ts) (cs ++ rest) := by
  have hnone : Blanks [] := nofun
  exact .cons hnone ht h

/-- So may a blank. -/
theorem Spells.blank {c : Char} (hc : c ∈ [' ', '\t', '\n', '\r']) (h : Spells ts rest) :
    Spells ts (c :: rest) := by
  cases h with
  | nil hbs => exact .nil (List.forall_mem_cons.2 ⟨hc, hbs⟩)
  | @cons bs cs rest t ts hbs ht hrest =>
      have hblanks : Blanks (c :: bs) := List.forall_mem_cons.2 ⟨hc, hbs⟩
      exact .cons hblanks ht hrest

theorem Spells.write (t : Token) (h : Spells ts rest) : Spells (t :: ts) (t.write ++ rest) :=
  .token (spelled_write t) h

end Rows

theorem spells_write (ts : List Token) : Spells ts (ts.flatMap Token.write) := by
  induction ts with
  | nil => exact .nil nofun
  | cons t ts ih => exact .write t ih

/-- What is rendered is a spelling of the value. -/
theorem denotes_render (v : Value) : Denotes v.render v := by
  rw [Denotes, Value.render, String.toList_ofList]
  exact spells_write v.tokens

/-- A rendered value is read again. -/
theorem parse?_render (v : Value) : parse? v.render = some v :=
  parse?_of_denotes (denotes_render v)

end NibbleArena.Json
