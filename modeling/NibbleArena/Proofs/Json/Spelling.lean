import NibbleArena.Json.Value

/-! # Spellings — how a document is written down

    The grammar of documents, said without a reader.  A number is a whole part without
    zeros in front, perhaps with a minus, a fraction and an exponent.  A string is a row
    of pieces between quotes; a piece is a character that stands for itself, an escape,
    or a 16-bit unit, and a text comes out of the pieces if the units of the surrogate
    pairs find each other.

    `Token.Spelled` says which characters spell a token, and `Spells` which spell a row
    of tokens, with any blanks in front of, between and behind them.  A document is
    written as the tokens of its value (`Value.tokens`), so `Denotes` is all there is to
    say about a text: which value it is the text of, if any. -/

namespace NibbleArena.Json

/-! ## Blanks and numbers -/

/-- Nothing but characters that may stand between tokens. -/
def Blanks (cs : List Char) : Prop := ∀ c ∈ cs, c ∈ [' ', '\t', '\n', '\r']

/-- A row of digits. -/
structure Digits (cs : List Char) : Prop where
  ne_nil : cs ≠ []
  isDigit : ∀ c ∈ cs, c.isDigit = true

/-- A row of digits without a zero in front of others. -/
structure Whole (cs : List Char) : Prop extends Digits cs where
  alone : cs.head? = some '0' → cs = ['0']

/-- A point and digits, or nothing. -/
inductive Fraction : List Char → Prop
  | absent : Fraction []
  | present {ds : List Char} : Digits ds → Fraction ('.' :: ds)

/-- A letter, perhaps a sign, and digits, or nothing. -/
inductive Exponent : List Char → Prop
  | absent : Exponent []
  | present {mark : Char} {sign ds : List Char} :
      mark ∈ ['e', 'E'] → sign ∈ [[], ['+'], ['-']] → Digits ds → Exponent (mark :: (sign ++ ds))

/-! ## Strings -/

/-- A hexadecimal digit with its value. -/
def HexDigit (c : Char) (n : Nat) : Prop :=
  "0123456789abcdef".toList[n]? = some c ∨ "0123456789ABCDEF".toList[n]? = some c

/-- The letters of the escapes, each with the character that it stands for. -/
def escapes : List (Char × Char) :=
  [('"', '"'), ('\\', '\\'), ('/', '/'), ('b', '\x08'), ('f', '\x0c'), ('n', '\n'),
    ('r', '\r'), ('t', '\t')]

/-- The characters that spell a piece of a string. -/
inductive Piece.Spelled : Piece → List Char → Prop
  /-- A character that needs no escape stands for itself. -/
  | plain {c : Char} : c ≠ '"' → c ≠ '\\' → 0x20 ≤ c.toNat → Spelled (.char c) [c]
  | escaped {e c : Char} : (e, c) ∈ escapes → Spelled (.char c) ['\\', e]
  | unit {a b c d : Char} {i j k l : Nat} :
      HexDigit a i → HexDigit b j → HexDigit c k → HexDigit d l →
      Spelled (.unit (((i * 16 + j) * 16 + k) * 16 + l)) ['\\', 'u', a, b, c, d]

/-- The characters that spell a row of pieces. -/
inductive SpellsPieces : List Piece → List Char → Prop
  | nil : SpellsPieces [] []
  | cons {p : Piece} {ps : List Piece} {cs rest : List Char} :
      p.Spelled cs → SpellsPieces ps rest → SpellsPieces (p :: ps) (cs ++ rest)

/-- The text that pieces make up. -/
inductive MakesText : List Piece → List Char → Prop
  | nil : MakesText [] []
  | char {c : Char} {ps : List Piece} {t : List Char} :
      MakesText ps t → MakesText (.char c :: ps) (c :: t)
  /-- A unit by itself is a character unless it is half of a surrogate pair. -/
  | scalar {n : Nat} {ps : List Piece} {t : List Char} :
      n < 0xd800 ∨ 0xe000 ≤ n → MakesText ps t → MakesText (.unit n :: ps) (Char.ofNat n :: t)
  | pair {n m : Nat} {ps : List Piece} {t : List Char} :
      0xd800 ≤ n → n < 0xdc00 → 0xdc00 ≤ m → m < 0xe000 → MakesText ps t →
      MakesText (.unit n :: .unit m :: ps)
        (Char.ofNat (0x10000 + (n - 0xd800) * 0x400 + (m - 0xdc00)) :: t)

/-! ## Tokens -/

/-- The characters that spell a token. -/
inductive Token.Spelled : Token → List Char → Prop
  | openBrace : Spelled .openBrace ['\x7b']
  | closeBrace : Spelled .closeBrace ['\x7d']
  | openBracket : Spelled .openBracket ['[']
  | closeBracket : Spelled .closeBracket [']']
  | colon : Spelled .colon [':']
  | comma : Spelled .comma [',']
  | null : Spelled .null ['n', 'u', 'l', 'l']
  | true : Spelled (.boolean true) ['t', 'r', 'u', 'e']
  | false : Spelled (.boolean false) ['f', 'a', 'l', 's', 'e']
  | natural {ds : List Char} : Whole ds → Spelled (.natural (Nat.ofDigitChars 10 ds 0)) ds
  /-- A number with a sign, a fraction or an exponent. -/
  | number {sign ds fraction exponent : List Char} :
      sign ∈ [[], ['-']] → Whole ds → Fraction fraction → Exponent exponent →
      sign ++ (fraction ++ exponent) ≠ [] → Spelled .number (sign ++ (ds ++ (fraction ++ exponent)))
  | text {ps : List Piece} {cs t : List Char} :
      SpellsPieces ps cs → MakesText ps t →
      Spelled (.text (some (String.ofList t))) ('"' :: (cs ++ ['"']))
  /-- A string whose pieces make up no text. -/
  | noText {ps : List Piece} {cs : List Char} :
      SpellsPieces ps cs → (∀ t, ¬MakesText ps t) → Spelled (.text none) ('"' :: (cs ++ ['"']))

/-- The characters that spell a row of tokens. -/
inductive Spells : List Token → List Char → Prop
  | nil {bs : List Char} : Blanks bs → Spells [] bs
  | cons {bs cs rest : List Char} {t : Token} {ts : List Token} :
      Blanks bs → t.Spelled cs → Spells ts rest → Spells (t :: ts) (bs ++ (cs ++ rest))

/-! ## Documents -/

mutual

/-- The tokens of a value. -/
def Value.tokens : Value → List Token
  | .null => [.null]
  | .boolean b => [.boolean b]
  | .natural n => [.natural n]
  | .number => [.number]
  | .text s => [.text s]
  | .array [] => [.openBracket, .closeBracket]
  | .array (v :: items) => .openBracket :: (v.tokens ++ furtherItems items)
  | .object [] => [.openBrace, .closeBrace]
  | .object ((key, v) :: members) =>
    .openBrace :: .text key :: .colon :: (v.tokens ++ furtherMembers members)

/-- The tokens behind the first item of an array. -/
def furtherItems : List Value → List Token
  | [] => [.closeBracket]
  | v :: items => .comma :: (v.tokens ++ furtherItems items)

/-- The tokens behind the first member of an object. -/
def furtherMembers : List (Option String × Value) → List Token
  | [] => [.closeBrace]
  | (key, v) :: members => .comma :: .text key :: .colon :: (v.tokens ++ furtherMembers members)

end

/-- The text is a spelling of the value. -/
def Denotes (text : String) (v : Value) : Prop := Spells v.tokens text.toList

end NibbleArena.Json
