import NibbleArena.Proofs.Json.Reading

/-! # Reading documents — a spelled value is read

    A row of tokens is read from its spelling if no two tokens in a row could be taken
    for one number.  In a document this never happens, since there is a mark between any
    two values (`separated_tokens`).

    The reader of values works on a stack of open containers.  With the tokens of a
    value it ends where it would be if the value had been put there at once
    (`feed_tokens`); the induction runs over the value, with one law for the rest of an
    array and one for the rest of an object.

    Together: a text that is a spelling of a value is read as this value
    (`parse?_of_denotes`). -/

namespace NibbleArena.Json

variable {cs rest bs : List Char} {t : Token}

/-! ## Rows of tokens -/

/-- Two tokens in a row are not both open. -/
def Separated : List Token → Prop
  | [] => True
  | t :: ts => (t.isOpen = true → ∀ u ∈ ts.head?, u.isOpen = false) ∧ Separated ts

theorem isBlank_iff {c : Char} : isBlank c = true ↔ c ∈ [' ', '\t', '\n', '\r'] := by
  simp [isBlank, or_assoc]

theorem dropWhile_blanks (h : Blanks bs) (cs : List Char) :
    (bs ++ cs).dropWhile isBlank = cs.dropWhile isBlank :=
  List.dropWhile_append_of_pos fun c hc => isBlank_iff.2 (h c hc)

/-- No blank belongs to a number. -/
theorem apart_of_blank {c : Char} (h : c ∈ [' ', '\t', '\n', '\r']) :
    c ≠ '-' ∧ c.isDigit = false ∧ c ≠ '.' ∧ c ≠ 'e' ∧ c ≠ 'E' := by
  have hall : ∀ c ∈ [' ', '\t', '\n', '\r'],
      c ≠ '-' ∧ c.isDigit = false ∧ c ≠ '.' ∧ c ≠ 'e' ∧ c ≠ 'E' := by simp
  exact hall c h

theorem isBlank_of_number {c : Char} (h : c = '-' ∨ c.isDigit = true) : isBlank c = false := by
  refine Bool.eq_false_iff.2 fun hc => ?_
  obtain ⟨hminus, hnone, -⟩ := apart_of_blank (isBlank_iff.1 hc)
  rcases h with h | h
  · exact hminus h
  · rw [hnone] at h
    exact Bool.false_ne_true h

/-- A token begins with a character that is no blank and, if it is not open, could not
    make a number longer. -/
theorem head_spelled (h : t.Spelled cs) :
    ∃ c tail, cs = c :: tail ∧ isBlank c = false
      ∧ (t.isOpen = false → c.isDigit = false ∧ c ≠ '.' ∧ c ≠ 'e' ∧ c ≠ 'E') := by
  cases h with
  | natural hds =>
      obtain ⟨c, tail, heq, hc⟩ := head_number (List.mem_cons_self : [] ∈ [[], ['-']]) hds []
      rw [List.append_nil] at heq
      exact ⟨c, tail, heq, isBlank_of_number hc, nofun⟩
  | number hsign hds hfraction hexponent hparts =>
      obtain ⟨c, tail, heq, hc⟩ := head_number hsign hds _
      exact ⟨c, tail, heq, isBlank_of_number hc, nofun⟩
  | text hps ht => exact ⟨'"', _, rfl, rfl, fun _ => by decide⟩
  | noText hps hnone => exact ⟨'"', _, rfl, rfl, fun _ => by decide⟩
  | _ => exact ⟨_, _, rfl, rfl, fun _ => by decide⟩

theorem delimited_blanks (h : Blanks bs) (hrest : Delimited rest) : Delimited (bs ++ rest) := by
  refine forall_head_append ?_ hrest
  intro c hc
  exact (apart_of_blank (h c (List.mem_of_mem_head? hc))).2

/-- Tokens of which the first is not open do not make a number longer. -/
theorem delimited_of_spells {ts : List Token} (h : Spells ts cs)
    (hts : ∀ u ∈ ts.head?, u.isOpen = false) : Delimited cs := by
  cases h with
  | nil hbs =>
      have hnothing : Delimited [] := nofun
      have hend := delimited_blanks hbs hnothing
      rw [List.append_nil] at hend
      exact hend
  | cons hbs ht hrest =>
      refine delimited_blanks hbs ?_
      obtain ⟨c, tail, rfl, -, hmark⟩ := head_spelled ht
      intro d hd
      cases hd
      exact hmark (hts _ rfl)

theorem tokensWithin?_nil (h : cs.dropWhile isBlank = []) (limit : Nat) :
    tokensWithin? limit cs = some [] := by
  unfold tokensWithin?
  simp only [h]

theorem tokensWithin?_succ {c : Char} {tail : List Char} (h : cs.dropWhile isBlank = c :: tail)
    (hnext : Token.next? (c :: tail) = some (t, rest)) (limit : Nat) :
    tokensWithin? (limit + 1) cs = (tokensWithin? limit rest).map (t :: ·) := by
  rw [tokensWithin?.eq_def]
  simp only [h, hnext]

theorem tokensWithin?_of_spells {ts : List Token} (h : Spells ts cs) (hsep : Separated ts)
    {limit : Nat} (hlimit : ts.length ≤ limit) : tokensWithin? limit cs = some ts := by
  induction h generalizing limit with
  | @nil bs hbs =>
      have hend := dropWhile_blanks hbs []
      rw [List.append_nil] at hend
      exact tokensWithin?_nil hend limit
  | @cons bs cs rest t ts hbs ht hrest ih =>
      obtain ⟨hopen, hsep⟩ := hsep
      obtain ⟨c, tail, rfl, hblank, -⟩ := head_spelled ht
      have hfront : (bs ++ (c :: tail ++ rest)).dropWhile isBlank = c :: (tail ++ rest) := by
        have hc : ¬isBlank c = true := by
          rw [hblank]
          exact Bool.false_ne_true
        rw [dropWhile_blanks hbs]
        exact List.dropWhile_cons_of_neg hc
      have hnext := next?_append ht fun h => delimited_of_spells hrest (hopen h)
      cases limit with
      | zero => exact absurd hlimit (Nat.not_succ_le_zero _)
      | succ limit =>
          rw [tokensWithin?_succ hfront hnext, ih hsep (Nat.le_of_succ_le_succ hlimit)]
          rfl

/-- Each token takes at least one character. -/
theorem Spells.length_le {ts : List Token} (h : Spells ts cs) : ts.length ≤ cs.length := by
  induction h with
  | nil hbs => exact Nat.zero_le _
  | cons hbs ht hrest ih =>
      obtain ⟨c, tail, rfl, -, -⟩ := head_spelled ht
      simp only [List.length_cons, List.length_append]
      omega

theorem tokenize?_of_spells {text : String} {ts : List Token} (h : Spells ts text.toList)
    (hsep : Separated ts) : tokenize? text = some ts :=
  tokensWithin?_of_spells h hsep h.length_le

/-! ## The tokens of a value -/

/-- The tokens may stand behind any token. -/
structure Sealed (ts : List Token) : Prop where
  head : ∀ u ∈ ts.head?, u.isOpen = false
  separated : Separated ts

theorem Sealed.cons {ts : List Token} (h : Sealed ts) (t : Token) : Separated (t :: ts) :=
  ⟨fun _ => h.head, h.separated⟩

theorem Sealed.nil : Sealed [] := ⟨nofun, trivial⟩

theorem Separated.mark {ts : List Token} (h : Separated ts) (ht : t.isOpen = false) :
    Sealed (t :: ts) where
  head := by
    intro u hu
    cases hu
    exact ht
  separated := by
    refine ⟨fun hopen => ?_, h⟩
    rw [ht] at hopen
    exact absurd hopen Bool.false_ne_true

mutual

/-- The tokens of a value may stand before any that may stand behind another token. -/
theorem separated_tokens (v : Value) {ts : List Token} (h : Sealed ts) :
    Separated (v.tokens ++ ts) :=
  match v with
  | .null => h.cons .null
  | .boolean b => h.cons (.boolean b)
  | .natural n => h.cons (.natural n)
  | .number => h.cons .number
  | .text s => h.cons (.text s)
  | .array [] => (h.separated.mark rfl).cons .openBracket
  | .array (v :: items) => by
      show Separated (.openBracket :: (v.tokens ++ furtherItems items ++ ts))
      rw [List.append_assoc]
      exact ((separated_tokens v (sealed_furtherItems items h)).mark rfl).separated
  | .object [] => (h.separated.mark rfl).cons .openBrace
  | .object ((key, v) :: members) => by
      show Separated
        (.openBrace :: .text key :: .colon :: (v.tokens ++ furtherMembers members ++ ts))
      rw [List.append_assoc]
      have hcolon := (separated_tokens v (sealed_furtherMembers members h)).mark (t := .colon) rfl
      exact ((hcolon.cons (.text key)).mark (t := .openBrace) rfl).separated

theorem sealed_furtherItems (items : List Value) {ts : List Token} (h : Sealed ts) :
    Sealed (furtherItems items ++ ts) :=
  match items with
  | [] => h.separated.mark rfl
  | v :: items => by
      show Sealed (.comma :: (v.tokens ++ furtherItems items ++ ts))
      rw [List.append_assoc]
      exact (separated_tokens v (sealed_furtherItems items h)).mark rfl

theorem sealed_furtherMembers (members : List (Option String × Value)) {ts : List Token}
    (h : Sealed ts) :
    Sealed (furtherMembers members ++ ts) :=
  match members with
  | [] => h.separated.mark rfl
  | (key, v) :: members => by
      show Sealed (.comma :: .text key :: .colon :: (v.tokens ++ furtherMembers members ++ ts))
      rw [List.append_assoc]
      have hcolon := (separated_tokens v (sealed_furtherMembers members h)).mark (t := .colon) rfl
      exact (hcolon.cons (.text key)).mark (t := .comma) rfl

end

/-! ## From tokens to a value -/

/-- What the reader of values has come to after tokens. -/
def Progress.feedAll? (p : Progress) (ts : List Token) : Option Progress := ts.foldlM feed? p

open Progress

/-- In a container that may end, a value is taken as where one is due. -/
theorem feedAll?_valueOrEnd (v : Value) (frames : List Frame) (ts : List Token) :
    (reading frames .valueOrEnd).feedAll? (v.tokens ++ ts)
      = (reading frames .value).feedAll? (v.tokens ++ ts) := by
  cases v with
  | array items => cases items <;> rfl
  | object members => cases members <;> rfl
  | _ => rfl

mutual

/-- The tokens of a value put it where it belongs. -/
theorem feedAll?_tokens (v : Value) (frames : List Frame) (ts : List Token) :
    (reading frames .value).feedAll? (v.tokens ++ ts) = (deliver v frames).feedAll? ts :=
  match v with
  | .null => rfl
  | .boolean _ => rfl
  | .natural _ => rfl
  | .number => rfl
  | .text _ => rfl
  | .array [] => rfl
  | .array (v :: items) => by
      show (reading (.array [] :: frames) .valueOrEnd).feedAll?
        (v.tokens ++ furtherItems items ++ ts) = _
      rw [List.append_assoc, feedAll?_valueOrEnd, feedAll?_tokens v]
      exact feedAll?_furtherItems items [v] frames ts
  | .object [] => rfl
  | .object ((key, v) :: members) => by
      show (reading (.object [] key :: frames) .value).feedAll?
        (v.tokens ++ furtherMembers members ++ ts) = _
      rw [List.append_assoc, feedAll?_tokens v]
      exact feedAll?_furtherMembers members [(key, v)] key frames ts

theorem feedAll?_furtherItems (items held : List Value) (frames : List Frame) (ts : List Token) :
    (reading (.array held :: frames) .commaOrEnd).feedAll? (furtherItems items ++ ts)
      = (deliver (.array (held.reverse ++ items)) frames).feedAll? ts :=
  match items with
  | [] => by
      rw [List.append_nil]
      rfl
  | v :: items => by
      show (reading (.array held :: frames) .value).feedAll?
        (v.tokens ++ furtherItems items ++ ts) = _
      rw [List.append_assoc, feedAll?_tokens v]
      refine (feedAll?_furtherItems items (v :: held) frames ts).trans ?_
      rw [List.reverse_cons, List.append_assoc]
      rfl

theorem feedAll?_furtherMembers (members held : List (Option String × Value))
    (last : Option String) (frames : List Frame) (ts : List Token) :
    (reading (.object held last :: frames) .commaOrEnd).feedAll? (furtherMembers members ++ ts)
      = (deliver (.object (held.reverse ++ members)) frames).feedAll? ts :=
  match members with
  | [] => by
      rw [List.append_nil]
      rfl
  | (key, v) :: members => by
      show (reading (.object held key :: frames) .value).feedAll?
        (v.tokens ++ furtherMembers members ++ ts) = _
      rw [List.append_assoc, feedAll?_tokens v]
      refine (feedAll?_furtherMembers members ((key, v) :: held) key frames ts).trans ?_
      rw [List.reverse_cons, List.append_assoc]
      rfl

end

theorem ofTokens?_tokens (v : Value) : Value.ofTokens? v.tokens = some v := by
  have hfed := feedAll?_tokens v [] []
  rw [List.append_nil] at hfed
  show (start.feedAll? v.tokens).bind value? = some v
  rw [start, hfed]
  rfl

/-- A text that is a spelling of a value is read as this value. -/
theorem parse?_of_denotes {text : String} {v : Value} (h : Denotes text v) :
    parse? text = some v := by
  have hsep := separated_tokens v Sealed.nil
  rw [List.append_nil] at hsep
  rw [parse?, tokenize?_of_spells h hsep]
  exact ofTokens?_tokens v

end NibbleArena.Json
