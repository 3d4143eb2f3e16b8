import NibbleArena.Proofs.Json.Spelling

/-! # Reading tokens — spelled characters and what follows them

    A reader takes what it can and leaves the rest, so every law here is about characters
    with anything behind them.  Most tokens show where they end.  A number does not: it
    goes on as long as characters come that could belong to it, so it is read as spelled
    only if no such character follows (`Delimited`).

    A string is read piece by piece, and its text is the one that the pieces make up;
    if they make up none, it is still a string.

    Everything ends in `next?_append`: a spelled token is read, and the rest is left. -/

namespace NibbleArena.Json

variable {cs ds rest : List Char}

/-- What follows does not begin with a character of a number. -/
def Delimited (rest : List Char) : Prop :=
  ∀ c ∈ rest.head?, c.isDigit = false ∧ c ≠ '.' ∧ c ≠ 'e' ∧ c ≠ 'E'

/-! ## Numbers -/

theorem digits?_append (h : Digits ds) (hrest : ∀ c ∈ rest.head?, c.isDigit = false) :
    digits? (ds ++ rest) = some (ds, rest) := by
  have hstop : rest.takeWhile Char.isDigit = [] ∧ rest.dropWhile Char.isDigit = rest := by
    cases rest with
    | nil => exact ⟨rfl, rfl⟩
    | cons c rest =>
        have hc : ¬c.isDigit = true := by
          rw [hrest c rfl]
          exact Bool.false_ne_true
        exact ⟨List.takeWhile_cons_of_neg hc, List.dropWhile_cons_of_neg hc⟩
  rw [digits?, List.takeWhile_append_of_pos h.isDigit, List.dropWhile_append_of_pos h.isDigit,
    hstop.1, hstop.2, List.append_nil]
  cases ds with
  | nil => exact absurd rfl h.ne_nil
  | cons d ds => rfl

theorem whole?_append (h : Whole ds) (hrest : ∀ c ∈ rest.head?, c.isDigit = false) :
    whole? (ds ++ rest) = some (ds, rest) := by
  by_cases hzero : ds.head? = some '0'
  · rw [h.alone hzero]
    rfl
  · cases ds with
    | nil => exact absurd rfl h.ne_nil
    | cons d ds =>
        rw [← digits?_append h.toDigits hrest]
        rw [whole?]
        intro tail htail
        exact hzero (congrArg some (List.cons.inj htail).1)

theorem fraction?_append {fraction : List Char} (h : Fraction fraction)
    (hrest : ∀ c ∈ rest.head?, c.isDigit = false ∧ c ≠ '.') :
    fraction? (fraction ++ rest) = some (!fraction.isEmpty, rest) := by
  cases h with
  | absent =>
      show fraction? rest = _
      rw [fraction?]
      · rfl
      · rintro tail rfl
        exact (hrest '.' rfl).2 rfl
  | present hds =>
      show (digits? (_ ++ rest)).map _ = _
      rw [digits?_append hds fun c hc => (hrest c hc).1]
      rfl

theorem dropSign_append {sign : List Char} (h : sign ∈ [[], ['+'], ['-']]) (hds : Digits ds) :
    dropSign (sign ++ (ds ++ rest)) = ds ++ rest := by
  rcases List.mem_cons.1 h with rfl | h
  · -- without a sign the first digit is kept
    cases ds with
    | nil => exact absurd rfl hds.ne_nil
    | cons d ds =>
        have hd : d.isDigit = true := hds.isDigit d List.mem_cons_self
        show dropSign (d :: (ds ++ rest)) = _
        rw [dropSign]
        · rfl
        · intro tail htail
          rw [(List.cons.inj htail).1] at hd
          exact absurd hd (by decide)
        · intro tail htail
          rw [(List.cons.inj htail).1] at hd
          exact absurd hd (by decide)
  · rcases List.mem_cons.1 h with rfl | h
    · rfl
    · rw [List.mem_singleton.1 h]
      rfl

theorem exponent?_append {exponent : List Char} (h : Exponent exponent)
    (hrest : ∀ c ∈ rest.head?, c.isDigit = false ∧ c ≠ 'e' ∧ c ≠ 'E') :
    exponent? (exponent ++ rest) = some (!exponent.isEmpty, rest) := by
  cases h with
  | absent =>
      cases rest with
      | nil => rfl
      | cons c rest =>
          obtain ⟨-, he, hE⟩ := hrest c rfl
          show (if c = 'e' || c = 'E' then _ else _) = _
          rw [decide_eq_false he, decide_eq_false hE]
          rfl
  | @present mark sign ds hmark hsign hds =>
      have hletter : (decide (mark = 'e') || decide (mark = 'E')) = true := by
        rcases List.mem_cons.1 hmark with rfl | hmark
        · rfl
        · rw [List.mem_singleton.1 hmark]
          rfl
      show (if mark = 'e' || mark = 'E' then (digits? (dropSign (sign ++ ds ++ rest))).map _
        else _) = _
      rw [if_pos hletter, List.append_assoc, dropSign_append hsign hds,
        digits?_append hds fun c hc => (hrest c hc).1]
      rfl

theorem forall_head_append {P : Char → Prop} (hcs : ∀ c ∈ cs.head?, P c)
    (hrest : ∀ c ∈ rest.head?, P c) : ∀ c ∈ (cs ++ rest).head?, P c := by
  cases cs with
  | nil => exact hrest
  | cons c cs => exact hcs

theorem head_fraction {fraction : List Char} (h : Fraction fraction) :
    ∀ c ∈ fraction.head?, c = '.' := by
  cases h with
  | absent => exact nofun
  | present hds =>
      intro c hc
      exact (Option.some.inj hc).symm

theorem head_exponent {exponent : List Char} (h : Exponent exponent) :
    ∀ c ∈ exponent.head?, c ∈ ['e', 'E'] := by
  cases h with
  | absent => exact nofun
  | present hmark hsign hds =>
      intro c hc
      cases hc
      exact hmark

/-- The parts of a number do not run into each other, and not into what follows. -/
theorem unsigned?_append {fraction exponent : List Char} (hds : Whole ds)
    (hfraction : Fraction fraction) (hexponent : Exponent exponent) (hrest : Delimited rest) :
    unsigned? (ds ++ (fraction ++ (exponent ++ rest)))
      = some (if fraction ++ exponent = [] then .natural (Nat.ofDigitChars 10 ds 0) else .number,
        rest) := by
  have hmark : ∀ c ∈ exponent.head?, c.isDigit = false ∧ c ≠ '.' := by
    intro c hc
    have hletter : ∀ c ∈ ['e', 'E'], c.isDigit = false ∧ c ≠ '.' := by simp
    exact hletter c (head_exponent hexponent c hc)
  have hpoint : ∀ c ∈ fraction.head?, c.isDigit = false := by
    intro c hc
    rw [head_fraction hfraction c hc]
    rfl
  have hbehind : ∀ c ∈ (exponent ++ rest).head?, c.isDigit = false ∧ c ≠ '.' :=
    forall_head_append hmark fun c hc => ⟨(hrest c hc).1, (hrest c hc).2.1⟩
  have hwhole := whole?_append hds (forall_head_append hpoint fun c hc => (hbehind c hc).1)
  have hfound := fraction?_append hfraction hbehind
  have hlast := exponent?_append hexponent fun c hc => ⟨(hrest c hc).1, (hrest c hc).2.2⟩
  simp only [unsigned?, hwhole, hfound, hlast, Option.bind_eq_bind, Option.bind_some]
  cases fraction with
  | nil =>
      cases exponent with
      | nil => rfl
      | cons c exponent => rfl
  | cons c fraction => rfl

/-- A number is read up to where it ends. -/
theorem number?_append {sign fraction exponent : List Char} (hsign : sign ∈ [[], ['-']])
    (hds : Whole ds) (hfraction : Fraction fraction) (hexponent : Exponent exponent)
    (hrest : Delimited rest) :
    number? (sign ++ (ds ++ (fraction ++ (exponent ++ rest))))
      = some (if sign ++ (fraction ++ exponent) = [] then .natural (Nat.ofDigitChars 10 ds 0)
        else .number, rest) := by
  have hunsigned := unsigned?_append hds hfraction hexponent hrest
  rcases List.mem_cons.1 hsign with rfl | hsign
  · cases ds with
    | nil => exact absurd rfl hds.ne_nil
    | cons d ds =>
        have hd : d.isDigit = true := hds.isDigit d List.mem_cons_self
        show number? (d :: (ds ++ (fraction ++ (exponent ++ rest)))) = _
        rw [number?]
        · exact hunsigned
        · intro tail htail
          rw [(List.cons.inj htail).1] at hd
          exact absurd hd (by decide)
  · rw [List.mem_singleton.1 hsign]
    show (unsigned? (ds ++ (fraction ++ (exponent ++ rest)))).map _ = _
    rw [hunsigned]
    rfl

/-! ## Strings -/

theorem hexValue?_of_hexDigit {c : Char} {n : Nat} (h : HexDigit c n) : hexValue? c = some n := by
  have hsmall : ∀ i : Fin 16, hexValue? ("0123456789abcdef".toList.get i) = some i.val := by decide
  have hlarge : ∀ i : Fin 16, hexValue? ("0123456789ABCDEF".toList.get i) = some i.val := by decide
  rcases h with h | h
  · obtain ⟨hn, rfl⟩ := List.getElem?_eq_some_iff.1 h
    exact hsmall ⟨n, hn⟩
  · obtain ⟨hn, rfl⟩ := List.getElem?_eq_some_iff.1 h
    exact hlarge ⟨n, hn⟩

theorem unit?_of_hexDigits {a b c d : Char} {i j k l : Nat} (ha : HexDigit a i)
    (hb : HexDigit b j) (hc : HexDigit c k) (hd : HexDigit d l) :
    unit? a b c d = some (((i * 16 + j) * 16 + k) * 16 + l) := by
  simp only [unit?, hexValue?_of_hexDigit ha, hexValue?_of_hexDigit hb, hexValue?_of_hexDigit hc,
    hexValue?_of_hexDigit hd, Option.bind_eq_bind, Option.bind_some]

theorem escape?_of_mem {e c : Char} (h : (e, c) ∈ escapes) : escape? e = some c := by
  have hall : ∀ entry ∈ escapes, escape? entry.1 = some entry.2 := by decide
  exact hall _ h

/-- A piece is read in front of anything. -/
theorem pieces?_append {p : Piece} (h : p.Spelled cs) :
    pieces? (cs ++ rest) = (pieces? rest).map fun (ps, rest) => (p :: ps, rest) := by
  cases h with
  | @plain c hquote hslash hprint =>
      show pieces? (c :: rest) = _
      rw [pieces?, if_neg (Nat.not_lt_of_ge hprint)]
      · exact hquote
      · intro a b c' d tail hc
        exact absurd hc hslash
      · intro e tail hc
        exact absurd hc hslash
  | @escaped e c hmem =>
      show pieces? ('\\' :: e :: rest) = _
      rw [pieces?, escape?_of_mem hmem]
      -- no escape of one letter is the letter of a unit
      have hunit : ∀ entry ∈ escapes, entry.1 ≠ 'u' := by decide
      intro a b c' d tail he
      exact absurd he (hunit _ hmem)
  | unit ha hb hc hd =>
      show pieces? ('\\' :: 'u' :: _ :: _ :: _ :: _ :: rest) = _
      rw [pieces?, unit?_of_hexDigits ha hb hc hd]

theorem pieces?_of_spells {ps : List Piece} (h : SpellsPieces ps cs) (rest : List Char) :
    pieces? (cs ++ '"' :: rest) = some (ps, rest) := by
  induction h with
  | nil => rfl
  | cons hp hps ih =>
      rw [List.append_assoc, pieces?_append hp, ih]
      rfl

/-! ### Texts -/

theorem isHighHalf_iff {n : Nat} : isHighHalf n = true ↔ 0xd800 ≤ n ∧ n < 0xdc00 := by
  rw [isHighHalf, Bool.and_eq_true, decide_eq_true_eq, decide_eq_true_eq]

theorem isLowHalf_iff {n : Nat} : isLowHalf n = true ↔ 0xdc00 ≤ n ∧ n < 0xe000 := by
  rw [isLowHalf, Bool.and_eq_true, decide_eq_true_eq, decide_eq_true_eq]

/-- A unit is a character of its own just if it is no half of a pair. -/
theorem isScalar_iff {n : Nat} :
    n < 0xd800 ∨ 0xe000 ≤ n ↔ ¬isHighHalf n = true ∧ ¬isLowHalf n = true := by
  rw [isHighHalf_iff, isLowHalf_iff]
  omega

theorem charsOfPieces?_scalar {n : Nat} (h : n < 0xd800 ∨ 0xe000 ≤ n) (ps : List Piece) :
    charsOfPieces? (.unit n :: ps) = (charsOfPieces? ps).map (Char.ofNat n :: ·) := by
  obtain ⟨hhigh, hlow⟩ := isScalar_iff.1 h
  have hneither : ¬(isHighHalf n || isLowHalf n) = true := by
    rw [Bool.or_eq_true]
    exact not_or.2 ⟨hhigh, hlow⟩
  cases ps with
  | nil => exact if_neg hneither
  | cons p ps =>
      cases p with
      | char c => exact if_neg hneither
      | unit m => exact (if_neg hhigh).trans (if_neg hlow)

theorem charsOfPieces?_pair {n m : Nat} (hn : isHighHalf n = true) (hm : isLowHalf m = true)
    (ps : List Piece) :
    charsOfPieces? (.unit n :: .unit m :: ps)
      = (charsOfPieces? ps).map
        (Char.ofNat (0x10000 + (n - 0xd800) * 0x400 + (m - 0xdc00)) :: ·) :=
  (if_pos hn).trans (if_pos hm)

theorem charsOfPieces?_of_makesText {ps : List Piece} {t : List Char} (h : MakesText ps t) :
    charsOfPieces? ps = some t := by
  induction h with
  | nil => rfl
  | char hps ih =>
      rw [charsOfPieces?, ih]
      rfl
  | scalar hn hps ih =>
      rw [charsOfPieces?_scalar hn, ih]
      rfl
  | pair hn hn' hm hm' hps ih =>
      rw [charsOfPieces?_pair (isHighHalf_iff.2 ⟨hn, hn'⟩) (isLowHalf_iff.2 ⟨hm, hm'⟩), ih]
      rfl

theorem makesText_of_charsOfPieces? {ps : List Piece} {t : List Char}
    (h : charsOfPieces? ps = some t) : MakesText ps t := by
  induction ps using charsOfPieces?.induct generalizing t with
  | case1 =>
      cases h
      exact .nil
  | case2 c ps ih =>
      obtain ⟨t, ht, rfl⟩ := Option.map_eq_some_iff.1 h
      exact .char (ih ht)
  | case3 n m ps hn hm ih =>
      rw [charsOfPieces?_pair hn hm] at h
      obtain ⟨t, ht, rfl⟩ := Option.map_eq_some_iff.1 h
      obtain ⟨hn, hn'⟩ := isHighHalf_iff.1 hn
      obtain ⟨hm, hm'⟩ := isLowHalf_iff.1 hm
      exact .pair hn hn' hm hm' (ih ht)
  | case4 n m ps hn hm =>
      rw [charsOfPieces?, if_pos hn, if_neg hm] at h
      exact nomatch h
  | case5 n m ps hn hlow =>
      rw [charsOfPieces?, if_neg hn, if_pos hlow] at h
      exact nomatch h
  | case6 n m ps hhigh hlow ih =>
      have hn := isScalar_iff.2 ⟨hhigh, hlow⟩
      rw [charsOfPieces?_scalar hn] at h
      obtain ⟨t, ht, rfl⟩ := Option.map_eq_some_iff.1 h
      exact .scalar hn (ih ht)
  | case7 n ps hlast hhalf =>
      rw [charsOfPieces?, if_pos hhalf] at h
      · exact nomatch h
      · exact hlast
  | case8 n ps hlast hhalf ih =>
      rw [Bool.or_eq_true, not_or] at hhalf
      have hn := isScalar_iff.2 hhalf
      rw [charsOfPieces?_scalar hn] at h
      obtain ⟨t, ht, rfl⟩ := Option.map_eq_some_iff.1 h
      exact .scalar hn (ih ht)

/-- The text of the pieces is the one that they make up, if any. -/
theorem charsOfPieces?_eq_some_iff {ps : List Piece} {t : List Char} :
    charsOfPieces? ps = some t ↔ MakesText ps t :=
  ⟨makesText_of_charsOfPieces?, charsOfPieces?_of_makesText⟩

theorem string?_of_spells {ps : List Piece} (h : SpellsPieces ps cs) (rest : List Char) :
    string? (cs ++ '"' :: rest)
      = some (.text ((charsOfPieces? ps).map String.ofList), rest) := by
  rw [string?, pieces?_of_spells h]
  rfl

/-! ## Tokens -/

/-- A number of which more digits could follow. -/
def Token.isOpen : Token → Bool
  | natural _ | number => true
  | _ => false

/-- What begins like a number is read as a number. -/
theorem next?_eq_number? {c : Char} (h : c = '-' ∨ c.isDigit = true) (cs : List Char) :
    Token.next? (c :: cs) = number? (c :: cs) := by
  have hother : ∀ d ∈ ['\x7b', '\x7d', '[', ']', ':', ',', '"', 'n', 't', 'f'], c ≠ d := by
    have hdigit : ∀ d ∈ ['\x7b', '\x7d', '[', ']', ':', ',', '"', 'n', 't', 'f'],
        d ≠ '-' ∧ d.isDigit = false := by simp
    rintro d hd rfl
    obtain ⟨hminus, hnone⟩ := hdigit c hd
    rcases h with h | h
    · exact hminus h
    · rw [hnone] at h
      exact Bool.false_ne_true h
  rw [Token.next?]
  all_goals
    intro tail htail
    exact hother _ (by decide) (List.cons.inj htail).1

theorem head_number {sign : List Char} (hsign : sign ∈ [[], ['-']]) (hds : Whole ds)
    (tail : List Char) :
    ∃ c cs, sign ++ (ds ++ tail) = c :: cs ∧ (c = '-' ∨ c.isDigit = true) := by
  rcases List.mem_cons.1 hsign with rfl | hsign
  · cases ds with
    | nil => exact absurd rfl hds.ne_nil
    | cons d ds => exact ⟨d, ds ++ tail, rfl, Or.inr (hds.isDigit d List.mem_cons_self)⟩
  · rw [List.mem_singleton.1 hsign]
    exact ⟨'-', ds ++ tail, rfl, Or.inl rfl⟩

theorem next?_number {sign fraction exponent : List Char} (hsign : sign ∈ [[], ['-']])
    (hds : Whole ds) (hfraction : Fraction fraction) (hexponent : Exponent exponent)
    (hrest : Delimited rest) :
    Token.next? (sign ++ (ds ++ (fraction ++ (exponent ++ rest))))
      = some (if sign ++ (fraction ++ exponent) = [] then .natural (Nat.ofDigitChars 10 ds 0)
        else .number, rest) := by
  obtain ⟨c, cs, heq, hc⟩ := head_number hsign hds (fraction ++ (exponent ++ rest))
  rw [heq, next?_eq_number? hc, ← heq]
  exact number?_append hsign hds hfraction hexponent hrest

/-- A token is read in front of anything, if that does not make a number longer. -/
theorem next?_append {t : Token} (h : t.Spelled cs) (hrest : t.isOpen = true → Delimited rest) :
    Token.next? (cs ++ rest) = some (t, rest) := by
  cases h with
  | natural hds =>
      have hsign : [] ∈ [[], ['-']] := List.mem_cons_self
      have hread := next?_number hsign hds .absent .absent (hrest rfl)
      exact hread
  | @number sign ds fraction exponent hsign hds hfraction hexponent hparts =>
      have hread := next?_number hsign hds hfraction hexponent (hrest rfl)
      rw [if_neg hparts] at hread
      simp only [List.append_assoc]
      exact hread
  | @text ps cs t hps ht =>
      show string? ((cs ++ ['"']) ++ rest) = _
      rw [List.append_assoc]
      refine (string?_of_spells hps rest).trans ?_
      rw [charsOfPieces?_of_makesText ht]
      rfl
  | @noText ps cs hps hnone =>
      have hchars : charsOfPieces? ps = none := by
        cases hps' : charsOfPieces? ps with
        | none => rfl
        | some t => exact absurd (makesText_of_charsOfPieces? hps') (hnone t)
      show string? ((cs ++ ['"']) ++ rest) = _
      rw [List.append_assoc]
      refine (string?_of_spells hps rest).trans ?_
      rw [hchars]
      rfl
  | _ => rfl

end NibbleArena.Json
