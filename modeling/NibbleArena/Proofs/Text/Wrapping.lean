import NibbleArena.Program

/-! # Wrapping — line breaks put into a text and taken out again

    Three readings of a text with lines are tied together here:

    * `lines` splits it at the line feeds, and drops one carriage return before each;
    * `joinLines` goes through it once and leaves the breaks out;
    * `Wrapped` says that it is another text with line breaks put in, any number at each
      place.

    Joining the lines of a text gives what the single pass gives (`flatten_lines`).  Every
    text is its joined lines with breaks put in (`wrapped_joinLines`).  The way back needs
    that the text has no character of a break itself: then joining takes out just what was
    put in (`joinLines_eq_iff`).  No opcode is lost in any case, since no character of a
    break is a symbol (`decode_joinLines`). -/

namespace NibbleArena

namespace Text

/-- What stands between two lines. -/
inductive LineBreak
  | feed
  | returnFeed
  deriving DecidableEq

/-- The characters of a line break. -/
def LineBreak.characters : LineBreak → List Char
  | feed => ['\n']
  | returnFeed => ['\r', '\n']

/-- The second text is the first with line breaks put in: before its first character,
    between two characters and behind its last one, any number at each place.  A break
    is not put between the two characters of another one. -/
inductive Wrapped : List Char → List Char → Prop
  | nil : Wrapped [] []
  | character {t u : List Char} (c : Char) : Wrapped t u → Wrapped (c :: t) (c :: u)
  | lineBreak {t u : List Char} (b : LineBreak) : Wrapped t u → Wrapped t (b.characters ++ u)

/-- The text has no carriage return and no line feed. -/
def Unbroken (cs : List Char) : Prop := ∀ c ∈ cs, c ≠ '\r' ∧ c ≠ '\n'

instance (cs : List Char) : Decidable (Unbroken cs) := List.decidableBAll _ cs

/-! ## Lines -/

/-- A line without the carriage return at its end, if it has one there. -/
def dropReturn (line : List Char) : List Char :=
  if line.getLast? = some '\r' then line.dropLast else line

/-- The lines of a text that was split at its line feeds.  Behind the last line feed
    nothing is dropped, and there is no line if nothing is left. -/
def linesOfPieces : List (List Char) → List (List Char)
  | [] => []
  | [rest] => if rest = [] then [] else [rest]
  | piece :: next :: pieces => dropReturn piece :: linesOfPieces (next :: pieces)

/-- The lines of a text, without their ends. -/
def lines (cs : List Char) : List (List Char) := linesOfPieces (cs.splitOn '\n')

variable {c : Char} {line rest t u : List Char} {pieces : List (List Char)}

theorem dropReturn_cons (h : c ≠ '\r' ∨ line ≠ []) :
    dropReturn (c :: line) = c :: dropReturn line := by
  cases line with
  | nil =>
      have hne : c ≠ '\r' := h.resolve_right fun hnil => hnil rfl
      rw [dropReturn, List.getLast?_singleton, if_neg (by simpa using hne)]
      rfl
  | cons d line =>
      rw [dropReturn, dropReturn, List.getLast?_cons_cons]
      split <;> rfl

/-- A character that does not belong to a line break stays at the head of its line. -/
theorem flatten_linesOfPieces_cons (h : c ≠ '\r' ∨ line ≠ [] ∨ pieces = []) :
    (linesOfPieces ((c :: line) :: pieces)).flatten
      = c :: (linesOfPieces (line :: pieces)).flatten := by
  cases pieces with
  | nil =>
      by_cases hline : line = []
      · rw [hline]
        rfl
      · rw [linesOfPieces, linesOfPieces, if_neg (List.cons_ne_nil c line), if_neg hline]
        rfl
  | cons next pieces =>
      have hkept : c ≠ '\r' ∨ line ≠ [] := h.imp_right fun h => h.resolve_right nofun
      rw [linesOfPieces, linesOfPieces, dropReturn_cons hkept]
      rfl

theorem linesOfPieces_cons (line : List Char) (h : pieces ≠ []) :
    linesOfPieces (line :: pieces) = dropReturn line :: linesOfPieces pieces := by
  cases pieces with
  | nil => exact absurd rfl h
  | cons next pieces => rfl

theorem lines_feed (rest : List Char) : lines ('\n' :: rest) = [] :: lines rest := by
  rw [lines, List.splitOn_cons_eq_if_modifyHead, if_pos (by decide),
    linesOfPieces_cons [] (List.splitOn_ne_nil '\n' rest)]
  rfl

theorem lines_returnFeed (rest : List Char) : lines ('\r' :: '\n' :: rest) = [] :: lines rest := by
  rw [lines, List.splitOn_cons_eq_if_modifyHead, if_neg (by decide),
    List.splitOn_cons_eq_if_modifyHead, if_pos (by decide), List.modifyHead_cons,
    linesOfPieces_cons ['\r'] (List.splitOn_ne_nil '\n' rest)]
  rfl

/-- The first piece is empty just before a line feed or at the end of the text. -/
theorem head_of_splitOn (h : rest.splitOn '\n' = [] :: pieces) :
    rest.head? = some '\n' ∨ pieces = [] := by
  cases rest with
  | nil =>
      rw [List.splitOn_nil] at h
      exact Or.inr (List.cons.inj h).2.symm
  | cons d rest =>
      rw [List.splitOn_cons_eq_if_modifyHead] at h
      by_cases hd : (d == '\n') = true
      · exact Or.inl (congrArg some (eq_of_beq hd))
      · rw [if_neg hd] at h
        have hsome : rest.splitOn '\n' ≠ [] := List.splitOn_ne_nil '\n' rest
        obtain ⟨line, pieces', hpieces⟩ := List.exists_cons_of_ne_nil hsome
        rw [hpieces, List.modifyHead_cons] at h
        exact nomatch h

theorem flatten_lines_cons (hfeed : c ≠ '\n') (hreturn : c = '\r' → rest.head? ≠ some '\n') :
    (lines (c :: rest)).flatten = c :: (lines rest).flatten := by
  obtain ⟨line, pieces, hpieces⟩ := List.exists_cons_of_ne_nil (List.splitOn_ne_nil '\n' rest)
  rw [lines, lines, List.splitOn_cons_eq_if_modifyHead, if_neg (by simpa using hfeed), hpieces,
    List.modifyHead_cons]
  refine flatten_linesOfPieces_cons ?_
  by_cases hc : c = '\r'
  · by_cases hline : line = []
    · rw [hline] at hpieces
      exact Or.inr (Or.inr ((head_of_splitOn hpieces).resolve_left (hreturn hc)))
    · exact Or.inr (Or.inl hline)
  · exact Or.inl hc

/-- Joining the lines of a text leaves its line breaks out. -/
theorem flatten_lines (cs : List Char) : (lines cs).flatten = joinLines cs := by
  fun_induction joinLines cs with
  | case1 => rfl
  | case2 rest ih =>
      rw [lines_returnFeed, List.flatten_cons, List.nil_append, ih]
  | case3 rest ih =>
      rw [lines_feed, List.flatten_cons, List.nil_append, ih]
  | case4 c rest hreturn hfeed ih =>
      have hkept : c = '\r' → rest.head? ≠ some '\n' := by
        intro hc hhead
        obtain ⟨behind, hrest⟩ := List.head?_eq_some_iff.1 hhead
        exact hreturn behind hc hrest
      rw [flatten_lines_cons hfeed hkept, ih]

/-! ## Breaks put in -/

/-- A text without its line breaks gives the text again if they are put in. -/
theorem wrapped_joinLines (cs : List Char) : Wrapped (joinLines cs) cs := by
  fun_induction joinLines cs with
  | case1 => exact .nil
  | case2 rest ih => exact .lineBreak .returnFeed ih
  | case3 rest ih => exact .lineBreak .feed ih
  | case4 c rest _ _ ih => exact .character c ih

theorem joinLines_cons (hreturn : c ≠ '\r') (hfeed : c ≠ '\n') (rest : List Char) :
    joinLines (c :: rest) = c :: joinLines rest := by
  rw [joinLines]
  · exact fun _ hc _ => hreturn hc
  · exact hfeed

theorem joinLines_of_wrapped (h : Wrapped t u) (ht : Unbroken t) : joinLines u = t := by
  induction h with
  | nil => rfl
  | @character t u c _ ih =>
      obtain ⟨⟨hreturn, hfeed⟩, ht⟩ := List.forall_mem_cons.1 ht
      rw [joinLines_cons hreturn hfeed, ih ht]
  | lineBreak b _ ih =>
      cases b with
      | feed => exact ih ht
      | returnFeed => exact ih ht

/-- What joins to a text without line breaks is just this text with line breaks put in. -/
theorem joinLines_eq_iff (ht : Unbroken t) : joinLines u = t ↔ Wrapped t u := by
  constructor
  · rintro rfl
    exact wrapped_joinLines u
  · intro h
    exact joinLines_of_wrapped h ht

/-! ## Symbols -/

/-- No opcode is lost with the line breaks, and none comes in. -/
theorem decode_joinLines (cs : List Char) : decode (joinLines cs) = decode cs := by
  have hreturn : Opcode.ofSymbol? '\r' = none := by decide
  have hfeed : Opcode.ofSymbol? '\n' = none := by decide
  fun_induction joinLines cs with
  | case1 => rfl
  | case2 rest ih =>
      rw [ih, decode, decode, List.filterMap_cons_none hreturn, List.filterMap_cons_none hfeed]
  | case3 rest ih => rw [ih, decode, decode, List.filterMap_cons_none hfeed]
  | case4 c rest _ _ ih =>
      rw [decode, decode] at ih
      rw [decode, decode, List.filterMap_cons, List.filterMap_cons, ih]

end Text

end NibbleArena
