import NibbleArena.Proofs.Placement.Course
import NibbleArena.Proofs.Placement.Packing

/-! # Even starts — no free cell is drawn more often than another

    The cells a start is drawn from are exactly those outside of the windows of the
    starts before it.  A word selects one of them or is passed over, and each of them is
    selected by the same number of words (`Fair`).

    So nothing but the windows, and the memory for a list of starts, restricts a placement:
    the starts that some words give are all the sequences from the anchor on in which every
    start keeps outside of the windows before it. -/

namespace NibbleArena

namespace Reservations

variable {r : Reservations} {w a : Nat}

/-- The free cell that a word selects, if the word is accepted. -/
def picked? (r : Reservations) (word : Nat) : Option Nat :=
  (Draw.select? 32 r.free.length word).bind fun i => r.free[i]?

theorem picked?_eq_some_iff :
    r.picked? w = some a
      ↔ ∃ i, Draw.select? 32 r.free.length w = some i ∧ r.free[i]? = some a := by
  rw [picked?, Option.bind_eq_some_iff]

theorem mem_free_of_picked? (h : r.picked? w = some a) : a ∈ r.free := by
  obtain ⟨i, -, hget⟩ := picked?_eq_some_iff.1 h
  exact List.mem_of_getElem? hget

/-- A word that selects an option selects the cell with its number, and no other word
    selects that cell. -/
theorem picked?_eq_some_getElem_iff {i : Nat} (hi : i < r.free.length) :
    r.picked? w = some r.free[i] ↔ Draw.select? 32 r.free.length w = some i := by
  rw [picked?_eq_some_iff]
  constructor
  · rintro ⟨j, hselect, hget⟩
    obtain ⟨hj, heq⟩ := List.getElem?_eq_some_iff.1 hget
    rw [hselect, r.nodup_free.getElem_inj_iff.1 heq]
  · intro hselect
    exact ⟨i, hselect, List.getElem?_eq_getElem hi⟩

theorem picked?_eq_none_iff (hfree : r.free ≠ []) (hw : w < UInt32.size) :
    r.picked? w = none ↔ Draw.select? 32 r.free.length w = none := by
  have hpos : 0 < r.free.length := List.length_pos_iff.2 hfree
  rw [picked?]
  rcases hselect : Draw.select? 32 r.free.length w with _ | i
  · exact iff_of_true rfl rfl
  · have hi : i < r.free.length := Draw.select?_lt hw hpos hselect
    show r.free[i]? = none ↔ _
    rw [List.getElem?_eq_getElem hi]
    exact iff_of_false nofun nofun

/-! ## Counting the words -/

theorem card_picked? (hsize : r.size < UInt32.size) (ha : a ∈ r.free) :
    ((Finset.range UInt32.size).filter fun w => r.picked? w = some a).card
      = Draw.share 32 r.free.length := by
  obtain ⟨i, hi, rfl⟩ := List.getElem_of_mem ha
  rw [← Draw.card_select? (Nat.lt_of_le_of_lt r.length_free_le hsize) hi]
  refine congrArg Finset.card (Finset.filter_congr ?_)
  intro w _
  exact picked?_eq_some_getElem_iff hi

theorem card_unpicked (hsize : r.size < UInt32.size) (hfree : r.free ≠ []) :
    ((Finset.range UInt32.size).filter fun w => r.picked? w = none).card
      + r.free.length * Draw.share 32 r.free.length = UInt32.size := by
  have hset : (Finset.range UInt32.size).filter (fun w => r.picked? w = none)
      = (Finset.range UInt32.size).filter fun w => Draw.select? 32 r.free.length w = none := by
    refine Finset.filter_congr ?_
    intro w hw
    exact picked?_eq_none_iff hfree (Finset.mem_range.1 hw)
  rw [hset]
  exact Draw.card_rejected (List.length_pos_iff.2 hfree)
    (Nat.lt_of_le_of_lt r.length_free_le hsize)

end Reservations

namespace Placement

open Reservations

variable {r : Reservations} {n separation maxLength : Nat} {starts : List Nat}

/-! ## Drawing by words -/

theorem drawCell_of_picked {w : UInt32} {a : Nat} (hsize : r.size < UInt32.size)
    (ws : List UInt32) (used : Nat) (h : r.picked? w.toNat = some a) :
    drawCell r.free (⟨w :: ws, used⟩ : ListedWords) = (some a, ⟨ws, used + 1⟩) := by
  obtain ⟨i, hselect, hget⟩ := picked?_eq_some_iff.1 h
  obtain ⟨hi, rfl⟩ := List.getElem?_eq_some_iff.1 hget
  have hlength : r.free.length < UInt32.size := Nat.lt_of_le_of_lt r.length_free_le hsize
  rw [drawCell_eq (Nat.zero_lt_of_lt hi), Draw.choose_of_accepted hlength ws used hi hselect]
  rfl

theorem drawCell_of_unpicked {w : UInt32} (hsize : r.size < UInt32.size) (ws : List UInt32)
    (used : Nat) (hfree : r.free ≠ []) (h : r.picked? w.toNat = none) :
    drawCell r.free (⟨w :: ws, used⟩ : ListedWords)
      = drawCell r.free (⟨ws, used + 1⟩ : ListedWords) := by
  have hpos : 0 < r.free.length := List.length_pos_iff.2 hfree
  have hrejected : Draw.select? 32 r.free.length w.toNat = none :=
    (picked?_eq_none_iff hfree w.toNat_lt_size).1 h
  have hlength : r.free.length < UInt32.size := Nat.lt_of_le_of_lt r.length_free_le hsize
  rw [drawCell_eq hpos, drawCell_eq hpos,
    Draw.choose_of_rejected hlength ws used hpos hrejected]

/-- A word selects each free cell alike: of all words, as many select one of them as
    another, those that are left select nothing, and the draw takes one word after the
    other until a cell is selected. -/
structure Fair (r : Reservations) : Prop where
  card_eq : ∀ a ∈ r.free,
    ((Finset.range UInt32.size).filter fun w => r.picked? w = some a).card
      = 2 ^ Draw.leadingZeros 32 r.free.length
  card_left : ((Finset.range UInt32.size).filter fun w => r.picked? w = none).card
    + r.free.length * 2 ^ Draw.leadingZeros 32 r.free.length = UInt32.size
  mem_free : ∀ (w a : Nat), r.picked? w = some a → a ∈ r.free
  drawn : ∀ (w : UInt32) (ws : List UInt32) (used a : Nat), r.picked? w.toNat = some a →
    drawCell r.free (⟨w :: ws, used⟩ : ListedWords) = (some a, ⟨ws, used + 1⟩)
  drawn_again : ∀ (w : UInt32) (ws : List UInt32) (used : Nat), r.picked? w.toNat = none →
    drawCell r.free (⟨w :: ws, used⟩ : ListedWords)
      = drawCell r.free (⟨ws, used + 1⟩ : ListedWords)

theorem fair_of_free (hsize : r.size < UInt32.size) (hfree : r.free ≠ []) : Fair r where
  card_eq := fun _ ha => card_picked? hsize ha
  card_left := card_unpicked hsize hfree
  mem_free := fun _ _ => mem_free_of_picked?
  drawn := fun _ ws used _ => drawCell_of_picked hsize ws used
  drawn_again := fun _ ws used => drawCell_of_unpicked hsize ws used hfree

/-! ## All placements -/

theorem mem_free_around (hn : n ≤ Word.max64) {a : Nat} :
    a ∈ (around n (reach separation maxLength) starts).free
      ↔ a < n ∧ ∀ start ∈ starts, ¬InWindow n (separation + maxLength) start a := by
  rw [(covers_around n (reach separation maxLength) starts).mem_free_iff]
  refine and_congr_right fun ha => forall₂_congr fun start _ => not_congr ?_
  exact inWindow_saturated_iff hn ha

/-- Starts keep apart no matter whether the reach is saturated. -/
theorem spread_nil_iff (hn : n ≤ Word.max64) :
    Spread n (reach separation maxLength) [] starts
      ↔ (∀ a ∈ starts, a < n)
        ∧ starts.Pairwise fun a b => ¬InWindow n (separation + maxLength) a b := by
  constructor
  · intro hs
    refine ⟨hs.lt, hs.pairwise.imp_of_mem ?_⟩
    intro a b _ hb hout hin
    exact hout ((inWindow_saturated_iff hn (hs.lt b hb)).2 hin)
  · rintro ⟨hlt, hpairwise⟩
    refine ⟨hlt, nofun, hpairwise.imp_of_mem ?_⟩
    intro a b _ hb hout hin
    exact hout ((inWindow_saturated_iff hn (hlt b hb)).1 hin)

theorem exists_words_iff (hn : n < UInt32.size) (hstarts : starts ≠ []) :
    (∃ ws, (place n starts.length separation maxLength (ListedWords.ofList ws)).1 = .ok starts)
      ↔ starts.length < 2 ^ 60 ∧ starts[0]? = some anchor
        ∧ Spread n (reach separation maxLength) [] starts := by
  constructor
  · rintro ⟨ws, hplaced⟩
    obtain ⟨-, hfirst, hspread⟩ := place_spread hplaced
    obtain ⟨-, hfits, -⟩ := place_eq_ok_iff.1 (Prod.ext hplaced rfl)
    exact ⟨(fits_iff.1 hfits).2, hfirst (List.length_pos_iff.2 hstarts), hspread⟩
  · rintro ⟨hlength, hfirst, hspread⟩
    have hfits : Fits n starts.length := fits_iff.2 ⟨Nat.lt_trans hn (by decide), hlength⟩
    obtain ⟨script, hsmall, hplaced⟩ :=
      exists_script_of_spread (σ := ListedWords) hn hfits hfirst hspread
    obtain ⟨ws, hmakes⟩ := ListedWords.exists_makes script hsmall
    exact ⟨ws, hplaced _ (hmakes 0)⟩

/-- **Even draws**: behind any starts, the free cells are those outside of their windows,
    for the reach without any saturation, and while there are any, a word selects each of
    them alike.  The start of the next agent is what is drawn from them.  Hence some words
    give any starts from zero on that keep outside of the windows before them, if there is
    a memory that holds the list of them. -/
theorem place_evenly (separation maxLength : Nat) (hn : n < 2 ^ 32) :
    (∀ starts : List Nat,
        (∀ a, a ∈ (around n (reach separation maxLength) starts).free
          ↔ a < n ∧ ∀ start ∈ starts, ¬InWindow n (separation + maxLength) start a)
        ∧ ((around n (reach separation maxLength) starts).free ≠ []
          → Fair (around n (reach separation maxLength) starts)))
      ∧ (∀ (agent : Nat) (starts : List Nat) (s s' : ListedWords), 1 ≤ agent →
          place n agent separation maxLength s = (.ok starts, s') →
          ∀ (a : Nat) (s'' : ListedWords),
            place n (agent + 1) separation maxLength s = (.ok (starts ++ [a]), s'')
              ↔ agent + 1 < 2 ^ 60
                ∧ drawCell (around n (reach separation maxLength) starts).free s' = (some a, s''))
      ∧ ∀ starts : List Nat, starts ≠ [] →
          ((∃ ws, (place n starts.length separation maxLength (ListedWords.ofList ws)).1
              = .ok starts)
            ↔ starts.length < 2 ^ 60 ∧ starts[0]? = some 0 ∧ (∀ a ∈ starts, a < n)
              ∧ starts.Pairwise fun a b => ¬InWindow n (separation + maxLength) a b) := by
  have hword : n ≤ Word.max64 := Nat.le_of_lt (Nat.lt_of_lt_of_le hn (by decide))
  refine ⟨?_, ?_, ?_⟩
  · intro starts
    refine ⟨fun a => mem_free_around hword, ?_⟩
    intro hfree
    refine fair_of_free ?_ hfree
    rw [size_around]
    exact hn
  · intro agent starts s s' hagent hplaced a s''
    exact place_succ_eq_ok_iff hagent hplaced
  · intro starts hstarts
    rw [exists_words_iff hn hstarts, spread_nil_iff hword]
    rfl

/-- On a core of 20 cells, ten cells are free behind a first start with a reach of five.
    A sixteenth of all words selects the cell 7, and some words give the starts that lie
    closest. -/
theorem place_evenly_ten :
    (20 : Nat) < 2 ^ 32
      ∧ (around 20 (reach 2 3) [0]).free = [5, 6, 7, 8, 9, 10, 11, 12, 13, 14]
      ∧ ((Finset.range UInt32.size).filter
          fun w => (around 20 (reach 2 3) [0]).picked? w = some 7).card = 2 ^ 28
      ∧ ∃ ws, (place 20 3 2 3 (ListedWords.ofList ws)).1 = .ok [0, 5, 10] := by
  have hn : (20 : Nat) < 2 ^ 32 := by decide
  have hfree : (around 20 (reach 2 3) [0]).free = [5, 6, 7, 8, 9, 10, 11, 12, 13, 14] := by decide
  obtain ⟨hfair, -, hwords⟩ := place_evenly 2 3 hn
  have hapart : Spread 20 (reach 2 3) [] [0, 5, 10] :=
    spread_densest (show 3 * reach 2 3 < 20 by decide)
  refine ⟨hn, hfree, ?_, (hwords [0, 5, 10] nofun).2
    ⟨by decide, rfl, (spread_nil_iff (by decide)).1 hapart⟩⟩
  have hcard := ((hfair [0]).2 (by rw [hfree]; nofun)).card_eq 7 (by rw [hfree]; decide)
  rw [hfree] at hcard
  exact hcard

end Placement

end NibbleArena
