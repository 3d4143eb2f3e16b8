import Mathlib.Algebra.BigOperators.Option
import Mathlib.Order.Interval.Finset.Nat
import NibbleArena.Draw.Words

/-! # Even chances — each option is selected by the same number of words

    A word of so many bits times the number of options lies in one of as many stretches of
    `2 ^ bits` numbers as there are options.  It is accepted in the front part of a
    stretch, and the front part is as long as `share` times the number of options.  So the
    accepted words of an option are `share` words in a row, from the first one whose
    product reaches the stretch (`select?_eq_some_iff_mem`).

    `Makes` says of a chooser that it makes given choices one after the other, and
    `Full` that there is no sequence of choices that it cannot make, as long as the options
    of each are fewer than there are words of 32 bits.  Listed words are full: write down
    the first word of each option. -/

namespace NibbleArena

namespace Draw

variable {bits n i w : Nat}

/-- The number of words that select one and the same of `n` options. -/
def share (bits n : Nat) : Nat := 2 ^ leadingZeros bits n

/-- The first word whose product with `n` reaches the stretch of an option. -/
def firstWord (bits n i : Nat) : Nat := (i * 2 ^ bits + (n - 1)) / n

theorem share_pos (bits n : Nat) : 0 < share bits n := Nat.two_pow_pos _

/-- The front part of a stretch is no longer than the stretch. -/
theorem mul_share_le (hpos : 0 < n) (hn : n < 2 ^ bits) : n * share bits n ≤ 2 ^ bits := by
  have hlog : n.log2 < bits := (Nat.log2_lt (Nat.ne_of_gt hpos)).2 hn
  have hexp : n.log2 + 1 + (bits - 1 - n.log2) = bits := by omega
  calc n * 2 ^ (bits - 1 - n.log2)
      ≤ 2 ^ (n.log2 + 1) * 2 ^ (bits - 1 - n.log2) :=
        Nat.mul_le_mul_right _ (Nat.le_of_lt Nat.lt_log2_self)
    _ = 2 ^ bits := by rw [← Nat.pow_add, hexp]

theorem le_zone_iff (hpos : 0 < n) (x : Nat) : x ≤ zone bits n ↔ x < n * share bits n := by
  have hfront : 0 < n * share bits n := Nat.mul_pos hpos (share_pos bits n)
  show x ≤ (n <<< leadingZeros bits n) - 1 ↔ x < n * 2 ^ leadingZeros bits n
  rw [Nat.shiftLeft_eq]
  exact Nat.le_sub_one_iff_lt hfront

/-- A word selects an option if its product lies in the front part of the stretch. -/
theorem select?_eq_some_iff (hpos : 0 < n) (hn : n < 2 ^ bits) :
    select? bits n w = some i
      ↔ i * 2 ^ bits ≤ w * n ∧ w * n < i * 2 ^ bits + n * share bits n := by
  have hle := mul_share_le hpos hn
  have hdiv := Nat.div_add_mod (w * n) (2 ^ bits)
  have hmod : w * n % 2 ^ bits < 2 ^ bits := Nat.mod_lt _ (Nat.two_pow_pos bits)
  simp only [select?, Nat.one_shiftLeft, Nat.shiftRight_eq_div_pow, le_zone_iff hpos]
  by_cases hin : w * n % 2 ^ bits < n * share bits n
  · rw [if_pos hin, Option.some_inj]
    constructor
    · rintro rfl
      rw [Nat.mul_comm] at hdiv
      omega
    · rintro ⟨hlow, hhigh⟩
      exact Nat.div_eq_of_lt_le hlow (by rw [Nat.succ_mul]; omega)
  · rw [if_neg hin]
    refine iff_of_false nofun ?_
    rintro ⟨hlow, hhigh⟩
    have hquot : w * n / 2 ^ bits = i :=
      Nat.div_eq_of_lt_le hlow (by rw [Nat.succ_mul]; omega)
    rw [hquot, Nat.mul_comm] at hdiv
    omega

theorem firstWord_le_iff (hpos : 0 < n) : firstWord bits n i ≤ w ↔ i * 2 ^ bits ≤ w * n := by
  rw [firstWord, ← Nat.lt_succ_iff, Nat.div_lt_iff_lt_mul hpos, Nat.succ_mul]
  omega

/-- The words that select an option are so many words in a row. -/
theorem select?_eq_some_iff_mem (hpos : 0 < n) (hn : n < 2 ^ bits) :
    select? bits n w = some i
      ↔ w ∈ Finset.Ico (firstWord bits n i) (firstWord bits n i + share bits n) := by
  rw [select?_eq_some_iff hpos hn, Finset.mem_Ico, firstWord_le_iff hpos]
  refine and_congr_right ?_
  intro hlow
  rcases Nat.lt_or_ge w (share bits n) with hsmall | hlarge
  · have hprod : w * n < n * share bits n := by
      rw [Nat.mul_comm]
      exact Nat.mul_lt_mul_of_pos_left hsmall hpos
    exact iff_of_true (by omega) (by omega)
  · -- as many words before, the product has not reached the stretch
    have hprod : n * share bits n ≤ w * n := by
      rw [Nat.mul_comm n]
      exact Nat.mul_le_mul_right n hlarge
    have hbefore : firstWord bits n i ≤ w - share bits n
        ↔ i * 2 ^ bits ≤ (w - share bits n) * n :=
      firstWord_le_iff hpos
    rw [Nat.sub_mul, Nat.mul_comm (share bits n)] at hbefore
    omega

/-- No more words than there are select an option: its stretch ends before the product
    of all of them. -/
theorem lt_two_pow_of_select? (hn : n < 2 ^ bits) (hi : i < n)
    (h : select? bits n w = some i) : w < 2 ^ bits := by
  have hpos : 0 < n := Nat.zero_lt_of_lt hi
  have hhigh := ((select?_eq_some_iff hpos hn).1 h).2
  have hle := mul_share_le hpos hn
  have hstretch : (i + 1) * 2 ^ bits ≤ n * 2 ^ bits := Nat.mul_le_mul_right _ hi
  rw [Nat.succ_mul, Nat.mul_comm n] at hstretch
  exact Nat.lt_of_mul_lt_mul_right (a := n) (by omega)

/-- Each option is selected by the same number of words. -/
theorem card_select? (hn : n < 2 ^ bits) (hi : i < n) :
    ((Finset.range (2 ^ bits)).filter fun w => select? bits n w = some i).card
      = share bits n := by
  have hpos : 0 < n := Nat.zero_lt_of_lt hi
  have hset : (Finset.range (2 ^ bits)).filter (fun w => select? bits n w = some i)
      = Finset.Ico (firstWord bits n i) (firstWord bits n i + share bits n) := by
    ext w
    rw [Finset.mem_filter, Finset.mem_range, ← select?_eq_some_iff_mem hpos hn]
    exact and_iff_right_of_imp (lt_two_pow_of_select? hn hi)
  rw [hset, Nat.card_Ico, Nat.add_sub_cancel_left]

/-- The words that select nothing are those that are left. -/
theorem card_rejected (hpos : 0 < n) (hn : n < 2 ^ bits) :
    ((Finset.range (2 ^ bits)).filter fun w => select? bits n w = none).card
      + n * share bits n = 2 ^ bits := by
  have hmaps : ∀ w ∈ Finset.range (2 ^ bits),
      select? bits n w ∈ (Finset.range n).insertNone := by
    intro w hw
    rw [Finset.mem_insertNone]
    intro i hi
    rw [Finset.mem_range, ← Nat.one_shiftLeft] at hw
    exact Finset.mem_range.2 (select?_lt hw hpos hi)
  have hsum := Finset.card_eq_sum_card_fiberwise hmaps
  have hevenly : ∀ i ∈ Finset.range n,
      ((Finset.range (2 ^ bits)).filter fun w => select? bits n w = some i).card
        = share bits n :=
    fun i hi => card_select? hn (Finset.mem_range.1 hi)
  rw [Finset.card_range, Finset.sum_insertNone, Finset.sum_const_nat hevenly,
    Finset.card_range] at hsum
  exact hsum.symm

/-- Some word selects the option. -/
theorem exists_word (hn : n < UInt32.size) (hi : i < n) :
    ∃ w : UInt32, select? 32 n w.toNat = some i := by
  have hpos : 0 < n := Nat.zero_lt_of_lt hi
  have hselect : select? 32 n (firstWord 32 n i) = some i := by
    rw [select?_eq_some_iff_mem hpos hn, Finset.mem_Ico]
    exact ⟨Nat.le_refl _, Nat.lt_add_of_pos_right (share_pos 32 n)⟩
  refine ⟨UInt32.ofNat (firstWord 32 n i), ?_⟩
  rw [UInt32.toNat_ofNat_of_lt' (lt_two_pow_of_select? hn hi hselect)]
  exact hselect

/-! ## Words one after the other -/

theorem width_eq (hn : n < UInt32.size) : width n = 32 := if_pos hn

/-- Among fewer options than there are words of 32 bits, a listed word is taken as it is. -/
theorem nextWord_listed {w : UInt32} (hn : n < UInt32.size) (ws : List UInt32) (used : Nat) :
    nextWord n (⟨w :: ws, used⟩ : ListedWords) = (w.toNat, ⟨ws, used + 1⟩) := if_pos hn

theorem choose_of_accepted {w : UInt32} (hn : n < UInt32.size) (ws : List UInt32) (used : Nat)
    (hi : i < n) (h : select? 32 n w.toNat = some i) :
    Chooser.choose n (Nat.zero_lt_of_lt hi) (⟨w :: ws, used⟩ : ListedWords)
      = (⟨i, hi⟩, ⟨ws, used + 1⟩) := by
  have hdrawn : choose n (⟨w :: ws, used⟩ : ListedWords) = (i, ⟨ws, used + 1⟩) := by
    show chooseWithin n (ws.length + 1 + 1) (⟨w :: ws, used⟩ : ListedWords) = _
    rw [chooseWithin]
    simp only [nextWord_listed hn, width_eq hn, h]
  refine Prod.ext (Fin.ext ?_) ?_
  · show (choose n (⟨w :: ws, used⟩ : ListedWords)).1 = i
    rw [hdrawn]
  · show (choose n (⟨w :: ws, used⟩ : ListedWords)).2 = _
    rw [hdrawn]

/-- A rejected word is passed over. -/
theorem choose_of_rejected {w : UInt32} (hn : n < UInt32.size) (ws : List UInt32) (used : Nat)
    (hpos : 0 < n) (h : select? 32 n w.toNat = none) :
    Chooser.choose n hpos (⟨w :: ws, used⟩ : ListedWords)
      = Chooser.choose n hpos (⟨ws, used + 1⟩ : ListedWords) := by
  have hdrawn : choose n (⟨w :: ws, used⟩ : ListedWords)
      = choose n (⟨ws, used + 1⟩ : ListedWords) := by
    show chooseWithin n (ws.length + 1 + 1) (⟨w :: ws, used⟩ : ListedWords) = _
    rw [chooseWithin]
    simp only [nextWord_listed hn, width_eq hn, h]
    rfl
  refine Prod.ext (Fin.ext ?_) ?_
  · show (choose n (⟨w :: ws, used⟩ : ListedWords)).1 = (choose n (⟨ws, used + 1⟩ : ListedWords)).1
    rw [hdrawn]
  · show (choose n (⟨w :: ws, used⟩ : ListedWords)).2 = (choose n (⟨ws, used + 1⟩ : ListedWords)).2
    rw [hdrawn]

end Draw

/-! ## All choices -/

namespace Chooser

variable {σ : Type} [Chooser σ]

/-- The state makes these choices in order: each is a number of options and the option
    that is chosen. -/
def Makes : List ((n : Nat) × Fin n) → σ → Prop
  | [], _ => True
  | ⟨_, i⟩ :: rest, s =>
    (choose _ i.pos s).1 = i ∧ Makes rest (choose _ i.pos s).2

/-- Whatever choices among fewer options than there are words are to be made in order,
    some state makes them. -/
def Full (σ : Type) [Chooser σ] : Prop :=
  ∀ script : List ((n : Nat) × Fin n), (∀ c ∈ script, c.1 < UInt32.size) →
    ∃ s : σ, Makes script s

end Chooser

namespace ListedWords

/-- Some words make these choices, however many words were taken before. -/
theorem exists_makes (script : List ((n : Nat) × Fin n))
    (h : ∀ c ∈ script, c.1 < UInt32.size) :
    ∃ ws, ∀ used, Chooser.Makes script (⟨ws, used⟩ : ListedWords) := by
  induction script with
  | nil => exact ⟨[], fun _ => trivial⟩
  | cons c rest ih =>
      obtain ⟨n, i⟩ := c
      have hn : n < UInt32.size := h _ List.mem_cons_self
      obtain ⟨w, hselect⟩ := Draw.exists_word hn i.isLt
      obtain ⟨ws, hrest⟩ := ih fun c hc => h c (List.mem_cons_of_mem _ hc)
      refine ⟨w :: ws, ?_⟩
      intro used
      have hchosen := Draw.choose_of_accepted hn ws used i.isLt hselect
      refine ⟨congrArg Prod.fst hchosen, ?_⟩
      rw [hchosen]
      exact hrest (used + 1)

/-- Listed words can make any choices. -/
theorem full : Chooser.Full ListedWords := by
  intro script h
  obtain ⟨ws, hmakes⟩ := exists_makes script h
  exact ⟨ofList ws, hmakes 0⟩

end ListedWords

end NibbleArena
