import Mathlib.Algebra.Ring.Int.Defs
import Mathlib.Data.List.Nodup
import Mathlib.Data.List.Perm.Subperm
import Mathlib.Data.Nat.Find
import NibbleArena.Proofs.Bracket.Symmetry
import NibbleArena.Proofs.Machine.Effect

/-! # Counting — as many matches as the brackets of a core allow

    Once around the core a walk looks at every cell once, so at the end of a lap
    the depth is one more than the surplus of its own brackets.  A search that
    starts on such a bracket meets it again as the last cell of its lap.  If there
    is no surplus, the depth is therefore down to zero before the lap is closed,
    and since it comes down by one at a time it was zero for a first time.

    So the rarer kind of bracket is matched from everywhere, and the two searches
    pair it with as many of the other kind.  A jump finds no match only from a
    bracket of which there are too many. -/

namespace NibbleArena

namespace Core

variable {c : Core} {w : Walk}

/-- The number of cells that hold an opcode. -/
def count (c : Core) (op : Opcode) : Nat := c.cells.countP fun v => Opcode.ofNibble v = op

/-- The number of brackets from which the search along a walk succeeds. -/
def matchedCount (c : Core) (w : Walk) : Nat :=
  (List.range c.size).countP fun a => c.opcode a = w.deeper && (c.search w a).isSome

theorem count_eq (c : Core) (op : Opcode) :
    c.count op = (List.range c.size).countP fun a => c.opcode a = op := by
  show c.cells.countP _ = _
  rw [← Array.countP_toList, toList_cells, List.countP_map]
  rfl

/-! ## The depth at the end of a lap -/

theorem depth_eq_sum (c : Core) (w : Walk) (a k : Nat) :
    c.depth w a k
      = 1 + ((List.range k).map fun j => w.weight (c.opcode (c.along w a (j + 1)))).sum := by
  induction k with
  | zero => rfl
  | succ k ih =>
      rw [List.range_succ, List.map_append, List.sum_append, ← Int.add_assoc, ← ih]
      rw [List.map_singleton, List.sum_singleton]
      rfl

theorem along_inj (hw : w.step.natAbs = 1) {a i j : Nat} (hi : i < c.size) (hj : j < c.size)
    (h : c.along w a (i + 1) = c.along w a (j + 1)) : i = j := by
  have hmod : ((a : Int) + (i + 1 : Nat) * w.step) % c.size
      = ((a : Int) + (j + 1 : Nat) * w.step) % c.size := by
    rw [← offset_eq_emod, ← offset_eq_emod]
    exact congrArg Int.ofNat h
  have hdvd := Int.dvd_of_emod_eq_zero (Int.emod_eq_emod_iff_emod_sub_eq_zero.1 hmod)
  have hdiff : (a : Int) + (i + 1 : Nat) * w.step - (a + (j + 1 : Nat) * w.step)
      = ((i : Int) - j) * w.step := by
    rw [Int.sub_mul]
    push_cast
    rw [Int.add_mul, Int.add_mul]
    omega
  rw [hdiff] at hdvd
  -- a step of one cell makes the difference of the cells that of the numbers
  have hsmall : (((i : Int) - j) * w.step).natAbs < (c.size : Int).natAbs := by
    rw [Int.natAbs_mul, hw, Nat.mul_one]
    omega
  have hzero := Int.eq_zero_of_dvd_of_natAbs_lt_natAbs hdvd hsmall
  rcases Int.mul_eq_zero.1 hzero with hij | hstep
  · omega
  · rw [hstep] at hw
    exact absurd hw (by decide)

/-- Once around the core, every cell is looked at once. -/
theorem lap_perm (hw : w.step.natAbs = 1) (a : Nat) :
    ((List.range c.size).map fun j => c.along w a (j + 1)).Perm (List.range c.size) := by
  have hnodup : ((List.range c.size).map fun j => c.along w a (j + 1)).Nodup := by
    refine List.Nodup.map_on ?_ List.nodup_range
    intro i hi j hj h
    exact along_inj hw (List.mem_range.1 hi) (List.mem_range.1 hj) h
  have hsub : (List.range c.size).map (fun j => c.along w a (j + 1)) ⊆ List.range c.size := by
    intro x hx
    obtain ⟨j, -, rfl⟩ := List.mem_map.1 hx
    exact List.mem_range.2 (c.offset_lt a _)
  refine (List.subperm_of_subset hnodup hsub).perm_of_length_le ?_
  rw [List.length_map]

theorem sum_weight (c : Core) (w : Walk) (cells : List Nat) :
    (cells.map fun x => w.weight (c.opcode x)).sum
      = (cells.countP (fun x => c.opcode x = w.deeper) : Int)
        - cells.countP (fun x => c.opcode x = w.shallower) := by
  induction cells with
  | nil => rfl
  | cons x rest ih =>
      rw [List.map_cons, List.sum_cons, ih, List.countP_cons, List.countP_cons]
      by_cases hd : c.opcode x = w.deeper
      · simp only [hd, Walk.weight_deeper, w.ne, decide_true, decide_false, if_true]
        push_cast
        omega
      · by_cases hs : c.opcode x = w.shallower
        · simp only [hs, Walk.weight_shallower, w.ne.symm, decide_true, decide_false, if_true]
          push_cast
          omega
        · simp only [Walk.weight_of_ne hd hs, hd, hs, decide_false]
          push_cast
          omega

/-- The depth by the brackets of either kind that were looked at. -/
theorem depth_eq_countP (c : Core) (w : Walk) (a k : Nat) :
    let cells := (List.range k).map fun j => c.along w a (j + 1)
    c.depth w a k
      = 1 + ((cells.countP (fun x => c.opcode x = w.deeper) : Int)
        - cells.countP (fun x => c.opcode x = w.shallower)) := by
  intro cells
  rw [depth_eq_sum, ← sum_weight, List.map_map]
  rfl

/-- At the end of a lap the depth tells how many brackets of the walk's own kind
    there are more than of the other. -/
theorem depth_lap (hw : w.step.natAbs = 1) (a : Nat) :
    c.depth w a c.size = 1 + ((c.count w.deeper : Int) - c.count w.shallower) := by
  rw [depth_eq_countP, (lap_perm hw a).countP_eq, (lap_perm hw a).countP_eq, count_eq, count_eq]

/-! ## Matches of the rarer bracket -/

/-- A depth that has come down to zero or below was zero for a first time. -/
theorem exists_returns {a k : Nat} (hk : k ≤ c.size) (h : c.depth w a k ≤ 0) :
    ∃ j, Returns c w a j := by
  have hex : ∃ j, c.depth w a j ≤ 0 := ⟨k, h⟩
  have hleast : ∀ j < Nat.find hex, 0 < c.depth w a j := by
    intro j hj
    exact Int.not_le.1 (Nat.find_min hex hj)
  have hdown := Nat.find_spec hex
  have hle : Nat.find hex ≤ k := Nat.find_min' hex h
  generalize Nat.find hex = i at hleast hdown hle
  cases i with
  | zero =>
      have hstart : c.depth w a 0 = 1 := rfl
      omega
  | succ i =>
      have hbefore := hleast i (Nat.lt_succ_self i)
      have hweight := w.neg_one_le_weight (c.opcode (c.along w a (i + 1)))
      have hstep : c.depth w a (i + 1)
          = c.depth w a i + w.weight (c.opcode (c.along w a (i + 1))) := rfl
      refine ⟨i + 1, Nat.succ_pos i, Nat.le_trans hle hk, by omega, ?_⟩
      intro j hj
      exact Int.ne_of_gt (hleast j hj)

theorem along_size (c : Core) (w : Walk) (a : Nat) : c.along w a c.size = c.wrap a := by
  apply Int.natCast_inj.1
  show (c.offset a (c.size * w.step) : Int) = c.wrap a
  rw [offset_eq_emod, wrap_eq_emod, Int.add_mul_emod_self_left]

/-- Without a surplus of its own kind, every bracket is matched. -/
theorem search_isSome (hw : w.step.natAbs = 1) (hle : c.count w.deeper ≤ c.count w.shallower)
    {a : Nat} (ha : c.opcode a = w.deeper) : (c.search w a).isSome := by
  obtain ⟨n, hn⟩ := Nat.exists_eq_add_of_lt c.size_pos
  have hsize : c.size = n + 1 := by
    show c.cells.size = n + 1
    omega
  have hlap := depth_lap (c := c) hw a
  -- the bracket itself is the last cell of the lap, and the cells before it decide
  have hlast : c.depth w a c.size = c.depth w a n + 1 := by
    rw [hsize]
    show c.depth w a n + w.weight (c.opcode (c.along w a (n + 1))) = _
    rw [← hsize, along_size, opcode_wrap, ha, Walk.weight_deeper]
  obtain ⟨j, hj⟩ := exists_returns (c := c) (w := w) (a := a) (k := n) (by omega) (by omega)
  rw [search_eq_some_iff.2 ⟨j, hj, rfl⟩]
  rfl

theorem matchedCount_of_le (hw : w.step.natAbs = 1)
    (hle : c.count w.deeper ≤ c.count w.shallower) : c.matchedCount w = c.count w.deeper := by
  rw [count_eq, matchedCount]
  apply List.countP_congr
  intro a _
  rw [Bool.and_eq_true, and_iff_left_iff_imp, decide_eq_true_iff]
  exact search_isSome hw hle

/-! ## Matches from either end -/

/-- The search back succeeds from the match of every bracket that is matched. -/
theorem matchedCount_le_reverse (c : Core) (w : Walk) :
    c.matchedCount w ≤ c.matchedCount w.reverse := by
  have hfound : ∀ a ∈ (List.range c.size).filter
      (fun a => c.opcode a = w.deeper && (c.search w a).isSome),
      ∃ q, c.search w a = some q ∧ q < c.size ∧ c.opcode q = w.shallower
        ∧ c.search w.reverse q = some a := by
    intro a ha
    obtain ⟨hlt, hmatched⟩ := List.mem_filter.1 ha
    rw [Bool.and_eq_true, decide_eq_true_iff, Option.isSome_iff_exists] at hmatched
    obtain ⟨hop, q, hq⟩ := hmatched
    obtain ⟨hqlt, hqop, -, hback⟩ := search_reverse hop hq
    rw [wrap_of_lt (List.mem_range.1 hlt)] at hback
    exact ⟨q, hq, hqlt, hqop, hback⟩
  rw [matchedCount, matchedCount, List.countP_eq_length_filter, List.countP_eq_length_filter]
  rw [← List.length_map fun a => (c.search w a).getD 0]
  refine (List.subperm_of_subset ?_ ?_).length_le
  · refine List.Nodup.map_on ?_ (List.nodup_range.filter _)
    intro a ha b hb heq
    obtain ⟨q, hq, -, -, hback⟩ := hfound a ha
    obtain ⟨q', hq', -, -, hback'⟩ := hfound b hb
    rw [hq, hq', Option.getD_some, Option.getD_some] at heq
    rw [heq, hback'] at hback
    exact (Option.some.inj hback).symm
  · intro x hx
    obtain ⟨a, ha, rfl⟩ := List.mem_map.1 hx
    obtain ⟨q, hq, hlt, hop, hback⟩ := hfound a ha
    rw [hq, Option.getD_some, List.mem_filter, List.mem_range, Bool.and_eq_true,
      decide_eq_true_iff, hback]
    exact ⟨hlt, hop, rfl⟩

theorem matchedCount_reverse (c : Core) (w : Walk) :
    c.matchedCount w.reverse = c.matchedCount w := by
  have hback := c.matchedCount_le_reverse w.reverse
  have hsame : w.reverse.reverse = w := by
    simp only [Walk.reverse, Int.neg_neg]
  rw [hsame] at hback
  exact Nat.le_antisymm hback (c.matchedCount_le_reverse w)

theorem matchedCount_eq_min (hw : w.step.natAbs = 1) :
    c.matchedCount w = min (c.count w.deeper) (c.count w.shallower) := by
  rcases Nat.le_total (c.count w.deeper) (c.count w.shallower) with hle | hle
  · rw [matchedCount_of_le hw hle, Nat.min_eq_left hle]
  · have hback : w.reverse.step.natAbs = 1 := (Int.natAbs_neg w.step).trans hw
    rw [← matchedCount_reverse, Nat.min_eq_right hle]
    exact matchedCount_of_le (w := w.reverse) hback hle

end Core

/-! ## Jumps -/

namespace Machine

variable {σ : Type} [Host σ] {m : Machine σ} {f : BracketFamily}

theorem step_of_match_opening (hop : m.opcode = f.opening)
    (hmatch : (m.core.matchForward? m.regs.exec f).isSome) : m.step.1 = .ok .running := by
  obtain ⟨target, htarget⟩ := Option.isSome_iff_exists.1 hmatch
  have hdata : m.data.core.opcode m.regs.exec = f.opening := hop
  show (m.data.machine m.regs.exec).step.1 = _
  rw [Data.step_opening hdata]
  split
  · show (jump _ _ _ _ (m.core.matchForward? m.regs.exec f)).1 = _
    rw [htarget]
    rfl
  · rfl

theorem step_of_match_closing (hop : m.opcode = f.closing)
    (hmatch : (m.core.matchBackward? m.regs.exec f).isSome) : m.step.1 = .ok .running := by
  obtain ⟨target, htarget⟩ := Option.isSome_iff_exists.1 hmatch
  have hdata : m.data.core.opcode m.regs.exec = f.closing := hop
  show (m.data.machine m.regs.exec).step.1 = _
  rw [Data.step_closing hdata]
  split
  · rfl
  · show (jump _ _ _ _ (m.core.matchBackward? m.regs.exec f)).1 = _
    rw [htarget]
    rfl

/-- An opening bracket goes on unless there are more of its kind than of the other. -/
theorem step_opening_running (hop : m.opcode = f.opening)
    (hle : m.core.count f.opening ≤ m.core.count f.closing) : m.step.1 = .ok .running :=
  step_of_match_opening hop (Core.search_isSome (w := f.ahead) rfl hle hop)

theorem step_closing_running (hop : m.opcode = f.closing)
    (hle : m.core.count f.closing ≤ m.core.count f.opening) : m.step.1 = .ok .running :=
  step_of_match_closing hop (Core.search_isSome (w := f.behind) rfl hle hop)

end Machine

namespace Core

/-- **As many matches as brackets of the rarer kind**, from either end, on every core
    and for each family.  So a jump halts the program only from a bracket of which the
    core holds more than of its counterpart, and where it holds as many of both, a
    program goes on behind every bracket. -/
theorem count_matches (c : Core) (f : BracketFamily) :
    let opens := c.count f.opening
    let closes := c.count f.closing
    (List.range c.size).countP
        (fun p => c.opcode p = f.opening && (c.matchForward? p f).isSome) = min opens closes
      ∧ (List.range c.size).countP
        (fun q => c.opcode q = f.closing && (c.matchBackward? q f).isSome) = min opens closes
      ∧ ∀ (σ : Type) [Host σ] (m : Machine σ), m.core = c →
        (m.opcode = f.opening → m.step.1 = .ok (.halted .unmatchedBracket) → closes < opens)
        ∧ (m.opcode = f.closing → m.step.1 = .ok (.halted .unmatchedBracket) → opens < closes)
        ∧ (opens = closes → m.opcode = f.opening ∨ m.opcode = f.closing →
          m.step.1 = .ok .running) := by
  intro opens closes
  refine ⟨matchedCount_eq_min (w := f.ahead) rfl, ?_, ?_⟩
  · show _ = min (c.count f.opening) (c.count f.closing)
    rw [Nat.min_comm]
    exact matchedCount_eq_min (w := f.behind) rfl
  · rintro σ _ m rfl
    refine ⟨?_, ?_, ?_⟩
    · intro hop hhalt
      refine Nat.lt_of_not_le fun hle => ?_
      exact nomatch hhalt.symm.trans (Machine.step_opening_running hop hle)
    · intro hop hhalt
      refine Nat.lt_of_not_le fun hle => ?_
      exact nomatch hhalt.symm.trans (Machine.step_closing_running hop hle)
    · rintro heq (hop | hop)
      · exact Machine.step_opening_running hop (Nat.le_of_eq heq)
      · exact Machine.step_closing_running hop (Nat.le_of_eq heq.symm)

/-- Three opening brackets, of which one finds no closing one, and two closing ones. -/
theorem count_matches_surplus :
    let c : Core := ⟨#[11, 12, 12, 11, 11, 0], by decide⟩
    let m : Machine SealedHost := ⟨c, ⟨5, 3⟩, .sealed⟩
    (List.range c.size).countP
        (fun p => c.opcode p = .loopCell && (c.matchForward? p .cell).isSome) = 2
      ∧ m.opcode = .loopCell ∧ m.step.1 = .ok (.halted .unmatchedBracket)
      ∧ c.count .endCell < c.count .loopCell := by
  intro c m
  have hop : m.opcode = .loopCell := by decide
  have hhalt : m.step.1 = .ok (.halted .unmatchedBracket) := by decide +kernel
  have hcounted := count_matches c .cell
  exact ⟨hcounted.1, hop, hhalt, (hcounted.2.2 SealedHost m rfl).1 hop hhalt⟩

end Core

end NibbleArena
