import NibbleArena.Proofs.Bracket.Count

/-! # First return — a bracket search by its definition

    From a start, `seen` lists the opcodes of the cells in a direction and `balance`
    is one more than the surplus of the deeper brackets among them.  A search finds
    the cell at the end of the shortest list, no longer than a lap, whose balance is
    zero: `search_eq_firstReturn`.

    A search is told how many cells it may look at.  A `Scan` is not: it keeps a
    position and a counter, and it goes on until the counter is down at zero or the
    position is back at the start.  A counter cannot go below zero, so a scan may
    also get stuck.  That it does not, and that it ends at all, is one invariant:
    after `j` cells the position is `j` cells away from the start and the counter is
    one more than the brackets still to be closed, so it is never zero, and before
    the lap is closed the position is not the start. -/

namespace NibbleArena

/-- One more than the surplus of the deeper brackets. -/
def balance (deeper shallower : Opcode) (ops : List Opcode) : Int :=
  1 + (ops.count deeper : Int) - ops.count shallower

namespace Core

/-- The opcodes of the first `k` cells in a direction, the start left out. -/
def seen (c : Core) (d : Int) (a k : Nat) : List Opcode :=
  (List.range k).map fun j => c.opcode (((a : Int) + (j + 1 : Nat) * d) % c.size).toNat

/-- The least number of cells, from one to a lap, whose balance is zero. -/
def firstReturn (c : Core) (d : Int) (deeper shallower : Opcode) (a : Nat) : Option Nat :=
  (List.range' 1 c.size).find? fun k => balance deeper shallower (c.seen d a k) = 0

variable {c : Core} {w : Walk} {a k : Nat}

/-! ## The depth is a balance -/

theorem along_eq_emod (c : Core) (w : Walk) (a k : Nat) :
    c.along w a k = (((a : Int) + k * w.step) % c.size).toNat := by
  rw [← offset_eq_emod, Int.toNat_natCast]
  rfl

/-- A walk is back at its start when the lap is closed, and not before. -/
theorem along_eq_start_iff (hw : w.step.natAbs = 1) {j : Nat} (hj : j < c.size) :
    c.along w a (j + 1) = c.wrap a ↔ j + 1 = c.size := by
  obtain ⟨n, hn⟩ : ∃ n, c.size = n + 1 := Nat.exists_eq_add_of_le' c.size_pos
  rw [← along_size c w a, hn]
  constructor
  · intro h
    rw [along_inj hw hj (hn ▸ Nat.lt_succ_self n) h]
  · intro h
    rw [h]

theorem count_seen (c : Core) (w : Walk) (a k : Nat) (op : Opcode) :
    (c.seen w.step a k).count op
      = ((List.range k).map fun j => c.along w a (j + 1)).countP fun x => c.opcode x = op := by
  rw [seen, List.count_eq_countP, List.countP_map, List.countP_map]
  apply List.countP_congr
  intro j _
  simp only [Function.comp_apply, along_eq_emod, beq_iff_eq, decide_eq_true_eq]

theorem depth_eq_balance (c : Core) (w : Walk) (a k : Nat) :
    c.depth w a k = balance w.deeper w.shallower (c.seen w.step a k) := by
  rw [depth_eq_countP, balance, count_seen, count_seen, Int.add_sub_assoc]

theorem firstReturn_eq_some_iff :
    c.firstReturn w.step w.deeper w.shallower a = some k ↔ Returns c w a k := by
  rw [firstReturn, List.find?_range'_eq_some]
  simp only [← depth_eq_balance, List.mem_range'_1, decide_eq_true_eq, Bool.not_eq_true',
    decide_eq_false_iff_not]
  constructor
  · rintro ⟨hzero, ⟨hpos, hlt⟩, hleast⟩
    refine ⟨hpos, by omega, hzero, ?_⟩
    intro j hj
    -- before the first cell the depth is one
    cases j with
    | zero => exact Int.one_ne_zero
    | succ j => exact hleast (j + 1) (by omega) hj
  · intro h
    have hle := h.le_size
    exact ⟨h.depth_eq_zero, ⟨h.pos, by omega⟩, fun j _ hj => h.first j hj⟩

/-- A search ends where the balance is zero for the first time, if it ever is. -/
theorem search_eq_firstReturn (c : Core) (w : Walk) (a : Nat) :
    c.search w a = (c.firstReturn w.step w.deeper w.shallower a).map (c.along w a) := by
  apply Option.ext
  intro q
  rw [search_eq_some_iff, Option.map_eq_some_iff]
  simp only [firstReturn_eq_some_iff, eq_comm (a := q)]

end Core

/-! ## The search as a loop -/

/-- A search under way: the cell looked at last and the counter there. -/
structure Scan where
  pos : Nat
  counter : Nat

namespace Scan

/-- What the next cell makes of a scan. -/
inductive Turn
  /-- The counter is down at zero at this cell. -/
  | found (q : Nat)
  /-- This cell is the start. -/
  | lapsed
  /-- The counter would go below zero. -/
  | stuck
  | onward (s : Scan)

/-- A scan goes on unless it is back at its start. -/
def unlessBack (start : Nat) (s : Scan) : Turn := if s.pos = start then .lapsed else .onward s

/-- Looks at the next cell. -/
def turn (c : Core) (w : Walk) (start : Nat) (s : Scan) : Turn :=
  let next := c.offset s.pos w.step
  let op := c.opcode next
  if op = w.deeper then unlessBack start ⟨next, s.counter + 1⟩
  else if op = w.shallower then
    match s.counter with
    | 0 => .stuck
    | 1 => .found next
    | n + 2 => unlessBack start ⟨next, n + 1⟩
  else unlessBack start ⟨next, s.counter⟩

/-- The scan ends after so many cells with a result.  A scan that gets stuck does
    not. -/
inductive Ends (c : Core) (w : Walk) (start : Nat) : Nat → Scan → Option Nat → Prop
  | found {s : Scan} {q : Nat} (h : s.turn c w start = .found q) : Ends c w start 1 s (some q)
  | lapsed {s : Scan} (h : s.turn c w start = .lapsed) : Ends c w start 1 s none
  | onward {s s' : Scan} {cells : Nat} {r : Option Nat} (h : s.turn c w start = .onward s')
      (hlater : Ends c w start cells s' r) : Ends c w start (cells + 1) s r

variable {c : Core} {w : Walk} {a cells j nested : Nat}

/-- A turn that may go on does so with cells left, and with none it closes the lap. -/
theorem ends_of_unlessBack (hw : w.step.natAbs = 1) {s : Scan} (hlap : j + (cells + 1) = c.size)
    (hturn : s.turn c w (c.wrap a) = unlessBack (c.wrap a) ⟨c.along w a (j + 1), nested + 1⟩)
    (hlater : 0 < cells →
      ∃ n ≤ cells, Ends c w (c.wrap a) n ⟨c.along w a (j + 1), nested + 1⟩
        (c.seek w.step w.deeper w.shallower cells (c.along w a (j + 1)) nested)) :
    ∃ n ≤ cells + 1, Ends c w (c.wrap a) n s
      (c.seek w.step w.deeper w.shallower cells (c.along w a (j + 1)) nested) := by
  have hback : c.along w a (j + 1) = c.wrap a ↔ j + 1 = c.size :=
    Core.along_eq_start_iff hw (by omega)
  cases cells with
  | zero =>
      rw [unlessBack, if_pos (hback.2 hlap)] at hturn
      exact ⟨1, Nat.le_refl 1, .lapsed hturn⟩
  | succ cells =>
      rw [unlessBack, if_neg (mt hback.1 (by omega))] at hturn
      obtain ⟨n, hn, hends⟩ := hlater (Nat.succ_pos cells)
      exact ⟨n + 1, Nat.succ_le_succ hn, .onward hturn hends⟩

/-- The invariant: `j` cells away from the start and with one more on its counter than
    brackets to be closed, a scan ends as the search of the cells that are left. -/
theorem ends_seek (hw : w.step.natAbs = 1) (hpos : 0 < cells) (hlap : j + cells = c.size) :
    ∃ n ≤ cells, Ends c w (c.wrap a) n ⟨c.along w a j, nested + 1⟩
      (c.seek w.step w.deeper w.shallower cells (c.along w a j) nested) := by
  induction cells generalizing j nested with
  | zero => exact absurd hpos (Nat.lt_irrefl 0)
  | succ cells ih =>
      have hnext := c.offset_along w a j
      by_cases hd : c.opcode (c.along w a (j + 1)) = w.deeper
      · simp only [Core.seek, hnext, if_pos hd]
        refine ends_of_unlessBack hw hlap ?_ fun h => ih h (by omega)
        simp only [turn, hnext, if_pos hd]
      · by_cases hs : c.opcode (c.along w a (j + 1)) = w.shallower
        · simp only [Core.seek, hnext, if_neg hd, if_pos hs]
          cases nested with
          | zero =>
              refine ⟨1, Nat.succ_pos cells, .found ?_⟩
              simp only [turn, hnext, if_neg hd, if_pos hs]
          | succ nested =>
              refine ends_of_unlessBack hw hlap ?_ fun h => ih h (by omega)
              simp only [turn, hnext, if_neg hd, if_pos hs]
        · simp only [Core.seek, hnext, if_neg hd, if_neg hs]
          refine ends_of_unlessBack hw hlap ?_ fun h => ih h (by omega)
          simp only [turn, hnext, if_neg hd, if_neg hs]

/-- A scan ends within a lap, with what the search finds. -/
theorem ends_search (hw : w.step.natAbs = 1) (c : Core) (a : Nat) :
    ∃ n ≤ c.size, Ends c w (c.wrap a) n ⟨c.wrap a, 1⟩ (c.search w a) := by
  have hends : ∃ n ≤ c.size, Ends c w (c.wrap a) n ⟨c.along w a 0, 0 + 1⟩
      (c.seek w.step w.deeper w.shallower c.size (c.along w a 0) 0) :=
    ends_seek hw c.size_pos (Nat.zero_add c.size)
  rw [Core.along_zero] at hends
  exact hends

end Scan

namespace Core

/-- **The search by its definition**, on every core, from every address and for each
    family: the closing bracket that a search finds is the cell at the least distance,
    up to a whole lap, at which the opening brackets on the way and one more are
    balanced by closing ones, and there is none if no distance balances; and the same
    the other way round.  The loop that watches for its start and counts down ends
    within a lap with just this result, so its counter is never taken below zero. -/
theorem match_first_return (c : Core) (a : Nat) (f : BracketFamily) :
    c.matchForward? a f
        = (c.firstReturn 1 f.opening f.closing a).map (fun k : Nat => (a + k) % c.size)
      ∧ (∃ n ≤ c.size, Scan.Ends c f.ahead (c.wrap a) n ⟨c.wrap a, 1⟩ (c.matchForward? a f))
      ∧ c.matchBackward? a f
        = (c.firstReturn (-1) f.closing f.opening a).map
            (fun k : Nat => (((a : Int) - k) % c.size).toNat)
      ∧ ∃ n ≤ c.size, Scan.Ends c f.behind (c.wrap a) n ⟨c.wrap a, 1⟩ (c.matchBackward? a f) := by
  refine ⟨?_, Scan.ends_search (w := f.ahead) rfl c a, ?_, Scan.ends_search (w := f.behind) rfl c a⟩
  · refine (c.search_eq_firstReturn f.ahead a).trans ?_
    congr 1
    exact funext (c.along_ahead f a)
  · refine (c.search_eq_firstReturn f.behind a).trans ?_
    congr 1
    funext k
    rw [along_eq_emod]
    show (((a : Int) + k * -1) % c.size).toNat = (((a : Int) + -k) % c.size).toNat
    rw [Int.mul_neg_one]

/-- A closing bracket alone on its core is found from its own cell, a lap away. -/
example : (⟨#[12], by decide⟩ : Core).matchForward? 5 .cell = some 0 := by decide

end Core

end NibbleArena
