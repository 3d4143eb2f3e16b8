import NibbleArena.Host.Streams

/-! # Clean streams — what streams do when nothing fails

    Of a script only the events that succeed leave a trace in a program: the
    characters that reads bring, and that a write puts out its byte.  The clean
    streams keep just that: the characters to come, the buffer and the bytes
    written.  They are a host that never fails.

    `Answers` is the law of a call on the streams: it either succeeds as it does
    on the clean streams, or it fails, leaves the clean streams as they were and
    uses up an event that fails.  It is proved for a write, a read and a flush by
    induction on the events, an interrupted event being one step more. -/

namespace NibbleArena

/-- The character that a read brings, unless it fails. -/
def ReadEvent.value? : ReadEvent → Option UInt8
  | .byte b => some b
  | .ending => some 0
  | .failure _ => none

def ReadEvent.fails (e : ReadEvent) : Bool := e.value?.isNone

/-- A write of nothing counts as a failure. -/
def WriteEvent.fails : WriteEvent → Bool
  | .done => false
  | .nothing | .failure _ => true

def FlushEvent.fails : FlushEvent → Bool
  | .done => false
  | .failure _ => true

/-- Streams that do not fail. -/
structure CleanStreams where
  /-- The characters that the coming reads bring; zeros behind them. -/
  coming : List UInt8
  buffer : UInt8
  written : List UInt8
  deriving DecidableEq

namespace CleanStreams

/-- Writes a byte. -/
def put (b : UInt8) (c : CleanStreams) : CleanStreams := { c with written := c.written ++ [b] }

/-- The next character. -/
def next (c : CleanStreams) : UInt8 := c.coming.headD 0

/-- Reads the next character. -/
def advance (c : CleanStreams) : CleanStreams := { c with coming := c.coming.tail }

end CleanStreams

instance : Host CleanStreams where
  output b c := (.ok (), c.put b)
  input c := (.ok (some c.next), c.advance)
  swap b c := (some c.buffer, { c with buffer := b })

namespace Streams

/-- The streams without their failures. -/
def clean (s : Streams) : CleanStreams := ⟨s.reads.filterMap ReadEvent.value?, s.buffer, s.written⟩

/-- The number of events to come that fail. -/
def failing (s : Streams) : Nat :=
  s.reads.countP ReadEvent.fails + s.writes.countP WriteEvent.fails
    + s.flushes.countP FlushEvent.fails

/-- The streams with every event removed that fails. -/
def reliable (s : Streams) : Streams :=
  { s with
    reads := s.reads.filter (!·.fails)
    writes := s.writes.filter (!·.fails)
    flushes := s.flushes.filter (!·.fails) }

/-- What is written when a call is entered. -/
theorem written_enter (s : Streams) (c : StreamCall) :
    (s.enter c).written = s.written ++ c.written?.toList := by
  show ((c :: s.journal).filterMap StreamCall.written?).reverse = _
  cases hc : c.written? with
  | none =>
      rw [List.filterMap_cons_none hc]
      exact (List.append_nil _).symm
  | some b =>
      rw [List.filterMap_cons_some hc, List.reverse_cons]
      rfl

/-- Removing the failures leaves the same clean streams. -/
theorem clean_reliable (s : Streams) : s.reliable.clean = s.clean := by
  have hreads : (s.reads.filter (!·.fails)).filterMap ReadEvent.value?
      = s.reads.filterMap ReadEvent.value? := by
    induction s.reads with
    | nil => rfl
    | cons e rest ih =>
        cases e with
        | failure _ => exact ih
        | byte b => exact congrArg (b :: ·) ih
        | ending => exact congrArg (0 :: ·) ih
  exact congrArg (CleanStreams.mk · s.buffer s.written) hreads

/-- No event of reliable streams fails. -/
theorem failing_reliable (s : Streams) : s.reliable.failing = 0 := by
  have hnone : ∀ {ε : Type} (p : ε → Bool) (l : List ε), (l.filter (!p ·)).countP p = 0 := by
    intro ε p l
    rw [List.countP_eq_zero]
    intro e he hp
    have hkept := (List.mem_filter.1 he).2
    rw [hp] at hkept
    exact nomatch hkept
  show (s.reads.filter (!·.fails)).countP ReadEvent.fails
    + (s.writes.filter (!·.fails)).countP WriteEvent.fails
    + (s.flushes.filter (!·.fails)).countP FlushEvent.fails = 0
  rw [hnone, hnone, hnone]

/-! ## The law of a call -/

/-- An answer given by the streams `s` where the clean streams answer `v` and
    become `c`. -/
inductive Answers {ε α : Type} (s : Streams) (v : α) (c : CleanStreams) :
    Except ε α × Streams → Prop
  | ok {s' : Streams} (hclean : s'.clean = c) (hfailing : s'.failing ≤ s.failing) :
      Answers s v c (.ok v, s')
  | error {e : ε} {s' : Streams} (hclean : s'.clean = s.clean)
      (hfailing : s'.failing < s.failing) : Answers s v c (.error e, s')

/-- A call may be put off by events that leave the clean streams alone. -/
theorem Answers.of_clean_eq {ε α : Type} {s s' : Streams} {v : α} {c : CleanStreams}
    {r : Except ε α × Streams} (h : Answers s' v c r) (hclean : s'.clean = s.clean)
    (hfailing : s'.failing ≤ s.failing) : Answers s v c r := by
  cases h with
  | ok hc hf => exact .ok hc (Nat.le_trans hf hfailing)
  | error hc hf => exact .error (hc.trans hclean) (Nat.lt_of_lt_of_le hf hfailing)

/-- The clean streams see of a call what it wrote. -/
theorem clean_enter (s : Streams) (c : StreamCall) :
    (s.enter c).clean = { s.clean with written := s.written ++ c.written?.toList } :=
  congrArg (CleanStreams.mk _ _) (written_enter s c)

/-- A call that writes nothing is not seen by the clean streams. -/
theorem clean_enter_of_none {s : Streams} {c : StreamCall} (h : c.written? = none) :
    (s.enter c).clean = s.clean := by
  rw [clean_enter, h, Option.toList_none, List.append_nil]
  rfl

/-! ## Events that are used up -/

theorem failing_enter (s : Streams) (c : StreamCall) : (s.enter c).failing = s.failing := rfl

theorem failing_of_writes {s : Streams} {event : WriteEvent} {rest : List WriteEvent}
    (h : s.writes = event :: rest) :
    s.failing = ({ s with writes := rest } : Streams).failing + if event.fails then 1 else 0 := by
  show s.reads.countP _ + s.writes.countP _ + s.flushes.countP _
    = s.reads.countP _ + rest.countP _ + s.flushes.countP _ + _
  rw [h, List.countP_cons]
  omega

theorem failing_of_reads {s : Streams} {event : ReadEvent} {rest : List ReadEvent}
    (h : s.reads = event :: rest) :
    s.failing = ({ s with reads := rest } : Streams).failing + if event.fails then 1 else 0 := by
  show s.reads.countP _ + s.writes.countP _ + s.flushes.countP _
    = rest.countP _ + s.writes.countP _ + s.flushes.countP _ + _
  rw [h, List.countP_cons]
  omega

theorem failing_of_flushes {s : Streams} {event : FlushEvent} {rest : List FlushEvent}
    (h : s.flushes = event :: rest) :
    s.failing = ({ s with flushes := rest } : Streams).failing + if event.fails then 1 else 0 := by
  show s.reads.countP _ + s.writes.countP _ + s.flushes.countP _
    = s.reads.countP _ + s.writes.countP _ + rest.countP _ + _
  rw [h, List.countP_cons]
  omega

/-! ## Writing, reading and flushing -/

theorem writeAll_answers (b : UInt8) (s : Streams) (events : List WriteEvent)
    (h : s.writes = events) : Answers s () (s.clean.put b) (writeAll b s events) := by
  induction events generalizing s with
  | nil =>
      have hsame : ({ s with writes := [] } : Streams) = s := by rw [← h]
      rw [writeAll, hsame]
      exact .ok (clean_enter _ _) (Nat.le_refl _)
  | cons event rest ih =>
      have hcount := failing_of_writes h
      cases event with
      | done =>
          refine .ok (clean_enter _ _) ?_
          rw [failing_enter, hcount]
          exact Nat.le_add_right _ _
      | nothing =>
          refine .error (clean_enter_of_none rfl) ?_
          rw [failing_enter, hcount]
          exact Nat.lt_succ_self _
      | failure e =>
          have hclean : (({ s with writes := rest } : Streams).enter
              (.write b (.failure e))).clean = s.clean := clean_enter_of_none rfl
          have hless : (({ s with writes := rest } : Streams).enter
              (.write b (.failure e))).failing < s.failing := by
            rw [failing_enter, hcount]
            exact Nat.lt_succ_self _
          by_cases hkind : e.kind = .interrupted
          · have hrec := ih (({ s with writes := rest } : Streams).enter
              (.write b (.failure e))) rfl
            rw [hclean] at hrec
            simp only [writeAll, if_pos hkind]
            exact hrec.of_clean_eq hclean (Nat.le_of_lt hless)
          · simp only [writeAll, if_neg hkind]
            exact .error hclean hless

theorem readAgain_answers (s : Streams) (events : List ReadEvent) (h : s.reads = events) :
    Answers s s.clean.next s.clean.advance (readAgain s events) := by
  induction events generalizing s with
  | nil =>
      have hcoming : s.clean.coming = [] := congrArg (List.filterMap ReadEvent.value?) h
      have hnext : s.clean.next = 0 := congrArg (List.headD · 0) hcoming
      have hadvance : s.clean = s.clean.advance :=
        congrArg (CleanStreams.mk · s.buffer s.written)
          (hcoming.trans (congrArg List.tail hcoming).symm)
      have hsame : ({ s with reads := [] } : Streams) = s := by rw [← h]
      rw [readAgain, hsame, hnext, ← hadvance]
      exact .ok (clean_enter_of_none rfl) (Nat.le_refl _)
  | cons event rest ih =>
      have hcount := failing_of_reads h
      have hcoming : s.clean.coming = (event :: rest).filterMap ReadEvent.value? :=
        congrArg (List.filterMap ReadEvent.value?) h
      -- an event that brings a character
      have hok : ∀ v, event.value? = some v →
          Answers s s.clean.next s.clean.advance
            ((.ok v : Except SystemError UInt8),
              ({ s with reads := rest } : Streams).enter (.read event)) := by
        intro v hv
        rw [List.filterMap_cons_some hv] at hcoming
        have hnext : s.clean.next = v := congrArg (List.headD · 0) hcoming
        rw [hnext]
        refine .ok ((clean_enter_of_none rfl).trans ?_) ?_
        · exact congrArg (CleanStreams.mk · s.buffer s.written) (congrArg List.tail hcoming).symm
        · rw [failing_enter, hcount]
          exact Nat.le_add_right _ _
      cases event with
      | byte b => exact hok b rfl
      | ending => exact hok 0 rfl
      | failure e =>
          have hclean : (({ s with reads := rest } : Streams).enter
              (.read (.failure e))).clean = s.clean :=
            (clean_enter_of_none rfl).trans
              (congrArg (CleanStreams.mk · s.buffer s.written) hcoming.symm)
          have hless : (({ s with reads := rest } : Streams).enter
              (.read (.failure e))).failing < s.failing := by
            rw [failing_enter, hcount]
            exact Nat.lt_succ_self _
          by_cases hkind : e.kind = .interrupted
          · have hrec := ih (({ s with reads := rest } : Streams).enter
              (.read (.failure e))) rfl
            rw [hclean] at hrec
            simp only [readAgain, if_pos hkind]
            exact hrec.of_clean_eq hclean (Nat.le_of_lt hless)
          · simp only [readAgain, if_neg hkind]
            exact .error hclean hless

/-- A flush is not seen by the clean streams; an interrupted one is not tried
    again. -/
theorem flush_answers (s : Streams) : Answers s () s.clean s.flush := by
  cases h : s.flushes with
  | nil =>
      simp only [flush, flushOnce, h]
      exact .ok (clean_enter_of_none rfl) (Nat.le_refl _)
  | cons event rest =>
      have hcount := failing_of_flushes h
      cases event with
      | done =>
          simp only [flush, flushOnce, h]
          refine .ok (clean_enter_of_none rfl) ?_
          rw [failing_enter, hcount]
          exact Nat.le_add_right _ _
      | failure e =>
          simp only [flush, flushOnce, h]
          refine .error (clean_enter_of_none rfl) ?_
          rw [failing_enter, hcount]
          exact Nat.lt_succ_self _

/-! ## The host -/

theorem output_answers (b : UInt8) (s : Streams) :
    Answers s () (s.clean.put b) (s.output b) := by
  have hwrite := writeAll_answers b s s.writes rfl
  rcases hres : writeAll b s s.writes with ⟨e | _, s'⟩
  · rw [hres] at hwrite
    simp only [output, hres]
    cases hwrite with
    | error hclean hless => exact .error hclean hless
  · rw [hres] at hwrite
    simp only [output, hres]
    cases hwrite with
    | ok hclean hle => exact .ok hclean hle

/-- A read that fails comes behind a flush that did not, and the flush is made
    again with the next try. -/
theorem input_answers (s : Streams) :
    Answers s (some s.clean.next) s.clean.advance s.input := by
  have hflush := s.flush_answers
  rcases hres : s.flush with ⟨f | _, s'⟩
  · rw [hres] at hflush
    simp only [input, hres]
    cases hflush with
    | error hclean hless => exact .error hclean hless
  · rw [hres] at hflush
    cases hflush with
    | ok hclean hle =>
        have hread := s'.readAgain_answers s'.reads rfl
        rw [hclean] at hread
        have hback := hread.of_clean_eq hclean hle
        rcases hres' : readAgain s' s'.reads with ⟨e | c, s''⟩
        · rw [hres'] at hback
          simp only [input, hres, hres']
          cases hback with
          | error hclean hless => exact .error hclean hless
        · rw [hres'] at hback
          simp only [input, hres, hres']
          cases hback with
          | ok hclean hle => exact .ok hclean hle

end Streams

end NibbleArena
