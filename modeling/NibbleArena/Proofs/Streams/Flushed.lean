import NibbleArena.Host.Streams
import NibbleArena.Proofs.Run.Calls

/-! # Flushes — all output can be seen whenever the input is asked

    Whoever answers a program must have seen what it has put out.  Whether that is so
    behind some calls is a flag, `shown`: a flush that succeeds sets it, a write or a
    flush that fails takes it away, and a read leaves it as it is.  A log is `Orderly`
    if the flag is set at each of its reads.

    An input makes a flush of its own before it reads, also when it is tried again.  So
    the calls of one input are orderly whatever calls were made before, and orderly logs
    add up: `Adds` holds for each answer of the streams, hence for each step, hence for
    any number of steps, failed ones included.

    `Flushed` says the same of a log without the flag. -/

namespace NibbleArena

/-- Whether a call is a write, successful or not. -/
def StreamCall.isWrite : StreamCall → Bool
  | .write _ _ => true
  | _ => false

namespace Streams

/-- A log, in the order of the calls, whose reads come when all output can be seen. -/
structure Flushed (log : List StreamCall) : Prop where
  /-- Before a read there is a flush that succeeded, and no write since. -/
  visible : ∀ before event later, log = before ++ .read event :: later →
    ∃ older since, before = older ++ .flush .done :: since
      ∧ ∀ call ∈ since, call.isWrite = false
  /-- If a flush before a read has failed, a later one has succeeded. -/
  redone : ∀ before event later, log = before ++ .read event :: later →
    ∀ older e since, before = older ++ .flush (.failure e) :: since → .flush .done ∈ since

/-! ## Logs, the latest call first -/

/-- Whether all output can be seen behind the calls of a log. -/
def shown : List StreamCall → Bool
  | [] => false
  | .read _ :: log => shown log
  | .write _ _ :: _ => false
  | .flush .done :: _ => true
  | .flush (.failure _) :: _ => false

/-- Whenever the input is read, all output can be seen. -/
inductive Orderly : List StreamCall → Prop
  | nil : Orderly []
  | write {log : List StreamCall} (b : UInt8) (event : WriteEvent) (h : Orderly log) :
      Orderly (.write b event :: log)
  | flush {log : List StreamCall} (event : FlushEvent) (h : Orderly log) :
      Orderly (.flush event :: log)
  | read {log : List StreamCall} (event : ReadEvent) (h : Orderly log)
      (hshown : shown log = true) : Orderly (.read event :: log)

variable {log later older since : List StreamCall}

/-- What can be seen behind some calls can be seen whatever was called before them. -/
theorem shown_append (h : shown log = true) (older : List StreamCall) :
    shown (log ++ older) = true := by
  induction log with
  | nil => exact nomatch h
  | cons call rest ih =>
      cases call with
      | read event => exact ih h
      | write b event => exact nomatch h
      | flush event =>
          cases event with
          | done => rfl
          | failure e => exact nomatch h

/-- Orderly logs add up. -/
theorem Orderly.append (h : Orderly later) (hbefore : Orderly older) :
    Orderly (later ++ older) := by
  induction h with
  | nil => exact hbefore
  | write b event _ ih => exact .write b event ih
  | flush event _ ih => exact .flush event ih
  | read event _ hshown ih => exact .read event ih (shown_append hshown older)

theorem Orderly.of_append (h : Orderly (later ++ older)) : Orderly older := by
  induction later with
  | nil => exact h
  | cons call rest ih =>
      cases h with
      | write _ _ h => exact ih h
      | flush _ h => exact ih h
      | read _ h _ => exact ih h

theorem exists_flush_of_shown (h : shown log = true) :
    ∃ since older, log = since ++ .flush .done :: older
      ∧ ∀ call ∈ since, call.isWrite = false := by
  induction log with
  | nil => exact nomatch h
  | cons call rest ih =>
      cases call with
      | read event =>
          obtain ⟨since, older, rfl, hnone⟩ := ih h
          refine ⟨.read event :: since, older, rfl, ?_⟩
          exact List.forall_mem_cons.2 ⟨rfl, hnone⟩
      | write b event => exact nomatch h
      | flush event =>
          cases event with
          | done => exact ⟨[], rest, rfl, nofun⟩
          | failure e => exact nomatch h

theorem flush_mem_of_shown {e : SystemError}
    (h : shown (since ++ .flush (.failure e) :: older) = true) : .flush .done ∈ since := by
  induction since with
  | nil => exact nomatch h
  | cons call rest ih =>
      cases call with
      | read event => exact List.mem_cons_of_mem _ (ih h)
      | write b event => exact nomatch h
      | flush event =>
          cases event with
          | done => exact List.mem_cons_self
          | failure e => exact nomatch h

/-- An orderly log, read from its first call on. -/
theorem Orderly.flushed (h : Orderly log) : Flushed log.reverse := by
  have hread : ∀ before event later, log.reverse = before ++ .read event :: later →
      shown before.reverse = true := by
    intro before event later hlog
    have hsplit : log = later.reverse ++ .read event :: before.reverse := by
      rw [← log.reverse_reverse, hlog, List.reverse_append, List.reverse_cons,
        List.append_assoc]
      rfl
    rw [hsplit] at h
    cases h.of_append with
    | read _ _ hshown => exact hshown
  constructor
  · intro before event later hlog
    obtain ⟨since, older, hbefore, hnone⟩ := exists_flush_of_shown (hread _ _ _ hlog)
    refine ⟨older.reverse, since.reverse, ?_, ?_⟩
    · rw [← before.reverse_reverse, hbefore, List.reverse_append, List.reverse_cons,
        List.append_assoc]
      rfl
    · intro call hcall
      exact hnone call (List.mem_reverse.1 hcall)
  · rintro before event later hlog older e since rfl
    have hshown := hread _ _ _ hlog
    rw [List.reverse_append, List.reverse_cons, List.append_assoc] at hshown
    exact List.mem_reverse.1 (flush_mem_of_shown hshown)

/-! ## What the streams add to their journal -/

/-- The streams `s'` have come from `s` by calls whose log is orderly. -/
def Adds (s s' : Streams) : Prop := ∃ log, s'.journal = log ++ s.journal ∧ Orderly log

/-- The same, and behind these calls all output can be seen. -/
def AddsShown (s s' : Streams) : Prop :=
  ∃ log, s'.journal = log ++ s.journal ∧ Orderly log ∧ shown log = true

variable {s s' s'' : Streams}

theorem Adds.of_journal_eq (h : s'.journal = s.journal) : Adds s s' := ⟨[], h, .nil⟩

theorem Adds.trans (h : Adds s s') (h' : Adds s' s'') : Adds s s'' := by
  obtain ⟨log, hlog, horderly⟩ := h
  obtain ⟨later, hlater, horderly'⟩ := h'
  refine ⟨later ++ log, ?_, horderly'.append horderly⟩
  rw [hlater, hlog, List.append_assoc]

theorem AddsShown.adds (h : AddsShown s s') : Adds s s' := by
  obtain ⟨log, hlog, horderly, -⟩ := h
  exact ⟨log, hlog, horderly⟩

theorem AddsShown.read (h : AddsShown s s') (event : ReadEvent)
    (hentered : s''.journal = .read event :: s'.journal) : AddsShown s s'' := by
  obtain ⟨log, hlog, horderly, hshown⟩ := h
  have hjournal : s''.journal = .read event :: log ++ s.journal :=
    hentered.trans (congrArg (.read event :: ·) hlog)
  exact ⟨.read event :: log, hjournal, .read event horderly hshown, hshown⟩

theorem writeAll_adds (b : UInt8) (s : Streams) (events : List WriteEvent) :
    Adds s (writeAll b s events).2 := by
  induction events generalizing s with
  | nil => exact ⟨[.write b .done], rfl, .write b .done .nil⟩
  | cons event rest ih =>
      have hone : Adds s (({ s with writes := rest } : Streams).enter (.write b event)) :=
        ⟨[.write b event], rfl, .write b event .nil⟩
      cases event with
      | done => exact hone
      | nothing => exact hone
      | failure e =>
          by_cases hkind : e.kind = .interrupted
          · simp only [writeAll, if_pos hkind]
            exact hone.trans (ih _)
          · simp only [writeAll, if_neg hkind]
            exact hone

/-- Reads may follow each other without another flush. -/
theorem AddsShown.readAgain (h : AddsShown s s') (events : List ReadEvent) :
    AddsShown s (readAgain s' events).2 := by
  induction events generalizing s' with
  | nil => exact h.read .ending rfl
  | cons event rest ih =>
      have hone : AddsShown s (({ s' with reads := rest } : Streams).enter (.read event)) :=
        h.read event rfl
      cases event with
      | byte b => exact hone
      | ending => exact hone
      | failure e =>
          by_cases hkind : e.kind = .interrupted
          · simp only [Streams.readAgain, if_pos hkind]
            exact ih hone
          · simp only [Streams.readAgain, if_neg hkind]
            exact hone

/-- Behind a flush that succeeds all output can be seen. -/
theorem flush_adds (s : Streams) :
    Adds s s.flush.2 ∧ (s.flush.1 = .ok () → AddsShown s s.flush.2) := by
  have hdone : ∀ s', s'.journal = .flush .done :: s.journal → AddsShown s s' :=
    fun s' h => ⟨[.flush .done], h, .flush .done .nil, rfl⟩
  cases hflushes : s.flushes with
  | nil =>
      simp only [flush, flushOnce, hflushes]
      exact ⟨(hdone _ rfl).adds, fun _ => hdone _ rfl⟩
  | cons event rest =>
      cases event with
      | done =>
          simp only [flush, flushOnce, hflushes]
          exact ⟨(hdone _ rfl).adds, fun _ => hdone _ rfl⟩
      | failure e =>
          simp only [flush, flushOnce, hflushes]
          exact ⟨⟨[.flush (.failure e)], rfl, .flush _ .nil⟩, nofun⟩

theorem output_adds (b : UInt8) (s : Streams) : Adds s (s.output b).2 := by
  have hwrite := writeAll_adds b s s.writes
  rcases hres : writeAll b s s.writes with ⟨e | _, s'⟩
  · rw [hres] at hwrite
    simp only [output, hres]
    exact hwrite
  · rw [hres] at hwrite
    simp only [output, hres]
    exact hwrite

/-- An input does not read unless its flush has succeeded. -/
theorem input_adds (s : Streams) : Adds s s.input.2 := by
  obtain ⟨hflush, hok⟩ := s.flush_adds
  rcases hres : s.flush with ⟨f | _, s'⟩
  · rw [hres] at hflush
    simp only [input, hres]
    exact hflush
  · rw [hres] at hok
    have hread := (hok rfl).readAgain s'.reads
    rcases hres' : readAgain s' s'.reads with ⟨e | b, s''⟩
    · rw [hres'] at hread
      simp only [input, hres, hres']
      exact hread.adds
    · rw [hres'] at hread
      simp only [input, hres, hres']
      exact hread.adds

end Streams

/-! ## Steps and runs -/

open Streams

/-- A step adds an orderly log, whatever comes of it. -/
theorem Machine.step_adds (m : Machine Streams) : Adds m.host m.step.2.host := by
  have hasked := m.step_asked
  generalize m.step.2.host = host at hasked
  cases hasked with
  | nothing => exact .of_journal_eq rfl
  | output b => exact m.host.output_adds b
  | input => exact m.host.input_adds
  | swap b => exact .of_journal_eq rfl

theorem Machine.after_adds (m : Machine Streams) (n : Nat) : Adds m.host (m.after n).host := by
  induction n with
  | zero => exact .of_journal_eq rfl
  | succ n ih => exact ih.trans (m.after n).step_adds

theorem Run.step_adds (r : Run Streams) : Adds r.machine.host r.step.2.machine.host := by
  obtain ⟨settings, machine, cycles, status⟩ := r
  cases status with
  | halted reason => exact .of_journal_eq rfl
  | running =>
      have hstep := machine.step_adds
      rcases hres : machine.step with ⟨f | status, machine'⟩
      · rw [hres] at hstep
        simp only [Run.step, hres]
        exact hstep
      · rw [hres] at hstep
        simp only [Run.step, hres]
        exact hstep

theorem Run.after_adds (r : Run Streams) (calls : List Run.Call) :
    Adds r.machine.host (r.after calls).machine.host :=
  after_induction (P := fun r' : Run Streams => Adds r.machine.host r'.machine.host)
    (fun r' h => h.trans r'.step_adds) calls (.of_journal_eq rfl)

/-- **Output is visible before every read.**  Take any machine over streams, with any
    core and pointers and any results of the calls to come, and call `step` on it any
    number of times, also after failures; or take any run over streams and ask it for
    steps and for all that is left, in any order.  In the log of the calls made on the
    streams meanwhile each read comes behind a flush that succeeded, with no write in
    between, and it does not come behind a flush that failed unless a later one has
    succeeded. -/
theorem Streams.reads_flushed :
    (∀ (m : Machine Streams) (n : Nat), ∃ log,
        (m.after n).host.journal = log.reverse ++ m.host.journal ∧ Flushed log)
      ∧ ∀ (r : Run Streams) (calls : List Run.Call), ∃ log,
          (r.after calls).machine.host.journal = log.reverse ++ r.machine.host.journal
            ∧ Flushed log := by
  have hlog : ∀ {s s' : Streams}, Adds s s' →
      ∃ log, s'.journal = log.reverse ++ s.journal ∧ Flushed log := by
    rintro s s' ⟨log, hjournal, horderly⟩
    refine ⟨log.reverse, ?_, horderly.flushed⟩
    rw [List.reverse_reverse]
    exact hjournal
  exact ⟨fun m n => hlog (m.after_adds n), fun r calls => hlog (r.after_adds calls)⟩

/-- A read that fails behind a flush is made again behind another flush; an interrupted
    one is made again at once. -/
example :
    let m : Machine Streams := ⟨⟨#[10, 0, 0, 0], by decide⟩, ⟨3, 0⟩,
      Streams.ofEvents [.failure ⟨.interrupted, ""⟩, .failure ⟨.timedOut, ""⟩, .byte 65] []
        [.failure ⟨.brokenPipe, ""⟩]⟩
    (m.after 3).host.journal.reverse
      = [.flush (.failure ⟨.brokenPipe, ""⟩),
          .flush .done, .read (.failure ⟨.interrupted, ""⟩), .read (.failure ⟨.timedOut, ""⟩),
          .flush .done, .read (.byte 65)] := by decide

end NibbleArena
