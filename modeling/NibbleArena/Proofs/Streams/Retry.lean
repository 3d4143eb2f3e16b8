import NibbleArena.Proofs.Machine.Step
import NibbleArena.Proofs.Streams.Clean

/-! # Retries — calling a failed step again loses nothing

    A step over streams that may fail either does what it does over the clean
    streams, or it fails, moves nothing and uses up a failing event
    (`step_clean`).  Calling `step` again and again is then a simulation that
    stutters at each failure: the calls that succeed are the steps over the clean
    streams, and the failing events bound the calls that do not.

    Streams without failing events have the same clean streams, so retrying goes
    through the same as they do. -/

namespace NibbleArena

/-- What can be seen of a machine over streams. -/
structure View where
  core : Core
  regs : Registers
  buffer : UInt8
  /-- The bytes put out so far. -/
  written : List UInt8
  deriving DecidableEq

namespace Machine

def view (m : Machine Streams) : View := ⟨m.core, m.regs, m.host.buffer, m.host.written⟩

def cleanView (m : Machine CleanStreams) : View := ⟨m.core, m.regs, m.host.buffer, m.host.written⟩

/-- The machine over the streams without their failures. -/
def clean (m : Machine Streams) : Machine CleanStreams := m.withHost m.host.clean

/-- The machine over the streams with every event removed that fails. -/
def reliable (m : Machine Streams) : Machine Streams := m.withHost m.host.reliable

variable {σ : Type}

/-- The calls that succeeded, by their status and what can be seen after them. -/
def successes (look : Machine σ → View) (calls : List (Except Fault Status × Machine σ)) :
    List (Status × View) :=
  calls.filterMap fun
    | (.ok status, m) => some (status, look m)
    | (.error _, _) => none

/-- The number of calls that failed. -/
def failures (calls : List (Except Fault Status × Machine σ)) : Nat :=
  calls.countP fun call => !call.1.isOk

/-- A failed call counts as such. -/
theorem failures_cons_error (f : Fault) (m : Machine σ)
    (calls : List (Except Fault Status × Machine σ)) :
    failures ((.error f, m) :: calls) = failures calls + 1 :=
  List.countP_cons_of_pos rfl

/-- How a step over streams and a step over the clean streams go together. -/
inductive Follows (m : Machine Streams) : Except Fault Status × Machine Streams → Prop
  | ok {status : Status} {m' : Machine Streams} (hclean : m.clean.step = (.ok status, m'.clean))
      (hfailing : m'.host.failing ≤ m.host.failing) : Follows m (.ok status, m')
  | error {f : Fault} {m' : Machine Streams} (hclean : m'.clean = m.clean)
      (hfailing : m'.host.failing < m.host.failing) : Follows m (.error f, m')

/-- An instruction that goes on in the same way over both. -/
theorem follows_goOn {m : Machine Streams} {core : Core} {cell exec : Nat} {s : Streams}
    {c : CleanStreams} (hstep : m.clean.step = goOn core cell exec c) (hclean : s.clean = c)
    (hfailing : s.failing ≤ m.host.failing) : Follows m (goOn core cell exec s) := by
  subst hclean
  exact .ok hstep hfailing

theorem follows_store {m : Machine Streams} {core : Core} {cell exec : Nat} {s : Streams}
    {c : CleanStreams} {b : Option UInt8} (hstep : m.clean.step = store core cell exec c b)
    (hclean : s.clean = c) (hfailing : s.failing ≤ m.host.failing) :
    Follows m (store core cell exec s b) := by
  cases b with
  | none => exact follows_goOn hstep hclean hfailing
  | some b => exact follows_goOn hstep hclean hfailing

/-- A step over streams does what it does over the clean streams, or it fails and
    moves nothing. -/
theorem step_clean (m : Machine Streams) : Follows m m.step := by
  obtain ⟨core, ⟨cell, exec⟩, s⟩ := m
  cases hcall : (core.opcode exec).isHostOnly with
  | false =>
      obtain ⟨status, hstatus⟩ := step_sealed_ok core ⟨cell, exec⟩
      rw [step_local hcall s, hstatus]
      refine .ok ?_ (Nat.le_refl _)
      exact (step_local hcall s.clean).trans (by rw [hstatus]; rfl)
  | true =>
      cases hop : core.opcode exec with
      | output =>
          have hanswer := s.output_answers (core.readCharacter cell)
          have hclean : step ⟨core, ⟨cell, exec⟩, s.clean⟩
              = goOn core cell exec (s.clean.put (core.readCharacter cell)) :=
            step_output_ok hop rfl
          rcases hres : s.output (core.readCharacter cell) with ⟨f | _, s'⟩
          · rw [step_output_error hop hres]
            rw [hres] at hanswer
            cases hanswer with
            | error hsame hless =>
                exact .error (congrArg (Machine.mk core ⟨cell, exec⟩) hsame) hless
          · rw [step_output_ok hop hres]
            rw [hres] at hanswer
            cases hanswer with
            | ok hsame hle => exact follows_goOn hclean hsame hle
      | input =>
          have hanswer := s.input_answers
          have hclean : step ⟨core, ⟨cell, exec⟩, s.clean⟩
              = store core cell exec s.clean.advance (some s.clean.next) :=
            step_input_ok hop rfl
          rcases hres : s.input with ⟨f | b, s'⟩
          · rw [step_input_error hop hres]
            rw [hres] at hanswer
            cases hanswer with
            | error hsame hless =>
                exact .error (congrArg (Machine.mk core ⟨cell, exec⟩) hsame) hless
          · rw [step_input_ok hop hres]
            rw [hres] at hanswer
            cases hanswer with
            | ok hsame hle => exact follows_store hclean hsame hle
      | swap =>
          have hswap : ∀ {ρ : Type} [Host ρ] (host : ρ), step ⟨core, ⟨cell, exec⟩, host⟩
              = store core cell exec (Host.swap (core.readCharacter cell) host).2
                (Host.swap (core.readCharacter cell) host).1 :=
            fun _ => step_swap hop rfl
          rw [hswap s]
          exact follows_store (hswap s.clean) rfl (Nat.le_refl _)
      | _ => rw [hop] at hcall; exact nomatch hcall

/-- A step that fails can not be seen. -/
theorem view_step_of_error {m : Machine Streams} {f : Fault} (h : m.step.1 = .error f) :
    m.step.2.view = m.view := by
  have hfollows := m.step_clean
  rcases hres : m.step with ⟨f' | status, m'⟩
  · rw [hres] at hfollows
    cases hfollows with
    | error hsame _ => exact congrArg cleanView hsame
  · rw [hres] at h
    exact nomatch h

/-- After any number of calls, those that succeeded are the first steps over the
    clean streams, and each of the others has used up a failing event. -/
theorem successes_calls (n : Nat) (m : Machine Streams) :
    ∃ k, k + failures (calls n m) = n
      ∧ successes view (calls n m) = successes cleanView (calls k m.clean)
      ∧ failures (calls n m) ≤ m.host.failing := by
  induction n generalizing m with
  | zero => exact ⟨0, rfl, rfl, Nat.zero_le _⟩
  | succ n ih =>
      have hfollows := m.step_clean
      rcases hres : m.step with ⟨r, m'⟩
      rw [hres] at hfollows
      rw [calls_succ hres]
      obtain ⟨k, hn, hsame, hcount⟩ := ih m'
      cases hfollows with
      | @ok status _ hclean hle =>
          refine ⟨k + 1, ?_, ?_, Nat.le_trans hcount hle⟩
          · show k + 1 + failures (calls n m') = n + 1
            omega
          · rw [calls_succ hclean]
            exact congrArg ((status, m'.view) :: ·) hsame
      | error hclean hless =>
          refine ⟨k, ?_, ?_, ?_⟩
          · rw [failures_cons_error]
            omega
          · rw [← hclean]
            exact hsame
          · rw [failures_cons_error]
            omega

/-- Every number of successes is reached.  The induction is on a bound for the
    successes asked for and the failing events together, since a success takes
    one off the first and a failure one off the second. -/
theorem exists_successes (bound k : Nat) (m : Machine Streams)
    (hbound : k + m.host.failing ≤ bound) :
    ∃ n, k + failures (calls n m) = n
      ∧ successes view (calls n m) = successes cleanView (calls k m.clean) := by
  induction bound generalizing k m with
  | zero =>
      have hk : k = 0 := by omega
      subst hk
      exact ⟨0, rfl, rfl⟩
  | succ bound ih =>
      cases k with
      | zero => exact ⟨0, rfl, rfl⟩
      | succ k =>
          have hfollows := m.step_clean
          rcases hres : m.step with ⟨r, m'⟩
          rw [hres] at hfollows
          cases hfollows with
          | @ok status _ hclean hle =>
              obtain ⟨n, hn, hsame⟩ := ih k m' (by omega)
              refine ⟨n + 1, ?_, ?_⟩
              · rw [calls_succ hres]
                show k + 1 + failures (calls n m') = n + 1
                omega
              · rw [calls_succ hres, calls_succ hclean]
                exact congrArg ((status, m'.view) :: ·) hsame
          | error hclean hless =>
              obtain ⟨n, hn, hsame⟩ := ih (k + 1) m' (by omega)
              refine ⟨n + 1, ?_, ?_⟩
              · rw [calls_succ hres, failures_cons_error]
                show k + 1 + (failures (calls n m') + 1) = n + 1
                omega
              · rw [calls_succ hres, ← hclean]
                exact hsame

/-- Over reliable streams every call succeeds, and does what it does over the
    clean streams. -/
theorem successes_reliable (k : Nat) (m : Machine Streams) :
    failures (calls k m.reliable) = 0
      ∧ successes view (calls k m.reliable) = successes cleanView (calls k m.clean) := by
  obtain ⟨j, hj, hsame, hcount⟩ := successes_calls k m.reliable
  have hnone : m.reliable.host.failing = 0 := m.host.failing_reliable
  have hclean : m.reliable.clean = m.clean :=
    congrArg (Machine.mk m.core m.regs) m.host.clean_reliable
  have hfailures : failures (calls k m.reliable) = 0 := by omega
  have hall : j = k := by omega
  rw [hall, hclean] at hsame
  exact ⟨hfailures, hsame⟩

/-- **Retrying is transparent.**  Over streams without failing events no call
    fails.  Over any streams, calling again after each failure goes through the
    same successes as they do over the streams without their failing events:
    after any number of calls those made so far, and in time any number of them.
    A failed call cannot be seen, and there are at most as many as there are
    failing events. -/
theorem retry_transparent (m : Machine Streams) :
    (∀ k, failures (calls k m.reliable) = 0)
      ∧ (∀ n, ∃ k, k + failures (calls n m) = n
          ∧ successes view (calls n m) = successes view (calls k m.reliable))
      ∧ (∀ k, ∃ n, k + failures (calls n m) = n
          ∧ successes view (calls n m) = successes view (calls k m.reliable))
      ∧ (∀ n f, (m.after n).step.1 = .error f → (m.after (n + 1)).view = (m.after n).view)
      ∧ ∀ n, failures (calls n m) ≤ m.host.failing := by
  refine ⟨fun k => (successes_reliable k m).1, ?_, ?_, ?_, ?_⟩
  · intro n
    obtain ⟨k, hn, hsame, -⟩ := successes_calls n m
    exact ⟨k, hn, hsame.trans (successes_reliable k m).2.symm⟩
  · intro k
    obtain ⟨n, hn, hsame⟩ := exists_successes _ k m (Nat.le_refl _)
    exact ⟨n, hn, hsame.trans (successes_reliable k m).2.symm⟩
  · intro n f h
    exact view_step_of_error h
  · intro n
    obtain ⟨k, -, -, hcount⟩ := successes_calls n m
    exact hcount

/-- A program that reads a character and writes it, over streams on which a
    flush, a read and two writes fail. -/
def echo : Machine Streams :=
  ⟨⟨#[10, 9, 0, 0, 0, 0], by decide⟩, ⟨4, 0⟩,
    Streams.ofEvents [.failure ⟨.interrupted, ""⟩, .failure ⟨.timedOut, ""⟩, .byte 65]
      [.nothing, .failure ⟨.brokenPipe, ""⟩] [.failure ⟨.interrupted, ""⟩]⟩

/-- Four of its first six calls fail, the first at the flush; the other two are
    the two steps over streams that do not fail. -/
theorem retry_transparent_echo :
    (echo.after 0).step.1 = .error ((Fault.ofSystem ⟨.interrupted, ""⟩).during "host::flush")
      ∧ (echo.after 1).view = (echo.after 0).view
      ∧ failures (calls 6 echo) = 4
      ∧ successes view (calls 6 echo) = successes view (calls 2 echo.reliable)
      ∧ (echo.after 6).host.written = [65] := by
  have herror : (echo.after 0).step.1
      = .error ((Fault.ofSystem ⟨.interrupted, ""⟩).during "host::flush") := rfl
  have hfailures : failures (calls 6 echo) = 4 := by decide
  obtain ⟨k, hk, hsame⟩ := (retry_transparent echo).2.1 6
  have hk2 : k = 2 := by omega
  rw [hk2] at hsame
  exact ⟨herror, (retry_transparent echo).2.2.2.1 0 _ herror, hfailures, hsame, by decide⟩

end Machine

end NibbleArena
