import Mathlib.Tactic

/-!
# Supervising a child process

Two threads read the pipes of the child, each into its own buffer and up to its own cap,
and go on reading what they discard. The supervisor waits for the child to exit, ends it
if that takes too long, and then collects the two buffers one after the other, waiting a
bounded time for each thread.
-/

namespace GtaClaw.Tools

inductive ExecutionError where
  | waitFailed
  | timedOut
  | cancelled
  deriving DecidableEq

/-- The bytes are turned into text behind this. -/
structure ProcessOutcome where
  exitCode : Option Int
  stdout : List UInt8
  stderr : List UInt8
  truncated : Bool
  deriving DecidableEq

/-- A reader thread and the buffer it shares with the supervisor. -/
structure Reader where
  collected : List UInt8 := []
  truncated : Bool := false
  finished : Bool := false
  deriving DecidableEq

/-- One turn of the loop of a reader. No bytes are the end of the pipe or an error. -/
def Reader.read (cap : Nat) (reader : Reader) (chunk : List UInt8) : Reader :=
  if reader.finished then reader
  else if chunk.isEmpty then { reader with finished := true }
  else if reader.collected.length < cap then
    let take := min (cap - reader.collected.length) chunk.length
    { reader with
      collected := reader.collected ++ chunk.take take
      truncated := reader.truncated || decide (take < chunk.length) }
  else { reader with truncated := true }

/-- How far `supervise` has come; `ended` is the exit code, or why the child was ended. -/
inductive Stage where
  | waiting
  | drainStdout (ended : Except ExecutionError (Option Int))
  | drainStderr (ended : Except ExecutionError (Option Int)) (stdout : Reader)
  | returned (result : Except ExecutionError ProcessOutcome)
  deriving DecidableEq

structure Supervision where
  stdout : Reader := {}
  stderr : Reader := {}
  stage : Stage := .waiting
  deriving DecidableEq

/-- What `try_wait` answers. -/
inductive Wait where
  | exited (code : Option Int)
  | running
  | failed

/-- A reader gets a chunk, or the supervisor wakes up; `late` says that it is past the
deadline it waits for. -/
inductive Act where
  | stdout (chunk : List UInt8)
  | stderr (chunk : List UInt8)
  | poll (wait : Wait) (cancelled late : Bool)
  | drain (late : Bool)

/-- The loop of `supervise` that waits for the child. -/
def Supervision.poll (s : Supervision) (wait : Wait) (cancelled late : Bool) : Supervision :=
  match s.stage, wait with
  | .waiting, .exited code => { s with stage := .drainStdout (.ok code) }
  | .waiting, .failed => { s with stage := .drainStdout (.error .waitFailed) }
  | .waiting, .running =>
    if cancelled then { s with stage := .drainStdout (.error .cancelled) }
    else if late then { s with stage := .drainStdout (.error .timedOut) }
    else s
  | _, _ => s

/-- The loop of `drain`, for one pipe after the other. -/
def Supervision.drain (s : Supervision) (late : Bool) : Supervision :=
  match s.stage with
  | .drainStdout ended =>
    if s.stdout.finished || late then { s with stage := .drainStderr ended s.stdout } else s
  | .drainStderr ended stdout =>
    if s.stderr.finished || late then
      { s with stage := .returned (ended.map fun code =>
        ⟨code, stdout.collected, s.stderr.collected, stdout.truncated || s.stderr.truncated⟩) }
    else s
  | _ => s

def step (cap : Nat) (s : Supervision) : Act → Supervision
  | .stdout chunk => { s with stdout := s.stdout.read cap chunk }
  | .stderr chunk => { s with stderr := s.stderr.read cap chunk }
  | .poll wait cancelled late => s.poll wait cancelled late
  | .drain late => s.drain late

def supervise (maxOutputBytes : Nat) (acts : List Act) : Supervision :=
  acts.foldl (step maxOutputBytes) {}

/-! ## What is captured -/

def Act.stdoutBytes : Act → Nat
  | .stdout chunk => chunk.length
  | _ => 0

def Act.stderrBytes : Act → Nat
  | .stderr chunk => chunk.length
  | _ => 0

/-- The bytes that the child gave to a pipe. -/
def given (bytes : Act → Nat) (acts : List Act) : Nat := (acts.map bytes).sum

theorem given_concat (bytes : Act → Nat) (acts : List Act) (act : Act) :
    given bytes (acts ++ [act]) = given bytes acts + bytes act := by
  simp [given]

theorem Reader.read_length {cap n : Nat} {reader : Reader} (h : reader.collected.length ≤ min n cap)
    (chunk : List UInt8) :
    (reader.read cap chunk).collected.length ≤ min (n + chunk.length) cap := by
  unfold read
  split_ifs
  · omega
  · dsimp only
    omega
  · simp only [List.length_append, List.length_take]
    omega
  · dsimp only
    omega

/-- Neither a buffer nor a copy of it is larger than the cap and what the child gave. -/
structure Supervision.Bounded (s : Supervision) (out err : Nat) : Prop where
  stdout : s.stdout.collected.length ≤ out
  stderr : s.stderr.collected.length ≤ err
  draining : ∀ ended copy, s.stage = .drainStderr ended copy → copy.collected.length ≤ out
  returned : ∀ outcome, s.stage = .returned (.ok outcome) →
    outcome.stdout.length ≤ out ∧ outcome.stderr.length ≤ err

section Bounded

variable {s : Supervision} {out out' err err' : Nat}

theorem Supervision.Bounded.mono (h : s.Bounded out err) (hout : out ≤ out') (herr : err ≤ err') :
    s.Bounded out' err' where
  stdout := h.stdout.trans hout
  stderr := h.stderr.trans herr
  draining ended copy hstage := (h.draining ended copy hstage).trans hout
  returned outcome hstage := (h.returned outcome hstage).imp (·.trans hout) (·.trans herr)

theorem Supervision.Bounded.poll (h : s.Bounded out err) (wait : Wait) (cancelled late : Bool) :
    (s.poll wait cancelled late).Bounded out err := by
  unfold Supervision.poll
  split
  · exact ⟨h.stdout, h.stderr, nofun, nofun⟩
  · exact ⟨h.stdout, h.stderr, nofun, nofun⟩
  · split_ifs
    · exact ⟨h.stdout, h.stderr, nofun, nofun⟩
    · exact ⟨h.stdout, h.stderr, nofun, nofun⟩
    · exact h
  · exact h

theorem Supervision.Bounded.drain (h : s.Bounded out err) (late : Bool) :
    (s.drain late).Bounded out err := by
  unfold Supervision.drain
  split
  · split_ifs
    · refine ⟨h.stdout, h.stderr, fun _ _ hstage => ?_, nofun⟩
      cases hstage
      exact h.stdout
    · exact h
  · rename_i ended copy hstage
    split_ifs
    · refine ⟨h.stdout, h.stderr, nofun, fun outcome hreturned => ?_⟩
      cases ended with
      | error => cases hreturned
      | ok code =>
        cases hreturned
        exact ⟨h.draining _ _ hstage, h.stderr⟩
    · exact h
  · exact h

end Bounded

theorem supervise_bounded (cap : Nat) (acts : List Act) :
    (supervise cap acts).Bounded (min (given Act.stdoutBytes acts) cap)
      (min (given Act.stderrBytes acts) cap) := by
  induction acts using List.reverseRecOn with
  | nil => exact ⟨Nat.zero_le _, Nat.zero_le _, nofun, nofun⟩
  | append_singleton acts act ih =>
    rw [supervise, List.foldl_append, given_concat, given_concat]
    cases act with
    | stdout chunk =>
      have hmore := ih.mono (min_le_min_right cap (Nat.le_add_right _ chunk.length)) le_rfl
      exact { hmore with stdout := Reader.read_length ih.stdout chunk }
    | stderr chunk =>
      have hmore := ih.mono le_rfl (min_le_min_right cap (Nat.le_add_right _ chunk.length))
      exact { hmore with stderr := Reader.read_length ih.stderr chunk }
    | poll wait cancelled late => exact ih.poll wait cancelled late
    | drain late => exact ih.drain late

/-- The cap holds for both pipes together if it is zero, one of them stays empty or both carry no
more than the cap. -/
theorem output_bounded {cap : Nat} {acts : List Act}
    (h : cap = 0 ∨ given Act.stdoutBytes acts = 0 ∨ given Act.stderrBytes acts = 0 ∨
      given Act.stdoutBytes acts + given Act.stderrBytes acts ≤ cap) :
    (supervise cap acts).stdout.collected.length + (supervise cap acts).stderr.collected.length ≤ cap ∧
    ∀ outcome, (supervise cap acts).stage = .returned (.ok outcome) →
      outcome.stdout.length + outcome.stderr.length ≤ cap := by
  have hbounded := supervise_bounded cap acts
  refine ⟨?_, fun outcome hreturned => ?_⟩
  · have hout := hbounded.stdout
    have herr := hbounded.stderr
    omega
  · have hboth := hbounded.returned outcome hreturned
    omega

def exits : List Act := [.poll (.exited (some 0)) false false, .drain true, .drain true]

theorem output_bounded_both :
    (supervise 3 (.stdout [1] :: .stderr [2, 3] :: exits)).stage =
        .returned (.ok ⟨some 0, [1], [2, 3], false⟩) ∧
      (supervise 3 (.stdout [1] :: .stderr [2, 3] :: exits)).stdout.collected.length +
        (supervise 3 (.stdout [1] :: .stderr [2, 3] :: exits)).stderr.collected.length ≤ 3 :=
  ⟨by decide, (output_bounded (.inr (.inr (.inr (by decide))))).1⟩

/-- A byte on each pipe is captured with a cap of one. -/
theorem output_exceeds_cap :
    (supervise 1 (.stdout [1] :: .stderr [2] :: exits)).stage =
      .returned (.ok ⟨some 0, [1], [2], false⟩) := by
  decide

end GtaClaw.Tools
