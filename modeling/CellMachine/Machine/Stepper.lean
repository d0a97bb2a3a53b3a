import CellMachine.Machine.Step

/-!
# Stepping from outside

A stepper is a machine that a worker drives while its host grants it steps. The host adds steps
to those pending; the worker takes them one by one. `Stepper.work` is one uninterrupted action
of the worker, so that any order of `Stepper.grant` and `Stepper.work` is a possible history.
`Stepper.wait` lets the worker go on until nothing is pending.
-/

namespace CellMachine

/-- What the host sees of a program. -/
inductive RunState where
  /-- The worker waits for steps. -/
  | idle
  | running
  | halted (code : Int64)
  | faulted (e : RunError)
  deriving DecidableEq, Repr

/-- A program that has ended takes no more steps. -/
def RunState.isFinished : RunState → Bool
  | .idle => false
  | .running => false
  | .halted _ => true
  | .faulted _ => true

/-- What the worker does next. -/
inductive Worker where
  /-- Waits until steps are pending. -/
  | waiting
  /-- Takes a step from those pending, or stops. -/
  | taking
  /-- Carries out the step that it took. -/
  | stepping
  /-- Reports how the program ended, or that no steps are left. -/
  | reporting (result : Option RunState)
  /-- The program has ended. -/
  | done
  deriving DecidableEq, Repr

/-- A machine with its worker. -/
structure Stepper where
  machine : Machine
  /-- The number of steps that may still be taken. -/
  pending : Nat
  run : RunState
  worker : Worker

namespace Stepper

/-- The number of pending steps that stands for no limit. -/
def unbounded : Nat := UInt64.size - 1

/-- A worker that waits in front of a machine. -/
def ofMachine (s : Machine) : Stepper := ⟨s, 0, .idle, .waiting⟩

/-- Adds steps to those pending, unless the program has ended. -/
def grant (n : Nat) (s : Stepper) : Stepper :=
  if s.run.isFinished then s else { s with pending := min (s.pending + n) unbounded }

/-- Lets the program run to its end. -/
def resume (s : Stepper) : Stepper := s.grant unbounded

/-- One action of the worker. -/
def work : Stepper → Stepper
  | ⟨machine, pending, run, .waiting⟩ =>
    if pending = 0 then ⟨machine, pending, run, .waiting⟩ else ⟨machine, pending, .running, .taking⟩
  | ⟨machine, pending, run, .taking⟩ =>
    if pending = 0 then ⟨machine, pending, run, .reporting none⟩
    else if pending = unbounded then ⟨machine, pending, run, .stepping⟩
    else ⟨machine, pending - 1, run, .stepping⟩
  | ⟨machine, pending, run, .stepping⟩ =>
    match machine.step with
    | (.ok .paused, machine) => ⟨machine, pending, run, .taking⟩
    | (.ok (.halted code), machine) => ⟨machine, pending, run, .reporting (some (.halted code))⟩
    | (.error e, machine) => ⟨machine, pending, run, .reporting (some (.faulted e))⟩
  | ⟨machine, pending, _, .reporting none⟩ => ⟨machine, pending, .idle, .waiting⟩
  | ⟨machine, _, _, .reporting (some result)⟩ => ⟨machine, 0, result, .done⟩
  | ⟨machine, pending, run, .done⟩ => ⟨machine, pending, run, .done⟩

/-- Nothing is left to wait for. -/
def isSettled (s : Stepper) : Bool :=
  s.run.isFinished || s.pending == 0 && s.run != .running

/-- Lets the worker go on until nothing is left to wait for, for at most `n` actions. -/
def drive (s : Stepper) : Nat → Stepper
  | 0 => s
  | n + 1 => if s.isSettled then s else s.work.drive n

/-- Lets the worker use up the pending steps, each of which takes two actions. -/
def wait (s : Stepper) : Stepper := s.drive (2 * unbounded + 3)

end Stepper

end CellMachine
