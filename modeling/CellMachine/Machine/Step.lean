import CellMachine.Instruction.Disassembly
import CellMachine.Machine.Execution

/-!
# Steps and runs

`Machine.step` carries out one instruction : it either completes, or faults with the code, stack
and frame pointer as they were, so that the state can be looked at and the instruction be tried
again. What a foreign function has done is not undone. `Machine.run` does a limited number of
steps, `Machine.runOn` as many as there are.
-/

namespace CellMachine.Machine

/-- What stands at the code pointer. -/
inductive Fetched where
  | instruction (i : Instruction)
  | endOfCode
  | fault (f : Fault)

/-- Reads the instruction at an address, unless the limit of instructions is reached. The end
of the code of a module is no fault. -/
def fetch (s : Machine) (cp : Address) : Fetched :=
  match if cp.base? = some .code then s.memory.code[cp.page]? else none with
  | none => .fault (.invalidAddress cp.bits)
  | some code =>
    if code.size ≤ cp.intraOffset.toNat then .endOfCode
    else
      match s.config.maxSteps.filter (· ≤ s.steps) with
      | some limit => .fault (.stepLimit limit)
      | none =>
        match decode code cp.intraOffset.toNat with
        | .ok i => .instruction i
        | .error e => .fault (.decode e)

/-- Sets the code, stack and frame pointer. What is on the stack above its pointer is of no
use, so this undoes what was pushed or popped. -/
def withPointers (s : Machine) (cp : Address) (sp fp : Cell) : Machine :=
  s.updateMemory fun m => ((m.setRegister .sp sp).setRegister .fp fp).setPointer .cp cp

/-- Carries out one instruction. A program that runs off the end of a module ends. -/
def step (s : Machine) : Except RunError Outcome × Machine :=
  match s.halted with
  | some code => (.ok (.halted code), s)
  | none =>
    let cp := s.memory.pointer .cp
    let sp := s.register .sp
    let fp := s.register .fp
    match s.fetch cp with
    | .fault f => (.error ⟨f, some cp, []⟩, s)
    | .endOfCode => s.halt.map .ok id
    | .instruction i =>
      match Exec.execute i cp s with
      | .error f s => (.error ⟨f, some cp, [mnemonic i.opcode i.datatype]⟩, s.withPointers cp sp fp)
      | .ok () s =>
        let s := { s with steps := s.steps + 1 }
        if i.opcode = .exit then s.halt.map .ok id else (.ok .paused, s)

/-- Carries out at most `n` instructions. -/
def run (s : Machine) (n : Nat) : Except RunError Outcome × Machine :=
  match s.halted, n with
  | some code, _ => (.ok (.halted code), s)
  | none, 0 => (.ok .paused, s)
  | none, n + 1 =>
    match s.step with
    | (.ok _, s) => s.run n
    | (.error e, s) => (.error e, s)

/-- A step leads from the second machine to the first, and the program may go on. -/
def StepsFrom (t s : Machine) : Prop := s.halted = none ∧ ∃ outcome, s.step = (.ok outcome, t)

/-- One round of a run without a limit. Behind a step that has not faulted, `next` goes on. -/
def runOnce (s : Machine) (next : (t : Machine) → t.StepsFrom s → Except RunError Outcome × Machine) :
    Except RunError Outcome × Machine :=
  match hhalted : s.halted with
  | some code => (.ok (.halted code), s)
  | none =>
    match hstep : s.step with
    | (.ok outcome, t) => next t ⟨hhalted, outcome, hstep⟩
    | (.error e, t) => (.error e, t)

theorem nonempty_result (s : Machine) : Nonempty (Except RunError Outcome × Machine) :=
  ⟨.ok .paused, s⟩

/-- Carries out instructions until the program ends or faults. Nothing is said of a program that
does neither. -/
def runOn : Machine → Except RunError Outcome × Machine :=
  @WellFounded.partialExtrinsicFix Machine (fun _ => Except RunError Outcome × Machine)
    nonempty_result StepsFrom runOnce

/-- Carries out instructions up to a limit, or until the program ends. -/
def interpret (s : Machine) : Option Nat → Except RunError Outcome × Machine
  | some n => s.run n
  | none => s.runOn

end CellMachine.Machine
