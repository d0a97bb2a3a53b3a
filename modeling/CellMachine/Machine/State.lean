import CellMachine.Machine.Foreign

/-!
# The state of the machine

A machine is a program with the memory it works on, the foreign functions it may call, and how
far it has come. An `Exec` is an action of the machine that may fault; it gives the state behind
it in either case.
-/

namespace CellMachine

/-- How a step or a run ended. -/
inductive Outcome where
  /-- The program ended, with an exit code. -/
  | halted (code : Int64)
  /-- There is more to do. -/
  | paused
  deriving DecidableEq, Repr

/-- The place of a foreign call and the name that is called there. The name is read from
memory, so that one place may call several functions. -/
abbrev CallSite := Address × String

/-- A program that runs. -/
structure Machine where
  host : Host
  registry : Registry
  config : Config
  /-- The foreign functions found so far. -/
  cache : List (CallSite × ForeignFunction)
  /-- The exit code, once the program has ended. -/
  halted : Option Int64
  /-- The number of instructions carried out. -/
  steps : Nat

/-- An action of the machine. -/
abbrev Exec := EStateM Fault Machine

namespace Machine

/-- A machine in front of the first instruction of an image. It needs every mandatory
permission. -/
def ofImage (image : Image) (registry : Registry) (config : Config) : Except RunError Machine :=
  match image.missingPermissions config.isGranted with
  | [] => .ok ⟨⟨.initial image config, #[]⟩, registry, config, [], none, 0⟩
  | names => .error ⟨.missingPermissions names, none, []⟩

/-- The memory of the program. -/
def memory (s : Machine) : Memory := s.host.memory

/-- The content of a register. -/
def register (s : Machine) (r : Register) : Cell := s.memory.register r

/-- Changes the memory. -/
def updateMemory (f : Memory → Memory) : Machine → Machine
  | ⟨⟨memory, console⟩, registry, config, cache, halted, steps⟩ =>
    ⟨⟨f memory, console⟩, registry, config, cache, halted, steps⟩

/-- Sets the code pointer. -/
def jump (s : Machine) (a : Address) : Machine := s.updateMemory (·.setPointer .cp a)

/-- Ends the program with the exit code in its register. -/
def halt (s : Machine) : Outcome × Machine :=
  let code := (s.register .ec).bits.toInt64
  (.halted code, { s with halted := some code })

end Machine

namespace Exec

/-- An action on the memory. -/
def ofMemory {α : Type} (op : MemoryOp α) : Exec α
  | ⟨⟨memory, console⟩, registry, config, cache, halted, steps⟩ =>
    match op memory with
    | .ok a memory => .ok a ⟨⟨memory, console⟩, registry, config, cache, halted, steps⟩
    | .error f memory => .error f ⟨⟨memory, console⟩, registry, config, cache, halted, steps⟩

/-- An action of a foreign function, whose error becomes a fault. -/
def ofHost {α : Type} (op : HostOp α) : Exec α
  | ⟨host, registry, config, cache, halted, steps⟩ =>
    match op host with
    | .ok a host => .ok a ⟨host, registry, config, cache, halted, steps⟩
    | .error e host => .error e.toFault ⟨host, registry, config, cache, halted, steps⟩

/-- What fails or succeeds without an effect. -/
def ofExcept {α : Type} : Except Fault α → Exec α
  | .ok a => pure a
  | .error f => throw f

/-- Reads something off the memory. -/
def query {α : Type} (f : Memory → Except Fault α) : Exec α := ofMemory (MemoryOp.query f)

/-- Sets the code pointer. -/
def jump (a : Address) : Exec Unit := modify (·.jump a)

end Exec

end CellMachine
