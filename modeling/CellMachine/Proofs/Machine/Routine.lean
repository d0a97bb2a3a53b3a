import CellMachine.Machine.Native
import CellMachine.Proofs.Action
import Mathlib

/-!
# Foreign functions that keep to their calls

A `Routine` is what a foreign function does if it reaches memory through nothing but reads, writes
and reads of text, and fails where one of these does. A function is confined
(`ForeignFunction.Confined`) if it succeeds like a routine and fails, in whatever way, where the
routine fails. Sequences of confined actions are confined (`HostOp.Confined.bind`), and so are the
functions of the built-in libraries (`Native.confined_registry`).
-/

namespace CellMachine

variable {ε σ α β : Type}

/-- The value of an action that succeeds, and the state behind it. -/
def success? : EStateM.Result ε σ α → Option (α × σ)
  | .ok a s => some (a, s)
  | .error _ _ => none

theorem success?_eq_some {r : EStateM.Result ε σ α} {a : α} {s : σ} :
    success? r = some (a, s) ↔ r = .ok a s := by
  cases r with
  | ok b t => simp [success?]
  | error e t => simp [success?]

theorem success?_bind (x : EStateM ε σ α) (f : α → EStateM ε σ β) (s : σ) :
    success? ((x >>= f) s) = (success? (x s)).bind fun p => success? (f p.1 p.2) := by
  change success? (EStateM.bind x f s) = _
  unfold EStateM.bind
  cases x s with
  | ok a t => rfl
  | error e t => rfl

/-- Calls to memory and changes of the console, one after the other. What comes next may depend on
what a call has given. -/
inductive Routine (α : Type) where
  | done (a : α)
  | fail
  | read (a : Address) (len : Nat) (next : List UInt8 → Routine α)
  | write (a : Address) (bytes : List UInt8) (next : Routine α)
  | readText (a : Address) (next : String → Routine α)
  | console (change : Array UInt8 → Array UInt8) (next : Array UInt8 → Routine α)

namespace Routine

/-- The value of a routine and what it leaves behind, unless one of its calls fails. -/
def run : Routine α → Host → Option (α × Host)
  | done a, h => some (a, h)
  | fail, _ => none
  | read a len next, h =>
    match h.memory.read a len with
    | .ok bytes => (next bytes).run h
    | .error _ => none
  | write a bytes next, h =>
    match MemoryOp.write a bytes h.memory with
    | .ok _ memory => next.run ⟨memory, h.console⟩
    | .error _ _ => none
  | readText a next, h =>
    match h.memory.readText a with
    | .ok text => (next text).run h
    | .error _ => none
  | console change next, h => (next h.console).run ⟨h.memory, change h.console⟩

/-- One routine behind the other. -/
def bind : Routine α → (α → Routine β) → Routine β
  | done a, f => f a
  | fail, _ => fail
  | read a len next, f => read a len fun bytes => (next bytes).bind f
  | write a bytes next, f => write a bytes (next.bind f)
  | readText a next, f => readText a fun text => (next text).bind f
  | console change next, f => console change fun before => (next before).bind f

theorem run_bind (r : Routine α) (f : α → Routine β) (h : Host) :
    (r.bind f).run h = (r.run h).bind fun p => (f p.1).run p.2 := by
  induction r generalizing h with
  | done a => rfl
  | fail => rfl
  | read a len next ih =>
    simp only [bind, run]
    cases h.memory.read a len with
    | ok bytes => exact ih bytes h
    | error e => rfl
  | write a bytes next ih =>
    simp only [bind, run]
    cases MemoryOp.write a bytes h.memory with
    | ok _ memory => exact ih _
    | error e memory => rfl
  | readText a next ih =>
    simp only [bind, run]
    cases h.memory.readText a with
    | ok text => exact ih text h
    | error e => rfl
  | console change next ih => exact ih _ _

end Routine

/-! ## Confined actions -/

/-- The action succeeds like a routine, and fails where the routine does. -/
def HostOp.Confined (x : HostOp α) : Prop := ∃ r : Routine α, ∀ h, success? (x h) = r.run h

/-- Every call succeeds like a routine, and fails where the routine does. -/
def ForeignFunction.Confined (f : ForeignFunction) : Prop :=
  ∀ d : CallData, HostOp.Confined (f.call d)

/-- Every function that can be found is confined. -/
def Registry.Confined (registry : Registry) : Prop :=
  ∀ name f, registry name = .ok (some f) → f.Confined

namespace HostOp.Confined

theorem pure (a : α) : Confined (Pure.pure a : HostOp α) := ⟨.done a, fun _ => rfl⟩

theorem throw (e : ForeignError) : Confined (MonadExcept.throw e : HostOp α) :=
  ⟨.fail, fun _ => rfl⟩

theorem bind {x : HostOp α} {f : α → HostOp β} (hx : Confined x) (hf : ∀ a, Confined (f a)) :
    Confined (x >>= f) := by
  obtain ⟨r, hr⟩ := hx
  choose g hg using hf
  refine ⟨r.bind g, fun h => ?_⟩
  rw [success?_bind, Routine.run_bind, hr]
  exact congrArg (Option.bind (r.run h)) (funext fun p => hg p.1 p.2)

theorem ofExcept (x : Except ForeignError α) : Confined (HostOp.ofExcept x) := by
  cases x with
  | ok a => exact .pure a
  | error e => exact .throw e

theorem print (bytes : List UInt8) : Confined (HostOp.print bytes) :=
  ⟨.console (· ++ bytes.toArray) fun _ => .done ⟨⟩, fun _ => rfl⟩

theorem readText (a : Address) : Confined (HostOp.access (MemoryOp.query (·.readText a))) := by
  refine ⟨.readText a .done, fun h => ?_⟩
  unfold HostOp.access MemoryOp.query
  simp only [Routine.run]
  cases h.memory.readText a with
  | ok text => rfl
  | error e => rfl

theorem write (a : Address) (bytes : List UInt8) :
    Confined (HostOp.access (MemoryOp.write a bytes)) := by
  refine ⟨.write a bytes (.done ()), fun h => ?_⟩
  unfold HostOp.access
  simp only [Routine.run]
  cases MemoryOp.write a bytes h.memory with
  | ok _ memory => rfl
  | error e memory => rfl

/-- A write that is checked first is a write. -/
theorem checked_write (a : Address) (bytes : List UInt8) :
    Confined (do
      HostOp.access (MemoryOp.query (·.checkWritable a bytes.length))
      HostOp.access (MemoryOp.write a bytes)) := by
  obtain ⟨r, hr⟩ := write a bytes
  refine ⟨r, fun h => ?_⟩
  rw [← hr, success?_bind]
  unfold HostOp.access MemoryOp.query Memory.checkWritable MemoryOp.write
  dsimp only
  cases hplace : h.memory.locateWritable a bytes.length with
  | ok place => simp [success?, hplace]
  | error e => rfl

end HostOp.Confined

/-! ## The built-in libraries -/

namespace Native

/-- What holds of all functions of the libraries holds of what the registry finds. -/
theorem forall_registry {P : ForeignFunction → Prop} (hconsole : ∀ p ∈ console, P p.2)
    (hmemory : ∀ p ∈ memory, P p.2) (name : String) (f : ForeignFunction)
    (h : registry name = .ok (some f)) : P f := by
  unfold registry at h
  split at h
  · cases h
  · next library function _ =>
    split at h
    · cases h
    · next functions hlibrary =>
      have hall : ∀ p ∈ functions, P p.2 := by
        unfold library? at hlibrary
        split at hlibrary <;> cases hlibrary
        · exact hconsole
        · exact hmemory
      obtain ⟨p, hp, rfl⟩ := Option.map_eq_some_iff.mp (Except.ok.inj h)
      exact hall p (List.mem_of_find?_eq_some hp)

open HostOp (Confined)

theorem confined_consoleArg (arg : Except ForeignError α) : Confined (consoleArg arg) := by
  cases arg with
  | ok a => exact .pure a
  | error e => exact .throw _

theorem confined_printer (arity : Nat) {text : CallData → HostOp (List UInt8)}
    (h : ∀ d, Confined (text d)) : (printer arity text).Confined :=
  fun d => .bind (h d) fun _ => .bind (.print _) fun _ => .pure none

theorem confined_console : ∀ p ∈ console, p.2.Confined := by
  simp only [console, List.forall_mem_cons, List.not_mem_nil, false_implies, implies_true, and_true]
  refine ⟨?_, ?_, ?_, ?_, ?_, ?_⟩
  · exact confined_printer 1 fun _ => .bind (confined_consoleArg _) fun _ => .pure _
  · exact confined_printer 1 fun _ => .bind (confined_consoleArg _) fun _ => .pure _
  · exact confined_printer 1 fun _ => .bind (confined_consoleArg _) fun _ => .pure _
  · exact confined_printer 1 fun _ => .bind (confined_consoleArg _) fun _ => .pure _
  · exact confined_printer 1 fun _ => .bind (confined_consoleArg _) fun _ =>
      .bind (.readText _) fun _ => .pure _
  · exact confined_printer 0 fun _ => .pure _

theorem confined_fill : fill.Confined := by
  refine fun d => .bind (.ofExcept _) fun a => .bind (.ofExcept _) fun b =>
    .bind (.ofExcept _) fun n => ?_
  have hwrite := Confined.bind (.checked_write a (List.replicate n.toNat b)) fun _ =>
    .pure (none : Option Value)
  rw [List.length_replicate, bind_assoc] at hwrite
  exact hwrite

theorem confined_strlen : strlen.Confined := fun _ =>
  .bind (.ofExcept _) fun _ => .bind (.readText _) fun _ => .pure _

theorem confined_memory : ∀ p ∈ memory, p.2.Confined := by
  simp only [memory, List.forall_mem_cons, List.not_mem_nil, false_implies, implies_true, and_true]
  exact ⟨confined_fill, confined_strlen⟩

/-- The functions of the built-in libraries are confined. -/
theorem confined_registry : registry.Confined :=
  forall_registry confined_console confined_memory

end Native

end CellMachine
