import CellMachine.Proofs.Instruction.Inverse
import CellMachine.Proofs.Machine.Discipline

/-!
# Requests that fail

A `MemoryRequest` is anything that can be asked of the memory, by an instruction or by a foreign
function. Almost every request looks first and changes the memory last, so that one that fails has
changed nothing (`MemoryRequest.failsWith_act`). Closing a frame is different : the stack pointer is
set to the frame before the saved pointer is popped, and stays there if the pop fails
(`MemoryOp.popFrame_eq_error`). A machine puts the pointer back; a foreign function that goes on
after the failure finds it moved.
-/

namespace CellMachine

/-! ## Requests -/

/-- An operation that raises the stack pointer. -/
inductive StackPush where
  | bytes (bs : List UInt8)
  | cell (c : Cell) (dt : Datatype)
  | room (n : Nat)
  | frame
  deriving DecidableEq, Repr

/-- Carries out a push. -/
def StackPush.act : StackPush → MemoryOp Unit
  | bytes bs => .push bs
  | cell c dt => .pushCell c dt
  | room n => .stackAdd n
  | frame => .pushFrame

/-- What can be asked of the memory. -/
inductive MemoryRequest where
  | read (a : Address) (len : Nat)
  | load (a : Address) (dt : Datatype)
  | readText (a : Address)
  | checkWritable (a : Address) (len : Nat)
  | setRegister (r : Register) (c : Cell)
  | write (a : Address) (bytes : List UInt8)
  | store (a : Address) (dt : Datatype) (c : Cell)
  | push (p : StackPush)
  | pop (len : Nat)
  | popCell (dt : Datatype)
  | stackSub (n : Nat)
  | popFrame
  | alloc (size : Nat)
  | free (a : Address)
  deriving DecidableEq, Repr

/-- Drops what an operation gives. -/
def MemoryOp.silent {α : Type} (op : MemoryOp α) : MemoryOp Unit := do
  let _ ← op
  return ()

/-- Carries out a request. What it gives is dropped. -/
def MemoryRequest.act : MemoryRequest → MemoryOp Unit
  | read a len => (MemoryOp.query (·.read a len)).silent
  | load a dt => (MemoryOp.query (·.load a dt)).silent
  | readText a => (MemoryOp.query (·.readText a)).silent
  | checkWritable a len => (MemoryOp.query (·.checkWritable a len)).silent
  | setRegister r c => modify (·.setRegister r c)
  | write a bytes => .write a bytes
  | store a dt c => .store a dt c
  | push p => p.act
  | pop len => (MemoryOp.pop len).silent
  | popCell dt => (MemoryOp.popCell dt).silent
  | stackSub n => .stackSub n
  | popFrame => .popFrame
  | alloc size => (MemoryOp.alloc size).silent
  | free a => .free a

/-! ## Registers that are put back -/

namespace Buffer

/-- Writing bytes that are there already changes nothing. -/
theorem Holds.write_self {b : Buffer} {pos : Nat} {bs : List UInt8} (h : b.Holds pos bs) :
    b.write pos bs = b := by
  obtain ⟨pre, post, hb, rfl⟩ := holds_iff_exists.mp h
  apply Array.toList_inj.mp
  rw [toList_write_middle hb rfl rfl, hb]

end Buffer

namespace Memory

theorem holds_register (m : Memory) (r : Register) :
    Buffer.Holds m.registers.toArray r.offset (m.register r).raw := by
  have hin : r.offset + Cell.size ≤ m.registers.toArray.size := by
    rw [Vector.size_toArray]
    exact r.offset_add_size_le
  have hlen := Buffer.length_read_of_le _ _ _ hin
  have hraw : (m.register r).bytes .u64 = Buffer.read m.registers.toArray r.offset Cell.size :=
    Cell.bytes_ofBytes hlen
  change Buffer.Holds _ _ ((m.register r).bytes .u64)
  rw [hraw]
  exact ⟨by rwa [hlen], by rw [hlen]⟩

theorem setRegister_register (m : Memory) (r : Register) : m.setRegister r (m.register r) = m := by
  have hsame := (m.holds_register r).write_self
  unfold setRegister writeRegisters
  simp only [hsame]

/-- A register that was set is put back. -/
theorem setRegister_setRegister_register (m : Memory) (r : Register) (c : Cell) :
    (m.setRegister r c).setRegister r (m.register r) = m := by
  have hlen : c.raw.length = (m.register r).raw.length := by
    rw [Cell.raw, Cell.raw, length_littleEndian, length_littleEndian]
  have hback := (m.holds_register r).write_write hlen
  unfold setRegister writeRegisters
  simp only [hback]

end Memory

/-! ## Requests that fail -/

namespace MemoryOp

open Memory

variable {m m' : Memory} {e : Fault}

theorem pop_eq_error {len : Nat} : pop len m = .error e m' ↔
    ¬ (len ≤ m.stackOffset .sp ∧ m.stackOffset .sp ≤ m.stack.size) ∧ e = .stackUnderflow ∧
      m' = m := by
  have happly : pop len m = (if len ≤ m.stackOffset .sp ∧ m.stackOffset .sp ≤ m.stack.size then
      .ok (m.stack.read (m.stackOffset .sp - len) len)
        (m.setStackOffset .sp (m.stackOffset .sp - len))
      else .error .stackUnderflow m) := by
    unfold pop
    rw [get_bind_apply]
    dsimp only
    split <;> rfl
  rw [happly]
  split
  · next hle => simp [hle]
  · next hle => simp [hle, eq_comm]

theorem stackSub_eq_error {n : Nat} : stackSub n m = .error e m' ↔
    m.stackOffset .sp < n ∧ e = .stackUnderflow ∧ m' = m := by
  have happly : stackSub n m = (if n ≤ m.stackOffset .sp then
      .ok () (m.setStackOffset .sp (m.stackOffset .sp - n)) else .error .stackUnderflow m) := by
    unfold stackSub
    rw [get_bind_apply]
    split <;> rfl
  rw [happly]
  split
  · next hle => simp [Nat.not_lt.mpr hle]
  · next hle => simp [Nat.not_le.mp hle, eq_comm]

theorem stackOffset_setRegister_copy (m : Memory) (r q : Register) :
    (m.setRegister r (m.register q)).stackOffset r = m.stackOffset q := by
  unfold stackOffset pointer
  rw [register_setRegister_self]

/-- Closing a frame fails where no saved pointer lies below it, with the stack pointer at the
frame. -/
theorem popFrame_eq_error : popFrame m = .error e m' ↔
    ¬ (Cell.size ≤ m.stackOffset .fp ∧ m.stackOffset .fp ≤ m.stack.size) ∧ e = .stackUnderflow ∧
      m' = m.setRegister .sp (m.register .fp) := by
  have hmove : popFrame m = (popCell .addr >>= fun saved => modify (·.setRegister .fp saved))
      (m.setRegister .sp (m.register .fp)) := modify_bind_apply _ _ _
  have hpop : popFrame m = .error e m' ↔
      pop Cell.size (m.setRegister .sp (m.register .fp)) = .error e m' := by
    rw [hmove, bind_eq_error]
    constructor
    · rintro (h | ⟨_, _, -, h⟩)
      · rcases bind_eq_error.mp h with h | ⟨_, _, -, h⟩
        · exact h
        · cases h
      · cases h
    · exact fun h => Or.inl (bind_eq_error.mpr (Or.inl h))
  rw [hpop, pop_eq_error, stackOffset_setRegister_copy, stack_setRegister]

end MemoryOp

namespace MemoryRequest

open MemoryOp

theorem failsWith_silent {α : Type} {op : MemoryOp α} (h : FailsWith Eq op) :
    FailsWith Eq op.silent :=
  .bind_total h fun _ _ _ _ h => by cases h

theorem failsWith_push (p : StackPush) : FailsWith Eq p.act := by
  cases p with
  | bytes bs => exact fun _ _ _ h => (push_eq_error h).1.symm
  | cell c dt => exact failsWith_pushCell c dt
  | room n => exact failsWith_stackAdd n
  | frame => exact failsWith_pushFrame

theorem failsWith_pop (len : Nat) : FailsWith Eq (MemoryOp.pop len) :=
  fun _ _ _ h => (pop_eq_error.mp h).2.2.symm

/-- A request that fails changes nothing, unless it closes a frame. -/
theorem failsWith_act {r : MemoryRequest} (hr : r ≠ .popFrame) : FailsWith Eq r.act := by
  cases r with
  | read a len => exact failsWith_silent (.of_relates (relates_query _))
  | load a dt => exact failsWith_silent (.of_relates (relates_query _))
  | readText a => exact failsWith_silent (.of_relates (relates_query _))
  | checkWritable a len => exact failsWith_silent (.of_relates (relates_query _))
  | setRegister r c => exact fun _ _ _ h => by cases h
  | write a bytes => exact failsWith_write a bytes
  | store a dt c => exact failsWith_write a _
  | push p => exact failsWith_push p
  | pop len => exact failsWith_silent (failsWith_pop len)
  | popCell dt =>
    exact failsWith_silent (.bind_total (failsWith_pop dt.size) fun _ _ _ _ h => by cases h)
  | stackSub n => exact fun _ _ _ h => (stackSub_eq_error.mp h).2.2.symm
  | popFrame => exact absurd rfl hr
  | alloc size => exact failsWith_silent (failsWith_alloc size)
  | free a => exact failsWith_free a

/-- A request that fails has changed nothing, with one exception. Closing a frame fails exactly if
no saved pointer lies below the frame, and leaves the stack pointer where the frame is : it is all
that has changed, it can be put back, and it has changed unless it was there already. -/
theorem act_error_unchanged (m : Memory) :
    (∀ r f m', r ≠ .popFrame → act r m = .error f m' → m' = m) ∧
    (∀ f m', popFrame.act m = .error f m' ↔
      (m.stackOffset .fp < Cell.size ∨ m.stack.size < m.stackOffset .fp) ∧ f = .stackUnderflow ∧
        m' = m.setRegister .sp (m.register .fp)) ∧
    (m.setRegister .sp (m.register .fp)).setRegister .sp (m.register .sp) = m ∧
    (m.setRegister .sp (m.register .fp) = m ↔ m.register .sp = m.register .fp) := by
  refine ⟨fun r f m' hr h => (failsWith_act hr h).symm, fun f m' => ?_,
    m.setRegister_setRegister_register .sp _, fun h => ?_, fun h => ?_⟩
  · rw [act, popFrame_eq_error, not_and_or, Nat.not_le, Nat.not_le]
  · have hsp := m.register_setRegister_self .sp (m.register .fp)
    rwa [h] at hsp
  · rw [← h]
    exact m.setRegister_register .sp

/-- A memory with sixteen bytes on the stack and no frame. -/
def unframed : Memory := stateAfter (MemoryOp.stackAdd 16 (.initial .empty ⟨32, 32, ∅, none⟩))

/-- Taking off too much is refused and leaves the sixteen bytes; closing a frame that was never
opened is refused too, and the stack pointer has to be put back. -/
theorem act_error_unchanged_unframed :
    act (stackSub 17) unframed = .error .stackUnderflow unframed ∧
      ∃ m', popFrame.act unframed = .error .stackUnderflow m' ∧
        m'.setRegister .sp (unframed.register .sp) = unframed := by
  obtain ⟨hfails, hpopFrame, hback, -⟩ := act_error_unchanged unframed
  have hfault : outcome (act (stackSub 17) unframed) = .error .stackUnderflow := by decide +kernel
  have herror := eq_error_of_outcome hfault
  have hsame := hfails _ _ _ (by decide) herror
  exact ⟨herror.trans (congrArg _ hsame), _,
    (hpopFrame _ _).mpr ⟨Or.inl (by decide +kernel), rfl, rfl⟩, hback⟩

/-- A frame that is not there cannot be closed, and the sixteen bytes are lost. -/
theorem popFrame_error_moves : ∃ m', popFrame.act unframed = .error .stackUnderflow m' ∧
    m'.stackOffset .sp = 0 ∧ unframed.stackOffset .sp = 16 ∧ m' ≠ unframed := by
  have hfault : outcome (popFrame.act unframed) = .error .stackUnderflow := by decide +kernel
  have hmoved : (stateAfter (popFrame.act unframed)).stackOffset .sp = 0 := by decide +kernel
  have hbefore : unframed.stackOffset .sp = 16 := by decide +kernel
  refine ⟨_, eq_error_of_outcome hfault, hmoved, hbefore, fun hsame => ?_⟩
  rw [hsame, hbefore] at hmoved
  exact absurd hmoved (by decide)

end MemoryRequest

end CellMachine
