import CellMachine.Proofs.Machine.Memory
import CellMachine.Proofs.Instruction.RoundTrip
import Mathlib

/-!
# The stack

A pointer into the stack is an address of 61 bits of offset (`Memory.StackAt`). Pushes put their
bytes one behind the other from where the stack pointer was (`MemoryOp.Pushes`), as far as there are
addresses; a pop takes bytes off again that lie there (`MemoryOp.pop_of_holds`). Bytes below the
frame are read through an address that counts downward from the frame pointer
(`Memory.load_frameSub`).
-/

namespace CellMachine

namespace Memory

variable {m : Memory} {r : Register} {n : Nat}

/-- A register holds the address of an offset of the stack. -/
structure StackAt (m : Memory) (r : Register) (n : Nat) : Prop where
  pointer : m.pointer r = .make .stack (UInt64.ofNat n)
  lt : n < 2 ^ 61

theorem StackAt.offset (h : m.StackAt r n) : m.stackOffset r = n := by
  unfold stackOffset
  rw [h.pointer, Address.toNat_offset_make h.lt]

theorem StackAt.base? (h : m.StackAt r n) : (m.pointer r).base? = some .stack := by
  rw [h.pointer, Address.base?_make]

theorem stack_setRegister (m : Memory) (r : Register) (c : Cell) :
    (m.setRegister r c).stack = m.stack := by
  unfold setRegister writeRegisters
  rfl

theorem pointer_setPointer_self (m : Memory) (r : Register) (a : Address) :
    (m.setPointer r a).pointer r = a := by
  unfold pointer setPointer
  rw [register_setRegister_self]
  rfl

theorem stackAt_setStackOffset (m : Memory) (r : Register) (h : n < 2 ^ 61) :
    (m.setStackOffset r n).StackAt r n :=
  ⟨pointer_setPointer_self m r _, h⟩

theorem stackAt_of_base? (h : (m.pointer r).base? = some .stack) :
    m.StackAt r (m.stackOffset r) := by
  refine ⟨?_, m.stackOffset_lt r⟩
  have hoffset : UInt64.ofNat (m.stackOffset r) = (m.pointer r).offset := UInt64.ofNat_toNat
  rw [hoffset]
  exact Address.eq_make h

theorem StackAt.of_register_eq {m' : Memory} {q : Register} (h : m.StackAt r n)
    (hregister : m'.register q = m.register r) : m'.StackAt q n := by
  refine ⟨?_, h.lt⟩
  unfold Memory.pointer
  rw [hregister]
  exact h.pointer

/-- What lies below the frame is read through an address that counts downward from it. -/
theorem load_frameSub {fp : Nat} {c : Cell} {dt : Datatype} (hfp : m.StackAt .fp fp) (hn : n ≤ fp)
    (hholds : m.stack.Holds (fp - n) (c.bytes dt)) :
    m.load (.make .frameSub (UInt64.ofNat n)) dt = .ok (.ofBytes (c.bytes dt)) := by
  obtain ⟨hle, hread⟩ := hholds
  rw [Cell.length_bytes] at hle hread
  have hlocate : m.locate (.make .frameSub (UInt64.ofNat n)) dt.size = .ok (.stack, fp - n) := by
    rw [locate_eq_ok]
    have hoffset := Address.toNat_offset_make (Nat.lt_of_le_of_lt hn hfp.lt) .frameSub
    simp only [resolve, Address.base?_make, hoffset, hfp.offset, if_pos hn, Memory.region]
    exact ⟨trivial, hle⟩
  unfold load read
  rw [hlocate]
  simp only [Memory.region]
  rw [hread]

end Memory

namespace MemoryOp

open Memory

variable {m m₁ m' : Memory} {xs ys bytes : List UInt8}

/-- Bytes have been pushed. Where the stack pointer behind them is an address, they lie from the old
one up to it. -/
structure Pushes (bytes : List UInt8) (m m' : Memory) : Prop where
  size : m.stack.size ≤ m'.stack.size
  frame : m'.register .fp = m.register .fp
  placed : ∀ top, m.StackAt .sp top → top + bytes.length < 2 ^ 61 →
    m'.StackAt .sp (top + bytes.length) ∧ m'.stack.Holds top bytes ∧
      ∀ i : Nat, i < top → i < m.stack.size → m'.stack[i]? = m.stack[i]?

variable {n top : Nat}

theorem registers_of_reserve (h : reserve n m = .ok () m') : m'.registers = m.registers := by
  unfold reserve at h
  split at h
  · cases h
    rfl
  · split at h
    · cases h
    · cases h
      rfl

theorem register_of_reserve (h : reserve n m = .ok () m') (r : Register) :
    m'.register r = m.register r := by
  unfold Memory.register
  rw [registers_of_reserve h]

theorem pushes_push (h : push bytes m = .ok () m') : Pushes bytes m m' := by
  obtain ⟨-, -, hdisturbs⟩ := push_eq_ok h
  unfold push at h
  obtain ⟨_, _, hget, h⟩ := bind_eq_ok.mp h
  cases hget
  obtain ⟨_, m₁, hreserve, h⟩ := bind_eq_ok.mp h
  obtain ⟨hroom, -⟩ := reserve_eq_ok hreserve
  rw [modify_eq_ok] at h
  subst h
  refine ⟨hdisturbs.size, ?_, fun top htop hfits => ?_⟩
  · change (Memory.setRegister _ .sp _).register .fp = _
    rw [register_setRegister_of_ne _ _ (by decide)]
    exact register_of_reserve hreserve .fp
  · rw [htop.offset] at hroom hdisturbs ⊢
    refine ⟨stackAt_setStackOffset _ _ hfits, ?_, hdisturbs.stack⟩
    exact Buffer.holds_write hroom

theorem Pushes.trans (h : Pushes xs m m₁) (h' : Pushes ys m₁ m') : Pushes (xs ++ ys) m m' := by
  refine ⟨Nat.le_trans h.size h'.size, h'.frame.trans h.frame, fun top htop hfits => ?_⟩
  rw [List.length_append, ← Nat.add_assoc] at hfits ⊢
  obtain ⟨hsp, hheld, hbelow⟩ := h.placed top htop (by omega)
  obtain ⟨hsp', hheld', hbelow'⟩ := h'.placed _ hsp hfits
  have hroom := hheld.1
  refine ⟨hsp',
    Buffer.holds_append.mpr ⟨?_, hheld'⟩, fun i hi hlt => ?_⟩
  · exact hheld.of_getElem?_eq (Nat.le_trans hroom h'.size) fun i hi => hbelow' i hi (by omega)
  · have hsize := h.size
    rw [hbelow' i (by omega) (by omega), hbelow i hi hlt]

/-- Setting another register than the two of the stack goes unnoticed. -/
theorem Pushes.setRegister (h : Pushes bytes m m') {r : Register} (hsp : r ≠ .sp) (hfp : r ≠ .fp)
    (c : Cell) : Pushes bytes m (m'.setRegister r c) := by
  have hstack := stack_setRegister m' r c
  refine ⟨by rw [hstack]; exact h.size,
    (register_setRegister_of_ne m' c hfp.symm).trans h.frame, fun top htop hfits => ?_⟩
  rw [hstack]
  obtain ⟨hsp', hheld, hbelow⟩ := h.placed top htop hfits
  exact ⟨hsp'.of_register_eq (register_setRegister_of_ne m' c hsp.symm), hheld, hbelow⟩

/-- A frame starts behind the frame pointer that is saved. -/
theorem pushFrame_eq_ok (h : pushFrame m = .ok () m') :
    ∃ m₁, push ((m.register .fp).bytes .addr) m = .ok () m₁ ∧
      m' = m₁.setRegister .fp (m₁.register .sp) := by
  obtain ⟨_, _, hget, h⟩ := bind_eq_ok.mp h
  cases hget
  obtain ⟨_, m₁, hpush, h⟩ := bind_eq_ok.mp h
  exact ⟨m₁, hpush, modify_eq_ok.mp h⟩

/-- Bytes that lie right below the stack pointer are popped. -/
theorem pop_of_holds (hsp : m.StackAt .sp (top + bytes.length)) (hheld : m.stack.Holds top bytes) :
    pop bytes.length m = .ok bytes (m.setStackOffset .sp top) := by
  have hread := hheld.2
  change (if bytes.length ≤ m.stackOffset .sp ∧ m.stackOffset .sp ≤ m.stack.size then _ else _ :
    MemoryOp (List UInt8)) m = _
  rw [hsp.offset, if_pos ⟨by omega, hheld.1⟩, Nat.add_sub_cancel, hread]
  rfl

theorem popCell_of_holds {c : Cell} {dt : Datatype} (hfits : c.Fits dt)
    (hsp : m.StackAt .sp (top + dt.size)) (hheld : m.stack.Holds top (c.bytes dt)) :
    popCell dt m = .ok c (m.setStackOffset .sp top) := by
  have hpop : pop dt.size m = .ok (c.bytes dt) (m.setStackOffset .sp top) := by
    have hlen : (c.bytes dt).length = dt.size := c.length_bytes dt
    rw [← hlen]
    exact pop_of_holds (by rwa [hlen]) hheld
  refine bind_eq_ok.mpr ⟨_, _, hpop, ?_⟩
  rw [Cell.ofBytes_bytes hfits]
  rfl

theorem stackSub_of_stackAt (hsp : m.StackAt .sp (top + n)) :
    stackSub n m = .ok () (m.setStackOffset .sp top) := by
  change (if n ≤ m.stackOffset .sp then _ else _ : MemoryOp Unit) m = _
  rw [hsp.offset, if_pos (Nat.le_add_left n top), Nat.add_sub_cancel]
  rfl

end MemoryOp

end CellMachine
