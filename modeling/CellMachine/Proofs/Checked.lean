import CellMachine.Cell
import CellMachine.Proofs.Buffer
import CellMachine.Proofs.Simulation

/-!
# Checked accesses

The library never leaves a buffer or the range of a word because its operations are total : a read
past the end gives fewer bytes, and a difference below zero is zero. A `Checked` action asks
instead. It ends in `Stop.crash` where a range does not lie in its buffer, where an index has no
element and where the result of an addition or a subtraction is no word of 64 bits. To show that
nothing of this happens is to show that a checked action does what the unchecked one does.
-/

namespace CellMachine

/-- Why a checked action ends. -/
inductive Stop (ε : Type) where
  /-- It fails like the unchecked action. -/
  | failed (e : ε)
  /-- Something is out of range. -/
  | crash
  deriving DecidableEq

/-- An action that checks its accesses. -/
abbrev Checked (ε σ : Type) := EStateM (Stop ε) σ

namespace Checked

variable {ε σ α : Type}

def crash : Checked ε σ α := throw .crash

def raise (e : ε) : Checked ε σ α := throw (.failed e)

/-- An action that has nothing to check. -/
def ofAction (x : EStateM ε σ α) : Checked ε σ α := fun s =>
  match x s with
  | .ok a s => .ok a s
  | .error e s => .error (.failed e) s

/-- Goes on if something holds. -/
def require (p : Prop) [Decidable p] : Checked ε σ Unit := if p then pure () else crash

/-- A sum of words. -/
def add (x y : Nat) : Checked ε σ Nat := do
  require (x + y < UInt64.size)
  return x + y

/-- A difference of words. -/
def sub (x y : Nat) : Checked ε σ Nat := do
  require (y ≤ x)
  return x - y

/-- An element of a list. -/
def item (xs : List α) (i : Nat) : Checked ε σ α :=
  match xs[i]? with
  | some x => pure x
  | none => crash

/-- The bytes from `start` up to `stop`. -/
def slice (b : Buffer) (start stop : Nat) : Checked ε σ (List UInt8) := do
  require (start ≤ stop ∧ stop ≤ b.size)
  return b.read start (stop - start)

/-- Checks that as many bytes as there are can be copied to the range from `start` up to `stop`. -/
def room (b : Buffer) (start stop : Nat) (bytes : List UInt8) : Checked ε σ Unit := do
  require (start ≤ stop ∧ stop ≤ b.size)
  require (bytes.length = stop - start)

/-- The cell whose low bytes are given. -/
def cell (bytes : List UInt8) : Checked ε σ Cell := do
  return .ofBytes (← slice bytes.toArray 0 (min bytes.length Cell.size))

/-- The low bytes of a cell, as many as a datatype has. -/
def bytes (c : Cell) (dt : Datatype) : Checked ε σ (List UInt8) := slice c.raw.toArray 0 dt.size

theorem require_eq {p : Prop} [Decidable p] (h : p) : (require p : Checked ε σ Unit) = pure () :=
  if_pos h

theorem add_eq {x y : Nat} (h : x + y < UInt64.size) :
    (add x y : Checked ε σ Nat) = pure (x + y) := by
  unfold add
  rw [require_eq h, pure_bind]

theorem sub_eq {x y : Nat} (h : y ≤ x) : (sub x y : Checked ε σ Nat) = pure (x - y) := by
  unfold sub
  rw [require_eq h, pure_bind]

theorem item_eq {xs : List α} {i : Nat} {x : α} (h : xs[i]? = some x) :
    (item xs i : Checked ε σ α) = pure x := by
  unfold item
  rw [h]

theorem slice_eq {b : Buffer} {start len : Nat} (h : start + len ≤ b.size) :
    (slice b start (start + len) : Checked ε σ (List UInt8)) = pure (b.read start len) := by
  unfold slice
  rw [require_eq ⟨by omega, h⟩, pure_bind, Nat.add_sub_cancel_left]

theorem room_eq {b : Buffer} {start : Nat} {bytes : List UInt8}
    (h : start + bytes.length ≤ b.size) :
    (room b start (start + bytes.length) bytes : Checked ε σ Unit) = pure () := by
  unfold room
  rw [require_eq ⟨by omega, h⟩, pure_bind, require_eq (by omega)]

theorem cell_eq (bytes : List UInt8) : (cell bytes : Checked ε σ Cell) = pure (.ofBytes bytes) := by
  have hslice : (slice bytes.toArray 0 (0 + min bytes.length Cell.size) : Checked ε σ _) = _ :=
    slice_eq (by rw [List.size_toArray]; omega)
  have htake : (bytes.take (min bytes.length Cell.size)).take Cell.size =
      bytes.take Cell.size := by
    rw [List.take_take, Nat.min_comm bytes.length, ← Nat.min_assoc, Nat.min_self,
      ← List.take_take, List.take_length]
  rw [Nat.zero_add] at hslice
  unfold cell
  rw [hslice, pure_bind, Buffer.read_eq_take_drop, List.drop_zero, Cell.ofBytes, htake,
    Cell.ofBytes]

theorem take_littleEndian {n k : Nat} (h : k ≤ n) (x : Nat) :
    (littleEndian n x).take k = littleEndian k x := by
  induction n generalizing k x with
  | zero => rw [Nat.le_zero.mp h]; rfl
  | succ n ih =>
    cases k with
    | zero => rfl
    | succ k => rw [littleEndian, List.take_succ_cons, ih (by omega), littleEndian]

theorem bytes_eq (c : Cell) (dt : Datatype) :
    (bytes c dt : Checked ε σ (List UInt8)) = pure (c.bytes dt) := by
  have hsize : dt.size ≤ Cell.size := dt.size_le
  have hslice : (slice c.raw.toArray 0 (0 + dt.size) : Checked ε σ _) = _ :=
    slice_eq (by simpa [Cell.raw] using hsize)
  rw [Nat.zero_add] at hslice
  unfold bytes
  rw [hslice, Buffer.read_eq_take_drop, List.drop_zero, Cell.raw, take_littleEndian hsize,
    Cell.bytes]

end Checked

end CellMachine
