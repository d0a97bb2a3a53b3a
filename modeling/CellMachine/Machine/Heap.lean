import CellMachine.Bytes

/-!
# The heap

Blocks of zeroed bytes at ascending offsets. An offset is never given out twice, also not after
its block has been freed, and a block without bytes still has an offset of its own. A heap
carries the proof that its blocks lie apart from one another and below the next one.
-/

namespace CellMachine

/-- The offset behind a block, which takes up at least one. -/
def blockEnd (b : Nat × Buffer) : Nat := b.1 + max b.2.size 1

/-- The live blocks of the heap. -/
structure Heap where
  /-- The offset and the bytes of each block, the highest offset first. -/
  blocks : List (Nat × Buffer)
  /-- Where the next block goes. -/
  next : Nat
  descending : blocks.Pairwise fun a b => blockEnd b ≤ a.1
  bounded : ∀ b ∈ blocks, blockEnd b ≤ next
  deriving DecidableEq

namespace Heap

/-- The heap without blocks. -/
def empty : Heap := ⟨[], 0, List.Pairwise.nil, by simp⟩

instance : Inhabited Heap := ⟨empty⟩

/-- The largest block. -/
def maxBlock : Nat := UInt32.size

/-- The end of the heap. -/
def limit : Nat := Nat.pow 2 56

/-- The block with the greatest offset that is not above a given one. -/
def floor? (h : Heap) (offset : Nat) : Option (Nat × Buffer) := h.blocks.find? (·.1 ≤ offset)

/-- The block at exactly an offset. -/
def block? (h : Heap) (offset : Nat) : Option Buffer :=
  (h.blocks.find? (·.1 == offset)).map (·.2)

/-- The heap with a block of zeros at its end. -/
def extend (h : Heap) (size : Nat) : Heap where
  blocks := (h.next, Buffer.zeros size) :: h.blocks
  next := h.next + max size 1
  descending := List.pairwise_cons.mpr ⟨h.bounded, h.descending⟩
  bounded b hb := by
    rcases List.mem_cons.mp hb with rfl | hb
    · simp [blockEnd, Buffer.zeros]
    · exact Nat.le_trans (h.bounded b hb) (Nat.le_add_right _ _)

/-- Reserves a block. Gives its offset. -/
def alloc? (h : Heap) (size : Nat) : Option (Nat × Heap) :=
  if size ≤ maxBlock ∧ h.next + max size 1 ≤ limit then some (h.next, h.extend size) else none

/-- The heap without the block at exactly an offset. -/
def erase (h : Heap) (offset : Nat) : Heap where
  blocks := h.blocks.filter (·.1 != offset)
  next := h.next
  descending := h.descending.filter _
  bounded b hb := h.bounded b (List.mem_filter.mp hb).1

/-- Removes the block at exactly an offset. -/
def free? (h : Heap) (offset : Nat) : Option Heap :=
  if h.blocks.any (·.1 == offset) then some (h.erase offset) else none

/-- Overwrites bytes of a block if it is at exactly an offset. -/
def writeBlock (offset start : Nat) (bytes : List UInt8) (b : Nat × Buffer) : Nat × Buffer :=
  if b.1 == offset then (b.1, Buffer.write b.2 start bytes) else b

@[simp]
theorem fst_writeBlock (offset start : Nat) (bytes : List UInt8) (b : Nat × Buffer) :
    (writeBlock offset start bytes b).1 = b.1 := by
  unfold writeBlock
  split <;> rfl

@[simp]
theorem blockEnd_writeBlock (offset start : Nat) (bytes : List UInt8) (b : Nat × Buffer) :
    blockEnd (writeBlock offset start bytes b) = blockEnd b := by
  unfold writeBlock
  split <;> simp [blockEnd]

/-- Overwrites bytes of the block at exactly an offset. -/
def write (h : Heap) (offset start : Nat) (bytes : List UInt8) : Heap where
  blocks := h.blocks.map (writeBlock offset start bytes)
  next := h.next
  descending := by
    rw [List.pairwise_map]
    exact h.descending.imp fun hab => by simpa using hab
  bounded b hb := by
    obtain ⟨a, ha, rfl⟩ := List.mem_map.mp hb
    simpa using h.bounded a ha

end Heap

end CellMachine
