import CellMachine.Proofs.Machine.Access
import CellMachine.Proofs.Machine.Requests

/-!
# The capacity of the stack

The stack grows when something is pushed that does not fit : to twice its size, or as far as needed,
but not past its limit (`Memory.capacityFor`). All four operations that push reserve room, put their
bytes where the stack pointer was and move it (`StackPush.act_of_room`), so that what is true of one
is true of all (`StackPush.Pushed`). Nothing else changes the capacity
(`MemoryRequest.relates_act`), and by induction it stays between its bounds whatever is asked of the
memory (`Memory.growthSafe_serve`).
-/

namespace CellMachine

namespace Memory

/-! ## Reserving room -/

/-- How large the stack becomes so that it has at least `size` bytes. -/
def capacityFor (m : Memory) (size : Nat) : Nat :=
  if size ≤ m.stack.size then m.stack.size else min (max size (2 * m.stack.size)) m.maxStack

/-- The memory with room for `size` bytes on the stack. -/
def reserved (m : Memory) (size : Nat) : Memory :=
  { m with stack := m.stack ++ Buffer.zeros (m.capacityFor size - m.stack.size) }

/-- So many bytes are neither on the stack nor allowed to be. -/
def Overflows (m : Memory) (size : Nat) : Prop := m.stack.size < size ∧ m.maxStack < size

variable {m : Memory} {size : Nat}

theorem reserve_of_overflows (h : m.Overflows size) :
    MemoryOp.reserve size m = .error (.stackOverflow m.maxStack) m := by
  unfold MemoryOp.reserve
  rw [if_neg (Nat.not_le.mpr h.1), if_pos h.2]

theorem reserve_of_room (h : ¬ m.Overflows size) :
    MemoryOp.reserve size m = .ok () (m.reserved size) := by
  unfold Overflows at h
  unfold MemoryOp.reserve reserved capacityFor
  by_cases hfits : size ≤ m.stack.size
  · simp [hfits, Buffer.zeros]
  · rw [if_neg hfits, if_neg (by omega), if_neg hfits]

theorem capacityFor_bounds (h : ¬ m.Overflows size) :
    size ≤ m.capacityFor size ∧ m.stack.size ≤ m.capacityFor size ∧
      (m.stack.size ≤ m.maxStack → m.capacityFor size ≤ m.maxStack) := by
  unfold Overflows at h
  unfold capacityFor
  split <;> omega

theorem size_reserved (h : ¬ m.Overflows size) :
    (m.reserved size).stack.size = m.capacityFor size := by
  have hle := (capacityFor_bounds h).2.1
  simp only [reserved, Buffer.zeros, Array.size_append, Array.size_replicate]
  omega

theorem getElem?_reserved_of_lt {i : Nat} (hi : i < m.stack.size) :
    (m.reserved size).stack[i]? = m.stack[i]? := Array.getElem?_append_left hi

/-- What is new is zero. -/
theorem getElem?_reserved_of_le {i : Nat} (hle : m.stack.size ≤ i)
    (hi : i < (m.reserved size).stack.size) : (m.reserved size).stack[i]? = some 0 := by
  simp only [reserved, Buffer.zeros, Array.size_append, Array.size_replicate] at hi
  simp only [reserved, Buffer.zeros]
  rw [Array.getElem?_append_right hle, Array.getElem?_replicate, if_pos (by omega)]

end Memory

/-! ## Pushes -/

namespace StackPush

open Memory

/-- What a push puts where the stack pointer was. -/
def content (m : Memory) : StackPush → List UInt8
  | bytes bs => bs
  | cell c dt => c.bytes dt
  | room _ => []
  | frame => (m.register .fp).bytes .addr

/-- By how much a push raises the stack pointer. -/
def size (m : Memory) : StackPush → Nat
  | room n => n
  | p => (p.content m).length

/-- The offset that a push raises the stack pointer to. -/
def top (p : StackPush) (m : Memory) : Nat := m.stackOffset .sp + p.size m

/-- The memory with room reserved, bytes put on the stack and the stack pointer raised. -/
def raised (p : StackPush) (m : Memory) : Memory :=
  ((m.reserved (p.top m)).put .stack (m.stackOffset .sp) (p.content m)).setStackOffset .sp (p.top m)

/-- The memory behind a push. A frame starts where the stack pointer has come to. -/
def behind (m : Memory) : StackPush → Memory
  | frame => (raised frame m).setRegister .fp ((raised frame m).register .sp)
  | p => p.raised m

theorem length_content_le (p : StackPush) (m : Memory) : (p.content m).length ≤ p.size m := by
  cases p with
  | room n => exact Nat.zero_le n
  | _ => exact Nat.le_refl _

/-! ## What a push does -/

theorem push_of_overflows {bs : List UInt8} {m : Memory}
    (h : m.Overflows (m.stackOffset .sp + bs.length)) :
    MemoryOp.push bs m = .error (.stackOverflow m.maxStack) m :=
  bind_eq_error.mpr (.inr ⟨m, m, rfl, bind_eq_error.mpr (.inl (reserve_of_overflows h))⟩)

theorem push_of_room {bs : List UInt8} {m : Memory}
    (h : ¬ m.Overflows (m.stackOffset .sp + bs.length)) :
    MemoryOp.push bs m = .ok () ((bytes bs).raised m) :=
  bind_of_ok (reserve_of_room h) _

/-- Without room a push fails and leaves the memory. -/
theorem act_of_overflows {p : StackPush} {m : Memory} (h : m.Overflows (p.top m)) :
    p.act m = .error (.stackOverflow m.maxStack) m := by
  cases p with
  | bytes bs => exact push_of_overflows h
  | cell c dt => exact push_of_overflows h
  | room n =>
    have hreserve := reserve_of_overflows h
    exact bind_eq_error.mpr (.inr ⟨m, m, rfl, bind_eq_error.mpr (.inl hreserve)⟩)
  | frame =>
    have hpush := push_of_overflows h
    exact bind_eq_error.mpr (.inr ⟨m, m, rfl, bind_eq_error.mpr (.inl hpush)⟩)

/-- With room a push is carried out. -/
theorem act_of_room {p : StackPush} {m : Memory} (h : ¬ m.Overflows (p.top m)) :
    p.act m = .ok () (p.behind m) := by
  cases p with
  | bytes bs => exact push_of_room h
  | cell c dt => exact push_of_room h
  | room n => exact bind_of_ok (reserve_of_room h) _
  | frame => exact bind_of_ok (push_of_room h) _

theorem act_eq_error {p : StackPush} {m m' : Memory} {f : Fault} :
    p.act m = .error f m' ↔ m.Overflows (p.top m) ∧ f = .stackOverflow m.maxStack ∧ m' = m := by
  by_cases h : m.Overflows (p.top m)
  · simp [act_of_overflows h, h, eq_comm]
  · simp [act_of_room h, h]

theorem act_eq_ok {p : StackPush} {m m' : Memory} (h : p.act m = .ok () m') :
    ¬ m.Overflows (p.top m) ∧ m' = p.behind m := by
  by_cases hover : m.Overflows (p.top m)
  · rw [act_of_overflows hover] at h
    cases h
  · rw [act_of_room hover] at h
    exact ⟨hover, (EStateM.Result.ok.inj h).2.symm⟩

/-- From one memory to the other only registers and the stack may have changed. -/
def KeepsRest (m m' : Memory) : Prop :=
  ∃ registers stack, m' = { m with registers := registers, stack := stack }

/-- Between two memories a push has been carried out. -/
structure Pushed (p : StackPush) (m m' : Memory) : Prop where
  rest : KeepsRest m m'
  registers : ∀ r, r ≠ .sp → r ≠ .fp → m'.register r = m.register r
  /-- The stack pointer is the address of the new top. -/
  pointer : m'.pointer .sp = .make .stack (UInt64.ofNat (p.top m))
  frame : m'.register .fp = if p = .frame then m'.register .sp else m.register .fp
  capacity : m'.stack.size = m.capacityFor (p.top m)
  /-- Every address below the new top can be read and written. -/
  addressable : ∀ a len, a.base? = some .stack → a.offset.toNat + len ≤ p.top m →
    m'.locateWritable a len = .ok (.stack, a.offset.toNat)
  content : m'.stack.Holds (m.stackOffset .sp) (p.content m)
  /-- What was on the stack stays, but for the range that is pushed to. -/
  kept : ∀ i : Nat, i < m.stack.size →
    i < m.stackOffset .sp ∨ m.stackOffset .sp + (p.content m).length ≤ i → m'.stack[i]? = m.stack[i]?
  /-- New capacity is zero, but for that range. -/
  zero : ∀ i : Nat, m.stack.size ≤ i → i < m'.stack.size →
    i < m.stackOffset .sp ∨ m.stackOffset .sp + (p.content m).length ≤ i → m'.stack[i]? = some 0

variable {p : StackPush} {m : Memory}

theorem stack_behind (p : StackPush) (m : Memory) : (p.behind m).stack =
    (m.reserved (p.top m)).stack.write (m.stackOffset .sp) (p.content m) := by
  have hraised : (p.raised m).stack =
      (m.reserved (p.top m)).stack.write (m.stackOffset .sp) (p.content m) :=
    stack_setRegister _ _ _
  cases p with
  | frame => exact (stack_setRegister _ _ _).trans hraised
  | _ => exact hraised

theorem register_raised {r : Register} (h : r ≠ .sp) : (p.raised m).register r = m.register r :=
  register_setRegister_of_ne _ _ h

theorem pointer_raised (p : StackPush) (m : Memory) :
    (p.raised m).pointer .sp = .make .stack (UInt64.ofNat (p.top m)) :=
  pointer_setPointer_self _ _ _

theorem register_behind {r : Register} (h : r ≠ .fp) :
    (p.behind m).register r = (p.raised m).register r := by
  cases p with
  | frame => exact register_setRegister_of_ne _ _ h
  | _ => rfl

theorem frame_behind (p : StackPush) (m : Memory) : (p.behind m).register .fp =
    if p = .frame then (p.behind m).register .sp else m.register .fp := by
  cases p with
  | frame =>
    rw [if_pos rfl, register_behind (r := .sp) (by decide)]
    exact register_setRegister_self _ _ _
  | _ => exact (register_raised (by decide)).trans (if_neg (by simp)).symm

theorem size_behind (h : ¬ m.Overflows (p.top m)) :
    (p.behind m).stack.size = m.capacityFor (p.top m) := by
  rw [stack_behind, Buffer.size_write, size_reserved h]

theorem keepsRest_setRegister {m' : Memory} (h : KeepsRest m m') (r : Register) (c : Cell) :
    KeepsRest m (m'.setRegister r c) := by
  obtain ⟨registers, stack, rfl⟩ := h
  unfold setRegister writeRegisters
  exact ⟨_, _, rfl⟩

theorem keepsRest_behind (p : StackPush) (m : Memory) : KeepsRest m (p.behind m) := by
  have hraised : KeepsRest m (p.raised m) := keepsRest_setRegister ⟨_, _, rfl⟩ _ _
  cases p with
  | frame => exact keepsRest_setRegister hraised _ _
  | _ => exact hraised

theorem pushed_behind (h : ¬ m.Overflows (p.top m)) : p.Pushed m (p.behind m) := by
  obtain ⟨hroom, -, -⟩ := capacityFor_bounds h
  have hsize := size_behind h
  refine {
    rest := keepsRest_behind p m
    registers r hsp hfp := by rw [register_behind hfp, register_raised hsp]
    pointer := ?_
    frame := frame_behind p m
    capacity := hsize
    addressable a len hbase hle := ?_
    content := ?_
    kept i hi houtside := ?_
    zero i hle hi houtside := ?_ }
  · unfold Memory.pointer
    rw [register_behind (by decide)]
    exact pointer_raised p m
  · refine locateWritable_eq_ok.mpr ⟨locate_eq_ok.mpr ⟨?_, ?_⟩, fun page hcode => by cases hcode⟩
    · simp only [resolve, hbase]
    · simp only [region]
      omega
  · rw [stack_behind]
    refine Buffer.holds_write ?_
    have hlen := p.length_content_le m
    rw [size_reserved h]
    unfold top at hroom ⊢
    omega
  · rw [stack_behind, Buffer.getElem?_write_of_outside _ _ _ _ houtside, getElem?_reserved_of_lt hi]
  · rw [stack_behind, Buffer.size_write] at hi
    rw [stack_behind, Buffer.getElem?_write_of_outside _ _ _ _ houtside,
      getElem?_reserved_of_le hle hi]

end StackPush

/-! ## All requests -/

namespace Memory

/-- The stack has not shrunk, and it has kept within its limit. -/
structure Enlarges (m m' : Memory) : Prop where
  limit : m'.maxStack = m.maxStack
  size : m.stack.size ≤ m'.stack.size
  bound : m.stack.size ≤ m.maxStack → m'.stack.size ≤ m.maxStack

variable {m m' : Memory}

theorem Enlarges.of_eq (hlimit : m'.maxStack = m.maxStack) (hsize : m'.stack.size = m.stack.size) :
    Enlarges m m' :=
  ⟨hlimit, Nat.le_of_eq hsize.symm, fun h => hsize ▸ h⟩

instance : Std.Refl Enlarges := ⟨fun _ => .of_eq rfl rfl⟩

theorem Enlarges.trans {m₁ : Memory} (h : Enlarges m m₁) (h' : Enlarges m₁ m') : Enlarges m m' where
  limit := h'.limit.trans h.limit
  size := Nat.le_trans h.size h'.size
  bound hm := h.limit ▸ h'.bound (h.limit.symm ▸ h.bound hm)

instance : Trans Enlarges Enlarges Enlarges := ⟨Enlarges.trans⟩

theorem enlarges_setRegister (m : Memory) (r : Register) (c : Cell) :
    Enlarges m (m.setRegister r c) :=
  .of_eq (by simp only [setRegister, writeRegisters]) (by rw [stack_setRegister])

theorem enlarges_put (m : Memory) (r : Region) (start : Nat) (bytes : List UInt8) :
    Enlarges m (m.put r start bytes) :=
  .of_eq (sameShape_put m r start bytes).maxStack ((sameShape_put m r start bytes).region .stack)

theorem enlarges_behind {p : StackPush} (h : ¬ m.Overflows (p.top m)) :
    Enlarges m (p.behind m) := by
  obtain ⟨-, hsize, hbound⟩ := capacityFor_bounds h
  rw [← StackPush.size_behind h] at hsize hbound
  refine ⟨?_, hsize, hbound⟩
  obtain ⟨registers, stack, hbehind⟩ := p.keepsRest_behind m
  rw [hbehind]

end Memory

namespace MemoryOp

open Memory

theorem enlarges_write (a : Address) (bytes : List UInt8) : Relates Enlarges (write a bytes) := by
  refine (failsWith_write a bytes).relates fun m _ m' h => ?_
  unfold write at h
  split at h
  · next r start _ =>
    cases h
    exact enlarges_put m r start bytes
  · cases h

theorem enlarges_push (p : StackPush) : Relates Enlarges p.act := by
  refine (MemoryRequest.failsWith_push p).relates fun m _ m' h => ?_
  obtain ⟨hroom, rfl⟩ := StackPush.act_eq_ok h
  exact enlarges_behind hroom

theorem enlarges_pop (len : Nat) : Relates Enlarges (pop len) := by
  refine (MemoryRequest.failsWith_pop len).relates fun m popped m' h => ?_
  obtain ⟨-, -, rfl⟩ := pop_eq_ok h
  exact enlarges_setRegister m .sp _

theorem enlarges_popCell (dt : Datatype) : Relates Enlarges (popCell dt) :=
  .bind (enlarges_pop dt.size) fun _ => .pure _

theorem enlarges_stackSub (n : Nat) : Relates Enlarges (stackSub n) := by
  refine FailsWith.relates (fun m e m' h => (stackSub_eq_error.mp h).2.2.symm) fun m _ m' h => ?_
  obtain ⟨-, rfl⟩ := stackSub_eq_ok h
  exact enlarges_setRegister m .sp _

theorem enlarges_popFrame : Relates Enlarges popFrame :=
  .bind (.modify fun m => enlarges_setRegister m .sp _) fun _ =>
    .bind (enlarges_popCell .addr) fun _ => .modify fun m => enlarges_setRegister m .fp _

theorem enlarges_alloc (size : Nat) : Relates Enlarges (alloc size) := by
  refine (failsWith_alloc size).relates fun m a m' h => ?_
  obtain ⟨-, rfl, -⟩ := alloc_eq_ok h
  exact .of_eq rfl rfl

theorem enlarges_free (a : Address) : Relates Enlarges (free a) := by
  refine (failsWith_free a).relates fun m _ m' h => ?_
  obtain ⟨-, -, rfl⟩ := free_eq_ok h
  exact .of_eq rfl rfl

theorem enlarges_silent {α : Type} {op : MemoryOp α} (h : Relates Enlarges op) :
    Relates Enlarges op.silent :=
  .bind h fun _ => .pure _

end MemoryOp

/-- No request makes the stack smaller, or larger than it may be. -/
theorem MemoryRequest.relates_act (r : MemoryRequest) : Relates Memory.Enlarges r.act := by
  cases r with
  | read a len => exact MemoryOp.enlarges_silent (MemoryOp.relates_query _)
  | load a dt => exact MemoryOp.enlarges_silent (MemoryOp.relates_query _)
  | readText a => exact MemoryOp.enlarges_silent (MemoryOp.relates_query _)
  | checkWritable a len => exact MemoryOp.enlarges_silent (MemoryOp.relates_query _)
  | setRegister r c => exact .modify fun m => Memory.enlarges_setRegister m r c
  | write a bytes => exact MemoryOp.enlarges_write a bytes
  | store a dt c => exact MemoryOp.enlarges_write a _
  | push p => exact MemoryOp.enlarges_push p
  | pop len => exact MemoryOp.enlarges_silent (MemoryOp.enlarges_pop len)
  | popCell dt => exact MemoryOp.enlarges_silent (MemoryOp.enlarges_popCell dt)
  | stackSub n => exact MemoryOp.enlarges_stackSub n
  | popFrame => exact MemoryOp.enlarges_popFrame
  | alloc size => exact MemoryOp.enlarges_silent (MemoryOp.enlarges_alloc size)
  | free a => exact MemoryOp.enlarges_free a

namespace Memory

/-- Serves requests one after the other, whether they succeed or fail. -/
def serve (m : Memory) (requests : List MemoryRequest) : Memory :=
  requests.foldl (fun m r => stateAfter (r.act m)) m

theorem enlarges_serve (m : Memory) (requests : List MemoryRequest) :
    Enlarges m (m.serve requests) := by
  unfold serve
  induction requests generalizing m with
  | nil => exact Std.Refl.refl m
  | cons r requests ih => exact (r.relates_act m).trans (ih _)

/-- What holds of the stack at any time. -/
structure GrowthSafe (config : Config) (m : Memory) : Prop where
  lower : min config.initialStack config.maxStack ≤ m.stack.size
  upper : m.stack.size ≤ config.maxStack
  /-- Whatever is asked next, the stack does not shrink. -/
  grows : ∀ requests, m.stack.size ≤ (m.serve requests).stack.size
  /-- A push fails exactly if its top is neither inside the stack nor allowed, and changes
  nothing. -/
  overflow : ∀ (p : StackPush) f m', p.act m = .error f m' ↔
    (m.stack.size < p.top m ∧ config.maxStack < p.top m) ∧ f = .stackOverflow config.maxStack ∧ m' = m
  pushed : ∀ (p : StackPush) m', p.act m = .ok () m' → p.Pushed m m'

theorem size_stack_initial (image : Image) (config : Config) :
    (initial image config).stack.size = min config.initialStack config.maxStack := by
  simp only [initial, setPointer, stack_setRegister, Buffer.zeros, Array.size_replicate]

/-- Stack growth is safe : whatever is asked of a fresh memory, the stack keeps between the size
that it had at the start and its limit, and a push fails for want of room or does what it should. -/
theorem growthSafe_serve (image : Image) (config : Config) (requests : List MemoryRequest) :
    GrowthSafe config ((initial image config).serve requests) := by
  have hstart := size_stack_initial image config
  have hrun := enlarges_serve (initial image config) requests
  have hlimit : ((initial image config).serve requests).maxStack = config.maxStack := hrun.limit
  -- Of the run, only what it has done to the capacity is needed.
  generalize (initial image config).serve requests = m at hrun hlimit
  exact {
    lower := hstart ▸ hrun.size
    upper := hrun.bound (hstart ▸ Nat.min_le_right _ _)
    grows := fun later => (enlarges_serve m later).size
    overflow := fun p f m' => by
      rw [StackPush.act_eq_error, Overflows, hlimit]
    pushed := fun p m' h => by
      obtain ⟨hroom, rfl⟩ := StackPush.act_eq_ok h
      exact StackPush.pushed_behind hroom }

end Memory

end CellMachine
