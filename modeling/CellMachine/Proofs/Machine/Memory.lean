import CellMachine.Machine.Memory
import CellMachine.Proofs.Action
import CellMachine.Proofs.Address
import CellMachine.Proofs.Instruction.RoundTrip

/-!
# What actions on the memory change

Registers do not overlap, so that setting one leaves the others. `Memory.Disturbs top m m'` says
that between two memories only the three pointers and the stack from `top` on differ, and that the
stack has not shrunk : whoever keeps the pointers can go back. Pops disturb nothing but pointers,
and pushes nothing below where they start (`push_eq_ok`). A block that is reserved is in nobody's
way, so that what could be written before still can (`locateWritable_extend`).
-/

namespace CellMachine

namespace Memory

/-! ## Registers -/

theorem register_setRegister (m : Memory) (r q : Register) (c : Cell) :
    (m.setRegister r c).register q =
      .ofBytes
        (Buffer.read (Buffer.write m.registers.toArray r.offset c.raw) q.offset Cell.size) := by
  simp only [register, setRegister, writeRegisters]

theorem register_setRegister_self (m : Memory) (r : Register) (c : Cell) :
    (m.setRegister r c).register r = c := by
  have hin : r.offset + (c.bytes .u64).length ≤ m.registers.toArray.size := by
    rw [Cell.length_bytes, Vector.size_toArray]
    exact r.offset_add_size_le
  obtain ⟨-, hread⟩ := Buffer.holds_write hin
  rw [Cell.length_bytes] at hread
  rw [register_setRegister]
  exact (congrArg Cell.ofBytes hread).trans (Cell.ofBytes_bytes (Cell.fits_of_size_eq rfl))

variable {len offset start : Nat} {m : Memory} {r : Register} {h : Heap} {a : Address}

theorem register_setRegister_of_ne (m : Memory) {q : Register} (c : Cell) (h : q ≠ r) :
    (m.setRegister r c).register q = m.register q := by
  have hlen : c.raw.length = Cell.size := Cell.length_bytes c .u64
  have hapart : q.offset + Cell.size ≤ r.offset ∨ r.offset + c.raw.length ≤ q.offset := by
    rw [hlen]
    cases r <;> cases q <;> first | exact absurd rfl h | decide
  rw [register_setRegister, Buffer.read_write_of_apart hapart]
  rfl

theorem stackOffset_setRegister_of_ne (m : Memory) {q : Register} (c : Cell) (h : q ≠ r) :
    (m.setRegister r c).stackOffset q = m.stackOffset q := by
  unfold stackOffset pointer
  rw [register_setRegister_of_ne m c h]

theorem stackOffset_lt (m : Memory) (r : Register) : m.stackOffset r < 2 ^ 61 :=
  (m.pointer r).toNat_offset_lt

/-- An offset of the stack that does not fit an address wraps around. -/
theorem stackOffset_setStackOffset (m : Memory) (r : Register) (n : Nat) :
    (m.setStackOffset r n).stackOffset r = n % 2 ^ 61 := by
  unfold stackOffset pointer setStackOffset setPointer
  rw [register_setRegister_self]
  change (Address.make .stack (UInt64.ofNat n)).offset.toNat = n % 2 ^ 61
  rw [Address.offset_make, Address.toNat_offsetMask_and, UInt64.toNat_ofNat']
  exact Nat.mod_mod_of_dvd n (by decide)

/-! ## What can be undone -/

/-- The registers that a fault puts back. -/
def pointers : List Register := [.cp, .sp, .fp]

/-- Only the pointers and the stack from `top` on differ, and the stack has not shrunk. -/
structure Disturbs (top : Nat) (m m' : Memory) : Prop where
  registers : ∀ r, r ∉ pointers → m'.register r = m.register r
  statics : m'.statics = m.statics
  code : m'.code = m.code
  heap : m'.heap = m.heap
  size : m.stack.size ≤ m'.stack.size
  stack : ∀ i : Nat, i < top → i < m.stack.size → m'.stack[i]? = m.stack[i]?

variable {top : Nat}

theorem Disturbs.refl (m : Memory) : Disturbs top m m :=
  ⟨fun _ _ => rfl, rfl, rfl, rfl, Nat.le_refl _, fun _ _ _ => rfl⟩

instance : Std.Refl (Disturbs top) := ⟨Disturbs.refl⟩

theorem Disturbs.trans {m₁ m' : Memory} (h : Disturbs top m m₁) (h' : Disturbs top m₁ m') :
    Disturbs top m m' where
  registers r hr := (h'.registers r hr).trans (h.registers r hr)
  statics := h'.statics.trans h.statics
  code := h'.code.trans h.code
  heap := h'.heap.trans h.heap
  size := Nat.le_trans h.size h'.size
  stack i hi hlt := (h'.stack i hi (Nat.lt_of_lt_of_le hlt h.size)).trans (h.stack i hi hlt)

theorem Disturbs.mono {n : Nat} {m' : Memory} (hn : top ≤ n) (h : Disturbs n m m') :
    Disturbs top m m' :=
  ⟨h.registers, h.statics, h.code, h.heap, h.size, fun i hi => h.stack i (Nat.lt_of_lt_of_le hi hn)⟩

instance : Trans (Disturbs top) (Disturbs top) (Disturbs top) := ⟨Disturbs.trans⟩

theorem disturbs_writeRegisters (m : Memory) {bytes : List UInt8}
    (h : ∀ r, r ∉ pointers → (m.writeRegisters start bytes).register r = m.register r) :
    Disturbs top m (m.writeRegisters start bytes) :=
  ⟨h, rfl, rfl, rfl, Nat.le_refl _, fun _ _ _ => rfl⟩

theorem disturbs_setRegister (m : Memory) (h : r ∈ pointers) (c : Cell) :
    Disturbs top m (m.setRegister r c) :=
  disturbs_writeRegisters m fun _ hq => register_setRegister_of_ne m c fun hqr => hq (hqr ▸ h)

theorem disturbs_setStackOffset (m : Memory) (h : r ∈ pointers) (n : Nat) :
    Disturbs top m (m.setStackOffset r n) := disturbs_setRegister m h _

/-! ## The heap -/

theorem floor?_extend (size : Nat) (hlt : offset < h.next) :
    (h.extend size).floor? offset = h.floor? offset := by
  have hnot : ¬ h.next ≤ offset := by omega
  simp [Heap.floor?, Heap.extend, hnot]

theorem block?_extend (size : Nat) (hlt : offset < h.next) :
    (h.extend size).block? offset = h.block? offset := by
  have hne : h.next ≠ offset := by omega
  simp [Heap.block?, Heap.extend, hne]

theorem add_size_le_next {b : Buffer} (hb : h.block? offset = some b) :
    offset + b.size ≤ h.next := by
  obtain ⟨x, hx, rfl⟩ := Option.map_eq_some_iff.mp hb
  have hend := h.bounded x (List.mem_of_find?_eq_some hx)
  have hoffset : x.1 = offset := by simpa using List.find?_some hx
  unfold blockEnd at hend
  omega

theorem locate_eq_ok {r : Region} :
    m.locate a len = .ok (r, start) ↔
      m.resolve a len = .ok (r, start) ∧ start + len ≤ (m.region r).size := by
  unfold locate
  cases m.resolve a len with
  | error f => simp
  | ok place =>
    obtain ⟨q, n⟩ := place
    by_cases hle : n + len ≤ (m.region q).size
    · simp only [if_pos hle]
      constructor
      · intro h
        cases h
        exact ⟨rfl, hle⟩
      · exact fun h => h.1
    · simp only [if_neg hle]
      constructor
      · nofun
      · rintro ⟨h, hle'⟩
        cases h
        exact absurd hle' hle

/-- A new block is above everything there was. -/
theorem locate_extend {r : Region} (size : Nat) (hlen : 0 < len)
    (h : m.locate a len = .ok (r, start)) :
    { m with heap := m.heap.extend size }.locate a len = .ok (r, start) := by
  rw [locate_eq_ok] at h ⊢
  obtain ⟨hresolve, hle⟩ := h
  unfold resolve at hresolve ⊢
  cases hbase : a.base? with
  | none => simp [hbase] at hresolve
  | some b =>
    rw [hbase] at hresolve
    cases b with
    | heap =>
      simp only at hresolve ⊢
      cases hfloor : m.heap.floor? a.offset.toNat with
      | none => simp [hfloor] at hresolve
      | some x =>
        rw [hfloor] at hresolve
        cases hresolve
        have hfound : x.1 ≤ a.offset.toNat := by simpa using List.find?_some hfloor
        cases hblock : m.heap.block? x.1 with
        | none => simp [region, hblock] at hle; omega
        | some b =>
          simp only [region, hblock, Option.getD_some] at hle
          -- The bytes are inside a block, and every block ends at or below the next free offset.
          have hnext := add_size_le_next hblock
          rw [floor?_extend size (by omega), hfloor]
          refine ⟨rfl, ?_⟩
          simpa only [region, block?_extend size (show x.1 < m.heap.next by omega), hblock]
    | register | stack | frameAdd => cases hresolve; exact ⟨rfl, hle⟩
    | frameSub | static | code =>
      simp only at hresolve ⊢
      split at hresolve
      · cases hresolve; exact ⟨if_pos ‹_›, hle⟩
      · cases hresolve

theorem locateWritable_extend {p : Region × Nat} (size : Nat) (hlen : 0 < len)
    (h : m.locateWritable a len = .ok p) :
    { m with heap := m.heap.extend size }.locateWritable a len = .ok p := by
  unfold locateWritable at h ⊢
  cases hlocate : m.locate a len with
  | error f => simp [hlocate] at h
  | ok q =>
    obtain ⟨r, start⟩ := q
    rw [hlocate] at h
    rw [locate_extend size hlen hlocate]
    exact h

end Memory

namespace MemoryOp

open Memory

variable {top : Nat} {m m' : Memory} {e : Fault} {bytes : List UInt8}

theorem relates_query {α : Type} {R : Memory → Memory → Prop} [Std.Refl R]
    (f : Memory → Except Fault α) : Relates R (query f) := by
  intro m
  unfold query
  cases f m <;> exact Std.Refl.refl m

theorem failsWith_write (a : Address) (bytes : List UInt8) : FailsWith Eq (write a bytes) := by
  intro m e m' h
  unfold write at h
  cases hlocate : m.locateWritable a bytes.length with
  | ok place => simp [hlocate] at h
  | error f =>
    simp only [hlocate] at h
    cases h
    rfl

theorem reserve_eq_ok {n : Nat} (h : reserve n m = .ok () m') :
    n ≤ m'.stack.size ∧ ∀ top, Disturbs top m m' := by
  unfold reserve at h
  split at h
  · next hle =>
    cases h
    exact ⟨hle, fun _ => .refl m⟩
  · split at h
    · cases h
    · next hlt hmax =>
      cases h
      refine ⟨?_, fun top => ⟨fun _ _ => rfl, rfl, rfl, rfl, ?_, fun i _ hi => ?_⟩⟩
      · simp [Buffer.zeros]
        omega
      · simp
      · exact Array.getElem?_append_left hi

theorem reserve_eq_error {n : Nat} (h : reserve n m = .error e m') : m' = m ∧ m.stack.size < n := by
  unfold reserve at h
  split at h
  · cases h
  · split at h
    · cases h
      exact ⟨rfl, by omega⟩
    · cases h

theorem disturbs_put_stack (m : Memory) (start : Nat) (bytes : List UInt8) :
    Disturbs start m (m.put .stack start bytes) := by
  refine ⟨fun _ _ => rfl, rfl, rfl, rfl, ?_, fun i hi _ => ?_⟩
  · simp [put]
  · exact Buffer.getElem?_write_of_outside _ _ _ _ (Or.inl hi)

/-- A push disturbs nothing below where it starts. -/
theorem push_eq_ok (h : push bytes m = .ok () m') :
    m.stackOffset .sp + bytes.length ≤ m'.stack.size ∧
      m'.stackOffset .sp = (m.stackOffset .sp + bytes.length) % 2 ^ 61 ∧
      Disturbs (m.stackOffset .sp) m m' := by
  unfold push at h
  obtain ⟨_, _, hget, h⟩ := bind_eq_ok.mp h
  cases hget
  obtain ⟨_, m₁, hreserve, h⟩ := bind_eq_ok.mp h
  obtain ⟨hle, hgrown⟩ := reserve_eq_ok hreserve
  rw [modify_eq_ok] at h
  have hput := disturbs_put_stack m₁ (m.stackOffset .sp) bytes
  generalize m₁.put .stack (m.stackOffset .sp) bytes = m₂ at h hput
  have hset : Disturbs (m.stackOffset .sp) m₂ m' :=
    h ▸ disturbs_setStackOffset m₂ (by decide) _
  refine ⟨Nat.le_trans hle (Nat.le_trans hput.size hset.size), ?_,
    ((hgrown _).trans hput).trans hset⟩
  rw [h]
  exact stackOffset_setStackOffset _ _ _

theorem push_eq_error (h : push bytes m = .error e m') :
    m' = m ∧ m.stack.size < m.stackOffset .sp + bytes.length := by
  unfold push at h
  rcases bind_eq_error.mp h with h | ⟨_, _, hget, h⟩
  · cases h
  · cases hget
    rcases bind_eq_error.mp h with h | ⟨_, _, -, h⟩
    · exact reserve_eq_error h
    · cases h

theorem failsWith_pushCell (c : Cell) (dt : Datatype) : FailsWith Eq (pushCell c dt) :=
  fun _ _ _ h => (push_eq_error h).1.symm

theorem failsWith_stackAdd (n : Nat) : FailsWith Eq (stackAdd n) :=
  .bind .get fun _ => .bind_total (fun _ _ _ h => (reserve_eq_error h).1.symm) fun _ _ _ _ => nofun

theorem failsWith_pushFrame : FailsWith Eq pushFrame :=
  .bind .get fun _ => .bind_total (failsWith_pushCell _ _) fun _ _ _ _ => nofun

theorem relates_pop (len : Nat) : Relates (Disturbs top) (pop len) := by
  refine Relates.get_bind fun m => ?_
  dsimp only
  split
  · exact disturbs_setStackOffset m (by decide) _
  · exact .refl m

theorem relates_popCell (dt : Datatype) : Relates (Disturbs top) (popCell dt) :=
  .bind (relates_pop dt.size) fun _ => .pure _

theorem relates_stackSub (n : Nat) : Relates (Disturbs top) (stackSub n) := by
  refine Relates.get_bind fun m => ?_
  by_cases hn : n ≤ m.stackOffset .sp
  · rw [if_pos hn]
    exact disturbs_setStackOffset m (by decide) _
  · rw [if_neg hn]
    exact .refl m

theorem relates_popFrame : Relates (Disturbs top) popFrame :=
  .bind (.modify fun m => disturbs_setRegister m (by decide) _) fun _ =>
    .bind (relates_popCell .addr) fun _ => .modify fun m => disturbs_setRegister m (by decide) _

theorem failsWith_alloc (size : Nat) : FailsWith Eq (alloc size) := by
  intro m e m' h
  unfold alloc at h
  split at h <;> cases h
  rfl

/-- A place that can be written can still be written once a block has been reserved. -/
theorem store_ne_error_of_alloc {a b : Address} {size : Nat} {dt : Datatype} {c : Cell}
    {m₁ : Memory} (hdt : 0 < dt.size) (hcheck : m.checkWritable a dt.size = .ok ())
    (halloc : alloc size m = .ok b m₁) : store a dt c m₁ ≠ .error e m' := by
  unfold Memory.checkWritable at hcheck
  unfold alloc Heap.alloc? at halloc
  split at halloc
  · next offset heap hheap =>
    split at hheap
    · cases hheap
      cases halloc
      cases hlocate : m.locateWritable a dt.size with
      | error f => simp [hlocate] at hcheck
      | ok p =>
        intro h
        unfold store write at h
        rw [Cell.length_bytes, locateWritable_extend size hdt hlocate] at h
        cases h
    · cases hheap
  · cases halloc

theorem failsWith_free (a : Address) : FailsWith Eq (free a) := by
  intro m e m' h
  unfold free at h
  split at h <;> cases h
  rfl

end MemoryOp

end CellMachine
