import CellMachine.Proofs.Machine.Heap

/-!
# Reads and writes

An address covers bytes of one region (`Memory.Covers`), and two accesses overlap where they cover
the same byte. A write puts its bytes into the buffer of one region and leaves every other buffer
(`Memory.region_put`); no buffer changes its size. So addresses lead where they did, except that
those relative to the frame follow the frame pointer, which is itself in the register file
(`Memory.resolve_put`). It follows that a write is read back, and that a read which does not overlap
it sees what it saw before (`Memory.written_put`). `MemoryOp.write_spec` says so of every write.
-/

namespace CellMachine

theorem Heap.floor?_write (h : Heap) (base start : Nat) (bytes : List UInt8) (offset : Nat) :
    (h.write base start bytes).floor? offset =
      (h.floor? offset).map (writeBlock base start bytes) := by
  unfold floor? write
  rw [List.find?_map]
  congr 2
  funext b
  simp

/-- Whether an address counts from the frame pointer. -/
def Address.isFrameRelative (a : Address) : Bool :=
  a.base? == some .frameAdd || a.base? == some .frameSub

namespace Memory

variable {m m' : Memory} {a b : Address} {len start i : Nat} {r : Region} {bytes : List UInt8}

/-! ## The bytes of an access -/

/-- Byte `i` of a region is one of the `len` bytes at an address. -/
def Covers (m : Memory) (a : Address) (len : Nat) (r : Region) (i : Nat) : Prop :=
  ∃ start, m.resolve a len = .ok (r, start) ∧ start ≤ i ∧ i < start + len

/-- Some byte is at both of two addresses. -/
def Overlaps (m : Memory) (a : Address) (len : Nat) (b : Address) (k : Nat) : Prop :=
  ∃ r i, m.Covers a len r i ∧ m.Covers b k r i

/-- Some byte at an address is a byte of a register. -/
def Meets (m : Memory) (a : Address) (len : Nat) (q : Register) : Prop :=
  ∃ i, m.Covers a len .registers i ∧ q.offset ≤ i ∧ i < q.offset + Cell.size

/-! ## The buffers behind a write -/

/-- A write goes into the buffer of its region, and code is not written. -/
theorem region_put (hr : ∀ page, r ≠ .code page) (q : Region) :
    (m.put r start bytes).region q =
      if q = r then (m.region r).write start bytes else m.region q := by
  have hempty : Buffer.write #[] start bytes = #[] :=
    Array.eq_empty_of_size_eq_zero (Buffer.size_write _ _ _)
  cases r with
  | registers => cases q <;> rfl
  | stack => cases q <;> rfl
  | static page =>
    cases q with
    | static page' =>
      simp only [put, region, Array.getElem?_modify, Region.static.injEq]
      by_cases hpage : page' = page
      · subst hpage
        cases m.statics[page']? with
        | none => simp [hempty]
        | some b => simp
      · simp [hpage, Ne.symm hpage]
    | _ => rfl
  | code page => exact absurd rfl (hr page)
  | heap block =>
    cases q with
    | heap block' =>
      simp only [put, region, Heap.block?_write, Region.heap.injEq]
      by_cases hblock : block' = block
      · subst hblock
        cases m.heap.block? block' with
        | none => simp [hempty]
        | some b => simp
      · simp [hblock]
    | _ => rfl

theorem size_region_put (m : Memory) (r : Region) (start : Nat) (bytes : List UInt8) (q : Region) :
    ((m.put r start bytes).region q).size = (m.region q).size := by
  by_cases hr : ∀ page, r ≠ .code page
  · rw [region_put hr]
    split
    · next hq => rw [hq, Buffer.size_write]
    · rfl
  · simp only [ne_eq, not_forall, not_not] at hr
    obtain ⟨page, rfl⟩ := hr
    rfl

/-- The frame pointer stays if no byte of it is written. -/
theorem stackOffset_put (hfp : r = .registers → ∀ i, Register.fp.offset ≤ i →
      i < Register.fp.offset + Cell.size → i < start ∨ start + bytes.length ≤ i) :
    (m.put r start bytes).stackOffset .fp = m.stackOffset .fp := by
  cases r with
  | registers =>
    simp only [put, writeRegisters, stackOffset, pointer, register]
    rw [Buffer.read_write_of_outside (hfp rfl)]
  | _ => rfl

/-- Addresses lead where they did, those relative to the frame as long as its pointer stays. -/
theorem resolve_put (r : Region) (start : Nat) (bytes : List UInt8)
    (hfp : a.isFrameRelative = true →
      (m.put r start bytes).stackOffset .fp = m.stackOffset .fp) (len : Nat) :
    (m.put r start bytes).resolve a len = m.resolve a len := by
  have hstatics : (m.put r start bytes).statics.size = m.statics.size := by
    cases r <;> simp [put, writeRegisters]
  have hcode : (m.put r start bytes).code = m.code := by cases r <;> rfl
  have hfloor (offset : Nat) : ((m.put r start bytes).heap.floor? offset).map (·.1) =
      (m.heap.floor? offset).map (·.1) := by
    cases r with
    | heap block =>
      simp only [put, Heap.floor?_write, Option.map_map]
      congr 1
      funext b
      simp
    | _ => rfl
  unfold resolve
  cases hbase : a.base? with
  | none => rfl
  | some base =>
    cases base with
    | register | stack => rfl
    | frameAdd | frameSub =>
      have hsame := hfp (by simp [Address.isFrameRelative, hbase])
      simp only [hsame]
    | static => simp only [hstatics]
    | code => simp only [hcode]
    | heap =>
      have hsame := hfloor a.offset.toNat
      cases hfound : m.heap.floor? a.offset.toNat with
      | none =>
        rw [hfound, Option.map_none, Option.map_eq_none_iff] at hsame
        simp only [hsame]
      | some p =>
        rw [hfound, Option.map_some, Option.map_eq_some_iff] at hsame
        obtain ⟨q, hq, hkey⟩ := hsame
        simp only [hq, hkey]

theorem locate_put (r : Region) (start : Nat) (bytes : List UInt8)
    (hfp : a.isFrameRelative = true →
      (m.put r start bytes).stackOffset .fp = m.stackOffset .fp) (len : Nat) :
    (m.put r start bytes).locate a len = m.locate a len := by
  unfold locate
  rw [resolve_put r start bytes hfp]
  simp only [size_region_put]

/-! ## What a write does -/

/-- The buffers have the sizes they had, and the heap the blocks it had. Code is the same. -/
structure SameShape (m m' : Memory) : Prop where
  region : ∀ r, (m'.region r).size = (m.region r).size
  statics : m'.statics.size = m.statics.size
  code : m'.code = m.code
  blocks : m'.heap.blocks.map (·.1) = m.heap.blocks.map (·.1)
  next : m'.heap.next = m.heap.next
  maxStack : m'.maxStack = m.maxStack

/-- Between two memories bytes have been written at an address, and nothing else has happened : they
are read there, and any other access that does not overlap them reads what it did, or fails as it
did. One relative to the frame may change its place where the frame pointer itself is written. -/
structure Written (a : Address) (bytes : List UInt8) (m m' : Memory) : Prop where
  shape : SameShape m m'
  here : m'.read a bytes.length = .ok bytes
  elsewhere : ∀ b len, ¬ m.Overlaps a bytes.length b len →
    (b.isFrameRelative = true → ¬ m.Meets a bytes.length .fp) → m'.read b len = m.read b len

theorem sameShape_put (m : Memory) (r : Region) (start : Nat) (bytes : List UInt8) :
    SameShape m (m.put r start bytes) where
  region := size_region_put m r start bytes
  statics := by cases r <;> simp [put, writeRegisters]
  code := by cases r <;> rfl
  blocks := by
    cases r with
    | heap block =>
      simp only [put, Heap.write, List.map_map]
      congr 1
      funext b
      simp
    | _ => rfl
  next := by cases r <;> rfl
  maxStack := by cases r <;> rfl

theorem covers_iff (h : m.resolve a len = .ok (r, start)) {q : Region} :
    m.Covers a len q i ↔ q = r ∧ start ≤ i ∧ i < start + len := by
  unfold Covers
  rw [h]
  constructor
  · rintro ⟨pos, hpos, hlower, hupper⟩
    cases hpos
    exact ⟨rfl, hlower, hupper⟩
  · rintro ⟨rfl, hlower, hupper⟩
    exact ⟨start, rfl, hlower, hupper⟩

theorem eq_stack_of_isFrameRelative (ha : a.isFrameRelative = true)
    (h : m.resolve a len = .ok (r, start)) : r = .stack := by
  unfold resolve at h
  simp only [Address.isFrameRelative, Bool.or_eq_true, beq_iff_eq] at ha
  rcases ha with ha | ha
  · rw [ha] at h
    cases h
    rfl
  · simp only [ha] at h
    split at h
    · cases h
      rfl
    · cases h

/-- A read sees what it saw if none of its bytes is written. -/
theorem read_put_of_outside (hr : ∀ page, r ≠ .code page)
    (hfp : b.isFrameRelative = true → (m.put r start bytes).stackOffset .fp = m.stackOffset .fp)
    (houtside : ∀ i, m.Covers b len r i → i < start ∨ start + bytes.length ≤ i) :
    (m.put r start bytes).read b len = m.read b len := by
  unfold read
  rw [locate_put r start bytes hfp]
  cases hlocate : m.locate b len with
  | error f => rfl
  | ok place =>
    obtain ⟨q, pos⟩ := place
    have hcovers {i : Nat} := covers_iff (i := i) (q := r) (locate_eq_ok.mp hlocate).1
    dsimp only
    rw [region_put hr]
    split
    · next hq =>
      subst hq
      rw [Buffer.read_write_of_outside fun i hlower hupper =>
        houtside i (hcovers.mpr ⟨rfl, hlower, hupper⟩)]
    · rfl

theorem written_put (h : m.locate a bytes.length = .ok (r, start)) (hr : ∀ page, r ≠ .code page) :
    Written a bytes m (m.put r start bytes) := by
  obtain ⟨hresolve, hroom⟩ := locate_eq_ok.mp h
  have hcovers {q : Region} {i : Nat} := covers_iff (q := q) (i := i) hresolve
  refine ⟨sameShape_put m r start bytes, ?_, fun b len hapart hframe => ?_⟩
  · -- An address relative to the frame leads into the stack, so the pointer is not written.
    have hfp (ha : a.isFrameRelative = true) :
        (m.put r start bytes).stackOffset .fp = m.stackOffset .fp :=
      stackOffset_put fun hregisters =>
        absurd (eq_stack_of_isFrameRelative ha hresolve) (by rw [hregisters]; decide)
    unfold read
    rw [locate_put r start bytes hfp, h]
    dsimp only
    rw [region_put hr, if_pos rfl, (Buffer.holds_write hroom).2]
  · refine read_put_of_outside hr (fun hb => stackOffset_put fun hregisters i hlower hupper => ?_)
      fun i hi => ?_
    · by_contra hinside
      exact hframe hb ⟨i, hcovers.mpr ⟨hregisters.symm, by omega⟩, hlower, hupper⟩
    · by_contra hinside
      exact hapart ⟨r, i, hcovers.mpr ⟨rfl, by omega⟩, hi⟩

theorem locateWritable_eq_ok : m.locateWritable a len = .ok (r, start) ↔
    m.locate a len = .ok (r, start) ∧ ∀ page, r ≠ .code page := by
  unfold locateWritable
  cases m.locate a len with
  | error f => simp
  | ok place =>
    obtain ⟨q, pos⟩ := place
    cases q with
    | code page =>
      refine ⟨fun h => (by cases h), fun ⟨h, hcode⟩ => ?_⟩
      cases h
      exact absurd rfl (hcode page)
    | _ =>
      refine ⟨fun h => ?_, fun h => h.1⟩
      cases h
      exact ⟨rfl, fun page hcode => (by cases hcode)⟩

end Memory

/-- Every write succeeds exactly where `checkWritable` does, and fails with its fault. A write that
fails changes nothing; one that succeeds changes the bytes at its address only. -/
theorem MemoryOp.write_spec (a : Address) (bytes : List UInt8) (m : Memory) :
    ((∃ m', write a bytes m = .ok () m') ↔ m.checkWritable a bytes.length = .ok ()) ∧
      (∀ f m', write a bytes m = .error f m' ↔
        m.checkWritable a bytes.length = .error f ∧ m' = m) ∧
      ∀ m', write a bytes m = .ok () m' → Memory.Written a bytes m m' := by
  unfold write Memory.checkWritable
  cases hlocate : m.locateWritable a bytes.length with
  | error f => grind
  | ok place =>
    obtain ⟨r, start⟩ := place
    obtain ⟨hplace, hr⟩ := Memory.locateWritable_eq_ok.mp hlocate
    refine ⟨by simp, by simp, fun m' h => ?_⟩
    cases h
    exact Memory.written_put hplace hr

end CellMachine
