import CellMachine.Proofs.Machine.Memory
import Mathlib

/-!
# Heap safety

An access to the heap looks for the last live block that starts at or below its offset. That finds
the block around it if there is one, since live blocks lie apart from one another, so that an
access of at least one byte succeeds exactly where it lies inside a live block
(`Memory.locate_heap_eq_ok`).

`Memory.after` carries out calls one after the other, failing ones included, and keeps a `Ledger`
of the blocks that were given out and freed. One call keeps the ledger in order
(`Ledger.Accounts.perform`), and so does every run (`Memory.accounts_after`). Blocks that were
given out lie apart from one another whether they are live or not, so that nothing can be accessed
through the address of a freed one (`Memory.heapSafe_after`).
-/

namespace CellMachine

namespace Heap

/-! ## Blocks and their offsets -/

/-- One of two blocks ends at or below where the other starts. -/
def Apart (p q : Nat × Buffer) : Prop := blockEnd p ≤ q.1 ∨ blockEnd q ≤ p.1

instance : Std.Symm Apart := ⟨fun _ _ => Or.symm⟩

variable {h : Heap} {offset : Nat} {b : Buffer}

theorem apart_of_mem {p q : Nat × Buffer} (hp : p ∈ h.blocks) (hq : q ∈ h.blocks) (hne : p ≠ q) :
    Apart p q := by
  have hpairs : h.blocks.Pairwise Apart := h.descending.imp Or.inr
  exact hpairs.forall hp hq hne

theorem lt_blockEnd (p : Nat × Buffer) : p.1 < blockEnd p := by
  unfold blockEnd
  omega

/-- Two blocks that have an offset in common are the same. -/
theorem eq_of_overlap {p q : Nat × Buffer} (hp : p ∈ h.blocks) (hq : q ∈ h.blocks)
    (hlower : p.1 ≤ offset) (hupper : offset < blockEnd p) (hlower' : q.1 ≤ offset)
    (hupper' : offset < blockEnd q) : p = q := by
  by_contra hne
  have hapart := apart_of_mem hp hq hne
  unfold Apart at hapart
  omega

theorem block?_eq_some {base : Nat} : h.block? base = some b ↔ (base, b) ∈ h.blocks := by
  unfold block?
  rw [Option.map_eq_some_iff]
  constructor
  · rintro ⟨⟨base', b'⟩, hfind, rfl⟩
    obtain rfl : base' = base := by simpa using List.find?_some hfind
    exact List.mem_of_find?_eq_some hfind
  · intro hmem
    have hsome : (h.blocks.find? (·.1 == base)).isSome := List.find?_isSome.mpr ⟨_, hmem, by simp⟩
    obtain ⟨p, hfind⟩ := Option.isSome_iff_exists.mp hsome
    have hbase : p.1 = base := by simpa using List.find?_some hfind
    have hsame : p = (base, b) := eq_of_overlap (List.mem_of_find?_eq_some hfind) hmem
      (Nat.le_of_eq hbase) (hbase ▸ lt_blockEnd p) (Nat.le_refl base) (lt_blockEnd (base, b))
    exact ⟨p, hfind, congrArg Prod.snd hsame⟩

/-- The `len` bytes at an offset lie inside the live block `b` at `base`. -/
structure Inside (h : Heap) (offset len base : Nat) (b : Buffer) : Prop where
  live : h.block? base = some b
  lower : base ≤ offset
  upper : offset + len ≤ base + b.size

/-- The block around an offset is the last one that starts at or below it. -/
theorem floor?_of_inside {len base : Nat} (hlen : 0 < len) (hinside : h.Inside offset len base b) :
    h.floor? offset = some (base, b) := by
  have hmem := block?_eq_some.mp hinside.live
  have hlower := hinside.lower
  have hupper := hinside.upper
  obtain ⟨before, behind, hblocks⟩ := List.append_of_mem hmem
  rw [floor?, List.find?_eq_some_iff_append]
  refine ⟨by simpa using hlower, before, behind, hblocks, fun p hp => ?_⟩
  -- What stands in front of the block in the list starts behind the end of it.
  have hdescending := h.descending
  rw [hblocks, List.pairwise_append] at hdescending
  have habove : base + max b.size 1 ≤ p.1 := hdescending.2.2 p hp (base, b) (by simp)
  simp only [Bool.not_eq_true', decide_eq_false_iff_not]
  omega

theorem block?_of_floor? {base : Nat} (hfloor : h.floor? offset = some (base, b)) :
    h.block? base = some b ∧ base ≤ offset :=
  ⟨block?_eq_some.mpr (List.mem_of_find?_eq_some hfloor), by simpa using List.find?_some hfloor⟩

theorem block?_write (h : Heap) (base start : Nat) (bytes : List UInt8) (offset : Nat) :
    (h.write base start bytes).block? offset =
      if offset = base then (h.block? base).map (·.write start bytes) else h.block? offset := by
  have hkeys : ((·.1 == offset) : Nat × Buffer → Bool) ∘ writeBlock base start bytes =
      (·.1 == offset) := by
    funext b
    simp
  unfold block? write
  simp only [List.find?_map, hkeys, Option.map_map]
  cases hfind : h.blocks.find? (·.1 == offset) with
  | none =>
    split
    · next heq => simp [← heq, hfind]
    · rfl
  | some p =>
    have hoffset : p.1 = offset := by simpa using List.find?_some hfind
    split
    · next heq => simp [← heq, hfind, writeBlock, hoffset]
    · next hne => simp [writeBlock, hoffset, hne]

end Heap

/-! ## Accesses -/

namespace Memory

variable {m : Memory} {a : Address}

/-- An access of at least one byte to the heap succeeds exactly inside a live block. -/
theorem locate_heap_eq_ok {len : Nat} {p : Region × Nat} (hbase : a.base? = some .heap)
    (hlen : 0 < len) :
    m.locate a len = .ok p ↔ ∃ base b, m.heap.Inside a.offset.toNat len base b ∧
      p = (.heap base, a.offset.toNat - base) := by
  obtain ⟨region, start⟩ := p
  rw [locate_eq_ok]
  constructor
  · rintro ⟨hresolve, hle⟩
    simp only [resolve, hbase] at hresolve
    cases hfloor : m.heap.floor? a.offset.toNat with
    | none => simp [hfloor] at hresolve
    | some x =>
      obtain ⟨base, b⟩ := x
      obtain ⟨hlive, hlower⟩ := Heap.block?_of_floor? hfloor
      rw [hfloor] at hresolve
      cases hresolve
      simp only [Memory.region, hlive, Option.getD_some] at hle
      exact ⟨base, b, ⟨hlive, hlower, by omega⟩, rfl⟩
  · rintro ⟨base, b, hinside, hp⟩
    cases hp
    have hlower := hinside.lower
    have hupper := hinside.upper
    refine ⟨by simp only [resolve, hbase, Heap.floor?_of_inside hlen hinside], ?_⟩
    simp only [Memory.region, hinside.live, Option.getD_some]
    omega

theorem read_heap_eq_ok {len : Nat} {bytes : List UInt8} (hbase : a.base? = some .heap)
    (hlen : 0 < len) :
    m.read a len = .ok bytes ↔ ∃ base b, m.heap.Inside a.offset.toNat len base b ∧
      bytes = b.read (a.offset.toNat - base) len := by
  have hread : m.read a len = .ok bytes ↔
      ∃ p, m.locate a len = .ok p ∧ (m.region p.1).read p.2 len = bytes := by
    unfold read
    cases m.locate a len with
    | ok p => simp
    | error f => simp
  simp only [hread, locate_heap_eq_ok hbase hlen]
  constructor
  · rintro ⟨_, ⟨base, b, hinside, rfl⟩, rfl⟩
    exact ⟨base, b, hinside, by simp [Memory.region, hinside.live]⟩
  · rintro ⟨base, b, hinside, rfl⟩
    exact ⟨_, ⟨base, b, hinside, rfl⟩, by simp [Memory.region, hinside.live]⟩

theorem write_heap_eq_ok {m' : Memory} {bytes : List UInt8} (hbase : a.base? = some .heap)
    (hlen : 0 < bytes.length) :
    MemoryOp.write a bytes m = .ok () m' ↔
      ∃ base b, m.heap.Inside a.offset.toNat bytes.length base b ∧
        m' = { m with heap := m.heap.write base (a.offset.toNat - base) bytes } := by
  have hwrite : MemoryOp.write a bytes m = .ok () m' ↔
      ∃ base, m.locate a bytes.length = .ok (.heap base, a.offset.toNat - base) ∧
        m' = { m with heap := m.heap.write base (a.offset.toNat - base) bytes } := by
    unfold MemoryOp.write locateWritable
    cases hlocate : m.locate a bytes.length with
    | error f => simp
    | ok p =>
      obtain ⟨base, b, -, rfl⟩ := (locate_heap_eq_ok hbase hlen).mp hlocate
      simp [put, eq_comm]
  rw [hwrite]
  constructor
  · rintro ⟨base, hlocate, rfl⟩
    obtain ⟨_, b, hinside, hp⟩ := (locate_heap_eq_ok hbase hlen).mp hlocate
    cases hp
    exact ⟨base, b, hinside, rfl⟩
  · rintro ⟨base, b, hinside, rfl⟩
    exact ⟨base, (locate_heap_eq_ok hbase hlen).mpr ⟨base, b, hinside, rfl⟩, rfl⟩

end Memory

/-! ## Runs of calls -/

/-- A call on the memory. -/
inductive MemoryCall where
  | alloc (size : Nat)
  | free (a : Address)
  | read (a : Address) (len : Nat)
  | write (a : Address) (bytes : List UInt8)
  | store (a : Address) (dt : Datatype) (c : Cell)
  deriving DecidableEq, Repr

/-- What successful calls have given out and freed. -/
structure Ledger where
  /-- The base and the size of every block that was given out, in order. -/
  given : List (Nat × Nat)
  /-- The base of every block that was freed, in order. -/
  freed : List Nat
  deriving DecidableEq, Repr

namespace MemoryCall

/-- Carries out a call and enters it into a ledger. -/
def act (l : Ledger) : MemoryCall → MemoryOp Ledger
  | alloc size => do
    let a ← MemoryOp.alloc size
    return { l with given := l.given ++ [(a.offset.toNat, size)] }
  | free a => do
    MemoryOp.free a
    return { l with freed := l.freed ++ [a.offset.toNat] }
  | read a len => do
    let _ ← MemoryOp.query (·.read a len)
    return l
  | write a bytes => do
    MemoryOp.write a bytes
    return l
  | store a dt c => do
    MemoryOp.store a dt c
    return l

/-- Carries out a call. The ledger has only what succeeds. -/
def perform (r : Ledger × Memory) (c : MemoryCall) : Ledger × Memory :=
  match c.act r.1 r.2 with
  | .ok l m => (l, m)
  | .error _ m => (r.1, m)

end MemoryCall

/-- Carries out calls one after the other, whether they succeed or fail. -/
def Memory.after (m : Memory) (calls : List MemoryCall) : Ledger × Memory :=
  calls.foldl MemoryCall.perform (⟨[], []⟩, m)

/-- The offset behind a block of the ledger, which takes up at least one. -/
def Ledger.blockEnd (p : Nat × Nat) : Nat := p.1 + max p.2 1

/-- The ledger accounts for the heap : live blocks are among those that were given out, one behind
the other, and what was freed is not among them. -/
structure Ledger.Accounts (l : Ledger) (h : Heap) : Prop where
  ascending : l.given.Pairwise fun p q => blockEnd p ≤ q.1
  below : ∀ p ∈ l.given, blockEnd p ≤ h.next
  live : ∀ p ∈ h.blocks, (p.1, p.2.size) ∈ l.given
  gone : ∀ base ∈ l.freed, base < h.next ∧ ∀ p ∈ h.blocks, p.1 ≠ base
  limit : h.next ≤ Heap.limit

namespace Ledger

theorem accounts_empty : Accounts ⟨[], []⟩ Heap.empty :=
  ⟨.nil, by simp, by simp [Heap.empty], by simp, by decide⟩

variable {l : Ledger} {h : Heap}

theorem Accounts.extend {size : Nat} (hl : l.Accounts h)
    (hlimit : h.next + max size 1 ≤ Heap.limit) :
    Accounts { l with given := l.given ++ [(h.next, size)] } (h.extend size) where
  ascending := by
    refine List.pairwise_append.mpr ⟨hl.ascending, List.pairwise_singleton _ _, ?_⟩
    intro p hp q hq
    rw [List.mem_singleton.mp hq]
    exact hl.below p hp
  below p hp := by
    rcases List.mem_append.mp hp with hp | hp
    · exact Nat.le_trans (hl.below p hp) (Nat.le_add_right _ _)
    · rw [List.mem_singleton.mp hp]
      exact Nat.le_refl _
  live p hp := by
    rcases List.mem_cons.mp hp with rfl | hp
    · simp [Buffer.zeros]
    · exact List.mem_append_left _ (hl.live p hp)
  gone base hbase := by
    obtain ⟨hlt, hgone⟩ := hl.gone base hbase
    refine ⟨Nat.lt_of_lt_of_le hlt (Nat.le_add_right _ _), fun p hp => ?_⟩
    rcases List.mem_cons.mp hp with rfl | hp
    · exact (Nat.ne_of_lt hlt).symm
    · exact hgone p hp
  limit := hlimit

theorem Accounts.erase {base : Nat} (hl : l.Accounts h)
    (hlive : h.blocks.any (·.1 == base) = true) :
    Accounts { l with freed := l.freed ++ [base] } (h.erase base) where
  ascending := hl.ascending
  below := hl.below
  live p hp := hl.live p (List.mem_filter.mp hp).1
  gone base' hbase' := by
    rcases List.mem_append.mp hbase' with hbase' | hbase'
    · obtain ⟨hlt, hgone⟩ := hl.gone base' hbase'
      exact ⟨hlt, fun p hp => hgone p (List.mem_filter.mp hp).1⟩
    · rw [List.mem_singleton.mp hbase']
      obtain ⟨p, hp, hbase⟩ := List.any_eq_true.mp hlive
      have hend := h.bounded p hp
      have hstart := Heap.lt_blockEnd p
      have hbase : p.1 = base := by simpa using hbase
      exact ⟨by change base < h.next; omega, fun q hq => by simpa using (List.mem_filter.mp hq).2⟩
  limit := hl.limit

theorem Accounts.write (hl : l.Accounts h) (base start : Nat) (bytes : List UInt8) :
    l.Accounts (h.write base start bytes) where
  ascending := hl.ascending
  below := hl.below
  live p hp := by
    obtain ⟨q, hq, rfl⟩ := List.mem_map.mp hp
    have hsize : (Heap.writeBlock base start bytes q).2.size = q.2.size := by
      unfold Heap.writeBlock
      split <;> simp
    rw [Heap.fst_writeBlock, hsize]
    exact hl.live q hq
  gone base' hbase' := by
    obtain ⟨hlt, hgone⟩ := hl.gone base' hbase'
    refine ⟨hlt, fun p hp => ?_⟩
    obtain ⟨q, hq, rfl⟩ := List.mem_map.mp hp
    rw [Heap.fst_writeBlock]
    exact hgone q hq
  limit := hl.limit

end Ledger

/-! ## One call -/

variable {m m' : Memory} {a : Address}

theorem MemoryOp.alloc_eq_ok {size : Nat} (h : alloc size m = .ok a m') :
    a = .make .heap (UInt64.ofNat m.heap.next) ∧ m' = { m with heap := m.heap.extend size } ∧
      m.heap.next + max size 1 ≤ Heap.limit := by
  unfold alloc Heap.alloc? at h
  by_cases hroom : size ≤ Heap.maxBlock ∧ m.heap.next + max size 1 ≤ Heap.limit
  · rw [if_pos hroom] at h
    cases h
    exact ⟨rfl, rfl, hroom.2⟩
  · rw [if_neg hroom] at h
    cases h

theorem MemoryOp.free_eq_ok (h : free a m = .ok () m') :
    a.base? = some .heap ∧ m.heap.blocks.any (·.1 == a.offset.toNat) = true ∧
      m' = { m with heap := m.heap.erase a.offset.toNat } := by
  unfold free Heap.free? at h
  by_cases hbase : a.base? = some .heap
  · rw [if_pos hbase] at h
    by_cases hlive : m.heap.blocks.any (·.1 == a.offset.toNat) = true
    · rw [if_pos hlive] at h
      cases h
      exact ⟨hbase, hlive, rfl⟩
    · rw [if_neg hlive] at h
      cases h
  · rw [if_neg hbase] at h
    cases h

/-- A write outside of the heap leaves it as it is. -/
theorem MemoryOp.heap_of_write {bytes : List UInt8} (h : write a bytes m = .ok () m') :
    m'.heap = m.heap ∨ ∃ base start, m'.heap = m.heap.write base start bytes := by
  unfold write at h
  cases hlocate : m.locateWritable a bytes.length with
  | error f => simp [hlocate] at h
  | ok place =>
    obtain ⟨region, start⟩ := place
    simp only [hlocate] at h
    cases h
    cases region with
    | heap block => exact Or.inr ⟨block, start, rfl⟩
    | _ => exact Or.inl rfl

/-- The offset of a block is found again in its address. -/
theorem Memory.offset_make_heap {offset : Nat} (h : offset < Heap.limit) :
    (Address.make .heap (UInt64.ofNat offset)).offset.toNat = offset :=
  Address.toNat_offset_make (Nat.lt_trans h (by decide)) .heap

namespace MemoryCall

variable {m m' : Memory} {l : Ledger}

theorem eq_of_act_error {c : MemoryCall} {f : Fault} (h : c.act l m = .error f m') : m' = m := by
  have hfails : FailsWith Eq (c.act l) := by
    cases c with
    | alloc size => exact .bind_total (MemoryOp.failsWith_alloc size) fun _ _ _ _ => nofun
    | free a => exact .bind_total (MemoryOp.failsWith_free a) fun _ _ _ _ => nofun
    | read a len =>
      exact .bind_total (.of_relates (MemoryOp.relates_query _)) fun _ _ _ _ => nofun
    | write a bytes => exact .bind_total (MemoryOp.failsWith_write a bytes) fun _ _ _ _ => nofun
    | store a dt c => exact .bind_total (MemoryOp.failsWith_write a _) fun _ _ _ _ => nofun
  exact (hfails h).symm

theorem accounts_of_write {a : Address} {bytes : List UInt8} (hl : l.Accounts m.heap)
    (h : MemoryOp.write a bytes m = .ok () m') : l.Accounts m'.heap := by
  rcases MemoryOp.heap_of_write h with hheap | ⟨base, start, hheap⟩
  · rw [hheap]
    exact hl
  · rw [hheap]
    exact hl.write base start bytes

theorem accounts_of_act {c : MemoryCall} {l' : Ledger} (hl : l.Accounts m.heap)
    (h : c.act l m = .ok l' m') : l'.Accounts m'.heap := by
  cases c with
  | alloc size =>
    obtain ⟨a, m₁, halloc, h⟩ := bind_eq_ok.mp h
    cases h
    obtain ⟨rfl, rfl, hroom⟩ := MemoryOp.alloc_eq_ok halloc
    rw [Memory.offset_make_heap (by omega)]
    exact hl.extend hroom
  | free a =>
    obtain ⟨_, m₁, hfree, h⟩ := bind_eq_ok.mp h
    cases h
    obtain ⟨-, hlive, rfl⟩ := MemoryOp.free_eq_ok hfree
    exact hl.erase hlive
  | read a len =>
    obtain ⟨_, m₁, hread, h⟩ := bind_eq_ok.mp h
    cases h
    have hsame : m = m' := (MemoryOp.relates_query _).of_ok hread
    exact hsame ▸ hl
  | write a bytes =>
    obtain ⟨_, m₁, hwrite, h⟩ := bind_eq_ok.mp h
    cases h
    exact accounts_of_write hl hwrite
  | store a dt c =>
    obtain ⟨_, m₁, hwrite, h⟩ := bind_eq_ok.mp h
    cases h
    exact accounts_of_write hl hwrite

end MemoryCall

/-- A call, whether it succeeds or fails, keeps the ledger in order. -/
theorem Ledger.Accounts.perform {r : Ledger × Memory} (hr : r.1.Accounts r.2.heap)
    (c : MemoryCall) : (c.perform r).1.Accounts (c.perform r).2.heap := by
  unfold MemoryCall.perform
  cases h : c.act r.1 r.2 with
  | ok l m => exact MemoryCall.accounts_of_act hr h
  | error f m => exact MemoryCall.eq_of_act_error h ▸ hr

/-! ## All calls -/

namespace Memory

theorem accounts_after (image : Image) (config : Config) (calls : List MemoryCall) :
    ((initial image config).after calls).1.Accounts
      ((initial image config).after calls).2.heap := by
  -- The induction is on the calls, from the heap without blocks on.
  have hrun : ∀ r : Ledger × Memory, r.1.Accounts r.2.heap →
      (calls.foldl MemoryCall.perform r).1.Accounts
        (calls.foldl MemoryCall.perform r).2.heap := by
    induction calls with
    | nil => exact fun r hr => hr
    | cons c calls ih => exact fun r hr => ih _ (hr.perform c)
  exact hrun _ Ledger.accounts_empty

end Memory

/-- A block that was freed lies apart from all that are live. -/
theorem Ledger.Accounts.apart {l : Ledger} {h : Heap} (hl : l.Accounts h) {p : Nat × Nat}
    (hp : p ∈ l.given) (hfreed : p.1 ∈ l.freed) {base : Nat} {b : Buffer}
    (hlive : h.block? base = some b) :
    base + b.size ≤ p.1 ∨ blockEnd p ≤ base := by
  have hmem := Heap.block?_eq_some.mp hlive
  have hgiven : (base, b.size) ∈ l.given := hl.live _ hmem
  have hne : p ≠ (base, b.size) := by
    rintro rfl
    exact (hl.gone base hfreed).2 _ hmem rfl
  have hpairs : l.given.Pairwise fun p q => blockEnd p ≤ q.1 ∨ blockEnd q ≤ p.1 :=
    hl.ascending.imp Or.inl
  have : Std.Symm fun p q : Nat × Nat => blockEnd p ≤ q.1 ∨ blockEnd q ≤ p.1 := ⟨fun _ _ => Or.symm⟩
  rcases hpairs.forall hp hgiven hne with hbehind | hbefore
  · exact Or.inr hbehind
  · have hend : blockEnd (base, b.size) = base + max b.size 1 := rfl
    omega

namespace Memory

/-- What holds of the heap at any time, `l` being the blocks that were given out and freed. -/
structure HeapSafe (l : Ledger) (m : Memory) : Prop where
  /-- Live blocks lie apart from one another, and an empty one takes up an offset too. -/
  apart : ∀ base base' b b', m.heap.block? base = some b → m.heap.block? base' = some b' →
    base ≠ base' → base + max b.size 1 ≤ base' ∨ base' + max b'.size 1 ≤ base
  below : ∀ base b, m.heap.block? base = some b → base + max b.size 1 ≤ m.heap.next
  limit : m.heap.next ≤ 2 ^ 56
  /-- A block is given out above all that were given out before, freed or not. -/
  alloc : ∀ size a m', MemoryOp.alloc size m = .ok a m' → a.base? = some .heap ∧
    m'.heap.block? a.offset.toNat = some (Buffer.zeros size) ∧
    ∀ p ∈ l.given, p.1 < a.offset.toNat
  /-- A read succeeds exactly inside a live block, and gives those bytes of it. -/
  read : ∀ a len bytes, a.base? = some .heap → 0 < len →
    (m.read a len = .ok bytes ↔ ∃ base b, m.heap.Inside a.offset.toNat len base b ∧
      bytes = b.read (a.offset.toNat - base) len)
  write : ∀ a bytes, a.base? = some .heap → 0 < bytes.length →
    ((∃ m', MemoryOp.write a bytes m = .ok () m') ↔
      ∃ base b, m.heap.Inside a.offset.toNat bytes.length base b)
  /-- A write that succeeds changes those bytes of the block, and nothing else. -/
  written : ∀ a bytes m', a.base? = some .heap → 0 < bytes.length →
    MemoryOp.write a bytes m = .ok () m' →
      m' = { m with heap := m'.heap } ∧ m'.heap.next = m.heap.next ∧
      ∃ base b b', m.heap.Inside a.offset.toNat bytes.length base b ∧
        m'.heap.block? base = some b' ∧ Buffer.Patched [(a.offset.toNat - base, bytes)] b b' ∧
        ∀ base' ≠ base, m'.heap.block? base' = m.heap.block? base'
  /-- An access to any offset of a freed block fails. -/
  freed : ∀ p ∈ l.given, p.1 ∈ l.freed → ∀ a : Address, a.base? = some .heap →
    a.offset.toNat < p.1 + max p.2 1 →
      (∀ len, 0 < len → p.1 < a.offset.toNat + len → ∃ f, m.read a len = .error f) ∧
      ∀ bytes, 0 < bytes.length → p.1 < a.offset.toNat + bytes.length →
        ∃ f, MemoryOp.write a bytes m = .error f m

theorem alloc_above {l : Ledger} {m m' : Memory} {size : Nat} {a : Address}
    (hl : l.Accounts m.heap) (h : MemoryOp.alloc size m = .ok a m') :
    a.base? = some .heap ∧ m'.heap.block? a.offset.toNat = some (Buffer.zeros size) ∧
      ∀ p ∈ l.given, p.1 < a.offset.toNat := by
  obtain ⟨rfl, rfl, hroom⟩ := MemoryOp.alloc_eq_ok h
  rw [offset_make_heap (by omega)]
  refine ⟨Address.base?_make _ _, Heap.block?_eq_some.mpr (List.mem_cons_self), fun p hp => ?_⟩
  have hbelow : p.1 + max p.2 1 ≤ m.heap.next := hl.below p hp
  omega

theorem write_inside {m m' : Memory} {a : Address} {bytes : List UInt8}
    (hbase : a.base? = some .heap) (hlen : 0 < bytes.length)
    (h : MemoryOp.write a bytes m = .ok () m') :
    m' = { m with heap := m'.heap } ∧ m'.heap.next = m.heap.next ∧
      ∃ base b b', m.heap.Inside a.offset.toNat bytes.length base b ∧
        m'.heap.block? base = some b' ∧ Buffer.Patched [(a.offset.toNat - base, bytes)] b b' ∧
        ∀ base' ≠ base, m'.heap.block? base' = m.heap.block? base' := by
  obtain ⟨base, b, hinside, rfl⟩ := (write_heap_eq_ok hbase hlen).mp h
  have hlower := hinside.lower
  have hupper := hinside.upper
  refine ⟨rfl, rfl, base, b, b.write (a.offset.toNat - base) bytes, hinside, ?_,
    Buffer.patched_write (by omega), fun base' hne => ?_⟩
  · rw [Heap.block?_write, if_pos rfl, hinside.live, Option.map_some]
  · rw [Heap.block?_write, if_neg hne]

/-- No access can lie inside a live block and meet a freed one. -/
theorem not_inside_of_freed {l : Ledger} {h : Heap} (hl : l.Accounts h) {p : Nat × Nat}
    (hp : p ∈ l.given) (hfreed : p.1 ∈ l.freed) {offset len base : Nat} {b : Buffer}
    (hlower : offset < Ledger.blockEnd p) (hupper : p.1 < offset + len) :
    ¬ h.Inside offset len base b := by
  intro hinside
  have hstart := hinside.lower
  have hend := hinside.upper
  have hapart := hl.apart hp hfreed hinside.live
  omega

/-- Heap safety : whatever calls are made on a fresh memory, live blocks lie apart from one
another, no offset is given out twice, and every access stays inside one live block. -/
theorem heapSafe_after (image : Image) (config : Config) (calls : List MemoryCall) :
    HeapSafe ((initial image config).after calls).1 ((initial image config).after calls).2 := by
  have hl := accounts_after image config calls
  generalize (initial image config).after calls = r at hl
  exact {
    apart base base' b b' hb hb' hne :=
      Heap.apart_of_mem (Heap.block?_eq_some.mp hb) (Heap.block?_eq_some.mp hb') fun heq =>
        hne (congrArg Prod.fst heq)
    below base b hb := r.2.heap.bounded _ (Heap.block?_eq_some.mp hb)
    limit := hl.limit
    alloc size a m' h := alloc_above hl h
    read a len bytes hbase hlen := read_heap_eq_ok hbase hlen
    write a bytes hbase hlen := by
      simp only [write_heap_eq_ok hbase hlen]
      exact ⟨fun ⟨_, base, b, hinside, _⟩ => ⟨base, b, hinside⟩,
        fun ⟨base, b, hinside⟩ => ⟨_, base, b, hinside, rfl⟩⟩
    written a bytes m' hbase hlen h := write_inside hbase hlen h
    freed p hp hfreed a hbase hlower := by
      constructor
      · intro len hlen hupper
        cases h : r.2.read a len with
        | error f => exact ⟨f, rfl⟩
        | ok bytes =>
          obtain ⟨base, b, hinside, -⟩ := (read_heap_eq_ok hbase hlen).mp h
          exact absurd hinside (not_inside_of_freed hl hp hfreed hlower hupper)
      · intro bytes hlen hupper
        cases h : MemoryOp.write a bytes r.2 with
        | error f m' =>
          have hsame : r.2 = m' := MemoryOp.failsWith_write a bytes h
          exact ⟨f, by rw [hsame]⟩
        | ok _ m' =>
          obtain ⟨base, b, hinside, -⟩ := (write_heap_eq_ok hbase hlen).mp h
          exact absurd hinside (not_inside_of_freed hl hp hfreed hlower hupper) }

/-- Two blocks of four bytes, the first of which is freed. -/
def freeing : List MemoryCall := [.alloc 4, .alloc 4, .free (.make .heap 0)]

theorem heapSafe_after_freeing :
    ((initial .empty .default).after freeing).1 = ⟨[(0, 4), (4, 4)], [0]⟩ ∧
      ∃ f, ((initial .empty .default).after freeing).2.read (.make .heap 2) 2 = .error f := by
  have hledger : ((initial .empty .default).after freeing).1 = ⟨[(0, 4), (4, 4)], [0]⟩ := by rfl
  refine ⟨hledger, ((heapSafe_after .empty .default freeing).freed (0, 4) ?_ ?_ (.make .heap 2)
    (by decide) (by decide)).1 2 (by decide) (by decide)⟩
  · rw [hledger]
    decide
  · rw [hledger]
    decide

end Memory

end CellMachine
