import CellMachine.Proofs.Checked
import CellMachine.Proofs.Machine.Heap

/-!
# Accesses to memory inside its bounds

The actions on memory once more, with every access checked (`CheckedOp`). Programs can put any bits
into the pointers, and any bits into an address, so that nothing is known of an offset but that it
is below `2 ^ 61`. What is known of the memory is that its sizes are words and that stack and heap
keep to their limits (`Memory.Fits`). That is enough for every checked action to do what the
unchecked one does, and every action keeps it (`Mirrors`).
-/

namespace CellMachine

/-! ## Checked actions -/

/-- An action on memory that checks its accesses. -/
abbrev CheckedOp := Checked Fault Memory

namespace CheckedOp

open Checked

variable {ε : Type}

def register (r : Register) : Checked ε Memory Cell := do
  let stop ← add r.offset Cell.size
  cell (← slice (← get).registers.toArray r.offset stop)

def setRegister (r : Register) (c : Cell) : Checked ε Memory Unit := do
  let stop ← add r.offset Cell.size
  room (← get).registers.toArray r.offset stop c.raw
  modify (·.writeRegisters r.offset c.raw)

/-- The offset of the address in a register. -/
def stackOffset (r : Register) : CheckedOp Nat := do return (← register r).toAddress.offset.toNat

/-- Sets a register to an offset of the stack. -/
def setStackOffset (r : Register) (offset : Nat) : CheckedOp Unit :=
  setRegister r (.ofAddress (.make .stack (UInt64.ofNat offset)))

/-- The region an address points into, the place in it and the size of the region. An offset from
the frame pointer that is no word is a fault. -/
def resolve (a : Address) (len : Nat) : CheckedOp (Region × Nat × Nat) := do
  let m ← get
  match a.base? with
  | none => raise (.invalidAddress a.bits)
  | some .register => return (.registers, a.offset.toNat, Register.fileSize)
  | some .stack => return (.stack, a.offset.toNat, m.stack.size)
  | some .frameAdd =>
    let fp ← stackOffset .fp
    if fp + a.offset.toNat < UInt64.size then return (.stack, fp + a.offset.toNat, m.stack.size)
    else raise (.outOfBounds a.bits len)
  | some .frameSub =>
    let fp ← stackOffset .fp
    if a.offset.toNat ≤ fp then return (.stack, ← sub fp a.offset.toNat, m.stack.size)
    else raise (.outOfBounds a.bits len)
  | some .static =>
    match m.statics[a.page]? with
    | some b => return (.static a.page, a.intraOffset.toNat, b.size)
    | none => raise (.invalidAddress a.bits)
  | some .code =>
    match m.code[a.page]? with
    | some b => return (.code a.page, a.intraOffset.toNat, b.size)
    | none => raise (.invalidAddress a.bits)
  | some .heap =>
    match m.heap.floor? a.offset.toNat with
    | some (block, b) => return (.heap block, ← sub a.offset.toNat block, b.size)
    | none => raise (.invalidAddress a.bits)

/-- The region of `len` bytes at an address, and where they start in it. An end that is no word is
a fault. -/
def locate (a : Address) (len : Nat) : CheckedOp (Region × Nat) := do
  let (region, start, limit) ← resolve a len
  if start + len < UInt64.size ∧ start + len ≤ limit then return (region, start)
  else raise (.outOfBounds a.bits len)

/-- The bytes of a region. The page of a region of static data is looked up without a check. -/
def region (r : Region) : CheckedOp Buffer := do
  let m ← get
  match r with
  | .static page => item m.statics.toList page
  | r => return m.region r

def read (a : Address) (len : Nat) : CheckedOp (List UInt8) := do
  let (r, start) ← locate a len
  let b ← region r
  slice b start (← add start len)

def write (a : Address) (bytes : List UInt8) : CheckedOp Unit := do
  let (r, start) ← locate a bytes.length
  match r with
  | .code _ => raise (.readOnly "code")
  | r =>
    let b ← region r
    room b start (← add start bytes.length) bytes
    modify (·.put r start bytes)

def checkWritable (a : Address) (len : Nat) : CheckedOp Unit := do
  let (r, _) ← locate a len
  match r with
  | .code _ => raise (.readOnly "code")
  | _ => return ()

def load (a : Address) (dt : Datatype) : CheckedOp Cell := do cell (← read a dt.size)

def store (a : Address) (dt : Datatype) (c : Cell) : CheckedOp Unit := do write a (← bytes c dt)

def readText (a : Address) : CheckedOp String := do
  let (r, start) ← locate a 0
  let b ← region r
  let tail ← slice b start b.size
  match tail.findIdx? (· == 0) with
  | none => raise (.invalidString a.bits)
  | some stop => return Text.ofUtf8Lossy (← slice tail.toArray 0 stop)

def push (bytes : List UInt8) : CheckedOp Unit := do
  let top ← stackOffset .sp
  let stop ← add top bytes.length
  ofAction (MemoryOp.reserve stop)
  room (← get).stack top stop bytes
  modify (·.put .stack top bytes)
  setStackOffset .sp stop

/-- Takes bytes off the stack. A range that does not lie in the stack is a fault. -/
def pop (len : Nat) : CheckedOp (List UInt8) := do
  let top ← stackOffset .sp
  if len ≤ top then
    let start ← sub top len
    let m ← get
    if start ≤ top ∧ top ≤ m.stack.size then
      let bytes ← slice m.stack start top
      setStackOffset .sp start
      return bytes
    else raise .stackUnderflow
  else raise .stackUnderflow

def pushCell (c : Cell) (dt : Datatype) : CheckedOp Unit := do push (← bytes c dt)

def popCell (dt : Datatype) : CheckedOp Cell := do cell (← pop dt.size)

/-- Grows the used part of the stack. An end that is no word is a fault. -/
def stackAdd (n : Nat) : CheckedOp Unit := do
  let top ← stackOffset .sp
  if top + n < UInt64.size then
    ofAction (MemoryOp.reserve (top + n))
    setStackOffset .sp (top + n)
  else raise (.stackOverflow (← get).maxStack)

def stackSub (n : Nat) : CheckedOp Unit := do
  let top ← stackOffset .sp
  if n ≤ top then setStackOffset .sp (← sub top n) else raise .stackUnderflow

def pushFrame : CheckedOp Unit := do
  pushCell (← register .fp) .addr
  setRegister .fp (← register .sp)

def popFrame : CheckedOp Unit := do
  setRegister .sp (← register .fp)
  let saved ← popCell .addr
  setRegister .fp saved

def alloc (size : Nat) : CheckedOp Address := do
  if Heap.maxBlock < size then raise .heapExhausted
  else
    let base := (← get).heap.next
    let next ← add base (max size 1)
    if Heap.limit < next then raise .heapExhausted
    else
      modify fun m => { m with heap := m.heap.extend size }
      return .make .heap (UInt64.ofNat base)

end CheckedOp

/-! ## Registers -/

namespace CheckedOp

open Checked

variable {ε : Type}

theorem offset_add_size_lt (r : Register) : r.offset + Cell.size < UInt64.size := by
  cases r <;> decide

theorem register_eq (r : Register) :
    (register r : Checked ε Memory Cell) = do return (← get).register r := by
  funext m
  have hslice : (slice m.registers.toArray r.offset (r.offset + Cell.size) :
      Checked ε Memory _) = _ :=
    slice_eq (by rw [Vector.size_toArray]; exact r.offset_add_size_le)
  unfold register
  rw [add_eq (offset_add_size_lt r), pure_bind]
  change ((slice m.registers.toArray r.offset (r.offset + Cell.size) : Checked ε Memory _) >>=
    cell) m = _
  rw [hslice, pure_bind, cell_eq]
  rfl

theorem setRegister_eq (r : Register) (c : Cell) :
    (setRegister r c : Checked ε Memory Unit) = modify (·.setRegister r c) := by
  funext m
  have hlength : c.raw.length = Cell.size := Cell.length_bytes c .u64
  have hroom : (room m.registers.toArray r.offset (r.offset + c.raw.length) c.raw :
      Checked ε Memory _) = _ :=
    room_eq (by rw [Vector.size_toArray, hlength]; exact r.offset_add_size_le)
  unfold setRegister
  rw [add_eq (offset_add_size_lt r), pure_bind, ← hlength]
  change ((room m.registers.toArray r.offset (r.offset + c.raw.length) c.raw :
    Checked ε Memory _) >>= fun _ => modify (·.writeRegisters r.offset c.raw)) m = _
  rw [hroom, pure_bind]
  rfl

theorem stackOffset_eq (r : Register) : stackOffset r = do return (← get).stackOffset r := by
  unfold stackOffset
  rw [register_eq]
  rfl

theorem setStackOffset_eq (r : Register) (n : Nat) :
    setStackOffset r n = modify (·.setStackOffset r n) :=
  setRegister_eq r _

end CheckedOp

/-! ## Memory that fits -/

namespace Memory

/-- Sizes are words, and the stack and the heap keep to their limits. -/
structure Fits (m : Memory) : Prop where
  limit : m.maxStack < UInt64.size
  stack : m.stack.size ≤ m.maxStack
  statics : ∀ (page : Nat) (b : Buffer), m.statics[page]? = some b → b.size < UInt64.size
  code : ∀ (page : Nat) (b : Buffer), m.code[page]? = some b → b.size < UInt64.size
  heap : m.heap.next ≤ Heap.limit

variable {m : Memory}

theorem Fits.size_region_lt (h : m.Fits) (r : Region) : (m.region r).size < UInt64.size := by
  have hnone : (#[] : Buffer).size < UInt64.size := by decide
  cases r with
  | registers =>
    rw [region, Vector.size_toArray]
    decide
  | stack => exact Nat.lt_of_le_of_lt h.stack h.limit
  | static page =>
    rw [region]
    cases hpage : m.statics[page]? with
    | none => exact hnone
    | some b => exact h.statics page b hpage
  | code page =>
    rw [region]
    cases hpage : m.code[page]? with
    | none => exact hnone
    | some b => exact h.code page b hpage
  | heap block =>
    rw [region]
    cases hblock : m.heap.block? block with
    | none => exact hnone
    | some b =>
      have hend := add_size_le_next hblock
      have hnext := h.heap
      have hlimit : Heap.limit < UInt64.size := by decide
      simp only [Option.getD_some]
      omega

theorem Fits.writeRegisters (h : m.Fits) (start : Nat) (bytes : List UInt8) :
    (m.writeRegisters start bytes).Fits :=
  ⟨h.limit, h.stack, h.statics, h.code, h.heap⟩

theorem Fits.setRegister (h : m.Fits) (r : Register) (c : Cell) : (m.setRegister r c).Fits :=
  h.writeRegisters _ _

theorem Fits.put (h : m.Fits) (r : Region) (start : Nat) (bytes : List UInt8) :
    (m.put r start bytes).Fits := by
  cases r with
  | registers => exact h.writeRegisters start bytes
  | stack => exact ⟨h.limit, by simpa [Memory.put] using h.stack, h.statics, h.code, h.heap⟩
  | static page =>
    refine ⟨h.limit, h.stack, fun page' b hb => ?_, h.code, h.heap⟩
    simp only [Memory.put, Array.getElem?_modify] at hb
    split at hb
    · obtain ⟨b', hb', rfl⟩ := Option.map_eq_some_iff.mp hb
      rw [Buffer.size_write]
      exact h.statics page' b' hb'
    · exact h.statics page' b hb
  | code page => exact h
  | heap block => exact ⟨h.limit, h.stack, h.statics, h.code, h.heap⟩

end Memory

/-! ## Reads and writes -/

namespace CheckedOp

open Checked

variable {m : Memory}

theorem ofAction_query {α : Type} (f : Memory → Except Fault α) (m : Memory) :
    ofAction (MemoryOp.query f) m =
      match f m with
      | .ok a => .ok a m
      | .error e => .error (.failed e) m := by
  unfold ofAction MemoryOp.query
  cases f m <;> rfl

theorem resolve_eq (a : Address) (len : Nat) :
    resolve a len = ofAction (MemoryOp.query fun m =>
      (m.resolve a len).map fun p => (p.1, p.2, (m.region p.1).size)) := by
  funext m
  have hfp := m.stackOffset_lt .fp
  have hoffset := a.toNat_offset_lt
  have hword : UInt64.size = 2 ^ 64 := rfl
  rw [ofAction_query]
  unfold resolve Memory.resolve
  rw [get_bind_apply]
  simp only [stackOffset_eq]
  cases a.base? with
  | none => rfl
  | some base =>
    cases base with
    | register =>
      have hsize : (m.region .registers).size = Register.fileSize := Vector.size_toArray _
      simp only [Except.map, hsize]
      rfl
    | stack => rfl
    | frameAdd =>
      simp only [bind_assoc, pure_bind, get_bind_apply, if_pos (show m.stackOffset .fp +
        a.offset.toNat < UInt64.size by omega)]
      rfl
    | frameSub =>
      simp only [bind_assoc, pure_bind, get_bind_apply]
      by_cases hle : a.offset.toNat ≤ m.stackOffset .fp
      · simp only [if_pos hle, sub_eq hle]
        rfl
      · simp only [if_neg hle]
        rfl
    | static =>
      simp only
      cases hpage : m.statics[a.page]? with
      | none =>
        rw [if_neg (Nat.not_lt.mpr (Array.getElem?_eq_none_iff.mp hpage))]
        rfl
      | some b =>
        rw [if_pos (Array.getElem?_eq_some_iff.mp hpage).1]
        simp only [Except.map, Memory.region, hpage]
        rfl
    | code =>
      simp only
      cases hpage : m.code[a.page]? with
      | none =>
        rw [if_neg (Nat.not_lt.mpr (Array.getElem?_eq_none_iff.mp hpage))]
        rfl
      | some b =>
        rw [if_pos (Array.getElem?_eq_some_iff.mp hpage).1]
        simp only [Except.map, Memory.region, hpage]
        rfl
    | heap =>
      simp only
      cases hfloor : m.heap.floor? a.offset.toNat with
      | none => rfl
      | some p =>
        obtain ⟨hblock, hle⟩ := Heap.block?_of_floor? hfloor
        simp only [Except.map, Memory.region, hblock, sub_eq hle]
        rfl

theorem query_bind_ok {α β : Type} {f : Memory → Except Fault α} {g : α → CheckedOp β} {a : α}
    (h : f m = .ok a) : (ofAction (MemoryOp.query f) >>= g) m = g a m := by
  change EStateM.bind _ g m = _
  unfold EStateM.bind
  rw [ofAction_query, h]

theorem query_bind_error {α β : Type} {f : Memory → Except Fault α} {g : α → CheckedOp β}
    {e : Fault} (h : f m = .error e) :
    (ofAction (MemoryOp.query f) >>= g) m = .error (.failed e) m := by
  change EStateM.bind _ g m = _
  unfold EStateM.bind
  rw [ofAction_query, h]

theorem locate_eq (h : m.Fits) (a : Address) (len : Nat) :
    locate a len m = ofAction (MemoryOp.query (·.locate a len)) m := by
  rw [ofAction_query]
  unfold locate Memory.locate
  rw [resolve_eq]
  cases hresolve : m.resolve a len with
  | error f =>
    rw [query_bind_error (e := f) (by rw [hresolve]; rfl)]
  | ok p =>
    obtain ⟨r, start⟩ := p
    rw [query_bind_ok (a := (r, start, (m.region r).size)) (by rw [hresolve]; rfl)]
    have hsize := h.size_region_lt r
    by_cases hle : start + len ≤ (m.region r).size
    · simp only [if_pos hle, if_pos (show start + len < UInt64.size ∧ _ from ⟨by omega, hle⟩)]
      rfl
    · simp only [if_neg hle, if_neg (show ¬ (start + len < UInt64.size ∧ _) from
        fun hboth => hle hboth.2)]
      rfl

/-- A region that was found has its bytes. -/
theorem region_eq {a : Address} {len start : Nat} {r : Region}
    (h : m.locate a len = .ok (r, start)) : region r m = .ok (m.region r) m := by
  cases r with
  | registers | stack | code _ | heap _ => rfl
  | static page =>
    have hpage : page < m.statics.size := by
      have hresolve := (Memory.locate_eq_ok.mp h).1
      unfold Memory.resolve at hresolve
      repeat' split at hresolve
      all_goals cases hresolve
      assumption
    have hitem : m.statics.toList[page]? = some (m.region (.static page)) := by
      rw [Memory.region, Array.getElem?_toList, Array.getElem?_eq_getElem hpage]
      rfl
    change (item m.statics.toList page : CheckedOp _) m = _
    rw [item_eq hitem]
    rfl

section Located

variable {α : Type} {a : Address} {len start : Nat} {r : Region} {f : Fault}
  {g : Region × Nat → CheckedOp α}

theorem locate_bind_ok (h : m.Fits) (hlocate : m.locate a len = .ok (r, start)) :
    (locate a len >>= g) m = g (r, start) m := by
  change EStateM.bind _ g m = _
  unfold EStateM.bind
  rw [locate_eq h, ofAction_query, hlocate]

theorem locate_bind_error (h : m.Fits) (hlocate : m.locate a len = .error f) :
    (locate a len >>= g) m = .error (.failed f) m := by
  change EStateM.bind _ g m = _
  unfold EStateM.bind
  rw [locate_eq h, ofAction_query, hlocate]

/-- The end of what was found is a word. -/
theorem add_of_locate (h : m.Fits) (hlocate : m.locate a len = .ok (r, start)) :
    (add start len : CheckedOp Nat) = pure (start + len) := by
  have hle := (Memory.locate_eq_ok.mp hlocate).2
  have hsize := h.size_region_lt r
  exact add_eq (by omega)

end Located

theorem read_eq (h : m.Fits) (a : Address) (len : Nat) :
    read a len m = ofAction (MemoryOp.query (·.read a len)) m := by
  rw [ofAction_query, Memory.read]
  cases hlocate : m.locate a len with
  | error f => exact locate_bind_error h hlocate
  | ok p =>
    obtain ⟨r, start⟩ := p
    refine (locate_bind_ok h hlocate).trans (bind_eq_ok.mpr ⟨_, _, region_eq hlocate, ?_⟩)
    rw [add_of_locate h hlocate, pure_bind, slice_eq (Memory.locate_eq_ok.mp hlocate).2]
    rfl

theorem load_eq (h : m.Fits) (a : Address) (dt : Datatype) :
    load a dt m = ofAction (MemoryOp.query (·.load a dt)) m := by
  have hread := read_eq h a dt.size
  rw [ofAction_query] at hread ⊢
  unfold load Memory.load
  cases hbytes : m.read a dt.size with
  | error f =>
    rw [hbytes] at hread
    exact bind_eq_error.mpr (.inl hread)
  | ok bytes =>
    rw [hbytes] at hread
    refine bind_eq_ok.mpr ⟨_, _, hread, ?_⟩
    rw [cell_eq]
    rfl

theorem checkWritable_eq (h : m.Fits) (a : Address) (len : Nat) :
    checkWritable a len m = ofAction (MemoryOp.query (·.checkWritable a len)) m := by
  rw [ofAction_query, Memory.checkWritable, Memory.locateWritable]
  cases hlocate : m.locate a len with
  | error f => exact locate_bind_error h hlocate
  | ok p =>
    obtain ⟨r, start⟩ := p
    refine (locate_bind_ok h hlocate).trans ?_
    cases r <;> rfl

/-- Text ends at the first zero byte. -/
theorem takeWhile_of_findIdx? {tail : List UInt8} {stop : Nat}
    (h : tail.findIdx? (· == 0) = some stop) :
    stop ≤ tail.length ∧ tail.contains 0 = true ∧ tail.takeWhile (· != 0) = tail.take stop := by
  obtain ⟨hlt, hzero, -⟩ := List.findIdx?_eq_some_iff_getElem.mp h
  have hstop := (List.findIdx?_eq_some_iff_findIdx_eq.mp h).2
  have hnot : (fun b : UInt8 => !(b != 0)) = (· == 0) := by
    funext b
    rw [bne, Bool.not_not]
  refine ⟨Nat.le_of_lt hlt, ?_, ?_⟩
  · rw [List.contains_iff_mem, ← beq_iff_eq.mp hzero]
    exact List.getElem_mem hlt
  · rw [List.takeWhile_eq_take_findIdx_not, hnot, hstop]

theorem readText_eq (h : m.Fits) (a : Address) :
    readText a m = ofAction (MemoryOp.query (·.readText a)) m := by
  rw [ofAction_query, Memory.readText]
  cases hlocate : m.locate a 0 with
  | error f => exact locate_bind_error h hlocate
  | ok p =>
    obtain ⟨r, start⟩ := p
    have hle := (Memory.locate_eq_ok.mp hlocate).2
    rw [Nat.add_zero] at hle
    have hslice : (slice (m.region r) start (start + ((m.region r).size - start)) :
        CheckedOp _) = _ := slice_eq (by omega)
    rw [Nat.add_sub_cancel' hle] at hslice
    have hregion := region_eq hlocate
    refine (locate_bind_ok h hlocate).trans ?_
    dsimp only
    generalize (m.region r).read start ((m.region r).size - start) = tail at hslice
    cases hstop : tail.findIdx? (· == 0) with
    | none =>
      have hnot : ¬ tail.contains 0 = true := by
        rw [List.contains_iff_mem]
        exact fun hmem => absurd (List.findIdx?_eq_none_iff.mp hstop 0 hmem) (by decide)
      rw [if_neg hnot]
      refine bind_eq_error.mpr (.inr ⟨_, _, hregion, ?_⟩)
      rw [hslice, pure_bind, hstop]
      rfl
    | some stop =>
      obtain ⟨hin, hmem, htake⟩ := takeWhile_of_findIdx? hstop
      have htext : (slice tail.toArray 0 (0 + stop) : CheckedOp _) = _ :=
        slice_eq (by simpa using hin)
      rw [Nat.zero_add, Buffer.read_eq_take_drop, List.drop_zero] at htext
      rw [if_pos hmem, htake]
      refine bind_eq_ok.mpr ⟨_, _, hregion, ?_⟩
      simp only [hslice, pure_bind, hstop, htext]
      rfl

theorem write_eq (h : m.Fits) (a : Address) (bytes : List UInt8) :
    write a bytes m = ofAction (MemoryOp.write a bytes) m := by
  unfold ofAction MemoryOp.write Memory.locateWritable
  cases hlocate : m.locate a bytes.length with
  | error f => exact locate_bind_error h hlocate
  | ok p =>
    obtain ⟨r, start⟩ := p
    refine (locate_bind_ok h hlocate).trans ?_
    have hroom : (room (m.region r) start (start + bytes.length) bytes : CheckedOp _) = _ :=
      room_eq (Memory.locate_eq_ok.mp hlocate).2
    have hput : (do
        let b ← region r
        room b start (← add start bytes.length) bytes
        modify (·.put r start bytes) : CheckedOp Unit) m = .ok () (m.put r start bytes) := by
      refine bind_eq_ok.mpr ⟨_, _, region_eq hlocate, ?_⟩
      rw [add_of_locate h hlocate, pure_bind, hroom, pure_bind]
      rfl
    cases r with
    | code page => rfl
    | registers | stack | static _ | heap _ => exact hput

end CheckedOp

/-! ## Actions that mirror each other -/

/-- Two memories are the same one, which fits. -/
def Memory.Same (m m' : Memory) : Prop := m' = m ∧ m.Fits

/-- From memory that fits a checked action does what the unchecked one does, and the memory behind
it fits. -/
def Mirrors {α : Type} (x : MemoryOp α) (y : CheckedOp α) : Prop :=
  Simulates Stop.failed Memory.Same x y

namespace Mirrors

open Checked

variable {α β : Type}

theorem of_eq {x : MemoryOp α} {y : CheckedOp α}
    (h : ∀ m : Memory, m.Fits → y m = ofAction x m ∧ (stateAfter (x m)).Fits) : Mirrors x y := by
  rintro _ m ⟨rfl, hfits⟩
  obtain ⟨heq, hafter⟩ := h m hfits
  rw [heq]
  unfold ofAction
  cases hx : x m with
  | ok a m' =>
    rw [hx] at hafter
    exact .ok a ⟨rfl, hafter⟩
  | error e m' =>
    rw [hx] at hafter
    exact .error e ⟨rfl, hafter⟩

theorem of_query {f : Memory → Except Fault α} {y : CheckedOp α}
    (h : ∀ m : Memory, m.Fits → y m = ofAction (MemoryOp.query f) m) :
    Mirrors (MemoryOp.query f) y := by
  refine of_eq fun m hfits => ⟨h m hfits, ?_⟩
  unfold MemoryOp.query
  cases f m <;> exact hfits

theorem of_action {x : MemoryOp α} (h : ∀ m : Memory, m.Fits → (stateAfter (x m)).Fits) :
    Mirrors x (ofAction x) := of_eq fun m hfits => ⟨rfl, h m hfits⟩

theorem get_bind {f : Memory → MemoryOp α} {g : Memory → CheckedOp α}
    (h : ∀ m, Mirrors (f m) (g m)) : Mirrors (get >>= f) (get >>= g) := by
  rintro _ m ⟨rfl, hfits⟩
  exact h m ⟨rfl, hfits⟩

theorem modify {f : Memory → Memory} (h : ∀ m : Memory, m.Fits → (f m).Fits) :
    Mirrors (modify f) (modify f) := by
  rintro _ m ⟨rfl, hfits⟩
  exact .ok () ⟨rfl, h m hfits⟩

/-! ## Reads and writes -/

theorem read (a : Address) (len : Nat) :
    Mirrors (MemoryOp.query (·.read a len)) (CheckedOp.read a len) :=
  of_query fun _ hfits => CheckedOp.read_eq hfits a len

theorem load (a : Address) (dt : Datatype) :
    Mirrors (MemoryOp.query (·.load a dt)) (CheckedOp.load a dt) :=
  of_query fun _ hfits => CheckedOp.load_eq hfits a dt

theorem readText (a : Address) :
    Mirrors (MemoryOp.query (·.readText a)) (CheckedOp.readText a) :=
  of_query fun _ hfits => CheckedOp.readText_eq hfits a

theorem checkWritable (a : Address) (len : Nat) :
    Mirrors (MemoryOp.query (·.checkWritable a len)) (CheckedOp.checkWritable a len) :=
  of_query fun _ hfits => CheckedOp.checkWritable_eq hfits a len

theorem fits_write {m : Memory} (h : m.Fits) (a : Address) (bytes : List UInt8) :
    (stateAfter (MemoryOp.write a bytes m)).Fits := by
  unfold MemoryOp.write
  cases m.locateWritable a bytes.length with
  | error f => exact h
  | ok p => exact h.put _ _ _

theorem write (a : Address) (bytes : List UInt8) :
    Mirrors (MemoryOp.write a bytes) (CheckedOp.write a bytes) :=
  of_eq fun _ hfits => ⟨CheckedOp.write_eq hfits a bytes, fits_write hfits a bytes⟩

theorem store (a : Address) (dt : Datatype) (c : Cell) :
    Mirrors (MemoryOp.store a dt c) (CheckedOp.store a dt c) := by
  unfold CheckedOp.store
  rw [bytes_eq, pure_bind]
  exact write a _

/-! ## The stack -/

theorem fits_reserve {m : Memory} (h : m.Fits) (size : Nat) :
    (stateAfter (MemoryOp.reserve size m)).Fits := by
  have hstack := h.stack
  unfold MemoryOp.reserve
  split
  · exact h
  · split
    · exact h
    · refine ⟨h.limit, ?_, h.statics, h.code, h.heap⟩
      simp only [stateAfter, Array.size_append, Buffer.zeros, Array.size_replicate]
      omega

theorem push {bytes : List UInt8} (hlength : bytes.length ≤ Cell.size) :
    Mirrors (MemoryOp.push bytes) (CheckedOp.push bytes) := by
  rintro _ m ⟨rfl, hfits⟩
  have htop := m.stackOffset_lt .sp
  have hword : UInt64.size = 2 ^ 64 := rfl
  have hcell : Cell.size = 8 := rfl
  unfold MemoryOp.push CheckedOp.push
  simp only [CheckedOp.stackOffset_eq, CheckedOp.setStackOffset_eq, bind_assoc, pure_bind,
    get_bind_apply, add_eq (show m.stackOffset .sp + bytes.length < UInt64.size by omega)]
  refine Matches.bind (of_action (fun m h => fits_reserve h _) ⟨rfl, hfits⟩) ?_
  rintro _ _ m₁ hreserve ⟨rfl, hfits₁⟩
  -- The stack that was reserved has room for the bytes.
  rw [get_bind_apply, room_eq (MemoryOp.reserve_eq_ok hreserve).1, pure_bind]
  exact .ok () ⟨rfl, (hfits₁.put _ _ _).setRegister _ _⟩

theorem pop (len : Nat) : Mirrors (MemoryOp.pop len) (CheckedOp.pop len) := by
  rintro _ m ⟨rfl, hfits⟩
  unfold MemoryOp.pop CheckedOp.pop
  simp only [CheckedOp.stackOffset_eq, CheckedOp.setStackOffset_eq, bind_assoc, pure_bind,
    get_bind_apply]
  by_cases hlen : len ≤ m.stackOffset .sp
  · rw [if_pos hlen, sub_eq hlen, pure_bind, get_bind_apply]
    by_cases htop : m.stackOffset .sp ≤ m.stack.size
    · have hslice : (slice m.stack (m.stackOffset .sp - len) (m.stackOffset .sp - len + len) :
          CheckedOp _) = _ := slice_eq (by omega)
      rw [Nat.sub_add_cancel hlen] at hslice
      rw [if_pos ⟨hlen, htop⟩, if_pos ⟨Nat.sub_le _ _, htop⟩, hslice, pure_bind]
      exact .ok _ ⟨rfl, hfits.setRegister _ _⟩
    · rw [if_neg fun h => htop h.2, if_neg fun h => htop h.2]
      exact .error _ ⟨rfl, hfits⟩
  · rw [if_neg hlen, if_neg fun h => hlen h.1]
    exact .error _ ⟨rfl, hfits⟩

theorem pushCell (c : Cell) (dt : Datatype) :
    Mirrors (MemoryOp.pushCell c dt) (CheckedOp.pushCell c dt) := by
  unfold CheckedOp.pushCell
  rw [bytes_eq, pure_bind]
  exact push (by rw [Cell.length_bytes]; exact dt.size_le)

theorem popCell (dt : Datatype) : Mirrors (MemoryOp.popCell dt) (CheckedOp.popCell dt) := by
  refine Simulates.bind (pop dt.size) fun bytes => ?_
  rw [cell_eq]
  exact .pure _

theorem stackAdd (n : Nat) : Mirrors (MemoryOp.stackAdd n) (CheckedOp.stackAdd n) := by
  rintro _ m ⟨rfl, hfits⟩
  unfold MemoryOp.stackAdd CheckedOp.stackAdd
  simp only [CheckedOp.stackOffset_eq, CheckedOp.setStackOffset_eq, bind_assoc, pure_bind,
    get_bind_apply]
  by_cases hlt : m.stackOffset .sp + n < UInt64.size
  · rw [if_pos hlt]
    exact Matches.bind (of_action (fun m h => fits_reserve h _) ⟨rfl, hfits⟩)
      fun _ _ _ _ h => modify (fun m h => h.setRegister _ _) h
  · -- What is no word is above the limit of the stack.
    have hlimit := hfits.limit
    have hstack := hfits.stack
    have hreserve : MemoryOp.reserve (m.stackOffset .sp + n) m =
        .error (.stackOverflow m.maxStack) m := by
      unfold MemoryOp.reserve
      rw [if_neg (by omega), if_pos (by omega)]
    rw [if_neg hlt, bind_eq_error.mpr (.inl hreserve)]
    exact .error _ ⟨rfl, hfits⟩

theorem stackSub (n : Nat) : Mirrors (MemoryOp.stackSub n) (CheckedOp.stackSub n) := by
  rintro _ m ⟨rfl, hfits⟩
  unfold MemoryOp.stackSub CheckedOp.stackSub
  simp only [CheckedOp.stackOffset_eq, CheckedOp.setStackOffset_eq, bind_assoc, pure_bind,
    get_bind_apply]
  by_cases hn : n ≤ m.stackOffset .sp
  · simp only [if_pos hn, sub_eq hn, pure_bind]
    exact .ok _ ⟨rfl, hfits.setRegister _ _⟩
  · simp only [if_neg hn]
    exact .error _ ⟨rfl, hfits⟩

theorem pushFrame : Mirrors MemoryOp.pushFrame CheckedOp.pushFrame := by
  unfold MemoryOp.pushFrame CheckedOp.pushFrame
  simp only [CheckedOp.register_eq, CheckedOp.setRegister_eq, bind_assoc, pure_bind]
  refine get_bind fun m => Simulates.bind (pushCell _ _) fun _ => ?_
  rintro _ m ⟨rfl, hfits⟩
  exact .ok _ ⟨rfl, hfits.setRegister _ _⟩

theorem popFrame : Mirrors MemoryOp.popFrame CheckedOp.popFrame := by
  unfold MemoryOp.popFrame CheckedOp.popFrame
  simp only [CheckedOp.register_eq, CheckedOp.setRegister_eq, bind_assoc, pure_bind]
  rintro _ m ⟨rfl, hfits⟩
  rw [get_bind_apply]
  refine Matches.bind (.ok _ ⟨rfl, hfits.setRegister _ _⟩) fun _ _ _ _ h => ?_
  exact Simulates.bind (popCell .addr) (fun _ => modify fun m h => h.setRegister _ _) h

/-! ## The heap -/

theorem alloc (size : Nat) : Mirrors (MemoryOp.alloc size) (CheckedOp.alloc size) := by
  rintro _ m ⟨rfl, hfits⟩
  have hnext := hfits.heap
  have hlimit : Heap.limit = 2 ^ 56 := rfl
  have hblock : Heap.maxBlock = 2 ^ 32 := rfl
  have hword : UInt64.size = 2 ^ 64 := rfl
  unfold MemoryOp.alloc CheckedOp.alloc Heap.alloc?
  by_cases hsize : Heap.maxBlock < size
  · rw [if_pos hsize, if_neg (by omega)]
    exact .error _ ⟨rfl, hfits⟩
  · rw [if_neg hsize, get_bind_apply, add_eq (by omega), pure_bind]
    by_cases hfull : Heap.limit < m.heap.next + max size 1
    · rw [if_pos hfull, if_neg (by omega)]
      exact .error _ ⟨rfl, hfits⟩
    · rw [if_neg hfull, if_pos (by omega)]
      exact .ok _ ⟨rfl, hfits.limit, hfits.stack, hfits.statics, hfits.code, Nat.not_lt.mp hfull⟩

theorem free (a : Address) : Mirrors (MemoryOp.free a) (ofAction (MemoryOp.free a)) := by
  refine of_action fun m hfits => ?_
  unfold MemoryOp.free
  split
  · next heap hfree =>
    have hnext : heap.next = m.heap.next := by
      split at hfree
      · unfold Heap.free? at hfree
        split at hfree <;> cases hfree
        rfl
      · cases hfree
    exact ⟨hfits.limit, hfits.stack, hfits.statics, hfits.code, hnext ▸ hfits.heap⟩
  · exact hfits

end Mirrors

end CellMachine
