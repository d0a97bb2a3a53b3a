import CellMachine.Proofs.Checked
import CellMachine.Proofs.Instruction.RoundTrip
import Mathlib.Data.List.Basic

/-!
# Decoding inside the code

A reader of instructions that checks every access (`Reader.instruction`) : it moves a position
through the code, collects operands in a table of sixteen, and gives an instruction with the number
of bytes it took. It finds what `decode` finds in any bytes, and the size is that of the
instruction (`decode_checked`).
-/

namespace CellMachine

/-- How many operands an instruction has room for. -/
def Instruction.maxOperands : Nat := 16

/-- An action on a position in the code. -/
abbrev Reader := Checked DecodeError Nat

namespace Reader

open Checked

/-- The next `n` bytes. -/
def take (code : Buffer) (n : Nat) : Reader (List UInt8) := do
  let pos ← get
  let stop ← add pos n
  if stop ≤ code.size then
    set stop
    slice code pos stop
  else raise (.truncated pos)

def byte (code : Buffer) : Reader UInt8 := do item (← take code 1) 0

def mask (code : Buffer) : Reader UInt16 := do
  let bytes ← take code 2
  let low ← item bytes 0
  let high ← item bytes 1
  return UInt16.ofNat (ofLittleEndian [low, high])

def cell (code : Buffer) (dt : Datatype) : Reader Cell := do Checked.cell (← take code dt.size)

def descriptor (code : Buffer) : Reader Descriptor := do
  let bytes ← take code Descriptor.size
  require (bytes.length = Descriptor.size)
  return .ofBytes bytes

/-- The datatype of argument `i` of a call, of which two share a byte of the descriptor. -/
def argumentType (d : Descriptor) (i : Nat) : Reader (Option Datatype) := do
  require (i < d.count.toNat → i / 2 < 4)
  return d.datatype? i

/-- Operand `index`, which has a bit in the mask. -/
def operand (code : Buffer) (dt : Datatype) (mask : UInt16) (role : Role) (index : Nat) :
    Reader Operand := do
  require (index < 16)
  let deref := maskBit mask index
  let encoded := role.encodedDatatype dt deref
  return ⟨role, encoded, deref, ← cell code encoded⟩

/-- Reads an operand and puts it behind those that were read before. -/
def collect (code : Buffer) (dt : Datatype) (mask : UInt16) (os : List Operand) (role : Role) :
    Reader (List Operand) := do
  let o ← operand code dt mask role os.length
  require (os.length < Instruction.maxOperands)
  return os ++ [o]

/-- Reads operands with the given roles. -/
def fixed (code : Buffer) (dt : Datatype) (mask : UInt16) (os : List Operand) :
    List Role → Reader (List Operand)
  | [] => return os
  | role :: rest => do fixed code dt mask (← collect code dt mask os role) rest

/-- Reads the arguments `i`, `i + 1`, … that a descriptor announces. -/
def arguments (code : Buffer) (dt : Datatype) (mask : UInt16) (d : Descriptor)
    (descriptorAt i : Nat) (os : List Operand) : Nat → Reader (List Operand)
  | 0 => return os
  | n + 1 => do
    match ← argumentType d i with
    | none | some .none => raise (.badDescriptor descriptorAt)
    | some t =>
      arguments code dt mask d descriptorAt (i + 1) (← collect code dt mask os (.typed t)) n

/-- Reads the instruction at `pos`. Gives its size as well. -/
def instruction (code : Buffer) (pos : Nat) : Reader (Instruction × Nat) := do
  let b ← byte code
  let op ←
    match Opcode.ofByte? b with
    | some op => pure op
    | none => raise (.unknownOpcode b pos)
  let c ← byte code
  let second ← add pos 1
  let dt ←
    match Datatype.ofCode? c with
    | some dt => pure dt
    | none => raise (.unknownDatatype c second)
  let mask ← mask code
  let fixed ← fixed code dt mask [] (op.fixedRoles dt)
  if op.layout.variadic then
    let descriptorAt ← get
    let d ← descriptor code
    if Descriptor.maxArgs < d.count.toNat then raise (.badDescriptor descriptorAt)
    else
      let os ← arguments code dt mask d descriptorAt 0 fixed d.count.toNat
      return (⟨op, dt, mask, fixed, some d, os.drop fixed.length⟩, ← sub (← get) pos)
  else
    return (⟨op, dt, mask, fixed, none, []⟩, ← sub (← get) pos)

end Reader

/-- The instruction at `pos` and its size, with every access checked. -/
def decodeChecked (code : Buffer) (pos : Nat) : Except (Stop DecodeError) (Instruction × Nat) :=
  outcome (Reader.instruction code pos pos)

/-! ## What the reader reads -/

/-- At `pos` the reader gives `f a` and goes on at `next a` where `r` is `a`, and fails where `r`
does. -/
def Reads {α β : Type} (x : Reader β) (pos : Nat) (r : Except DecodeError α) (f : α → β)
    (next : α → Nat) : Prop :=
  match r with
  | .ok a => x pos = .ok (f a) (next a)
  | .error e => ∃ p, x pos = .error (.failed e) p

namespace Reader

open Checked

variable {α β γ δ : Type} {x : Reader β} {pos : Nat} {r : Except DecodeError α} {f : α → β}
  {next : α → Nat} {code : Buffer} {dt : Datatype} {mask : UInt16}

theorem reads_bind {g : β → Reader δ} {k : α → Except DecodeError γ} {f' : γ → δ}
    {next' : γ → Nat} (hx : Reads x pos r f next)
    (hg : ∀ a, r = .ok a → Reads (g (f a)) (next a) (k a) f' next') :
    Reads (x >>= g) pos (r >>= k) f' next' := by
  cases r with
  | error e =>
    obtain ⟨p, hp⟩ := hx
    exact ⟨p, bind_eq_error.mpr (.inl hp)⟩
  | ok a =>
    have hnext := hg a rfl
    change Reads (x >>= g) pos (k a) f' next'
    unfold Reads at hx hnext ⊢
    have hbind : (x >>= g) pos = g (f a) (next a) := by
      change EStateM.bind x g pos = _
      unfold EStateM.bind
      rw [hx]
    rw [hbind]
    exact hnext

variable {n : Nat} {os : List Operand}

theorem takeBytes_eq_ok {bs : List UInt8} (h : takeBytes code pos n = .ok bs) : bs.length = n := by
  unfold takeBytes at h
  split at h
  · next hle =>
    cases h
    exact code.length_read_of_le pos n hle
  · cases h

theorem reads_take (h : pos + n < UInt64.size) :
    Reads (take code n) pos (takeBytes code pos n) id fun _ => pos + n := by
  have htake : take code n pos = (if pos + n ≤ code.size then do
      set (pos + n)
      slice code pos (pos + n)
    else raise (.truncated pos) : Reader _) pos := by
    change (add pos n >>= _) pos = _
    rw [add_eq h, pure_bind]
  unfold takeBytes
  unfold Reads
  rw [htake]
  by_cases hle : pos + n ≤ code.size
  · simp only [if_pos hle, slice_eq hle]
    rfl
  · simp only [if_neg hle]
    exact ⟨pos, rfl⟩

/-- What is made of what was read, without reading on. -/
theorem reads_then {g : β → Reader δ} {f' : α → δ} (hx : Reads x pos r f next)
    (hg : ∀ a, r = .ok a → g (f a) = pure (f' a)) : Reads (x >>= g) pos r f' next := by
  cases r with
  | error e =>
    obtain ⟨p, hp⟩ := hx
    exact ⟨p, bind_eq_error.mpr (.inl hp)⟩
  | ok a => exact bind_eq_ok.mpr ⟨f a, next a, hx, by rw [hg a rfl]; rfl⟩

theorem reads_map {k : α → γ} {f' : γ → β} {next' : γ → Nat} (hx : Reads x pos r f next)
    (hf : ∀ a, f' (k a) = f a) (hnext : ∀ a, next' (k a) = next a) :
    Reads x pos (r >>= fun a => pure (k a)) f' next' := by
  cases r with
  | error e => exact hx
  | ok a =>
    change x pos = .ok (f' (k a)) (next' (k a))
    rw [hf, hnext]
    exact hx

theorem reads_byte (h : pos + 1 < UInt64.size) :
    Reads (byte code) pos (takeBytes code pos 1) (·.headD 0) fun _ => pos + 1 := by
  refine reads_then (reads_take h) fun bs hbs => ?_
  obtain ⟨b, rfl⟩ := List.length_eq_one_iff.mp (takeBytes_eq_ok hbs)
  rfl

theorem reads_mask (h : pos + 2 < UInt64.size) :
    Reads (Reader.mask code) pos (takeBytes code pos 2)
      (fun bs => UInt16.ofNat (ofLittleEndian bs)) fun _ => pos + 2 := by
  refine reads_then (reads_take h) fun bs hbs => ?_
  obtain ⟨low, high, rfl⟩ := List.length_eq_two.mp (takeBytes_eq_ok hbs)
  rfl

theorem reads_cell (h : pos + dt.size < UInt64.size) :
    Reads (cell code dt) pos (takeBytes code pos dt.size) Cell.ofBytes
      fun _ => pos + dt.size := by
  refine reads_then (reads_take h) fun bs _ => ?_
  exact cell_eq bs

theorem reads_descriptor (h : pos + Descriptor.size < UInt64.size) :
    Reads (descriptor code) pos (takeBytes code pos Descriptor.size) Descriptor.ofBytes
      fun _ => pos + Descriptor.size := by
  refine reads_then (reads_take h) fun bs hbs => ?_
  simp only [id, require_eq (takeBytes_eq_ok hbs), pure_bind]

theorem reads_operand {role : Role} {index : Nat} (hindex : index < 16)
    (h : pos + 8 < UInt64.size) :
    Reads (operand code dt mask role index) pos (readOperand code dt mask role index pos) id
      fun o => pos + o.datatype.size := by
  have hsize := (role.encodedDatatype dt (maskBit mask index)).size_le
  unfold operand
  rw [require_eq hindex, pure_bind]
  exact reads_bind (reads_cell (by omega)) fun _ _ => rfl

theorem reads_collect {role : Role} (hos : os.length < 16) (h : pos + 8 < UInt64.size) :
    Reads (collect code dt mask os role) pos (readOperand code dt mask role os.length pos)
      (fun o => os ++ [o]) fun o => pos + o.datatype.size := by
  refine reads_then (reads_operand hos h) fun o _ => ?_
  rw [require_eq (show os.length < Instruction.maxOperands from hos), pure_bind]
  rfl

theorem operandsSize_cons (o : Operand) (os : List Operand) :
    operandsSize (o :: os) = o.datatype.size + operandsSize os := rfl

theorem operandsSize_le (os : List Operand) : operandsSize os ≤ 8 * os.length := by
  induction os with
  | nil => exact Nat.le_refl 0
  | cons o rest ih =>
    have hsize := o.datatype.size_le
    rw [operandsSize_cons, List.length_cons]
    omega

theorem reads_fixed {roles : List Role} (hos : os.length + roles.length ≤ 16)
    (h : pos + 8 * roles.length < UInt64.size) :
    Reads (fixed code dt mask os roles) pos (readFixed code dt mask os.length pos roles)
      (os ++ ·) fun os' => pos + operandsSize os' := by
  induction roles generalizing os pos with
  | nil =>
    change (.ok os pos : EStateM.Result _ _ _) = .ok (os ++ []) pos
    rw [List.append_nil]
  | cons role rest ih =>
    rw [List.length_cons] at hos h
    refine reads_bind (reads_collect (by omega) (by omega)) fun o ho => ?_
    have hsize := o.datatype.size_le
    have hrest : Reads (fixed code dt mask (os ++ [o]) rest) (pos + o.datatype.size) _ _ _ :=
      ih (by rw [List.length_append, List.length_singleton]; omega) (by omega)
    rw [List.length_append, List.length_singleton] at hrest
    refine reads_map hrest (fun os' => ?_) fun os' => ?_
    · rw [List.append_assoc, List.singleton_append]
    · rw [operandsSize_cons, Nat.add_assoc]

theorem reads_arguments {d : Descriptor} {descriptorAt i : Nat} (hi : i + n ≤ 8)
    (hos : os.length + n ≤ 16) (h : pos + 8 * n < UInt64.size) :
    Reads (arguments code dt mask d descriptorAt i os n) pos
      (readArgs code dt mask d descriptorAt i os.length pos n) (os ++ ·)
      fun os' => pos + operandsSize os' := by
  induction n generalizing os pos i with
  | zero =>
    change (.ok os pos : EStateM.Result _ _ _) = .ok (os ++ []) pos
    rw [List.append_nil]
  | succ n ih =>
    have htype : argumentType d i = pure (d.datatype? i) := by
      unfold argumentType
      rw [require_eq (by omega), pure_bind]
    have hread : ∀ t : Datatype,
        Reads (collect code dt mask os (.typed t) >>= fun os =>
            arguments code dt mask d descriptorAt (i + 1) os n) pos (do
          let o ← readOperand code dt mask (.typed t) os.length pos
          let os' ← readArgs code dt mask d descriptorAt (i + 1) (os.length + 1)
            (pos + o.datatype.size) n
          return o :: os') (os ++ ·) fun os' => pos + operandsSize os' := by
      intro t
      refine reads_bind (reads_collect (by omega) (by omega)) fun o _ => ?_
      have hsize := o.datatype.size_le
      have hrest : Reads (arguments code dt mask d descriptorAt (i + 1) (os ++ [o]) n)
          (pos + o.datatype.size) _ _ _ :=
        ih (by omega) (by rw [List.length_append, List.length_singleton]; omega) (by omega)
      rw [List.length_append, List.length_singleton] at hrest
      refine reads_map hrest (fun os' => ?_) fun os' => ?_
      · rw [List.append_assoc, List.singleton_append]
      · rw [operandsSize_cons, Nat.add_assoc]
    unfold arguments readArgs
    rw [htype, pure_bind]
    cases d.datatype? i with
    | none => exact ⟨pos, rfl⟩
    | some t =>
      cases t with
      | none => exact ⟨pos, rfl⟩
      | _ => exact hread _

theorem reads_pure {g : β → Reader δ} {k : α → Except DecodeError γ} {f' : γ → δ}
    {next' : γ → Nat} {a : α} {b : β} (h : Reads (g b) pos (k a) f' next') :
    Reads (pure b >>= g) pos (Except.ok a >>= k) f' next' := by
  rw [pure_bind]
  exact h

/-- The size of an instruction is the distance from where it starts. -/
theorem reads_sized {i : Instruction} {p : Nat} (h : p = pos + i.size) :
    Reads (do return (i, ← sub (← get) pos)) p (.ok i) (fun i => (i, i.size))
      fun i => pos + i.size := by
  change (sub p pos >>= fun size => pure (i, size)) p = .ok (i, i.size) (pos + i.size)
  rw [sub_eq (by omega), pure_bind, h, Nat.add_sub_cancel_left]
  rfl

theorem reads_get {g : Nat → Reader β} (h : Reads (g pos) pos r f next) :
    Reads (get >>= g) pos r f next := h

/-- The reader reads what is decoded. -/
theorem reads_instruction (h : pos + 128 < UInt64.size) :
    Reads (instruction code pos) pos (decode code pos) (fun i => (i, i.size))
      fun i => pos + i.size := by
  unfold instruction decode
  refine reads_bind (reads_byte (by omega)) fun bs _ => ?_
  dsimp only
  cases hop : Opcode.ofByte? (bs.headD 0) with
  | none => exact ⟨_, rfl⟩
  | some op =>
  refine reads_pure (reads_bind (reads_byte (by omega)) fun cs _ => ?_)
  rw [add_eq (by omega), pure_bind]
  cases hdt : Datatype.ofCode? (cs.headD 0) with
  | none => exact ⟨_, rfl⟩
  | some dt =>
  refine reads_pure (reads_bind (reads_mask (by omega)) fun ms _ => ?_)
  have hroles := op.length_fixedRoles_le dt
  refine reads_bind (reads_fixed (by simp; omega) (by omega)) fun fixed hfixed => ?_
  have hlength := length_readFixed hfixed
  have hsize := operandsSize_le fixed
  have hheader : headerSize = 4 := rfl
  by_cases hvariadic : op.layout.variadic = true
  · have hdescriptor : Descriptor.size = 5 := rfl
    have hmax : Descriptor.maxArgs = 8 := rfl
    simp only [if_pos hvariadic]
    refine reads_get (reads_bind (reads_descriptor (by omega)) fun ds _ => ?_)
    by_cases hcount : Descriptor.maxArgs < (Descriptor.ofBytes ds).count.toNat
    · simp only [if_pos hcount]
      exact ⟨_, rfl⟩
    · simp only [if_neg hcount]
      refine reads_bind (reads_arguments (by omega) (by simp; omega) (by omega)) fun args _ => ?_
      simp only [List.nil_append, List.drop_left]
      refine reads_sized ?_
      simp only [Instruction.size, Option.isSome_some, if_true]
      omega
  · simp only [if_neg hvariadic]
    refine reads_sized ?_
    have hnone : operandsSize [] = 0 := rfl
    simp only [Instruction.size, Option.isSome_none, hnone]
    change pos + 4 + operandsSize fixed = pos + (headerSize + operandsSize fixed + 0 + 0)
    omega

end Reader

/-- What is decoded is decoded inside the code. -/
theorem decode_checked {code : Buffer} {pos : Nat} (h : pos + 128 < UInt64.size) :
    decodeChecked code pos =
      ((decode code pos).map fun i => (i, i.size)).mapError Stop.failed := by
  have hreads : Reads (Reader.instruction code pos) pos _ _ _ := Reader.reads_instruction h
  unfold decodeChecked
  cases hdecode : decode code pos with
  | ok i =>
    rw [hdecode] at hreads
    rw [hreads]
    rfl
  | error e =>
    rw [hdecode] at hreads
    obtain ⟨p, hp⟩ := hreads
    rw [hp]
    rfl

end CellMachine
