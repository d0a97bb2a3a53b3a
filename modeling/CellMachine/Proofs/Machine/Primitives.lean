import CellMachine.Machine.Step
import CellMachine.Proofs.Instruction.RoundTrip
import CellMachine.Proofs.Simulation
import Mathlib

/-!
# What instructions are made of

Instructions reach the memory, the registers, their own operands and the foreign functions through
a few operations (`Primitives`). `Primitives.perform` is what an instruction does, said with these
operations alone; with those of the machine it is what the machine does
(`Exec.execute_eq`). Where the operations of two machines do the same, in any sense that goes
through sequences, so do their instructions (`Primitives.Alike.execute`). `Machine.history` is what
a machine shows of itself, step by step.
-/

namespace CellMachine

/-- An instruction has the operands of its layout and no more arguments than a call can have. -/
structure Instruction.Shaped (i : Instruction) : Prop where
  fixed : i.fixed.length = (i.opcode.fixedRoles i.datatype).length
  args : i.args.length ≤ Descriptor.maxArgs

/-- The operations that instructions are made of. -/
structure Primitives (m : Type → Type) where
  /-- Ends an instruction with a fault. -/
  fault : {α : Type} → Fault → m α
  /-- An operand of an instruction, its arguments included. -/
  operand : Instruction → Nat → m Operand
  /-- An operand of the layout of an instruction. -/
  fixedOperand : Instruction → Nat → m Operand
  /-- The typed arguments of an instruction. -/
  arguments : Instruction → m (List Operand)
  addSizes : Nat → Nat → m Nat
  register : Register → m Cell
  setRegister : Register → Cell → m Unit
  load : Address → Datatype → m Cell
  store : Address → Datatype → Cell → m Unit
  read : Address → Nat → m (List UInt8)
  write : Address → List UInt8 → m Unit
  readText : Address → m String
  checkWritable : Address → Nat → m Unit
  pushCell : Cell → Datatype → m Unit
  popCell : Datatype → m Cell
  stackAdd : Nat → m Unit
  stackSub : Nat → m Unit
  pushFrame : m Unit
  popFrame : m Unit
  alloc : Nat → m Address
  free : Address → m Unit
  /-- Finds the foreign function that may be called at a place. -/
  function : CallSite → m ForeignFunction
  invoke : ForeignFunction → CallData → m (Option Value)

namespace Primitives

/-! ## Instructions -/

section Instructions

variable {m : Type → Type} [Monad m] (P : Primitives m)

/-- What fails or succeeds without an effect. -/
def ofExcept {α : Type} : Except Fault α → m α
  | .ok a => pure a
  | .error f => P.fault f

/-- Sets the code pointer. -/
def jump (a : Address) : m Unit := P.setRegister .cp (.ofAddress a)

/-- The place that an address operand names. -/
def place (o : Operand) : m Address :=
  if o.deref then do return (← P.load o.cell.toAddress .addr).toAddress
  else return o.cell.toAddress

/-- The value of an operand read as a datatype. -/
def value (o : Operand) (dt : Datatype) : m Cell :=
  if o.deref then P.load o.cell.toAddress dt else return o.cell

/-- The datatype that a type operand names. -/
def namedType (o : Operand) : m Datatype := do
  match (← P.value o .type).toDatatype? with
  | some dt => return dt
  | none => P.fault (.invalidDatatype o.cell.byte)

/-- The values of call arguments with their datatypes. -/
def values : List Operand → m (List (Datatype × Cell))
  | [] => return []
  | o :: rest => do
    let c ← P.value o (Exec.argumentType o)
    return (Exec.argumentType o, c) :: (← values rest)

/-- Puts call arguments on the stack. Gives `total` and the sum of their sizes. -/
def pushValues (total : Nat) : List (Datatype × Cell) → m Nat
  | [] => return total
  | (dt, c) :: rest => do
    P.pushCell c dt
    let total ← P.addSizes total dt.size
    pushValues total rest

/-- Calls a function. -/
def call (i : Instruction) (next : Address) : m Unit := do
  let a ← P.place (← P.operand i 0)
  let values ← P.values (← P.arguments i)
  let total ← P.pushValues 0 values
  P.pushCell ⟨UInt64.ofNat total⟩ .u64
  P.pushCell (.ofAddress next) .addr
  P.jump a

/-- The place for the result of a foreign call, if it asks for one. -/
def resultSlot (i : Instruction) : m (Option Address) :=
  if i.datatype = .none then return none
  else do
    let a ← P.place (← P.fixedOperand i 1)
    P.checkWritable a i.datatype.size
    return some a

/-- Stores the result of a foreign call, if there is one and the call asks for it. -/
def storeResult (name : String) (dt : Datatype) : Option Address → Option Value → m Unit
  | some a, some v =>
    match v.cast? dt with
    | some v => P.store a dt v.toCell
    | none => P.fault (.foreign ("'" ++ name ++ "' returned " ++ v.text ++ " for " ++ dt.name))
  | _, _ => return ()

/-- Calls a foreign function. -/
def foreignCall (i : Instruction) (cp : Address) : m Unit := do
  let a ← P.place (← P.fixedOperand i 0)
  let name ← P.readText a
  let f ← P.function (cp, name)
  let values ← P.values (← P.arguments i)
  if values.length = f.arity then
    let tagged ← P.ofExcept (Exec.taggedArguments values)
    let slot ← P.resultSlot i
    let result ← P.invoke f ⟨i.datatype, tagged⟩
    P.storeResult name i.datatype slot result
  else P.fault (.foreignArity name f.arity values.length)

/-- What an instruction at `cp` does, with `next` behind it. -/
def perform (i : Instruction) (cp next : Address) : m Unit :=
  let dt := i.datatype
  match i.opcode with
  | .nop | .exit => return ()
  | .mov => do
    let a ← P.place (← P.operand i 0)
    P.store a dt (← P.value (← P.operand i 1) dt.ofValueOperand)
  | .convert => do
    let a ← P.place (← P.operand i 0)
    let source ← P.namedType (← P.operand i 1)
    let o ← P.operand i 2
    let v ← P.value o source
    P.store a dt (← P.ofExcept (convertCell (if o.deref then source else dt) dt v))
  | .copy => do
    let a ← P.place (← P.operand i 0)
    let b ← P.place (← P.operand i 1)
    let n ← P.value (← P.operand i 2) dt.ofValueOperand
    P.write a (← P.read b n.bits.toNat)
  | .binary op => do
    let a ← P.place (← P.operand i 0)
    let x ← P.load a dt
    let y ← P.value (← P.operand i 1) dt.ofValueOperand
    P.store a dt (← P.ofExcept (op.apply dt x y))
  | .unary op => do
    let a ← P.place (← P.operand i 0)
    let x ← P.load a dt
    P.store a dt (← P.ofExcept (op.apply dt x))
  | .compare op => do
    let a ← P.place (← P.operand i 0)
    let x ← P.value (← P.operand i 1) dt.ofValueOperand
    let y ← P.value (← P.operand i 2) dt.ofValueOperand
    P.store a .bool (.ofBool (← P.ofExcept (op.apply dt x y)))
  | .jmp => do P.jump (← P.place (← P.operand i 0))
  | .branch onNonzero => do
    let a ← P.place (← P.operand i 0)
    let v ← P.value (← P.operand i 1) dt.ofValueOperand
    if (!v.isZero dt) == onNonzero then P.jump a
  | .loop => do
    let a ← P.place (← P.operand i 0)
    let count := (← P.register .lc).bits - 1
    P.setRegister .lc ⟨count⟩
    if count ≠ 0 then P.jump a
  | .call => P.call i next
  | .ret => do
    let back ← P.popCell .addr
    let size ← P.popCell .u64
    P.stackSub size.bits.toNat
    P.jump back.toAddress
  | .foreign => P.foreignCall i cp
  | .push => do P.pushCell (← P.value (← P.operand i 0) dt.ofValueOperand) dt
  | .pop => do
    let a ← P.place (← P.operand i 0)
    P.store a dt (← P.popCell dt)
  | .spAdd => do
    let n ← P.value (← P.operand i 0) dt.ofValueOperand
    P.stackAdd n.bits.toNat
  | .spSub => do
    let n ← P.value (← P.operand i 0) dt.ofValueOperand
    P.stackSub n.bits.toNat
  | .pushFrame => P.pushFrame
  | .popFrame => P.popFrame
  | .alloc => do
    let a ← P.place (← P.operand i 0)
    let n ← P.value (← P.operand i 1) dt.ofValueOperand
    P.checkWritable a Datatype.addr.size
    let block ← P.alloc n.bits.toNat
    P.store a .addr (.ofAddress block)
  | .free => do P.free (← P.place (← P.operand i 0))

/-- Carries out an instruction of `size` bytes at `cp`. -/
def execute (i : Instruction) (size : Nat) (cp : Address) : m Unit := do
  let next := cp.add (Int64.ofNat size)
  P.jump next
  P.perform i cp next

end Instructions

/-- The operations in another monad. -/
def map {m n : Type → Type} (P : Primitives m) (lift : {α : Type} → m α → n α) : Primitives n where
  fault f := lift (P.fault f)
  operand i k := lift (P.operand i k)
  fixedOperand i k := lift (P.fixedOperand i k)
  arguments i := lift (P.arguments i)
  addSizes x y := lift (P.addSizes x y)
  register r := lift (P.register r)
  setRegister r c := lift (P.setRegister r c)
  load a dt := lift (P.load a dt)
  store a dt c := lift (P.store a dt c)
  read a len := lift (P.read a len)
  write a bytes := lift (P.write a bytes)
  readText a := lift (P.readText a)
  checkWritable a len := lift (P.checkWritable a len)
  pushCell c dt := lift (P.pushCell c dt)
  popCell dt := lift (P.popCell dt)
  stackAdd n := lift (P.stackAdd n)
  stackSub n := lift (P.stackSub n)
  pushFrame := lift P.pushFrame
  popFrame := lift P.popFrame
  alloc size := lift (P.alloc size)
  free a := lift (P.free a)
  function site := lift (P.function site)
  invoke f d := lift (P.invoke f d)

/-! ## The operations of the machine -/

/-- Finds a foreign function that may be called. -/
def grantedFunction (site : CallSite) : Exec ForeignFunction := do
  if (← get).config.isGranted site.2 then Exec.findForeign site
  else throw (.permissionDenied site.2)

theorem askRegistry_of_some {site : CallSite} {s : Machine} {f : ForeignFunction}
    (h : s.registry site.2 = .ok (some f)) : Exec.askRegistry site s = .ok f s := by
  unfold Exec.askRegistry
  rw [get_bind_apply, h]
  rfl

theorem askRegistry_cases (site : CallSite) (s : Machine) :
    (∃ e, Exec.askRegistry site s = .error e s) ∨
      ∃ f, s.registry site.2 = .ok (some f) ∧ Exec.askRegistry site s = .ok f s := by
  unfold Exec.askRegistry
  rw [get_bind_apply]
  rcases s.registry site.2 with e | _ | f
  · exact .inl ⟨_, rfl⟩
  · exact .inl ⟨_, rfl⟩
  · exact .inr ⟨f, rfl, rfl⟩

section FindWith

variable {σ : Type} {lift : {α : Type} → Exec α → EStateM Fault σ α}
  {ask : CallSite → EStateM Fault σ ForeignFunction} {site : CallSite} {s : σ}

theorem findWith_of_some {f : ForeignFunction} (h : lift (Exec.kept site) s = .ok (some f) s) :
    Exec.findWith lift ask site s = .ok f s :=
  bind_of_ok h _

theorem findWith_of_none (h : lift (Exec.kept site) s = .ok none s) :
    Exec.findWith lift ask site s =
      (ask site >>= fun f => lift (Exec.keep site f) >>= fun _ => pure f) s :=
  bind_of_ok h _

end FindWith

section FindForeign

variable {site : CallSite} {s : Machine} {found : Option (CallSite × ForeignFunction)}

theorem kept_of_find? (h : s.cache.find? (·.1 == site) = found) :
    Exec.kept site s = .ok (found.map (·.2)) s := by
  unfold Exec.kept
  rw [get_bind_apply, h]
  rfl

theorem findForeign_of_some {p : CallSite × ForeignFunction}
    (h : s.cache.find? (·.1 == site) = some p) : Exec.findForeign site s = .ok p.2 s :=
  findWith_of_some (kept_of_find? h)

theorem findForeign_of_none (h : s.cache.find? (·.1 == site) = none) :
    Exec.findForeign site s =
      (Exec.askRegistry site >>= fun f => Exec.keep site f >>= fun _ => pure f) s :=
  findWith_of_none (kept_of_find? h)

end FindForeign

/-- A function comes from the cache, or from the registry and is kept. -/
theorem findForeign_cases (site : CallSite) (s : Machine) :
    (∃ e, Exec.findForeign site s = .error e s) ∨
      (∃ p ∈ s.cache, Exec.findForeign site s = .ok p.2 s) ∨
      ∃ f, s.registry site.2 = .ok (some f) ∧
        Exec.findForeign site s = .ok f { s with cache := (site, f) :: s.cache } := by
  cases hfound : s.cache.find? (·.1 == site) with
  | some p =>
    exact .inr (.inl ⟨p, List.mem_of_find?_eq_some hfound, findForeign_of_some hfound⟩)
  | none =>
    rw [findForeign_of_none hfound]
    obtain ⟨e, hasked⟩ | ⟨f, hregistry, hasked⟩ := askRegistry_cases site s
    · exact .inl ⟨e, bind_eq_error.mpr (.inl hasked)⟩
    · exact .inr (.inr ⟨f, hregistry, bind_of_ok hasked _⟩)

theorem grantedFunction_cases (site : CallSite) (s : Machine) :
    (∃ e, grantedFunction site s = .error e s) ∨
      (∃ p ∈ s.cache, grantedFunction site s = .ok p.2 s) ∨
      ∃ f, s.registry site.2 = .ok (some f) ∧
        grantedFunction site s = .ok f { s with cache := (site, f) :: s.cache } := by
  unfold grantedFunction
  rw [get_bind_apply]
  by_cases hgranted : s.config.isGranted site.2 = true
  · rw [if_pos hgranted]
    exact findForeign_cases site s
  · rw [if_neg hgranted]
    exact .inl ⟨_, rfl⟩

/-- The operations of the machine. -/
def machine : Primitives Exec where
  fault := throw
  operand i k := pure (i.operands[k]?.getD default)
  fixedOperand i k := pure (i.fixed[k]?.getD default)
  arguments i := pure i.args
  addSizes x y := pure (x + y)
  register r := do return (← get).register r
  setRegister r c := modify (·.updateMemory (·.setRegister r c))
  load a dt := Exec.query (·.load a dt)
  store := Exec.store
  read a len := Exec.query (·.read a len)
  write a bytes := Exec.ofMemory (.write a bytes)
  readText a := Exec.query (·.readText a)
  checkWritable a len := Exec.query (·.checkWritable a len)
  pushCell c dt := Exec.ofMemory (.pushCell c dt)
  popCell dt := Exec.ofMemory (.popCell dt)
  stackAdd n := Exec.ofMemory (.stackAdd n)
  stackSub n := Exec.ofMemory (.stackSub n)
  pushFrame := Exec.ofMemory .pushFrame
  popFrame := Exec.ofMemory .popFrame
  alloc size := Exec.ofMemory (.alloc size)
  free a := Exec.ofMemory (.free a)
  function := grantedFunction
  invoke f d := Exec.ofHost (f.call d)

theorem values_machine (os : List Operand) : machine.values os = Exec.arguments os := by
  induction os with
  | nil => rfl
  | cons o rest ih =>
    rw [values, ih]
    rfl

theorem pushValues_machine (total : Nat) (values : List (Datatype × Cell)) :
    machine.pushValues total values = (do
      Exec.pushArguments values
      return total + Datatype.totalSize (values.map (·.1))) := by
  induction values generalizing total with
  | nil => rfl
  | cons p rest ih =>
    obtain ⟨dt, c⟩ := p
    have hnext : machine.pushValues total ((dt, c) :: rest) = (do
        Exec.ofMemory (.pushCell c dt)
        machine.pushValues (total + dt.size) rest) := rfl
    rw [hnext, ih, Exec.pushArguments, bind_assoc]
    simp only [List.map_cons, Datatype.totalSize, Nat.add_assoc]

theorem call_machine {i : Instruction} {target : Operand} (h : i.fixed = [target])
    (next : Address) : machine.call i next = Exec.call target i.args next := by
  have hoperand : i.operands[0]?.getD default = target := by simp [Instruction.operands, h]
  have hcall : machine.call i next = (do
      let a ← Exec.place (i.operands[0]?.getD default)
      let values ← machine.values i.args
      let total ← machine.pushValues 0 values
      Exec.ofMemory (.pushCell ⟨UInt64.ofNat total⟩ .u64)
      Exec.ofMemory (.pushCell (.ofAddress next) .addr)
      Exec.jump a) := rfl
  simp only [hcall, hoperand, values_machine, pushValues_machine, bind_assoc, pure_bind,
    Nat.zero_add, Exec.call]

theorem resultSlot_machine {i : Instruction} {target : Operand} {slot : Option Operand}
    (h : i.fixed = target :: slot.toList) (hslot : slot = none ↔ i.datatype = .none) :
    machine.resultSlot i = Exec.resultSlot i.datatype slot := by
  unfold resultSlot
  cases slot with
  | none => rw [if_pos (hslot.mp rfl)]; rfl
  | some o =>
    have hoperand : i.fixed[1]?.getD default = o := by simp [h]
    rw [if_neg fun hdt => absurd (hslot.mpr hdt) (by simp)]
    change (do
      let a ← Exec.place (i.fixed[1]?.getD default)
      Exec.query (·.checkWritable a i.datatype.size)
      return some a) = _
    rw [hoperand]
    rfl

theorem foreignCall_machine {i : Instruction} {target : Operand} {slot : Option Operand}
    (h : i.fixed = target :: slot.toList) (hslot : slot = none ↔ i.datatype = .none)
    (cp : Address) :
    machine.foreignCall i cp = Exec.foreignCall i.datatype target slot i.args cp := by
  have hoperand : i.fixed[0]?.getD default = target := by simp [h]
  have hcall : machine.foreignCall i cp = (do
      let a ← Exec.place (i.fixed[0]?.getD default)
      let name ← Exec.query (·.readText a)
      let f ← grantedFunction (cp, name)
      let values ← machine.values i.args
      if values.length = f.arity then
        let tagged ← Exec.ofExcept (Exec.taggedArguments values)
        let slot ← machine.resultSlot i
        Exec.invokeForeign ⟨name, f, ⟨i.datatype, tagged⟩, slot⟩
      else throw (.foreignArity name f.arity values.length)) := rfl
  rw [hcall, hoperand, values_machine, resultSlot_machine h hslot]
  unfold Exec.foreignCall Exec.prepareForeign grantedFunction
  simp only [bind_assoc]
  refine bind_congr fun a => bind_congr fun name => bind_congr fun s => ?_
  by_cases hgranted : s.config.isGranted name
  · simp only [if_pos hgranted, bind_assoc]
    refine bind_congr fun f => bind_congr fun values => ?_
    by_cases harity : values.length = f.arity
    · simp only [if_pos harity, bind_assoc, pure_bind]
    · simp only [if_neg harity]
      rfl
  · simp only [if_neg hgranted]
    rfl

end Primitives

namespace Instruction.Shaped

variable {i : Instruction}

theorem length_eq (hi : i.Shaped) {op : Opcode} (hop : i.opcode = op) (h : op ≠ .foreign) :
    i.fixed.length = op.layout.roles.length := by
  rw [hi.fixed, hop, Opcode.fixedRoles, if_neg fun hforeign => h hforeign.1]

/-- A foreign call has a slot for its result if it has a datatype. -/
theorem foreign_fixed (hi : i.Shaped) (h : i.opcode = .foreign) :
    ∃ target slot, i.fixed = target :: Option.toList slot ∧
      (slot = none ↔ i.datatype = .none) := by
  have hlength := hi.fixed
  rw [h] at hlength
  by_cases hdt : i.datatype = .none
  · rw [hdt] at hlength
    obtain ⟨target, hfixed⟩ := List.length_eq_one_iff.mp hlength
    exact ⟨target, none, hfixed, by simp [hdt]⟩
  · rw [Opcode.fixedRoles, if_pos ⟨rfl, hdt⟩] at hlength
    obtain ⟨target, slot, hfixed⟩ := List.length_eq_two.mp hlength
    exact ⟨target, some slot, hfixed, by simp [hdt]⟩

end Instruction.Shaped

theorem shaped_of_decode {code : Buffer} {pos : Nat} {i : Instruction}
    (h : decode code pos = .ok i) : i.Shaped :=
  ⟨length_readFixed (decode_eq_ok h).1, (decode_eq_ok h).2⟩

namespace Exec

open Primitives (machine)

/-- What the machine does is what its operations make of the instruction. -/
theorem perform_eq {i : Instruction} (hi : i.Shaped) (cp next : Address) :
    perform i cp next = machine.perform i cp next := by
  have hlength := fun h => hi.length_eq rfl h
  have hforeign := hi.foreign_fixed
  obtain ⟨op, dt, mask, fixed, descriptor, args⟩ := i
  cases op with
  | nop | exit => rfl
  | ret | pushFrame | popFrame =>
    obtain rfl := List.length_eq_zero_iff.mp (hlength (by simp))
    rfl
  | unary _ | pop | jmp | loop | free | push | spAdd | spSub =>
    obtain ⟨x, rfl⟩ := List.length_eq_one_iff.mp (hlength (by simp))
    rfl
  | mov | binary _ | branch _ | alloc =>
    obtain ⟨x, y, rfl⟩ := List.length_eq_two.mp (hlength (by simp))
    rfl
  | compare _ | convert | copy =>
    obtain ⟨x, y, z, rfl⟩ := List.length_eq_three.mp (hlength (by simp))
    rfl
  | call =>
    obtain ⟨target, rfl⟩ := List.length_eq_one_iff.mp (hlength (by simp))
    exact (Primitives.call_machine rfl next).symm
  | foreign =>
    obtain ⟨target, slot, hfixed, hslot⟩ := hforeign rfl
    cases hfixed
    change perform ⟨.foreign, dt, mask, target :: slot.toList, descriptor, args⟩ cp next =
      machine.foreignCall _ cp
    rw [Primitives.foreignCall_machine rfl hslot]
    cases slot <;> rfl

theorem execute_eq {i : Instruction} (hi : i.Shaped) (cp : Address) :
    execute i cp = machine.execute i i.size cp :=
  bind_congr fun _ => perform_eq hi cp _

end Exec

/-! ## Operations that do the same -/

namespace Primitives

variable {ε ε' σ τ : Type}

/-- The operations of `P` and `Q` are related, as far as an instruction of its shape uses them, by
what goes through sequences. -/
structure Alike (R : σ → τ → Prop) (S : {α : Type} → EStateM ε σ α → EStateM ε' τ α → Prop)
    (P : Primitives (EStateM ε σ)) (Q : Primitives (EStateM ε' τ)) : Prop extends Relator R S where
  fault : ∀ {α : Type} (f : Fault), S (P.fault f : EStateM ε σ α) (Q.fault f)
  operand : ∀ {i : Instruction} {k : Nat}, i.Shaped → k < i.operands.length →
    S (P.operand i k) (Q.operand i k)
  fixedOperand : ∀ {i : Instruction} {k : Nat}, i.Shaped → k < i.fixed.length →
    S (P.fixedOperand i k) (Q.fixedOperand i k)
  typed : ∀ i, P.arguments i = Pure.pure i.args
  arguments : ∀ {i : Instruction}, i.Shaped → S (P.arguments i) (Q.arguments i)
  sum : ∀ x y, P.addSizes x y = Pure.pure (x + y)
  addSizes : ∀ {x y : Nat}, x + y < UInt64.size → S (P.addSizes x y) (Q.addSizes x y)
  register : ∀ r, S (P.register r) (Q.register r)
  setRegister : ∀ r c, S (P.setRegister r c) (Q.setRegister r c)
  load : ∀ a dt, S (P.load a dt) (Q.load a dt)
  store : ∀ a dt c, S (P.store a dt c) (Q.store a dt c)
  read : ∀ a len, S (P.read a len) (Q.read a len)
  write : ∀ a bytes, S (P.write a bytes) (Q.write a bytes)
  readText : ∀ a, S (P.readText a) (Q.readText a)
  checkWritable : ∀ a len, S (P.checkWritable a len) (Q.checkWritable a len)
  pushCell : ∀ c dt, S (P.pushCell c dt) (Q.pushCell c dt)
  popCell : ∀ dt, S (P.popCell dt) (Q.popCell dt)
  stackAdd : ∀ n, S (P.stackAdd n) (Q.stackAdd n)
  stackSub : ∀ n, S (P.stackSub n) (Q.stackSub n)
  pushFrame : S P.pushFrame Q.pushFrame
  popFrame : S P.popFrame Q.popFrame
  alloc : ∀ n, S (P.alloc n) (Q.alloc n)
  free : ∀ a, S (P.free a) (Q.free a)
  function : ∀ site, S (P.function site) (Q.function site)
  /-- Only a function that was found is called. -/
  invoke : ∀ {site f s t s'}, R s t → P.function site s = .ok f s' → ∀ d,
    S (P.invoke f d) (Q.invoke f d)

theorem length_values {P : Primitives (EStateM ε σ)} {os : List Operand}
    {values : List (Datatype × Cell)} {s s' : σ} (h : P.values os s = .ok values s') :
    values.length = os.length := by
  induction os generalizing s values with
  | nil =>
    cases h
    rfl
  | cons o rest ih =>
    obtain ⟨_, s₁, -, h⟩ := bind_eq_ok.mp h
    obtain ⟨values', s₂, hrest, h⟩ := bind_eq_ok.mp h
    cases h
    rw [List.length_cons, List.length_cons, ih hrest]

namespace Alike

variable {R : σ → τ → Prop} {S : {α : Type} → EStateM ε σ α → EStateM ε' τ α → Prop}
  {P : Primitives (EStateM ε σ)} {Q : Primitives (EStateM ε' τ)} {i : Instruction}

theorem ofExcept {α : Type} (h : Alike R S P Q) (x : Except Fault α) :
    S (P.ofExcept x) (Q.ofExcept x) := by
  cases x with
  | ok a => exact h.pure a
  | error f => exact h.fault f

theorem jump (h : Alike R S P Q) (a : Address) : S (P.jump a) (Q.jump a) :=
  h.setRegister _ _

theorem place (h : Alike R S P Q) (o : Operand) : S (P.place o) (Q.place o) :=
  h.ite (h.bind (h.load _ _) fun _ => h.pure _) (h.pure _)

theorem value (h : Alike R S P Q) (o : Operand) (dt : Datatype) :
    S (P.value o dt) (Q.value o dt) :=
  h.ite (h.load _ _) (h.pure _)

theorem namedType (h : Alike R S P Q) (o : Operand) :
    S (P.namedType o) (Q.namedType o) := by
  refine h.bind (h.value o .type) fun c => ?_
  cases c.toDatatype? with
  | some dt => exact h.pure dt
  | none => exact h.fault _

theorem values (h : Alike R S P Q) (os : List Operand) :
    S (P.values os) (Q.values os) := by
  induction os with
  | nil => exact h.pure _
  | cons o rest ih => exact h.bind (h.value o _) fun _ => h.bind ih fun _ => h.pure _

theorem pushValues (h : Alike R S P Q) {total : Nat} {values : List (Datatype × Cell)}
    (hvalues : total + 8 * values.length < UInt64.size) :
    S (P.pushValues total values) (Q.pushValues total values) := by
  induction values generalizing total with
  | nil => exact h.pure _
  | cons p rest ih =>
    obtain ⟨dt, c⟩ := p
    have hsize := dt.size_le
    rw [List.length_cons] at hvalues
    refine h.bind (h.pushCell c dt) fun _ => h.bind_of_ok (h.addSizes (by omega)) ?_
    intro s t sum s' _ hsum
    rw [h.sum] at hsum
    cases hsum
    exact ih (by omega)

theorem operandAt (h : Alike R S P Q) (hi : i.Shaped) {k : Nat} (hk : k < i.fixed.length) :
    S (P.operand i k) (Q.operand i k) :=
  h.operand hi (by rw [Instruction.operands, List.length_append]; omega)

theorem call (h : Alike R S P Q) (hi : i.Shaped) (hfixed : 0 < i.fixed.length) (next : Address) :
    S (P.call i next) (Q.call i next) := by
  refine h.bind (h.operandAt hi hfixed) fun _ => h.bind (h.place _) fun _ =>
    h.bind_of_ok (h.arguments hi) fun _ _ args _ _ hargs => ?_
  rw [h.typed] at hargs
  cases hargs
  refine h.bind_of_ok (h.values _) fun _ _ values _ _ hvalues => ?_
  have hlength := length_values hvalues
  have hmax : Descriptor.maxArgs = 8 := rfl
  have hargs := hi.args
  have hword : UInt64.size = 2 ^ 64 := rfl
  exact h.bind (h.pushValues (by omega)) fun _ => h.bind (h.pushCell _ _) fun _ =>
    h.bind (h.pushCell _ _) fun _ => h.jump _

theorem resultSlot (h : Alike R S P Q) (hi : i.Shaped)
    (hfixed : i.datatype ≠ .none → 1 < i.fixed.length) :
    S (P.resultSlot i) (Q.resultSlot i) := by
  unfold Primitives.resultSlot
  by_cases hdt : i.datatype = .none
  · rw [if_pos hdt, if_pos hdt]
    exact h.pure _
  · rw [if_neg hdt, if_neg hdt]
    exact h.bind (h.fixedOperand hi (hfixed hdt)) fun _ => h.bind (h.place _) fun _ =>
      h.bind (h.checkWritable _ _) fun _ => h.pure _

theorem storeResult (h : Alike R S P Q) (name : String) (dt : Datatype) (slot : Option Address)
    (result : Option Value) :
    S (P.storeResult name dt slot result) (Q.storeResult name dt slot result) := by
  cases slot with
  | none => exact h.pure _
  | some a =>
    cases result with
    | none => exact h.pure _
    | some v =>
      unfold Primitives.storeResult
      dsimp only
      cases v.cast? dt with
      | some w => exact h.store _ _ _
      | none => exact h.fault _

theorem foreignCall (h : Alike R S P Q) (hi : i.Shaped) (hforeign : i.opcode = .foreign)
    (cp : Address) : S (P.foreignCall i cp) (Q.foreignCall i cp) := by
  obtain ⟨target, slot, hfixed, hslot⟩ := hi.foreign_fixed hforeign
  have hfirst : 0 < i.fixed.length := by rw [hfixed]; exact Nat.zero_lt_succ _
  have hsecond : i.datatype ≠ .none → 1 < i.fixed.length := by
    intro hdt
    obtain ⟨o, rfl⟩ := Option.ne_none_iff_exists'.mp fun hnone => hdt (hslot.mp hnone)
    rw [hfixed]
    exact Nat.one_lt_two
  refine h.bind (h.fixedOperand hi hfirst) fun _ => h.bind (h.place _) fun _ =>
    h.bind (h.readText _) fun name => h.bind_of_ok (h.function _) fun _ _ f _ hR hfound => ?_
  refine h.bind (h.arguments hi) fun _ => h.bind (h.values _) fun _ => h.ite ?_ (h.fault _)
  exact h.bind (h.ofExcept _) fun _ => h.bind (h.resultSlot hi hsecond) fun _ =>
    h.bind (h.invoke hR hfound _) fun _ => h.storeResult _ _ _ _

theorem perform (h : Alike R S P Q) (hi : i.Shaped) (cp next : Address) :
    S (P.perform i cp next) (Q.perform i cp next) := by
  -- The operands that an instruction uses are those of its layout.
  have hplace : ∀ {β : Type} {k : Nat} {f : Address → EStateM ε σ β} {g : Address → EStateM ε' τ β},
      k < i.fixed.length → (∀ a, S (f a) (g a)) →
        S (P.operand i k >>= fun o => P.place o >>= f)
          (Q.operand i k >>= fun o => Q.place o >>= g) := fun hk hf =>
    h.bind (h.operandAt hi hk) fun _ => h.bind (h.place _) hf
  have hvalue : ∀ {β : Type} {k : Nat} {dt : Datatype} {f : Cell → EStateM ε σ β}
      {g : Cell → EStateM ε' τ β}, k < i.fixed.length → (∀ c, S (f c) (g c)) →
        S (P.operand i k >>= fun o => P.value o dt >>= f)
          (Q.operand i k >>= fun o => Q.value o dt >>= g) := fun hk hf =>
    h.bind (h.operandAt hi hk) fun _ => h.bind (h.value _ _) hf
  unfold Primitives.perform
  cases hop : i.opcode with
  | nop | exit => exact h.pure _
  | mov =>
    have hfixed : i.fixed.length = 2 := hi.length_eq hop (by simp)
    exact hplace (by omega) fun _ => hvalue (by omega) fun _ => h.store _ _ _
  | convert =>
    have hfixed : i.fixed.length = 3 := hi.length_eq hop (by simp)
    refine hplace (by omega) fun _ => h.bind (h.operandAt hi (by omega)) fun _ =>
      h.bind (h.namedType _) fun _ => h.bind (h.operandAt hi (by omega)) fun _ =>
        h.bind (h.value _ _) fun _ => h.bind (h.ofExcept _) fun _ => h.store _ _ _
  | copy =>
    have hfixed : i.fixed.length = 3 := hi.length_eq hop (by simp)
    exact hplace (by omega) fun _ => hplace (by omega) fun _ => hvalue (by omega) fun _ =>
      h.bind (h.read _ _) fun _ => h.write _ _
  | binary op =>
    have hfixed : i.fixed.length = 2 := hi.length_eq hop (by simp)
    exact hplace (by omega) fun _ => h.bind (h.load _ _) fun _ => hvalue (by omega) fun _ =>
      h.bind (h.ofExcept _) fun _ => h.store _ _ _
  | unary op =>
    have hfixed : i.fixed.length = 1 := hi.length_eq hop (by simp)
    exact hplace (by omega) fun _ => h.bind (h.load _ _) fun _ => h.bind (h.ofExcept _) fun _ =>
      h.store _ _ _
  | compare op =>
    have hfixed : i.fixed.length = 3 := hi.length_eq hop (by simp)
    exact hplace (by omega) fun _ => hvalue (by omega) fun _ => hvalue (by omega) fun _ =>
      h.bind (h.ofExcept _) fun _ => h.store _ _ _
  | jmp =>
    have hfixed : i.fixed.length = 1 := hi.length_eq hop (by simp)
    exact hplace (by omega) fun _ => h.jump _
  | branch onNonzero =>
    have hfixed : i.fixed.length = 2 := hi.length_eq hop (by simp)
    exact hplace (by omega) fun _ => hvalue (by omega) fun _ => h.ite (h.jump _) (h.pure _)
  | loop =>
    have hfixed : i.fixed.length = 1 := hi.length_eq hop (by simp)
    exact hplace (by omega) fun _ => h.bind (h.register _) fun _ => h.bind (h.setRegister _ _)
      fun _ => h.ite (h.jump _) (h.pure _)
  | call =>
    have hfixed : i.fixed.length = 1 := hi.length_eq hop (by simp)
    exact h.call hi (by omega) next
  | ret =>
    exact h.bind (h.popCell _) fun _ => h.bind (h.popCell _) fun _ => h.bind (h.stackSub _) fun _ =>
      h.jump _
  | foreign => exact h.foreignCall hi hop cp
  | push =>
    have hfixed : i.fixed.length = 1 := hi.length_eq hop (by simp)
    exact hvalue (by omega) fun _ => h.pushCell _ _
  | pop =>
    have hfixed : i.fixed.length = 1 := hi.length_eq hop (by simp)
    exact hplace (by omega) fun _ => h.bind (h.popCell _) fun _ => h.store _ _ _
  | spAdd =>
    have hfixed : i.fixed.length = 1 := hi.length_eq hop (by simp)
    exact hvalue (by omega) fun _ => h.stackAdd _
  | spSub =>
    have hfixed : i.fixed.length = 1 := hi.length_eq hop (by simp)
    exact hvalue (by omega) fun _ => h.stackSub _
  | pushFrame => exact h.pushFrame
  | popFrame => exact h.popFrame
  | alloc =>
    have hfixed : i.fixed.length = 2 := hi.length_eq hop (by simp)
    exact hplace (by omega) fun _ => hvalue (by omega) fun _ => h.bind (h.checkWritable _ _)
      fun _ => h.bind (h.alloc _) fun _ => h.store _ _ _
  | free =>
    have hfixed : i.fixed.length = 1 := hi.length_eq hop (by simp)
    exact hplace (by omega) fun _ => h.free _

/-- Where the operations do the same, so do the instructions. -/
theorem execute (h : Alike R S P Q) (hi : i.Shaped) (size : Nat) (cp : Address) :
    S (P.execute i size cp) (Q.execute i size cp) :=
  h.bind (h.jump _) fun _ => h.perform hi cp _

end Alike

end Primitives

/-! ## Histories -/

/-- What can be seen of a machine : its memory with the registers, the console, and how far it has
come. -/
structure View where
  host : Host
  halted : Option Int64
  steps : Nat

namespace Machine

def view (s : Machine) : View := ⟨s.host, s.halted, s.steps⟩

/-- What the next `n` steps give, each with what can be seen behind it. -/
def history (n : Nat) (s : Machine) : List (Except RunError Outcome × View) :=
  CellMachine.history step view n s

theorem ofImage_eq_ok {image : Image} {registry : Registry} {config : Config} {s : Machine}
    (h : ofImage image registry config = .ok s) :
    s = ⟨⟨.initial image config, #[]⟩, registry, config, [], none, 0⟩ := by
  unfold ofImage at h
  split at h
  · exact (Except.ok.inj h).symm
  · cases h

end Machine

end CellMachine
