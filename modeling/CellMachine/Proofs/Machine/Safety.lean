import CellMachine.Proofs.Instruction.Bounds
import CellMachine.Proofs.Machine.Bounds
import CellMachine.Proofs.Machine.Fault
import CellMachine.Proofs.Machine.Primitives
import CellMachine.Proofs.Machine.Routine

/-!
# Steps inside the bounds

A machine that checks every access of a step (`CheckedExec.step`) : those of the decoder to the
code, those of an instruction to its operands, the sizes that a call adds up, and those to memory.
It never finds anything out of range, whatever the code of the image is and whatever bits the
program puts into its pointers (`Machine.history_checked`). All that is asked is that sizes are
words and that foreign functions leave memory that fits, as those of the library do.
-/

namespace CellMachine

/-! ## The machine that checks -/

/-- An action of the machine that checks its accesses. -/
abbrev CheckedExec := Checked Fault Machine

namespace CheckedExec

open Checked

variable {ε α : Type}

/-- An action on the memory. -/
def ofMemory (op : Checked ε Memory α) : Checked ε Machine α := fun s =>
  match op s.memory with
  | .ok a m => .ok a (s.updateMemory fun _ => m)
  | .error e m => .error e (s.updateMemory fun _ => m)

/-- The operations of the machine. An instruction has its operands in a table. -/
def primitives : Primitives CheckedExec where
  fault := raise
  operand i k := do
    require (i.operands.length ≤ Instruction.maxOperands)
    item i.operands k
  fixedOperand i k := do
    require (i.fixed.length ≤ Instruction.maxOperands)
    item i.fixed k
  arguments i := do
    require (i.fixed.length ≤ i.operands.length ∧ i.operands.length ≤ Instruction.maxOperands)
    return i.operands.drop i.fixed.length
  addSizes := add
  register r := ofMemory (CheckedOp.register r)
  setRegister r c := ofMemory (CheckedOp.setRegister r c)
  load a dt := ofMemory (CheckedOp.load a dt)
  store a dt c := ofMemory (CheckedOp.store a dt c)
  read a len := ofMemory (CheckedOp.read a len)
  write a bytes := ofMemory (CheckedOp.write a bytes)
  readText a := ofMemory (CheckedOp.readText a)
  checkWritable a len := ofMemory (CheckedOp.checkWritable a len)
  pushCell c dt := ofMemory (CheckedOp.pushCell c dt)
  popCell dt := ofMemory (CheckedOp.popCell dt)
  stackAdd n := ofMemory (CheckedOp.stackAdd n)
  stackSub n := ofMemory (CheckedOp.stackSub n)
  pushFrame := ofMemory CheckedOp.pushFrame
  popFrame := ofMemory CheckedOp.popFrame
  alloc size := ofMemory (CheckedOp.alloc size)
  free a := ofMemory (ofAction (MemoryOp.free a))
  function site := ofAction (Primitives.grantedFunction site)
  invoke f d := ofAction (Exec.ofHost (f.call d))

/-- The instruction at an address and its size, or nothing behind the end of the code. -/
def fetch (s : Machine) (cp : Address) : Except (Stop Fault) (Option (Instruction × Nat)) :=
  match if cp.base? = some .code then s.memory.code[cp.page]? else none with
  | none => .error (.failed (.invalidAddress cp.bits))
  | some code =>
    if code.size ≤ cp.intraOffset.toNat then .ok none
    else
      match s.config.maxSteps.filter (· ≤ s.steps) with
      | some limit => .error (.failed (.stepLimit limit))
      | none =>
        match decodeChecked code cp.intraOffset.toNat with
        | .ok p => .ok (some p)
        | .error (.failed e) => .error (.failed (.decode e))
        | .error .crash => .error .crash

/-- Ends the program with the exit code in its register. -/
def halt : Checked RunError Machine Outcome := do
  let code := (← ofMemory (CheckedOp.register .ec)).bits.toInt64
  modify fun s => { s with halted := some code }
  return .halted code

/-- Does something, and if it faults something else. -/
def attempt (x : CheckedExec α) (recover : Fault → Checked RunError Machine α) :
    Checked RunError Machine α := fun s =>
  match x s with
  | .ok a s => .ok a s
  | .error (.failed f) s => recover f s
  | .error .crash s => .error .crash s

/-- Sets the stack, frame and code pointer. -/
def restore (sp fp : Cell) (cp : Address) : Checked ε Machine Unit := do
  ofMemory (CheckedOp.setRegister .sp sp)
  ofMemory (CheckedOp.setRegister .fp fp)
  ofMemory (CheckedOp.setRegister .cp (.ofAddress cp))

/-- Carries out an instruction of `size` bytes at `cp`. If it faults the pointers are set as they
were. -/
def carryOut (i : Instruction) (size : Nat) (cp : Address) : Checked RunError Machine Outcome := do
  let sp ← ofMemory (CheckedOp.register .sp)
  let fp ← ofMemory (CheckedOp.register .fp)
  attempt (primitives.execute i size cp) fun f => do
    restore sp fp cp
    raise ⟨f, some cp, [mnemonic i.opcode i.datatype]⟩
  modify fun s => { s with steps := s.steps + 1 }
  if i.opcode = .exit then halt else return .paused

/-- Carries out the instruction at the code pointer. -/
def stepAction : Checked RunError Machine Outcome := do
  let s ← get
  match s.halted with
  | some code => return .halted code
  | none =>
    let cp := (← ofMemory (CheckedOp.register .cp)).toAddress
    match fetch s cp with
    | .error .crash => crash
    | .error (.failed f) => raise ⟨f, some cp, []⟩
    | .ok none => halt
    | .ok (some (i, size)) => carryOut i size cp

/-- Carries out one instruction. There is no outcome if an access is out of range. -/
def step (s : Machine) : Option (Except RunError Outcome) × Machine :=
  match stepAction s with
  | .ok o s => (some (.ok o), s)
  | .error (.failed e) s => (some (.error e), s)
  | .error .crash s => (none, s)

theorem updateMemory_const (s : Machine) (f : Memory → Memory) :
    (s.updateMemory fun _ => f s.memory) = s.updateMemory f := rfl

theorem register_eq (r : Register) :
    (ofMemory (CheckedOp.register r) : Checked ε Machine Cell) = do return (← get).register r := by
  funext s
  have hvalue : (pure (s.memory.register r) : Checked ε Memory Cell) s.memory =
      .ok (s.memory.register r) s.memory := rfl
  unfold ofMemory
  rw [CheckedOp.register_eq, get_bind_apply, hvalue]
  rfl

theorem setRegister_eq (r : Register) (c : Cell) :
    (ofMemory (CheckedOp.setRegister r c) : Checked ε Machine Unit) =
      modify (·.updateMemory (·.setRegister r c)) := by
  funext s
  have hmodify : (modify (·.setRegister r c) : Checked ε Memory Unit) s.memory =
      .ok () (s.memory.setRegister r c) := rfl
  unfold ofMemory
  rw [CheckedOp.setRegister_eq, hmodify]
  dsimp only
  rw [updateMemory_const s (·.setRegister r c)]
  rfl

theorem updateMemory_updateMemory (s : Machine) (f g : Memory → Memory) :
    (s.updateMemory f).updateMemory g = s.updateMemory fun m => g (f m) := rfl

theorem restore_eq (sp fp : Cell) (cp : Address) :
    (restore sp fp cp : Checked ε Machine Unit) = modify (·.withPointers cp sp fp) := by
  unfold restore Machine.withPointers Memory.setPointer
  simp only [setRegister_eq]
  funext s
  rw [modify_bind_apply, modify_bind_apply, modify_apply, modify_apply,
    updateMemory_updateMemory, updateMemory_updateMemory]

end CheckedExec

/-! ## Machines whose memory fits -/

/-- Memory that fits in front fits behind. -/
def Host.Keeps (h h' : Host) : Prop := h.memory.Fits → h'.memory.Fits

instance : Std.Refl Host.Keeps := ⟨fun _ hfits => hfits⟩

instance : Trans Host.Keeps Host.Keeps Host.Keeps := ⟨fun h h' hfits => h' (h hfits)⟩

/-- A function that leaves memory that fits. -/
def ForeignFunction.Keeps (f : ForeignFunction) : Prop :=
  ∀ d : CallData, Relates Host.Keeps (f.call d)

/-- All functions of a registry leave memory that fits. -/
def Registry.Keeps (registry : Registry) : Prop :=
  ∀ name f, registry name = .ok (some f) → f.Keeps

namespace Machine

/-- The memory fits, and no function that can be called changes that. -/
structure Sound (s : Machine) : Prop where
  memory : s.memory.Fits
  registry : s.registry.Keeps
  cache : ∀ p ∈ s.cache, p.2.Keeps

/-- Two machines are the same one, which is sound. -/
def Same (s t : Machine) : Prop := t = s ∧ s.Sound

variable {s : Machine}

theorem Sound.updateMemory (h : s.Sound) {f : Memory → Memory} (hf : (f s.memory).Fits) :
    (s.updateMemory f).Sound := ⟨hf, h.registry, h.cache⟩

theorem Sound.withPointers (h : s.Sound) (cp : Address) (sp fp : Cell) :
    (s.withPointers cp sp fp).Sound :=
  h.updateMemory (((h.memory.setRegister .sp sp).setRegister .fp fp).setRegister .cp _)

end Machine

namespace CheckedExec

open Checked

variable {α : Type} {s : Machine}

theorem simulates_ofMemory {x : MemoryOp α} {y : CheckedOp α} (h : Mirrors x y) :
    Simulates Stop.failed Machine.Same (Exec.ofMemory x) (ofMemory y) := by
  rintro _ s ⟨rfl, hs⟩
  have hmatches := h ⟨rfl, hs.memory⟩
  obtain ⟨⟨memory, console⟩, registry, config, cache, halted, steps⟩ := s
  unfold Exec.ofMemory ofMemory
  dsimp only [Machine.memory] at hmatches ⊢
  obtain ⟨a, m, _, hx, hy, rfl, hfits⟩ | ⟨e, m, _, hx, hy, rfl, hfits⟩ :=
    hmatches.eq_ok_or_eq_error
  · rw [hx, hy]
    exact .ok a ⟨rfl, hfits, hs.registry, hs.cache⟩
  · rw [hx, hy]
    exact .error e ⟨rfl, hfits, hs.registry, hs.cache⟩

theorem simulates_register (r : Register) :
    Simulates Stop.failed Machine.Same (Primitives.machine.register r) (primitives.register r) := by
  rintro _ s ⟨rfl, hs⟩
  change Matches _ _ (Primitives.machine.register r s) (ofMemory (CheckedOp.register r) s)
  rw [register_eq]
  exact .ok _ ⟨rfl, hs⟩

theorem simulates_setRegister (r : Register) (c : Cell) :
    Simulates Stop.failed Machine.Same (Primitives.machine.setRegister r c)
      (primitives.setRegister r c) := by
  rintro _ s ⟨rfl, hs⟩
  change Matches _ _ (Primitives.machine.setRegister r c s)
    (ofMemory (CheckedOp.setRegister r c) s)
  rw [setRegister_eq]
  exact .ok _ ⟨rfl, hs.updateMemory (hs.memory.setRegister r c)⟩

theorem simulates_function (site : CallSite) :
    Simulates Stop.failed Machine.Same (Primitives.grantedFunction site)
      (ofAction (Primitives.grantedFunction site)) := by
  rintro _ s ⟨rfl, hs⟩
  unfold ofAction
  obtain ⟨e, he⟩ | ⟨p, hp, he⟩ | ⟨f, hf, he⟩ := Primitives.grantedFunction_cases site s
  · rw [he]
    exact .error e ⟨rfl, hs⟩
  · rw [he]
    exact .ok p.2 ⟨rfl, hs⟩
  · rw [he]
    refine .ok f ⟨rfl, hs.memory, hs.registry, ?_⟩
    rw [List.forall_mem_cons]
    exact ⟨hs.registry _ f hf, hs.cache⟩

/-- A function that was found leaves memory that fits. -/
theorem keeps_of_function {site : CallSite} {f : ForeignFunction} {s' : Machine}
    (hs : s.Sound) (h : Primitives.grantedFunction site s = .ok f s') : f.Keeps := by
  obtain ⟨e, he⟩ | ⟨p, hp, he⟩ | ⟨f', hf, he⟩ := Primitives.grantedFunction_cases site s
  · rw [he] at h
    cases h
  · rw [he] at h
    cases h
    exact hs.cache p hp
  · rw [he] at h
    cases h
    exact hs.registry _ _ hf

theorem simulates_invoke {f : ForeignFunction} (hf : f.Keeps) (d : CallData) :
    Simulates Stop.failed Machine.Same (Exec.ofHost (f.call d))
      (ofAction (Exec.ofHost (f.call d))) := by
  rintro _ s ⟨rfl, hs⟩
  have hfits := hf d s.host hs.memory
  obtain ⟨host, registry, config, cache, halted, steps⟩ := s
  unfold ofAction Exec.ofHost
  dsimp only at hfits ⊢
  cases hcall : f.call d host with
  | ok a host' =>
    rw [hcall] at hfits
    exact .ok a ⟨rfl, hfits, hs.registry, hs.cache⟩
  | error e host' =>
    rw [hcall] at hfits
    exact .error _ ⟨rfl, hfits, hs.registry, hs.cache⟩

theorem length_operands_le {i : Instruction} (hi : i.Shaped) :
    i.operands.length ≤ Instruction.maxOperands := by
  have hfixed := hi.fixed
  have hroles := i.opcode.length_fixedRoles_le i.datatype
  have hargs := hi.args
  have hmax : Descriptor.maxArgs = 8 := rfl
  have htable : Instruction.maxOperands = 16 := rfl
  rw [Instruction.operands, List.length_append]
  omega

theorem item_of_lt {β : Type} [Inhabited β] {xs : List β} {k : Nat} (h : k < xs.length) :
    (item xs k : CheckedExec β) = pure (xs[k]?.getD default) := by
  rw [List.getElem?_eq_getElem h]
  exact item_eq (List.getElem?_eq_getElem h)

/-- The operations of the machine that checks do what those of the machine do. -/
theorem alike : Primitives.Alike Machine.Same (Simulates Stop.failed Machine.Same)
    Primitives.machine primitives where
  toRelator := Simulates.relator _ _
  fault f _ _ h := .error f h
  operand {i k} hi hk := by
    change Simulates _ _ (pure _) (require _ >>= fun _ => item _ _)
    rw [require_eq (length_operands_le hi), pure_bind, item_of_lt hk]
    exact .pure _
  fixedOperand {i k} hi hk := by
    have hle := length_operands_le hi
    rw [Instruction.operands, List.length_append] at hle
    change Simulates _ _ (pure _) (require _ >>= fun _ => item _ _)
    rw [require_eq (by omega), pure_bind, item_of_lt hk]
    exact .pure _
  typed _ := rfl
  arguments {i} hi := by
    have hle := length_operands_le hi
    have hdrop : i.operands.drop i.fixed.length = i.args := List.drop_left
    change Simulates _ _ (pure i.args) (require _ >>= fun _ => pure _)
    rw [require_eq ⟨by simp [Instruction.operands], hle⟩, pure_bind, hdrop]
    exact .pure _
  sum _ _ := rfl
  addSizes {x y} h := by
    change Simulates _ _ (pure (x + y)) (add x y)
    rw [add_eq h]
    exact .pure _
  register := simulates_register
  setRegister := simulates_setRegister
  load a dt := simulates_ofMemory (.load a dt)
  store a dt c := simulates_ofMemory (.store a dt c)
  read a len := simulates_ofMemory (.read a len)
  write a bytes := simulates_ofMemory (.write a bytes)
  readText a := simulates_ofMemory (.readText a)
  checkWritable a len := simulates_ofMemory (.checkWritable a len)
  pushCell c dt := simulates_ofMemory (.pushCell c dt)
  popCell dt := simulates_ofMemory (.popCell dt)
  stackAdd n := simulates_ofMemory (.stackAdd n)
  stackSub n := simulates_ofMemory (.stackSub n)
  pushFrame := simulates_ofMemory .pushFrame
  popFrame := simulates_ofMemory .popFrame
  alloc n := simulates_ofMemory (.alloc n)
  free a := simulates_ofMemory (.free a)
  function := simulates_function
  invoke hsame hfound d := simulates_invoke (keeps_of_function hsame.2 hfound) d

/-! ## Steps -/

/-- What the machine that checks makes of what stands at the code pointer. -/
def sized : Machine.Fetched → Except (Stop Fault) (Option (Instruction × Nat))
  | .fault f => .error (.failed f)
  | .endOfCode => .ok none
  | .instruction i => .ok (some (i, i.size))

theorem fetch_eq (s : Machine) (cp : Address) : fetch s cp = sized (s.fetch cp) := by
  have hpos : cp.intraOffset.toNat + 128 < UInt64.size := by
    have hle : cp.intraOffset.toNat ≤ cp.offset.toNat := by
      rw [Address.intraOffset, UInt64.toNat_and]
      exact Nat.and_le_left
    have hlt := cp.toNat_offset_lt
    have hword : UInt64.size = 2 ^ 64 := rfl
    omega
  unfold fetch Machine.fetch
  cases if cp.base? = some .code then s.memory.code[cp.page]? else none with
  | none => rfl
  | some code =>
    dsimp only
    by_cases hend : code.size ≤ cp.intraOffset.toNat
    · rw [if_pos hend, if_pos hend]
      rfl
    · rw [if_neg hend, if_neg hend]
      cases s.config.maxSteps.filter (· ≤ s.steps) with
      | some limit => rfl
      | none =>
        rw [decode_checked hpos]
        cases decode code cp.intraOffset.toNat <;> rfl

theorem halt_eq (s : Machine) : halt s = .ok s.halt.1 s.halt.2 := by
  unfold halt
  rw [register_eq]
  rfl

section CarryOut

variable {i : Instruction} {size : Nat} {cp : Address} {s₁ : Machine} {f : Fault}

theorem carryOut_of_ok (h : primitives.execute i size cp s = .ok () s₁) :
    carryOut i size cp s =
      (if i.opcode = .exit then halt else return .paused) { s₁ with steps := s₁.steps + 1 } := by
  unfold carryOut
  simp only [register_eq, bind_assoc, pure_bind]
  rw [get_bind_apply, get_bind_apply]
  change EStateM.bind _ _ s = _
  unfold EStateM.bind attempt
  rw [h]
  rfl

theorem carryOut_of_error (h : primitives.execute i size cp s = .error (.failed f) s₁) :
    carryOut i size cp s = .error (.failed ⟨f, some cp, [mnemonic i.opcode i.datatype]⟩)
      (s₁.withPointers cp (s.register .sp) (s.register .fp)) := by
  unfold carryOut
  simp only [register_eq, restore_eq, bind_assoc, pure_bind]
  rw [get_bind_apply, get_bind_apply]
  refine bind_eq_error.mpr (.inl ?_)
  unfold attempt
  rw [h]
  rfl

end CarryOut

/-- A machine that is sound does in a step what the machine that checks does. -/
theorem step_eq (hs : s.Sound) : step s = (some s.step.1, s.step.2) ∧ s.step.2.Sound := by
  unfold step stepAction Machine.step
  rw [get_bind_apply]
  cases hhalted : s.halted with
  | some code => exact ⟨rfl, hs⟩
  | none =>
    have hcp : (s.register .cp).toAddress = s.memory.pointer .cp := rfl
    simp only [register_eq, bind_assoc, pure_bind, get_bind_apply, fetch_eq, hcp]
    cases hfetch : s.fetch (s.memory.pointer .cp) with
    | fault f => exact ⟨rfl, hs⟩
    | endOfCode =>
      simp only [sized, halt_eq]
      exact ⟨rfl, hs.memory, hs.registry, hs.cache⟩
    | instruction i =>
      obtain ⟨code, hdecode⟩ := Machine.fetch_eq_instruction hfetch
      have hi := shaped_of_decode hdecode
      have hexecute := alike.execute hi i.size (s.memory.pointer .cp) ⟨rfl, hs⟩
      rw [← Exec.execute_eq hi] at hexecute
      simp only [sized]
      obtain ⟨_, s₁, _, hx, hy, rfl, hs₁⟩ | ⟨f, s₁, _, hx, hy, rfl, hs₁⟩ :=
        hexecute.eq_ok_or_eq_error
      · rw [hx, carryOut_of_ok hy]
        dsimp only
        by_cases hexit : i.opcode = .exit
        · simp only [if_pos hexit, halt_eq]
          exact ⟨rfl, hs₁.memory, hs₁.registry, hs₁.cache⟩
        · simp only [if_neg hexit]
          exact ⟨rfl, hs₁.memory, hs₁.registry, hs₁.cache⟩
      · rw [hx, carryOut_of_error hy]
        exact ⟨rfl, hs₁.withPointers _ _ _⟩

end CheckedExec

/-! ## The functions of the library -/

namespace Native

theorem relates_consoleArg {α : Type} (arg : Except ForeignError α) :
    Relates Host.Keeps (consoleArg arg) := by
  cases arg with
  | ok a => exact .pure a
  | error e => exact .throw _

theorem relates_ofExcept {α : Type} (x : Except ForeignError α) :
    Relates Host.Keeps (HostOp.ofExcept x) := by
  cases x with
  | ok a => exact .pure a
  | error e => exact .throw _

theorem relates_access {α : Type} {op : MemoryOp α}
    (h : ∀ m : Memory, m.Fits → (stateAfter (op m)).Fits) :
    Relates Host.Keeps (HostOp.access op) := by
  rintro ⟨memory, console⟩ hfits
  have hafter := h memory hfits
  unfold HostOp.access
  dsimp only
  cases hop : op memory with
  | ok a m =>
    rw [hop] at hafter
    exact hafter
  | error e m =>
    rw [hop] at hafter
    exact hafter

theorem fits_query {α : Type} (f : Memory → Except Fault α) (m : Memory) (h : m.Fits) :
    (stateAfter (MemoryOp.query f m)).Fits := by
  unfold MemoryOp.query
  cases f m <;> exact h

theorem keeps_printer (arity : Nat) {text : CallData → HostOp (List UInt8)}
    (h : ∀ d, Relates Host.Keeps (text d)) : (printer arity text).Keeps :=
  fun d => .bind (h d) fun _ => .bind (.modify fun _ hfits => hfits) fun _ => .pure _

theorem keeps_console : ∀ p ∈ console, p.2.Keeps := by
  simp only [console, List.forall_mem_cons, List.not_mem_nil, false_implies, implies_true, and_true]
  refine ⟨?_, ?_, ?_, ?_, ?_, ?_⟩
  · exact keeps_printer 1 fun _ => .bind (relates_consoleArg _) fun _ => .pure _
  · exact keeps_printer 1 fun _ => .bind (relates_consoleArg _) fun _ => .pure _
  · exact keeps_printer 1 fun _ => .bind (relates_consoleArg _) fun _ => .pure _
  · exact keeps_printer 1 fun _ => .bind (relates_consoleArg _) fun _ => .pure _
  · exact keeps_printer 1 fun _ => .bind (relates_consoleArg _) fun _ =>
      .bind (relates_access (fits_query _)) fun _ => .pure _
  · exact keeps_printer 0 fun _ => .pure _

theorem keeps_memory : ∀ p ∈ memory, p.2.Keeps := by
  simp only [memory, List.forall_mem_cons, List.not_mem_nil, false_implies, implies_true, and_true]
  refine ⟨fun d => ?_, fun d => ?_⟩
  · exact .bind (relates_ofExcept _) fun _ => .bind (relates_ofExcept _) fun _ =>
      .bind (relates_ofExcept _) fun _ => .bind (relates_access (fits_query _)) fun _ =>
        .bind (relates_access fun _ h => Mirrors.fits_write h _ _) fun _ => .pure _
  · exact .bind (relates_ofExcept _) fun _ => .bind (relates_access (fits_query _)) fun _ => .pure _

/-- The functions of the built-in libraries leave memory that fits. -/
theorem keeps_registry : registry.Keeps := forall_registry keeps_console keeps_memory

end Native

/-! ## Runs -/

/-- The sizes of code and static data are words. -/
def Image.Fits (image : Image) : Prop :=
  ∀ o ∈ image.objects, o.code.size < UInt64.size ∧ o.static.size < UInt64.size

theorem Memory.fits_initial {image : Image} {config : Config} (himage : image.Fits)
    (hconfig : config.maxStack < UInt64.size) : (Memory.initial image config).Fits := by
  refine Fits.setRegister (Fits.setRegister (Fits.setRegister ⟨hconfig, ?_, fun page b hb => ?_,
    fun page b hb => ?_, Nat.zero_le _⟩ _ _) _ _) _ _
  · rw [Buffer.zeros, Array.size_replicate]
    exact Nat.min_le_right _ _
  · rw [List.getElem?_toArray, List.getElem?_map] at hb
    obtain ⟨o, ho, rfl⟩ := Option.map_eq_some_iff.mp hb
    exact (himage o (List.mem_of_getElem? ho)).2
  · rw [List.getElem?_toArray, List.getElem?_map] at hb
    obtain ⟨o, ho, rfl⟩ := Option.map_eq_some_iff.mp hb
    exact (himage o (List.mem_of_getElem? ho)).1

namespace Machine

/-- No access of a step is out of range : the machine that checks every access always has an
outcome, and it is that of the machine. -/
theorem history_checked {image : Image} {registry : Registry} {config : Config} {s : Machine}
    (himage : image.Fits) (hconfig : config.maxStack < UInt64.size) (hregistry : registry.Keeps)
    (h : ofImage image registry config = .ok s) (n : Nat) :
    CellMachine.history CheckedExec.step view n s =
      (s.history n).map fun p => (some p.1, p.2) := by
  have hsound : s.Sound := by
    rw [ofImage_eq_ok h]
    exact ⟨Memory.fits_initial himage hconfig, hregistry, fun _ hp => absurd hp (by simp)⟩
  have hstep : ∀ s t : Machine, Same s t →
      some s.step.1 = (CheckedExec.step t).1 ∧ Same s.step.2 (CheckedExec.step t).2 := by
    rintro _ s ⟨rfl, hs⟩
    obtain ⟨hstep, hafter⟩ := CheckedExec.step_eq hs
    rw [hstep]
    exact ⟨rfl, rfl, hafter⟩
  have hview : ∀ s t : Machine, Same s t → s.view = t.view := fun _ _ hsame => by rw [hsame.1]
  rw [Machine.history, ← history_map]
  exact (history_eq_of_simulates hstep hview n ⟨rfl, hsound⟩).symm

/-- Sets every bit of the stack pointer and pushes. -/
def reckless : Image :=
  ⟨[⟨"m", [], ∅, ∅, #[16, 7, 0, 0, 8, 0, 0, 0, 0, 0, 0, 160, 255, 255, 255, 255, 255, 255, 255, 255,
    96, 4, 0, 0, 1], #[], [], [], []⟩], ∅, ∅, ∅, ∅⟩

theorem history_checked_reckless : ∃ s, ofImage reckless Native.registry ⟨8, 64, ∅, none⟩ = .ok s ∧
    CellMachine.history CheckedExec.step view 3 s =
      (s.history 3).map (fun p => (some p.1, p.2)) ∧
    (s.history 3).map (·.1.isOk) = [true, false, false] := by
  have hstart : ofImage reckless Native.registry ⟨8, 64, ∅, none⟩ =
      .ok ⟨⟨.initial reckless ⟨8, 64, ∅, none⟩, #[]⟩, Native.registry, ⟨8, 64, ∅, none⟩, [], none,
        0⟩ := rfl
  have himage : reckless.Fits := by
    intro o ho
    obtain rfl := List.mem_singleton.mp ho
    decide
  exact ⟨_, hstart, history_checked himage (by decide) Native.keeps_registry hstart 3, by cbv⟩

end Machine

end CellMachine
