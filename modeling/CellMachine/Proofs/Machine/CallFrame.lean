import CellMachine.Proofs.Assembly.Program
import CellMachine.Proofs.Machine.Fault
import CellMachine.Proofs.Machine.Stack
import Mathlib

/-!
# The frame of a call

A call pushes its arguments, their size and the address to return to, and the function it calls
saves the frame pointer behind them. `Memory.FrameAt` says that all of this lies right below the
frame. The two steps together make it so (`Machine.frameAt_of_steps`), and it stays so while nothing
below the frame is changed. From it follows what the function finds : each argument at the place
that the assembler has given to its parameter (`Memory.FrameAt.load_parameter`), and with `popframe`
and `ret` the way back (`Machine.returnsTo_of_frameAt`).

`Machine.serves_of_call` is the main result.
-/

namespace CellMachine

/-! ## Symbols of a function -/

namespace Assembler

theorem symbol?_of_mem {s : Assembler} (hs : s.Consistent) {x : Symbol}
    (hx : x ∈ s.object.symbols) : s.symbol? x.name = some x := by
  unfold symbol?
  rw [hs.index]
  cases hfind : s.object.symbols.findIdx? (·.name == x.name) with
  | none =>
    rw [List.findIdx?_eq_none_iff] at hfind
    simpa using hfind x hx
  | some i =>
    obtain ⟨hi, hname, -⟩ := List.findIdx?_eq_some_iff_getElem.mp hfind
    have hsame := List.inj_on_of_nodup_map hs.distinct (List.getElem_mem hi) hx
      (by simpa using hname)
    rw [Option.bind_some, List.getElem?_eq_getElem hi, hsame]

/-- A name means the symbol of the innermost scope, if there is one. -/
theorem lookup_of_symbol? {s : Assembler} {path : List String} {name : String} {x : Symbol}
    (h : s.symbol? (qualify path name) = some x) : s.lookup path name = some x := by
  unfold lookup candidates
  rw [List.range_succ, List.reverse_append, List.reverse_singleton, List.singleton_append,
    List.map_cons, List.findSome?_cons, List.take_length, h]

end Assembler

/-- Takes the name and the parameters of a function. -/
def Parser.signature : Parser (String × List (String × Datatype)) := do
  let name ← expectName
  return (name, ← parameterList)

namespace Asm

open Assembler (Consistent Extends)

/-- The place that a parameter gets when it is the first of `params`. -/
def parameterPlace (params : List (String × Datatype)) : Address :=
  .make .frameSub (UInt64.ofNat (callLinkSize + parametersSize params))

variable {s s' : Assembler} {params : List (String × Datatype)}

theorem defineParameters_spec (h : defineParameters params s = .ok () s') :
    s'.path = s.path ∧ s'.object.code = s.object.code ∧
      s.object.symbols <+: s'.object.symbols ∧
      ∀ k p, params[k]? = some p →
        ⟨qualify s.path p.1, .alias, .addr (parameterPlace (params.drop k))⟩ ∈
          s'.object.symbols := by
  induction params generalizing s with
  | nil =>
    cases h
    exact ⟨rfl, rfl, List.prefix_rfl, by simp⟩
  | cons p rest ih =>
    obtain ⟨_, s₁, hdefine, h⟩ := bind_eq_ok.mp h
    obtain ⟨-, rfl⟩ := define_eq_ok.mp hdefine
    obtain ⟨hpath, hcode, hsymbols, hrest⟩ := ih h
    refine ⟨hpath, hcode, (List.prefix_append _ _).trans hsymbols, fun k q hq => ?_⟩
    cases k with
    | zero =>
      cases hq
      exact hsymbols.subset (by simp [Assembler.withSymbol, parameterPlace])
    | succ k => exact hrest k q hq

/-- What `#func` leaves behind : the symbol of the function and those of its parameters, and the
instruction that pushes the frame. -/
theorem function_spec {f : String} {c : Cursor}
    (hsignature : Parser.signature s.cursor = .ok (f, params) c) (h : function true s = .ok () s') :
    s'.path = s.path ++ [f] ∧
      s'.object.code.toList = s.object.code.toList ++ (plainInstruction .pushFrame).encode ∧
      ⟨qualify s.path f, .function, .addr s.codeEnd⟩ ∈ s'.object.symbols ∧
      ∀ k p, params[k]? = some p →
        ⟨qualify s'.path p.1, .alias, .addr (parameterPlace (params.drop k))⟩ ∈
          s'.object.symbols := by
  obtain ⟨_, s₁, hhead, h⟩ := bind_eq_ok.mp h
  cases h
  obtain ⟨name, c₁, hname, hhead⟩ := ofParser_bind_eq_ok.mp hhead
  obtain ⟨_, _, hget, hhead⟩ := bind_eq_ok.mp hhead
  cases hget
  obtain ⟨_, s₂, hdefine, hhead⟩ := bind_eq_ok.mp hhead
  obtain ⟨-, rfl⟩ := define_eq_ok.mp hdefine
  obtain ⟨params', c₂, hparams, hhead⟩ := ofParser_bind_eq_ok.mp hhead
  obtain ⟨_, s₃, hscope, hhead⟩ := bind_eq_ok.mp hhead
  cases hscope
  -- The name is defined in front of the parameters, which leaves the cursor.
  have hread : Parser.signature s.cursor = .ok (name, params') c₂ :=
    bind_eq_ok.mpr ⟨_, _, hname, bind_eq_ok.mpr ⟨_, _, hparams, rfl⟩⟩
  cases hsignature.symm.trans hread
  obtain ⟨hpath, hcode, hsymbols, hdefined⟩ := defineParameters_spec hhead
  have hpath' : s₁.path = s.path ++ [f] := by
    rw [hpath]
    simp [Assembler.path, Assembler.withSymbol, Assembler.movedTo]
  refine ⟨hpath', ?_, hsymbols.subset ?_, fun k p hp => ?_⟩
  · change (s₁.object.code ++ (plainInstruction .pushFrame).encode.toArray).toList = _
    rw [hcode]
    simp [Assembler.withSymbol, Assembler.movedTo]
  · exact List.mem_append_right _ (List.mem_singleton.mpr rfl)
  · have hmem := hdefined k p hp
    rw [← hpath] at hmem
    exact hmem

/-- A function as the assembler knows it behind its `#func`. -/
structure Declares (s s' : Assembler) (f : String) (params : List (String × Datatype)) : Prop where
  /-- Where the function starts, its frame is pushed. -/
  start : s'.symbol? (qualify s.path f) = some ⟨qualify s.path f, .function, .addr s.codeEnd⟩
  code : s'.object.code.toList = s.object.code.toList ++ (plainInstruction .pushFrame).encode
  parameters : ∀ k p, params[k]? = some p → s'.lookup s'.path p.1 =
    some ⟨qualify s'.path p.1, .alias, .addr (parameterPlace (params.drop k))⟩

/-- A `#func` that is assembled declares its function. -/
theorem declares_of_statement {expand : Asm Unit} {f : String} {c : Cursor} (hs : s.Consistent)
    (hmark : s.cursor.current.kind = .directive) (hname : s.cursor.next.current.text = "func")
    (hsignature : Parser.signature s.cursor.next.next = .ok (f, params) c)
    (h : statement expand s = .ok () s') : Declares s s' f params := by
  obtain ⟨_, s₁, hbody, h⟩ := bind_eq_ok.mp h
  obtain ⟨_, c₁, hend, h⟩ := ofParser_bind_eq_ok.mp h
  obtain ⟨c₃, -, rfl⟩ := ofParser_eq_ok.mp h
  have hdirective : directive (s.movedTo s.cursor.next) = .ok () s₁ := by
    rcases statementBody_cases expand s with
      ⟨-, hcase⟩ | ⟨op, -, hkind, -⟩ | ⟨hkind, -⟩ | ⟨hkind, -⟩
    · exact hcase.symm.trans hbody
    · cases hmark.symm.trans hkind
    · cases hmark.symm.trans hkind
    · exact absurd hmark hkind
  have hs₁ : s₁.Consistent :=
    (extends_directive.of_ok hdirective).consistent (hs.of_eq rfl rfl rfl rfl)
  obtain ⟨t, c₂, hexpect, hfunction⟩ := ofParser_bind_eq_ok.mp hdirective
  obtain ⟨rfl, rfl⟩ := expect_eq_ok hexpect
  have hfunction : function true (s.movedTo s.cursor.next.next) = .ok () s₁ :=
    (congrFun (directiveNamed_func hname) _).symm.trans hfunction
  obtain ⟨-, hcode, hstart, hparameters⟩ :=
    function_spec (s := s.movedTo s.cursor.next.next) hsignature hfunction
  have hs' : ((s₁.movedTo c₁).movedTo c₃).Consistent := hs₁.of_eq rfl rfl rfl rfl
  refine ⟨Assembler.symbol?_of_mem hs' hstart, hcode, fun k p hp => ?_⟩
  exact Assembler.lookup_of_symbol? (Assembler.symbol?_of_mem hs' (hparameters k p hp))

end Asm

/-! ## Frames -/

/-- The bytes of call arguments, the first one at the bottom. -/
def argumentBytes (values : List (Datatype × Cell)) : List UInt8 :=
  values.flatMap fun v => v.2.bytes v.1

theorem length_argumentBytes (values : List (Datatype × Cell)) :
    (argumentBytes values).length = Datatype.totalSize (values.map (·.1)) := by
  induction values with
  | nil => rfl
  | cons v rest ih =>
    rw [argumentBytes, List.flatMap_cons, List.length_append, Cell.length_bytes]
    exact congrArg (v.1.size + ·) ih

/-- What a call puts on the stack : the arguments, their size and the address to return to. -/
def linkBytes (values : List (Datatype × Cell)) (next : Address) : List UInt8 :=
  argumentBytes values ++
    (Cell.bytes ⟨UInt64.ofNat (Datatype.totalSize (values.map (·.1)))⟩ .u64 ++
      (Cell.ofAddress next).bytes .addr)

theorem length_linkBytes (values : List (Datatype × Cell)) (next : Address) :
    (linkBytes values next).length = Datatype.totalSize (values.map (·.1)) + 16 := by
  simp only [linkBytes, List.length_append, length_argumentBytes, Cell.length_bytes]
  rfl

namespace Memory

/-- Right below the frame lie what a call has put on the stack from `top` on, and the frame pointer
`fp` that was saved. -/
structure FrameAt (m : Memory) (top : Nat) (values : List (Datatype × Cell)) (next : Address)
    (fp : Cell) : Prop where
  pointer : m.StackAt .fp (top + (linkBytes values next).length + 8)
  link : m.stack.Holds top (linkBytes values next)
  saved : m.stack.Holds (top + (linkBytes values next).length) (fp.bytes .addr)

variable {m m' : Memory} {top : Nat} {values : List (Datatype × Cell)} {next : Address} {fp : Cell}

/-- A frame stays one while the frame pointer and the bytes below it stay as they are. -/
theorem FrameAt.of_eq (h : m.FrameAt top values next fp)
    (hfp : m'.register .fp = m.register .fp)
    (hstack : ∀ i : Nat, i < m.stackOffset .fp → m'.stack[i]? = m.stack[i]?) :
    m'.FrameAt top values next fp := by
  rw [h.pointer.offset] at hstack
  have hroom := h.saved.1
  rw [Cell.length_bytes] at hroom
  have haddr : Datatype.addr.size = 8 := rfl
  have hsize : top + (linkBytes values next).length + 8 ≤ m'.stack.size := by
    have hlast := hstack (top + (linkBytes values next).length + 7) (by omega)
    have hinside : top + (linkBytes values next).length + 7 < m.stack.size := by omega
    rw [Array.getElem?_eq_getElem hinside] at hlast
    have hlt := (Array.getElem?_eq_some_iff.mp hlast).1
    omega
  refine ⟨h.pointer.of_register_eq hfp, h.link.of_getElem?_eq (by omega) fun i hi => ?_,
    h.saved.of_getElem?_eq ?_ fun i hi => ?_⟩
  · exact hstack i (by omega)
  · rw [Cell.length_bytes]
    exact hsize
  · rw [Cell.length_bytes] at hi
    exact hstack i hi

/-- A frame has each argument of the call at its distance from the first one. -/
theorem FrameAt.argument (h : m.FrameAt top values next fp) {k : Nat} {dt : Datatype} {c : Cell}
    (hk : values[k]? = some (dt, c)) :
    m.stack.Holds (top + Datatype.totalSize ((values.take k).map (·.1))) (c.bytes dt) := by
  have hheld := (Buffer.holds_append.mp h.link).1
  obtain ⟨hlt, hget⟩ := List.getElem?_eq_some_iff.mp hk
  rw [← List.take_append_drop k values, List.drop_eq_getElem_cons hlt, hget, argumentBytes,
    List.flatMap_append, List.flatMap_cons, Buffer.holds_append, Buffer.holds_append] at hheld
  rw [← length_argumentBytes]
  exact hheld.2.1

/-- Each argument is found at the place of its parameter. -/
theorem FrameAt.load_parameter (h : m.FrameAt top values next fp)
    {params : List (String × Datatype)} (htypes : values.map (·.1) = params.map (·.2)) {k : Nat}
    {dt : Datatype} {c : Cell} (hk : values[k]? = some (dt, c)) :
    m.load (Asm.parameterPlace (params.drop k)) dt = .ok (.ofBytes (c.bytes dt)) := by
  have hsplit : Asm.parametersSize params =
      Datatype.totalSize ((values.take k).map (·.1)) + Asm.parametersSize (params.drop k) := by
    rw [Asm.parametersSize, Asm.parametersSize, List.map_drop, ← htypes, List.map_take,
      ← Datatype.totalSize_append, List.take_append_drop]
  have hfp := h.pointer
  rw [length_linkBytes, htypes] at hfp
  change m.StackAt .fp (top + (Asm.parametersSize params + 16) + 8) at hfp
  have hlink : Asm.callLinkSize = 24 := rfl
  refine load_frameSub hfp (by omega) ?_
  have hplace : top + (Asm.parametersSize params + 16) + 8 -
      (Asm.callLinkSize + Asm.parametersSize (params.drop k)) =
        top + Datatype.totalSize ((values.take k).map (·.1)) := by omega
  rw [hplace]
  exact h.argument hk

end Memory

/-! ## The call -/

namespace MemoryOp

variable {m m' : Memory} {bytes : List UInt8}

/-- Neither does it matter to pushes what another register held before. -/
theorem Pushes.of_setRegister {r : Register} {c : Cell} (h : Pushes bytes (m.setRegister r c) m')
    (hsp : r ≠ .sp) (hfp : r ≠ .fp) : Pushes bytes m m' := by
  have hstack := Memory.stack_setRegister m r c
  refine ⟨by rw [← hstack]; exact h.size,
    h.frame.trans (Memory.register_setRegister_of_ne m c hfp.symm), fun top htop hfits => ?_⟩
  have hplaced := h.placed top
    (htop.of_register_eq (Memory.register_setRegister_of_ne m c hsp.symm)) hfits
  rw [hstack] at hplaced
  exact hplaced

end MemoryOp

namespace Exec

open MemoryOp (Pushes)

variable {s s' : Machine}

theorem pushes_ofMemory {c : Cell} {dt : Datatype} (h : ofMemory (.pushCell c dt) s = .ok () s') :
    Pushes (c.bytes dt) s.memory s'.memory := by
  obtain ⟨m, hm, rfl⟩ := ofMemory_eq_ok h
  exact MemoryOp.pushes_push hm

/-- Arguments are pushed one behind the other, in front of what is pushed next. -/
theorem pushes_pushArguments {values : List (Datatype × Cell)} {bytes : List UInt8} {m : Memory}
    (h : pushArguments values s = .ok () s') (hrest : Pushes bytes s'.memory m) :
    Pushes (argumentBytes values ++ bytes) s.memory m := by
  induction values generalizing s with
  | nil =>
    cases h
    exact hrest
  | cons v rest ih =>
    obtain ⟨_, s₁, hpush, h⟩ := bind_eq_ok.mp h
    rw [argumentBytes, List.flatMap_cons, List.append_assoc]
    exact (pushes_ofMemory hpush).trans (ih h)

/-- A call pushes the values that its arguments have in front of it. -/
theorem call_eq_ok {target : Operand} {args : List Operand} {next : Address}
    (h : call target args next s = .ok () s') :
    ∃ values, arguments args s = .ok values s ∧
      Pushes (linkBytes values next) s.memory s'.memory := by
  obtain ⟨a, s₁, hplace, h⟩ := bind_eq_ok.mp h
  obtain rfl : s = s₁ := (relates_place target).of_ok hplace
  obtain ⟨values, s₂, harguments, h⟩ := bind_eq_ok.mp h
  obtain rfl : s = s₂ := (relates_arguments args).of_ok harguments
  obtain ⟨_, s₃, hvalues, h⟩ := bind_eq_ok.mp h
  obtain ⟨_, s₄, hsize, h⟩ := bind_eq_ok.mp h
  obtain ⟨_, s₅, hback, h⟩ := bind_eq_ok.mp h
  obtain rfl : s' = s₅.jump a := modify_eq_ok.mp h
  have hlink := ((pushes_ofMemory hsize).trans (pushes_ofMemory hback)).setRegister
    (r := .cp) (by decide) (by decide) (.ofAddress a)
  exact ⟨values, harguments, pushes_pushArguments hvalues hlink⟩

end Exec

/-! ## The way back -/

namespace MemoryOp

variable {m : Memory} {top : Nat} {values : List (Datatype × Cell)} {next : Address} {fp : Cell}

/-- Dropping a frame gives the frame pointer back that was saved, and leaves the stack as the call
has left it. -/
theorem popFrame_of_frameAt (h : m.FrameAt top values next fp) :
    ∃ m', popFrame m = .ok () m' ∧ m'.register .fp = fp ∧ m'.stack = m.stack ∧
      m'.StackAt .sp (top + (linkBytes values next).length) := by
  have hmoved : (m.setRegister .sp (m.register .fp)).StackAt .sp
      (top + (linkBytes values next).length + Datatype.addr.size) :=
    h.pointer.of_register_eq (Memory.register_setRegister_self m .sp _)
  have hsaved := h.saved
  rw [← Memory.stack_setRegister m .sp (m.register .fp)] at hsaved
  have hpop := popCell_of_holds (Cell.fits_of_size_eq rfl) hmoved hsaved
  refine ⟨_, bind_eq_ok.mpr ⟨(), _, rfl, bind_eq_ok.mpr ⟨_, _, hpop, rfl⟩⟩,
    Memory.register_setRegister_self _ _ _, ?_, ?_⟩
  · rw [Memory.stack_setRegister]
    exact (Memory.stack_setRegister _ _ _).trans (Memory.stack_setRegister _ _ _)
  · have hlt := h.pointer.lt
    exact (Memory.stackAt_setStackOffset _ .sp (by omega)).of_register_eq
      (Memory.register_setRegister_of_ne _ _ (by decide))

theorem register_setStackOffset (m : Memory) (top : Nat) :
    (m.setStackOffset .sp top).register .fp = m.register .fp :=
  Memory.register_setRegister_of_ne m _ (by decide)

/-- What a call has put on the stack is taken off in three parts. -/
theorem popLink_of_holds (hsp : m.StackAt .sp (top + (linkBytes values next).length))
    (hlink : m.stack.Holds top (linkBytes values next)) :
    ∃ m₁ m₂ m₃, ∃ size : Cell, popCell .addr m = .ok (.ofAddress next) m₁ ∧
      popCell .u64 m₁ = .ok size m₂ ∧ stackSub size.bits.toNat m₂ = .ok () m₃ ∧
      m₃.StackAt .sp top ∧ m₃.register .fp = m.register .fp := by
  rw [length_linkBytes] at hsp
  have hlt := hsp.lt
  rw [linkBytes, Buffer.holds_append, Buffer.holds_append, length_argumentBytes,
    Cell.length_bytes] at hlink
  obtain ⟨-, hsize, hback⟩ := hlink
  generalize Datatype.totalSize (values.map (·.1)) = total at hsp hlt hsize hback
  rw [show top + (total + 16) = top + total + 8 + Datatype.addr.size by rfl] at hsp
  have hback : m.stack.Holds (top + total + 8) ((Cell.ofAddress next).bytes .addr) := hback
  have hsp₁ := Memory.stackAt_setStackOffset m .sp (n := top + total + 8) (by omega)
  have hsp₂ := Memory.stackAt_setStackOffset (m.setStackOffset .sp (top + total + 8)) .sp
    (n := top + total) (by omega)
  rw [← Memory.stack_setRegister m .sp
    (.ofAddress (.make .stack (UInt64.ofNat (top + total + 8))))] at hsize
  have hnat : (UInt64.ofNat total).toNat = total := by
    rw [UInt64.toNat_ofNat']
    omega
  have hpop := popCell_of_holds (Cell.fits_of_size_eq rfl) hsp hback
  have hfits : Cell.Fits ⟨UInt64.ofNat total⟩ .u64 := Cell.fits_of_size_eq rfl
  have hpop₁ := popCell_of_holds hfits hsp₁ hsize
  have hsub := (congrFun (congrArg stackSub hnat) _).trans (stackSub_of_stackAt hsp₂)
  refine ⟨_, _, _, _, hpop, hpop₁, hsub,
    Memory.stackAt_setStackOffset _ .sp (by omega), ?_⟩
  rw [register_setStackOffset, register_setStackOffset]
  exact register_setStackOffset m _

end MemoryOp

namespace Exec

variable {s : Machine}

/-- A return takes off the stack what the call has put there. -/
theorem ret_of_link {top : Nat} {values : List (Datatype × Cell)} {next : Address}
    (hsp : s.memory.StackAt .sp (top + (linkBytes values next).length))
    (hlink : s.memory.stack.Holds top (linkBytes values next)) :
    ∃ m : Memory, ret s = .ok () ((s.updateMemory fun _ => m).jump next) ∧ m.StackAt .sp top ∧
      m.register .fp = s.register .fp := by
  obtain ⟨m₁, m₂, m₃, size, hback, hsize, hsub, htop, hfp⟩ := MemoryOp.popLink_of_holds hsp hlink
  refine ⟨m₃, ?_, htop, hfp⟩
  exact bind_eq_ok.mpr ⟨_, _, ofMemory_of_ok hback, bind_eq_ok.mpr ⟨_, _,
    ofMemory_of_ok (s := s.updateMemory fun _ => m₁) hsize, bind_eq_ok.mpr ⟨_, _,
      ofMemory_of_ok (s := s.updateMemory fun _ => m₂) hsub, rfl⟩⟩⟩

end Exec

/-! ## Steps -/

namespace Exec

variable (cp next : Address)

theorem perform_call {x : Instruction} {target : Operand} (hop : x.opcode = .call)
    (hfixed : x.fixed = [target]) : perform x cp next = call target x.args next := by
  unfold perform
  rw [hop, hfixed]

theorem perform_pushFrame :
    perform (Asm.plainInstruction .pushFrame) cp next = ofMemory .pushFrame := rfl

theorem perform_popFrame :
    perform (Asm.plainInstruction .popFrame) cp next = ofMemory .popFrame := rfl

end Exec

namespace Machine

variable {m m' : Machine} {x : Instruction}

/-- The place behind the instruction that is at the code pointer. -/
def behind (m : Machine) (x : Instruction) : Address :=
  (m.memory.pointer .cp).add (Int64.ofNat x.size)

theorem step_eq_paused (hfetch : m.fetch (m.memory.pointer .cp) = .instruction x)
    (h : m.step = (.ok .paused, m')) :
    ∃ m₁, Exec.perform x (m.memory.pointer .cp) (m.behind x) (m.jump (m.behind x)) = .ok () m₁ ∧
      m' = { m₁ with steps := m₁.steps + 1 } := by
  unfold step at h
  cases hhalted : m.halted with
  | some code => simp [hhalted] at h
  | none =>
    simp only [hhalted, hfetch] at h
    cases hexecute : Exec.execute x (m.memory.pointer .cp) m with
    | error f m₁ => simp [hexecute] at h
    | ok u m₁ =>
      simp only [hexecute] at h
      split at h
      · simp [halt] at h
      · exact ⟨m₁, hexecute, (Prod.mk.inj h).2.symm⟩

theorem step_of_perform {m₁ : Machine} (hhalted : m.halted = none)
    (hfetch : m.fetch (m.memory.pointer .cp) = .instruction x) (hop : x.opcode ≠ .exit)
    (h : Exec.perform x (m.memory.pointer .cp) (m.behind x) (m.jump (m.behind x)) = .ok () m₁) :
    ∃ m', m.step = (.ok .paused, m') ∧ m'.halted = m₁.halted ∧ m'.memory = m₁.memory := by
  have hexecute : Exec.execute x (m.memory.pointer .cp) m = .ok () m₁ := h
  refine ⟨{ m₁ with steps := m₁.steps + 1 }, ?_, rfl, rfl⟩
  unfold step
  simp only [hhalted, hfetch, hexecute, if_neg hop]

theorem memory_jump (m : Machine) (a : Address) :
    (m.jump a).memory = m.memory.setRegister .cp (.ofAddress a) := rfl

theorem pushes_of_jump {bytes : List UInt8} {a : Address} {n : Memory}
    (h : MemoryOp.Pushes bytes (m.jump a).memory n) : MemoryOp.Pushes bytes m.memory n := by
  rw [memory_jump] at h
  exact h.of_setRegister (by decide) (by decide)

/-- What a call pushes, from the machine in front of it to the one behind it. -/
theorem pushes_of_step_call {target : Operand}
    (hfetch : m.fetch (m.memory.pointer .cp) = .instruction x) (hop : x.opcode = .call)
    (hfixed : x.fixed = [target]) (hstep : m.step = (.ok .paused, m')) :
    ∃ values, Exec.arguments x.args (m.jump (m.behind x)) = .ok values (m.jump (m.behind x)) ∧
      MemoryOp.Pushes (linkBytes values (m.behind x)) m.memory m'.memory := by
  obtain ⟨m₁, hperform, rfl⟩ := step_eq_paused hfetch hstep
  rw [Exec.perform_call _ _ hop hfixed] at hperform
  obtain ⟨values, harguments, hpushes⟩ := Exec.call_eq_ok hperform
  exact ⟨values, harguments, pushes_of_jump hpushes⟩

theorem pushes_of_step_pushFrame
    (hfetch : m.fetch (m.memory.pointer .cp) = .instruction (Asm.plainInstruction .pushFrame))
    (hstep : m.step = (.ok .paused, m')) :
    ∃ n : Memory, MemoryOp.Pushes ((m.register .fp).bytes .addr) m.memory n ∧
      m'.memory = n.setRegister .fp (n.register .sp) := by
  obtain ⟨m₁, hperform, rfl⟩ := step_eq_paused hfetch hstep
  rw [Exec.perform_pushFrame] at hperform
  obtain ⟨_, hframe, rfl⟩ := Exec.ofMemory_eq_ok hperform
  obtain ⟨n, hpush, rfl⟩ := MemoryOp.pushFrame_eq_ok hframe
  have hpushes := MemoryOp.pushes_push hpush
  rw [memory_jump, Memory.register_setRegister_of_ne _ _ (by decide), ← memory_jump] at hpushes
  exact ⟨n, pushes_of_jump hpushes, rfl⟩

/-- A call and the `pushframe` of the function it calls make a frame, if there are addresses for all
of it. -/
theorem frameAt_of_steps {m₁ m₂ : Machine} {target : Operand}
    (hsp : (m.memory.pointer .sp).base? = some .stack)
    (hfetch : m.fetch (m.memory.pointer .cp) = .instruction x) (hop : x.opcode = .call)
    (hfixed : x.fixed = [target]) (hstep : m.step = (.ok .paused, m₁))
    (hfetch₁ : m₁.fetch (m₁.memory.pointer .cp) = .instruction (Asm.plainInstruction .pushFrame))
    (hstep₁ : m₁.step = (.ok .paused, m₂)) :
    ∃ values, Exec.arguments x.args (m.jump (m.behind x)) = .ok values (m.jump (m.behind x)) ∧
      (m.memory.stackOffset .sp + (linkBytes values (m.behind x)).length + 8 < 2 ^ 61 →
        m₂.memory.FrameAt (m.memory.stackOffset .sp) values (m.behind x) (m.register .fp)) := by
  obtain ⟨values, harguments, hpushes⟩ := pushes_of_step_call hfetch hop hfixed hstep
  obtain ⟨n, hpushes₁, hmemory⟩ := pushes_of_step_pushFrame hfetch₁ hstep₁
  refine ⟨values, harguments, fun hfits => ?_⟩
  -- The frame pointer that is saved is still that of the caller.
  have hfp : m₁.register .fp = m.register .fp := hpushes.frame
  rw [hfp] at hpushes₁
  have hlen : m.memory.stackOffset .sp +
      (linkBytes values (m.behind x) ++ (m.register .fp).bytes .addr).length =
        m.memory.stackOffset .sp + (linkBytes values (m.behind x)).length + 8 := by
    rw [List.length_append, Cell.length_bytes, ← Nat.add_assoc]
    rfl
  obtain ⟨hsp', hheld, -⟩ := (hpushes.trans hpushes₁).placed _ (Memory.stackAt_of_base? hsp)
    (hlen ▸ hfits)
  obtain ⟨hlink, hsaved⟩ := Buffer.holds_append.mp hheld
  rw [hlen] at hsp'
  rw [hmemory]
  rw [← Memory.stack_setRegister n .fp (n.register .sp)] at hlink hsaved
  exact ⟨hsp'.of_register_eq (Memory.register_setRegister_self n .fp _), hlink, hsaved⟩

/-- From `m`, the next two instructions lead back to `next` with the pointers of `caller`, if they
are a `popframe` and a `ret`. -/
def ReturnsTo (m caller : Machine) (next : Address) : Prop :=
  m.fetch (m.memory.pointer .cp) = .instruction (Asm.plainInstruction .popFrame) →
    ∃ m₁, m.step = (.ok .paused, m₁) ∧
      (m₁.fetch (m₁.memory.pointer .cp) = .instruction (Asm.plainInstruction .ret) →
        ∃ m₂, m₁.step = (.ok .paused, m₂) ∧ m₂.memory.pointer .cp = next ∧
          m₂.register .sp = caller.register .sp ∧ m₂.register .fp = caller.register .fp)

section Return

variable {top : Nat} {values : List (Datatype × Cell)} {next : Address} {fp : Cell}

theorem step_popFrame_of_frameAt (h : m.memory.FrameAt top values next fp)
    (hhalted : m.halted = none)
    (hfetch : m.fetch (m.memory.pointer .cp) = .instruction (Asm.plainInstruction .popFrame)) :
    ∃ m', m.step = (.ok .paused, m') ∧ m'.halted = none ∧ m'.register .fp = fp ∧
      m'.memory.stack.Holds top (linkBytes values next) ∧
      m'.memory.StackAt .sp (top + (linkBytes values next).length) := by
  have hjump : (m.jump (m.behind (Asm.plainInstruction .popFrame))).memory.FrameAt top values next
      fp := by
    rw [memory_jump]
    refine h.of_eq (Memory.register_setRegister_of_ne _ _ (by decide)) fun i _ => ?_
    rw [Memory.stack_setRegister]
  obtain ⟨n, hpop, hfp, hstack, hsp⟩ := MemoryOp.popFrame_of_frameAt hjump
  have hlink := hjump.link
  rw [← hstack] at hlink
  have hperform := (congrFun (Exec.perform_popFrame (m.memory.pointer .cp)
    (m.behind (Asm.plainInstruction .popFrame))) _).trans (Exec.ofMemory_of_ok hpop)
  obtain ⟨m', hstep, hhalted', hmemory⟩ := step_of_perform hhalted hfetch (by decide) hperform
  have hmemory : m'.memory = n := hmemory
  refine ⟨m', hstep, hhalted'.trans hhalted, ?_, ?_, ?_⟩
  · unfold register
    rw [hmemory, hfp]
  · rw [hmemory]
    exact hlink
  · rw [hmemory]
    exact hsp

theorem step_ret_of_link (hsp : m.memory.StackAt .sp (top + (linkBytes values next).length))
    (hlink : m.memory.stack.Holds top (linkBytes values next)) (hhalted : m.halted = none)
    (hfetch : m.fetch (m.memory.pointer .cp) = .instruction (Asm.plainInstruction .ret)) :
    ∃ m', m.step = (.ok .paused, m') ∧ m'.memory.pointer .cp = next ∧ m'.memory.StackAt .sp top ∧
      m'.register .fp = m.register .fp := by
  have hsp₁ : (m.jump (m.behind (Asm.plainInstruction .ret))).memory.StackAt .sp
      (top + (linkBytes values next).length) :=
    hsp.of_register_eq (Memory.register_setRegister_of_ne _ _ (by decide))
  have hlink₁ : (m.jump (m.behind (Asm.plainInstruction .ret))).memory.stack.Holds top
      (linkBytes values next) := by
    rw [memory_jump, Memory.stack_setRegister]
    exact hlink
  obtain ⟨n, hret, htop, hfp⟩ := Exec.ret_of_link hsp₁ hlink₁
  obtain ⟨m', hstep, -, hmemory⟩ := step_of_perform hhalted hfetch (by decide) hret
  rw [memory_jump] at hmemory
  have hmemory : m'.memory = n.setRegister .cp (.ofAddress next) := hmemory
  refine ⟨m', hstep, ?_, ?_, ?_⟩
  · rw [hmemory]
    exact Memory.pointer_setPointer_self n .cp next
  · rw [hmemory]
    exact htop.of_register_eq (Memory.register_setRegister_of_ne _ _ (by decide))
  · unfold register
    rw [hmemory, Memory.register_setRegister_of_ne _ _ (by decide), hfp, register, memory_jump,
      Memory.register_setRegister_of_ne _ _ (by decide)]

/-- A function finds its way back from its frame. -/
theorem returnsTo_of_frameAt {caller : Machine} (h : m.memory.FrameAt top values next fp)
    (hhalted : m.halted = none) (hsp : caller.memory.StackAt .sp top)
    (hfp : caller.register .fp = fp) : m.ReturnsTo caller next := by
  intro hfetch
  obtain ⟨m₁, hstep, hhalted₁, hfp₁, hlink, hsp₁⟩ := step_popFrame_of_frameAt h hhalted hfetch
  refine ⟨m₁, hstep, fun hfetch₁ => ?_⟩
  obtain ⟨m₂, hstep₁, hcp, htop, hfp₂⟩ := step_ret_of_link hsp₁ hlink hhalted₁ hfetch₁
  have hpointer := congrArg Cell.ofAddress (htop.pointer.trans hsp.pointer.symm)
  exact ⟨m₂, hstep₁, hcp, hpointer, hfp₂.trans (hfp₁.trans hfp.symm)⟩

end Return

end Machine

/-! ## Assembler and machine -/

theorem map_argumentType {os : List Operand} {types : List Datatype}
    (h : os.map (·.role) = types.map .typed) : os.map Exec.argumentType = types := by
  induction types generalizing os with
  | nil => simp [List.map_eq_nil_iff.mp h]
  | cons t rest ih =>
    obtain ⟨o, os, rfl, ho, hos⟩ := List.map_eq_cons_iff.mp h
    rw [List.map_cons, ih hos, Exec.argumentType, ho]

namespace SourceInstruction.Encodes

variable {i : SourceInstruction} {x : Instruction}

/-- The arguments of a call are passed with the datatypes that are written in front of them. -/
theorem argumentTypes (hx : i.Encodes x) : x.args.map Exec.argumentType = i.types :=
  map_argumentType ((Asm.roles_of_encodes hx.args).trans hx.typed)

theorem fixed_of_call (hx : i.Encodes x) (hcall : i.opcode = .call) :
    ∃ target, x.fixed = [target] := by
  have hroles := (Asm.roles_of_encodes hx.fixed).trans hx.roles
  rw [hcall] at hroles
  obtain ⟨target, rest, hfixed, -, hrest⟩ := List.map_eq_cons_iff.mp hroles
  rw [List.map_eq_nil_iff.mp hrest] at hfixed
  exact ⟨target, hfixed⟩

end SourceInstruction.Encodes

namespace Machine

/-- What a call `x` of a function gives to it : each parameter, where the assembler has put it, has
the value of its argument, and the function comes back if it keeps what is below its frame. -/
structure Serves (m : Machine) (x : Instruction) (s : Assembler)
    (params : List (String × Datatype)) (m₂ : Machine) : Prop where
  arguments : ∃ values,
    Exec.arguments x.args (m.jump (m.behind x)) = .ok values (m.jump (m.behind x)) ∧
      ∀ (k : Nat) (p : String × Datatype), params[k]? = some p → ∃ (c : Cell) (a : Address),
        values[k]? = some (p.2, c) ∧ s.lookup s.path p.1 =
            some ⟨qualify s.path p.1, .alias, .addr a⟩ ∧
        m₂.memory.load a p.2 = .ok (.ofBytes (c.bytes p.2))
  back : ∀ m₃ : Machine, m₃.halted = none → m₃.register .fp = m₂.register .fp →
    (∀ n : Nat, n < m₂.memory.stackOffset .fp → m₃.memory.stack[n]? = m₂.memory.stack[n]?) →
      m₃.ReturnsTo m (m.behind x)

/-- The assembler and the machine agree on frames : a function that `#func` has declared is served
by every call with arguments of the datatypes of its parameters, once the call and the `pushframe`
of the function are done. Left out is a frame that ends beyond the last address of the stack, more
than two exabytes up. -/
theorem serves_of_call {expand : Asm Unit} {s s' : Assembler} {f : String}
    {params : List (String × Datatype)} {c : Cursor} {m m₁ m₂ : Machine} {i : SourceInstruction}
    {x : Instruction} (hs : s.Consistent) (hmark : s.cursor.current.kind = .directive)
    (hname : s.cursor.next.current.text = "func")
    (hsignature : Parser.signature s.cursor.next.next = .ok (f, params) c)
    (hstatement : Asm.statement expand s = .ok () s')
    (hsp : (m.memory.pointer .sp).base? = some .stack)
    (hfetch : m.fetch (m.memory.pointer .cp) = .instruction x) (hx : i.Encodes x)
    (hcall : i.opcode = .call) (htypes : i.types = params.map (·.2))
    (hstep : m.step = (.ok .paused, m₁))
    (hfetch₁ : m₁.fetch (m₁.memory.pointer .cp) = .instruction (Asm.plainInstruction .pushFrame))
    (hstep₁ : m₁.step = (.ok .paused, m₂)) :
    Asm.Declares s s' f params ∧
      (2 ^ 61 ≤ m.memory.stackOffset .sp + (Asm.callLinkSize + Asm.parametersSize params) ∨
        m.Serves x s' params m₂) := by
  have hdeclares := Asm.declares_of_statement hs hmark hname hsignature hstatement
  refine ⟨hdeclares, ?_⟩
  rw [or_iff_not_imp_left, Nat.not_le]
  intro hfits
  obtain ⟨target, hfixed⟩ := hx.fixed_of_call hcall
  obtain ⟨values, harguments, hframe⟩ := frameAt_of_steps hsp hfetch (hx.opcode.trans hcall) hfixed
    hstep hfetch₁ hstep₁
  have hvalues : values.map (·.1) = params.map (·.2) :=
    (Exec.arguments_types harguments).trans (hx.argumentTypes.trans htypes)
  have hlen : (linkBytes values (m.behind x)).length = Asm.parametersSize params + 16 := by
    rw [length_linkBytes, hvalues]
    rfl
  have hlink : Asm.callLinkSize = 24 := rfl
  have hframe := hframe (by omega)
  refine ⟨⟨values, harguments, fun k p hp => ?_⟩, fun m₃ hhalted hfp hstack => ?_⟩
  · have hk := congrArg (fun l : List Datatype => l[k]?) hvalues
    simp only [List.getElem?_map, hp, Option.map_some, Option.map_eq_some_iff] at hk
    obtain ⟨⟨_, c⟩, hk, rfl⟩ := hk
    exact ⟨c, _, hk, hdeclares.parameters k p hp, hframe.load_parameter hvalues hk⟩
  · exact returnsTo_of_frameAt (hframe.of_eq hfp hstack) hhalted (Memory.stackAt_of_base? hsp) rfl

/-- An assembler in front of a function with parameters of two sizes. -/
def narrowWide : Assembler :=
  (Assembler.empty "m").fedWith
    #[⟨.directive, "#", ⟨1, 1⟩⟩, ⟨.name, "func", ⟨1, 2⟩⟩, ⟨.name, "f", ⟨1, 7⟩⟩,
      ⟨.colon, ":", ⟨1, 9⟩⟩, ⟨.name, "a", ⟨1, 11⟩⟩, ⟨.dot, ".", ⟨1, 12⟩⟩, ⟨.name, "u8", ⟨1, 13⟩⟩,
      ⟨.colon, ":", ⟨1, 16⟩⟩, ⟨.name, "b", ⟨1, 18⟩⟩, ⟨.dot, ".", ⟨1, 19⟩⟩, ⟨.name, "u32", ⟨1, 20⟩⟩,
      .endOfCode ⟨1, 23⟩]

/-- A call of it. -/
def narrowWideCall : SourceInstruction :=
  ⟨.call, .none, [(.address, ⟨false, .name "f", ⟨.name, "f", ⟨2, 8⟩⟩⟩)],
    [(.typed .u8, ⟨false, .integer ⟨false, 7⟩, ⟨.integer, "7", ⟨2, 15⟩⟩⟩),
      (.typed .u32, ⟨false, .integer ⟨false, 1000⟩, ⟨.integer, "1000", ⟨2, 23⟩⟩⟩)]⟩

/-- The call with the place of the function, 26 bytes into the code. -/
def narrowWideEncoded : Instruction :=
  ⟨.call, .none, 0, [⟨.address, .addr, false, .ofAddress (.make .code 26)⟩],
    Descriptor.ofTypes? [.u8, .u32],
    [⟨.typed .u8, .u8, false, ⟨7⟩⟩, ⟨.typed .u32, .u32, false, ⟨1000⟩⟩]⟩

/-- A machine in front of the call. -/
def narrowWideStart : Machine :=
  let code := narrowWideEncoded.encode ++
    [Opcode.exit, .pushFrame, .popFrame, .ret].flatMap fun op => (Asm.plainInstruction op).encode
  let config : Config := ⟨0, 64, ∅, none⟩
  ⟨⟨.initial ⟨[⟨"m", [], ∅, ∅, code.toArray, #[], [], [], []⟩], ∅, ∅, ∅, ∅⟩ config, #[]⟩, .none,
    config, [], none, 0⟩

theorem encodes_narrowWideEncoded : narrowWideCall.Encodes narrowWideEncoded := by
  refine ⟨rfl, rfl, by decide, ?_, ?_, rfl, rfl, rfl, by decide, by decide⟩
  · exact .cons ⟨.addr (.make .code 26), rfl, nofun, rfl⟩ .nil
  · exact .cons ⟨.int false .w8 7, rfl, ⟨by decide, fun _ => by decide⟩, rfl⟩
      (.cons ⟨.int false .w32 1000, rfl, ⟨by decide, fun _ => by decide⟩, rfl⟩ .nil)

theorem fetch_narrowWideStart :
    narrowWideStart.fetch (narrowWideStart.memory.pointer .cp) =
      .instruction narrowWideEncoded := by
  cbv

theorem step_narrowWideStart : narrowWideStart.step.1 = .ok .paused := by
  cbv

theorem fetch_narrowWideStart₁ :
    narrowWideStart.step.2.fetch (narrowWideStart.step.2.memory.pointer .cp) =
      .instruction (Asm.plainInstruction .pushFrame) := by
  cbv

theorem step_narrowWideStart₁ : narrowWideStart.step.2.step.1 = .ok .paused := by
  cbv

theorem serves_of_call_narrowWide :
    ∃ s' m₁ m₂, Asm.statement (Asm.expansion 0) narrowWide = .ok () s' ∧
      narrowWideStart.step = (.ok .paused, m₁) ∧ m₁.step = (.ok .paused, m₂) ∧
      Asm.Declares narrowWide s' "f" [("a", .u8), ("b", .u32)] ∧
      narrowWideStart.Serves narrowWideEncoded s' [("a", .u8), ("b", .u32)] m₂ := by
  have hconsistent : narrowWide.Consistent :=
    (Assembler.consistent_empty "m").of_eq rfl rfl rfl rfl
  have hsignature : outcome (Parser.signature narrowWide.cursor.next.next) =
      .ok ("f", [("a", .u8), ("b", .u32)]) := by cbv
  have hstatement : outcome (Asm.statement (Asm.expansion 0) narrowWide) = .ok () := by cbv
  have hsp : (narrowWideStart.memory.pointer .sp).base? = some .stack := by cbv
  have hroom : ¬ 2 ^ 61 ≤ narrowWideStart.memory.stackOffset .sp +
      (Asm.callLinkSize + Asm.parametersSize [("a", .u8), ("b", .u32)]) := by cbv
  have hstep := Prod.fst_eq_iff.mp step_narrowWideStart
  have hstep₁ := Prod.fst_eq_iff.mp step_narrowWideStart₁
  obtain ⟨hdeclares, hserves⟩ := serves_of_call hconsistent (by cbv) (by cbv)
    (eq_ok_of_outcome hsignature) (eq_ok_of_outcome hstatement) hsp fetch_narrowWideStart
    encodes_narrowWideEncoded rfl rfl hstep fetch_narrowWideStart₁ hstep₁
  exact ⟨_, _, _, eq_ok_of_outcome hstatement, hstep, hstep₁, hdeclares, hserves.resolve_left hroom⟩

end Machine

end CellMachine
