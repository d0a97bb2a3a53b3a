import CellMachine.Proofs.Assembly.Directive

/-!
# What instructions do

An instruction moves the cursor, stores texts, appends to the code and to its references and
relocations, and overwrites what it has appended itself. A relation that allows each of these
(`Asm.AdmitsWriting`) holds between the states in front of and behind every instruction
(`Asm.relates_instruction`), and one that allows what directives do as well (`Asm.AdmitsCode`) does
so for every directive (`Asm.relates_directive`). A statement is one of the
two or a use of a macro (`Asm.statementBody_cases`).
-/

set_option linter.unusedSectionVars false

namespace CellMachine

namespace Asm

/-- A relation that allows what instructions do. -/
structure AdmitsWriting (R : Assembler → Assembler → Prop) : Prop extends AdmitsData R where
  appendCode : ∀ s bytes, R s (s.appendCode bytes)
  refer : ∀ (s : Assembler) r p, R s { s with
    object := { s.object with unresolved := s.object.unresolved ++ [r] }
    positions := s.positions ++ [p] }
  relocate : ∀ (s : Assembler) offset, R s { s with
    object := { s.object with relocations := s.object.relocations ++ [offset] } }
  /-- What has been written behind a state may be overwritten. -/
  overwriteCode : ∀ s₀ s start bytes, s₀.object.code.size ≤ start → R s₀ s →
    R s₀ (s.overwriteCode start bytes)

/-- A relation that allows tokens to be taken and operands to be written as wholes. -/
structure AdmitsOperands (R : Assembler → Assembler → Prop) : Prop where
  movedTo : ∀ s c, s.cursor.Forward c → R s (s.movedTo c)
  writeOperand : ∀ o role dt, Relates R (writeOperand o role dt)
  writeConverted : ∀ o source dt, Relates R (writeConverted o source dt)

/-- A relation that allows what directives and instructions do. -/
structure AdmitsCode (R : Assembler → Assembler → Prop) : Prop extends Admits R, AdmitsWriting R

variable {R : Assembler → Assembler → Prop} [Std.Refl R] [Trans R R R]

/-! ## Operands -/

theorem relates_emit (hR : AdmitsWriting R) (bytes : List UInt8) : Relates R (emit bytes) :=
  .modify fun s => hR.appendCode s bytes

theorem relates_refer (hR : AdmitsWriting R) (o : SourceOperand) (name : String) (offset : Nat)
    (dt : Datatype) : Relates R (refer o name offset dt) :=
  .modify fun s => hR.refer s _ _

theorem relates_relocate (hR : AdmitsWriting R) (offset : Nat) : Relates R (relocate offset) :=
  .modify fun s => hR.relocate s offset

theorem relates_operandCell (hR : AdmitsWriting R) (o : SourceOperand) (offset : Nat)
    (dt : Datatype) : Relates R (operandCell o offset dt) := by
  unfold operandCell
  split
  · refine .ite ?_ ?_
    · exact .bind (hR.ofParser (Parser.relates_literalValue _ _)) fun _ => .pure _
    · exact .bind (relates_refer hR _ _ _ _) fun _ => .pure _
  · refine .ite (hR.fail _ _) (.ite (hR.fail _ _) ?_)
    exact .bind (relates_storeText hR.toAdmitsData _) fun _ =>
      .bind (relates_relocate hR _) fun _ => .pure _
  · exact .bind (hR.ofParser (Parser.relates_literalValue _ _)) fun _ => .pure _

theorem relates_writeOperand (hR : AdmitsWriting R) (o : SourceOperand) (role : Role)
    (dt : Datatype) : Relates R (writeOperand o role dt) :=
  .bind .get fun _ => .bind (relates_operandCell hR _ _ _) fun _ =>
    .bind (relates_emit hR _) fun _ => .pure _

theorem relates_writeConverted (hR : AdmitsWriting R) (o : SourceOperand) (source dt : Datatype) :
    Relates R (writeConverted o source dt) := by
  refine .bind (hR.ofParser (Parser.relates_literalValue _ _)) fun v => ?_
  split
  · exact .bind (relates_emit hR _) fun _ => .pure _
  · exact hR.fail _ _

theorem AdmitsWriting.operands (hR : AdmitsWriting R) : AdmitsOperands R :=
  ⟨hR.movedTo, relates_writeOperand hR, relates_writeConverted hR⟩

theorem AdmitsOperands.ofParser (hR : AdmitsOperands R) {α : Type} {p : Parser α}
    (hp : Relates Cursor.Forward p) : Relates R (liftM p : Asm α) :=
  relates_ofParser hR.movedTo hp

theorem relates_writeFixed (hR : AdmitsOperands R) (source : Option Datatype) (o : SourceOperand)
    (role : Role) (dt : Datatype) : Relates R (writeFixed source o role dt) := by
  unfold writeFixed
  split
  · exact .ite (hR.writeConverted _ _ _) (hR.writeOperand _ _ _)
  · exact hR.writeOperand _ _ _

theorem relates_fixedOperands (hR : AdmitsOperands R) (op : Opcode) (dt : Datatype)
    (source : Option Datatype) (roles : List Role) :
    Relates R (fixedOperands op dt source roles) := by
  induction roles generalizing source with
  | nil => exact .pure _
  | cons role rest ih =>
    exact .bind (hR.ofParser Parser.relates_expectColon) fun _ =>
      .bind (hR.ofParser Parser.relates_operand) fun o =>
        .bind (relates_writeFixed hR _ _ _ _) fun _ => .bind (ih _) fun _ => .pure _

theorem relates_typedArguments (hR : AdmitsOperands R) (dt : Datatype) (n : Nat) :
    Relates R (typedArguments dt n) := by
  induction n with
  | zero =>
    exact .bind (hR.ofParser (Parser.relates_take? _)) fun _ =>
      .ite (hR.ofParser (Parser.relates_failHere _)) (.pure _)
  | succ n ih =>
    refine .bind (hR.ofParser (Parser.relates_take? _)) fun _ => .ite ?_ (.pure _)
    exact .bind (hR.ofParser Parser.relates_argumentDatatype) fun _ =>
      .bind (hR.ofParser Parser.relates_operand) fun _ =>
        .bind (hR.writeOperand _ _ _) fun _ => .bind ih fun _ => .pure _

/-! ## Instructions

The mask and the descriptor of an instruction are overwritten once its operands are there. That
need not be allowed from the state right in front, but from the one before the instruction. -/

/-- What is related to `s₀` stays so. -/
def Onward (R : Assembler → Assembler → Prop) (s₀ s s' : Assembler) : Prop := R s₀ s → R s₀ s'

instance (s₀ : Assembler) : Trans (Onward R s₀) (Onward R s₀) (Onward R s₀) where
  trans h h' := h' ∘ h

theorem onward_of_relates {α : Type} {x : Asm α} (s₀ : Assembler) (hx : Relates R x) :
    Relates (Onward R s₀) x := fun s h => Trans.trans h (hx s)

theorem onward_overwriteCode (hR : AdmitsWriting R) {s₀ : Assembler} {start : Nat}
    (bytes : List UInt8) (h : s₀.object.code.size ≤ start) :
    Relates (Onward R s₀) (modify (·.overwriteCode start bytes) : Asm Unit) :=
  .modify fun s hs => hR.overwriteCode s₀ s start bytes h hs

theorem onward_fillDescriptor (hR : AdmitsWriting R) (s : Assembler) (args : List Operand) :
    Relates (Onward R s) (fillDescriptor s.object.code.size args) := by
  unfold fillDescriptor
  split
  · exact onward_overwriteCode hR _ (Nat.le_refl _)
  · exact onward_of_relates s (hR.ofParser (Parser.relates_failHere _))

theorem relates_describedArguments (hR : AdmitsWriting R) (dt : Datatype) :
    Relates R (describedArguments dt) := by
  refine .get_bind fun s => ?_
  have hrest : Relates (Onward R s) (do
      emit (List.replicate Descriptor.size 0)
      let args ← typedArguments dt Descriptor.maxArgs
      fillDescriptor s.object.code.size args
      return args) :=
    .bind (onward_of_relates s (relates_emit hR _)) fun _ =>
      .bind (onward_of_relates s (relates_typedArguments hR.operands _ _)) fun args =>
        .bind (onward_fillDescriptor hR s args) fun _ => onward_of_relates s (.pure _)
  exact hrest s (Std.Refl.refl s)

theorem relates_callArguments (hR : AdmitsWriting R) (op : Opcode) (dt : Datatype) :
    Relates R (callArguments op dt) :=
  .ite (relates_describedArguments hR _) (.pure _)

theorem relates_instructionBehind (hR : AdmitsWriting R) (op : Opcode) (t : Token) :
    Relates R (instructionBehind op t) := by
  refine .bind (hR.ofParser (Parser.relates_instructionDatatype _ _)) fun dt =>
    .get_bind fun s => ?_
  have hrest : Relates (Onward R s) (do
      emit (encodeHeader op dt 0)
      let fixed ← fixedOperands op dt none (op.fixedRoles dt)
      let args ← callArguments op dt
      modify (·.overwriteCode (s.object.code.size + 2)
        (littleEndian 2 (maskOf (fixed ++ args)).toNat))) :=
    .bind (onward_of_relates s (relates_emit hR _)) fun _ =>
      .bind (onward_of_relates s (relates_fixedOperands hR.operands _ _ _ _)) fun _ =>
        .bind (onward_of_relates s (relates_callArguments hR _ _)) fun _ =>
          onward_overwriteCode hR _ (Nat.le_add_right _ _)
  exact hrest s (Std.Refl.refl s)

theorem relates_instruction (hR : AdmitsWriting R) (op : Opcode) : Relates R (instruction op) :=
  .bind (hR.ofParser Parser.relates_current) fun t =>
    .bind (hR.ofParser Parser.relates_next) fun _ => relates_instructionBehind hR op t

/-! ## Directives -/

/-- Every directive, with instructions or without. -/
theorem relates_writingDirective (hR : AdmitsCode R) {t : Token}
    (hstatic : t.text = "static" → Relates R staticData)
    (hdefine : t.text = "macro" → Relates R defineMacro) : Relates R (directiveNamed t) := by
  by_cases hfunc : t.text = "func"
  · rw [directiveNamed_func hfunc]
    exact .bind (relates_functionHead hR.toAdmits) fun _ =>
      .ite (relates_emit hR.toAdmitsWriting _) (.pure _)
  by_cases hlocal : t.text = "local"
  · rw [directiveNamed_local hlocal]
    exact .bind (relates_reserveSlot hR.toAdmits) fun _ => relates_emit hR.toAdmitsWriting _
  exact relates_directiveNamed hR.toAdmits hstatic hdefine hfunc hlocal

theorem relates_directive (hR : AdmitsCode R) (hstatic : Relates R staticData)
    (hdefine : Relates R defineMacro) : Relates R directive :=
  .bind (hR.ofParser (Parser.relates_expect _ _)) fun _ =>
    relates_writingDirective hR (fun _ => hstatic) fun _ => hdefine

/-! ## Statements -/

theorem current_bind {β : Type} (f : Token → Asm β) (s : Assembler) :
    ((liftM Parser.current : Asm Token) >>= f) s = f s.cursor.current s := rfl

/-- What can become of a statement. -/
theorem statementBody_cases (expand : Asm Unit) (s : Assembler) :
    (s.cursor.current.kind = .directive ∧
      statementBody expand s = directive (s.movedTo s.cursor.next)) ∨
    (∃ op, Opcode.ofName? s.cursor.current.text = some op ∧ s.cursor.current.kind = .name ∧
      statementBody expand s = instruction op s) ∨
    (s.cursor.current.kind = .name ∧ Opcode.ofName? s.cursor.current.text = none ∧
      statementBody expand s = expand s) ∨
    (s.cursor.current.kind ≠ .directive ∧
      (s.cursor.current.kind = .name → s.findMacro? s.cursor.current.text = none) ∧
      ∃ e, statementBody expand s = .error e s) := by
  rw [statementBody, current_bind]
  cases hkind : s.cursor.current.kind with
  | directive => exact Or.inl ⟨rfl, rfl⟩
  | name =>
    cases hop : Opcode.ofName? s.cursor.current.text with
    | some op => exact Or.inr (Or.inl ⟨op, rfl, rfl, rfl⟩)
    | none =>
      cases hfind : s.findMacro? s.cursor.current.text with
      | some d =>
        refine Or.inr (Or.inr (Or.inl ⟨rfl, rfl, ?_⟩))
        change (if (s.findMacro? s.cursor.current.text).isSome then expand else _ : Asm Unit) s = _
        rw [hfind]
        rfl
      | none =>
        refine Or.inr (Or.inr (Or.inr ⟨by decide, fun _ => rfl,
          ⟨.unknownInstruction s.cursor.current.text, s.cursor.current.position⟩, ?_⟩))
        change (if (s.findMacro? s.cursor.current.text).isSome then expand else _ : Asm Unit) s = _
        rw [hfind]
        rfl
  | _ => exact Or.inr (Or.inr (Or.inr ⟨by decide, fun h => absurd h (by decide), _, rfl⟩))

end Asm

end CellMachine
