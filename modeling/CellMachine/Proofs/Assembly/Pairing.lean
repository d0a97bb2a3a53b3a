import CellMachine.Assembly.Statement
import CellMachine.Proofs.Simulation

/-!
# Two assemblers that do the same

Two assemblers in states that `R` relates do the same as far as a relation `S` between actions can
tell, which goes through sequences (`Relator`). Instructions are written with a few actions. Where
each of these does the same, so does writing operands (`Asm.PairsWriting.writeOperand`), also for
operands that are not the same but related by `V`. Where the actions and the parsers do the same that
directives are made of (`Asm.Pairs`), so does every directive (`Asm.Pairs.directive`), and what
stands behind the name of an instruction (`Asm.Pairs.instructionBehind`).
-/

namespace CellMachine

/-- The parsers that directives and instructions are made of. -/
inductive Parser.Part : {α : Type} → Parser α → Prop
  | failAt {α : Type} (t : Token) (kind : AssemblyErrorKind) : Part (failAt t kind : Parser α)
  | failHere {α : Type} (kind : AssemblyErrorKind) : Part (failHere kind : Parser α)
  | expectName : Part expectName
  | expectColon : Part expectColon
  | directiveName : Part (expect .name "a directive name")
  | macroName : Part (expect .name "a macro name")
  | colon : Part (take? .colon)
  | operand : Part operand
  | literalValue (o : SourceOperand) (dt : Datatype) : Part (literalValue o dt)
  | instructionDatatype (op : Opcode) (t : Token) : Part (instructionDatatype op t)
  | argumentDatatype : Part argumentDatatype
  | optionalDatatype : Part optionalDatatype
  | aliasAs (o : SourceOperand) (dt : Option Datatype) (v : Value) : Part (aliasAs o dt v)
  | aliasOf (o : SourceOperand) (dt : Option Datatype) (name : String) (found : Option Symbol) :
    Part (aliasOf o dt name found)
  | initializer : Part initializer
  | dottedName : Part dottedName
  | permissionName : Part permissionName
  | scopeName : Part scopeName
  | declaration : Part declaration
  | parameterList : Part parameterList
  | macroDef (t : Token) : Part (macroDef t)

namespace Asm

open CellMachine.Parser (failAt failHere literalValue)

/-- The actions that instructions are written with do the same, in states that `R` relates and for
operands that `V` relates. What is overwritten lies behind the code of some states. -/
structure PairsWriting (R : Assembler → Assembler → Prop)
    (S : {α : Type} → Asm α → Asm α → Prop) (V : SourceOperand → SourceOperand → Prop) : Prop
    extends Relator R S where
  term : ∀ {o o'}, V o o' → o'.term = o.term
  deref : ∀ {o o'}, V o o' → o'.deref = o.deref
  codeSize : ∀ s t, R s t → t.object.code.size = s.object.code.size
  failAt : ∀ {o o'} {α : Type} (kind : AssemblyErrorKind), V o o' →
    S (liftM (failAt o.token kind : Parser α) : Asm α) (liftM (failAt o'.token kind : Parser α))
  failHere : ∀ {α : Type} (kind : AssemblyErrorKind),
    S (liftM (failHere kind : Parser α) : Asm α) (liftM (failHere kind : Parser α))
  literalValue : ∀ {o o'} (dt : Datatype), V o o' →
    S (liftM (literalValue o dt) : Asm Value) (liftM (literalValue o' dt))
  emit : ∀ bytes, S (emit bytes) (emit bytes)
  refer : ∀ {o o' name} (offset : Nat) (dt : Datatype), V o o' → o.term = .name name →
    S (refer o name offset dt) (refer o' name offset dt)
  storeText : ∀ text, S (storeText text) (storeText text)
  relocate : ∀ offset, S (relocate offset) (relocate offset)
  overwriteCode : ∀ {start : Nat} (bytes : List UInt8),
    (∃ s t, R s t ∧ s.object.code.size ≤ start) →
    S (modify (·.overwriteCode start bytes) : Asm Unit) (modify (·.overwriteCode start bytes))

namespace PairsWriting

variable {R : Assembler → Assembler → Prop} {S : {α : Type} → Asm α → Asm α → Prop}
  {V : SourceOperand → SourceOperand → Prop} {o o' : SourceOperand}

/-! ## Operands -/

theorem operandCell (hS : PairsWriting R S V) (ho : V o o') (offset : Nat) (dt : Datatype) :
    S (operandCell o offset dt) (operandCell o' offset dt) := by
  have hliteral := hS.bind (hS.literalValue dt ho) fun v => hS.pure v.toCell
  unfold Asm.operandCell
  rw [hS.term ho, hS.deref ho]
  cases hterm : o.term with
  | name name =>
    exact hS.ite hliteral (hS.bind (hS.refer offset dt ho hterm) fun _ => hS.pure _)
  | text text =>
    refine hS.ite (hS.failAt _ ho) (hS.ite (hS.failAt _ ho) ?_)
    exact hS.bind (hS.storeText text) fun _ => hS.bind (hS.relocate offset) fun _ => hS.pure _
  | _ => exact hliteral

theorem writeOperand (hS : PairsWriting R S V) (ho : V o o') (role : Role) (dt : Datatype) :
    S (writeOperand o role dt) (writeOperand o' role dt) := by
  have hrest (offset : Nat) (_ : ∃ s t, R s t ∧ s.object.code.size = offset) :=
    hS.bind (hS.operandCell ho offset (role.encodedDatatype dt o.deref)) fun c =>
      hS.bind (hS.emit (c.bytes (role.encodedDatatype dt o.deref))) fun _ =>
        hS.pure (⟨role, role.encodedDatatype dt o.deref, o.deref, c⟩ : Operand)
  have hread := hS.observe hS.codeSize hrest
  unfold Asm.writeOperand
  rw [hS.deref ho]
  exact hread

theorem writeConverted (hS : PairsWriting R S V) (ho : V o o') (source dt : Datatype) :
    S (writeConverted o source dt) (writeConverted o' source dt) := by
  refine hS.bind (hS.literalValue source ho) fun v => ?_
  cases v.cast? dt.ofValueOperand with
  | some v => exact hS.bind (hS.emit _) fun _ => hS.pure _
  | none => exact hS.failAt _ ho

theorem writeFixed (hS : PairsWriting R S V) (ho : V o o') (source : Option Datatype) (role : Role)
    (dt : Datatype) : S (writeFixed source o role dt) (writeFixed source o' role dt) := by
  have hnumber : o'.isNumber = o.isNumber := by
    unfold SourceOperand.isNumber
    rw [hS.term ho, hS.deref ho]
  unfold Asm.writeFixed
  rw [hnumber]
  cases source with
  | some t => exact hS.ite (hS.writeConverted ho t dt) (hS.writeOperand ho role dt)
  | none => exact hS.writeOperand ho role dt

/-- The descriptor of typed arguments, where its place may be overwritten. -/
theorem fillDescriptor (hS : PairsWriting R S V) {start : Nat} (args : List Operand)
    (hoverwrite : ∀ d : Descriptor, S (modify (·.overwriteCode start d.toBytes) : Asm Unit)
      (modify (·.overwriteCode start d.toBytes))) :
    S (fillDescriptor start args) (fillDescriptor start args) := by
  unfold Asm.fillDescriptor
  cases Descriptor.ofTypes? (argumentTypes args) with
  | some d => exact hoverwrite d
  | none => exact hS.failHere _

end PairsWriting

/-! ## Directives -/

/-- The actions that directives and instructions are made of do the same, in states that `R`
relates. -/
structure Pairs (R : Assembler → Assembler → Prop) (S : {α : Type} → Asm α → Asm α → Prop) : Prop
    extends Relator R S where
  part : ∀ {α : Type} {p : Parser α}, p.Part → S (liftM p : Asm α) (liftM p)
  codeSize : ∀ s t, R s t → t.object.code.size = s.object.code.size
  staticSize : ∀ s t, R s t → t.object.static.size = s.object.static.size
  lookup : ∀ s t, R s t → ∀ name, t.lookup t.path name = s.lookup s.path name
  findMacro? : ∀ s t, R s t → ∀ name, t.findMacro? name = s.findMacro? name
  define : ∀ name kind value, S (define name kind value) (define name kind value)
  storeText : ∀ text, S (storeText text) (storeText text)
  reserveStatic : ∀ n, S (modify (·.reserveStatic n) : Asm Unit) (modify (·.reserveStatic n))
  require : ∀ name, S (modify fun s => { s with object := s.object.require name } : Asm Unit)
    (modify fun s => { s with object := s.object.require name })
  permissions : ∀ f : NameSet × NameSet → NameSet × NameSet,
    S (modify fun s => { s with object := { s.object with
        mandatory := (f (s.object.mandatory, s.object.optional)).1
        optional := (f (s.object.mandatory, s.object.optional)).2 } } : Asm Unit)
      (modify fun s => { s with object := { s.object with
        mandatory := (f (s.object.mandatory, s.object.optional)).1
        optional := (f (s.object.mandatory, s.object.optional)).2 } })
  pushScope : ∀ name locals, S (pushScope name locals) (pushScope name locals)
  closeScope : S closeScope closeScope
  reserveBytes : ∀ size, S (reserveBytes size) (reserveBytes size)
  addMacro : ∀ name d, S (addMacro name d) (addMacro name d)
  emit : ∀ bytes, S (emit bytes) (emit bytes)
  refer : ∀ o name offset dt, S (refer o name offset dt) (refer o name offset dt)
  relocate : ∀ offset, S (relocate offset) (relocate offset)
  overwriteCode : ∀ start bytes,
    S (modify (·.overwriteCode start bytes) : Asm Unit) (modify (·.overwriteCode start bytes))

namespace Pairs

variable {R : Assembler → Assembler → Prop} {S : {α : Type} → Asm α → Asm α → Prop}

/-- Operands that are the same are written the same. -/
theorem writing (hS : Pairs R S) : PairsWriting R S Eq where
  toRelator := hS.toRelator
  term h := h ▸ rfl
  deref h := h ▸ rfl
  codeSize := hS.codeSize
  failAt kind h := h ▸ hS.part (.failAt _ kind)
  failHere kind := hS.part (.failHere kind)
  literalValue dt h := h ▸ hS.part (.literalValue _ dt)
  emit := hS.emit
  refer offset dt h _ := h ▸ hS.refer _ _ offset dt
  storeText := hS.storeText
  relocate := hS.relocate
  overwriteCode bytes _ := hS.overwriteCode _ bytes

theorem codeEnd (hS : Pairs R S) (s t : Assembler) (h : R s t) : t.codeEnd = s.codeEnd := by
  unfold Assembler.codeEnd
  rw [hS.codeSize s t h]

theorem staticEnd (hS : Pairs R S) (s t : Assembler) (h : R s t) : t.staticEnd = s.staticEnd := by
  unfold Assembler.staticEnd
  rw [hS.staticSize s t h]

theorem label (hS : Pairs R S) : S label label := by
  refine hS.bind (hS.part .expectName) fun name => ?_
  have hread := hS.observe hS.codeEnd fun a _ => hS.define name .label (.addr a)
  exact hread

theorem aliasValue (hS : Pairs R S) (o : SourceOperand) (dt : Option Datatype) :
    S (aliasValue o dt) (aliasValue o dt) := by
  refine hS.ite (hS.part (.failAt _ _)) ?_
  cases o.term with
  | integer l => exact hS.part (.literalValue _ _)
  | float w => exact hS.part (.literalValue _ _)
  | address a => exact hS.part (.aliasAs _ _ _)
  | text text => exact hS.bind (hS.storeText text) fun _ => hS.part (.aliasAs _ _ _)
  | name name =>
    simp only
    split
    · exact hS.pure _
    · have hread := hS.observe (fun s t h => hS.lookup s t h name) fun found _ =>
        hS.part (.aliasOf o dt name found)
      exact hread

theorem aliasDirective (hS : Pairs R S) : S aliasDirective aliasDirective :=
  hS.bind (hS.part .expectName) fun _ => hS.bind (hS.part .optionalDatatype) fun _ =>
    hS.bind (hS.part .expectColon) fun _ => hS.bind (hS.part .operand) fun _ =>
      hS.bind (hS.aliasValue _ _) fun _ => hS.define _ _ _

theorem storeStatic (hS : Pairs R S) : S storeStatic storeStatic := by
  refine hS.bind (hS.part .initializer) fun x => ?_
  cases x with
  | inl n => exact hS.reserveStatic n
  | inr text => exact hS.bind (hS.storeText text) fun _ => hS.pure _

theorem staticData (hS : Pairs R S) : S staticData staticData := by
  refine hS.bind (hS.part .expectName) fun name => hS.bind (hS.part .expectColon) fun _ => ?_
  have hread := hS.observe hS.staticEnd fun a _ =>
    hS.bind hS.storeStatic fun _ => hS.define name .static (.addr a)
  exact hread

theorem functionHead (hS : Pairs R S) : S functionHead functionHead := by
  refine hS.bind (hS.part .expectName) fun name => ?_
  have hparams (params : List (String × Datatype)) :
      S (defineParameters params) (defineParameters params) := by
    induction params with
    | nil => exact hS.pure _
    | cons p rest ih => exact hS.bind (hS.define _ _ _) fun _ => ih
  have hread := hS.observe hS.codeEnd fun a _ =>
    hS.bind (hS.define name .function (.addr a)) fun _ =>
      hS.bind (hS.part .parameterList) fun params =>
        hS.bind (hS.pushScope name (some 0)) fun _ => hparams params
  exact hread

theorem function (hS : Pairs R S) (pushFrame : Bool) : S (function pushFrame) (function pushFrame) :=
  hS.bind hS.functionHead fun _ => hS.ite (hS.emit _) (hS.pure _)

theorem localSlot (hS : Pairs R S) : S localSlot localSlot :=
  hS.bind (hS.bind (hS.part .declaration) fun _ => hS.bind (hS.reserveBytes _) fun _ =>
    hS.bind (hS.define _ _ _) fun _ => hS.pure _) fun _ => hS.emit _

theorem defineMacro (hS : Pairs R S) : S defineMacro defineMacro := by
  refine hS.bind (hS.part .macroName) fun t => ?_
  have hread := hS.observe (fun s u h => hS.findMacro? s u h t.text) fun found _ =>
    hS.ite (p := (found.isSome || (Opcode.ofName? t.text).isSome) = true)
      (hS.part (.failAt t (.macroAlreadyDefined t.text)))
      (hS.bind (hS.part (.macroDef t)) fun d => hS.addMacro t.text d)
  exact hread

theorem directiveNamed (hS : Pairs R S) (t : Token) : S (directiveNamed t) (directiveNamed t) := by
  unfold Asm.directiveNamed
  split
  · exact hS.label
  · exact hS.aliasDirective
  · exact hS.staticData
  · exact hS.bind (hS.part .dottedName) fun name => hS.require name
  · exact hS.bind (hS.part .permissionName) fun name =>
      hS.permissions fun p => (NameSet.add p.1 name, p.2)
  · exact hS.bind (hS.part .permissionName) fun name =>
      hS.permissions fun p => (p.1, NameSet.add p.2 name)
  · exact hS.bind (hS.part .scopeName) fun name => hS.pushScope name none
  · exact hS.closeScope
  · exact hS.function true
  · exact hS.function false
  · exact hS.localSlot
  · exact hS.defineMacro
  · exact hS.part (.failAt _ _)

theorem directive (hS : Pairs R S) : S directive directive :=
  hS.bind (hS.part .directiveName) fun t => hS.directiveNamed t

/-! ## Instructions -/

theorem fixedOperands (hS : Pairs R S) (op : Opcode) (dt : Datatype) (source : Option Datatype)
    (roles : List Role) : S (fixedOperands op dt source roles) (fixedOperands op dt source roles) := by
  induction roles generalizing source with
  | nil => exact hS.pure _
  | cons role rest ih =>
    exact hS.bind (hS.part .expectColon) fun _ => hS.bind (hS.part .operand) fun _ =>
      hS.bind (hS.writing.writeFixed rfl _ _ _) fun _ => hS.bind (ih _) fun _ => hS.pure _

theorem typedArguments (hS : Pairs R S) (dt : Datatype) (n : Nat) :
    S (typedArguments dt n) (typedArguments dt n) := by
  induction n with
  | zero => exact hS.bind (hS.part .colon) fun _ => hS.ite (hS.part (.failHere _)) (hS.pure _)
  | succ n ih =>
    refine hS.bind (hS.part .colon) fun _ => hS.ite ?_ (hS.pure _)
    exact hS.bind (hS.part .argumentDatatype) fun _ => hS.bind (hS.part .operand) fun _ =>
      hS.bind (hS.writing.writeOperand rfl _ _) fun _ => hS.bind ih fun _ => hS.pure _

theorem callArguments (hS : Pairs R S) (op : Opcode) (dt : Datatype) :
    S (callArguments op dt) (callArguments op dt) := by
  have hread := hS.observe hS.codeSize fun start _ =>
    hS.bind (hS.emit (List.replicate Descriptor.size 0)) fun _ =>
      hS.bind (hS.typedArguments dt Descriptor.maxArgs) fun args =>
        hS.bind (hS.writing.fillDescriptor args fun d => hS.overwriteCode start d.toBytes) fun _ =>
          hS.pure args
  exact hS.ite hread (hS.pure _)

theorem instructionBehind (hS : Pairs R S) (op : Opcode) (t : Token) :
    S (instructionBehind op t) (instructionBehind op t) := by
  refine hS.bind (hS.part (.instructionDatatype op t)) fun dt => ?_
  have hread := hS.observe hS.codeSize fun start _ =>
    hS.bind (hS.emit (encodeHeader op dt 0)) fun _ =>
      hS.bind (hS.fixedOperands op dt none (op.fixedRoles dt)) fun fixed =>
        hS.bind (hS.callArguments op dt) fun args =>
          hS.overwriteCode (start + 2) (littleEndian 2 (maskOf (fixed ++ args)).toNat)
  exact hread

end Pairs

end Asm

end CellMachine
