import CellMachine.Proofs.Assembly.Feed
import CellMachine.Proofs.Value

/-!
# What the source asks for

A feed reads instructions, written ones (`SourceInstruction`) and those that a directive stands
for. `Assembler.emissions` lists them in the order of the source, with macros replaced by what
they stand for; an instruction is read from its tokens alone (`Parser.sourceInstruction`), with
nothing written. `Emission.Encodes` says which encoded instruction is meant, and
`Emission.slots` where its operands lie.
-/

namespace CellMachine

/-! ## Instructions as they are written -/

/-- An instruction as it is written. Each operand has the role of its place. -/
structure SourceInstruction where
  opcode : Opcode
  datatype : Datatype
  /-- The operands of the layout. -/
  fixed : List (Role × SourceOperand)
  /-- The typed arguments of a call. -/
  args : List (Role × SourceOperand)
  deriving DecidableEq, Repr

namespace Parser

/-- Takes operands with the given roles. -/
def sourceOperands : List Role → Parser (List (Role × SourceOperand))
  | [] => return []
  | role :: rest => do
    expectColon
    let o ← operand
    return (role, o) :: (← sourceOperands rest)

/-- Takes at most `n` typed arguments. -/
def sourceArguments : Nat → Parser (List (Role × SourceOperand))
  | 0 => return []
  | n + 1 => do
    if ← take? .colon then
      let t ← argumentDatatype
      let o ← operand
      return (.typed t, o) :: (← sourceArguments n)
    else return []

/-- Takes an instruction behind the token of its name. -/
def sourceInstruction (op : Opcode) : Parser SourceInstruction := do
  let t ← current
  next
  let dt ← instructionDatatype op t
  let fixed ← sourceOperands (op.fixedRoles dt)
  let args ← sourceArguments (if op.layout.variadic then Descriptor.maxArgs else 0)
  return ⟨op, dt, fixed, args⟩

end Parser

/-- An instruction that the source asks for : a written one, the new frame of a function, or the
growth of the stack by a local. -/
inductive Emission where
  | written (i : SourceInstruction)
  | frame
  | growth (size : Nat)
  deriving DecidableEq, Repr

/-- What a directive of a given name asks for, with the cursor behind the name. -/
def directiveEmissions (name : String) (c : Cursor) : List Emission :=
  if name = "func" then [.frame]
  else if name = "local" then
    match Parser.declaration c with
    | .ok (_, dt) _ => [.growth dt.size]
    | .error _ _ => []
  else []

/-- What the statement under the cursor asks for. `expand` is for the uses of macros. -/
def statementEmissions (expand : Assembler → List Emission) (s : Assembler) : List Emission :=
  match s.cursor.current.kind with
  | .directive => directiveEmissions s.cursor.next.current.text s.cursor.next.next
  | .name =>
    match Opcode.ofName? s.cursor.current.text with
    | some op =>
      match Parser.sourceInstruction op s.cursor with
      | .ok i _ => [.written i]
      | .error _ _ => []
    | none => expand s
  | _ => []

/-- What at most `n` statements ask for, up to the first that fails. -/
def statementsEmissions (action : Asm Unit) (expand : Assembler → List Emission) :
    Nat → Assembler → List Emission
  | 0, _ => []
  | n + 1, s =>
    if s.onLine.cursor.atEnd then []
    else
      match Asm.statement action s.onLine with
      | .ok () s₁ =>
        statementEmissions expand s.onLine ++ statementsEmissions action expand n s₁.counted
      | .error _ _ => []

/-- What a use of a macro asks for, in which `n` more uses can be nested. -/
def expansionEmissions : Nat → Assembler → List Emission
  | 0, _ => []
  | n + 1, s =>
    match Asm.macroUse s with
    | .ok tokens s₁ =>
      statementsEmissions (Asm.expansion n) (expansionEmissions n) (tokens.size + 1)
        { s₁ with cursor := ⟨tokens, 0⟩, depth := s₁.depth + 1 }
    | .error _ _ => []

/-- What the statements of a feed ask for, up to the first that fails. -/
def Assembler.emissions (s : Assembler) (tokens : Array Token) : List Emission :=
  statementsEmissions (Asm.expansion maxDepth) (expansionEmissions maxDepth)
    ((s.fedWith tokens).cursor.remaining + 1) (s.fedWith tokens)

/-! ## Statements one by one -/

/-- Whether a name stands under the cursor that is not that of an instruction. -/
def Assembler.atUse (s : Assembler) : Bool :=
  s.cursor.current.kind == .name && (Opcode.ofName? s.cursor.current.text).isNone

/-- What the statement under the cursor asks for by itself, no use of a macro. -/
def Assembler.asks (s : Assembler) : List Emission := statementEmissions (fun _ => []) s

/-- The assemblers in front of what is carried out for the statement under the cursor. -/
def statementSteps (expand : Assembler → List Assembler) (s : Assembler) : List Assembler :=
  if s.atUse then expand s else [s]

/-- The assemblers in front of at most `n` statements, up to the first that fails. -/
def statementsSteps (action : Asm Unit) (expand : Assembler → List Assembler) :
    Nat → Assembler → List Assembler
  | 0, _ => []
  | n + 1, s =>
    if s.onLine.cursor.atEnd then []
    else
      match Asm.statement action s.onLine with
      | .ok () s₁ => statementSteps expand s.onLine ++ statementsSteps action expand n s₁.counted
      | .error _ _ => []

/-- The assemblers in front of the statements that a use of a macro stands for, in which `n` more
uses can be nested. -/
def expansionSteps : Nat → Assembler → List Assembler
  | 0, _ => []
  | n + 1, s =>
    match Asm.macroUse s with
    | .ok tokens s₁ =>
      statementsSteps (Asm.expansion n) (expansionSteps n) (tokens.size + 1)
        { s₁ with cursor := ⟨tokens, 0⟩, depth := s₁.depth + 1 }
    | .error _ _ => []

/-- The assemblers in front of the statements that a feed carries out, in the order of the source,
with macros replaced by what they stand for. -/
def Assembler.steps (s : Assembler) (tokens : Array Token) : List Assembler :=
  statementsSteps (Asm.expansion maxDepth) (expansionSteps maxDepth)
    ((s.fedWith tokens).cursor.remaining + 1) (s.fedWith tokens)

section

variable {expand : Assembler → List Emission} {steps : Assembler → List Assembler}

theorem statementEmissions_eq (hexpand : ∀ s, expand s = (steps s).flatMap Assembler.asks)
    (s : Assembler) :
    statementEmissions expand s = (statementSteps steps s).flatMap Assembler.asks := by
  unfold statementSteps
  cases huse : s.atUse with
  | true =>
    obtain ⟨hkind, hop⟩ : s.cursor.current.kind = .name ∧
        Opcode.ofName? s.cursor.current.text = none := by simpa [Assembler.atUse] using huse
    rw [if_pos rfl, ← hexpand]
    simp only [statementEmissions, hkind, hop]
  | false =>
    rw [if_neg (by decide), List.flatMap_singleton]
    unfold Assembler.asks statementEmissions
    cases hkind : s.cursor.current.kind with
    | name =>
      cases hop : Opcode.ofName? s.cursor.current.text with
      | some op => rfl
      | none => simp [Assembler.atUse, hkind, hop] at huse
    | _ => rfl

theorem statementsEmissions_eq {action : Asm Unit}
    (hexpand : ∀ s, expand s = (steps s).flatMap Assembler.asks) (n : Nat) (s : Assembler) :
    statementsEmissions action expand n s =
      (statementsSteps action steps n s).flatMap Assembler.asks := by
  induction n generalizing s with
  | zero => rfl
  | succ n ih =>
    unfold statementsEmissions statementsSteps
    split
    · rfl
    · split
      · rw [List.flatMap_append, statementEmissions_eq hexpand, ih]
      · rfl

theorem expansionEmissions_eq (n : Nat) (s : Assembler) :
    expansionEmissions n s = (expansionSteps n s).flatMap Assembler.asks := by
  induction n generalizing s with
  | zero => rfl
  | succ n ih =>
    unfold expansionEmissions expansionSteps
    split
    · exact statementsEmissions_eq ih _ _
    · rfl

end

/-- What the statements of a feed ask for is what each of them asks for by itself. -/
theorem Assembler.emissions_eq (s : Assembler) (tokens : Array Token) :
    s.emissions tokens = (s.steps tokens).flatMap Assembler.asks :=
  statementsEmissions_eq (expansionEmissions_eq maxDepth) _ _

/-! ## Their encodings -/

/-- The value of an operand in its slot. A number that is converted has the source datatype
`source` first. Names and texts get their values later, but for a datatype in its own slot; a
text has the slot of an address. -/
def SourceOperand.Denotes (o : SourceOperand) (source : Option Datatype) (v : Value) : Prop :=
  match source with
  | some t => ∃ w, o.value? t = .ok w ∧ w.cast? v.datatype = some v
  | none =>
    match o.term with
    | .address a => v.toNumeral = .integer a.bits.toNat
    | .integer l => l.toValue? v.datatype = some v ∧
        (v.datatype.isFloat = false → v.toNumeral = .integer l.toInt)
    | .float word => (Value.f64 word).cast? v.datatype = some v
    | .name name => v.datatype = .type → ∀ t, Datatype.ofName? name = some t → v = .type t
    | .text _ => v.datatype.holdsAddress = true

namespace SourceInstruction

/-- All operands, those of the layout first. -/
def operands (i : SourceInstruction) : List (Role × SourceOperand) := i.fixed ++ i.args

/-- The datatypes of the typed arguments. -/
def types (i : SourceInstruction) : List Datatype :=
  i.args.filterMap fun p =>
    match p.1 with
    | .typed t => some t
    | _ => none

/-- The source datatype of a conversion, if its type operand is the name of one. -/
def source? (i : SourceInstruction) : Option Datatype :=
  if i.opcode = .convert then (i.fixed.find? (·.1 = .datatype)).bind (·.2.datatypeName?) else none

end SourceInstruction

/-- What an operand is read as before it is converted, where numbers are read as `source`. -/
def readAs (source : Option Datatype) (p : Role × SourceOperand) : Option Datatype :=
  if p.1 = .value ∧ p.2.isNumber then source else none

/-- How an operand stands in an instruction with datatype `dt` : with the datatype of its role and
as a value that it denotes. -/
def EncodesOperand (dt : Datatype) (source : Option Datatype) (p : Role × SourceOperand)
    (x : Operand) : Prop :=
  ∃ v : Value, v.datatype = p.1.encodedDatatype dt p.2.deref ∧ p.2.Denotes source v ∧
    x = ⟨p.1, v.datatype, p.2.deref, v.toCell⟩

/-- How a written instruction is encoded. -/
structure SourceInstruction.Encodes (i : SourceInstruction) (x : Instruction) : Prop where
  opcode : x.opcode = i.opcode
  datatype : x.datatype = i.datatype
  mask : x.mask = maskOf x.operands
  fixed : List.Forall₂ (fun p => EncodesOperand i.datatype (readAs i.source? p) p) i.fixed x.fixed
  args : List.Forall₂ (EncodesOperand i.datatype none) i.args x.args
  descriptor : x.descriptor =
    if i.opcode.layout.variadic then Descriptor.ofTypes? i.types else none
  roles : i.fixed.map (·.1) = i.opcode.fixedRoles i.datatype
  typed : i.args.map (·.1) = i.types.map .typed
  types : Datatype.none ∉ i.types
  count : i.args.length ≤ if i.opcode.layout.variadic then Descriptor.maxArgs else 0

/-- How an emission is encoded. -/
def Emission.Encodes : Emission → Instruction → Prop
  | .written i, x => i.Encodes x
  | .frame, x => x = Asm.plainInstruction .pushFrame
  | .growth size, x => x = Asm.growStack size

/-! ## Their slots -/

/-- The place of an operand in the code. -/
structure Slot where
  offset : Nat
  datatype : Datatype
  operand : SourceOperand
  deriving DecidableEq, Repr

namespace Slot

/-- The name whose value the slot waits for. A datatype in a slot for one is no such name. -/
def name? (x : Slot) : Option String :=
  match x.operand.term with
  | .name name =>
    if x.datatype = .type ∧ (Datatype.ofName? name).isSome then none else some name
  | _ => none

/-- Whether the slot has the address of a text. -/
def isText (x : Slot) : Bool :=
  match x.operand.term with
  | .text _ => true
  | _ => false

/-- What the linker has to know of a slot that waits for a name. -/
def reference? (x : Slot) : Option (String × Nat × Datatype) :=
  x.name?.map fun name => (name, x.offset, x.datatype)

/-- The place that waits for the page of a text. -/
def relocation? (x : Slot) : Option Nat := if x.isText then some x.offset else none

end Slot

/-- The size of operands of an instruction with datatype `dt`. -/
def operandsWidth (dt : Datatype) (ps : List (Role × SourceOperand)) : Nat :=
  Datatype.totalSize (ps.map fun p => p.1.encodedDatatype dt p.2.deref)

/-- The slots of operands from a place on. -/
def operandSlots (dt : Datatype) (pos : Nat) : List (Role × SourceOperand) → List Slot
  | [] => []
  | p :: rest =>
    let encoded := p.1.encodedDatatype dt p.2.deref
    ⟨pos, encoded, p.2⟩ :: operandSlots dt (pos + encoded.size) rest

namespace SourceInstruction

/-- The bytes between the operands of the layout and the typed arguments. -/
def gap (i : SourceInstruction) : Nat := if i.opcode.layout.variadic then Descriptor.size else 0

/-- The size of the encoded instruction. -/
def size (i : SourceInstruction) : Nat :=
  headerSize + operandsWidth i.datatype i.fixed + i.gap + operandsWidth i.datatype i.args

/-- The slots of an instruction at a place. -/
def slots (i : SourceInstruction) (pos : Nat) : List Slot :=
  operandSlots i.datatype (pos + headerSize) i.fixed ++
    operandSlots i.datatype (pos + headerSize + operandsWidth i.datatype i.fixed + i.gap) i.args

end SourceInstruction

namespace Emission

/-- The size of the encoded instruction. -/
def size : Emission → Nat
  | .written i => i.size
  | .frame => headerSize
  | .growth _ => headerSize + Datatype.u64.size

/-- The slots of the operands that the source has written. -/
def slots (pos : Nat) : Emission → List Slot
  | .written i => i.slots pos
  | _ => []

end Emission

/-- The slots of instructions one behind the other. -/
def emissionSlots (pos : Nat) : List Emission → List Slot
  | [] => []
  | e :: rest => e.slots pos ++ emissionSlots (pos + e.size) rest

end CellMachine
