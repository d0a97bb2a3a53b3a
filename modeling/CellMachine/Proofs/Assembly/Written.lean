import CellMachine.Proofs.Assembly.Abreast

/-!
# Reading before writing

The assembler writes an operand as soon as it has read it. What it writes does not depend on the
tokens any more, and what it reads does not depend on what was written. So an instruction can be
read whole and then be written (`Asm.instruction_eq_ok_iff`), and it is read the same wherever its
tokens stand (`Parser.echoed_sourceInstruction`). The operands of a conversion depend on each other,
those of all other instructions are written one by one (`Asm.writeLayout_of_ne`). What two
assemblers do the same with a single operand they do the same with an instruction
(`Asm.PairsWriting.writeInstruction`).
-/

namespace CellMachine

/-! ## Writing what was read -/

namespace Asm

open CellMachine.Parser

/-- Appends operands of an instruction with datatype `dt` to the code. -/
def writeOperands (dt : Datatype) : List (Role × SourceOperand) → Asm (List Operand)
  | [] => return []
  | p :: rest => do
    let x ← writeOperand p.2 p.1 dt
    let xs ← writeOperands dt rest
    return x :: xs

/-- Appends the operands that the layout of an instruction asks for. `source` is the source datatype
of a conversion, once it is known. -/
def writeLayout (op : Opcode) (dt : Datatype) (source : Option Datatype) :
    List (Role × SourceOperand) → Asm (List Operand)
  | [] => return []
  | p :: rest => do
    let source := if op = .convert ∧ p.1 = .datatype then p.2.datatypeName? else source
    let x ← writeFixed source p.2 p.1 dt
    let xs ← writeLayout op dt source rest
    return x :: xs

/-- Appends the typed arguments of a call, with their descriptor in front of them. -/
def writeArguments (op : Opcode) (dt : Datatype) (ps : List (Role × SourceOperand)) :
    Asm (List Operand) :=
  if op.layout.variadic then do
    let start := (← get).object.code.size
    emit (List.replicate Descriptor.size 0)
    let args ← writeOperands dt ps
    fillDescriptor start args
    return args
  else return []

/-- Appends an instruction that was read to the code. -/
def writeInstruction (i : SourceInstruction) : Asm Unit := do
  let start := (← get).object.code.size
  emit (encodeHeader i.opcode i.datatype 0)
  let fixed ← writeLayout i.opcode i.datatype none i.fixed
  let args ← writeArguments i.opcode i.datatype i.args
  modify (·.overwriteCode (start + 2) (littleEndian 2 (maskOf (fixed ++ args)).toNat))

/-- But for conversions every operand is written for itself. -/
theorem writeLayout_of_ne {op : Opcode} (hop : op ≠ .convert) (dt : Datatype)
    (ps : List (Role × SourceOperand)) : writeLayout op dt none ps = writeOperands dt ps := by
  induction ps with
  | nil => rfl
  | cons p rest ih =>
    have hsource : (if op = .convert ∧ p.1 = .datatype then p.2.datatypeName? else none) = none :=
      if_neg fun h => hop h.1
    rw [writeLayout, writeOperands, hsource, ih]
    rfl

/-- Operands in the same roles that `V` relates. -/
structure InRole (V : SourceOperand → SourceOperand → Prop) (p q : Role × SourceOperand) : Prop where
  role : q.1 = p.1
  operand : V p.2 q.2

namespace PairsWriting

variable {R : Assembler → Assembler → Prop} {S : {α : Type} → Asm α → Asm α → Prop}
  {V : SourceOperand → SourceOperand → Prop} {ps qs : List (Role × SourceOperand)}

theorem writeOperands (hS : PairsWriting R S V) (h : List.Forall₂ (InRole V) ps qs)
    (dt : Datatype) : S (writeOperands dt ps) (writeOperands dt qs) := by
  induction h with
  | nil => exact hS.pure _
  | @cons p q ps qs hpq _ ih =>
    unfold Asm.writeOperands
    rw [hpq.role]
    exact hS.bind (hS.writeOperand hpq.operand p.1 dt) fun _ => hS.bind ih fun _ => hS.pure _

theorem writeLayout (hS : PairsWriting R S V) (h : List.Forall₂ (InRole V) ps qs) (op : Opcode)
    (dt : Datatype) (source : Option Datatype) :
    S (writeLayout op dt source ps) (writeLayout op dt source qs) := by
  induction h generalizing source with
  | nil => exact hS.pure _
  | @cons p q ps qs hpq _ ih =>
    have hname : q.2.datatypeName? = p.2.datatypeName? := by
      unfold SourceOperand.datatypeName?
      rw [hS.term hpq.operand, hS.deref hpq.operand]
    unfold Asm.writeLayout
    rw [hpq.role, hname]
    exact hS.bind (hS.writeFixed hpq.operand _ p.1 dt) fun _ => hS.bind (ih _) fun _ => hS.pure _

theorem writeArguments (hS : PairsWriting R S V) (h : List.Forall₂ (InRole V) ps qs) (op : Opcode)
    (dt : Datatype) : S (writeArguments op dt ps) (writeArguments op dt qs) := by
  have hread := hS.observe hS.codeSize fun start hstart =>
    hS.bind (hS.emit (List.replicate Descriptor.size 0)) fun _ =>
      hS.bind (hS.writeOperands h dt) fun args =>
        hS.bind (hS.fillDescriptor args fun d => hS.overwriteCode d.toBytes
          (hstart.imp fun _ => .imp fun _ h => ⟨h.1, Nat.le_of_eq h.2⟩)) fun _ => hS.pure args
  exact hS.ite hread (hS.pure _)

/-- Instructions with operands that `V` relates are written the same. -/
theorem writeInstruction (hS : PairsWriting R S V) {j j' : SourceInstruction}
    (hopcode : j'.opcode = j.opcode) (hdatatype : j'.datatype = j.datatype)
    (hfixed : List.Forall₂ (InRole V) j.fixed j'.fixed)
    (hargs : List.Forall₂ (InRole V) j.args j'.args) :
    S (writeInstruction j) (writeInstruction j') := by
  have hread := hS.observe hS.codeSize fun start hstart =>
    hS.bind (hS.emit (encodeHeader j.opcode j.datatype 0)) fun _ =>
      hS.bind (hS.writeLayout hfixed j.opcode j.datatype none) fun fixed =>
        hS.bind (hS.writeArguments hargs j.opcode j.datatype) fun args =>
          hS.overwriteCode (littleEndian 2 (maskOf (fixed ++ args)).toNat)
            (hstart.imp fun _ => .imp fun _ h => ⟨h.1, h.2.le.trans (Nat.le_add_right start 2)⟩)
  unfold Asm.writeInstruction
  rw [hopcode, hdatatype]
  exact hread

end PairsWriting

end Asm

/-! ## What does not look at the tokens -/

namespace Assembler

@[simp] theorem movedTo_movedTo (s : Assembler) (c c' : Cursor) :
    (s.movedTo c).movedTo c' = s.movedTo c' := rfl

@[simp] theorem movedTo_cursor (s : Assembler) : s.movedTo s.cursor = s := rfl

/-- The cursor of the first assembler is at `c`, and the second is the first with its cursor at
`c'`. -/
def Elsewhere (c c' : Cursor) (s t : Assembler) : Prop := s.cursor = c ∧ t = s.movedTo c'

end Assembler

namespace Asm

open CellMachine.Parser
open Assembler (Elsewhere)

/-- An action that succeeds in the same way wherever the cursor is, and leaves it there. -/
def Blind {α : Type} (x : Asm α) : Prop := ∀ c c', Echoes (Elsewhere c c') x x

section

variable {α β : Type} {x : Asm α} {s s' : Assembler} {c c₁ : Cursor}

theorem Blind.of_ok {a : α} (hx : Blind x) (h : x s = .ok a s') :
    s'.cursor = s.cursor ∧ ∀ c, x (s.movedTo c) = .ok a (s'.movedTo c) := by
  refine ⟨?_, fun c => ?_⟩
  · obtain ⟨_, -, hcursor, -⟩ := hx s.cursor s.cursor ⟨rfl, rfl⟩ h
    exact hcursor
  · obtain ⟨_, hok, -, rfl⟩ := hx s.cursor c ⟨rfl, rfl⟩ h
    exact hok

/-- Behind what is written, tokens may be read or stay read. -/
theorem Blind.bind_eq_ok_iff {f g : α → Asm β} {b : β} (hx : Blind x)
    (hfg : ∀ (a : α) (s₁ : Assembler), s₁.cursor = c₁ →
      (f a s₁ = .ok b s' ↔ g a (s₁.movedTo c) = .ok b s')) :
    (x >>= f) (s.movedTo c₁) = .ok b s' ↔ (x >>= g) (s.movedTo c) = .ok b s' := by
  constructor
  · intro h
    obtain ⟨a, s₁, ha, h⟩ := bind_eq_ok.mp h
    obtain ⟨hcursor, hmoved⟩ := hx.of_ok ha
    exact bind_eq_ok.mpr ⟨a, _, hmoved c, (hfg a s₁ hcursor).mp h⟩
  · intro h
    obtain ⟨a, s₁, ha, h⟩ := bind_eq_ok.mp h
    obtain ⟨hcursor, hmoved⟩ := hx.of_ok ha
    have hback : (s₁.movedTo c₁).movedTo c = s₁ := by
      rw [Assembler.movedTo_movedTo]
      exact (congrArg s₁.movedTo hcursor.symm).trans s₁.movedTo_cursor
    exact bind_eq_ok.mpr ⟨a, _, hmoved c₁, (hfg a (s₁.movedTo c₁) rfl).mpr (by rwa [hback])⟩

theorem blind_modify {f : Assembler → Assembler} (h : ∀ s c, f (s.movedTo c) = (f s).movedTo c) :
    Blind (modify f : Asm Unit) := by
  rintro _ c' s _ ⟨rfl, rfl⟩
  have hcursor : (f s).cursor = s.cursor := congrArg (·.cursor) (h s s.cursor)
  exact .ok () ⟨hcursor, h s c'⟩

theorem blind_literalValue (o : SourceOperand) (dt : Datatype) :
    Blind (liftM (literalValue o dt) : Asm Value) := by
  rintro c c' s _ h
  unfold literalValue
  cases o.value? dt with
  | ok v => exact .ok v h
  | error kind => exact .error _ _ _

theorem blind_storeText (text : String) : Blind (storeText text) := by
  rintro _ c' s _ ⟨rfl, rfl⟩
  exact .ok _ ⟨rfl, rfl⟩

end

/-- Writing does not look at the tokens. -/
theorem pairsWriting_elsewhere (c c' : Cursor) :
    PairsWriting (Elsewhere c c') (fun {α} (x y : Asm α) => Echoes (Elsewhere c c') x y) Eq where
  toRelator := Echoes.relator _
  term h := h ▸ rfl
  deref h := h ▸ rfl
  codeSize := by rintro s _ ⟨-, rfl⟩; rfl
  failAt _ _ := fun _ _ _ => .error _ _ _
  failHere _ := fun _ _ _ => .error _ _ _
  literalValue dt h := h ▸ blind_literalValue _ dt c c'
  emit _ := blind_modify (fun _ _ => rfl) c c'
  refer offset dt h _ := h ▸ blind_modify (fun _ _ => rfl) c c'
  storeText text := blind_storeText text c c'
  relocate _ := blind_modify (fun _ _ => rfl) c c'
  overwriteCode _ _ := blind_modify (fun _ _ => rfl) c c'

theorem forall₂_inRole_self (ps : List (Role × SourceOperand)) : List.Forall₂ (InRole Eq) ps ps :=
  List.forall₂_same.mpr fun _ _ => ⟨rfl, rfl⟩

theorem blind_writeOperand (o : SourceOperand) (role : Role) (dt : Datatype) :
    Blind (writeOperand o role dt) :=
  fun c c' => (pairsWriting_elsewhere c c').writeOperand rfl role dt

theorem blind_writeFixed (source : Option Datatype) (o : SourceOperand) (role : Role)
    (dt : Datatype) : Blind (writeFixed source o role dt) :=
  fun c c' => (pairsWriting_elsewhere c c').writeFixed rfl source role dt

theorem blind_writeLayout (op : Opcode) (dt : Datatype) (source : Option Datatype)
    (ps : List (Role × SourceOperand)) : Blind (writeLayout op dt source ps) :=
  fun c c' => (pairsWriting_elsewhere c c').writeLayout (forall₂_inRole_self ps) op dt source

theorem blind_writeInstruction (i : SourceInstruction) : Blind (writeInstruction i) :=
  fun c c' => (pairsWriting_elsewhere c c').writeInstruction rfl rfl (forall₂_inRole_self _)
    (forall₂_inRole_self _)

section

variable {R : Assembler → Assembler → Prop} [Std.Refl R] [Trans R R R]

theorem relates_writeOperands (hR : AdmitsWriting R) (dt : Datatype)
    (ps : List (Role × SourceOperand)) : Relates R (writeOperands dt ps) := by
  induction ps with
  | nil => exact .pure _
  | cons p rest ih =>
    exact .bind (relates_writeOperand hR _ _ _) fun _ => .bind ih fun _ => .pure _

theorem relates_writeLayout (hR : AdmitsWriting R) (op : Opcode) (dt : Datatype)
    (source : Option Datatype) (ps : List (Role × SourceOperand)) :
    Relates R (writeLayout op dt source ps) := by
  induction ps generalizing source with
  | nil => exact .pure _
  | cons p rest ih =>
    exact .bind (relates_writeFixed hR.operands _ _ _ _) fun _ => .bind (ih _) fun _ => .pure _

theorem relates_writeArguments (hR : AdmitsWriting R) (op : Opcode) (dt : Datatype)
    (ps : List (Role × SourceOperand)) : Relates R (writeArguments op dt ps) := by
  refine .ite (.get_bind fun s => ?_) (.pure _)
  have hrest : Relates (Onward R s) (do
      emit (List.replicate Descriptor.size 0)
      let args ← writeOperands dt ps
      fillDescriptor s.object.code.size args
      return args) :=
    .bind (onward_of_relates s (relates_emit hR _)) fun _ =>
      .bind (onward_of_relates s (relates_writeOperands hR _ _)) fun args =>
        .bind (onward_fillDescriptor hR s args) fun _ => onward_of_relates s (.pure _)
  exact hrest s (Std.Refl.refl s)

/-- What is allowed to instructions is all that writing one does. -/
theorem relates_writeInstruction (hR : AdmitsWriting R) (i : SourceInstruction) :
    Relates R (writeInstruction i) := by
  refine .get_bind fun s => ?_
  have hrest : Relates (Onward R s) (do
      emit (encodeHeader i.opcode i.datatype 0)
      let fixed ← writeLayout i.opcode i.datatype none i.fixed
      let args ← writeArguments i.opcode i.datatype i.args
      modify (·.overwriteCode (s.object.code.size + 2)
        (littleEndian 2 (maskOf (fixed ++ args)).toNat))) :=
    .bind (onward_of_relates s (relates_emit hR _)) fun _ =>
      .bind (onward_of_relates s (relates_writeLayout hR _ _ _ _)) fun _ =>
        .bind (onward_of_relates s (relates_writeArguments hR _ _ _)) fun _ =>
          onward_overwriteCode hR _ (Nat.le_add_right _ _)
  exact hrest s (Std.Refl.refl s)

end

variable {op : Opcode} {dt : Datatype} {ps : List (Role × SourceOperand)} {xs : List Operand}
  {s s' : Assembler} {c : Cursor}

/-- What comes behind two actions that do the same does the same. -/
theorem bind_eq_ok_congr {α β : Type} {x y : Asm α} {u v : Assembler} {f : α → Asm β} {b : β}
    (h : ∀ a t, x u = .ok a t ↔ y v = .ok a t) :
    (x >>= f) u = .ok b s' ↔ (y >>= f) v = .ok b s' := by
  simp only [bind_eq_ok, h]

/-- What goes on behind a parser that succeeds goes on with what it has read. -/
theorem ofParser_bind_of_ok {α β : Type} {p : Parser α} {a : α} {c₁ : Cursor}
    (h : p s.cursor = .ok a c₁) (f : α → Asm β) :
    ((liftM p : Asm α) >>= f) s = f a (s.movedTo c₁) :=
  bind_of_ok (ofParser_eq_ok.mpr ⟨c₁, h, rfl⟩) f

theorem ofParser_bind_of_error {α β : Type} {p : Parser α} {e : AssemblyError} {c₁ : Cursor}
    (h : p s.cursor = .error e c₁) (f : α → Asm β) :
    ((liftM p : Asm α) >>= f) s = .error e (s.movedTo c₁) := by
  refine bind_eq_error.mpr (.inl ?_)
  change ofParser p s = _
  unfold ofParser
  rw [h]
  rfl

/-- Operands that are read can be written afterwards. The induction is on the operands to come. -/
theorem fixedOperands_eq_ok_iff {roles : List Role} {source : Option Datatype}
    (hreads : sourceOperands roles s.cursor = .ok ps c) :
    fixedOperands op dt source roles s = .ok xs s' ↔
      writeLayout op dt source ps (s.movedTo c) = .ok xs s' := by
  induction roles generalizing s s' ps xs source with
  | nil =>
    cases hreads
    rfl
  | cons role rest ih =>
    obtain ⟨_, c₁, hcolon, hreads⟩ := bind_eq_ok.mp hreads
    obtain ⟨o, c₂, hoperand, hreads⟩ := bind_eq_ok.mp hreads
    obtain ⟨ps, c₃, hrest, hreads⟩ := bind_eq_ok.mp hreads
    cases hreads
    rw [fixedOperands, ofParser_bind_of_ok hcolon, ofParser_bind_of_ok hoperand]
    refine (blind_writeFixed _ o role dt).bind_eq_ok_iff fun x s₁ hcursor =>
      bind_eq_ok_congr fun os t => ih ?_
    rw [hcursor]
    exact hrest

/-- So can typed arguments, if no more of them follow. -/
theorem typedArguments_eq_ok_iff {n : Nat} (hreads : sourceArguments n s.cursor = .ok ps c)
    (hend : c.current.kind ≠ .colon) :
    typedArguments dt n s = .ok xs s' ↔ writeOperands dt ps (s.movedTo c) = .ok xs s' := by
  induction n generalizing s s' ps xs with
  | zero =>
    cases hreads
    have hat : at? .colon s.cursor = .ok false s.cursor :=
      congrArg (EStateM.Result.ok · _) (by simpa using hend)
    have hmore : take? .colon s.cursor = .ok false s.cursor := bind_eq_ok.mpr ⟨false, _, hat, rfl⟩
    rw [typedArguments, ofParser_bind_of_ok hmore]
    rfl
  | succ n ih =>
    obtain ⟨more, c₁, hmore, hreads⟩ := bind_eq_ok.mp hreads
    rw [typedArguments, ofParser_bind_of_ok hmore]
    cases more with
    | true =>
      obtain ⟨t, c₂, htype, hreads⟩ := bind_eq_ok.mp hreads
      obtain ⟨o, c₃, hoperand, hreads⟩ := bind_eq_ok.mp hreads
      obtain ⟨ps, c₄, hrest, hreads⟩ := bind_eq_ok.mp hreads
      cases hreads
      rw [if_pos rfl, ofParser_bind_of_ok htype, ofParser_bind_of_ok hoperand]
      refine (blind_writeOperand o (.typed t) dt).bind_eq_ok_iff fun x s₁ hcursor =>
        bind_eq_ok_congr fun os t => ih ?_
      rw [hcursor]
      exact hrest
    | false =>
      cases hreads
      rfl

theorem callArguments_eq_ok_iff
    (hreads : sourceArguments (if op.layout.variadic then Descriptor.maxArgs else 0) s.cursor =
      .ok ps c) (hend : c.current.kind ≠ .colon) :
    callArguments op dt s = .ok xs s' ↔ writeArguments op dt ps (s.movedTo c) = .ok xs s' := by
  unfold callArguments writeArguments
  cases hvariadic : op.layout.variadic with
  | false =>
    rw [hvariadic] at hreads
    cases hreads
    rfl
  | true =>
    rw [hvariadic] at hreads
    exact bind_eq_ok_congr (u := s.appendCode (List.replicate Descriptor.size 0)) fun os t =>
      typedArguments_eq_ok_iff hreads hend

/-- An instruction can be read whole and written afterwards. -/
theorem instruction_eq_ok_iff {i : SourceInstruction}
    (hreads : sourceInstruction op s.cursor = .ok i c) (hend : c.current.kind ≠ .colon) :
    instruction op s = .ok () s' ↔ writeInstruction i (s.movedTo c) = .ok () s' := by
  obtain ⟨t, c₁, hcurrent, hreads⟩ := bind_eq_ok.mp hreads
  obtain ⟨_, c₂, hnext, hreads⟩ := bind_eq_ok.mp hreads
  obtain ⟨dt, c₃, hdatatype, hreads⟩ := bind_eq_ok.mp hreads
  obtain ⟨fixed, c₄, hfixed, hreads⟩ := bind_eq_ok.mp hreads
  obtain ⟨args, c₅, hargs, hreads⟩ := bind_eq_ok.mp hreads
  cases hreads
  rw [instruction, ofParser_bind_of_ok hcurrent, ofParser_bind_of_ok hnext, instructionBehind,
    ofParser_bind_of_ok hdatatype]
  refine (bind_eq_ok_congr (u := (s.movedTo c₃).appendCode (encodeHeader op dt 0)) fun os t =>
    fixedOperands_eq_ok_iff hfixed).trans ?_
  exact (blind_writeLayout op dt none fixed).bind_eq_ok_iff
    (s := (s.appendCode (encodeHeader op dt 0))) fun os s₁ hcursor =>
      bind_eq_ok_congr fun as t => callArguments_eq_ok_iff (by rw [hcursor]; exact hargs) hend

end Asm

/-! ## Reading elsewhere -/

namespace Parser

open Cursor (Abreast)

variable {w : Passage} {c c' : Cursor} {op : Opcode} {i : SourceInstruction}

theorem echoes_sourceOperands (roles : List Role) :
    Echoes (Abreast w) (sourceOperands roles) (sourceOperands roles) := by
  induction roles with
  | nil => exact .pure _
  | cons role rest ih =>
    exact .bind echoes_expectColon fun _ => .bind echoes_operand fun _ => .bind ih fun _ => .pure _

theorem echoes_sourceArguments (n : Nat) :
    Echoes (Abreast w) (sourceArguments n) (sourceArguments n) := by
  induction n with
  | zero => exact .pure _
  | succ n ih =>
    intro c c' h
    refine echoed_taken (by decide) h (fun h' => ?_) (.ok _ h)
    have hargument : Echoes (Abreast w)
        (do
          let t ← argumentDatatype
          let o ← operand
          return (Role.typed t, o) :: (← sourceArguments n))
        (do
          let t ← argumentDatatype
          let o ← operand
          return (Role.typed t, o) :: (← sourceArguments n)) :=
      .bind echoes_argumentDatatype fun _ => .bind echoes_operand fun _ => .bind ih fun _ => .pure _
    exact hargument h'

theorem echoed_sourceInstruction (h : Abreast w c c')
    (hcurrent : c.current.endsStatement = false) :
    Echoed (Abreast w) (sourceInstruction op c) (sourceInstruction op c') := by
  refine echoed_current_bind h (fun hends => absurd hends (by simp [hcurrent])) fun _ =>
    echoed_next_bind h hcurrent fun h' => ?_
  have hrest : Echoes (Abreast w)
      (do
        let dt ← instructionDatatype op c.current
        let fixed ← sourceOperands (op.fixedRoles dt)
        let args ← sourceArguments (if op.layout.variadic then Descriptor.maxArgs else 0)
        return (⟨op, dt, fixed, args⟩ : SourceInstruction))
      (do
        let dt ← instructionDatatype op c.current
        let fixed ← sourceOperands (op.fixedRoles dt)
        let args ← sourceArguments (if op.layout.variadic then Descriptor.maxArgs else 0)
        return (⟨op, dt, fixed, args⟩ : SourceInstruction)) :=
    .bind (echoes_instructionDatatype _ _) fun _ => .bind (echoes_sourceOperands _) fun _ =>
      .bind (echoes_sourceArguments _) fun _ => .pure _
  exact hrest h'

end Parser

namespace Cursor

/-- The cursor is in front of these tokens, which reach to the end of its list. -/
def InFrontOf (c : Cursor) (ts : List Token) : Prop := c.tokens.toList.drop c.pos = ts

variable {c : Cursor} {t e : Token} {ts rest : List Token}

theorem InFrontOf.current (h : c.InFrontOf (t :: ts)) : c.current = t := by
  have hget : c.tokens[c.pos]? = some t := by
    rw [← Array.getElem?_toList, ← List.head?_drop, h, List.head?_cons]
  unfold Cursor.current tokenAt
  rw [hget, Option.getD_some]

theorem InFrontOf.pos_lt (h : c.InFrontOf (t :: ts)) : c.pos < c.tokens.size := by
  have hlength := congrArg List.length h
  simp only [List.length_drop, Array.length_toList, List.length_cons] at hlength
  omega

theorem InFrontOf.next (h : c.InFrontOf (t :: ts)) : c.next.InFrontOf ts := by
  unfold InFrontOf Cursor.next
  rw [if_pos h.pos_lt, ← List.tail_drop, show c.tokens.toList.drop c.pos = t :: ts from h,
    List.tail_cons]

/-- A statement by itself, and the same tokens in front of the end of a statement. -/
def elsewhere (c : Cursor) (ts : List Token) (e : Token) (rest : List Token)
    (he : e.endsStatement = true) : Passage where
  shared := ts.toArray
  ending := #[.endOfCode .start]
  front := (c.tokens.toList.take c.pos).toArray
  behind := (e :: rest).toArray
  ending_pos := Nat.one_pos
  ends t ht := by
    rw [Array.mem_singleton.mp ht]
    exact ⟨rfl, show "" ≠ "end" by decide⟩
  ends' := ⟨e, rfl, he⟩

theorem InFrontOf.abreast (h : c.InFrontOf (ts ++ e :: rest)) (he : e.endsStatement = true) :
    (⟨ts.toArray.push (.endOfCode .start), 0⟩ : Cursor).Abreast (c.elsewhere ts e rest he) c where
  tokens := Array.push_eq_append
  tokens' := by
    apply Array.toList_inj.mp
    have hsplit := List.take_append_drop c.pos c.tokens.toList
    rw [show c.tokens.toList.drop c.pos = _ from h] at hsplit
    simpa [Passage.second, elsewhere] using hsplit.symm
  pos := by
    have hlength := congrArg List.length h
    simp only [List.length_drop, Array.length_toList, List.length_append, List.length_cons]
      at hlength
    simp [elsewhere]
    omega
  inside := Nat.zero_le _

theorem Abreast.inFrontOf {d : Cursor} {he : e.endsStatement = true}
    {c' : Cursor} (h : d.Abreast (c.elsewhere ts e rest he) c') (hend : d.pos = ts.length) :
    c'.InFrontOf (e :: rest) := by
  unfold InFrontOf
  rw [h.tokens', h.pos, hend, Passage.second, Array.toList_append]
  exact List.drop_left' (by simp [elsewhere])

end Cursor

/-- The instruction is what the tokens of a statement by itself are read as. -/
structure SourceInstruction.ReadFrom (i : SourceInstruction) (ts : List Token) : Prop where
  name : ∃ t, ts.head? = some t ∧ t.kind = .name ∧ Opcode.ofName? t.text = some i.opcode
  reads : ∃ d, Parser.sourceInstruction i.opcode ⟨ts.toArray.push (.endOfCode .start), 0⟩ = .ok i d ∧
    d.pos = ts.length

namespace SourceInstruction.ReadFrom

variable {i : SourceInstruction} {ts rest : List Token} {c : Cursor} {e : Token}

theorem current (h : i.ReadFrom ts) (hc : c.InFrontOf (ts ++ rest)) :
    c.current.kind = .name ∧ Opcode.ofName? c.current.text = some i.opcode := by
  obtain ⟨t, ht, hname⟩ := h.name
  obtain ⟨ts, rfl⟩ := List.head?_eq_some_iff.mp ht
  rwa [hc.current]

/-- It is read from these tokens wherever they stand in front of the end of a statement. -/
theorem sourceInstruction (h : i.ReadFrom ts) (he : e.endsStatement = true)
    (hc : c.InFrontOf (ts ++ e :: rest)) :
    ∃ c', Parser.sourceInstruction i.opcode c = .ok i c' ∧ c'.InFrontOf (e :: rest) := by
  obtain ⟨d, hreads, hend⟩ := h.reads
  have habreast := hc.abreast he
  have hname : c.current.endsStatement = false :=
    Token.endsStatement_of_kind (h.current hc).1 (by decide)
  obtain ⟨c', hreads', h'⟩ := Parser.echoed_sourceInstruction habreast
    (habreast.endsStatement_current ▸ hname) hreads
  exact ⟨c', hreads', h'.inFrontOf hend⟩

end SourceInstruction.ReadFrom

end CellMachine
