import CellMachine.Proofs.Assembly.Aliased
import CellMachine.Proofs.Assembly.Reassembly

/-!
# Conversions in source text

A statement `convert.T : D : F : S` is known by its words (`convertWords`). Unless `T` is `none` it
is read as a conversion (`Parser.sourceInstruction_of_convertWords`), which is written operand by
operand (`Asm.writeInstruction_conversion_iff`) : the number behind `F` is read as an `F` and
becomes a `T` at once, everything else is written as in any other instruction.
-/

namespace CellMachine

theorem Value.cast?_none (v : Value) : v.cast? .none = none := by
  cases h : v.cast? .none with
  | none => rfl
  | some w =>
    have hw := datatype_of_cast? h
    cases w <;> cases hw

/-- A plain integer has the value of its literal. -/
theorem SourceOperand.value?_integer_iff {o : SourceOperand} {l : IntLiteral} {dt : Datatype}
    {v : Value} (hterm : o.term = .integer l) (hderef : o.deref = false) :
    o.value? dt = .ok v ↔ l.toValue? dt = some v := by
  unfold value?
  simp only [hterm, hderef, Bool.false_and, Bool.false_eq_true, if_false]
  cases l.toValue? dt with
  | none => simp
  | some w => simp

/-! ## Words -/

/-- What may stand behind an operand of the layout. -/
def closesOperand (kind : TokenKind) : Bool :=
  kind == .colon || kind == .newline || kind == .endOfCode

/-- An operand, and the words that are read as it wherever they stand in a statement. -/
structure OperandText where
  deref : Bool
  term : Term
  words : Words
  reads : ∀ (c : Cursor) (w : TokenKind × String) (rest : Words), closesOperand w.1 = true →
    c.Ahead (words ++ w :: rest) →
      ∃ token c', Parser.operand c = .ok ⟨deref, term, token⟩ c' ∧ c'.Ahead (w :: rest)

/-- A term without a mark is an operand. -/
theorem Parser.operand_of_term {t : Term} {c c' : Cursor} {w : TokenKind × String} {rest : Words}
    (hc : c.Ahead (w :: rest)) (hw : (w.1 == .deref) = false) (hterm : term c = .ok t c') :
    operand c = .ok ⟨false, t, c.current⟩ c' := by
  have hmark := at?_of_ahead .deref hc
  rw [hw] at hmark
  exact bind_eq_ok.mpr ⟨_, _, hmark, bind_eq_ok.mpr ⟨_, _, rfl, bind_eq_ok.mpr ⟨_, _, hterm, rfl⟩⟩⟩

namespace OperandText

/-- The operand that is read, with its first token. -/
def operand (o : OperandText) (token : Token) : SourceOperand := ⟨o.deref, o.term, token⟩

theorem alike (o : OperandText) (t t' : Token) : (o.operand t).Alike (o.operand t') := ⟨rfl, rfl⟩

theorem reads_of_spells {ls : List Lexeme} {t : Term} (h : Spells ls t) (deref : Bool) (c : Cursor)
    (w : TokenKind × String) (rest : Words) (hw : closesOperand w.1 = true)
    (hc : c.Ahead (spellings (Parser.derefMark deref ++ ls) ++ w :: rest)) :
    ∃ token c', Parser.operand c = .ok ⟨deref, t, token⟩ c' ∧ c'.Ahead (w :: rest) := by
  have hdot : w.1 ≠ .dot := by
    rintro hdot
    rw [hdot] at hw
    cases hw
  obtain ⟨c', token, hoperand, hrest⟩ := Parser.operand_of_ahead h hc hdot
  exact ⟨token, c', hoperand, hrest⟩

/-- The text of a term that is spelled with lexemes. -/
def ofSpells {ls : List Lexeme} {t : Term} (h : Spells ls t) (deref : Bool) : OperandText :=
  ⟨deref, t, spellings (Parser.derefMark deref ++ ls), reads_of_spells h deref⟩

theorem reads_name (x : String) (c : Cursor) (w : TokenKind × String) (rest : Words)
    (hw : closesOperand w.1 = true) (hc : c.Ahead ([(.name, x)] ++ w :: rest)) :
    ∃ token c', Parser.operand c = .ok ⟨false, .name x, token⟩ c' ∧ c'.Ahead (w :: rest) := by
  have hdot : w.1 ≠ .dot := by
    rintro hdot
    rw [hdot] at hw
    cases hw
  have hterm : Parser.term c = .ok (.name x) c.next := by
    refine bind_eq_ok.mpr ⟨_, _, rfl, ?_⟩
    rw [hc.kind]
    exact bind_eq_ok.mpr ⟨_, _, Parser.dottedName_of_ahead hc hdot, rfl⟩
  exact ⟨_, _, Parser.operand_of_term hc rfl hterm, hc.next⟩

/-- The name of a symbol. -/
def ofName (x : String) : OperandText := ⟨false, .name x, [(.name, x)], reads_name x⟩

theorem reads_number {number : String} {l : IntLiteral} (h : IntLiteral.ofText? number = some l)
    (c : Cursor) (w : TokenKind × String) (rest : Words) (_ : closesOperand w.1 = true)
    (hc : c.Ahead ([(.integer, number)] ++ w :: rest)) :
    ∃ token c', Parser.operand c = .ok ⟨false, .integer l, token⟩ c' ∧ c'.Ahead (w :: rest) := by
  have hnumber : IntLiteral.ofText? c.current.text = some l := by rw [hc.text, h]
  exact ⟨_, _, Parser.operand_of_term hc rfl (Parser.term_of_literal hc.kind hnumber), hc.next⟩

/-- An integer as it is written. -/
def ofNumber {number : String} {l : IntLiteral} (h : IntLiteral.ofText? number = some l) :
    OperandText :=
  ⟨false, .integer l, [(.integer, number)], reads_number h⟩

end OperandText

/-- `$ac`. -/
def accumulatorText : OperandText := .ofSpells (.register .ac) false

theorem ofText?_twoHundred : IntLiteral.ofText? "200" = some ⟨false, 200⟩ := by decide

/-- `200`. -/
def twoHundredText : OperandText := .ofNumber ofText?_twoHundred

/-- The words of `convert.T : D : F : S`. -/
def convertWords (T : Datatype) (d : OperandText) (F : Datatype) (o : OperandText) : Words :=
  (.name, "convert") :: (.dot, ".") :: (.name, T.name) :: (.colon, ":") ::
    (d.words ++ (.colon, ":") :: (.name, F.name) :: (.colon, ":") :: o.words)

/-- A conversion as it is written. -/
def SourceInstruction.conversion (T : Datatype) (d : SourceOperand) (F : Datatype) (t : Token)
    (o : SourceOperand) : SourceInstruction :=
  ⟨.convert, T, [(.address, d), (.datatype, ⟨false, .name F.name, t⟩), (.value, o)], []⟩

theorem SourceInstruction.source?_conversion (T : Datatype) (d : SourceOperand) (F : Datatype)
    (t : Token) (o : SourceOperand) : (conversion T d F t o).source? = some F := by
  simp [source?, conversion, SourceOperand.datatypeName?, Datatype.ofName?_name]

namespace Parser

variable {T F : Datatype} {d o : OperandText} {w : TokenKind × String} {rest : Words} {c : Cursor}

theorem colon_of_ahead (h : c.Ahead ((.colon, ":") :: rest)) : expectColon c = .ok () c.next :=
  bind_eq_ok.mpr ⟨_, _, expect_of_ahead h, rfl⟩

/-- The words of a conversion are read as one, if it has a datatype. -/
theorem sourceInstruction_of_convertWords (hT : T ≠ .none) (hw : closesOperand w.1 = true)
    (h : c.Ahead (convertWords T d F o ++ w :: rest)) :
    ∃ t₁ t₂ t₃ c', sourceInstruction .convert c =
      .ok (.conversion T (d.operand t₁) F t₂ (o.operand t₃)) c' ∧ c'.Ahead (w :: rest) := by
  have h : c.Ahead ((.name, "convert") :: (.dot, ".") :: (.name, T.name) :: (.colon, ":") ::
      (d.words ++ (.colon, ":") :: (.name, F.name) :: (.colon, ":") :: (o.words ++ w :: rest))) := by
    simpa [convertWords] using h
  have hdatatype : instructionDatatype .convert c.current c.next = .ok T c.next.next.next := by
    refine bind_eq_ok.mpr ⟨_, _, at?_of_ahead .dot h.next, ?_⟩
    refine bind_eq_ok.mpr ⟨_, _, Asm.datatypeSuffix_of_ahead h.next, ?_⟩
    rw [if_neg hT]
    rfl
  have hbehind := h.next.next.next
  generalize c.next.next.next = c₁ at hdatatype hbehind
  obtain ⟨t₁, c₂, hd, hc₂⟩ := d.reads c₁.next _ _ rfl hbehind.next
  have htype : Parser.operand c₂.next =
      .ok ⟨false, .name F.name, c₂.next.current⟩ c₂.next.next := by
    have hterm : term c₂.next = .ok (.name F.name) c₂.next.next := by
      refine bind_eq_ok.mpr ⟨_, _, rfl, ?_⟩
      rw [hc₂.next.kind]
      exact bind_eq_ok.mpr ⟨_, _, dottedName_of_ahead hc₂.next (by decide), rfl⟩
    exact operand_of_term hc₂.next rfl hterm
  have hc₃ := hc₂.next.next
  obtain ⟨t₃, c₄, ho, hc₄⟩ := o.reads c₂.next.next.next w rest hw hc₃.next
  have hoperands : sourceOperands [.address, .datatype, .value] c₁ =
      .ok [(.address, d.operand t₁), (.datatype, ⟨false, .name F.name, c₂.next.current⟩),
        (.value, o.operand t₃)] c₄ :=
    bind_eq_ok.mpr ⟨_, _, colon_of_ahead hbehind, bind_eq_ok.mpr ⟨_, _, hd, bind_eq_ok.mpr ⟨_, _,
      bind_eq_ok.mpr ⟨_, _, colon_of_ahead hc₂, bind_eq_ok.mpr ⟨_, _, htype,
        bind_eq_ok.mpr ⟨_, _, bind_eq_ok.mpr ⟨_, _, colon_of_ahead hc₃,
          bind_eq_ok.mpr ⟨_, _, ho, bind_eq_ok.mpr ⟨_, _, rfl, rfl⟩⟩⟩, rfl⟩⟩⟩, rfl⟩⟩⟩
  exact ⟨t₁, _, t₃, c₄, bind_eq_ok.mpr ⟨_, _, rfl, bind_eq_ok.mpr ⟨(), c.next, rfl,
    bind_eq_ok.mpr ⟨_, _, hdatatype, bind_eq_ok.mpr ⟨_, _, hoperands,
      bind_eq_ok.mpr ⟨_, _, rfl, rfl⟩⟩⟩⟩⟩, hc₄⟩

theorem sourceInstruction_none_ne_ok {i : SourceInstruction} {c' : Cursor}
    (h : c.Ahead (convertWords .none d F o ++ rest)) : sourceInstruction .convert c ≠ .ok i c' := by
  have h : c.Ahead ((.name, "convert") :: (.dot, ".") :: (.name, Datatype.none.name) ::
      (.colon, ":") :: (d.words ++ (.colon, ":") :: (.name, F.name) :: (.colon, ":") ::
        (o.words ++ rest))) := by
    simpa [convertWords] using h
  intro hok
  obtain ⟨t, c₁, ht, hok⟩ := bind_eq_ok.mp hok
  cases ht
  obtain ⟨_, c₂, hnext, hok⟩ := bind_eq_ok.mp hok
  cases hnext
  obtain ⟨dt, c₃, hdatatype, -⟩ := bind_eq_ok.mp hok
  obtain ⟨hasSuffix, c₄, hdot, hdatatype⟩ := bind_eq_ok.mp hdatatype
  rw [at?_of_ahead .dot h.next] at hdot
  cases hdot
  obtain ⟨dt', c₅, hsuffix, hdatatype⟩ := bind_eq_ok.mp hdatatype
  rw [Asm.datatypeSuffix_of_ahead h.next] at hsuffix
  cases hsuffix
  cases hdatatype

theorem relates_sourceOperands (roles : List Role) :
    Relates Cursor.Forward (sourceOperands roles) := by
  induction roles with
  | nil => exact .pure _
  | cons role rest ih =>
    exact .bind relates_expectColon fun _ => .bind relates_operand fun _ => .bind ih fun _ => .pure _

theorem forward_of_convert {i : SourceInstruction} {c' : Cursor}
    (h : sourceInstruction .convert c = .ok i c') : c.Forward c' := by
  have hforward : Relates Cursor.Forward (sourceInstruction .convert) :=
    .bind relates_current fun _ => .bind relates_next fun _ =>
      .bind (relates_instructionDatatype _ _) fun _ => .bind (relates_sourceOperands _) fun _ =>
        .bind (.pure _) fun _ => .pure _
  exact hforward.of_ok h

end Parser

theorem readFrom_of_convertWords {T F : Datatype} {d o : OperandText} {ts : List Token}
    (hT : T ≠ .none) (hts : ts.map Token.spelling = convertWords T d F o) :
    ∃ t₁ t₂ t₃, (SourceInstruction.conversion T (d.operand t₁) F t₂ (o.operand t₃)).ReadFrom ts := by
  have hahead : Cursor.Ahead ⟨ts.toArray.push (.endOfCode .start), 0⟩
      (convertWords T d F o ++ [(.endOfCode, "")]) := by
    simp [Cursor.Ahead, hts, Token.spelling, Token.endOfCode]
  obtain ⟨t₁, t₂, t₃, c, hread, hend⟩ := Parser.sourceInstruction_of_convertWords hT rfl hahead
  refine ⟨t₁, t₂, t₃, ?_, c, hread, ?_⟩
  · obtain ⟨t, _, rfl, ht, -⟩ := List.map_eq_cons_iff.mp hts
    have htext : t.text = Opcode.convert.name := congrArg Prod.snd ht
    refine ⟨t, rfl, congrArg Prod.fst ht, ?_⟩
    rw [htext]
    exact Opcode.convert.ofName?_name
  · -- The cursor has one token left, which is the end that was put behind the words.
    have hlength := congrArg List.length hend
    rw [(Parser.forward_of_convert hread).tokens] at hlength
    simp only [Array.toList_push, List.length_map, List.length_drop, List.length_append,
      List.length_singleton] at hlength
    omega

/-! ## Operands in code -/

/-- The encoded name of a datatype. -/
def Operand.ofDatatype (dt : Datatype) : Operand := ⟨.datatype, .type, false, .ofDatatype dt⟩

/-- An encoded value. -/
def Operand.ofValue (v : Value) : Operand := ⟨.value, v.datatype, false, v.toCell⟩

/-- An encoded conversion. -/
def Instruction.conversion (T : Datatype) (dst : Operand) (F : Datatype) (src : Operand) :
    Instruction :=
  ⟨.convert, T, maskOf [dst, .ofDatatype F, src], [dst, .ofDatatype F, src], none, []⟩

namespace Asm

open Assembler (Adds)

variable {T F : Datatype} {d o : SourceOperand} {t : Token} {s s' s₁ s₂ : Assembler}
  {dst src : Operand}

/-- The three operands of a conversion have been written behind `s`. -/
structure WritesConversion (T : Datatype) (d : SourceOperand) (F : Datatype) (o : SourceOperand)
    (s : Assembler) (dst src : Operand) (s₁ s₂ : Assembler) : Prop where
  place : writeOperand d .address T (s.appendCode (encodeHeader .convert T 0)) = .ok dst s₁
  source : writeFixed (some F) o .value T (s₁.appendCode (Operand.ofDatatype F).encode) = .ok src s₂

/-- The name of a datatype is written as its code. -/
theorem writeFixed_datatype (source : Option Datatype) (F T : Datatype) (t : Token)
    (s : Assembler) : writeFixed source ⟨false, .name F.name, t⟩ .datatype T s =
      .ok (.ofDatatype F) (s.appendCode (Operand.ofDatatype F).encode) := by
  have hvalue : (⟨false, .name F.name, t⟩ : SourceOperand).value? .type = .ok (.type F) := by
    simp [SourceOperand.value?, Datatype.ofName?_name]
  rw [writeFixed_eq (.inr fun h => by cases h)]
  exact writeOperand_of_value? (v := .type F) rfl hvalue s

/-- A conversion is written operand by operand. -/
theorem writeInstruction_conversion_iff :
    writeInstruction (.conversion T d F t o) s = .ok () s' ↔
      ∃ dst src s₁ s₂, WritesConversion T d F o s dst src s₁ s₂ ∧ s' = s₂.overwriteCode
        (s.object.code.size + 2) (littleEndian 2 (Instruction.conversion T dst F src).mask.toNat) := by
  have hname : (⟨false, .name F.name, t⟩ : SourceOperand).datatypeName? = some F := by
    simp [SourceOperand.datatypeName?, Datatype.ofName?_name]
  constructor
  · intro h
    obtain ⟨_, _, hget, h⟩ := bind_eq_ok.mp h
    cases hget
    obtain ⟨_, _, hemit, h⟩ := bind_eq_ok.mp h
    cases hemit
    obtain ⟨fixed, s₃, hfixed, h⟩ := bind_eq_ok.mp h
    obtain ⟨args, _, hargs, h⟩ := bind_eq_ok.mp h
    cases hargs
    obtain ⟨dst, s₁, hdst, hfixed⟩ := bind_eq_ok.mp hfixed
    obtain ⟨rest, _, hrest, hfixed⟩ := bind_eq_ok.mp hfixed
    cases hfixed
    obtain ⟨type, _, htype, hrest⟩ := bind_eq_ok.mp hrest
    rw [writeFixed_datatype] at htype
    cases htype
    obtain ⟨rest, _, hlast, hrest⟩ := bind_eq_ok.mp hrest
    cases hrest
    obtain ⟨src, s₂, hsrc, hlast⟩ := bind_eq_ok.mp hlast
    obtain ⟨_, _, hnil, hlast⟩ := bind_eq_ok.mp hlast
    cases hnil
    cases hlast
    cases h
    refine ⟨dst, src, s₁, _, ⟨hdst, ?_⟩, rfl⟩
    simpa [SourceInstruction.conversion, hname] using hsrc
  · rintro ⟨dst, src, s₁, s₂, h, rfl⟩
    have hfixed : writeLayout .convert T none
        [(.address, d), (.datatype, ⟨false, .name F.name, t⟩), (.value, o)]
        (s.appendCode (encodeHeader .convert T 0)) = .ok [dst, .ofDatatype F, src] s₂ := by
      refine bind_eq_ok.mpr ⟨_, _, h.place, bind_eq_ok.mpr ⟨_, _, bind_eq_ok.mpr ⟨_, _,
        writeFixed_datatype _ _ _ _ _, bind_eq_ok.mpr ⟨_, _, bind_eq_ok.mpr ⟨_, _, ?_,
          bind_eq_ok.mpr ⟨_, _, rfl, rfl⟩⟩, rfl⟩⟩, rfl⟩⟩
      simpa [hname] using h.source
    exact bind_eq_ok.mpr ⟨_, _, rfl, bind_eq_ok.mpr ⟨_, _, rfl, bind_eq_ok.mpr ⟨_, _, hfixed,
      bind_eq_ok.mpr ⟨_, _, rfl, rfl⟩⟩⟩⟩

/-- What was written is the encoding of a conversion. -/
theorem WritesConversion.encodes (h : WritesConversion T d F o s dst src s₁ s₂) (t : Token) :
    (SourceInstruction.conversion T d F t o).Encodes (.conversion T dst F src) where
  opcode := rfl
  datatype := rfl
  mask := rfl
  fixed := by
    rw [SourceInstruction.source?_conversion]
    have hdst := (writeOperand_spec (by simp) h.place).encodes
    have hsrc := (writeFixed_spec (by simp) h.source).encodes
    refine .cons (by simpa [readAs, SourceInstruction.conversion] using hdst)
      (.cons ?_ (.cons hsrc .nil))
    refine ⟨.type F, rfl, ?_, rfl⟩
    simp [readAs, SourceOperand.Denotes, Datatype.ofName?_name]
  args := .nil
  descriptor := rfl
  roles := rfl
  typed := rfl
  types := by simp [SourceInstruction.types, SourceInstruction.conversion]
  count := by simp [SourceInstruction.conversion]

/-- The bytes of a conversion stand behind those that were there. -/
theorem WritesConversion.code (h : WritesConversion T d F o s dst src s₁ s₂) :
    (s₂.overwriteCode (s.object.code.size + 2)
      (littleEndian 2 (Instruction.conversion T dst F src).mask.toNat)).object.code.toList =
        s.object.code.toList ++ (Instruction.conversion T dst F src).encode := by
  have hdst := (writeOperand_spec (by simp) h.place).adds
  have hsrc := (writeFixed_spec (by simp) h.source).adds
  have hfixed := hdst.trans ((Assembler.adds_appendCode s₁ _).trans hsrc)
  have hbytes : encodeOperands (Instruction.conversion T dst F src).fixed =
      dst.encode ++ ((Operand.ofDatatype F).encode ++ src.encode) := by
    simp [Instruction.conversion, encodeOperands]
  rw [← hbytes] at hfixed
  exact (adds_encode (Assembler.adds_appendCode s _) hfixed (.refl _)).code

/-- A number to be converted is read as its own datatype and written as the other one. -/
theorem writeConverted_eq_ok_iff {o : SourceOperand} {source dt : Datatype} {x : Operand}
    {s s' : Assembler} : writeConverted o source dt s = .ok x s' ↔
      ∃ v w, o.value? source = .ok v ∧ v.cast? dt.ofValueOperand = some w ∧
        x = ⟨.value, dt.ofValueOperand, false, w.toCell⟩ ∧
        s' = s.appendCode (w.toCell.bytes dt.ofValueOperand) := by
  constructor
  · intro h
    obtain ⟨v, s₁, hread, hwrite⟩ := bind_eq_ok.mp h
    obtain ⟨hv, rfl⟩ := literalValue_eq_ok.mp hread
    cases hw : v.cast? dt.ofValueOperand with
    | some w =>
      simp only [hw] at hwrite
      cases hwrite
      exact ⟨v, w, hv, hw, rfl, rfl⟩
    | none =>
      simp only [hw] at hwrite
      exact absurd hwrite failAt_ne_ok
  · rintro ⟨v, w, hv, hw, rfl, rfl⟩
    refine bind_eq_ok.mpr ⟨v, s, literalValue_eq_ok.mpr ⟨hv, rfl⟩, ?_⟩
    simp only [hw]
    rfl

/-- A number behind the name of a datatype is converted here. -/
theorem writeFixed_number_iff (hT : T ≠ .none) (ho : o.isNumber = true) :
    writeFixed (some F) o .value T s = .ok src s' ↔ ∃ v w, o.value? F = .ok v ∧
      v.cast? T = some w ∧ src = .ofValue w ∧ s' = s.appendCode src.encode := by
  have hvalue : T.ofValueOperand = T := by
    cases T with
    | none => exact absurd rfl hT
    | _ => rfl
  have hwrite : writeFixed (some F) o .value T = writeConverted o F T := if_pos ⟨rfl, ho⟩
  rw [hwrite, writeConverted_eq_ok_iff, hvalue]
  constructor
  · rintro ⟨v, w, hv, hw, rfl, rfl⟩
    obtain rfl := Value.datatype_of_cast? hw
    exact ⟨v, w, hv, hw, rfl, rfl⟩
  · rintro ⟨v, w, hv, hw, rfl, rfl⟩
    obtain rfl := Value.datatype_of_cast? hw
    exact ⟨v, w, hv, hw, rfl, rfl⟩

/-- The assembler has the same scopes and knows the same names. -/
def SameNames (s s' : Assembler) : Prop := s'.scopes = s.scopes ∧ s'.index = s.index

instance : Std.Refl SameNames := ⟨fun _ => ⟨rfl, rfl⟩⟩

instance : Trans SameNames SameNames SameNames := ⟨fun h h' => ⟨h'.1.trans h.1, h'.2.trans h.2⟩⟩

theorem admitsWriting_sameNames : AdmitsWriting SameNames where
  movedTo _ _ _ := ⟨rfl, rfl⟩
  appendStatic _ _ := ⟨rfl, rfl⟩
  appendCode _ _ := ⟨rfl, rfl⟩
  refer _ _ _ := ⟨rfl, rfl⟩
  relocate _ _ := ⟨rfl, rfl⟩
  overwriteCode _ _ _ _ _ h := h

end Asm

/-! ## Modules of one conversion -/

namespace OperandText

/-- The operand can stand where an address is asked for. -/
def IsPlace (d : OperandText) : Prop :=
  match d.term with
  | .name _ => True
  | .text _ => d.deref = false
  | _ => ∃ token v, (d.operand token).value? (Role.address.encodedDatatype .none d.deref) = .ok v

/-- In front of all static data the operand is encoded as `dst`. -/
def PlacedAs (d : OperandText) (T : Datatype) (dst : Operand) : Prop :=
  ∀ (token : Token) (s : Assembler), s.object.static = #[] →
    ∃ s', Asm.writeOperand (d.operand token) .address T s = .ok dst s'

theorem IsPlace.exists_placedAs {d : OperandText} (hd : d.IsPlace) (T : Datatype) :
    ∃ dst, d.PlacedAs T dst := by
  have hcell : ∃ cell, ∀ (token : Token) (offset : Nat) (s : Assembler), s.object.static = #[] →
      ∃ s', Asm.operandCell (d.operand token) offset
        (Role.address.encodedDatatype T d.deref) s = .ok cell s' := by
    unfold IsPlace at hd
    have hliteral (token₀ : Token) (v : Value)
        (hv : (d.operand token₀).value? (Role.address.encodedDatatype .none d.deref) = .ok v) :
        ∃ cell, ∀ (token : Token) (offset : Nat) (s : Assembler), s.object.static = #[] →
          ∃ s', Asm.operandCell (d.operand token) offset
            (Role.address.encodedDatatype T d.deref) s = .ok cell s' :=
      ⟨v.toCell, fun token offset s _ => ⟨s, Asm.operandCell_of_value?
        (Asm.value?_of_alike (d.alike token₀ token) hv) offset s⟩⟩
    have hslot : Role.address.encodedDatatype T d.deref ≠ .type := by
      cases d.deref <;> simp [Role.encodedDatatype]
    cases hterm : d.term with
    | name x =>
      refine ⟨.zero, fun token offset s _ => ?_⟩
      unfold Asm.operandCell operand
      simp only [hterm, hslot, false_and, if_false]
      exact ⟨_, rfl⟩
    | text text =>
      have hderef : d.deref = false := by simpa [hterm] using hd
      refine ⟨.ofAddress (.static 0 0), fun token offset s hs => ?_⟩
      have hend : s.staticEnd = .static 0 0 := by
        unfold Assembler.staticEnd
        rw [hs]
        rfl
      unfold Asm.operandCell operand
      rw [hterm, hderef, ← hend]
      exact ⟨_, rfl⟩
    | _ =>
      obtain ⟨token₀, v, hv⟩ : ∃ token v, (d.operand token).value?
          (Role.address.encodedDatatype .none d.deref) = .ok v := by simpa [hterm] using hd
      exact hliteral token₀ v hv
  obtain ⟨cell, hcell⟩ := hcell
  refine ⟨⟨.address, Role.address.encodedDatatype T d.deref, d.deref, cell⟩, fun token s hs => ?_⟩
  obtain ⟨s', hs'⟩ := hcell token s.object.code.size s hs
  exact ⟨_, bind_eq_ok.mpr ⟨_, _, rfl, bind_eq_ok.mpr ⟨_, _, hs', rfl⟩⟩⟩

/-- As the source of a conversion the operand is encoded as one of these. -/
def WrittenAs (o : OperandText) (F T : Datatype) (P : Operand → Prop) : Prop :=
  ∀ (token : Token) (s s' : Assembler) (src : Operand),
    Asm.writeFixed (some F) (o.operand token) .value T s = .ok src s' ↔
      P src ∧ s' = s.appendCode src.encode

variable {o : OperandText} {F T : Datatype} {token : Token}

theorem value?_iff {dt : Datatype} {v : Value} (t t' : Token) :
    (o.operand t).value? dt = .ok v ↔ (o.operand t').value? dt = .ok v :=
  ⟨Asm.value?_of_alike (o.alike t t'), Asm.value?_of_alike (o.alike t' t)⟩

theorem writtenAs_number (hT : T ≠ .none) (ho : (o.operand token).isNumber = true) :
    o.WrittenAs F T fun src => ∃ v w, (o.operand token).value? F = .ok v ∧ v.cast? T = some w ∧
      src = .ofValue w := by
  intro t s s' src
  have hnumber : (o.operand t).isNumber = true := ho
  rw [Asm.writeFixed_number_iff hT hnumber]
  simp only [value?_iff t token]
  constructor
  · rintro ⟨v, w, hv, hw, hsrc, hs'⟩
    exact ⟨⟨v, w, hv, hw, hsrc⟩, hs'⟩
  · rintro ⟨⟨v, w, hv, hw, hsrc⟩, hs'⟩
    exact ⟨v, w, hv, hw, hsrc, hs'⟩

theorem writtenAs_value {v : Value} (ho : (o.operand token).isNumber = false)
    (hslot : v.datatype = Role.value.encodedDatatype T o.deref)
    (hv : (o.operand token).value? v.datatype = .ok v) :
    o.WrittenAs F T (· = ⟨.value, v.datatype, o.deref, v.toCell⟩) := by
  intro t s s' src
  have hwrite : Asm.writeFixed (some F) (o.operand t) .value T s =
      .ok ⟨.value, v.datatype, o.deref, v.toCell⟩ (s.appendCode (v.toCell.bytes v.datatype)) := by
    have hplain : ¬ (Role.value = .value ∧ (o.operand t).isNumber = true) := by
      rintro ⟨-, hnumber⟩
      exact absurd (hnumber.symm.trans ho) (by decide)
    have hfixed : Asm.writeFixed (some F) (o.operand t) .value T =
        Asm.writeOperand (o.operand t) .value T := if_neg hplain
    rw [hfixed]
    exact Asm.writeOperand_of_value? hslot ((value?_iff t token).mpr hv) s
  rw [hwrite]
  constructor
  · intro h
    cases h
    exact ⟨rfl, rfl⟩
  · rintro ⟨rfl, rfl⟩
    rfl

end OperandText

section

open Assembler

variable {T F : Datatype} {d o : OperandText} {dst : Operand} {P : Operand → Prop}
  {tokens : Array Token} {name : String} {m : Object} {code : List UInt8}

/-- The code of the module that these tokens make. -/
def assembledCode? (tokens : Array Token) (name : String) : Option (List UInt8) :=
  (assemble tokens name).toOption.map (·.code.toList)

theorem assembledCode?_eq_some_iff : assembledCode? tokens name = some code ↔
    ∃ m, assemble tokens name = .ok m ∧ m.code.toList = code := by
  unfold assembledCode?
  cases assemble tokens name with
  | ok m => simp [Except.toOption]
  | error e => simp [Except.toOption]

/-- Without names all references are left to the linker. -/
theorem Assembler.finish_of_index_eq_empty {u : Assembler} (hscopes : u.scopes = [])
    (hindex : u.index = ∅) : ∃ o, u.finish = .ok o ∧ o.code = u.object.code := by
  have hbind : ∀ (pending : List (Reference × Position)) (o : Object),
      ∃ o', u.bindReferences o pending = .ok o' ∧ o'.code = o.code := by
    intro pending
    induction pending with
    | nil => exact fun o => ⟨o, rfl, rfl⟩
    | cons p rest ih =>
      intro o
      obtain ⟨o', ho', hcode⟩ := ih { o with unresolved := o.unresolved ++ [{ p.1 with scope := [] }] }
      refine ⟨o', ?_, hcode⟩
      unfold bindReferences
      rw [lookup_of_index_eq_empty hindex]
      exact ho'
  unfold finish
  rw [hscopes]
  exact hbind _ { u.object with unresolved := [] }

/-- Nothing can be converted to `none`. -/
theorem assemble_convert_none_ne_ok {front ts rest : List Token} {a : Assembler}
    (hfront : Leads front (.empty name) a)
    (hts : ts.map Token.spelling = convertWords .none d F o) :
    assemble (front ++ (ts ++ rest)).toArray name ≠ .ok m := by
  intro hok
  have hstarts : StartsLine (ts ++ rest) := by
    obtain ⟨t, ts, rfl, ht, -⟩ := List.map_eq_cons_iff.mp hts
    exact ⟨t, ts ++ rest, rfl, by rw [show t.kind = .name from congrArg Prod.fst ht]; decide⟩
  obtain ⟨s, hrun, -, hin⟩ := hfront.run _ _ hstarts (like_fedWith name _)
    (onLine_fedWith name (hfront.starts _ hstarts))
  obtain ⟨u, hu, -⟩ := assemble_eq_ok_iff.mp hok
  have hahead : s.onLine.cursor.Ahead (convertWords .none d F o ++ rest.map Token.spelling) := by
    unfold Cursor.Ahead
    rw [show s.onLine.cursor.tokens.toList.drop s.onLine.cursor.pos = ts ++ rest from hin,
      List.map_append, hts]
  cases (completes_iff_of_takes hrun).mp hu with
  | done hend =>
    unfold Cursor.atEnd Token.isEnd at hend
    rw [hahead.kind] at hend
    cases hend
  | take htakes _ =>
    obtain ⟨s₁, -, hstatement, -⟩ := htakes
    obtain ⟨_, s₂, hbody, -⟩ := bind_eq_ok.mp hstatement
    have hname : Opcode.ofName? s.onLine.cursor.current.text = some .convert := by
      rw [hahead.text]
      exact Opcode.convert.ofName?_name
    rw [Asm.statementBody, Asm.current_bind, hahead.kind] at hbody
    simp only [hname] at hbody
    obtain ⟨i, x, hread, -⟩ := Asm.instruction_spec hbody
    exact Parser.sourceInstruction_none_ne_ok hahead hread

theorem assembledCode?_convert_none {ts rest : List Token}
    (hts : ts.map Token.spelling = convertWords .none d F o) :
    assembledCode? (ts ++ rest).toArray name = none := by
  have hne (m : Object) : assemble ([] ++ (ts ++ rest)).toArray name ≠ .ok m :=
    assemble_convert_none_ne_ok (.nil (.empty name)) hts
  rw [Option.eq_none_iff_forall_ne_some]
  intro code hcode
  obtain ⟨m, hm, -⟩ := assembledCode?_eq_some_iff.mp hcode
  exact hne m hm

theorem wellFormed_conversion {src : Operand} (hdst : d.PlacedAs T dst) (hsrc : o.WrittenAs F T P)
    (hP : P src) : (Instruction.conversion T dst F src).WellFormed := by
  let t := Token.endOfCode .start
  obtain ⟨s₁, hplace⟩ := hdst t ((Assembler.empty "").appendCode (encodeHeader .convert T 0)) rfl
  have hwrites : Asm.WritesConversion T (d.operand t) F (o.operand t) (.empty "") dst src s₁ _ :=
    ⟨hplace, (hsrc _ _ _ _).mpr ⟨hP, rfl⟩⟩
  exact (hwrites.encodes t).wellFormed

/-- A module of one conversion has its encoding as its code. -/
theorem assembledCode?_convert_iff (hT : T ≠ .none) (hdst : d.PlacedAs T dst)
    (hsrc : o.WrittenAs F T P) (htokens : Spelled tokens (convertWords T d F o)) :
    assembledCode? tokens name = some code ↔
      ∃ src, P src ∧ code = (Instruction.conversion T dst F src).encode := by
  obtain ⟨lines, stop, rfl, hlines⟩ := htokens
  obtain ⟨t₁, t₂, t₃, hread⟩ := readFrom_of_convertWords hT hlines
  have hassemble (m : Object) : assemble ([] ++ lines ++ [Token.endOfCode stop]).toArray name =
      .ok m ↔ _ := assemble_eq_ok_iff_of_last hread (.nil (.empty name))
  rw [List.nil_append] at hassemble
  simp only [assembledCode?_eq_some_iff, hassemble, Asm.writeInstruction_conversion_iff]
  have hfinish {b : Assembler} (hb : Asm.writeInstruction
      (.conversion T (d.operand t₁) F t₂ (o.operand t₃)) (.empty name) = .ok () b) :
      ∃ m, finish { b with statements := b.statements + 1 } = .ok m ∧ m.code = b.object.code := by
    obtain ⟨hscopes, hindex⟩ :=
      (Asm.relates_writeInstruction Asm.admitsWriting_sameNames _).of_ok hb
    exact finish_of_index_eq_empty hscopes hindex
  constructor
  · rintro ⟨m, ⟨b, ⟨dst', src, s₁, s₂, hwrites, rfl⟩, hm⟩, rfl⟩
    obtain ⟨s', hplace⟩ := hdst t₁ ((Assembler.empty name).appendCode (encodeHeader .convert T 0)) rfl
    cases hplace.symm.trans hwrites.place
    obtain ⟨m', hm', hcode⟩ := hfinish (Asm.writeInstruction_conversion_iff.mpr
      ⟨dst, src, s₁, s₂, hwrites, rfl⟩)
    cases hm'.symm.trans hm
    refine ⟨src, ((hsrc _ _ _ _).mp hwrites.source).1, ?_⟩
    rw [hcode, hwrites.code]
    rfl
  · rintro ⟨src, hP, rfl⟩
    obtain ⟨s₁, hplace⟩ := hdst t₁ ((Assembler.empty name).appendCode (encodeHeader .convert T 0)) rfl
    have hwrites : Asm.WritesConversion T (d.operand t₁) F (o.operand t₃) (.empty name) dst src s₁ _ :=
      ⟨hplace, (hsrc _ _ _ _).mpr ⟨hP, rfl⟩⟩
    obtain ⟨m, hm, hcode⟩ := hfinish (Asm.writeInstruction_conversion_iff.mpr
      ⟨dst, src, s₁, _, hwrites, rfl⟩)
    refine ⟨m, ⟨_, ⟨dst, src, s₁, _, hwrites, rfl⟩, hm⟩, ?_⟩
    rw [hcode, hwrites.code]
    rfl

end

end CellMachine
