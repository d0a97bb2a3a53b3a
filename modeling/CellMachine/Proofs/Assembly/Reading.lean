import CellMachine.Instruction.Disassembly
import CellMachine.Proofs.Assembly.Program
import CellMachine.Proofs.Token.Lexing

/-!
# Assembling what was spelled

`Spells` says how terms are put together from lexemes. Where they lie ahead of the cursor
(`Cursor.Ahead`), the parsers take them (`Parser.operand_of_ahead`), and operands whose values are
known are written one behind the other (`Asm.fixedOperands_of_ahead`,
`Asm.typedArguments_of_ahead`). So a listed instruction whose operands are spelled assembles to its
own encoding (`Asm.instruction_of_ahead`).
-/

namespace CellMachine

namespace Cursor

variable {c : Cursor} {w : TokenKind × String} {ws : List (TokenKind × String)}

/-- The tokens from the cursor on, with their kinds and spellings. -/
def Ahead (c : Cursor) (ws : List (TokenKind × String)) : Prop :=
  (c.tokens.toList.drop c.pos).map Token.spelling = ws

theorem Ahead.getElem? (h : c.Ahead (w :: ws)) :
    ∃ t, c.tokens[c.pos]? = some t ∧ t.spelling = w := by
  have hhead := congrArg List.head? h
  rw [List.head?_map, List.head?_drop, Array.getElem?_toList, List.head?_cons] at hhead
  exact Option.map_eq_some_iff.mp hhead

theorem Ahead.current (h : c.Ahead (w :: ws)) : c.current.spelling = w := by
  obtain ⟨t, ht, hw⟩ := h.getElem?
  rwa [Cursor.current, tokenAt, ht]

theorem Ahead.kind (h : c.Ahead (w :: ws)) : c.current.kind = w.1 := congrArg Prod.fst h.current

theorem Ahead.text (h : c.Ahead (w :: ws)) : c.current.text = w.2 := congrArg Prod.snd h.current

theorem Ahead.next (h : c.Ahead (w :: ws)) : c.next.Ahead ws := by
  obtain ⟨t, ht, -⟩ := h.getElem?
  have hlt := (Array.getElem?_eq_some_iff.mp ht).1
  have htail := congrArg List.tail h
  rw [← List.map_tail, List.tail_drop] at htail
  unfold Cursor.next
  rw [if_pos hlt]
  exact htail

end Cursor

/-! ## Terms -/

/-- How a term is put together from lexemes. -/
inductive Spells : List Lexeme → Term → Prop
  | register (r : Register) : Spells [.mark '$', .word r.name] (.address r.address)
  | frame (negative : Bool) {n : Nat} : n < UInt64.size → Spells [.mark '~', .number negative n]
      (.address (.make (if negative then .frameSub else .frameAdd) (UInt64.ofNat n)))
  | integer (negative : Bool) {n : Nat} : n < UInt64.size →
      Spells [.number negative n] (.integer ⟨negative, n⟩)
  | float (negative : Bool) {whole fraction : List Char} {word : UInt64} :
      Lexeme.isDigits whole = true → (∀ c ∈ fraction, Text.isDigit c = true) →
      floatLiteral? (String.ofList (Lexeme.decimal negative whole fraction).chars) = some word →
      Spells [.decimal negative whole fraction] (.float word)
  | datatype (dt : Datatype) : Spells [.word dt.name] (.name dt.name)

/-- The tokens of lexemes. -/
def spellings (ls : List Lexeme) : List (TokenKind × String) := ls.filterMap Lexeme.token?

namespace Parser

variable {c : Cursor} {w : TokenKind × String} {ws : List (TokenKind × String)}

theorem expect_of_ahead {kind : TokenKind} {text expected : String}
    (h : c.Ahead ((kind, text) :: ws)) : expect kind expected c = .ok c.current c.next := by
  have hkind : (c.current.kind == kind) = true := beq_iff_eq.mpr h.kind
  refine bind_eq_ok.mpr ⟨_, _, rfl, ?_⟩
  rw [if_pos hkind]
  rfl

theorem at?_of_ahead (kind : TokenKind) (h : c.Ahead (w :: ws)) :
    at? kind c = .ok (w.1 == kind) c := by
  rw [← h.kind]
  rfl

theorem expectName_of_ahead {name : String} (h : c.Ahead ((.name, name) :: ws)) :
    expectName c = .ok name c.next :=
  bind_eq_ok.mpr ⟨_, _, expect_of_ahead h, congrArg (EStateM.Result.ok · c.next) h.text⟩

/-- Behind a name without a dot the name ends. -/
theorem dottedName_of_ahead {name : String} (h : c.Ahead ((.name, name) :: w :: ws))
    (hw : w.1 ≠ .dot) : dottedName c = .ok name c.next := by
  refine bind_eq_ok.mpr ⟨_, _, expectName_of_ahead h, bind_eq_ok.mpr ⟨_, _, rfl, ?_⟩⟩
  cases c.next.remaining with
  | zero => rfl
  | succ n =>
    have hdot : (c.next.current.kind == .dot && c.next.peek.kind == .name) = false := by
      rw [h.next.kind, beq_eq_false_iff_ne.mpr hw, Bool.false_and]
    refine bind_eq_ok.mpr ⟨_, _, rfl, bind_eq_ok.mpr ⟨_, _, rfl, ?_⟩⟩
    rw [hdot]
    rfl

theorem register_of_ahead {r : Register} {mark : TokenKind × String}
    (h : c.Ahead (mark :: (.name, r.name) :: ws)) :
    register c = .ok (.address r.address) c.next.next := by
  have hname : Register.ofName? c.next.current.text = some r := by
    rw [h.next.text]
    cases r <;> rfl
  refine bind_eq_ok.mpr ⟨(), c.next, rfl, bind_eq_ok.mpr ⟨_, _, expect_of_ahead h.next, ?_⟩⟩
  rw [hname]
  rfl

theorem frameSlot_of_literal {text : String} {l : IntLiteral} (hl : IntLiteral.ofText? text = some l)
    {mark : TokenKind × String} (h : c.Ahead (mark :: (.integer, text) :: ws)) :
    frameSlot c = .ok (.address (.make (if l.negative then .frameSub else .frameAdd)
      (UInt64.ofNat l.magnitude))) c.next.next := by
  refine bind_eq_ok.mpr ⟨(), c.next, rfl, bind_eq_ok.mpr ⟨_, _, expect_of_ahead h.next, ?_⟩⟩
  rw [h.next.text, hl]
  rfl

theorem term_of_literal {l : IntLiteral} (hkind : c.current.kind = .integer)
    (hl : IntLiteral.ofText? c.current.text = some l) : term c = .ok (.integer l) c.next := by
  refine bind_eq_ok.mpr ⟨_, _, rfl, ?_⟩
  rw [hkind]
  refine bind_eq_ok.mpr ⟨(), c.next, rfl, ?_⟩
  rw [hl]
  rfl

/-- A term is taken from its lexemes. -/
theorem term_of_ahead {ls : List Lexeme} {t : Term} (ht : Spells ls t)
    (h : c.Ahead (spellings ls ++ w :: ws)) (hw : w.1 ≠ .dot) :
    ∃ c', term c = .ok t c' ∧ c'.Ahead (w :: ws) := by
  cases ht with
  | register r =>
    have h : c.Ahead ((.register, "$") :: (.name, r.name) :: w :: ws) := h
    refine ⟨_, bind_eq_ok.mpr ⟨_, _, rfl, ?_⟩, h.next.next⟩
    rw [h.kind]
    exact register_of_ahead h
  | @frame negative n hn =>
    have h : c.Ahead ((.frame, "~") ::
      (.integer, String.ofList (Lexeme.number negative n).chars) :: w :: ws) := h
    have hslot := frameSlot_of_literal (IntLiteral.ofText?_number negative hn) h
    refine ⟨_, bind_eq_ok.mpr ⟨_, _, rfl, ?_⟩, h.next.next⟩
    rw [h.kind]
    exact hslot
  | @integer negative n hn =>
    have h : c.Ahead ((.integer, String.ofList (Lexeme.number negative n).chars) :: w :: ws) := h
    have hliteral : IntLiteral.ofText? c.current.text = some ⟨negative, n⟩ := by
      rw [h.text]
      exact IntLiteral.ofText?_number negative hn
    exact ⟨_, term_of_literal h.kind hliteral, h.next⟩
  | @float negative whole fraction word _ _ hword =>
    have h : c.Ahead ((.float, String.ofList (Lexeme.decimal negative whole fraction).chars) ::
      w :: ws) := h
    have hliteral : floatLiteral? c.current.text = some word := by rw [h.text, hword]
    refine ⟨_, bind_eq_ok.mpr ⟨_, _, rfl, ?_⟩, h.next⟩
    rw [h.kind]
    refine bind_eq_ok.mpr ⟨(), c.next, rfl, ?_⟩
    rw [hliteral]
    rfl
  | datatype dt =>
    have h : c.Ahead ((.name, dt.name) :: w :: ws) := h
    refine ⟨_, bind_eq_ok.mpr ⟨_, _, rfl, ?_⟩, h.next⟩
    rw [h.kind]
    exact bind_eq_ok.mpr ⟨_, _, dottedName_of_ahead h hw, rfl⟩

/-- The lexeme of a dereference. -/
def derefMark (deref : Bool) : List Lexeme := if deref then [.mark '@'] else []

theorem operand_of_ahead {ls : List Lexeme} {t : Term} {deref : Bool} (ht : Spells ls t)
    (h : c.Ahead (spellings (derefMark deref ++ ls) ++ w :: ws)) (hw : w.1 ≠ .dot) :
    ∃ c' token, operand c = .ok ⟨deref, t, token⟩ c' ∧ c'.Ahead (w :: ws) := by
  cases deref with
  | true =>
    have h : c.Ahead ((.deref, "@") :: (spellings ls ++ w :: ws)) := h
    obtain ⟨c', hterm, hrest⟩ := term_of_ahead ht h.next hw
    exact ⟨c', c.next.current, bind_eq_ok.mpr ⟨_, _, at?_of_ahead .deref h,
      bind_eq_ok.mpr ⟨_, _, rfl, bind_eq_ok.mpr ⟨_, _, rfl, bind_eq_ok.mpr ⟨_, _, hterm, rfl⟩⟩⟩⟩,
      hrest⟩
  | false =>
    have h : c.Ahead (spellings ls ++ w :: ws) := h
    obtain ⟨c', hterm, hrest⟩ := term_of_ahead ht h hw
    have hmark : at? .deref c = .ok false c := by
      cases ht <;> exact at?_of_ahead .deref h
    exact ⟨c', c.current, bind_eq_ok.mpr ⟨_, _, hmark, bind_eq_ok.mpr ⟨_, _, rfl,
      bind_eq_ok.mpr ⟨_, _, hterm, rfl⟩⟩⟩, hrest⟩

end Parser

/-! ## Listed operands -/

namespace ListedOperand

/-- The operand of an instruction that is listed so. -/
def operand (o : ListedOperand) : Operand :=
  ⟨o.role, o.value.datatype, o.deref, o.value.toCell⟩

/-- The lexemes of `ls` are a term for the value of an operand in an instruction with datatype
`dt`. -/
structure Spelled (dt : Datatype) (o : ListedOperand) (ls : List Lexeme) : Prop where
  slot : o.value.datatype = o.role.encodedDatatype dt o.deref
  term : ∃ t, Spells ls t ∧ ∀ token,
    (⟨o.deref, t, token⟩ : SourceOperand).value? o.value.datatype = .ok o.value

theorem Spelled.spells {dt : Datatype} {o : ListedOperand} {ls : List Lexeme} (h : o.Spelled dt ls) :
    ∃ t, Spells ls t := by
  obtain ⟨t, ht, -⟩ := h.term
  exact ⟨t, ht⟩

/-- The lexemes of the datatype in front of a typed argument. -/
def front (o : ListedOperand) : List Lexeme :=
  match o.role with
  | .typed t => [.word t.name, .blank]
  | _ => []

end ListedOperand

/-- A listed operand with the lexemes of its term. -/
abbrev Spelling := ListedOperand × List Lexeme

/-- The lexemes of an operand. -/
def Spelling.lexemes (p : Spelling) : List Lexeme :=
  p.1.front ++ (Parser.derefMark p.1.deref ++ p.2)

/-- The lexemes of operands, each with a colon in front. -/
def operandLexemes (ps : List Spelling) : List Lexeme :=
  ps.flatMap fun p => [.blank, .mark ':', .blank] ++ p.lexemes

theorem spellings_append (xs ys : List Lexeme) :
    spellings (xs ++ ys) = spellings xs ++ spellings ys :=
  List.filterMap_append

theorem spellings_operandLexemes_cons (p : Spelling) (ps : List Spelling) :
    spellings (operandLexemes (p :: ps)) = (.colon, ":") :: (spellings p.1.front ++
      (spellings (Parser.derefMark p.1.deref ++ p.2) ++ spellings (operandLexemes ps))) := by
  rw [operandLexemes, List.flatMap_cons, spellings_append, spellings_append, Spelling.lexemes,
    spellings_append, List.append_assoc, List.append_assoc]
  rfl

namespace Asm

theorem appendCode_appendCode (s : Assembler) (bs cs : List UInt8) :
    (s.appendCode bs).appendCode cs = s.appendCode (bs ++ cs) := by
  simp [Assembler.appendCode]

theorem appendCode_nil (s : Assembler) : (s.movedTo s.cursor).appendCode [] = s := by
  simp [Assembler.appendCode, Assembler.movedTo]

variable {ps : List Spelling} {o : SourceOperand} {s : Assembler}

theorem operandCell_of_value? {dt : Datatype} {v : Value} (h : o.value? dt = .ok v) (offset : Nat)
    (s : Assembler) : operandCell o offset dt s = .ok v.toCell s := by
  have hread : (do return (← Parser.literalValue o dt).toCell : Asm Cell) s = .ok v.toCell s :=
    bind_eq_ok.mpr ⟨v, s, literalValue_eq_ok.mpr ⟨h, rfl⟩, rfl⟩
  unfold operandCell
  cases hterm : o.term with
  | name name =>
    have hslot : dt = .type ∧ (Datatype.ofName? name).isSome := by
      simp only [SourceOperand.value?, hterm] at h
      cases hname : Datatype.ofName? name with
      | none => simp [hname] at h
      | some t =>
        simp only [hname] at h
        split at h
        · next hdt => exact ⟨beq_iff_eq.mp (Bool.and_eq_true_iff.mp hdt).1, rfl⟩
        · cases h
    simp only [if_pos hslot]
    exact hread
  | text text => simp [SourceOperand.value?, hterm] at h
  | _ => exact hread

/-- An operand whose value is known is written as it is. -/
theorem writeOperand_of_value? {role : Role} {dt : Datatype} {v : Value}
    (hv : v.datatype = role.encodedDatatype dt o.deref) (h : o.value? v.datatype = .ok v)
    (s : Assembler) :
    writeOperand o role dt s =
      .ok ⟨role, v.datatype, o.deref, v.toCell⟩ (s.appendCode (v.toCell.bytes v.datatype)) := by
  rw [hv] at h
  have hcell := operandCell_of_value? h s.object.code.size s
  refine bind_eq_ok.mpr ⟨_, _, rfl, bind_eq_ok.mpr ⟨_, _, hcell, ?_⟩⟩
  rw [hv]
  rfl

/-- Unless it is a plain number to be converted, an operand of the layout is written like any
other. -/
theorem writeFixed_eq {source : Option Datatype} {role : Role}
    (h : source = none ∨ (role = .value → o.deref = true)) (dt : Datatype) :
    writeFixed source o role dt = writeOperand o role dt := by
  unfold writeFixed
  rcases h with rfl | h
  · rfl
  · cases source with
    | none => rfl
    | some t =>
      refine if_neg fun ⟨hrole, hnumber⟩ => ?_
      have hderef := h hrole
      unfold SourceOperand.isNumber at hnumber
      split at hnumber <;> simp [hderef] at hnumber

variable {op : Opcode} {dt : Datatype} {w : TokenKind × String} {ws : List (TokenKind × String)}

/-- What stands behind an operand is never a dot. -/
theorem exists_operandLexemes_append (ps : List Spelling) (ws : List (TokenKind × String))
    (hw : w.1 ≠ .dot) :
    ∃ w' ws', spellings (operandLexemes ps) ++ w :: ws = w' :: ws' ∧ w'.1 ≠ .dot := by
  cases ps with
  | nil => exact ⟨w, ws, rfl, hw⟩
  | cons p ps =>
    rw [spellings_operandLexemes_cons]
    exact ⟨(.colon, ":"), _, rfl, by decide⟩

/-- A spelled operand is taken in front of others. -/
theorem operand_of_spelled {p : Spelling} {c : Cursor} (hp : p.1.Spelled dt p.2)
    (h : c.Ahead (spellings (Parser.derefMark p.1.deref ++ p.2) ++
      (spellings (operandLexemes ps) ++ w :: ws)))
    (hw : w.1 ≠ .dot) :
    ∃ c' o, Parser.operand c = .ok o c' ∧ o.deref = p.1.deref ∧
      o.value? p.1.value.datatype = .ok p.1.value ∧
      c'.Ahead (spellings (operandLexemes ps) ++ w :: ws) := by
  obtain ⟨t, ht, hvalue⟩ := hp.term
  obtain ⟨w', ws', hrest, hw'⟩ := exists_operandLexemes_append ps ws hw
  rw [hrest] at h ⊢
  obtain ⟨c', token, hoperand, hc'⟩ := Parser.operand_of_ahead ht h hw'
  exact ⟨c', _, hoperand, rfl, hvalue token, hc'⟩

/-- Spelled operands of the layout are taken and written one behind the other. -/
theorem fixedOperands_of_ahead (source : Option Datatype) (hps : ∀ p ∈ ps, p.1.Spelled dt p.2)
    (hfront : ∀ p ∈ ps, p.1.front = []) (hsource : source = none ∨ op = .convert)
    (hconvert : op = .convert → ∀ p ∈ ps, p.1.role = .value → p.1.deref = true)
    (h : s.cursor.Ahead (spellings (operandLexemes ps) ++ w :: ws)) (hw : w.1 ≠ .dot) :
    ∃ c, fixedOperands op dt source (ps.map (·.1.role)) s =
        .ok (ps.map (·.1.operand))
          ((s.movedTo c).appendCode (encodeOperands (ps.map (·.1.operand)))) ∧
      c.Ahead (w :: ws) := by
  induction ps generalizing source s with
  | nil =>
    exact ⟨s.cursor, congrArg (EStateM.Result.ok []) (appendCode_nil s).symm, h⟩
  | cons p ps ih =>
    obtain ⟨hp, hps⟩ := List.forall_mem_cons.mp hps
    obtain ⟨hpfront, hfront⟩ := List.forall_mem_cons.mp hfront
    have hpconvert := fun hop => (List.forall_mem_cons.mp (hconvert hop)).1
    rw [spellings_operandLexemes_cons, hpfront] at h
    have h : s.cursor.Ahead ((.colon, ":") :: (spellings (Parser.derefMark p.1.deref ++ p.2) ++
      (spellings (operandLexemes ps) ++ w :: ws))) := by simpa [spellings] using h
    obtain ⟨c₁, o, hoperand, hderef, hvalue, hc₁⟩ := operand_of_spelled hp h.next hw
    have hcolon : Parser.expectColon s.cursor = .ok () s.cursor.next :=
      bind_eq_ok.mpr ⟨_, _, Parser.expect_of_ahead h, rfl⟩
    have hafter : sourceAfter op source (p.1.role, o) = none ∨ op = .convert := by
      by_cases hop : op = .convert
      · exact Or.inr hop
      · exact Or.inl (by simp [sourceAfter, hop, hsource.resolve_right hop])
    have hplain : sourceAfter op source (p.1.role, o) = none ∨
        (p.1.role = .value → o.deref = true) :=
      hafter.imp_right fun hop hrole => hderef.trans (hpconvert hop hrole)
    have hwrite := writeOperand_of_value? (hderef ▸ hp.slot) hvalue (s.movedTo c₁)
    rw [hderef] at hwrite
    obtain ⟨c, hrest, hc⟩ := ih _ (s := (s.movedTo c₁).appendCode p.1.operand.encode) hps hfront
      hafter (fun hop => (List.forall_mem_cons.mp (hconvert hop)).2) hc₁
    refine ⟨c, ofParser_bind_eq_ok.mpr ⟨_, _, hcolon, ofParser_bind_eq_ok.mpr ⟨_, _, hoperand,
      bind_eq_ok.mpr ⟨_, _, (congrFun (writeFixed_eq hplain dt) _).trans hwrite,
        bind_eq_ok.mpr ⟨_, _, hrest, ?_⟩⟩⟩⟩, hc⟩
    rw [List.map_cons, encodeOperands_cons, ← appendCode_appendCode]
    rfl

theorem argumentDatatype_of_ahead {t : Datatype} {c : Cursor} (ht : t ≠ .none)
    (h : c.Ahead ((.name, t.name) :: ws)) : Parser.argumentDatatype c = .ok t c.next := by
  have hname : Datatype.ofName? c.current.text = some t := by
    rw [h.text]
    exact Datatype.ofName?_name t
  refine bind_eq_ok.mpr ⟨_, _, Parser.expect_of_ahead h, ?_⟩
  rw [hname]
  cases t with
  | none => exact absurd rfl ht
  | _ => rfl

/-- Spelled arguments of a call are taken and written one behind the other. -/
theorem typedArguments_of_ahead {n : Nat} (hps : ∀ p ∈ ps, p.1.Spelled dt p.2)
    (htyped : ∀ p ∈ ps, ∃ t, t ≠ .none ∧ p.1.role = .typed t) (hn : ps.length ≤ n)
    (h : s.cursor.Ahead (spellings (operandLexemes ps) ++ w :: ws)) (hdot : w.1 ≠ .dot)
    (hcolon : w.1 ≠ .colon) :
    ∃ c, typedArguments dt n s =
        .ok (ps.map (·.1.operand))
          ((s.movedTo c).appendCode (encodeOperands (ps.map (·.1.operand)))) ∧
      c.Ahead (w :: ws) := by
  induction ps generalizing n s with
  | nil =>
    have hat : Parser.at? .colon s.cursor = .ok false s.cursor := by
      rw [Parser.at?_of_ahead .colon h, beq_eq_false_iff_ne.mpr hcolon]
    have hmore : Parser.take? .colon s.cursor = .ok false s.cursor :=
      bind_eq_ok.mpr ⟨false, _, hat, rfl⟩
    refine ⟨s.cursor, ?_, h⟩
    cases n with
    | zero =>
      exact ofParser_bind_eq_ok.mpr ⟨false, _, hmore,
        congrArg (EStateM.Result.ok []) (appendCode_nil s).symm⟩
    | succ n =>
      exact ofParser_bind_eq_ok.mpr ⟨false, _, hmore,
        congrArg (EStateM.Result.ok []) (appendCode_nil s).symm⟩
  | cons p ps ih =>
    obtain ⟨n, rfl⟩ : ∃ m, n = m + 1 := ⟨n - 1, by rw [List.length_cons] at hn; omega⟩
    obtain ⟨hp, hps⟩ := List.forall_mem_cons.mp hps
    obtain ⟨⟨t, ht, hrole⟩, htyped⟩ := List.forall_mem_cons.mp htyped
    have hfront : spellings p.1.front = [(.name, t.name)] := by
      rw [ListedOperand.front, hrole]
      rfl
    rw [spellings_operandLexemes_cons, hfront] at h
    have h : s.cursor.Ahead ((.colon, ":") :: (.name, t.name) ::
      (spellings (Parser.derefMark p.1.deref ++ p.2) ++
        (spellings (operandLexemes ps) ++ w :: ws))) := by simpa using h
    have hmore : Parser.take? .colon s.cursor = .ok true s.cursor.next :=
      bind_eq_ok.mpr ⟨true, _, Parser.at?_of_ahead .colon h, rfl⟩
    obtain ⟨c₁, o, hoperand, hderef, hvalue, hc₁⟩ := operand_of_spelled hp h.next.next hdot
    have hwrite := writeOperand_of_value? (hderef ▸ hp.slot) hvalue (s.movedTo c₁)
    rw [hderef, hrole] at hwrite
    obtain ⟨c, hrest, hc⟩ := ih (s := (s.movedTo c₁).appendCode p.1.operand.encode) hps htyped
      (Nat.le_of_succ_le_succ hn) hc₁
    refine ⟨c, ofParser_bind_eq_ok.mpr ⟨true, _, hmore,
      ofParser_bind_eq_ok.mpr ⟨t, _, argumentDatatype_of_ahead ht h.next,
        ofParser_bind_eq_ok.mpr ⟨o, _, hoperand, bind_eq_ok.mpr ⟨_, _, hwrite,
          bind_eq_ok.mpr ⟨_, _, hrest, ?_⟩⟩⟩⟩⟩, hc⟩
    rw [List.map_cons, encodeOperands_cons, ← appendCode_appendCode, ListedOperand.operand, hrole]
    rfl

/-- Bytes that were appended can be overwritten by as many. -/
theorem overwriteCode_appendCode (s : Assembler) (bs₁ bs₃ : List UInt8) {bs₂ cs : List UInt8}
    (hlen : cs.length = bs₂.length) :
    (s.appendCode (bs₁ ++ bs₂ ++ bs₃)).overwriteCode (s.object.code.size + bs₁.length) cs =
      s.appendCode (bs₁ ++ cs ++ bs₃) := by
  have hsplit : (s.object.code ++ (bs₁ ++ bs₂ ++ bs₃).toArray).toList =
      (s.object.code.toList ++ bs₁) ++ bs₂ ++ bs₃ := by simp
  have hstart : s.object.code.size + bs₁.length = (s.object.code.toList ++ bs₁).length := by simp
  have hwrite := Buffer.toList_write_middle hsplit hstart hlen
  have hcode : (s.object.code ++ (bs₁ ++ bs₂ ++ bs₃).toArray).write
      (s.object.code.size + bs₁.length) cs = s.object.code ++ (bs₁ ++ cs ++ bs₃).toArray :=
    Array.toList_inj.mp (by rw [hwrite]; simp)
  unfold Assembler.overwriteCode Assembler.appendCode
  rw [hcode]

/-- Spelled arguments are written behind their descriptor. -/
theorem describedArguments_of_ahead {types : List Datatype} {d : Descriptor}
    (hps : ∀ p ∈ ps, p.1.Spelled dt p.2) (hroles : ps.map (·.1.role) = types.map .typed)
    (hnone : Datatype.none ∉ types) (hd : Descriptor.ofTypes? types = some d)
    (h : s.cursor.Ahead (spellings (operandLexemes ps) ++ w :: ws)) (hdot : w.1 ≠ .dot)
    (hcolon : w.1 ≠ .colon) :
    ∃ c, describedArguments dt s =
        .ok (ps.map (·.1.operand))
          ((s.movedTo c).appendCode (d.toBytes ++ encodeOperands (ps.map (·.1.operand)))) ∧
      c.Ahead (w :: ws) := by
  have hlen : ps.length ≤ Descriptor.maxArgs := by
    have hlength := congrArg List.length hroles
    rw [List.length_map, List.length_map] at hlength
    exact hlength ▸ Descriptor.length_le_of_ofTypes? hd
  have htyped : ∀ p ∈ ps, ∃ t, t ≠ .none ∧ p.1.role = .typed t := by
    intro p hp
    have hmem : p.1.role ∈ types.map .typed := hroles ▸ List.mem_map_of_mem hp
    obtain ⟨t, ht, hrole⟩ := List.mem_map.mp hmem
    exact ⟨t, fun hnil => hnone (hnil ▸ ht), hrole.symm⟩
  obtain ⟨c, hargs, hc⟩ := typedArguments_of_ahead
    (s := s.appendCode (List.replicate Descriptor.size 0)) hps htyped hlen h hdot hcolon
  have htypes : argumentTypes (ps.map (·.1.operand)) = types := by
    refine filterMap_typed ?_
    rw [List.map_map]
    exact hroles
  have hfill : fillDescriptor s.object.code.size (ps.map (·.1.operand))
      (((s.appendCode (List.replicate Descriptor.size 0)).movedTo c).appendCode
        (encodeOperands (ps.map (·.1.operand)))) =
      .ok () ((s.movedTo c).appendCode (d.toBytes ++ encodeOperands (ps.map (·.1.operand)))) := by
    have hbytes := overwriteCode_appendCode (s.movedTo c) []
      (encodeOperands (ps.map (·.1.operand)))
      (show d.toBytes.length = (List.replicate Descriptor.size (0 : UInt8)).length by
        rw [Descriptor.length_toBytes, List.length_replicate])
    rw [List.nil_append, ← appendCode_appendCode] at hbytes
    unfold fillDescriptor
    rw [htypes, hd]
    exact congrArg (EStateM.Result.ok ()) hbytes
  exact ⟨c, bind_eq_ok.mpr ⟨_, _, rfl, bind_eq_ok.mpr ⟨(), _, rfl, bind_eq_ok.mpr ⟨_, _, hargs,
    bind_eq_ok.mpr ⟨(), _, hfill, rfl⟩⟩⟩⟩, hc⟩

/-! ## Instructions -/

end Asm

/-- Whether an instruction may carry a datatype. -/
def DatatypeRule.admits : DatatypeRule → Datatype → Bool
  | .required, dt => dt != .none
  | .optional, _ => true
  | .absent, dt => dt == .none

/-- The lexemes of the name of an instruction with its datatype. -/
def mnemonicLexemes (op : Opcode) (dt : Datatype) : List Lexeme :=
  .word op.name :: if dt = .none then [] else [.mark '.', .word dt.name]

namespace Asm

variable {op : Opcode} {dt : Datatype} {w : TokenKind × String} {ws : List (TokenKind × String)}

theorem datatypeSuffix_of_ahead {c : Cursor} (h : c.Ahead ((.dot, ".") :: (.name, dt.name) :: ws)) :
    Parser.datatypeSuffix c = .ok dt c.next.next := by
  have hname : Datatype.ofName? c.next.current.text = some dt := by
    rw [h.next.text]
    exact Datatype.ofName?_name dt
  refine bind_eq_ok.mpr ⟨_, _, Parser.expect_of_ahead h, bind_eq_ok.mpr ⟨_, _,
    Parser.expect_of_ahead h.next, ?_⟩⟩
  rw [hname]
  rfl

/-- The datatype of an instruction is taken where its opcode may carry it. -/
theorem instructionDatatype_of_ahead {c : Cursor} {t : Token}
    (hrule : op.layout.rule.admits dt = true) (hw : w.1 ≠ .dot)
    (h : c.Ahead (spellings (mnemonicLexemes op dt).tail ++ w :: ws)) :
    ∃ c', Parser.instructionDatatype op t c = .ok dt c' ∧ c'.Ahead (w :: ws) := by
  by_cases hdt : dt = .none
  · subst hdt
    have h : c.Ahead (w :: ws) := h
    have hsuffix : Parser.at? .dot c = .ok false c := by
      rw [Parser.at?_of_ahead .dot h, beq_eq_false_iff_ne.mpr hw]
    refine ⟨c, bind_eq_ok.mpr ⟨_, _, hsuffix, ?_⟩, h⟩
    cases hlayout : op.layout.rule with
    | required => simp [hlayout, DatatypeRule.admits] at hrule
    | optional => rfl
    | absent => rfl
  · rw [mnemonicLexemes, if_neg hdt] at h
    have h : c.Ahead ((.dot, ".") :: (.name, dt.name) :: w :: ws) := h
    refine ⟨_, bind_eq_ok.mpr ⟨_, _, Parser.at?_of_ahead .dot h, ?_⟩, h.next.next⟩
    cases hlayout : op.layout.rule with
    | required =>
      refine bind_eq_ok.mpr ⟨_, _, datatypeSuffix_of_ahead h, ?_⟩
      rw [if_neg hdt]
      rfl
    | optional => exact datatypeSuffix_of_ahead h
    | absent => simp [hlayout, DatatypeRule.admits, hdt] at hrule

variable {i : SourceInstruction} {x : Instruction} {ps : List Spelling}

theorem callArguments_of_ahead {s : Assembler} (hx : i.Encodes x)
    (hps : ∀ p ∈ ps, p.1.Spelled i.datatype p.2) (hargs : ps.map (·.1.operand) = x.args)
    (h : s.cursor.Ahead (spellings (operandLexemes ps) ++ w :: ws)) (hdot : w.1 ≠ .dot)
    (hcolon : w.1 ≠ .colon) :
    ∃ c, callArguments i.opcode i.datatype s =
        .ok x.args ((s.movedTo c).appendCode (x.encodeDescriptor ++ encodeOperands x.args)) ∧
      c.Ahead (w :: ws) := by
  have hlen : ps.length = i.args.length := by
    rw [hx.args.length_eq, ← hargs, List.length_map]
  have hcount := hx.count
  unfold callArguments Instruction.encodeDescriptor
  rw [hx.descriptor]
  cases hvariadic : i.opcode.layout.variadic with
  | true =>
    rw [hvariadic, if_pos rfl] at hcount
    obtain ⟨d, hd⟩ : ∃ d, Descriptor.ofTypes? i.types = some d :=
      ⟨_, if_pos (hx.length_types ▸ hcount)⟩
    have hroles : ps.map (·.1.role) = i.types.map .typed := by
      rw [← hx.typed, ← roles_of_encodes hx.args, ← hargs, List.map_map]
      rfl
    simp only [if_true, hd, ← hargs]
    exact describedArguments_of_ahead hps hroles hx.types hd h hdot hcolon
  | false =>
    rw [hvariadic] at hcount
    obtain rfl : ps = [] := List.eq_nil_of_length_eq_zero (by simpa [← hlen] using hcount)
    rw [← hargs]
    exact ⟨s.cursor, congrArg (EStateM.Result.ok []) (appendCode_nil s).symm, h⟩

/-- The operands of the layout have no datatype in front of them. -/
theorem front_of_encodes (hx : i.Encodes x) (hfixed : ps.map (·.1.operand) = x.fixed) :
    ps.map (·.1.role) = i.opcode.fixedRoles i.datatype ∧ ∀ p ∈ ps, p.1.front = [] := by
  have hroles : ps.map (·.1.role) = i.opcode.fixedRoles i.datatype := by
    rw [← hx.roles, ← roles_of_encodes hx.fixed, ← hfixed, List.map_map]
    rfl
  refine ⟨hroles, fun p hp => ?_⟩
  have hmem : p.1.role ∈ i.opcode.fixedRoles i.datatype := hroles ▸ List.mem_map_of_mem hp
  unfold ListedOperand.front
  split
  · next t ht => exact absurd (ht ▸ hmem) (typed_not_mem_fixedRoles _ _ t)
  · rfl

/-- Once its operands are there, the mask of an instruction is filled in behind opcode and
datatype. -/
theorem overwriteCode_mask (hx : i.Encodes x) (s : Assembler) :
    (((s.appendCode (encodeHeader i.opcode i.datatype 0)).appendCode
      (encodeOperands x.fixed)).appendCode
        (x.encodeDescriptor ++ encodeOperands x.args)).overwriteCode (s.object.code.size + 2)
          (littleEndian 2 (maskOf x.operands).toNat) = s.appendCode x.encode := by
  have hmask := overwriteCode_appendCode s [i.opcode.byte, i.datatype.code]
    (encodeOperands x.fixed ++ (x.encodeDescriptor ++ encodeOperands x.args))
    (show (littleEndian 2 x.mask.toNat).length = (littleEndian 2 0).length by simp)
  rw [← appendCode_appendCode, ← appendCode_appendCode] at hmask
  have hencode : x.encode = [i.opcode.byte, i.datatype.code] ++ littleEndian 2 x.mask.toNat ++
      (encodeOperands x.fixed ++ (x.encodeDescriptor ++ encodeOperands x.args)) := by
    simp [Instruction.encode, encodeHeader, hx.opcode, hx.datatype]
  rw [hencode, ← hmask, hx.mask]
  rfl

/-- A spelled instruction is taken and encoded behind the code. -/
theorem instruction_of_ahead {qs : List Spelling} {s : Assembler} (hx : i.Encodes x)
    (hrule : i.opcode.layout.rule.admits i.datatype = true)
    (hps : ∀ p ∈ ps ++ qs, p.1.Spelled i.datatype p.2) (hfixed : ps.map (·.1.operand) = x.fixed)
    (hargs : qs.map (·.1.operand) = x.args)
    (hconvert : i.opcode = .convert → ∀ p ∈ ps, p.1.role = .value → p.1.deref = true)
    (h : s.cursor.Ahead (spellings (mnemonicLexemes i.opcode i.datatype ++
      (operandLexemes ps ++ operandLexemes qs)) ++ w :: ws))
    (hdot : w.1 ≠ .dot) (hcolon : w.1 ≠ .colon) :
    ∃ c, instruction i.opcode s = .ok () ((s.movedTo c).appendCode x.encode) ∧
      c.Ahead (w :: ws) := by
  obtain ⟨hroles, hfront⟩ := front_of_encodes hx hfixed
  have h : s.cursor.Ahead ((.name, i.opcode.name) ::
      (spellings (mnemonicLexemes i.opcode i.datatype).tail ++ (spellings (operandLexemes ps) ++
        (spellings (operandLexemes qs) ++ w :: ws)))) := by
    rw [spellings_append, spellings_append, List.append_assoc, List.append_assoc] at h
    exact h
  obtain ⟨w₁, ws₁, hw₁, hdot₁⟩ := exists_operandLexemes_append qs ws hdot
  rw [hw₁] at h
  obtain ⟨w₂, ws₂, hw₂, hdot₂⟩ := exists_operandLexemes_append ps ws₁ hdot₁
  rw [hw₂] at h
  obtain ⟨c₁, hdatatype, hc₁⟩ :=
    instructionDatatype_of_ahead (t := s.cursor.current) hrule hdot₂ h.next
  rw [← hw₂] at hc₁
  obtain ⟨c₂, hfixedOk, hc₂⟩ := fixedOperands_of_ahead none
    (s := (s.movedTo c₁).appendCode (encodeHeader i.opcode i.datatype 0))
    (fun p hp => hps p (List.mem_append_left _ hp)) hfront (Or.inl rfl) hconvert hc₁ hdot₁
  rw [← hw₁] at hc₂
  obtain ⟨c₃, hargsOk, hc₃⟩ := callArguments_of_ahead
    (s := ((s.movedTo c₂).appendCode (encodeHeader i.opcode i.datatype 0)).appendCode
      (encodeOperands x.fixed)) hx (fun p hp => hps p (List.mem_append_right _ hp)) hargs hc₂ hdot
    hcolon
  rw [hroles, hfixed] at hfixedOk
  exact ⟨c₃, ofParser_bind_eq_ok.mpr ⟨s.cursor.current, s.cursor, rfl,
    ofParser_bind_eq_ok.mpr ⟨(), s.cursor.next, rfl, ofParser_bind_eq_ok.mpr ⟨_, c₁, hdatatype,
      bind_eq_ok.mpr ⟨_, _, rfl, bind_eq_ok.mpr ⟨(), _, rfl, bind_eq_ok.mpr ⟨_, _, hfixedOk,
        bind_eq_ok.mpr ⟨_, _, hargsOk,
          congrArg (EStateM.Result.ok ()) (overwriteCode_mask hx (s.movedTo c₃))⟩⟩⟩⟩⟩⟩⟩, hc₃⟩

end Asm

end CellMachine
