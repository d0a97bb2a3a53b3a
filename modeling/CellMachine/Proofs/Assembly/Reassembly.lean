import CellMachine.Proofs.Address
import CellMachine.Proofs.Assembly.Disassembly
import CellMachine.Proofs.Assembly.Reading
import CellMachine.Proofs.Token.Decimal

/-!
# Listings are source text

A listed value is spelled as a term (`Value.exists_spells`), which has that value unless it is a
float (`Value.value?_term`). So the text of a listed instruction is scanned
(`Listed.tokenize_render`) and, as a module of one statement, assembles to the bytes that were
listed (`assemble_render_of_encodes`). Only a plain number that was converted is listed as another
instruction would have it.

`disassemble_render_assemble` is about every instruction in the code of an assembler.
-/

namespace CellMachine

/-! ## Values -/

namespace IntLiteral

theorem toInt_natAbs (n : Int) : toInt ⟨decide (n < 0), n.natAbs⟩ = n := by
  unfold toInt
  split
  · next h =>
    have h : n < 0 := of_decide_eq_true h
    simp only []
    omega
  · next h =>
    have h : ¬ n < 0 := fun hn => h (decide_eq_true hn)
    simp only []
    omega

end IntLiteral

theorem Lexeme.chars_number_natAbs (n : Int) :
    (number (decide (n < 0)) n.natAbs).chars = (toString n).toList := by
  cases n with
  | ofNat m =>
    change Nat.toDigits 10 m = (Nat.repr m).toList
    rw [Nat.toList_repr]
  | negSucc m =>
    rw [decide_eq_true (Int.negSucc_lt_zero m)]
    change '-' :: Nat.toDigits 10 (m + 1) = ("-" ++ Nat.repr (m + 1)).toList
    rw [String.toList_append, Nat.toList_repr]
    rfl

namespace Value

theorem ofInt?_intOf (signed : Bool) (w : Width) (v : BitVec w.bits) :
    ofInt? (intOf signed v) (.int signed w) = some (.int signed w v) := by
  have hpos : 0 < w.bits := by cases w <;> decide
  cases signed with
  | true =>
    have hle := BitVec.le_toInt v
    have hlt := BitVec.toInt_lt (x := v)
    have hrange : minInt true w.bits ≤ v.toInt ∧ v.toInt ≤ maxInt true w.bits := by
      simp only [minInt, maxInt, if_true, Nat.pow_eq]
      push_cast
      omega
    simp only [ofInt?, intOf, if_true, if_pos hrange, BitVec.ofInt_toInt]
  | false =>
    have hlt := v.isLt
    have hrange : minInt false w.bits ≤ (v.toNat : Int) ∧
        (v.toNat : Int) ≤ maxInt false w.bits := by
      simp only [minInt, maxInt, Bool.false_eq_true, if_false, Nat.pow_eq]
      omega
    simp only [ofInt?, intOf, Bool.false_eq_true, if_false, if_pos hrange]
    simp

theorem natAbs_intOf_lt (signed : Bool) {w : Width} (v : BitVec w.bits) :
    (intOf signed v).natAbs < UInt64.size := by
  have hbits : 2 ^ w.bits ≤ UInt64.size := by cases w <;> decide
  have hlt := v.isLt
  cases signed with
  | true =>
    have hle := BitVec.le_toInt v
    have hlt := BitVec.toInt_lt (x := v)
    have hhalf : 2 ^ (w.bits - 1) < 2 ^ w.bits := by cases w <;> decide
    simp only [intOf, if_true]
    zify at hbits hhalf ⊢
    rw [abs_lt]
    constructor <;> linarith
  | false =>
    simp only [intOf, Bool.false_eq_true, if_false, Int.natAbs_natCast]
    omega

end Value

/-! ## Addresses -/

/-- The term that an address is listed as : itself, or the number of its bits. -/
def Address.term (a : Address) : Term :=
  match a.base? with
  | some .register =>
    if (Register.ofOffset? a.offset.toNat).isSome then .address a
    else .integer ⟨false, a.bits.toNat⟩
  | some .frameAdd | some .frameSub => .address a
  | _ => .integer ⟨false, a.bits.toNat⟩

theorem Address.term_eq (a : Address) :
    a.term = .address a ∨ a.term = .integer ⟨false, a.bits.toNat⟩ := by
  unfold term
  split
  · split
    · exact .inl rfl
    · exact .inr rfl
  · exact .inl rfl
  · exact .inl rfl
  · exact .inr rfl

theorem Address.exists_spells (a : Address) :
    ∃ ls, Spells ls a.term ∧ ls.flatMap Lexeme.chars = (a.render .empty).toList := by
  have hnumber : ∃ ls, Spells ls (.integer ⟨false, a.bits.toNat⟩) ∧
      ls.flatMap Lexeme.chars = (toString a.bits.toNat).toList :=
    ⟨_, .integer false a.bits.toNat_lt, by simp [Lexeme.chars]⟩
  unfold Address.render term
  cases hbase : a.base? with
  | none => exact hnumber
  | some base =>
    cases base with
    | register =>
      cases hr : Register.ofOffset? a.offset.toNat with
      | none => simpa [hr] using hnumber
      | some r =>
        have hfind := List.find?_some (p := fun q : Register => q.offset == a.offset.toNat) hr
        have hoffset : r.offset = a.offset.toNat := beq_iff_eq.mp hfind
        have ha : r.address = a := by
          rw [Address.eq_make hbase, Register.address, hoffset, UInt64.ofNat_toNat]
        have hspells := Spells.register r
        rw [ha] at hspells
        simp only [Option.isSome_some, if_true]
        exact ⟨_, hspells, by simp [Lexeme.chars]⟩
    | frameAdd =>
      have hspells : Spells _ (.address (.make .frameAdd (UInt64.ofNat a.offset.toNat))) :=
        .frame false a.offset.toNat_lt
      rw [UInt64.ofNat_toNat, ← Address.eq_make hbase] at hspells
      exact ⟨_, hspells, by simp [Lexeme.chars]⟩
    | frameSub =>
      have hspells : Spells _ (.address (.make .frameSub (UInt64.ofNat a.offset.toNat))) :=
        .frame true a.offset.toNat_lt
      rw [UInt64.ofNat_toNat, ← Address.eq_make hbase] at hspells
      exact ⟨_, hspells, by simp [Lexeme.chars]⟩
    | _ => exact hnumber

variable {v : Value} {ps : List Spelling}

theorem Value.exists_address (h : v.datatype = .u64) : ∃ a : Address, v = .ofUInt64 a.bits := by
  cases v with
  | int signed w v =>
    cases h
    exact ⟨⟨⟨v⟩⟩, rfl⟩
  | _ => cases h

theorem IntLiteral.toValue?_u64 (n : UInt64) :
    (IntLiteral.toValue? ⟨false, n.toNat⟩ .u64) = some (.ofUInt64 n) :=
  Value.ofInt?_intOf false .w64 n.toBitVec

theorem IntLiteral.toValue?_addr (a : Address) :
    (IntLiteral.toValue? ⟨false, a.bits.toNat⟩ .addr) = some (.addr a) := by
  have hword : Value.word? (a.bits.toNat : Int) = some a.bits := by
    unfold Value.word?
    rw [if_pos ⟨Int.natCast_nonneg _, Int.ofNat_lt.mpr a.bits.toNat_lt⟩, Int.toNat_natCast,
      UInt64.ofNat_toNat]
  have hint : IntLiteral.toInt ⟨false, a.bits.toNat⟩ = a.bits.toNat := rfl
  simp only [IntLiteral.toValue?, hint, Value.ofInt?, hword, Option.map_some]

/-- In a slot for it, an address has its own value. -/
theorem SourceOperand.value?_of_address {o : SourceOperand} {a : Address}
    (h : o.term = .address a ∨ o.term = .integer ⟨false, a.bits.toNat⟩) :
    o.value? .addr = .ok (.addr a) ∧ o.value? .u64 = .ok (.ofUInt64 a.bits) := by
  unfold value?
  rcases h with h | h
  · simp only [h, Value.cast?_addr]
    exact ⟨rfl, rfl⟩
  · simp only [h, IntLiteral.toValue?_u64, IntLiteral.toValue?_addr, Bool.and_false,
      Bool.false_eq_true, if_false, and_self]

/-! ## Operands -/

/-- How a value is listed that is not dereferenced. -/
def Value.listing : Value → String
  | .addr a => a.render .empty
  | v => v.text

/-- The term that a value is listed as. -/
def Value.term : Value → Term
  | .int signed _ v => .integer ⟨decide (intOf signed v < 0), (intOf signed v).natAbs⟩
  | .f32 word => .float ((floatLiteral? (Value.f32 word).text).getD 0)
  | .f64 word => .float ((floatLiteral? (Value.f64 word).text).getD 0)
  | .bool b => .integer ⟨false, if b then 1 else 0⟩
  | .addr a => a.term
  | .type t => .name t.name

theorem Spells.exists_float (hfloat : v.datatype.isFloat = true) (h : v.isFinite = true) :
    ∃ ls, Spells ls (.float ((floatLiteral? v.text).getD 0)) ∧
      ls.flatMap Lexeme.chars = v.text.toList := by
  obtain ⟨negative, whole, fraction, hwhole, hfraction, htext⟩ := Value.exists_decimal hfloat h
  obtain ⟨word, hword⟩ := floatLiteral?_decimal negative hwhole hfraction
  have hread : floatLiteral? v.text = some word := by
    rw [← hword, ← htext, String.ofList_toList]
  rw [hread]
  exact ⟨_, .float negative hwhole hfraction hword, by rw [htext, List.flatMap_singleton]⟩

/-- What is finite is listed as its term. -/
theorem Value.exists_spells (h : v.isFinite = true) :
    ∃ ls, Spells ls v.term ∧ ls.flatMap Lexeme.chars = v.listing.toList := by
  cases v with
  | int signed w v =>
    refine ⟨_, .integer _ (natAbs_intOf_lt signed v), ?_⟩
    rw [List.flatMap_singleton, Lexeme.chars_number_natAbs]
    rfl
  | f32 word => exact Spells.exists_float rfl h
  | f64 word => exact Spells.exists_float rfl h
  | bool b => cases b <;> exact ⟨_, .integer false (by decide), rfl⟩
  | addr a => exact a.exists_spells
  | type t => exact ⟨_, .datatype t, List.flatMap_singleton _ _⟩

/-- What is not a float is the value of its term. -/
theorem Value.value?_term (hfloat : v.datatype.isFloat = false) (token : Token) :
    (⟨false, v.term, token⟩ : SourceOperand).value? v.datatype = .ok v := by
  cases v with
  | int signed w v =>
    simp only [SourceOperand.value?, term, IntLiteral.toValue?, IntLiteral.toInt_natAbs, datatype,
      ofInt?_intOf, Bool.false_and, Bool.false_eq_true, if_false]
  | f32 word => cases hfloat
  | f64 word => cases hfloat
  | bool b => cases b <;> rfl
  | addr a => exact (SourceOperand.value?_of_address a.term_eq).1
  | type t =>
    simp only [SourceOperand.value?, term, Datatype.ofName?_name]
    rfl

namespace ListedOperand

variable {dt : Datatype} {o : ListedOperand}

/-- The text in front of the term of an operand. -/
def frontText (o : ListedOperand) : String :=
  match o.role with
  | .typed dt => dt.name ++ " "
  | _ => ""

theorem chars_front (o : ListedOperand) :
    o.front.flatMap Lexeme.chars = o.frontText.toList := by
  unfold front frontText
  cases o.role <;> simp [Lexeme.chars]

theorem render_plain (h : o.deref = false) :
    o.render .empty = o.frontText ++ o.value.listing := by
  unfold render
  rw [h]
  cases o.value <;> rfl

theorem render_deref {a : Address} (h : o.deref = true) (hvalue : o.value = .ofUInt64 a.bits) :
    o.render .empty = o.frontText ++ ("@" ++ a.render .empty) := by
  unfold render
  rw [h, hvalue]
  rfl

theorem chars_lexemes (o : ListedOperand) (ls : List Lexeme) :
    (Spelling.lexemes (o, ls)).flatMap Lexeme.chars = o.frontText.toList ++
      ((Parser.derefMark o.deref).flatMap Lexeme.chars ++ ls.flatMap Lexeme.chars) := by
  rw [Spelling.lexemes, List.flatMap_append, List.flatMap_append, chars_front]

/-- What is not dereferenced is listed as its value. -/
theorem chars_plain {ls : List Lexeme} (hderef : o.deref = false)
    (hchars : ls.flatMap Lexeme.chars = o.value.listing.toList) :
    (Spelling.lexemes (o, ls)).flatMap Lexeme.chars = (o.render .empty).toList := by
  rw [chars_lexemes, render_plain hderef, String.toList_append, ← hchars, hderef]
  rfl

/-- Unless it is a plain float, an operand is listed as a term for its value. -/
theorem exists_spelled (hslot : o.value.datatype = o.role.encodedDatatype dt o.deref)
    (hfloat : o.value.datatype.isFloat = false) :
    ∃ ls, o.Spelled dt ls ∧
      (Spelling.lexemes (o, ls)).flatMap Lexeme.chars = (o.render .empty).toList := by
  cases hderef : o.deref with
  | false =>
    obtain ⟨ls, ht, hchars⟩ := Value.exists_spells (Value.isFinite_of_isFloat_eq_false hfloat)
    exact ⟨ls, ⟨hslot, _, ht, hderef ▸ Value.value?_term hfloat⟩, chars_plain hderef hchars⟩
  | true =>
    -- Whatever the role, what is dereferenced is an address, read back as a `u64`.
    obtain ⟨a, ha⟩ := Value.exists_address (hslot.trans (hderef ▸ rfl))
    obtain ⟨ls, ht, hchars⟩ := a.exists_spells
    refine ⟨ls, ⟨hslot, _, ht, fun token => ?_⟩, ?_⟩
    · rw [ha]
      exact (SourceOperand.value?_of_address a.term_eq).2
    · rw [chars_lexemes, render_deref hderef ha, String.toList_append, String.toList_append,
        ← hchars, hderef]
      rfl

end ListedOperand

/-! ## Texts -/

namespace Lexeme

theorem isWord_opcode (op : Opcode) : isWord op.name = true := by
  cases op with
  | binary op => cases op <;> rfl
  | unary op => cases op <;> rfl
  | compare op => cases op <;> rfl
  | branch taken => cases taken <;> rfl
  | _ => rfl

theorem isWord_datatype (dt : Datatype) : isWord dt.name = true := by
  cases dt with
  | int signed w => cases signed <;> cases w <;> rfl
  | _ => rfl

theorem isWord_register (r : Register) : isWord r.name = true := by
  cases r <;> rfl

/-- Lexemes that do not run into each other nor into a word or a number in front of them. -/
structure Detached (ls : List Lexeme) : Prop where
  separated : Separated ls
  head : ls.head? = none ∨ ls.head? = some blank

variable {rest : List Lexeme}

theorem Detached.word {text : String} (hrest : Detached rest) (h : isWord text = true) :
    Separated (.word text :: rest) := by
  refine ⟨?_, hrest.separated⟩
  rcases hrest.head with hhead | hhead <;> exact hhead ▸ h

theorem Detached.number (hrest : Detached rest) (negative : Bool) (n : Nat) :
    Separated (.number negative n :: rest) := by
  refine ⟨?_, hrest.separated⟩
  rcases hrest.head with hhead | hhead <;> exact hhead ▸ rfl

theorem Detached.decimal (hrest : Detached rest) (negative : Bool) {whole fraction : List Char}
    (hwhole : isDigits whole = true) (hfraction : ∀ c ∈ fraction, Text.isDigit c = true) :
    Separated (.decimal negative whole fraction :: rest) := by
  have hdigits : (isDigits whole && fraction.all Text.isDigit) = true :=
    Bool.and_eq_true_iff.mpr ⟨hwhole, List.all_eq_true.mpr hfraction⟩
  refine ⟨?_, hrest.separated⟩
  rcases hrest.head with hhead | hhead <;> exact hhead ▸ hdigits

theorem Detached.mnemonic (hrest : Detached rest) (op : Opcode) (dt : Datatype) :
    Separated (mnemonicLexemes op dt ++ rest) := by
  unfold mnemonicLexemes
  split
  · exact hrest.word (isWord_opcode op)
  · exact ⟨Bool.and_eq_true_iff.mpr ⟨isWord_opcode op, rfl⟩, rfl, hrest.word (isWord_datatype dt)⟩

end Lexeme

open Lexeme in
theorem Spells.separated {ls rest : List Lexeme} {t : Term} (h : Spells ls t)
    (hrest : Detached rest) : Separated (ls ++ rest) := by
  cases h with
  | register r => exact ⟨rfl, hrest.word (isWord_register r)⟩
  | frame negative hn => exact ⟨rfl, hrest.number negative _⟩
  | integer negative hn => exact hrest.number negative _
  | float negative hwhole hfraction _ => exact hrest.decimal negative hwhole hfraction
  | datatype dt => exact hrest.word (isWord_datatype dt)

open Lexeme in
theorem Spelling.separated_lexemes {p : Spelling} {rest : List Lexeme} (h : ∃ t, Spells p.2 t)
    (hrest : Detached rest) : Separated (p.lexemes ++ rest) := by
  obtain ⟨t, ht⟩ := h
  have hterm := ht.separated hrest
  have hmarked : Separated (Parser.derefMark p.1.deref ++ (p.2 ++ rest)) := by
    unfold Parser.derefMark
    split
    · exact ⟨rfl, hterm⟩
    · exact hterm
  unfold Spelling.lexemes ListedOperand.front
  rw [List.append_assoc, List.append_assoc]
  split
  · exact ⟨isWord_datatype _, rfl, hmarked⟩
  · exact hmarked

/-- Operands begin with the blank in front of a colon. -/
theorem detached_operandLexemes (h : ∀ p ∈ ps, ∃ t, Spells p.2 t) :
    Lexeme.Detached (operandLexemes ps) := by
  induction ps with
  | nil => exact ⟨trivial, Or.inl rfl⟩
  | cons p ps ih =>
    obtain ⟨hp, hps⟩ := List.forall_mem_cons.mp h
    exact ⟨⟨rfl, rfl, rfl, Spelling.separated_lexemes hp (ih hps)⟩, Or.inr rfl⟩

theorem chars_mnemonicLexemes (op : Opcode) (dt : Datatype) :
    (mnemonicLexemes op dt).flatMap Lexeme.chars = (mnemonic op dt).toList := by
  unfold mnemonicLexemes mnemonic
  split <;> simp [Lexeme.chars]

theorem chars_operandLexemes
    (h : ∀ p ∈ ps, p.lexemes.flatMap Lexeme.chars = (p.1.render .empty).toList) :
    (operandLexemes ps).flatMap Lexeme.chars =
      (String.join ((ps.map (·.1)).map fun o => " : " ++ o.render .empty)).toList := by
  induction ps with
  | nil => rfl
  | cons p ps ih =>
    obtain ⟨hp, hps⟩ := List.forall_mem_cons.mp h
    have htail := ih hps
    unfold operandLexemes at htail ⊢
    rw [List.flatMap_cons, List.flatMap_append, List.flatMap_append, hp, htail]
    simp [Lexeme.chars]

/-- The text of a listed instruction is scanned into the tokens of its lexemes. -/
theorem Listed.tokenize_render {l : Listed} (hps : ∀ p ∈ ps, ∃ t, Spells p.2 t)
    (hoperands : ps.map (·.1) = l.operands)
    (hchars : ∀ p ∈ ps, p.lexemes.flatMap Lexeme.chars = (p.1.render .empty).toList) :
    ∃ ts, tokenize (l.render .empty) = .ok ts ∧ ts.toList.map Token.spelling =
      spellings (mnemonicLexemes l.opcode l.datatype ++ operandLexemes ps) ++
        [(.endOfCode, "")] := by
  refine tokenize_of_lexemes ((detached_operandLexemes hps).mnemonic _ _) ?_
  rw [List.flatMap_append, chars_mnemonicLexemes, chars_operandLexemes hchars, hoperands,
    ← String.toList_append]
  rfl

/-! ## Modules of one statement -/

theorem Opcode.ofName?_name (op : Opcode) : ofName? op.name = some op := by
  cases op with
  | binary op => cases op <;> rfl
  | unary op => cases op <;> rfl
  | compare op => cases op <;> rfl
  | branch taken => cases taken <;> rfl
  | _ => rfl

namespace Assembler

variable {w : TokenKind × String} {ws : List (TokenKind × String)} {s s₁ : Assembler}

theorem onLine_of_ahead (h : s.cursor.Ahead (w :: ws)) (hw : w.1 ≠ .newline) : s.onLine = s := by
  have hstay : s.cursor.skipNewlines = s.cursor := by
    unfold Cursor.skipNewlines
    cases s.cursor.remaining with
    | zero => rfl
    | succ n =>
      rw [Cursor.skipWhile, Cursor.skipWhileRound, h.kind, if_neg (by simpa using hw)]
  unfold onLine
  rw [hstay]

theorem atEnd_of_ahead (h : s.cursor.Ahead (w :: ws)) :
    s.cursor.atEnd = (w.1 == .endOfCode) := by
  rw [← h.kind]
  rfl

/-- An instruction in front of the end is a statement. -/
theorem statement_of_instruction {op : Opcode} (expand : Asm Unit)
    (h : s.cursor.Ahead ((.name, op.name) :: ws)) (hrun : Asm.instruction op s = .ok () s₁)
    (hend : s₁.cursor.Ahead [(.endOfCode, "")]) : Asm.statement expand s = .ok () s₁ := by
  have hop : Opcode.ofName? s.cursor.current.text = some op := by
    rw [h.text]
    exact op.ofName?_name
  have hbody : Asm.statementBody expand s = .ok () s₁ := by
    refine Asm.ofParser_bind_eq_ok.mpr ⟨s.cursor.current, s.cursor, rfl, ?_⟩
    rw [h.kind, hop]
    exact hrun
  have hends : Parser.expectEnd s₁.cursor = .ok () s₁.cursor := by
    have hkind : s₁.cursor.current.endsStatement = true := by
      rw [Token.endsStatement, hend.kind]
      rfl
    refine bind_eq_ok.mpr ⟨_, _, rfl, ?_⟩
    rw [if_pos hkind]
    rfl
  have hline := onLine_of_ahead hend (by decide)
  exact bind_eq_ok.mpr ⟨(), s₁, hbody, Asm.ofParser_bind_eq_ok.mpr ⟨(), _, hends,
    congrArg (EStateM.Result.ok ()) hline⟩⟩

/-- At the end no statement is taken. -/
theorem statements_of_ahead_end (expand : Asm Unit) (n : Nat)
    (h : s.cursor.Ahead [(.endOfCode, "")]) : Asm.statements expand n s = .ok () s := by
  cases n with
  | zero => rfl
  | succ n =>
    rw [Asm.statements_succ, onLine_of_ahead h (by decide), atEnd_of_ahead h]
    rfl

/-- A module of one instruction has its encoding as its code. -/
theorem assemble_of_instruction {op : Opcode} {tokens : Array Token} {name : String} {c : Cursor}
    {bytes : List UInt8} (h : Cursor.Ahead ⟨tokens, 0⟩ ((.name, op.name) :: ws))
    (hrun : Asm.instruction op ((empty name).fedWith tokens) =
      .ok () ((((empty name).fedWith tokens).movedTo c).appendCode bytes))
    (hend : c.Ahead [(.endOfCode, "")]) :
    ∃ o, assemble tokens name = .ok o ∧ o.code.toList = bytes := by
  have h : ((empty name).fedWith tokens).cursor.Ahead ((.name, op.name) :: ws) := h
  have hstatement := statement_of_instruction (Asm.expansion maxDepth) h hrun hend
  have hall : Asm.statements (Asm.expansion maxDepth)
      (((empty name).fedWith tokens).cursor.remaining + 1) ((empty name).fedWith tokens) =
      .ok () ((((empty name).fedWith tokens).movedTo c).appendCode bytes).counted := by
    rw [Asm.statements_succ, onLine_of_ahead h (by simp), atEnd_of_ahead h,
      Asm.attempt_eq_ok.mpr hstatement]
    exact statements_of_ahead_end _ _ hend
  refine ⟨(((((empty name).fedWith tokens).movedTo c).appendCode bytes).counted).object, ?_, ?_⟩
  · unfold assemble
    rw [feed_eq, hall]
    rfl
  · change (#[] ++ bytes.toArray).toList = bytes
    simp

end Assembler

/-! ## Listed instructions -/

namespace ListedOperand

theorem listed_operand (offset : Nat) (o : ListedOperand) :
    Operand.listed offset o.operand = .ok o := by
  unfold Operand.listed operand
  simp only [Value.ofCell?_toCell]

theorem mapM_listed_operand (offset : Nat) (os : List ListedOperand) :
    (os.map operand).mapM (Operand.listed offset) = .ok os := by
  induction os with
  | nil => rfl
  | cons o os ih =>
    rw [List.map_cons, List.mapM_cons, listed_operand, ih]
    rfl

end ListedOperand

theorem disassemble_of_operands {x : Instruction} {code : Buffer} {pos : Nat}
    {os : List ListedOperand} (hx : x.WellFormed) (hcode : code.Holds pos x.encode)
    (hos : os.map ListedOperand.operand = x.operands) :
    disassemble code pos = .ok ⟨pos, x.opcode, x.datatype, os, x.size⟩ := by
  unfold disassemble
  rw [decode_of_holds hx hcode]
  change (x.operands.mapM (Operand.listed pos) >>= fun os => pure _) = _
  rw [← hos, ListedOperand.mapM_listed_operand]
  rfl

/-- The lexemes of an operand are a term for its value and make up its text. -/
structure Spelling.Renders (dt : Datatype) (q : Spelling) : Prop where
  spelled : q.1.Spelled dt q.2
  chars : q.lexemes.flatMap Lexeme.chars = (q.1.render .empty).toList

/-- An address does not stand in a slot for a float. -/
theorem EncodesOperand.isFloat_eq_false {dt : Datatype} {source : Option Datatype}
    {p : Role × SourceOperand}
    (hfloat : (p.1.encodedDatatype dt p.2.deref).isFloat = true → ∃ a, p.2.term = .address a)
    (hslot : v.datatype = p.1.encodedDatatype dt p.2.deref)
    (hdenotes : p.2.Denotes (readAs source p) v) : v.datatype.isFloat = false := by
  rw [← Bool.not_eq_true]
  intro hv
  obtain ⟨a, ha⟩ := hfloat (hslot ▸ hv)
  have hsource : readAs source p = none := by simp [readAs, SourceOperand.isNumber, ha]
  rw [hsource] at hdenotes
  simp only [SourceOperand.Denotes, ha] at hdenotes
  cases v <;> cases hv <;> cases hdenotes

/-- Operands that are no floats have lexemes. -/
theorem exists_renders_of_encodes {dt : Datatype} {source : Option Datatype}
    {ps : List (Role × SourceOperand)} {xs : List Operand}
    (hfloat : ∀ p ∈ ps, (p.1.encodedDatatype dt p.2.deref).isFloat = true →
      ∃ a, p.2.term = .address a)
    (h : List.Forall₂ (fun p => EncodesOperand dt (readAs source p) p) ps xs) :
    ∃ qs : List Spelling, qs.map (·.1.operand) = xs ∧ ∀ q ∈ qs, q.Renders dt ∧
      ∃ p ∈ ps, q.1.role = p.1 ∧ q.1.deref = p.2.deref := by
  induction h with
  | nil => exact ⟨[], rfl, by simp⟩
  | @cons p x ps xs hx _ ih =>
    obtain ⟨hp, hps⟩ := List.forall_mem_cons.mp hfloat
    obtain ⟨v, hslot, hdenotes, rfl⟩ := hx
    obtain ⟨qs, hqs, hrenders⟩ := ih hps
    obtain ⟨ls, hspelled, hchars⟩ := ListedOperand.exists_spelled
      (o := ⟨p.1, p.2.deref, v⟩) hslot (EncodesOperand.isFloat_eq_false hp hslot hdenotes)
    refine ⟨(⟨p.1, p.2.deref, v⟩, ls) :: qs, congrArg₂ List.cons rfl hqs,
      List.forall_mem_cons.mpr ⟨⟨⟨hspelled, hchars⟩, p, List.mem_cons_self, rfl, rfl⟩, ?_⟩⟩
    intro q hq
    obtain ⟨hq, p', hp', hsame⟩ := hrenders q hq
    exact ⟨hq, p', List.mem_cons_of_mem _ hp', hsame⟩

/-- An instruction without floats is listed as source text for itself, unless it converts a plain
number. -/
theorem assemble_render_of_encodes {i : SourceInstruction} {x : Instruction} {code : Buffer}
    {pos : Nat} (hx : i.Encodes x) (hrule : i.opcode.layout.rule.admits i.datatype = true)
    (hfloat : ∀ p ∈ i.operands, (p.1.encodedDatatype i.datatype p.2.deref).isFloat = true →
      ∃ a, p.2.term = .address a)
    (hconvert : i.opcode = .convert → ∀ p ∈ i.fixed, p.1 = .value → p.2.deref = true)
    (hcode : code.Holds pos x.encode) (name : String) :
    ∃ l ts o, disassemble code pos = .ok l ∧ l.size = x.size ∧
      tokenize (l.render .empty) = .ok ts ∧ assemble ts name = .ok o ∧
      o.code.toList = x.encode := by
  -- The arguments of a call are never converted, so that both lists are spelled alike.
  have hargs : List.Forall₂ (fun p => EncodesOperand i.datatype (readAs none p) p)
      i.args x.args := by
    simpa [readAs] using hx.args
  obtain ⟨qs, hqs, hqsRenders⟩ := exists_renders_of_encodes
    (fun p hp => hfloat p (List.mem_append_left _ hp)) hx.fixed
  obtain ⟨rs, hrs, hrsRenders⟩ := exists_renders_of_encodes
    (fun p hp => hfloat p (List.mem_append_right _ hp)) hargs
  have hrenders : ∀ q ∈ qs ++ rs, q.Renders i.datatype := by
    intro q hq
    rcases List.mem_append.mp hq with hq | hq
    · exact (hqsRenders q hq).1
    · exact (hrsRenders q hq).1
  have hlisted : ((qs ++ rs).map (·.1)).map ListedOperand.operand = x.operands := by
    rw [List.map_map, List.map_append]
    exact congrArg₂ (· ++ ·) hqs hrs
  have hdisassemble := disassemble_of_operands hx.wellFormed hcode hlisted
  rw [hx.opcode, hx.datatype] at hdisassemble
  obtain ⟨ts, hts, hspellings⟩ := Listed.tokenize_render
    (l := ⟨pos, i.opcode, i.datatype, (qs ++ rs).map (·.1), x.size⟩)
    (fun q hq => (hrenders q hq).spelled.spells) rfl (fun q hq => (hrenders q hq).chars)
  have hahead : ((Assembler.empty name).fedWith ts).cursor.Ahead
      (spellings (mnemonicLexemes i.opcode i.datatype ++
        (operandLexemes qs ++ operandLexemes rs)) ++ [(.endOfCode, "")]) := by
    have hlexemes : operandLexemes (qs ++ rs) = operandLexemes qs ++ operandLexemes rs :=
      List.flatMap_append
    rw [← hlexemes]
    exact hspellings
  obtain ⟨c, hrun, hend⟩ := Asm.instruction_of_ahead hx hrule
    (fun q hq => (hrenders q hq).spelled) hqs hrs
    (fun hop q hq hrole => by
      obtain ⟨-, p, hp, hsame, hderef⟩ := hqsRenders q hq
      exact hderef.trans (hconvert hop p hp (hsame ▸ hrole)))
    hahead (by decide) (by decide)
  obtain ⟨o, ho, hbytes⟩ := Assembler.assemble_of_instruction hahead hrun hend
  exact ⟨_, ts, o, hdisassemble, rfl, hts, ho, hbytes⟩

/-! ## Instructions of the source -/

theorem Parser.admits_of_instructionDatatype {op : Opcode} {t : Token} {dt : Datatype}
    {c c' : Cursor} (h : instructionDatatype op t c = .ok dt c') :
    op.layout.rule.admits dt = true := by
  obtain ⟨suffix, c₁, -, h⟩ := bind_eq_ok.mp h
  cases hrule : op.layout.rule with
  | required =>
    rw [hrule] at h
    cases suffix with
    | false => cases h
    | true =>
      obtain ⟨dt', c₂, -, h⟩ := bind_eq_ok.mp h
      split at h
      · cases h
      · next hne =>
        cases h
        exact bne_iff_ne.mpr hne
  | optional => rfl
  | absent =>
    rw [hrule] at h
    cases suffix with
    | false =>
      cases h
      rfl
    | true => cases h

/-- An instruction was taken from tokens. -/
def SourceInstruction.Taken (i : SourceInstruction) : Prop :=
  ∃ op c c', Parser.sourceInstruction op c = .ok i c'

theorem SourceInstruction.Taken.admits {i : SourceInstruction} (h : i.Taken) :
    i.opcode.layout.rule.admits i.datatype = true := by
  obtain ⟨op, c, c', h⟩ := h
  obtain ⟨_, _, -, h⟩ := bind_eq_ok.mp h
  obtain ⟨_, _, -, h⟩ := bind_eq_ok.mp h
  obtain ⟨dt, _, hdt, h⟩ := bind_eq_ok.mp h
  obtain ⟨fixed, _, -, h⟩ := bind_eq_ok.mp h
  obtain ⟨args, _, -, h⟩ := bind_eq_ok.mp h
  cases h
  exact Parser.admits_of_instructionDatatype hdt

section Taken

variable {expand : Assembler → List Emission} {i : SourceInstruction} {s : Assembler}

theorem taken_of_statementEmissions (hexpand : ∀ s, .written i ∈ expand s → i.Taken)
    (h : .written i ∈ statementEmissions expand s) : i.Taken := by
  unfold statementEmissions at h
  split at h
  · unfold directiveEmissions at h
    grind
  · split at h
    · next op _ =>
      split at h
      · next i' c' hi' =>
        cases List.mem_singleton.mp h
        exact ⟨op, _, c', hi'⟩
      · cases h
    · exact hexpand s h
  · cases h

theorem taken_of_statementsEmissions {action : Asm Unit} {n : Nat}
    (hexpand : ∀ s, .written i ∈ expand s → i.Taken)
    (h : .written i ∈ statementsEmissions action expand n s) : i.Taken := by
  induction n generalizing s with
  | zero => cases h
  | succ n ih =>
    unfold statementsEmissions at h
    split at h
    · cases h
    · split at h
      · rcases List.mem_append.mp h with h | h
        · exact taken_of_statementEmissions hexpand h
        · exact ih h
      · cases h

theorem taken_of_expansionEmissions {n : Nat} (h : .written i ∈ expansionEmissions n s) :
    i.Taken := by
  induction n generalizing s with
  | zero => cases h
  | succ n ih =>
    unfold expansionEmissions at h
    split at h
    · exact taken_of_statementsEmissions (fun _ => ih) h
    · cases h

/-- What the source asks for with a name of its own was taken from its tokens. -/
theorem Assembler.Produced.taken {name : String} {es : List Emission} (hs : Produced name es s)
    (h : .written i ∈ es) : i.Taken := by
  induction hs with
  | empty => cases h
  | feed tokens _ ih =>
    rcases List.mem_append.mp h with h | h
    · exact ih h
    · exact taken_of_statementsEmissions (fun _ => taken_of_expansionEmissions) h

end Taken

theorem exists_split_encodes {pre post : List Emission} {e : Emission} {xs : List Instruction}
    (h : List.Forall₂ Emission.Encodes (pre ++ e :: post) xs) :
    ∃ ys x zs, xs = ys ++ x :: zs ∧ List.Forall₂ Emission.Encodes pre ys ∧ e.Encodes x ∧
      List.Forall₂ Emission.Encodes post zs := by
  induction pre generalizing xs with
  | nil =>
    obtain ⟨x, zs, hx, hzs, rfl⟩ := List.forall₂_cons_left_iff.mp h
    exact ⟨[], x, zs, rfl, .nil, hx, hzs⟩
  | cons d pre ih =>
    obtain ⟨y, xs, hy, hxs, rfl⟩ := List.forall₂_cons_left_iff.mp h
    obtain ⟨ys, x, zs, rfl, hys, hx, hzs⟩ := ih hxs
    exact ⟨y :: ys, x, zs, rfl, .cons hy hys, hx, hzs⟩

/-- The text of a listed instruction assembles to the bytes that were listed, unless a number or a
name stands in a slot for a float, or a plain number is converted. -/
theorem disassemble_render_assemble {name : String} {es pre post : List Emission} {s : Assembler}
    {o : Object} {i : SourceInstruction} (hs : Assembler.Produced name es s)
    (ho : o = s.object ∨ s.finish = .ok o) (hes : es = pre ++ .written i :: post)
    (hfloat : ∀ p ∈ i.operands, (p.1.encodedDatatype i.datatype p.2.deref).isFloat = true →
      ∃ a, p.2.term = .address a)
    (hconvert : i.opcode = .convert → ∀ p ∈ i.fixed, p.1 = .value → p.2.deref = true)
    (name' : String) :
    ∃ l ts o', disassemble o.code (emissionsSize pre) = .ok l ∧
      tokenize (l.render .empty) = .ok ts ∧ assemble ts name' = .ok o' ∧
      o'.code.toList = o.code.read (emissionsSize pre) l.size ∧
      o.code.size = emissionsSize pre + l.size + emissionsSize post := by
  have hcarries : o.Carries es := by
    rcases ho with rfl | ho
    · exact hs.emits.carries
    · exact Assembler.carries_of_finish hs ho
  have hrule := (hs.taken (i := i) (by simp [hes])).admits
  obtain ⟨xs, hxs, hcode⟩ := hcarries.code
  obtain ⟨ys, x, zs, rfl, hys, hx, hzs⟩ := exists_split_encodes (hes ▸ hxs)
  have hcode : o.code.toList = ys.flatMap Instruction.encode ++ x.encode ++
      zs.flatMap Instruction.encode := by simpa using hcode
  have hholds : o.code.Holds (emissionsSize pre) x.encode :=
    length_flatMap_encode hys ▸ Buffer.holds_of_toList hcode
  obtain ⟨l, ts, o', hl, hsize, hts, ho', hbytes⟩ :=
    assemble_render_of_encodes hx hrule hfloat hconvert hholds name'
  refine ⟨l, ts, o', hl, hts, ho', ?_, ?_⟩
  · rw [hbytes, hsize, ← x.length_encode]
    exact hholds.2.symm
  · rw [← Array.length_toList, hcode, hsize, List.length_append, List.length_append,
      length_flatMap_encode hys, length_flatMap_encode hzs, x.length_encode]

/-- A statement that does nothing and a conversion of the byte that a register points to. -/
def convertTokens : Array Token :=
  #[⟨.name, "nop", ⟨1, 1⟩⟩, ⟨.newline, "\n", ⟨1, 4⟩⟩, ⟨.name, "convert", ⟨2, 1⟩⟩,
    ⟨.dot, ".", ⟨2, 8⟩⟩, ⟨.name, "f64", ⟨2, 9⟩⟩, ⟨.colon, ":", ⟨2, 13⟩⟩, ⟨.frame, "~", ⟨2, 15⟩⟩,
    ⟨.integer, "-8", ⟨2, 16⟩⟩, ⟨.colon, ":", ⟨2, 19⟩⟩, ⟨.name, "u8", ⟨2, 21⟩⟩,
    ⟨.colon, ":", ⟨2, 24⟩⟩, ⟨.deref, "@", ⟨2, 26⟩⟩, ⟨.register, "$", ⟨2, 27⟩⟩,
    ⟨.name, "ac", ⟨2, 28⟩⟩, .endOfCode ⟨2, 30⟩]

/-- The conversion in `convertTokens`. -/
def convertSource : SourceInstruction :=
  ⟨.convert, .f64, [(.address, ⟨false, .address (.make .frameSub 8), ⟨.frame, "~", ⟨2, 15⟩⟩⟩),
    (.datatype, ⟨false, .name "u8", ⟨.name, "u8", ⟨2, 21⟩⟩⟩),
    (.value, ⟨true, .address Register.ac.address, ⟨.register, "$", ⟨2, 27⟩⟩⟩)], []⟩

theorem disassemble_render_assemble_convert :
    let o := ((Assembler.empty "m").feed convertTokens).2.object
    ∃ l ts o', disassemble o.code 4 = .ok l ∧ tokenize (l.render .empty) = .ok ts ∧
      assemble ts "n" = .ok o' ∧ o'.code.toList = o.code.read 4 l.size ∧
      o.code.size = 4 + l.size + 0 := by
  have hemissions : (Assembler.empty "m").emissions convertTokens =
      [.written ⟨.nop, .none, [], []⟩] ++ [.written convertSource] := by cbv
  have hplain : ∀ p ∈ convertSource.operands,
      (p.1.encodedDatatype convertSource.datatype p.2.deref).isFloat = false := by decide
  exact disassemble_render_assemble (.feed convertTokens .empty) (Or.inl rfl) hemissions
    (fun p hp hfloat => absurd (hfloat.symm.trans (hplain p hp)) (by decide)) (by decide) "n"

end CellMachine
