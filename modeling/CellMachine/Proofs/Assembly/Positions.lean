import CellMachine.Proofs.Assembly.Recording
import CellMachine.Proofs.Assembly.Written
import CellMachine.Proofs.Token.Lexing

/-!
# Tokens at other positions

Where a token stands in the text matters for messages only. Tokens with the same kinds and texts are
read as the same instruction (`SourceInstruction.ReadFrom.respelled`), but for the positions that
its operands keep, and that makes no difference to what is written for it
(`Asm.writeInstruction_alike`).
-/

namespace CellMachine

/-- Tokens of the same kind and text. -/
def Token.Respelled (t t' : Token) : Prop := t'.spelling = t.spelling

namespace Token.Respelled

variable {t t' : Token}

theorem kind (h : t.Respelled t') : t'.kind = t.kind := congrArg Prod.fst h

theorem text (h : t.Respelled t') : t'.text = t.text := congrArg Prod.snd h

theorem isEnd (h : t.Respelled t') : t'.isEnd = t.isEnd := by
  unfold Token.isEnd
  rw [h.kind]

end Token.Respelled

namespace Cursor

/-- The same place in a list of tokens with the same kinds and texts. -/
structure Respelled (c c' : Cursor) : Prop where
  tokens : c'.tokens.map Token.spelling = c.tokens.map Token.spelling
  pos : c'.pos = c.pos

namespace Respelled

variable {c c' : Cursor}

theorem size (h : c.Respelled c') : c'.tokens.size = c.tokens.size := by
  simpa using congrArg Array.size h.tokens

theorem getElem? (h : c.Respelled c') (i : Nat) :
    (c'.tokens[i]?).map Token.spelling = (c.tokens[i]?).map Token.spelling := by
  rw [← Array.getElem?_map, ← Array.getElem?_map, h.tokens]

theorem fallback (h : c.Respelled c') : c.fallback.Respelled c'.fallback := by
  have hback := h.getElem? (c.tokens.size - 1)
  unfold Cursor.fallback
  rw [Array.back?_eq_getElem?, Array.back?_eq_getElem?, h.size]
  cases hc : c.tokens[c.tokens.size - 1]? with
  | none =>
    rw [hc, Option.map_none, Option.map_eq_none_iff] at hback
    rw [hback]
    rfl
  | some t =>
    rw [hc, Option.map_some, Option.map_eq_some_iff] at hback
    obtain ⟨t', ht', hspelling⟩ := hback
    have hrespelled : t.Respelled t' := hspelling
    rw [ht']
    simp only [hrespelled.isEnd]
    cases t.isEnd with
    | true => exact hrespelled
    | false => rfl

theorem tokenAt (h : c.Respelled c') (i : Nat) : (c.tokenAt i).Respelled (c'.tokenAt i) := by
  have hget := h.getElem? i
  unfold Cursor.tokenAt
  cases hc : c.tokens[i]? with
  | none =>
    rw [hc, Option.map_none, Option.map_eq_none_iff] at hget
    rw [hget]
    exact h.fallback
  | some t =>
    rw [hc, Option.map_some, Option.map_eq_some_iff] at hget
    obtain ⟨t', ht', hspelling⟩ := hget
    rw [ht']
    exact hspelling

theorem current (h : c.Respelled c') : c.current.Respelled c'.current := by
  unfold Cursor.current
  rw [h.pos]
  exact h.tokenAt c.pos

theorem peek (h : c.Respelled c') : c.peek.Respelled c'.peek := by
  unfold Cursor.peek
  rw [h.pos]
  exact h.tokenAt (c.pos + 1)

theorem next (h : c.Respelled c') : c.next.Respelled c'.next := by
  unfold Cursor.next
  rw [h.pos, h.size]
  split
  · exact ⟨h.tokens, rfl⟩
  · exact h

theorem remaining (h : c.Respelled c') : c'.remaining = c.remaining := by
  unfold Cursor.remaining
  rw [h.pos, h.size]

end Respelled

end Cursor

namespace Parser

/-! ## Reading -/

variable {α β : Type}

/-- The second parser succeeds on tokens at other positions where the first does, with a value that
`V` relates. -/
def Respells (V : α → α → Prop) (p q : Parser α) : Prop :=
  ∀ ⦃c c' a d⦄, c.Respelled c' → p c = .ok a d →
    ∃ a' d', q c' = .ok a' d' ∧ V a a' ∧ d.Respelled d'

namespace Respells

variable {V : α → α → Prop} {W : β → β → Prop} {p q : Parser α}

theorem pure {a a' : α} (h : V a a') : Respells V (Pure.pure a) (Pure.pure a') := by
  intro c c' _ _ hc hok
  cases hok
  exact ⟨a', c', rfl, h, hc⟩

theorem fail (t : Token) (kind : AssemblyErrorKind) (q : Parser α) :
    Respells V (failAt t kind) q := by
  intro c c' _ _ _ hok
  cases hok

theorem bind {f g : α → Parser β} (hp : Respells V p q)
    (hf : ∀ a a', V a a' → Respells W (f a) (g a')) : Respells W (p >>= f) (q >>= g) := by
  intro c c' b d hc hok
  obtain ⟨a, c₁, ha, hb⟩ := bind_eq_ok.mp hok
  obtain ⟨a', c₁', ha', hV, hc₁⟩ := hp hc ha
  obtain ⟨b', d', hb', hW, hd⟩ := hf a a' hV hc₁ hb
  exact ⟨b', d', bind_eq_ok.mpr ⟨a', c₁', ha', hb'⟩, hW, hd⟩

/-- Where the values are the same, the same comes behind them. -/
theorem bind_eq {f g : α → Parser β} (hp : Respells Eq p q) (hf : ∀ a, Respells W (f a) (g a)) :
    Respells W (p >>= f) (q >>= g) :=
  hp.bind fun a _ h => h ▸ hf a

end Respells

theorem respells_current : Respells Token.Respelled current current := by
  intro c c' _ _ hc hok
  cases hok
  exact ⟨_, _, rfl, hc.current, hc⟩

theorem respells_peek : Respells Token.Respelled peek peek := by
  intro c c' _ _ hc hok
  cases hok
  exact ⟨_, _, rfl, hc.peek, hc⟩

theorem respells_next : Respells Eq next next := by
  intro c c' _ _ hc hok
  cases hok
  exact ⟨_, _, rfl, rfl, hc.next⟩

theorem respells_remaining : Respells Eq remaining remaining := by
  intro c c' _ _ hc hok
  cases hok
  exact ⟨_, _, rfl, hc.remaining.symm, hc⟩

theorem respells_at? (kind : TokenKind) : Respells Eq (at? kind) (at? kind) :=
  respells_current.bind fun _ _ h => .pure (by rw [h.kind])

theorem respells_take? (kind : TokenKind) : Respells Eq (take? kind) (take? kind) := by
  refine (respells_at? kind).bind_eq fun here => ?_
  cases here with
  | true => exact respells_next.bind_eq fun _ => .pure rfl
  | false => exact .pure rfl

theorem respells_expect (kind : TokenKind) (expected : String) :
    Respells Token.Respelled (expect kind expected) (expect kind expected) := by
  refine respells_current.bind fun t t' h => ?_
  rw [h.kind]
  split
  · exact respells_next.bind_eq fun _ => .pure h
  · exact .fail _ _ _

theorem respells_expectColon : Respells Eq expectColon expectColon :=
  (respells_expect _ _).bind fun _ _ _ => .pure rfl

theorem respells_expectName : Respells Eq expectName expectName :=
  (respells_expect _ _).bind fun _ _ h => .pure h.text.symm

theorem respells_dottedRest (name : String) (n : Nat) :
    Respells Eq (dottedRest name n) (dottedRest name n) := by
  induction n generalizing name with
  | zero => exact .pure rfl
  | succ n ih =>
    refine respells_current.bind fun t t' h => respells_peek.bind fun u u' hu => ?_
    rw [h.kind, hu.kind]
    split
    · refine respells_next.bind_eq fun _ => respells_current.bind fun v v' hv =>
        respells_next.bind_eq fun _ => ?_
      rw [hv.text]
      exact ih _
    · exact .pure rfl

theorem respells_dottedName : Respells Eq dottedName dottedName :=
  respells_expectName.bind_eq fun name =>
    respells_remaining.bind_eq fun n => respells_dottedRest name n

theorem respells_datatypeSuffix : Respells Eq datatypeSuffix datatypeSuffix := by
  refine (respells_expect _ _).bind fun _ _ _ => (respells_expect _ _).bind fun t t' h => ?_
  rw [h.text]
  cases Datatype.ofName? t.text with
  | some dt => exact .pure rfl
  | none => exact .fail _ _ _

theorem respells_argumentDatatype : Respells Eq argumentDatatype argumentDatatype := by
  refine (respells_expect _ _).bind fun t t' h => ?_
  rw [h.text]
  split
  · exact .fail _ _ _
  · exact .fail _ _ _
  · exact .pure rfl

theorem respells_instructionDatatype (op : Opcode) (t t' : Token) :
    Respells Eq (instructionDatatype op t) (instructionDatatype op t') := by
  refine (respells_at? _).bind_eq fun hasSuffix => ?_
  cases op.layout.rule with
  | absent =>
    cases hasSuffix with
    | true => exact .fail _ _ _
    | false => exact .pure rfl
  | required =>
    cases hasSuffix with
    | true =>
      refine respells_datatypeSuffix.bind_eq fun dt => ?_
      by_cases hdt : dt = .none
      · rw [if_pos hdt]
        exact .fail _ _ _
      · rw [if_neg hdt, if_neg hdt]
        exact .pure rfl
    | false => exact .fail _ _ _
  | optional =>
    cases hasSuffix with
    | true => exact respells_datatypeSuffix
    | false => exact .pure rfl

theorem respells_register : Respells Eq register register := by
  refine respells_next.bind_eq fun _ => (respells_expect _ _).bind fun t t' h => ?_
  rw [h.text]
  cases Register.ofName? t.text with
  | some r => exact .pure rfl
  | none => exact .fail _ _ _

theorem respells_frameSlot : Respells Eq frameSlot frameSlot := by
  refine respells_next.bind_eq fun _ => (respells_expect _ _).bind fun t t' h => ?_
  rw [h.text]
  cases IntLiteral.ofText? t.text with
  | some l => exact .pure rfl
  | none => exact .fail _ _ _

theorem respells_term : Respells Eq term term := by
  refine respells_current.bind fun t t' h => ?_
  rw [h.kind, h.text]
  cases t.kind with
  | register => exact respells_register
  | frame => exact respells_frameSlot
  | name => exact respells_dottedName.bind_eq fun _ => .pure rfl
  | string => exact respells_next.bind_eq fun _ => .pure rfl
  | float =>
    refine respells_next.bind_eq fun _ => ?_
    cases floatLiteral? t.text with
    | some word => exact .pure rfl
    | none => exact .fail _ _ _
  | integer =>
    refine respells_next.bind_eq fun _ => ?_
    cases IntLiteral.ofText? t.text with
    | some l => exact .pure rfl
    | none => exact .fail _ _ _
  | _ => exact .fail _ _ _

end Parser

/-- Operands that differ only in where they were written. -/
structure SourceOperand.Alike (o o' : SourceOperand) : Prop where
  deref : o'.deref = o.deref
  term : o'.term = o.term

/-- Operands in the same roles that differ only in where they were written. -/
abbrev OperandAlike : Role × SourceOperand → Role × SourceOperand → Prop :=
  Asm.InRole SourceOperand.Alike

/-- Instructions that differ only in where they were written. -/
structure SourceInstruction.Alike (j j' : SourceInstruction) : Prop where
  opcode : j'.opcode = j.opcode
  datatype : j'.datatype = j.datatype
  fixed : List.Forall₂ OperandAlike j.fixed j'.fixed
  args : List.Forall₂ OperandAlike j.args j'.args

theorem operandAlike_symm {p q : Role × SourceOperand} (h : OperandAlike p q) : OperandAlike q p :=
  ⟨h.role.symm, h.operand.deref.symm, h.operand.term.symm⟩

theorem SourceInstruction.Alike.symm {j j' : SourceInstruction} (h : j.Alike j') : j'.Alike j where
  opcode := h.opcode.symm
  datatype := h.datatype.symm
  fixed := h.fixed.flip.imp fun _ _ => operandAlike_symm
  args := h.args.flip.imp fun _ _ => operandAlike_symm

namespace Parser

theorem respells_operand : Respells SourceOperand.Alike operand operand := by
  have hbehind (deref : Bool) : Respells SourceOperand.Alike
      (do
        let token ← current
        return (⟨deref, ← term, token⟩ : SourceOperand))
      (do
        let token ← current
        return (⟨deref, ← term, token⟩ : SourceOperand)) :=
    respells_current.bind fun _ _ _ => respells_term.bind_eq fun _ => .pure ⟨rfl, rfl⟩
  refine (respells_at? _).bind_eq fun deref => ?_
  cases deref with
  | true => exact respells_next.bind_eq fun _ => hbehind true
  | false => exact hbehind false

theorem respells_sourceOperands (roles : List Role) :
    Respells (List.Forall₂ OperandAlike) (sourceOperands roles) (sourceOperands roles) := by
  induction roles with
  | nil => exact .pure .nil
  | cons role rest ih =>
    exact respells_expectColon.bind_eq fun _ => respells_operand.bind fun _ _ ho =>
      ih.bind fun _ _ hrest => .pure (.cons ⟨rfl, ho⟩ hrest)

theorem respells_sourceArguments (n : Nat) :
    Respells (List.Forall₂ OperandAlike) (sourceArguments n) (sourceArguments n) := by
  induction n with
  | zero => exact .pure .nil
  | succ n ih =>
    refine (respells_take? _).bind_eq fun more => ?_
    cases more with
    | true =>
      exact respells_argumentDatatype.bind_eq fun _ => respells_operand.bind fun _ _ ho =>
        ih.bind fun _ _ hrest => .pure (.cons ⟨rfl, ho⟩ hrest)
    | false => exact .pure .nil

theorem respells_sourceInstruction (op : Opcode) :
    Respells SourceInstruction.Alike (sourceInstruction op) (sourceInstruction op) :=
  respells_current.bind fun _ _ _ => respells_next.bind_eq fun _ =>
    (respells_instructionDatatype op _ _).bind_eq fun _ =>
      (respells_sourceOperands _).bind fun _ _ hfixed =>
        (respells_sourceArguments _).bind fun _ _ hargs => .pure ⟨rfl, rfl, hfixed, hargs⟩

end Parser

/-- Tokens with the same kinds and texts are read as the same instruction. -/
theorem SourceInstruction.ReadFrom.respelled {j : SourceInstruction} {ts ts' : List Token}
    (h : j.ReadFrom ts) (hts : ts'.map Token.spelling = ts.map Token.spelling) :
    ∃ j', j.Alike j' ∧ j'.ReadFrom ts' := by
  obtain ⟨t, ht, hname, hop⟩ := h.name
  obtain ⟨d, hreads, hend⟩ := h.reads
  have hcursor : Cursor.Respelled ⟨ts.toArray.push (.endOfCode .start), 0⟩
      ⟨ts'.toArray.push (.endOfCode .start), 0⟩ := ⟨by simp [hts], rfl⟩
  obtain ⟨j', d', hreads', halike, hd⟩ := Parser.respells_sourceInstruction j.opcode hcursor hreads
  have hhead : ∃ t', ts'.head? = some t' ∧ t.Respelled t' := by
    have hhead := congrArg List.head? hts
    rw [List.head?_map, List.head?_map, ht, Option.map_some, Option.map_eq_some_iff] at hhead
    exact hhead
  obtain ⟨t', ht', hspelled⟩ := hhead
  refine ⟨j', halike, ⟨t', ht', hspelled.kind.trans hname, ?_⟩, ⟨d', ?_, ?_⟩⟩
  · rw [hspelled.text, halike.opcode, hop]
  · rw [halike.opcode]
    exact hreads'
  · have hlength := congrArg List.length hts
    rw [List.length_map, List.length_map] at hlength
    rw [hd.pos, hend, hlength]

/-! ## Writing -/

namespace Assembler

/-- The same assembler, but for where its references were written. -/
def Repositioned (s t : Assembler) : Prop :=
  ∃ ps : List Position, t = { s with positions := ps } ∧ ps.length = s.positions.length

end Assembler

namespace Asm

open Assembler (Repositioned)

theorem repositioned_modify {f : Assembler → Assembler}
    (hf : ∀ s ps, f { s with positions := ps } = { f s with positions := ps })
    (hpositions : ∀ s, (f s).positions = s.positions) :
    Echoes Repositioned (modify f : Asm Unit) (modify f : Asm Unit) := by
  rintro s _ ⟨ps, rfl, hlength⟩ _ _ hok
  cases hok
  exact ⟨_, rfl, ps, hf s ps, by rw [hpositions, hlength]⟩

theorem value?_of_alike {o o' : SourceOperand} {dt : Datatype} {v : Value} (h : o.Alike o')
    (hv : o.value? dt = .ok v) : o'.value? dt = .ok v := by
  unfold SourceOperand.value? at hv ⊢
  rw [h.term, h.deref]
  cases hterm : o.term with
  | integer l =>
    simp only [hterm] at hv ⊢
    split at hv
    · cases hv
    · next hnegative =>
      rw [if_neg hnegative]
      cases hvalue : l.toValue? dt with
      | some w =>
        rw [hvalue] at hv
        exact hv
      | none =>
        rw [hvalue] at hv
        cases hv
  | _ =>
    simp only [hterm] at hv ⊢
    exact hv

theorem literalValue_alike {o o' : SourceOperand} (h : o.Alike o') (dt : Datatype) :
    Echoes Repositioned (liftM (Parser.literalValue o dt) : Asm Value)
      (liftM (Parser.literalValue o' dt) : Asm Value) := by
  intro s t hst v s' hok
  obtain ⟨hvalue, rfl⟩ := literalValue_eq_ok.mp hok
  exact ⟨t, literalValue_eq_ok.mpr ⟨value?_of_alike h hvalue, rfl⟩, hst⟩

theorem repositioned_refer (o o' : SourceOperand) (name : String) (offset : Nat) (dt : Datatype) :
    Echoes Repositioned (refer o name offset dt) (refer o' name offset dt) := by
  rintro s _ ⟨ps, rfl, hlength⟩
  exact .ok _ ⟨ps ++ [o'.token.position], rfl, by simp [hlength]⟩

theorem repositioned_storeText (text : String) :
    Echoes Repositioned (storeText text) (storeText text) := by
  rintro s _ ⟨ps, rfl, hlength⟩
  exact .ok _ ⟨ps, rfl, hlength⟩

/-- Where an operand was written is kept for a reference to it and makes no other difference. -/
theorem pairsWriting_repositioned : PairsWriting Repositioned
    (fun {α} (x y : Asm α) => Echoes Repositioned x y) SourceOperand.Alike where
  toRelator := Echoes.relator _
  term h := h.term
  deref h := h.deref
  codeSize := by rintro s _ ⟨ps, rfl, -⟩; rfl
  failAt _ _ := fun _ _ _ => .error _ _ _
  failHere _ := fun _ _ _ => .error _ _ _
  literalValue dt h := literalValue_alike h dt
  emit _ := repositioned_modify (fun _ _ => rfl) fun _ => rfl
  refer offset dt _ _ := repositioned_refer _ _ _ offset dt
  storeText := repositioned_storeText
  relocate _ := repositioned_modify (fun _ _ => rfl) fun _ => rfl
  overwriteCode _ _ := repositioned_modify (fun _ _ => rfl) fun _ => rfl

/-- Where an instruction was written makes no difference to the code. -/
theorem writeInstruction_alike {j j' : SourceInstruction} (h : j.Alike j') :
    Echoes Repositioned (writeInstruction j) (writeInstruction j') :=
  pairsWriting_repositioned.writeInstruction h.opcode h.datatype h.fixed h.args

end Asm

end CellMachine
