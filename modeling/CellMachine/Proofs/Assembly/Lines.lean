import CellMachine.Proofs.Assembly.Increment
import CellMachine.Proofs.Assembly.Reading
import CellMachine.Proofs.Assembly.Written

/-!
# Lines one behind the other

`Assembler.Leads lines a b` says that some lines take an assembler from `a` to `b`, wherever they
stand. Lines that lead on from each other lead on together (`Assembler.Leads.append`). So what a
module becomes that has an instruction between other lines is known from what the instruction
writes (`assemble_eq_ok_iff_of_leads`).
-/

namespace CellMachine

/-- The tokens of a line and of what comes behind it. -/
def StartsLine (ts : List Token) : Prop := ∃ t rest, ts = t :: rest ∧ t.kind ≠ .newline

theorem startsLine_endOfCode (p : Position) : StartsLine [.endOfCode p] :=
  ⟨_, _, rfl, show TokenKind.endOfCode ≠ .newline by decide⟩

namespace Assembler

/-- The same assembler, with its cursor anywhere. -/
def Like (a s : Assembler) : Prop := ∃ c, s = a.movedTo c

/-- The lines take every assembler that is like `a` to one like `b`. -/
structure Leads (lines : List Token) (a b : Assembler) : Prop where
  starts : ∀ rest, StartsLine rest → StartsLine (lines ++ rest)
  run : ∀ s rest, StartsLine rest → a.Like s → s.onLine.cursor.InFrontOf (lines ++ rest) →
    ∃ t, Relation.ReflTransGen Takes s t ∧ b.Like t ∧ t.onLine.cursor.InFrontOf rest

variable {a b s t u : Assembler} {lines more rest ts : List Token} {e : Token}

theorem Leads.nil (a : Assembler) : Leads [] a a where
  starts _ h := h
  run s _ _ hs hfront := ⟨s, .refl, hs, hfront⟩

theorem Leads.append (h : Leads lines a b) (h' : Leads more b u) : Leads (lines ++ more) a u where
  starts rest hrest := by
    rw [List.append_assoc]
    exact h.starts _ (h'.starts rest hrest)
  run s rest hrest hs hfront := by
    rw [List.append_assoc] at hfront
    obtain ⟨s₁, hrun, hs₁, hfront₁⟩ := h.run s _ (h'.starts rest hrest) hs hfront
    obtain ⟨s₂, hrun', hs₂, hfront₂⟩ := h'.run s₁ rest hrest hs₁ hfront₁
    exact ⟨s₂, hrun.trans hrun', hs₂, hfront₂⟩

theorem onLine_of_inFrontOf (hfront : s.cursor.InFrontOf ts) (hts : StartsLine ts) :
    s.onLine = s := by
  obtain ⟨t, rest, rfl, hkind⟩ := hts
  have hcursor : s.cursor.skipNewlines = s.cursor :=
    Cursor.skipNewlines_of_ne (by rwa [hfront.current])
  unfold onLine
  rw [hcursor]

variable {t₁ t₂ : Token} {c : Cursor} {l : IntLiteral}

/-- Behind a line there is the next one. -/
theorem skipNewlines_inFrontOf (hfront : c.InFrontOf (e :: rest)) (he : e.kind = .newline)
    (hrest : StartsLine rest) : c.skipNewlines.InFrontOf rest := by
  obtain ⟨t, more, rfl, hkind⟩ := hrest
  rw [Cursor.skipNewlines_of_eq (by rw [hfront.current, he]),
    Cursor.skipNewlines_of_ne (by rwa [hfront.next.current])]
  exact hfront.next

/-- A line is taken if its statement is. -/
theorem Leads.of_statement (ts : List Token) {t : Token} (ht : t.endsStatement = false)
    (he : e.kind = .newline)
    (hbody : ∀ s rest, a.Like s → s.cursor.InFrontOf (t :: (ts ++ e :: rest)) →
      ∃ s₁, Asm.statementBody (Asm.expansion maxDepth) s = .ok () s₁ ∧ b.Like s₁ ∧
        s₁.cursor.InFrontOf (e :: rest)) :
    Leads (t :: (ts ++ [e])) a { b with statements := b.statements + 1 } where
  starts rest _ := by
    refine ⟨t, ts ++ [e] ++ rest, rfl, fun hkind => ?_⟩
    simp [Token.endsStatement, hkind] at ht
  run s rest hrest hs hfront := by
    rw [List.cons_append, List.append_assoc, List.singleton_append] at hfront
    have hline : a.Like s.onLine := by
      obtain ⟨c, rfl⟩ := hs
      exact ⟨c.skipNewlines, rfl⟩
    obtain ⟨s₁, hs₁, ⟨c, rfl⟩, hfront₁⟩ := hbody s.onLine rest hline hfront
    have hatEnd : s.onLine.cursor.atEnd = false := by
      unfold Cursor.atEnd
      rw [hfront.current]
      exact (Bool.or_eq_false_iff.mp ht).2
    have hends : (b.movedTo c).cursor.current.endsStatement = true := by
      rw [hfront₁.current]
      simp [Token.endsStatement, he]
    refine ⟨_, .single ⟨_, hatEnd, Asm.statement_eq_ok hs₁ hends, rfl⟩, ⟨c.skipNewlines, rfl⟩, ?_⟩
    change c.skipNewlines.skipNewlines.InFrontOf rest
    rw [Cursor.skipNewlines_skipNewlines]
    exact skipNewlines_inFrontOf hfront₁ he hrest

/-! ## Directives -/

/-- `#scope name`. -/
def scopeLine (name : String) : List (TokenKind × String) :=
  [(.directive, "#"), (.name, "scope"), (.name, name), (.newline, "\n")]

/-- `#end`. -/
def endLine : List (TokenKind × String) := [(.directive, "#"), (.name, "end"), (.newline, "\n")]

/-- `#alias name : number`. -/
def aliasLine (name number : String) : List (TokenKind × String) :=
  [(.directive, "#"), (.name, "alias"), (.name, name), (.colon, ":"), (.integer, number),
    (.newline, "\n")]

/-- Behind its mark a directive is known by its name. -/
theorem statementBody_directive {expand : Asm Unit} (hfront : s.cursor.InFrontOf (t₁ :: t₂ :: ts))
    (hmark : t₁.kind = .directive) (hname : t₂.kind = .name) :
    Asm.statementBody expand s = Asm.directiveNamed t₂ (s.movedTo s.cursor.next.next) := by
  have hbody : Asm.statementBody expand s = Asm.directive (s.movedTo s.cursor.next) := by
    rw [Asm.statementBody, Asm.current_bind, hfront.current, hmark]
    rfl
  have hexpect : Parser.expect .name "a directive name" s.cursor.next =
      .ok t₂ s.cursor.next.next := by
    refine bind_eq_ok.mpr ⟨_, _, rfl, ?_⟩
    rw [hfront.next.current, if_pos (beq_iff_eq.mpr hname)]
    rfl
  rw [hbody, Asm.directive]
  exact Asm.ofParser_bind_of_ok (s := s.movedTo s.cursor.next) hexpect _

/-- A line with a directive is taken if what the directive is known for can be done. -/
theorem Leads.of_directive (action : Asm Unit) (ts : List Token) {word : String}
    (h₁ : t₁.spelling = (.directive, "#")) (h₂ : t₂.spelling = (.name, word))
    (he : e.spelling = (.newline, "\n")) (haction : Asm.directiveNamed t₂ = action)
    (hrun : ∀ c rest, c.InFrontOf (ts ++ e :: rest) →
      ∃ c', action (a.movedTo c) = .ok () (b.movedTo c') ∧ c'.InFrontOf (e :: rest))
    : Leads (t₁ :: t₂ :: (ts ++ [e])) a { b with statements := b.statements + 1 } := by
  have hmark : t₁.kind = .directive := congrArg Prod.fst h₁
  refine Leads.of_statement (t₂ :: ts) (Token.endsStatement_of_kind hmark (by decide))
    (congrArg Prod.fst he) fun s rest hs hfront => ?_
  obtain ⟨c, rfl⟩ := hs
  obtain ⟨c', hok, hbehind⟩ := hrun c.next.next rest hfront.next.next
  rw [statementBody_directive hfront hmark (congrArg Prod.fst h₂), haction]
  exact ⟨_, hok, ⟨c', rfl⟩, hbehind⟩

theorem leads_scopeLine {name : String} (h : lines.map Token.spelling = scopeLine name)
    (a : Assembler) : Leads lines a
      { a with scopes := ⟨name, none⟩ :: a.scopes, statements := a.statements + 1 } := by
  obtain ⟨t₁, _, rfl, h₁, h⟩ := List.map_eq_cons_iff.mp h
  obtain ⟨t₂, _, rfl, h₂, h⟩ := List.map_eq_cons_iff.mp h
  obtain ⟨t₃, _, rfl, h₃, h⟩ := List.map_eq_cons_iff.mp h
  obtain ⟨e, _, rfl, he, h⟩ := List.map_eq_cons_iff.mp h
  cases List.map_eq_nil_iff.mp h
  have htext : t₂.text = "scope" := congrArg Prod.snd h₂
  have hkind : t₃.kind = .name := congrArg Prod.fst h₃
  have hname : t₃.text = name := congrArg Prod.snd h₃
  refine Leads.of_directive (b := { a with scopes := ⟨name, none⟩ :: a.scopes }) Asm.openScope [t₃]
    h₁ h₂ he (by simp [Asm.directiveNamed, htext]) fun c rest hfront => ?_
  have hscope : Parser.scopeName c = .ok name c.next := by
    refine bind_eq_ok.mpr ⟨_, _, rfl, ?_⟩
    rw [hfront.current, if_pos (beq_iff_eq.mpr hkind), hname]
    rfl
  exact ⟨c.next, Asm.ofParser_bind_of_ok (s := a.movedTo c) hscope _, hfront.next⟩

theorem leads_endLine {scope : Scope} {scopes : List Scope} (h : lines.map Token.spelling = endLine)
    (ha : a.scopes = scope :: scopes) :
    Leads lines a { a with scopes := scopes, statements := a.statements + 1 } := by
  obtain ⟨t₁, _, rfl, h₁, h⟩ := List.map_eq_cons_iff.mp h
  obtain ⟨t₂, _, rfl, h₂, h⟩ := List.map_eq_cons_iff.mp h
  obtain ⟨e, _, rfl, he, h⟩ := List.map_eq_cons_iff.mp h
  cases List.map_eq_nil_iff.mp h
  have htext : t₂.text = "end" := congrArg Prod.snd h₂
  refine Leads.of_directive (b := { a with scopes := scopes }) Asm.closeScope [] h₁ h₂ he
    (by simp [Asm.directiveNamed, htext]) fun c rest hfront => ?_
  have hscopes : (a.movedTo c).scopes = scope :: scopes := ha
  refine ⟨c, ?_, hfront⟩
  rw [Asm.closeScope, get_bind_apply, hscopes]
  rfl

/-- The operand of an alias is read as the number that it is. -/
theorem operand_of_integer {t : Token} (hfront : c.InFrontOf (t :: rest))
    (hkind : t.kind = .integer) (hnumber : IntLiteral.ofText? t.text = some l) :
    Parser.operand c = .ok ⟨false, .integer l, t⟩ c.next := by
  have hterm : Parser.term c = .ok (.integer l) c.next := by
    refine bind_eq_ok.mpr ⟨_, _, rfl, ?_⟩
    rw [hfront.current, hkind]
    refine bind_eq_ok.mpr ⟨(), c.next, rfl, ?_⟩
    rw [hnumber]
    rfl
  refine bind_eq_ok.mpr ⟨_, _, rfl, ?_⟩
  rw [hfront.current, hkind]
  refine bind_eq_ok.mpr ⟨t, c, congrArg (EStateM.Result.ok · c) hfront.current, ?_⟩
  exact bind_eq_ok.mpr ⟨_, _, hterm, rfl⟩

theorem expect_of_inFrontOf {t : Token} {kind : TokenKind} (expected : String)
    (hfront : c.InFrontOf (t :: rest)) (hkind : t.kind = kind) :
    Parser.expect kind expected c = .ok t c.next := by
  refine bind_eq_ok.mpr ⟨_, _, rfl, ?_⟩
  rw [hfront.current, if_pos (beq_iff_eq.mpr hkind)]
  rfl

theorem aliasDirective_of_inFrontOf {x : String} {t₃ : Token} {v : Value}
    (hfront : s.cursor.InFrontOf (t₁ :: t₂ :: t₃ :: rest)) (hname : t₁.spelling = (.name, x))
    (hcolon : t₂.kind = .colon) (hkind : t₃.kind = .integer)
    (hnumber : IntLiteral.ofText? t₃.text = some l) (hv : l.toValue? .i64 = some v)
    (hnew : s.index.contains (qualify s.path x) = false) :
    Asm.aliasDirective s = .ok () ((s.movedTo s.cursor.next.next.next).withSymbol
      ⟨qualify s.path x, .alias, v⟩) := by
  have hx : Parser.expectName s.cursor = .ok x s.cursor.next :=
    bind_eq_ok.mpr ⟨t₁, _, expect_of_inFrontOf _ hfront (congrArg Prod.fst hname),
      congrArg (EStateM.Result.ok · _) (congrArg Prod.snd hname)⟩
  have hdatatype : Parser.optionalDatatype s.cursor.next = .ok none s.cursor.next := by
    refine bind_eq_ok.mpr ⟨_, _, rfl, ?_⟩
    rw [hfront.next.current, hcolon]
    rfl
  have hcolon : Parser.expectColon s.cursor.next = .ok () s.cursor.next.next :=
    bind_eq_ok.mpr ⟨t₂, _, expect_of_inFrontOf _ hfront.next hcolon, rfl⟩
  have hoperand := operand_of_integer hfront.next.next hkind hnumber
  generalize s.cursor.next.next.next = c at hoperand ⊢
  have hvalue : Asm.aliasValue ⟨false, .integer l, t₃⟩ none (s.movedTo c) = .ok v (s.movedTo c) :=
    Asm.literalValue_eq_ok.mpr ⟨by simp [SourceOperand.value?, hv], rfl⟩
  have hdefine : Asm.define x .alias v (s.movedTo c) =
      .ok () ((s.movedTo c).withSymbol ⟨qualify s.path x, .alias, v⟩) := by
    have hnew : ¬ (s.movedTo c).index.contains (qualify (s.movedTo c).path x) = true :=
      Bool.eq_false_iff.mp hnew
    rw [Asm.define, get_bind_apply, if_neg hnew]
    rfl
  exact Asm.ofParser_bind_eq_ok.mpr ⟨_, _, hx, Asm.ofParser_bind_eq_ok.mpr ⟨_, _, hdatatype,
    Asm.ofParser_bind_eq_ok.mpr ⟨_, _, hcolon, Asm.ofParser_bind_eq_ok.mpr ⟨_, _, hoperand,
      bind_eq_ok.mpr ⟨v, _, hvalue, hdefine⟩⟩⟩⟩⟩

theorem leads_aliasLine {x number : String} {v : Value}
    (h : lines.map Token.spelling = aliasLine x number)
    (hnumber : IntLiteral.ofText? number = some l) (hv : l.toValue? .i64 = some v)
    (hnew : a.index.contains (qualify a.path x) = false) :
    Leads lines a { a.withSymbol ⟨qualify a.path x, .alias, v⟩ with
      statements := a.statements + 1 } := by
  obtain ⟨t₁, _, rfl, h₁, h⟩ := List.map_eq_cons_iff.mp h
  obtain ⟨t₂, _, rfl, h₂, h⟩ := List.map_eq_cons_iff.mp h
  obtain ⟨t₃, _, rfl, h₃, h⟩ := List.map_eq_cons_iff.mp h
  obtain ⟨t₄, _, rfl, h₄, h⟩ := List.map_eq_cons_iff.mp h
  obtain ⟨t₅, _, rfl, h₅, h⟩ := List.map_eq_cons_iff.mp h
  obtain ⟨e, _, rfl, he, h⟩ := List.map_eq_cons_iff.mp h
  cases List.map_eq_nil_iff.mp h
  have htext : t₂.text = "alias" := congrArg Prod.snd h₂
  have hnumber : IntLiteral.ofText? t₅.text = some l := by
    rw [show t₅.text = number from congrArg Prod.snd h₅, hnumber]
  refine Leads.of_directive (b := a.withSymbol ⟨qualify a.path x, .alias, v⟩) Asm.aliasDirective
    [t₃, t₄, t₅] h₁ h₂ he (by simp [Asm.directiveNamed, htext]) fun c rest hfront => ?_
  have hdefine := aliasDirective_of_inFrontOf (s := a.movedTo c) hfront h₃
    (congrArg Prod.fst h₄) (congrArg Prod.fst h₅) hnumber hv hnew
  exact ⟨c.next.next.next, hdefine, hfront.next.next.next⟩

/-- Lines that open scopes, the outermost first. -/
theorem leads_scopeLines {path : List String} (a : Assembler)
    (h : lines.map Token.spelling = path.flatMap scopeLine) : Leads lines a { a with
      scopes := (path.map fun name => (⟨name, none⟩ : Scope)).reverse ++ a.scopes
      statements := a.statements + path.length } := by
  induction path generalizing lines a with
  | nil =>
    cases List.map_eq_nil_iff.mp h
    exact .nil a
  | cons name path ih =>
    obtain ⟨line, more, rfl, hline, hmore⟩ := List.map_eq_append_iff.mp h
    have hleads := (leads_scopeLine hline a).append (ih _ hmore)
    simpa [Nat.add_assoc, Nat.add_comm 1] using hleads

/-- Lines that close scopes. -/
theorem leads_endLines {scopes : List Scope} (n : Nat)
    (h : lines.map Token.spelling = (List.replicate n endLine).flatten)
    (ha : (a.scopes.drop n) = scopes) (hn : n ≤ a.scopes.length) :
    Leads lines a { a with scopes := scopes, statements := a.statements + n } := by
  induction n generalizing lines a with
  | zero =>
    cases List.map_eq_nil_iff.mp h
    cases ha
    exact .nil a
  | succ n ih =>
    rw [List.replicate_succ, List.flatten_cons] at h
    obtain ⟨line, more, rfl, hline, hmore⟩ := List.map_eq_append_iff.mp h
    cases hscopes : a.scopes with
    | nil => simp [hscopes] at hn
    | cons scope rest =>
      rw [hscopes, List.drop_succ_cons] at ha
      rw [hscopes, List.length_cons] at hn
      have hleads := (leads_endLine hline hscopes).append
        (ih hmore ha (Nat.le_of_succ_le_succ hn))
      simpa [Nat.add_assoc, Nat.add_comm 1] using hleads

/-! ## Instructions -/

section

variable {j : SourceInstruction} (hread : j.ReadFrom ts)
include hread

/-- An instruction in front of the end of its statement is what is written for it. -/
theorem statementBody_eq_ok_iff (he : e.endsStatement = true) (expand : Asm Unit) {c : Cursor}
    (hfront : c.InFrontOf (ts ++ e :: rest)) :
    ∃ c', c'.InFrontOf (e :: rest) ∧ ∀ s₁, Asm.statementBody expand (a.movedTo c) = .ok () s₁ ↔
      ∃ b, Asm.writeInstruction j a = .ok () b ∧ s₁ = b.movedTo c' := by
  obtain ⟨c', hreads, hbehind⟩ := hread.sourceInstruction he hfront
  obtain ⟨hkind, hname⟩ := hread.current hfront
  have hbody : Asm.statementBody expand (a.movedTo c) =
      Asm.instruction j.opcode (a.movedTo c) := by
    have hkind : (a.movedTo c).cursor.current.kind = .name := hkind
    have hname : Opcode.ofName? (a.movedTo c).cursor.current.text = some j.opcode := hname
    rw [Asm.statementBody, Asm.current_bind, hkind]
    simp only [hname]
  have hcolon : c'.current.kind ≠ .colon := by
    rw [hbehind.current]
    intro hcolon
    simp [Token.endsStatement, hcolon] at he
  refine ⟨c', hbehind, fun s₁ => ?_⟩
  rw [hbody, Asm.instruction_eq_ok_iff (s := a.movedTo c) hreads hcolon, movedTo_movedTo]
  constructor
  · intro h
    obtain ⟨hcursor, hblind⟩ := (Asm.blind_writeInstruction j).of_ok h
    refine ⟨s₁.movedTo a.cursor, hblind a.cursor, ?_⟩
    rw [movedTo_movedTo, show c' = s₁.cursor from hcursor.symm, movedTo_cursor]
  · rintro ⟨b, hb, rfl⟩
    exact ((Asm.blind_writeInstruction j).of_ok hb).2 c'

theorem leads_instruction (he : e.kind = .newline) (hwrite : Asm.writeInstruction j a = .ok () b) :
    Leads (ts ++ [e]) a { b with statements := b.statements + 1 } := by
  obtain ⟨t, ht, hname, -⟩ := hread.name
  obtain ⟨ts, rfl⟩ := List.head?_eq_some_iff.mp ht
  refine Leads.of_statement ts (Token.endsStatement_of_kind hname (by decide)) he
    fun s rest hs hfront => ?_
  obtain ⟨c, rfl⟩ := hs
  obtain ⟨c', hbehind, hbody⟩ := statementBody_eq_ok_iff (a := a) hread
    (by simp [Token.endsStatement, he]) _ hfront
  exact ⟨_, (hbody _).mpr ⟨b, hwrite, rfl⟩, ⟨c', rfl⟩, hbehind⟩

/-- The last statement of a module leads to the end of its tokens. -/
theorem takes_instruction {stop : Position} (hwrite : Asm.writeInstruction j a = .ok () b)
    (hs : a.Like s) (hfront : s.onLine.cursor.InFrontOf (ts ++ [.endOfCode stop])) :
    ∃ t, Takes s t ∧ Like { b with statements := b.statements + 1 } t ∧
      t.onLine.cursor.InFrontOf [.endOfCode stop] := by
  obtain ⟨c, rfl⟩ := hs
  obtain ⟨c', hbehind, hbody⟩ := statementBody_eq_ok_iff (a := a) (e := .endOfCode stop) hread rfl
    (Asm.expansion maxDepth) hfront
  have hends : (b.movedTo c').cursor.current.endsStatement = true := by
    rw [show (b.movedTo c').cursor.current = _ from hbehind.current]
    rfl
  have hatEnd : (a.movedTo c).onLine.cursor.atEnd = false := by
    unfold Cursor.atEnd
    rw [Token.isEnd, (hread.current hfront).1]
    rfl
  have hstay : c'.skipNewlines = c' := Cursor.skipNewlines_of_ne (by
    rw [hbehind.current]
    exact (by decide : TokenKind.endOfCode ≠ .newline))
  refine ⟨_, ⟨_, hatEnd, Asm.statement_eq_ok ((hbody _).mpr ⟨b, hwrite, rfl⟩) hends, rfl⟩,
    ⟨c'.skipNewlines, rfl⟩, ?_⟩
  change c'.skipNewlines.skipNewlines.InFrontOf _
  rwa [hstay, hstay]

/-- A run through an instruction has written it. -/
theorem exists_write_of_completes (he : e.endsStatement = true) (hs : a.Like s)
    (hfront : s.onLine.cursor.InFrontOf (ts ++ e :: rest)) (h : s.Completes u) :
    ∃ b, Asm.writeInstruction j a = .ok () b := by
  obtain ⟨c, rfl⟩ := hs
  obtain ⟨t, ht, hname, -⟩ := hread.name
  obtain ⟨ts, rfl⟩ := List.head?_eq_some_iff.mp ht
  obtain ⟨c', hbehind, hbody⟩ := statementBody_eq_ok_iff (a := a) hread he
    (Asm.expansion maxDepth) hfront
  cases h with
  | done hend =>
    unfold Cursor.atEnd at hend
    rw [hfront.current, Token.isEnd, hname] at hend
    cases hend
  | take htake _ =>
    obtain ⟨s₁, -, hstatement, -⟩ := htake
    obtain ⟨_, s₂, hbody', -⟩ := bind_eq_ok.mp hstatement
    obtain ⟨b, hb, -⟩ := (hbody s₂).mp hbody'
    exact ⟨b, hb⟩

end

/-! ## Modules -/

/-- Statements that were taken are no more part of the run that is left. -/
theorem completes_iff_of_takes (h : Relation.ReflTransGen Takes s t) :
    s.Completes u ↔ t.Completes u := by
  induction h with
  | refl => exact Iff.rfl
  | @tail t t' _ htake ih =>
    refine ih.trans ⟨fun hrun => ?_, .take htake⟩
    cases hrun with
    | done hend =>
      obtain ⟨_, hatEnd, -⟩ := htake
      exact absurd hend (by simp [hatEnd])
    | take htake' hrest => exact htake.unique htake' ▸ hrest

theorem completes_iff_of_inFrontOf {stop : Position}
    (hfront : s.onLine.cursor.InFrontOf [.endOfCode stop]) : s.Completes u ↔ u = s.onLine := by
  have hend : s.onLine.cursor.atEnd = true := by
    unfold Cursor.atEnd
    rw [hfront.current]
    rfl
  constructor
  · intro h
    cases h with
    | done _ => rfl
    | take htake _ =>
      obtain ⟨_, hatEnd, -⟩ := htake
      simp [hend] at hatEnd
  · rintro rfl
    exact .done hend

/-- References are bound by what is found for them only. -/
theorem bindReferences_congr (h : s.lookup = t.lookup) (pending : List (Reference × Position))
    (o : Object) : s.bindReferences o pending = t.bindReferences o pending := by
  induction pending generalizing o with
  | nil => rfl
  | cons p rest ih =>
    obtain ⟨r, position⟩ := p
    unfold bindReferences
    simp only [h, ih]

theorem finish_eq_ok_iff {o : Object} : s.finish = .ok o ↔ s.scopes = [] ∧
    s.bindReferences { s.object with unresolved := [] } (s.object.unresolved.zip s.positions) =
      .ok o := by
  unfold finish
  cases s.scopes with
  | nil => simp
  | cons scope scopes => simp

theorem finish_movedTo {o : Object} (a : Assembler) (c : Cursor) :
    (a.movedTo c).finish = .ok o ↔ a.finish = .ok o := by
  rw [finish_eq_ok_iff, finish_eq_ok_iff, bindReferences_congr (s := a.movedTo c) (t := a) rfl]
  rfl

/-- The assembler in front of the tokens of a module. -/
theorem onLine_fedWith (name : String) (hts : StartsLine ts) :
    ((empty name).fedWith ts.toArray).onLine.cursor.InFrontOf ts := by
  have hfront : ((empty name).fedWith ts.toArray).cursor.InFrontOf ts := rfl
  rwa [onLine_of_inFrontOf hfront hts]

theorem like_fedWith (name : String) (tokens : Array Token) :
    (empty name).Like ((empty name).fedWith tokens) := ⟨_, rfl⟩

end Assembler

section

open Assembler

variable {a : Assembler} {front back lines ts : List Token} {e : Token} {stop : Position}
  {name : String} {o : Object}

theorem assemble_eq_ok_iff {tokens : Array Token} : assemble tokens name = .ok o ↔
    ∃ s, ((Assembler.empty name).fedWith tokens).Completes s ∧ s.finish = .ok o := by
  have hsettled : (Assembler.empty name).Settled := (Reachable.empty : Reachable name _).settled
  have hfeed (s : Assembler) : (Assembler.empty name).feed tokens = (.ok (), s) ↔
      ((Assembler.empty name).fedWith tokens).Completes s := feed_eq_ok_iff hsettled
  simp only [← hfeed]
  unfold assemble
  cases (Assembler.empty name).feed tokens with
  | mk r s =>
    cases r with
    | ok _ => simp
    | error _ => simp

/-- A module of lines that lead to an assembler is what that makes of it. -/
theorem assemble_of_leads (h : Leads lines (.empty name) a) :
    assemble (lines ++ [Token.endOfCode stop]).toArray name = .ok o ↔ a.finish = .ok o := by
  have hstarts := h.starts _ (startsLine_endOfCode stop)
  obtain ⟨t, hrun, ⟨c, rfl⟩, hend⟩ := h.run _ _ (startsLine_endOfCode stop) (like_fedWith name _)
    (onLine_fedWith name hstarts)
  rw [assemble_eq_ok_iff]
  simp only [completes_iff_of_takes hrun, completes_iff_of_inFrontOf hend, exists_eq_left]
  exact finish_movedTo a c.skipNewlines

/-- A module with an instruction between lines is what these make of what the instruction
writes. -/
theorem assemble_eq_ok_iff_of_leads {j : SourceInstruction} {f : Assembler → Assembler}
    (hread : j.ReadFrom ts) (he : e.kind = .newline)
    (hfront : Leads front (.empty name) a)
    (hback : ∀ b, Asm.writeInstruction j a = .ok () b →
      Leads back { b with statements := b.statements + 1 } (f b)) :
    assemble (front ++ (ts ++ [e]) ++ back ++ [Token.endOfCode stop]).toArray name = .ok o ↔
      ∃ b, Asm.writeInstruction j a = .ok () b ∧ (f b).finish = .ok o := by
  have hleads (b : Assembler) (hb : Asm.writeInstruction j a = .ok () b) :=
    (hfront.append (leads_instruction hread he hb)).append (hback b hb)
  constructor
  · intro h
    obtain ⟨s, hrun, -⟩ := assemble_eq_ok_iff.mp h
    rw [List.append_assoc, List.append_assoc, List.append_assoc] at hrun
    have hstarts : StartsLine (ts ++ ([e] ++ (back ++ [Token.endOfCode stop]))) := by
      obtain ⟨t, ht, hname, -⟩ := hread.name
      obtain ⟨ts, rfl⟩ := List.head?_eq_some_iff.mp ht
      exact ⟨t, _, rfl, by simp [hname]⟩
    obtain ⟨t, htakes, hlike, hin⟩ := hfront.run _ _ hstarts (like_fedWith name _)
      (onLine_fedWith name (hfront.starts _ hstarts))
    obtain ⟨b, hb⟩ := exists_write_of_completes hread (by simp [Token.endsStatement, he]) hlike hin
      ((completes_iff_of_takes htakes).mp hrun)
    exact ⟨b, hb, (assemble_of_leads (hleads b hb)).mp h⟩
  · rintro ⟨b, hb, hfinish⟩
    exact (assemble_of_leads (hleads b hb)).mpr hfinish

/-- A module that ends with an instruction is what that writes. -/
theorem assemble_eq_ok_iff_of_last {j : SourceInstruction} (hread : j.ReadFrom ts)
    (hfront : Leads front (.empty name) a) :
    assemble (front ++ ts ++ [Token.endOfCode stop]).toArray name = .ok o ↔
      ∃ b, Asm.writeInstruction j a = .ok () b ∧
        finish { b with statements := b.statements + 1 } = .ok o := by
  have hstarts : StartsLine (ts ++ [Token.endOfCode stop]) := by
    obtain ⟨t, ht, hname, -⟩ := hread.name
    obtain ⟨ts, rfl⟩ := List.head?_eq_some_iff.mp ht
    exact ⟨t, _, rfl, by simp [hname]⟩
  obtain ⟨s, hrun, hlike, hin⟩ := hfront.run _ _ hstarts (like_fedWith name _)
    (onLine_fedWith name (hfront.starts _ hstarts))
  rw [List.append_assoc, assemble_eq_ok_iff]
  simp only [completes_iff_of_takes hrun]
  have hlast (b : Assembler) (hb : Asm.writeInstruction j a = .ok () b) :
      (∃ u, s.Completes u ∧ u.finish = .ok o) ↔
        finish { b with statements := b.statements + 1 } = .ok o := by
    obtain ⟨t, htakes, ⟨c, rfl⟩, hend⟩ := takes_instruction hread hb hlike hin
    simp only [completes_iff_of_takes (.single htakes), completes_iff_of_inFrontOf hend,
      exists_eq_left]
    exact finish_movedTo { b with statements := b.statements + 1 } c.skipNewlines
  constructor
  · rintro ⟨u, hu, hfinish⟩
    obtain ⟨b, hb⟩ := exists_write_of_completes (e := .endOfCode stop) hread rfl hlike hin hu
    exact ⟨b, hb, (hlast b hb).mp ⟨u, hu, hfinish⟩⟩
  · rintro ⟨b, hb, hfinish⟩
    exact (hlast b hb).mpr hfinish

end

end CellMachine
