import CellMachine.Assembly.Statement
import CellMachine.Proofs.Action

/-!
# Parsers move forward

Every parser leaves the list of tokens as it is and moves the cursor forward, if at all, whether
it succeeds or fails (`Cursor.Forward`). Skipping a line ends on a token that ends a statement
(`Cursor.endsStatement_skipLine`).
-/

namespace CellMachine

namespace Cursor

/-- The same tokens, at this place or behind it. -/
structure Forward (c c' : Cursor) : Prop where
  tokens : c'.tokens = c.tokens
  pos : c.pos ≤ c'.pos

instance : Std.Refl Forward := ⟨fun _ => ⟨rfl, Nat.le_refl _⟩⟩

instance : Trans Forward Forward Forward where
  trans h h' := ⟨h'.tokens.trans h.tokens, Nat.le_trans h.pos h'.pos⟩

theorem forward_next (c : Cursor) : c.Forward c.next := by
  unfold next
  split
  · exact ⟨rfl, Nat.le_succ _⟩
  · exact Std.Refl.refl c

theorem forward_skipWhile (p : Token → Bool) (n : Nat) (c : Cursor) :
    c.Forward (skipWhile p n c) := by
  induction n generalizing c with
  | zero => exact Std.Refl.refl c
  | succ n ih =>
    unfold skipWhile skipWhileRound
    split
    · exact Trans.trans (forward_next c) (ih c.next)
    · exact Std.Refl.refl c

theorem isEnd_fallback (c : Cursor) : c.fallback.isEnd = true := by
  unfold fallback
  split
  · split
    · assumption
    · rfl
  · rfl

theorem atEnd_of_remaining_eq_zero {c : Cursor} (h : c.remaining = 0) : c.atEnd = true := by
  have hnone : c.tokens[c.pos]? = none := by
    rw [Array.getElem?_eq_none_iff]
    unfold remaining at h
    omega
  unfold atEnd current tokenAt
  rw [hnone]
  exact c.isEnd_fallback

/-- Skipping stops at a token that need not be skipped, or at the end of the text. -/
theorem skipWhile_stops (p : Token → Bool) (n : Nat) (c : Cursor) (h : c.remaining ≤ n) :
    p (skipWhile p n c).current = false ∨ (skipWhile p n c).atEnd = true := by
  induction n generalizing c with
  | zero => exact Or.inr (atEnd_of_remaining_eq_zero (Nat.le_zero.mp h))
  | succ n ih =>
    unfold skipWhile skipWhileRound
    split
    · exact ih c.next (by rw [remaining_next]; omega)
    · next hp => exact Or.inl (by simpa using hp)

end Cursor

namespace Parser

open Cursor (Forward)

/-! ## Single tokens -/

theorem relates_current : Relates Forward current := .get_bind fun c => Std.Refl.refl c

theorem relates_peek : Relates Forward peek := .get_bind fun c => Std.Refl.refl c

theorem relates_remaining : Relates Forward remaining := .get_bind fun c => Std.Refl.refl c

theorem relates_next : Relates Forward next := .modify Cursor.forward_next

theorem relates_skipNewlines : Relates Forward skipNewlines :=
  .modify fun c => Cursor.forward_skipWhile _ _ c

theorem relates_failAt {α : Type} (t : Token) (kind : AssemblyErrorKind) :
    Relates Forward (failAt t kind : Parser α) := .throw _

theorem relates_unexpected {α : Type} (t : Token) (expected : String) :
    Relates Forward (unexpected t expected : Parser α) := .throw _

theorem relates_failHere {α : Type} (kind : AssemblyErrorKind) :
    Relates Forward (failHere kind : Parser α) :=
  .bind relates_current fun t => relates_failAt t kind

theorem relates_at? (kind : TokenKind) : Relates Forward (at? kind) :=
  .bind relates_current fun _ => .pure _

/-- Goes on with or without the token that may be taken. -/
theorem take?_bind_apply {α : Type} (kind : TokenKind) (f : Bool → Parser α) (c : Cursor) :
    (take? kind >>= f) c = if c.current.kind == kind then f true c.next else f false c := by
  change EStateM.bind (if c.current.kind == kind then _ else _ : Parser Bool) f c = _
  split
  · rfl
  · rfl

theorem relates_take? (kind : TokenKind) : Relates Forward (take? kind) :=
  .bind (relates_at? _) fun _ => .ite (.bind relates_next fun _ => .pure _) (.pure _)

theorem relates_expect (kind : TokenKind) (expected : String) :
    Relates Forward (expect kind expected) := by
  refine .bind relates_current fun t => .ite ?_ (relates_unexpected _ _)
  exact .bind relates_next fun _ => .pure _

theorem relates_expectColon : Relates Forward expectColon :=
  .bind (relates_expect _ _) fun _ => .pure _

theorem relates_expectName : Relates Forward expectName :=
  .bind (relates_expect _ _) fun _ => .pure _

theorem relates_dottedRest (name : String) (n : Nat) : Relates Forward (dottedRest name n) := by
  induction n generalizing name with
  | zero => exact .pure _
  | succ n ih =>
    refine .bind relates_current fun _ => .bind relates_peek fun _ => .ite ?_ (.pure _)
    exact .bind relates_next fun _ => .bind relates_current fun _ =>
      .bind relates_next fun _ => ih _

theorem relates_dottedName : Relates Forward dottedName :=
  .bind relates_expectName fun _ => .bind relates_remaining fun _ => relates_dottedRest _ _

theorem relates_datatypeSuffix : Relates Forward datatypeSuffix := by
  refine .bind (relates_expect _ _) fun _ => .bind (relates_expect _ _) fun t => ?_
  split
  · exact .pure _
  · exact relates_failAt _ _

theorem relates_storedDatatype : Relates Forward storedDatatype :=
  .bind relates_peek fun _ => .bind relates_datatypeSuffix fun _ =>
    .ite (relates_failAt _ _) (.pure _)

theorem relates_declaration : Relates Forward declaration :=
  .bind relates_expectName fun _ => .bind relates_storedDatatype fun _ => .pure _

theorem relates_expectEnd : Relates Forward expectEnd :=
  .bind relates_current fun _ => .ite (.pure _) (relates_unexpected _ _)

/-! ## Operands -/

theorem relates_register : Relates Forward register := by
  refine .bind relates_next fun _ => .bind (relates_expect _ _) fun _ => ?_
  split
  · exact .pure _
  · exact relates_failAt _ _

theorem relates_frameSlot : Relates Forward frameSlot := by
  refine .bind relates_next fun _ => .bind (relates_expect _ _) fun _ => ?_
  split
  · exact .pure _
  · exact relates_failAt _ _

theorem relates_term : Relates Forward term := by
  refine .bind relates_current fun t => ?_
  split
  · exact relates_register
  · exact relates_frameSlot
  · exact .bind relates_dottedName fun _ => .pure _
  · exact .bind relates_next fun _ => .pure _
  · refine .bind relates_next fun _ => ?_
    split
    · exact .pure _
    · exact relates_failAt _ _
  · refine .bind relates_next fun _ => ?_
    split
    · exact .pure _
    · exact relates_failAt _ _
  · exact relates_unexpected _ _

theorem relates_operand : Relates Forward operand := by
  refine .bind (relates_at? _) fun deref => ?_
  split
  · exact .bind relates_next fun _ => .bind relates_current fun _ => .bind relates_term fun _ =>
      .pure _
  · exact .bind relates_current fun _ => .bind relates_term fun _ => .pure _

theorem relates_literalValue (o : SourceOperand) (dt : Datatype) :
    Relates Forward (literalValue o dt) := by
  unfold literalValue
  split
  · exact .pure _
  · exact relates_failAt _ _

/-! ## Parts of statements -/

theorem relates_instructionDatatype (op : Opcode) (t : Token) :
    Relates Forward (instructionDatatype op t) := by
  refine .bind (relates_at? _) fun hasSuffix => ?_
  split
  · exact relates_failAt _ _
  · exact relates_failAt _ _
  · exact .bind relates_datatypeSuffix fun _ => .ite (relates_failAt _ _) (.pure _)
  · exact relates_datatypeSuffix
  · exact .pure _

theorem relates_argumentDatatype : Relates Forward argumentDatatype := by
  refine .bind (relates_expect _ _) fun t => ?_
  split
  · exact relates_failAt _ _
  · exact relates_failAt _ _
  · exact .pure _

theorem relates_optionalDatatype : Relates Forward optionalDatatype := by
  refine .bind (relates_at? _) fun _ => .ite ?_ (.pure _)
  exact .bind relates_datatypeSuffix fun _ => .pure _

theorem relates_aliasAs (o : SourceOperand) (dt : Option Datatype) (v : Value) :
    Relates Forward (aliasAs o dt v) := by
  unfold aliasAs
  split
  · exact .pure _
  · refine .ite (.pure _) ?_
    split
    · exact .pure _
    · exact relates_failAt _ _

theorem relates_aliasOf (o : SourceOperand) (dt : Option Datatype) (name : String)
    (found : Option Symbol) : Relates Forward (aliasOf o dt name found) := by
  cases found with
  | some symbol => exact relates_aliasAs o dt symbol.value
  | none => exact relates_failAt _ _

theorem relates_permissionName : Relates Forward permissionName :=
  .bind relates_current fun _ => .ite (.bind relates_next fun _ => .pure _) relates_dottedName

theorem relates_initializer : Relates Forward initializer := by
  refine .bind relates_current fun t => ?_
  split
  · refine .bind relates_next fun _ => ?_
    split
    · exact .pure _
    · exact relates_failAt _ _
  · exact .bind relates_next fun _ => .pure _
  · exact relates_unexpected _ _

theorem relates_scopeName : Relates Forward scopeName :=
  .bind relates_current fun _ => .ite (.bind relates_next fun _ => .pure _) (relates_failAt _ _)

theorem relates_parameters (n : Nat) : Relates Forward (parameters n) := by
  induction n with
  | zero => exact .pure _
  | succ n ih =>
    exact .bind (relates_take? _) fun _ => .ite
      (.bind relates_declaration fun _ => .bind ih fun _ => .pure _) (.pure _)

theorem relates_parameterList : Relates Forward parameterList :=
  .bind relates_remaining fun _ => relates_parameters _

theorem relates_macroParams (n : Nat) : Relates Forward (macroParams n) := by
  induction n with
  | zero => exact .pure _
  | succ n ih =>
    exact .bind (relates_take? _) fun _ => .ite
      (.bind relates_expectName fun _ => .bind ih fun _ => .pure _) (.pure _)

theorem relates_macroBody (depth n : Nat) : Relates Forward (macroBody depth n) := by
  induction n generalizing depth with
  | zero => exact .pure _
  | succ n ih =>
    refine .bind relates_current fun _ => .bind relates_peek fun _ => .ite (.pure _) (.ite ?_ ?_)
    · exact .bind relates_next fun _ => .bind relates_next fun _ => .pure _
    · exact .bind relates_next fun _ => .bind (ih _) fun _ => .pure _

theorem relates_macroDef (t : Token) : Relates Forward (macroDef t) := by
  refine .bind relates_remaining fun _ => .bind (relates_macroParams _) fun _ =>
    .bind relates_expectEnd fun _ => .bind relates_remaining fun _ =>
      .bind (relates_macroBody _ _) fun body => ?_
  split
  · exact relates_failAt _ _
  · exact .bind relates_expectEnd fun _ => .pure _

theorem relates_argumentTokens (n : Nat) : Relates Forward (argumentTokens n) := by
  induction n with
  | zero => exact .pure _
  | succ n ih =>
    refine .bind relates_current fun _ => .ite (.pure _) ?_
    exact .bind relates_next fun _ => .bind ih fun _ => .pure _

theorem relates_macroArguments (n : Nat) : Relates Forward (macroArguments n) := by
  induction n with
  | zero => exact .pure _
  | succ n ih =>
    refine .bind (relates_take? _) fun _ => .ite ?_ (.pure _)
    refine .bind relates_remaining fun _ => .bind (relates_argumentTokens _) fun _ => .ite ?_ ?_
    · exact .bind relates_current fun _ => relates_unexpected _ _
    · exact .bind ih fun _ => .pure _

end Parser

end CellMachine
