import CellMachine.Proofs.Assembly.Checkpoint
import CellMachine.Proofs.Assembly.Writing
import CellMachine.Proofs.Buffer

/-!
# Undoing a statement

Every action of a statement extends the assembler, whether it succeeds or fails
(`Asm.grows_statement`), the statements of a macro included, each of which is undone by itself
when it fails. So a failing statement leaves nothing behind but the place of the cursor, the macros
it has defined and the cuts it has made into the static data (`Asm.attempt_eq_error`).
-/

namespace CellMachine

namespace Asm

open Assembler (Extends Consistent)

/-! ## Single actions -/

variable {expand x : Asm Unit} {s : Assembler} {α : Type}

/-- A name that is not in the index is not among the symbols. -/
theorem findIdx?_eq_none (hs : s.Consistent) {name : String} (h : s.index.contains name = false) :
    s.object.symbols.findIdx? (·.name == name) = none := by
  rw [← hs.index]
  simpa [NameMap.contains] using h

theorem consistent_withSymbol (hs : s.Consistent) {x : Symbol}
    (h : s.index.contains x.name = false) : (s.withSymbol x).Consistent := by
  have hnone := findIdx?_eq_none hs h
  constructor
  · intro name
    simp only [Assembler.withSymbol]
    rw [NameMap.get?_insert, List.findIdx?_append]
    split
    · next heq => simp [heq, hnone]
    · next hne => simp [hs.index, Ne.symm hne]
  · simp only [Assembler.withSymbol, List.map_append, List.map_cons, List.map_nil]
    rw [List.nodup_append]
    refine ⟨hs.distinct, by simp, ?_⟩
    intro name hname name' hname' heq
    obtain ⟨y, hy, rfl⟩ := List.mem_map.mp hname
    have hyx : y.name = x.name := by simpa [heq] using hname'
    have := List.findIdx?_eq_none_iff.mp hnone y hy
    simp [hyx] at this
  · exact hs.positions

/-- The scopes and the permissions are kept in full by a checkpoint, so that they may change in
any way. What an instruction overwrites lies behind the state it started from. -/
theorem admits_extends : AdmitsCode Extends where
  movedTo s c hc := { Extends.refl s with
    cursor := hc
    consistent := fun h => h.of_eq rfl rfl rfl rfl }
  withSymbol s x hx _ := { Extends.refl s with
    symbols := List.prefix_append _ _
    consistent := fun h => consistent_withSymbol h hx }
  appendStatic s _ := { Extends.refl s with consistent := fun h => h.of_eq rfl rfl rfl rfl }
  require s name := by
    unfold Object.require
    split
    · exact Extends.refl s
    · exact { Extends.refl s with
        required := List.prefix_append _ _
        consistent := fun h => h.of_eq rfl rfl rfl rfl }
  permissions s _ _ :=
    { Extends.refl s with consistent := fun h => h.of_eq rfl rfl rfl rfl }
  scopes s _ := { Extends.refl s with consistent := fun h => h.of_eq rfl rfl rfl rfl }
  appendCode s bytes := { Extends.refl s with
    code := by simp [Assembler.appendCode]
    consistent := fun h => h.of_eq rfl rfl rfl rfl }
  refer s _ _ := { Extends.refl s with
    unresolved := List.prefix_append _ _
    positions := List.prefix_append _ _
    consistent := fun h => ⟨h.index, h.distinct, by simp [h.positions]⟩ }
  relocate s _ := { Extends.refl s with
    relocations := List.prefix_append _ _
    consistent := fun h => h.of_eq rfl rfl rfl rfl }
  overwriteCode s₀ s start bytes hstart hs := { hs with
    code := by
      have hcode := List.prefix_iff_eq_take.mp hs.code
      rw [List.prefix_iff_eq_take]
      change _ = List.take _ (s.object.code.write start bytes).toList
      rw [Buffer.take_write bytes (by simpa using hstart), ← hcode]
    consistent := fun h₀ => (hs.consistent h₀).of_eq rfl rfl rfl rfl }

theorem extends_ofParser {p : Parser α} (hp : Relates Cursor.Forward p) :
    Relates Extends (liftM p : Asm α) := admits_extends.ofParser hp

theorem extends_instruction (op : Opcode) : Relates Extends (instruction op) :=
  relates_instruction admits_extends.toAdmitsWriting op

theorem extends_withStatic (s : Assembler) (bytes : Buffer) : s.Extends (s.withStatic bytes) :=
  { Extends.refl s with consistent := fun h => h.of_eq rfl rfl rfl rfl }

theorem extends_directive : Relates Extends directive :=
  relates_directive admits_extends
    (relates_staticData admits_extends.toAdmitsNames fun s _ => extends_withStatic s _)
    (relates_defineMacro admits_extends.toAdmitsNames fun s _ =>
      { Extends.refl s with consistent := fun h => h.of_eq rfl rfl rfl rfl })

/-! ## Statements

A statement of a macro that fails is undone by itself before the use of the macro is, so that a
use of a macro is an extension only of an assembler whose index is in order. -/

/-- An extension of an assembler whose index is in order. -/
def Grows (s s' : Assembler) : Prop := s.Consistent → s.Extends s'

instance : Std.Refl Grows := ⟨fun s _ => Extends.refl s⟩

instance : Trans Grows Grows Grows where
  trans h h' hs := Trans.trans (h hs) (h' ((h hs).consistent hs))

theorem grows_of_extends {x : Asm α} (hx : Relates Extends x) : Relates Grows x :=
  hx.mono fun _ _ h _ => h

theorem grows_statementBody (hexpand : Relates Grows expand) :
    Relates Grows (statementBody expand) := by
  refine .bind (grows_of_extends (extends_ofParser Parser.relates_current)) fun t => ?_
  split
  · exact grows_of_extends (.bind (extends_ofParser Parser.relates_next) fun _ => extends_directive)
  · split
    · exact grows_of_extends (extends_instruction _)
    · exact .bind .get fun _ => .ite hexpand (grows_of_extends (admits_extends.fail _ _))
  · exact grows_of_extends (extends_ofParser (Parser.relates_unexpected _ _))

theorem grows_statement (hexpand : Relates Grows expand) : Relates Grows (statement expand) :=
  .bind (grows_statementBody hexpand) fun _ =>
    .bind (grows_of_extends (extends_ofParser Parser.relates_expectEnd)) fun _ =>
      grows_of_extends (extends_ofParser Parser.relates_skipNewlines)

theorem attempt_eq_ok {s' : Assembler} : attempt x s = .ok () s' ↔ x s = .ok () s' := by
  unfold attempt
  cases x s with
  | ok a s₁ => simp
  | error e s₁ => simp

/-- What a failing statement leaves behind : the place at the end of the line where it stopped,
the macros, and no more static data than there was left. -/
theorem attempt_eq_error {s' : Assembler} {e : AssemblyError} (hx : Relates Grows x)
    (hs : s.Consistent) (h : attempt x s = .error e s') :
    ∃ s₁, x s = .error e s₁ ∧ s' = (s.undone s₁).movedTo s₁.cursor.skipLine := by
  unfold attempt at h
  cases hstep : x s with
  | ok a s₁ => simp [hstep] at h
  | error e₁ s₁ =>
    have hrestore := Assembler.restore_checkpoint hs (hx.of_error hstep hs)
    simp only [hstep, hrestore, EStateM.Result.error.injEq] at h
    exact ⟨s₁, by rw [h.1], h.2.symm⟩

theorem grows_attempt (hx : Relates Grows x) : Relates Grows (attempt x) := by
  intro s hs
  cases h : attempt x s with
  | ok a s' => exact hx.of_ok (attempt_eq_ok.mp h) hs
  | error e s' =>
    obtain ⟨s₁, hstep, rfl⟩ := attempt_eq_error hx hs h
    have hskip := Cursor.forward_skipWhile (!·.endsStatement) s₁.cursor.remaining s₁.cursor
    exact { Extends.refl s with
      cursor := Trans.trans (hx.of_error hstep hs).cursor hskip
      consistent := fun h => h.of_eq rfl rfl rfl rfl }

/-- An extension inside of a macro, where statements are not counted. -/
def GrowsInside (s s' : Assembler) : Prop := s.depth ≠ 0 → Grows s s'

instance : Std.Refl GrowsInside := ⟨fun s _ => Std.Refl.refl s⟩

instance : Trans GrowsInside GrowsInside GrowsInside where
  trans h h' hd hs :=
    have hfirst := h hd hs
    Trans.trans hfirst (h' (hfirst.depth ▸ hd) (hfirst.consistent hs))

theorem growsInside_of_grows {x : Asm α} (hx : Relates Grows x) : Relates GrowsInside x :=
  hx.mono fun _ _ h _ => h

theorem growsInside_countStatement : Relates GrowsInside countStatement := by
  refine .modify fun s hd hs => ?_
  rw [if_neg hd]
  exact Extends.refl s

theorem growsInside_statements (hexpand : Relates Grows expand) (n : Nat) :
    Relates GrowsInside (statements expand n) := by
  induction n with
  | zero => exact .pure _
  | succ n ih =>
    have hskip := grows_of_extends (extends_ofParser Parser.relates_skipNewlines)
    have hattempt := grows_attempt (grows_statement hexpand)
    exact .bind (growsInside_of_grows hskip) fun _ => .bind .get fun _ => .ite (.pure _) <|
      .bind (growsInside_of_grows hattempt) fun _ => .bind growsInside_countStatement fun _ => ih

theorem grows_nested (tokens : Array Token) (hx : Relates GrowsInside x) :
    Relates Grows (nested tokens x) := by
  intro s hs
  -- The body is read at a depth that is not zero, where no statement is counted.
  have hinner := hx { s with cursor := ⟨tokens, 0⟩, depth := s.depth + 1 } (Nat.succ_ne_zero _)
    (hs.of_eq rfl rfl rfl rfl)
  have hback : ∀ s' : Assembler,
      ({ s with cursor := ⟨tokens, 0⟩, depth := s.depth + 1 } : Assembler).Extends s' →
        s.Extends { s' with cursor := s.cursor, depth := s'.depth - 1 } := fun s' h =>
    { h with
      depth := by rw [h.depth]; rfl
      cursor := Std.Refl.refl _
      consistent := fun hc =>
        (h.consistent (hc.of_eq rfl rfl rfl rfl)).of_eq rfl rfl rfl rfl }
  unfold nested
  cases h : x { s with cursor := ⟨tokens, 0⟩, depth := s.depth + 1 } with
  | ok a s' =>
    rw [h] at hinner
    exact hback s' hinner
  | error e s' =>
    rw [h] at hinner
    exact hback s' hinner

theorem grows_expansion (n : Nat) : Relates Grows (expansion n) := by
  induction n with
  | zero =>
    exact grows_of_extends (.bind (relates_macroUse admits_extends.movedTo) fun _ => .pure _)
  | succ n ih =>
    exact .bind (grows_of_extends (relates_macroUse admits_extends.movedTo)) fun tokens =>
      grows_nested tokens (growsInside_statements ih _)

end Asm

end CellMachine
