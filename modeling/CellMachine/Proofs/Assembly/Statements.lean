import CellMachine.Proofs.Assembly.Program
import Mathlib

/-!
# Statement by statement

From a statement that succeeds the assembler goes on to the next one (`Assembler.Passes`), and from
a use of a macro to the statements that it stands for (`Assembler.Enters`). A statement takes a
token of its list, and uses are nested no deeper than `maxDepth`, so that neither goes on for ever.
`Assembler.Consistent.walk` is the induction that this gives, for what becomes of one statement
(`Assembler.first`) and of those from one on (`Assembler.onward`).
-/

namespace CellMachine

/-! ## Every statement takes a token -/

theorem Cursor.pos_lt_size {c : Cursor} (h : c.atEnd = false) : c.pos < c.tokens.size := by
  by_contra hge
  have hend := atEnd_of_remaining_eq_zero (c := c) (by unfold remaining; omega)
  simp [h] at hend

theorem Cursor.pos_lt_next {c : Cursor} (h : c.atEnd = false) : c.pos < c.next.pos := by
  simp [next, pos_lt_size h]

namespace Asm

open Assembler (Extends Consistent)

variable {s s' : Assembler} {n : Nat}

/-- What starts by taking a token and goes on forward ends behind that token. -/
theorem pos_lt_of_next {x : Asm Unit} (hend : s.cursor.atEnd = false) (hx : Relates Extends x)
    (h : x (s.movedTo s.cursor.next) = .ok () s') : s.cursor.pos < s'.cursor.pos :=
  Nat.lt_of_lt_of_le (Cursor.pos_lt_next hend) (hx.of_ok h).cursor.pos

theorem pos_lt_of_instruction {op : Opcode} (hend : s.cursor.atEnd = false)
    (h : instruction op s = .ok () s') : s.cursor.pos < s'.cursor.pos :=
  pos_lt_of_next hend
    (relates_instructionBehind admits_extends.toAdmitsWriting op s.cursor.current) h

/-- A use of a macro moves the cursor. There has to be such a macro, and room for one more use to
be nested. -/
theorem macroUse_eq_ok {tokens : Array Token} (h : macroUse s = .ok tokens s') :
    ∃ c, s' = s.movedTo c ∧ s.cursor.next.Forward c ∧ s.depth < maxDepth ∧
      s.findMacro? s.cursor.current.text ≠ none := by
  obtain ⟨d, args, c, hfind, hargs, -, hdepth, rfl, -⟩ := macroUse_spec h
  exact ⟨c, rfl, (Parser.relates_macroArguments _).of_ok hargs, hdepth, by simp [hfind]⟩

theorem pos_lt_of_expansion (hend : s.cursor.atEnd = false) (h : expansion n s = .ok () s') :
    s.cursor.pos < s'.cursor.pos := by
  have hnext := Cursor.pos_lt_next hend
  cases n with
  | zero =>
    obtain ⟨tokens, s₁, huse, h⟩ := bind_eq_ok.mp h
    cases h
    obtain ⟨c, rfl, hforward, -⟩ := macroUse_eq_ok huse
    exact Nat.lt_of_lt_of_le hnext hforward.pos
  | succ n =>
    obtain ⟨tokens, s₁, huse, h⟩ := bind_eq_ok.mp h
    obtain ⟨c, rfl, hforward, -⟩ := macroUse_eq_ok huse
    -- Behind the body the cursor is back behind the use.
    have hcursor : s'.cursor = c := by
      unfold nested at h
      split at h
      · cases h
        rfl
      · cases h
    rw [hcursor]
    exact Nat.lt_of_lt_of_le hnext hforward.pos

theorem expansion_of_error {e : AssemblyError} (h : macroUse s = .error e s') (n : Nat) :
    expansion n s = .error e s' := by
  cases n with
  | zero => exact bind_eq_error.mpr (Or.inl h)
  | succ n => exact bind_eq_error.mpr (Or.inl h)

theorem pos_lt_of_statementBody (hend : s.cursor.atEnd = false)
    (h : statementBody (expansion n) s = .ok () s') : s.cursor.pos < s'.cursor.pos := by
  rcases statementBody_cases (expansion n) s with
    ⟨-, hbody⟩ | ⟨op, -, -, hbody⟩ | ⟨-, -, hbody⟩ | ⟨-, -, e, hbody⟩
  · exact pos_lt_of_next hend extends_directive (hbody ▸ h)
  · exact pos_lt_of_instruction hend (hbody ▸ h)
  · exact pos_lt_of_expansion hend (hbody ▸ h)
  · rw [hbody] at h
    cases h

theorem pos_lt_of_statement (hend : s.cursor.atEnd = false)
    (h : statement (expansion n) s = .ok () s') : s.cursor.pos < s'.cursor.pos := by
  obtain ⟨_, s₁, hbody, h⟩ := bind_eq_ok.mp h
  have hrest : Relates Extends (do
      Parser.expectEnd
      Parser.skipNewlines : Asm Unit) :=
    .bind (extends_ofParser Parser.relates_expectEnd) fun _ =>
      extends_ofParser Parser.relates_skipNewlines
  exact Nat.lt_of_lt_of_le (pos_lt_of_statementBody hend hbody) (hrest.of_ok h).cursor.pos

theorem expectEnd_eq_ok {c c' : Cursor} :
    Parser.expectEnd c = .ok () c' ↔ c.current.endsStatement = true ∧ c' = c := by
  change (if c.current.endsStatement = true then pure () else _ : Parser Unit) c = .ok () c' ↔ _
  split
  · next h => simp [h, pure, EStateM.pure, eq_comm]
  · next h => exact ⟨fun hc => (by cases hc), fun hc => absurd hc.1 h⟩

/-- A statement whose body has ended where statements end succeeds. -/
theorem statement_eq_ok {expand : Asm Unit} {s₁ : Assembler}
    (h : statementBody expand s = .ok () s₁) (hends : s₁.cursor.current.endsStatement = true) :
    statement expand s = .ok () s₁.onLine := by
  refine bind_eq_ok.mpr ⟨_, _, h, bind_eq_ok.mpr ⟨(), s₁, ?_, rfl⟩⟩
  exact ofParser_eq_ok.mpr ⟨_, expectEnd_eq_ok.mpr ⟨hends, rfl⟩, rfl⟩

end Asm

/-! ## The way of the assembler -/

namespace Assembler

/-- The statement under the cursor is a use of a macro, and `t` is in front of the statements that
it stands for. -/
def Enters (s t : Assembler) : Prop :=
  s.onLine.cursor.current.kind = .name ∧ Opcode.ofName? s.onLine.cursor.current.text = none ∧
    ∃ tokens s₁, Asm.macroUse s.onLine = .ok tokens s₁ ∧
      t = { s₁ with cursor := ⟨tokens, 0⟩, depth := s₁.depth + 1 }

/-- The statement under the cursor succeeds, and `t` is behind it. -/
def Passes (s t : Assembler) : Prop :=
  s.onLine.cursor.atEnd = false ∧
    ∃ s₁, Asm.statement (Asm.expansion (maxDepth - s.depth)) s.onLine = .ok () s₁ ∧ t = s₁.counted

/-- From `s` on the assembler comes to `t`, in front of a statement that stands `k` uses of macros
deep. -/
inductive Visits (s : Assembler) : Nat → Assembler → Prop
  | start : Visits s 0 s
  | pass {k : Nat} {t u : Assembler} : Visits s k t → t.Passes u → Visits s k u
  | enter {k : Nat} {t u : Assembler} : Visits s k t → t.Enters u → Visits s (k + 1) u

/-- What becomes of the statement under the cursor. -/
def first (s : Assembler) : EStateM.Result AssemblyError Assembler Unit :=
  Asm.statement (Asm.expansion (maxDepth - s.depth)) s.onLine

/-- What becomes of it in front of its end. -/
def body (s : Assembler) : EStateM.Result AssemblyError Assembler Unit :=
  Asm.statementBody (Asm.expansion (maxDepth - s.depth)) s.onLine

/-- What becomes of the statements from that one on, of which `n` are taken at most. -/
def onward (s : Assembler) (n : Nat) : EStateM.Result AssemblyError Assembler Unit :=
  Asm.statements (Asm.expansion (maxDepth - s.depth)) n s

theorem depth_counted (s : Assembler) : s.counted.depth = s.depth := by
  unfold counted
  split <;> rfl

theorem cursor_counted (s : Assembler) : s.counted.cursor = s.cursor := by
  unfold counted
  split <;> rfl

theorem Consistent.counted {s : Assembler} (hs : s.Consistent) : s.counted.Consistent := by
  unfold Assembler.counted
  split
  · exact hs.of_eq rfl rfl rfl rfl
  · exact hs

variable {s s₁ t u : Assembler} {k : Nat} {e : AssemblyError}

theorem passes_of_ok {n : Nat} (hn : maxDepth - s.depth = n) (hend : s.onLine.cursor.atEnd = false)
    (h : Asm.statement (Asm.expansion n) s.onLine = .ok () s₁) : s.Passes s₁.counted :=
  ⟨hend, s₁, by rw [hn, h], rfl⟩

/-- A statement that fails passes to nothing. -/
theorem not_passes_of_error (h : s.first = .error e t) (u : Assembler) : ¬ s.Passes u := by
  rintro ⟨-, s₁, hok, -⟩
  cases h.symm.trans hok

/-- The statements of the source are passed one by one. -/
theorem Settled.takes_iff (hs : s.Settled) : s.Takes t ↔ s.Passes t := by
  have hcounted : ∀ s₁, Asm.statement (Asm.expansion maxDepth) s.onLine = .ok () s₁ →
      s₁.counted = { s₁ with statements := s₁.statements + 1 } := fun s₁ hok => by
    rw [Assembler.counted, if_pos ((extends_of_statement hs.onLine hok).settled hs.onLine).depth]
  unfold Takes Passes
  rw [hs.depth, Nat.sub_zero]
  constructor
  · rintro ⟨s₁, hend, hok, rfl⟩
    exact ⟨hend, s₁, hok, (hcounted s₁ hok).symm⟩
  · rintro ⟨hend, s₁, hok, rfl⟩
    exact ⟨s₁, hend, hok, hcounted s₁ hok⟩

theorem Fails.first_eq (h : s.Fails e t) (hs : s.Settled) : s.first = .error e t := by
  rw [first, hs.depth]
  exact h.2

theorem Passes.unique (h : s.Passes t) (h' : s.Passes u) : t = u := by
  obtain ⟨-, s₁, hok, rfl⟩ := h
  obtain ⟨-, s₁', hok', rfl⟩ := h'
  cases hok.symm.trans hok'
  rfl

theorem Passes.extends (h : t.Passes u) (ht : t.Consistent) :
    ∃ s₁, t.onLine.Extends s₁ ∧ t.onLine.cursor.pos < s₁.cursor.pos ∧ u = s₁.counted := by
  obtain ⟨hend, s₁, hok, rfl⟩ := h
  have hline : t.onLine.Consistent := ht.of_eq rfl rfl rfl rfl
  exact ⟨s₁, (Asm.grows_statement (Asm.grows_expansion _)).of_ok hok hline,
    Asm.pos_lt_of_statement hend hok, rfl⟩

theorem Passes.consistent (h : t.Passes u) (ht : t.Consistent) : u.Consistent := by
  obtain ⟨s₁, hextends, -, rfl⟩ := h.extends ht
  exact (hextends.consistent (ht.of_eq rfl rfl rfl rfl)).counted

theorem Passes.depth (h : t.Passes u) (ht : t.Consistent) : u.depth = t.depth := by
  obtain ⟨s₁, hextends, -, rfl⟩ := h.extends ht
  exact (depth_counted s₁).trans hextends.depth

theorem Passes.tokens (h : t.Passes u) (ht : t.Consistent) :
    u.cursor.tokens = t.cursor.tokens := by
  obtain ⟨s₁, hextends, -, rfl⟩ := h.extends ht
  rw [cursor_counted]
  exact hextends.cursor.tokens.trans (extends_onLine t).cursor.tokens

/-- A statement takes a token. -/
theorem Passes.remaining_lt (h : t.Passes u) (ht : t.Consistent) :
    u.cursor.remaining < t.cursor.remaining := by
  have htokens := h.tokens ht
  have hsize := Cursor.pos_lt_size h.1
  obtain ⟨s₁, -, hpos, rfl⟩ := h.extends ht
  have hline := (extends_onLine t).cursor
  have hstart := hline.pos
  rw [hline.tokens] at hsize
  rw [cursor_counted] at htokens ⊢
  unfold Cursor.remaining
  rw [htokens]
  omega

theorem Enters.consistent (h : t.Enters u) (ht : t.Consistent) : u.Consistent := by
  obtain ⟨-, -, tokens, s₁, huse, rfl⟩ := h
  obtain ⟨c, rfl, -⟩ := Asm.macroUse_eq_ok huse
  exact ht.of_eq rfl rfl rfl rfl

theorem Enters.depth (h : t.Enters u) : u.depth = t.depth + 1 ∧ t.depth < maxDepth := by
  obtain ⟨-, -, tokens, s₁, huse, rfl⟩ := h
  obtain ⟨c, rfl, -, hdepth, -⟩ := Asm.macroUse_eq_ok huse
  exact ⟨rfl, hdepth⟩

/-- A use of a macro is expanded and nothing else. -/
theorem Enters.statementBody_eq (h : t.Enters u) (expand : Asm Unit) :
    Asm.statementBody expand t.onLine = expand t.onLine := by
  obtain ⟨hkind, hop, tokens, s₁, huse, -⟩ := h
  rcases Asm.statementBody_cases expand t.onLine with
    ⟨hmark, -⟩ | ⟨op, hsome, -, -⟩ | ⟨-, -, hbody⟩ | ⟨-, hunknown, -⟩
  · cases hkind.symm.trans hmark
  · cases hop.symm.trans hsome
  · exact hbody
  · obtain ⟨-, -, -, -, hfound⟩ := Asm.macroUse_eq_ok huse
    exact absurd (hunknown hkind) hfound

theorem Visits.consistent (h : s.Visits k t) (hs : s.Consistent) : t.Consistent := by
  induction h with
  | start => exact hs
  | pass _ hpass ih => exact hpass.consistent ih
  | enter _ henter ih => exact henter.consistent ih

/-- The depth that the assembler keeps is the number of uses that are open. -/
theorem Visits.depth (h : s.Visits k t) (hs : s.Settled) : t.depth = k ∧ k ≤ maxDepth := by
  induction h with
  | start => exact ⟨hs.depth, Nat.zero_le _⟩
  | pass hvisits hpass ih =>
    exact ⟨(hpass.depth (hvisits.consistent hs.consistent)).trans ih.1, ih.2⟩
  | enter _ henter ih =>
    obtain ⟨hdepth, hlt⟩ := henter.depth
    omega

theorem Visits.trans {j : Nat} (h : s.Visits j t) (h' : t.Visits k u) : s.Visits (j + k) u := by
  induction h' with
  | start => exact h
  | pass _ hpass ih => exact .pass ih hpass
  | enter _ henter ih => exact .enter ih henter

/-! ## One step -/

theorem Passes.onward_eq (h : s.Passes t) (hs : s.Consistent) (n : Nat) :
    s.onward (n + 1) = t.onward n := by
  have hdepth := h.depth hs
  obtain ⟨hend, s₁, hok, rfl⟩ := h
  unfold onward
  rw [Asm.statements_succ, if_neg (by simp [hend]), Asm.attempt_eq_ok.mpr hok, hdepth]

/-- The first statement that fails is undone. -/
theorem attempt_of_error (hs : s.Consistent) (h : s.first = .error e t) :
    Asm.attempt (Asm.statement (Asm.expansion (maxDepth - s.depth))) s.onLine =
      .error e ((s.undone t).movedTo t.cursor.skipLine) := by
  have hline : s.onLine.Consistent := hs.of_eq rfl rfl rfl rfl
  cases hattempt : Asm.attempt (Asm.statement (Asm.expansion (maxDepth - s.depth))) s.onLine with
  | ok _ s₁ => cases h.symm.trans (Asm.attempt_eq_ok.mp hattempt)
  | error e' s₁ =>
    obtain ⟨t', herror, rfl⟩ :=
      Asm.attempt_eq_error (Asm.grows_statement (Asm.grows_expansion _)) hline hattempt
    cases h.symm.trans herror
    rfl

theorem onward_of_error (hs : s.Consistent) (hend : s.onLine.cursor.atEnd = false)
    (h : s.first = .error e t) (n : Nat) :
    s.onward (n + 1) = .error e ((s.undone t).movedTo t.cursor.skipLine) := by
  unfold onward
  rw [Asm.statements_succ, if_neg (by simp [hend]), attempt_of_error hs h]

/-- What a use of a macro makes of the result of the statements that it stands for. -/
def behindUse (c : Cursor) :
    EStateM.Result AssemblyError Assembler Unit → EStateM.Result AssemblyError Assembler Unit
  | .ok () u => .ok () { u with cursor := c, depth := u.depth - 1 }
  | .error e u => .error e { u with cursor := c, depth := u.depth - 1 }

theorem nested_eq (tokens : Array Token) (x : Asm Unit) (s : Assembler) :
    Asm.nested tokens x s =
      behindUse s.cursor (x { s with cursor := ⟨tokens, 0⟩, depth := s.depth + 1 }) := by
  unfold Asm.nested
  cases x { s with cursor := ⟨tokens, 0⟩, depth := s.depth + 1 } with
  | ok _ u => rfl
  | error e u => rfl

/-- A use of a macro comes to what the statements come to that it stands for, however these are
carried out. -/
theorem Enters.body_eq (h : s.Enters t) :
    ∃ c, (∀ x, Asm.statementBody (do Asm.nested (← Asm.macroUse) x) s.onLine = behindUse c (x t)) ∧
      s.body = behindUse c (t.onward (t.cursor.remaining + 1)) := by
  have hbody := h.statementBody_eq
  obtain ⟨hdepth, hlt⟩ := h.depth
  obtain ⟨-, -, tokens, s₁, huse, rfl⟩ := h
  obtain ⟨n, hn⟩ := Nat.exists_eq_succ_of_ne_zero (Nat.sub_ne_zero_of_lt hlt)
  refine ⟨s₁.cursor, fun x => ?_, ?_⟩
  · rw [hbody]
    exact (bind_of_ok huse _).trans (nested_eq tokens x s₁)
  · rw [body, hbody, hn]
    refine (bind_of_ok huse _).trans ((nested_eq tokens _ s₁).trans ?_)
    unfold onward
    rw [hdepth, show maxDepth - (s.depth + 1) = n by omega]
    rfl

section Related

variable {R : Assembler → Assembler → Prop} [Std.Refl R] [Trans R R R]

theorem behind_body (hR : ∀ s c, s.cursor.Forward c → R s (s.movedTo c)) (s : Assembler) :
    R (stateAfter s.body) (stateAfter s.first) :=
  Relates.behind (fun _ => .bind (Asm.relates_ofParser hR Parser.relates_expectEnd) fun _ =>
    Asm.relates_ofParser hR Parser.relates_skipNewlines) s.onLine

/-- What a use of a macro does besides the statements that it stands for. -/
theorem Enters.framed (hR : ∀ (s : Assembler) c n, R s { s with cursor := c, depth := n })
    (h : s.Enters t) :
    R s t ∧ R (stateAfter (t.onward (t.cursor.remaining + 1))) (stateAfter s.first) := by
  obtain ⟨c, -, hbody⟩ := h.body_eq
  have hbehind := behind_body (fun s c _ => hR s c s.depth) s
  rw [hbody] at hbehind
  constructor
  · obtain ⟨-, -, tokens, s₁, huse, rfl⟩ := h
    obtain ⟨c', rfl, -⟩ := Asm.macroUse_eq_ok huse
    exact hR s _ _
  · cases ht : t.onward (t.cursor.remaining + 1) with
    | ok _ u => exact Trans.trans (hR u _ _) (ht ▸ hbehind)
    | error e u => exact Trans.trans (hR u _ _) (ht ▸ hbehind)

/-- What can become of a statement that uses no macro: it is a directive or an instruction, or it
fails where nothing but the cursor has been moved. -/
theorem plain_cases (hR : ∀ s c, s.cursor.Forward c → R s (s.movedTo c))
    (h : ∀ t, ¬ s.Enters t) :
    (s.onLine.cursor.current.kind = .directive ∧
      s.body = Asm.directive (s.onLine.movedTo s.onLine.cursor.next)) ∨
    (s.onLine.cursor.current.kind = .name ∧ ∃ op, s.body = Asm.instruction op s.onLine) ∨
    (s.onLine.cursor.current.kind ≠ .directive ∧ R s.onLine (stateAfter s.body)) := by
  unfold body
  rcases Asm.statementBody_cases (Asm.expansion (maxDepth - s.depth)) s.onLine with
    hdirective | ⟨op, -, hkind, hbody⟩ | ⟨hkind, hop, hbody⟩ | ⟨hkind, -, e, hbody⟩
  · exact Or.inl hdirective
  · exact Or.inr (Or.inl ⟨hkind, op, hbody⟩)
  · refine Or.inr (Or.inr ⟨by rw [hkind]; decide, ?_⟩)
    cases huse : Asm.macroUse s.onLine with
    | ok tokens s₁ => exact absurd ⟨hkind, hop, tokens, s₁, huse, rfl⟩ (h _)
    | error e s₁ =>
      rw [hbody, Asm.expansion_of_error huse]
      exact (Asm.relates_macroUse hR).of_error huse
  · rw [hbody]
    exact Or.inr (Or.inr ⟨hkind, Std.Refl.refl s.onLine⟩)

end Related

/-! ## All steps -/

/-- What holds of every statement and of the results of those from every statement on: of a use of
a macro because of the statements that it stands for, and of statements because of the first of
them. The induction is on the uses that can still be nested and, in one list of tokens, on those
that are left. -/
theorem Consistent.walk {P : Assembler → Prop}
    {Q : Assembler → EStateM.Result AssemblyError Assembler Unit → Prop}
    (hplain : ∀ s, s.Consistent → (∀ t, ¬ s.Enters t) → P s)
    (henter : ∀ s t, s.Consistent → s.Enters t → Q t (t.onward (t.cursor.remaining + 1)) → P s)
    (hend : ∀ s, s.onLine.cursor.atEnd = true → Q s (.ok () s.onLine))
    (hpass : ∀ s t r, s.Consistent → s.Passes t → P s → Q t r → Q s r)
    (hfail : ∀ s e t, s.Consistent → s.onLine.cursor.atEnd = false → s.first = .error e t → P s →
      Q s (.error e ((s.undone t).movedTo t.cursor.skipLine)))
    (hs : s.Consistent) : P s ∧ ∀ n, s.cursor.remaining < n → Q s (s.onward n) := by
  induction hk : maxDepth - s.depth using Nat.strong_induction_on generalizing s with
  | _ k ih =>
    have hfirst : ∀ s, s.Consistent → maxDepth - s.depth = k → P s := by
      intro s hs hk
      by_cases huse : ∃ t, s.Enters t
      · obtain ⟨t, ht⟩ := huse
        have hdepth := ht.depth
        exact henter s t hs ht
          ((ih _ (by omega) (ht.consistent hs) rfl).2 _ (Nat.lt_succ_self _))
      · exact hplain s hs (not_exists.mp huse)
    refine ⟨hfirst s hs hk, fun n => ?_⟩
    induction n generalizing s with
    | zero => exact fun hn => absurd hn (Nat.not_lt_zero _)
    | succ n ihn =>
      intro hn
      by_cases hstop : s.onLine.cursor.atEnd = true
      · unfold onward
        rw [Asm.statements_succ, if_pos hstop]
        exact hend s hstop
      · have hgo : s.onLine.cursor.atEnd = false := by simpa using hstop
        cases hstep : s.first with
        | ok _ s₁ =>
          have ht : s.Passes s₁.counted := ⟨hgo, s₁, hstep, rfl⟩
          have hless := ht.remaining_lt hs
          rw [ht.onward_eq hs]
          exact hpass s _ _ hs ht (hfirst s hs hk)
            (ihn (ht.consistent hs) ((ht.depth hs).symm ▸ hk) (by omega))
        | error e t =>
          rw [onward_of_error hs hgo hstep]
          exact hfail s e t hs hgo hstep (hfirst s hs hk)

end Assembler

end CellMachine
