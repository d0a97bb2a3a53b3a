import CellMachine.Proofs.Assembly.Rollback
import Mathlib

/-!
# Feeding tokens

A feed takes one statement of the source after the other (`Assembler.Takes`) until the tokens
end or a statement fails. What statements keep, taken or failing, holds of all assemblers that
feeds lead to (`Assembler.Invariant.reachable`). These have their index in order and no macro open,
so that a failing feed is back where its last statement has left it, but for the cursor, the macros
and what has been cut off the static data (`Assembler.feed_run`).
-/

namespace CellMachine

namespace Assembler

/-- The assembler with its cursor behind empty lines. -/
def onLine (s : Assembler) : Assembler := { s with cursor := s.cursor.skipNewlines }

/-- One more statement of the source is assembled. -/
def Takes (s s' : Assembler) : Prop :=
  ∃ s₁, s.onLine.cursor.atEnd = false ∧
    Asm.statement (Asm.expansion maxDepth) s.onLine = .ok () s₁ ∧
    s' = { s₁ with statements := s₁.statements + 1 }

/-- The assembler with one more statement counted, unless a macro stands for it. -/
def counted (s : Assembler) : Assembler :=
  if s.depth = 0 then { s with statements := s.statements + 1 } else s

/-- The next statement of the source fails and leaves `s'` in front of its undoing. -/
def Fails (s : Assembler) (e : AssemblyError) (s' : Assembler) : Prop :=
  s.onLine.cursor.atEnd = false ∧ Asm.statement (Asm.expansion maxDepth) s.onLine = .error e s'

/-- The index is in order and no macro is being expanded. -/
structure Settled (s : Assembler) : Prop where
  consistent : s.Consistent
  depth : s.depth = 0

variable {s s' : Assembler}

theorem Extends.settled (h : s.Extends s') (hs : s.Settled) : s'.Settled :=
  ⟨h.consistent hs.consistent, h.depth.trans hs.depth⟩

theorem extends_onLine (s : Assembler) : s.Extends s.onLine :=
  (Asm.extends_ofParser Parser.relates_skipNewlines).of_ok (a := ()) rfl

theorem Settled.onLine (hs : s.Settled) : s.onLine.Settled :=
  (extends_onLine s).settled hs

theorem Settled.counted (hs : s.Settled) : s.counted.Settled := by
  unfold Assembler.counted
  split
  · exact ⟨hs.consistent.of_eq rfl rfl rfl rfl, hs.depth⟩
  · exact hs

theorem extends_of_statement (hs : s.Settled)
    (h : Asm.statement (Asm.expansion maxDepth) s = .ok () s') : s.Extends s' :=
  (Asm.grows_statement (Asm.grows_expansion _)).of_ok h hs.consistent

theorem Takes.settled (h : s.Takes s') (hs : s.Settled) : s'.Settled := by
  obtain ⟨s₁, -, hstatement, rfl⟩ := h
  have hs₁ := (extends_of_statement hs.onLine hstatement).settled hs.onLine
  exact ⟨hs₁.consistent.of_eq rfl rfl rfl rfl, hs₁.depth⟩

theorem settled_of_takes (h : Relation.ReflTransGen Takes s s') (hs : s.Settled) : s'.Settled := by
  induction h with
  | refl => exact hs
  | tail _ hstep ih => exact hstep.settled ih

end Assembler

namespace Asm

open Assembler (Takes Fails Settled)

/-- One statement and what comes behind it, unless the tokens are at their end. -/
theorem round_apply (x rest : Asm Unit) (s : Assembler) :
    (do
      Parser.skipNewlines
      if (← get).cursor.atEnd then return ()
      else do
        attempt x
        countStatement
        rest : Asm Unit) s =
      if s.onLine.cursor.atEnd then .ok () s.onLine
      else
        match attempt x s.onLine with
        | .ok () s₁ => rest s₁.counted
        | .error e s₁ => .error e s₁ := by
  change (if s.onLine.cursor.atEnd then pure () else _ : Asm Unit) s.onLine = _
  by_cases hend : s.onLine.cursor.atEnd = true
  · rw [if_pos hend, if_pos hend]
    rfl
  · rw [if_neg hend, if_neg hend]
    change EStateM.bind (attempt x) _ s.onLine = _
    unfold EStateM.bind
    cases attempt x s.onLine with
    | ok _ s₁ => rfl
    | error e s₁ => rfl

theorem statements_succ (expand : Asm Unit) (n : Nat) (s : Assembler) :
    statements expand (n + 1) s =
      if s.onLine.cursor.atEnd then .ok () s.onLine
      else
        match attempt (statement expand) s.onLine with
        | .ok () s₁ => statements expand n s₁.counted
        | .error e s₁ => .error e s₁ :=
  round_apply (statement expand) (statements expand n) s

/-- The statements of the source are taken one by one, up to the end of the tokens or to one
that fails. -/
theorem statements_run {s : Assembler} (hs : s.Settled) (n : Nat) :
    ∃ s₁, Relation.ReflTransGen Takes s s₁ ∧
      match statements (expansion maxDepth) n s with
      | .ok () s' => s' = s₁ ∨ s' = s₁.onLine
      | .error e s' => ∃ s₂, s₁.Fails e s₂ ∧
          s' = (s₁.undone s₂).movedTo s₂.cursor.skipLine := by
  induction n generalizing s with
  | zero => exact ⟨s, .refl, Or.inl rfl⟩
  | succ n ih =>
    rw [statements_succ]
    by_cases hend : s.onLine.cursor.atEnd = true
    · rw [if_pos hend]
      exact ⟨s, .refl, Or.inr rfl⟩
    · rw [if_neg hend]
      have hnot : s.onLine.cursor.atEnd = false := by simpa using hend
      cases hstep : attempt (statement (expansion maxDepth)) s.onLine with
      | ok _ s₁ =>
        have hok := attempt_eq_ok.mp hstep
        have hdepth := ((Assembler.extends_of_statement hs.onLine hok).settled hs.onLine).depth
        have htakes : s.Takes s₁.counted :=
          ⟨s₁, hnot, hok, by rw [Assembler.counted, if_pos hdepth]⟩
        obtain ⟨s₂, hrun, hresult⟩ := ih (htakes.settled hs)
        exact ⟨s₂, .head htakes hrun, hresult⟩
      | error e s' =>
        -- The first failing statement ends the run, so nothing is taken and only it is undone.
        obtain ⟨s₂, hfail, rfl⟩ :=
          attempt_eq_error (grows_statement (grows_expansion _)) hs.onLine.consistent hstep
        exact ⟨s, .refl, s₂, ⟨hnot, hfail⟩, rfl⟩

end Asm

namespace Assembler

/-- The assembler at the place in `tokens` where the last list ended. -/
def fedWith (s : Assembler) (tokens : Array Token) : Assembler :=
  { s with cursor := ⟨tokens, s.cursor.pos⟩ }

variable {s : Assembler}

theorem Settled.fedWith (hs : s.Settled) (tokens : Array Token) : (s.fedWith tokens).Settled :=
  ⟨hs.consistent.of_eq rfl rfl rfl rfl, hs.depth⟩

theorem feed_eq (s : Assembler) (tokens : Array Token) :
    s.feed tokens = match Asm.statements (Asm.expansion maxDepth)
        ((s.fedWith tokens).cursor.remaining + 1) (s.fedWith tokens) with
      | .ok () s => (.ok (), s)
      | .error e s => (.error e, s) := rfl

/-- The result of a feed as that of an action. -/
theorem feed_eq_outcome (s : Assembler) (tokens : Array Token) :
    s.feed tokens =
      (outcome (Asm.statements (Asm.expansion maxDepth) ((s.fedWith tokens).cursor.remaining + 1)
          (s.fedWith tokens)),
        stateAfter (Asm.statements (Asm.expansion maxDepth)
          ((s.fedWith tokens).cursor.remaining + 1) (s.fedWith tokens))) := by
  rw [feed_eq]
  cases Asm.statements (Asm.expansion maxDepth) ((s.fedWith tokens).cursor.remaining + 1)
      (s.fedWith tokens) with
  | ok _ s' => rfl
  | error e s' => rfl

/-- What a feed leads to. -/
theorem feed_run (hs : s.Settled) (tokens : Array Token) :
    ∃ s₁, Relation.ReflTransGen Takes (s.fedWith tokens) s₁ ∧
      match s.feed tokens with
      | (.ok (), s') => s' = s₁ ∨ s' = s₁.onLine
      | (.error e, s') => ∃ s₂, s₁.Fails e s₂ ∧
          s' = (s₁.undone s₂).movedTo s₂.cursor.skipLine := by
  obtain ⟨s₁, hrun, hresult⟩ :=
    Asm.statements_run (hs.fedWith tokens) ((s.fedWith tokens).cursor.remaining + 1)
  refine ⟨s₁, hrun, ?_⟩
  rw [feed_eq]
  cases h : Asm.statements (Asm.expansion maxDepth) ((s.fedWith tokens).cursor.remaining + 1)
      (s.fedWith tokens) with
  | ok _ s' => rwa [h] at hresult
  | error e s' => rwa [h] at hresult

/-- The assemblers that feeds lead to, failing ones included. -/
inductive Reachable (name : String) : Assembler → Prop
  | empty : Reachable name (empty name)
  | feed {s : Assembler} (tokens : Array Token) :
    Reachable name s → Reachable name (s.feed tokens).2

/-- What the statements of the source keep, wherever the cursor stands. A statement that fails keeps
it with the macros and the static data that it leaves behind. -/
structure Invariant (P : Assembler → Prop) : Prop where
  movedTo : ∀ {s : Assembler} (c : Cursor), P s → P (s.movedTo c)
  takes : ∀ {s s' : Assembler}, s.Takes s' → s.Settled → P s → P s'
  fails : ∀ {s s' : Assembler} {e : AssemblyError}, s.Fails e s' → s.Settled → P s →
    P (s.undone s')

namespace Invariant

variable {P : Assembler → Prop} {s s' : Assembler}

theorem run (hP : Invariant P) (h : Relation.ReflTransGen Takes s s') (hs : s.Settled)
    (hstart : P s) : P s' := by
  induction h with
  | refl => exact hstart
  | tail hrun hstep ih => exact hP.takes hstep (settled_of_takes hrun hs) ih

/-- A feed keeps it, whether it fails or not. -/
theorem feed (hP : Invariant P) (hs : s.Settled) (hstart : P s) (tokens : Array Token) :
    P (s.feed tokens).2 := by
  obtain ⟨s₁, hrun, hresult⟩ := feed_run hs tokens
  have h₁ := hP.run hrun (hs.fedWith tokens) (hP.movedTo _ hstart)
  cases h : s.feed tokens with
  | mk r s' =>
    cases r with
    | ok _ =>
      simp only [h] at hresult
      rcases hresult with rfl | rfl
      · exact h₁
      · exact hP.movedTo _ h₁
    | error e =>
      simp only [h] at hresult
      obtain ⟨s₂, hfails, rfl⟩ := hresult
      have hs₁ := settled_of_takes hrun (hs.fedWith tokens)
      exact hP.movedTo _ (hP.fails hfails hs₁ h₁)

end Invariant

theorem invariant_settled : Invariant Settled where
  movedTo _ hs := ⟨hs.consistent.of_eq rfl rfl rfl rfl, hs.depth⟩
  takes h hs _ := h.settled hs
  fails _ hs _ := ⟨hs.consistent.of_eq rfl rfl rfl rfl, hs.depth⟩

theorem settled_feed (hs : s.Settled) (tokens : Array Token) : (s.feed tokens).2.Settled :=
  invariant_settled.feed hs hs tokens

theorem Reachable.settled {name : String} (h : Reachable name s) : s.Settled := by
  induction h with
  | empty => exact ⟨consistent_empty name, rfl⟩
  | feed tokens _ ih => exact settled_feed ih tokens

theorem Invariant.reachable {P : Assembler → Prop} (hP : Invariant P) {name : String}
    (hempty : P (empty name)) (h : Reachable name s) : P s := by
  induction h with
  | empty => exact hempty
  | feed tokens hs ih => exact hP.feed hs.settled ih tokens

end Assembler

end CellMachine
