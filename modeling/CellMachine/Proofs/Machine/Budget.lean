import CellMachine.Proofs.Machine.Stepper

/-!
# Runs in several parts

A run stops when its budget is used up, when the program ends, and at a fault. A program that was
stopped by its budget goes on where it was, and one that has ended stays as it is, so that a run
that did not fault is continued by another as if there had been one (`Machine.run_add_of_ok`).

`Machine.Finishes` is the run without a budget, as a relation : it has no derivation for a program
that goes on forever. A budget that was enough has led to where it leads
(`Machine.finishes_of_run`), and so does the run without a limit (`Machine.Finishes.runOn_eq`).
-/

namespace CellMachine.Machine

variable {s s' : Machine} {result : Except RunError Outcome}

/-! ## Parts of a run -/

theorem run_succ_of_ok {s₁ : Machine} {outcome : Outcome} (h : s.halted = none)
    (hstep : s.step = (.ok outcome, s₁)) (n : Nat) : s.run (n + 1) = s₁.run n := by
  conv_lhs => unfold run
  simp only [h, hstep]

/-- A run that did not fault can be continued, wherever its budget has stopped it. -/
theorem run_add_of_ok {a : Nat} {outcome : Outcome} (h : s.run a = (.ok outcome, s')) (b : Nat) :
    s'.run b = s.run (a + b) := by
  fun_induction run s a with
  | case1 a s code hhalted =>
    cases h
    rw [run_of_halted hhalted, run_of_halted hhalted]
  | case2 s =>
    cases h
    rw [Nat.zero_add]
  | case3 s a hhalted outcome' s₁ hstep ih =>
    rw [Nat.succ_add, run_succ_of_ok hhalted hstep]
    exact ih h
  | case4 => cases h

/-! ## Runs to the end -/

/-- Instructions are carried out until the program ends or faults. -/
inductive Finishes : Machine → Except RunError Outcome → Machine → Prop where
  | ended {s : Machine} {code : Int64} (h : s.halted = some code) :
      Finishes s (.ok (.halted code)) s
  | faulted {s s' : Machine} {e : RunError} (h : s.halted = none) (hstep : s.step = (.error e, s')) :
      Finishes s (.error e) s'
  | next {s s₁ s' : Machine} {outcome : Outcome} {result : Except RunError Outcome}
      (h : s.halted = none) (hstep : s.step = (.ok outcome, s₁)) (hrest : Finishes s₁ result s') :
      Finishes s result s'

/-- A run that its budget has not stopped has come to the end. -/
theorem finishes_of_run {n : Nat} (h : s.run n = (result, s')) (hresult : result ≠ .ok .paused) :
    Finishes s result s' := by
  fun_induction run s n with
  | case1 n s code hhalted =>
    cases h
    exact .ended hhalted
  | case2 =>
    cases h
    exact absurd rfl hresult
  | case3 s n hhalted outcome s₁ hstep ih => exact .next hhalted hstep (ih h)
  | case4 s n hhalted e s₁ hstep =>
    cases h
    exact .faulted hhalted hstep

/-- A program that comes to its end leaves no way to go on forever. -/
theorem Finishes.acc (h : Finishes s result s') : Acc StepsFrom s := by
  induction h with
  | ended hhalted =>
    refine .intro _ fun t ht => ?_
    cases hhalted.symm.trans ht.1
  | faulted hhalted hstep =>
    refine .intro _ fun t ht => ?_
    obtain ⟨-, outcome, hok⟩ := ht
    cases hstep.symm.trans hok
  | next hhalted hstep _ ih =>
    refine .intro _ fun t ht => ?_
    obtain ⟨-, outcome, hok⟩ := ht
    cases hstep.symm.trans hok
    exact ih

/-- Where a run without a limit comes to an end, it goes round by round. -/
theorem runOn_of_acc (h : Acc StepsFrom s) : s.runOn = s.runOnce fun t _ => t.runOn :=
  @WellFounded.partialExtrinsicFix_eq_apply_of_acc _ _ nonempty_result _ runOnce s h

theorem Finishes.runOn_eq (h : Finishes s result s') : s.runOn = (result, s') := by
  induction h with
  | ended hhalted =>
    rw [runOn_of_acc (Finishes.ended hhalted).acc]
    grind [runOnce]
  | faulted hhalted hstep =>
    rw [runOn_of_acc (Finishes.faulted hhalted hstep).acc]
    grind [runOnce]
  | next hhalted hstep hrest ih =>
    rw [runOn_of_acc (Finishes.next hhalted hstep hrest).acc]
    grind [runOnce]

/-- A run can be divided anywhere : as long as it does not fault, its parts give what a single run
over both budgets gives, and leave the machine as that does. A budget that has not stopped a run
might as well not have been there. -/
theorem interpret_divided (s : Machine) :
    (∀ a b, (s.interpret (some a)).1.isOk = true →
      (s.interpret (some a)).2.interpret (some b) = s.interpret (some (a + b))) ∧
    ∀ n, (s.interpret (some n)).1 ≠ .ok .paused → s.interpret none = s.interpret (some n) := by
  refine ⟨fun a b hok => ?_, fun n hresult => ?_⟩
  · rcases hrun : s.run a with ⟨result, s'⟩
    simp only [interpret, hrun] at hok ⊢
    cases result with
    | ok outcome => exact run_add_of_ok hrun b
    | error e => cases hok
  · rcases hrun : s.run n with ⟨result, s'⟩
    simp only [interpret, hrun] at hresult ⊢
    exact (finishes_of_run hrun hresult).runOn_eq

/-- The second budget ends exactly on the instruction that ends the program. -/
theorem interpret_divided_brief :
    (Stepper.brief.interpret (some 2)).1 = .ok .paused ∧
      ((Stepper.brief.interpret (some 2)).2.interpret (some 1)).1 = .ok (.halted 0) ∧
      (Stepper.brief.interpret none).1 = .ok (.halted 0) := by
  have hpaused : (Stepper.brief.interpret (some 2)).1 = .ok .paused := by cbv
  have hended : (Stepper.brief.interpret (some 3)).1 = .ok (.halted 0) := by cbv
  obtain ⟨hparts, hunlimited⟩ := interpret_divided Stepper.brief
  refine ⟨hpaused, ?_, ?_⟩
  · rw [hparts 2 1 (by rw [hpaused]; rfl)]
    exact hended
  · rw [hunlimited 3 (by rw [hended]; decide)]
    exact hended

end CellMachine.Machine
