import CellMachine.Machine.Stepper
import CellMachine.Proofs.Machine.Fault
import CellMachine.Proofs.Machine.Primitives

/-!
# A stepper loses and invents no steps

The host of a stepper grants steps while its worker takes and carries them out, in any order. A
`Stepper.Tally` counts beside the stepper what was granted, taken and carried out. Whatever has
happened, what was granted is what is pending and what was taken, and the machine has come as many
steps as the worker has carried out (`Stepper.Tally.Kept`). So when there is nothing left to wait
for, the machine is where a single run over all granted steps would have left it, and the host is
told what that run would have given (`Stepper.agrees_after`).

The one exception is a program that had ended before its worker began. A run says so whatever its
limit is, but the worker looks at the machine only to carry out a step, so that the host is told
that the worker is idle as long as no step is granted (`Stepper.wait_ended_idle`).
-/

namespace CellMachine

/-! ## Steps that end a program, and those that do not -/

theorem Relates.relator {ε σ : Type} (R : σ → σ → Prop) [Std.Refl R] [Trans R R R] :
    Relator (fun _ _ : σ => True) (fun {α} (x _ : EStateM ε σ α) => Relates R x) where
  pure a := .pure a
  bind_of_ok {α β x _ f _} hx hf := by
    intro s
    have hs := hx s
    change R s (stateAfter (EStateM.bind x f s))
    unfold EStateM.bind
    cases h : x s with
    | ok a s₁ =>
      rw [h] at hs
      exact Trans.trans hs (hf s s a s₁ trivial h s₁)
    | error e s₁ =>
      rw [h] at hs
      exact hs
  observe _ hf s := hf _ ⟨s, s, trivial, rfl⟩ s

namespace Exec

theorem sameCount_updateMemory (s : Machine) (f : Memory → Memory) :
    SameCount s (s.updateMemory f) := ⟨rfl, rfl⟩

theorem sameCount_grantedFunction (site : CallSite) :
    Relates SameCount (Primitives.grantedFunction site) := by
  intro s
  rcases Primitives.grantedFunction_cases site s with ⟨e, h⟩ | ⟨p, -, h⟩ | ⟨f, -, h⟩
  · rw [h]
    exact ⟨rfl, rfl⟩
  · rw [h]
    exact ⟨rfl, rfl⟩
  · rw [h]
    exact ⟨rfl, rfl⟩

/-- Only the machine itself counts steps and ends a program; its operations do not. -/
theorem alike_sameCount :
    Primitives.Alike (fun _ _ : Machine => True)
      (fun {α} (x _ : Exec α) => Relates SameCount x) Primitives.machine Primitives.machine where
  toRelator := Relates.relator SameCount
  fault f := .throw f
  operand _ _ := .pure _
  fixedOperand _ _ := .pure _
  typed _ := rfl
  arguments _ := .pure _
  sum _ _ := rfl
  addSizes _ := .pure _
  register _ := .bind .get fun _ => .pure _
  setRegister _ _ := .modify fun s => sameCount_updateMemory s _
  load _ _ := sameCount_ofMemory _
  store _ _ _ := sameCount_ofMemory _
  read _ _ := sameCount_ofMemory _
  write _ _ := sameCount_ofMemory _
  readText _ := sameCount_ofMemory _
  checkWritable _ _ := sameCount_ofMemory _
  pushCell _ _ := sameCount_ofMemory _
  popCell _ := sameCount_ofMemory _
  stackAdd _ := sameCount_ofMemory _
  stackSub _ := sameCount_ofMemory _
  pushFrame := sameCount_ofMemory _
  popFrame := sameCount_ofMemory _
  alloc _ := sameCount_ofMemory _
  free _ := sameCount_ofMemory _
  function := sameCount_grantedFunction
  invoke _ _ _ := sameCount_ofHost _

theorem sameCount_execute {i : Instruction} (hi : i.Shaped) (cp : Address) :
    Relates SameCount (execute i cp) := by
  rw [execute_eq hi]
  exact alike_sameCount.execute hi i.size cp

end Exec

namespace Machine

variable {s s' : Machine}

/-- A step that succeeds leaves a program that goes on, or one that has ended. -/
theorem step_eq_ok {outcome : Outcome} (h : s.step = (.ok outcome, s')) :
    outcome = .paused ∧ s.halted = none ∧ s'.halted = none ∨
      ∃ code, outcome = .halted code ∧ s'.halted = some code := by
  unfold step at h
  cases hhalted : s.halted with
  | some code =>
    simp only [hhalted] at h
    cases h
    exact .inr ⟨code, rfl, hhalted⟩
  | none =>
    simp only [hhalted] at h
    cases hfetch : s.fetch (s.memory.pointer .cp) with
    | fault f => simp [hfetch] at h
    | endOfCode =>
      simp only [hfetch] at h
      cases h
      exact .inr ⟨_, rfl, rfl⟩
    | instruction i =>
      cases hexecute : Exec.execute i (s.memory.pointer .cp) s with
      | error f s₁ => simp [hfetch, hexecute] at h
      | ok u s₁ =>
        simp only [hfetch, hexecute] at h
        split at h
        · cases h
          exact .inr ⟨_, rfl, rfl⟩
        · obtain ⟨code, hdecode⟩ := fetch_eq_instruction hfetch
          have hcount := (Exec.sameCount_execute (shaped_of_decode hdecode) _).of_ok hexecute
          cases h
          exact .inl ⟨rfl, rfl, hcount.1.trans hhalted⟩

theorem halted_of_paused (h : s.step = (.ok .paused, s')) :
    s.halted = none ∧ s'.halted = none := by
  obtain ⟨-, hhalted⟩ | ⟨code, hcode, -⟩ := step_eq_ok h
  · exact hhalted
  · cases hcode

theorem halted_of_ended {code : Int64} (h : s.step = (.ok (.halted code), s')) :
    s'.halted = some code := by
  obtain ⟨houtcome, -⟩ | ⟨code, hcode, hhalted⟩ := step_eq_ok h
  · cases houtcome
  · cases hcode
    exact hhalted

/-- So many steps lead from one machine to another, and none of them ends the program. -/
def Advances : Nat → Machine → Machine → Prop
  | 0, s, s' => s' = s
  | n + 1, s, s' => ∃ s₁, Advances n s s₁ ∧ s₁.step = (.ok .paused, s')

/-- The last of so many steps ends the program, or fails. -/
def Ends (n : Nat) (s s' : Machine) (result : Except RunError Outcome) : Prop :=
  result ≠ .ok .paused ∧ ∃ k s₁, n = k + 1 ∧ Advances k s s₁ ∧ s₁.step = (result, s')

theorem run_of_halted {code : Int64} (h : s.halted = some code) (n : Nat) :
    s.run n = (.ok (.halted code), s) := by
  unfold run
  rw [h]

theorem run_of_paused (h : s.step = (.ok .paused, s')) (n : Nat) : s.run (n + 1) = s'.run n := by
  conv_lhs => unfold run
  rw [(halted_of_paused h).1]
  simp only [h]

theorem run_of_step {result : Except RunError Outcome} (h : s.step = (result, s'))
    (hresult : result ≠ .ok .paused) (n : Nat) : s.run (n + 1) = (result, s') := by
  cases hhalted : s.halted with
  | some code =>
    -- A program that has ended stays as it is, in a step as in a run.
    have hstep : s.step = (.ok (.halted code), s) := by
      unfold step
      rw [hhalted]
    rw [run_of_halted hhalted, ← h, hstep]
  | none =>
    unfold run
    rw [hhalted]
    simp only [h]
    cases result with
    | error e => rfl
    | ok outcome =>
      cases outcome with
      | paused => exact absurd rfl hresult
      | halted code => exact run_of_halted (halted_of_ended h) n

theorem Advances.run {k : Nat} (h : Advances k s s') (n : Nat) : s.run (k + n) = s'.run n := by
  induction k generalizing s' n with
  | zero =>
    cases h
    rw [Nat.zero_add]
  | succ k ih =>
    obtain ⟨s₁, hadvances, hstep⟩ := h
    rw [Nat.add_assoc, ih hadvances, Nat.add_comm 1 n, run_of_paused hstep]

theorem Ends.run {k n : Nat} {result : Except RunError Outcome} (h : Ends k s s' result)
    (hn : k ≤ n) : s.run n = (result, s') := by
  obtain ⟨hresult, k, s₁, rfl, hadvances, hstep⟩ := h
  obtain ⟨d, rfl⟩ := Nat.le.dest hn
  rw [Nat.add_assoc, hadvances.run, Nat.add_comm 1 d, run_of_step hstep hresult]

/-- A program that has not ended has not ended after some steps either. -/
theorem Advances.halted {k : Nat} (h : Advances k s s') (hs : s.halted = none ∨ 0 < k) :
    s'.halted = none := by
  cases k with
  | zero =>
    cases h
    exact hs.resolve_right (Nat.lt_irrefl 0)
  | succ k =>
    obtain ⟨s₁, -, hstep⟩ := h
    exact (halted_of_paused hstep).2

end Machine

/-- What the host is told after a run. -/
def RunState.ofResult : Except RunError Outcome → RunState
  | .ok .paused => .idle
  | .ok (.halted code) => .halted code
  | .error e => .faulted e

theorem RunState.isFinished_ofResult {result : Except RunError Outcome}
    (h : result ≠ .ok .paused) : (ofResult result).isFinished = true := by
  cases result with
  | error e => rfl
  | ok outcome =>
    cases outcome with
    | paused => exact absurd rfl h
    | halted code => rfl

namespace Stepper

variable {machine machine' : Machine} {pending : Nat} {run : RunState}

theorem work_waiting (h : pending ≠ 0) :
    work ⟨machine, pending, run, .waiting⟩ = ⟨machine, pending, .running, .taking⟩ :=
  if_neg h

theorem work_taking (h : pending ≠ 0) (hbound : pending < unbounded) :
    work ⟨machine, pending, run, .taking⟩ = ⟨machine, pending - 1, run, .stepping⟩ :=
  (if_neg h).trans (if_neg (Nat.ne_of_lt hbound))

theorem work_stepping_paused (h : machine.step = (.ok .paused, machine')) :
    work ⟨machine, pending, run, .stepping⟩ = ⟨machine', pending, run, .taking⟩ := by
  rw [work, h]

theorem work_stepping_ended {result : Except RunError Outcome}
    (h : machine.step = (result, machine')) (hresult : result ≠ .ok .paused) :
    work ⟨machine, pending, run, .stepping⟩ =
      ⟨machine', pending, run, .reporting (some (.ofResult result))⟩ := by
  rw [work, h]
  cases result with
  | error e => rfl
  | ok outcome =>
    cases outcome with
    | paused => exact absurd rfl hresult
    | halted code => rfl

/-! ## Histories -/

/-- What happens to a stepper : its host grants steps, or its worker acts. -/
inductive Event where
  | grant (n : Nat)
  | work

/-- A stepper, and the steps counted that have been granted, taken and carried out. -/
structure Tally where
  stepper : Stepper
  granted : Nat
  taken : Nat
  carried : Nat

namespace Tally

def ofMachine (s : Machine) : Tally := ⟨.ofMachine s, 0, 0, 0⟩

/-- A program that has ended is granted no steps. The worker takes a step where one is pending,
and carries it out in an action of its own. -/
def next (t : Tally) : Event → Tally
  | .grant n =>
    ⟨t.stepper.grant n, if t.stepper.run.isFinished then t.granted else t.granted + n, t.taken,
      t.carried⟩
  | .work =>
    ⟨t.stepper.work, t.granted,
      if t.stepper.worker = .taking ∧ t.stepper.pending ≠ 0 then t.taken + 1 else t.taken,
      if t.stepper.worker = .stepping then t.carried + 1 else t.carried⟩

def after (t : Tally) (events : List Event) : Tally := events.foldl next t

/-- How far the machine has come, and what the host sees, by what the worker does next. -/
def Progress (start : Machine) (t : Tally) : Prop :=
  match t.stepper.worker with
  | .waiting => t.stepper.run = .idle ∧ start.Advances t.carried t.stepper.machine
  | .taking => t.stepper.run = .running ∧ start.Advances t.carried t.stepper.machine
  | .stepping => t.stepper.run = .running ∧ start.Advances t.carried t.stepper.machine
  | .reporting none => t.stepper.run = .running ∧ start.Advances t.carried t.stepper.machine
  | .reporting (some r) => t.stepper.run = .running ∧
      ∃ result, r = .ofResult result ∧ start.Ends t.carried t.stepper.machine result
  | .done =>
      ∃ result, t.stepper.run = .ofResult result ∧ start.Ends t.carried t.stepper.machine result

/-- What every history keeps. -/
structure Kept (start : Machine) (t : Tally) : Prop where
  /-- No step is lost or invented. -/
  balance : t.stepper.run.isFinished = false → t.granted = t.stepper.pending + t.taken
  taken_le : t.taken ≤ t.granted
  /-- What was taken is carried out, but for the step that the worker holds. -/
  taken_eq : t.taken = t.carried + if t.stepper.worker = .stepping then 1 else 0
  progress : t.Progress start

theorem kept_ofMachine (start : Machine) : (ofMachine start).Kept start where
  balance _ := rfl
  taken_le := Nat.le_refl 0
  taken_eq := rfl
  progress := ⟨rfl, rfl⟩

namespace Kept

variable {start : Machine} {t : Tally}

theorem grant (h : t.Kept start) (n : Nat) (hn : (t.next (.grant n)).granted < unbounded) :
    (t.next (.grant n)).Kept start := by
  unfold next at hn ⊢
  unfold Stepper.grant
  cases hfinished : t.stepper.run.isFinished with
  | true => exact ⟨h.balance, h.taken_le, h.taken_eq, h.progress⟩
  | false =>
    simp only [hfinished, Bool.false_eq_true, if_false] at hn ⊢
    have hbalance := h.balance hfinished
    -- So few steps are granted that the sum of those pending is not cut.
    have hpending : min (t.stepper.pending + n) unbounded = t.stepper.pending + n := by omega
    have hle := h.taken_le
    exact ⟨fun _ => by simp only [hpending]; omega, by dsimp only; omega, h.taken_eq, h.progress⟩

theorem work (h : t.Kept start) (hgranted : t.granted < unbounded) :
    (t.next .work).Kept start := by
  obtain ⟨⟨machine, pending, run, worker⟩, granted, taken, carried⟩ := t
  obtain ⟨hbalance, hle, htaken, hprogress⟩ := h
  dsimp only at hgranted hbalance hle htaken
  cases worker with
  | waiting =>
    obtain ⟨rfl, hadvances⟩ := hprogress
    by_cases hpending : pending = 0
    · subst hpending
      exact ⟨hbalance, hle, htaken, rfl, hadvances⟩
    · simp only [next, work_waiting hpending]
      exact ⟨fun _ => hbalance rfl, hle, htaken, rfl, hadvances⟩
  | taking =>
    obtain ⟨rfl, hadvances⟩ := hprogress
    have hsum : granted = pending + taken := hbalance rfl
    by_cases hpending : pending = 0
    · subst hpending
      exact ⟨hbalance, hle, htaken, rfl, hadvances⟩
    · simp only [next, work_taking hpending (by omega)]
      exact ⟨fun _ => by simp [hpending]; omega, by simp [hpending]; omega,
        by simpa [hpending] using htaken, rfl, hadvances⟩
  | stepping =>
    obtain ⟨rfl, hadvances⟩ := hprogress
    obtain ⟨result, hresult⟩ : ∃ result, machine.step.1 = result := ⟨_, rfl⟩
    have hstep : machine.step = (result, machine.step.2) := by rw [← hresult]
    by_cases hpaused : result = .ok .paused
    · subst hpaused
      simp only [next, work_stepping_paused hstep]
      exact ⟨hbalance, hle, htaken, rfl, machine, hadvances, hstep⟩
    · simp only [next, work_stepping_ended hstep hpaused]
      exact ⟨hbalance, hle, htaken, rfl, result, rfl, hpaused, carried, machine, rfl, hadvances,
        hstep⟩
  | reporting result =>
    cases result with
    | none =>
      obtain ⟨rfl, hadvances⟩ := hprogress
      exact ⟨fun _ => hbalance rfl, hle, htaken, rfl, hadvances⟩
    | some r =>
      obtain ⟨-, result, rfl, hends⟩ := hprogress
      have hfinished := RunState.isFinished_ofResult hends.1
      exact ⟨fun h => absurd (hfinished.symm.trans h) Bool.true_eq_false.mp, hle, htaken, result,
        rfl, hends⟩
  | done => exact ⟨hbalance, hle, htaken, hprogress⟩

theorem next (h : t.Kept start) (event : Event) (hgranted : (t.next event).granted < unbounded) :
    (t.next event).Kept start := by
  cases event with
  | grant n => exact h.grant n hgranted
  | work => exact h.work hgranted

end Kept

theorem granted_le_next (t : Tally) (event : Event) : t.granted ≤ (t.next event).granted := by
  cases event with
  | work => exact Nat.le_refl _
  | grant n =>
    unfold next
    dsimp only
    split
    · exact Nat.le_refl _
    · exact Nat.le_add_right _ n

theorem granted_le_after (t : Tally) (events : List Event) :
    t.granted ≤ (t.after events).granted := by
  induction events generalizing t with
  | nil => exact Nat.le_refl _
  | cons event rest ih => exact Nat.le_trans (t.granted_le_next event) (ih (t.next event))

theorem Kept.after {start : Machine} {t : Tally} (h : t.Kept start) (events : List Event)
    (hgranted : (t.after events).granted < unbounded) : (t.after events).Kept start := by
  induction events generalizing t with
  | nil => exact h
  | cons event rest ih =>
    have hnext : (t.next event).granted < unbounded :=
      Nat.lt_of_le_of_lt (granted_le_after _ rest) hgranted
    exact ih (h.next event hnext) hgranted

end Tally

/-! ## What the host is told -/

/-- The machine and what the host sees of it are those of a run of so many steps. -/
structure Agrees (start : Machine) (n : Nat) (s : Stepper) : Prop where
  machine : s.machine = (start.interpret (some n)).2
  run : s.run = .ofResult (start.interpret (some n)).1

namespace Tally.Kept

variable {start : Machine} {t : Tally}

theorem carried_le (h : t.Kept start) : t.carried ≤ t.granted :=
  Nat.le_trans (by rw [h.taken_eq]; exact Nat.le_add_right _ _) h.taken_le

/-- The host sees an end, an idle worker, or a running one. -/
theorem run_cases (h : t.Kept start) :
    (t.stepper.worker = .done ∧ ∃ result, t.stepper.run = .ofResult result ∧
      start.Ends t.carried t.stepper.machine result) ∨
    (t.stepper.run = .idle ∧ t.stepper.worker = .waiting ∧
      start.Advances t.carried t.stepper.machine) ∨
    t.stepper.run = .running := by
  have hprogress := h.progress
  unfold Progress at hprogress
  cases hworker : t.stepper.worker with
  | waiting =>
    rw [hworker] at hprogress
    exact .inr (.inl ⟨hprogress.1, rfl, hprogress.2⟩)
  | taking =>
    rw [hworker] at hprogress
    exact .inr (.inr hprogress.1)
  | stepping =>
    rw [hworker] at hprogress
    exact .inr (.inr hprogress.1)
  | reporting result =>
    rw [hworker] at hprogress
    cases result with
    | none => exact .inr (.inr hprogress.1)
    | some r => exact .inr (.inr hprogress.1)
  | done =>
    rw [hworker] at hprogress
    exact .inl ⟨rfl, hprogress⟩

/-- The end of a program is the end of every run that is long enough. -/
theorem agrees_of_isFinished (h : t.Kept start) (hfinished : t.stepper.run.isFinished = true)
    {n : Nat} (hn : t.granted ≤ n) : t.stepper.Agrees start n := by
  obtain ⟨-, result, hrun, hends⟩ | ⟨hrun, -⟩ | hrun := h.run_cases
  · have hresult : start.interpret (some n) = (result, t.stepper.machine) :=
      hends.run (Nat.le_trans h.carried_le hn)
    exact ⟨by rw [hresult], by rw [hresult, hrun]⟩
  · rw [hrun] at hfinished
    cases hfinished
  · rw [hrun] at hfinished
    cases hfinished

/-- Where nothing is left to wait for, the program has ended, or all granted steps have been
carried out. -/
theorem finished_or_advances (h : t.Kept start) (hsettled : t.stepper.isSettled = true) :
    t.stepper.run.isFinished = true ∨
      t.stepper.run = .idle ∧ start.Advances t.granted t.stepper.machine := by
  cases hfinished : t.stepper.run.isFinished with
  | true => exact .inl rfl
  | false =>
    unfold isSettled at hsettled
    simp only [hfinished, Bool.false_or, Bool.and_eq_true, beq_iff_eq, bne_iff_ne] at hsettled
    obtain ⟨-, result, hrun, hends⟩ | ⟨hrun, hworker, hadvances⟩ | hrun := h.run_cases
    · rw [hrun, RunState.isFinished_ofResult hends.1] at hfinished
      cases hfinished
    · have hcarried : t.granted = t.carried := by
        have htaken := h.taken_eq
        rw [if_neg (by rw [hworker]; exact Worker.noConfusion)] at htaken
        rw [h.balance hfinished, hsettled.1, Nat.zero_add, htaken, Nat.add_zero]
      exact .inr ⟨hrun, hcarried ▸ hadvances⟩
    · exact absurd hrun hsettled.2

/-- The worker has looked at a program that had not ended, or was granted a step. -/
theorem agrees_of_isSettled (h : t.Kept start) (hstart : start.halted = none ∨ 0 < t.granted)
    (hsettled : t.stepper.isSettled = true) : t.stepper.Agrees start t.granted := by
  obtain hfinished | ⟨hrun, hadvances⟩ := h.finished_or_advances hsettled
  · exact h.agrees_of_isFinished hfinished (Nat.le_refl _)
  · have hpaused : t.stepper.machine.run 0 = (.ok .paused, t.stepper.machine) := by
      unfold Machine.run
      rw [hadvances.halted hstart]
    have hresult : start.interpret (some t.granted) = (.ok .paused, t.stepper.machine) :=
      (hadvances.run 0).trans hpaused
    exact ⟨by rw [hresult], by rw [hresult]; exact hrun⟩

/-- A worker that was granted no step has not touched the machine. -/
theorem idle_of_granted_eq_zero (h : t.Kept start) (hgranted : t.granted = 0)
    (hsettled : t.stepper.isSettled = true) :
    t.stepper.machine = start ∧ t.stepper.run = .idle := by
  have hcarried : t.carried = 0 := Nat.le_zero.mp (hgranted ▸ h.carried_le)
  obtain hfinished | ⟨hrun, hadvances⟩ := h.finished_or_advances hsettled
  · obtain ⟨-, -, -, -, k, -, hk, -⟩ | ⟨hrun, -⟩ | hrun := h.run_cases
    · rw [hcarried] at hk
      cases hk
    · rw [hrun] at hfinished
      cases hfinished
    · rw [hrun] at hfinished
      cases hfinished
  · rw [hgranted] at hadvances
    exact ⟨hadvances, hrun⟩

end Tally.Kept

/-! ## Waiting -/

/-- How many actions the worker needs at most until nothing is left to wait for. A step takes two
of them, one to take it and one to carry it out. -/
def distance (s : Stepper) : Nat :=
  match s.worker with
  | .waiting => if s.pending = 0 then 0 else 2 * s.pending + 3
  | .taking => 2 * s.pending + 2
  | .stepping => 2 * s.pending + 3
  | .reporting none => if s.pending = 0 then 1 else 2 * s.pending + 4
  | .reporting (some _) => 1
  | .done => 0

theorem drive_of_isSettled {s : Stepper} (h : s.isSettled = true) (n : Nat) : s.drive n = s := by
  cases n with
  | zero => rfl
  | succ n => rw [drive, if_pos h]

theorem distance_le_pending (s : Stepper) : s.distance ≤ 2 * s.pending + 4 := by
  unfold distance
  split <;> try split
  all_goals omega

namespace Tally.Kept

variable {start : Machine} {t : Tally}

theorem pending_lt (h : t.Kept start) (hgranted : t.granted < unbounded)
    (hfinished : t.stepper.run.isFinished = false) : t.stepper.pending < unbounded :=
  Nat.lt_of_le_of_lt (by rw [h.balance hfinished]; exact Nat.le_add_right _ _) hgranted

/-- Where something is left to wait for, the worker comes nearer to the end of it. -/
theorem distance_work_lt (h : t.Kept start) (hgranted : t.granted < unbounded)
    (hsettled : t.stepper.isSettled = false) : t.stepper.work.distance < t.stepper.distance := by
  have hpending := h.pending_lt hgranted
  obtain ⟨⟨machine, pending, run, worker⟩, granted, taken, carried⟩ := t
  obtain ⟨-, -, -, hprogress⟩ := h
  dsimp only at hpending hsettled ⊢
  cases worker with
  | waiting =>
    obtain ⟨rfl, -⟩ := hprogress
    have hpos : pending ≠ 0 := by
      rintro rfl
      cases hsettled
    rw [work_waiting hpos]
    simp only [distance, if_neg hpos]
    omega
  | taking =>
    obtain ⟨rfl, -⟩ := hprogress
    by_cases hpos : pending = 0
    · subst hpos
      exact Nat.lt_succ_self 1
    · rw [work_taking hpos (hpending rfl)]
      simp only [distance]
      omega
  | stepping =>
    obtain ⟨result, hresult⟩ : ∃ result, machine.step.1 = result := ⟨_, rfl⟩
    have hstep : machine.step = (result, machine.step.2) := by rw [← hresult]
    by_cases hpaused : result = .ok .paused
    · subst hpaused
      rw [work_stepping_paused hstep]
      exact Nat.lt_succ_self _
    · rw [work_stepping_ended hstep hpaused]
      simp only [distance]
      omega
  | reporting result =>
    cases result with
    | none =>
      by_cases hpos : pending = 0
      · subst hpos
        exact Nat.zero_lt_one
      · simp [Stepper.work, distance, hpos]
    | some r => exact Nat.zero_lt_one
  | done =>
    obtain ⟨result, rfl, hends⟩ := hprogress
    unfold isSettled at hsettled
    rw [RunState.isFinished_ofResult hends.1] at hsettled
    cases hsettled

theorem distance_le (h : t.Kept start) (hgranted : t.granted < unbounded) :
    t.stepper.distance ≤ 2 * unbounded + 3 := by
  have hpending := h.pending_lt hgranted
  have hdistance := t.stepper.distance_le_pending
  obtain ⟨hworker, -⟩ | ⟨hrun, -⟩ | hrun := h.run_cases
  · unfold distance
    rw [hworker]
    exact Nat.zero_le _
  · have hlt := hpending (by rw [hrun]; rfl)
    omega
  · have hlt := hpending (by rw [hrun]; rfl)
    omega

/-- A worker that is let alone comes to where nothing is left to wait for. -/
theorem drive (h : t.Kept start) (hgranted : t.granted < unbounded) {n : Nat}
    (hn : t.stepper.distance ≤ n) :
    ∃ t' : Tally, t'.Kept start ∧ t'.granted = t.granted ∧ t'.stepper = t.stepper.drive n ∧
      t'.stepper.isSettled = true := by
  induction n generalizing t with
  | zero =>
    refine ⟨t, h, rfl, rfl, ?_⟩
    by_contra hsettled
    have hlt := h.distance_work_lt hgranted (Bool.eq_false_of_not_eq_true hsettled)
    omega
  | succ n ih =>
    unfold Stepper.drive
    cases hsettled : t.stepper.isSettled with
    | true => exact ⟨t, h, rfl, rfl, hsettled⟩
    | false =>
      have hlt := h.distance_work_lt hgranted hsettled
      exact ih (h.work hgranted) hgranted (Nat.le_of_lt_succ (Nat.lt_of_lt_of_le hlt hn))

end Tally.Kept

/-- Whatever the order in which steps are granted and the worker acts, no step is lost or
invented, and where nothing is left to wait for, which waiting reaches, the host has what a single
run over all granted steps gives. This leaves out a program that had ended before its worker
began : until a step is granted, the worker is idle, and it is a run that gives the end. -/
theorem agrees_after (start : Machine) (events : List Event)
    (hgranted : ((Tally.ofMachine start).after events).granted < unbounded) :
    let t := (Tally.ofMachine start).after events
    t.carried ≤ t.granted ∧
    (t.stepper.run.isFinished = false → t.granted = t.stepper.pending + t.taken) ∧
    (t.stepper.run.isFinished = true → ∀ n, t.granted ≤ n → t.stepper.Agrees start n) ∧
    t.stepper.wait.isSettled = true ∧
    (start.halted = none ∨ 0 < t.granted →
      (t.stepper.isSettled = true → t.stepper.Agrees start t.granted) ∧
      t.stepper.wait.Agrees start t.granted) ∧
    ∀ code, start.halted = some code → t.granted = 0 →
      t.stepper.wait.machine = start ∧ t.stepper.wait.run = .idle ∧
      start.interpret (some 0) = (.ok (.halted code), start) := by
  intro t
  have hkept : t.Kept start := (Tally.kept_ofMachine start).after events hgranted
  obtain ⟨t', hkept', hgranted', hstepper, hsettled⟩ :=
    hkept.drive hgranted (hkept.distance_le hgranted)
  refine ⟨hkept.carried_le, hkept.balance,
    fun hfinished n => hkept.agrees_of_isFinished hfinished, ?_⟩
  unfold wait
  rw [← hstepper]
  refine ⟨hsettled, fun hstart => ⟨hkept.agrees_of_isSettled hstart, ?_⟩,
    fun code hhalted hnone => ?_⟩
  · rw [← hgranted'] at hstart ⊢
    exact hkept'.agrees_of_isSettled hstart hsettled
  · obtain ⟨hmachine, hrun⟩ := hkept'.idle_of_granted_eq_zero (hgranted'.trans hnone) hsettled
    exact ⟨hmachine, hrun, Machine.run_of_halted hhalted 0⟩

/-- A program of three instructions, the last of which ends it. -/
def brief : Machine :=
  let code : Buffer := #[0, 15, 0, 0, 0, 15, 0, 0, 1, 15, 0, 0]
  let config : Config := ⟨0, 8, ∅, none⟩
  ⟨⟨.initial ⟨[⟨"m", [], ∅, ∅, code, #[], [], [], []⟩], ∅, ∅, ∅, ∅⟩ config, #[]⟩, .none, config,
    [], none, 0⟩

/-- Two steps are granted after the worker has found none and before it says so, and they are not
lost. -/
def belated : List Event := [.grant 1, .work, .work, .work, .work, .grant 2, .work]

theorem agrees_after_belated :
    let t := (Tally.ofMachine brief).after belated
    t.granted = 3 ∧ t.stepper.pending = 2 ∧ t.taken = 1 ∧ t.stepper.run = .idle ∧
      t.stepper.wait.run = .halted 0 := by
  intro t
  have hgranted : t.granted = 3 := by cbv
  have hpending : t.stepper.pending = 2 := by cbv
  have hidle : t.stepper.run = .idle := by cbv
  have hended : RunState.ofResult (brief.interpret (some 3)).1 = .halted 0 := by cbv
  have hlt : t.granted < unbounded := Nat.lt_of_le_of_lt (Nat.le_of_eq hgranted) (by decide)
  obtain ⟨-, hbalance, -, -, hagrees, -⟩ := agrees_after brief belated hlt
  have hsum : t.granted = t.stepper.pending + t.taken :=
    hbalance (congrArg RunState.isFinished hidle)
  rw [show ((Tally.ofMachine brief).after belated).granted = 3 from hgranted] at hagrees
  exact ⟨hgranted, hpending, by omega, hidle, (hagrees (.inl rfl)).2.run.trans hended⟩

/-- The program has ended, which a run of no steps says and a stepper that waits does not. -/
theorem wait_ended_idle :
    let ended := (brief.run 3).2
    ended.halted = some 0 ∧ ended.interpret (some 0) = (.ok (.halted 0), ended) ∧
      (ofMachine ended).wait.run = .idle ∧ ¬(ofMachine ended).wait.Agrees ended 0 := by
  intro ended
  have hhalted : ended.halted = some 0 := by decide +kernel
  have hinterpret : ended.interpret (some 0) = (.ok (.halted 0), ended) :=
    Machine.run_of_halted hhalted 0
  have hidle : (ofMachine ended).wait.run = .idle :=
    congrArg Stepper.run (drive_of_isSettled rfl _)
  refine ⟨hhalted, hinterpret, hidle, fun hagrees => ?_⟩
  have hrun := hagrees.run
  rw [hidle, hinterpret] at hrun
  cases hrun

end Stepper

end CellMachine
