/-!
# Actions that may fail

Parsers, actions of the assembler, of the memory and of the machine all give a state behind them,
whether they succeed or fail. `Relates R x` says that `R` holds between the states in front of and
behind `x` in either case; for a reflexive and transitive `R` it goes through sequences
(`Relates.bind`). `FailsWith R x` says it only where `x` fails, which is all that is asked of the
last action of a sequence (`FailsWith.bind`). `FailsAs P x` says of which kind the errors of `x`
are. `bind_eq_ok` and `bind_eq_error` take a sequence apart.
-/

namespace CellMachine

variable {ε σ α β : Type}

instance reflEq : Std.Refl (@Eq σ) := ⟨Eq.refl⟩

/-- The state behind an action. -/
def stateAfter : EStateM.Result ε σ α → σ
  | .ok _ s => s
  | .error _ s => s

/-- The value or the error of an action. -/
def outcome : EStateM.Result ε σ α → Except ε α
  | .ok a _ => .ok a
  | .error e _ => .error e

theorem eq_ok_of_outcome {r : EStateM.Result ε σ α} {a : α} (h : outcome r = .ok a) :
    r = .ok a (stateAfter r) := by
  cases r with
  | ok b s => cases h; rfl
  | error e s => cases h

theorem eq_error_of_outcome {r : EStateM.Result ε σ α} {e : ε} (h : outcome r = .error e) :
    r = .error e (stateAfter r) := by
  cases r with
  | ok b s => cases h
  | error e' s => cases h; rfl

theorem eq_of_outcome_of_stateAfter {r r' : EStateM.Result ε σ α}
    (houtcome : outcome r = outcome r') (hstate : stateAfter r = stateAfter r') : r = r' := by
  cases r' with
  | ok a s => rw [eq_ok_of_outcome houtcome, hstate]; rfl
  | error e s => rw [eq_error_of_outcome houtcome, hstate]; rfl

theorem bind_eq_ok {x : EStateM ε σ α} {f : α → EStateM ε σ β} {s s' : σ} {b : β} :
    (x >>= f) s = .ok b s' ↔ ∃ a s₁, x s = .ok a s₁ ∧ f a s₁ = .ok b s' := by
  change EStateM.bind x f s = .ok b s' ↔ _
  unfold EStateM.bind
  cases x s with
  | ok a s₁ => simp [and_assoc]
  | error e s₁ => simp

theorem bind_eq_error {x : EStateM ε σ α} {f : α → EStateM ε σ β} {s s' : σ} {e : ε} :
    (x >>= f) s = .error e s' ↔
      x s = .error e s' ∨ ∃ a s₁, x s = .ok a s₁ ∧ f a s₁ = .error e s' := by
  change EStateM.bind x f s = .error e s' ↔ _
  unfold EStateM.bind
  cases x s with
  | ok a s₁ => simp [and_assoc]
  | error e s₁ => simp

theorem bind_of_ok {x : EStateM ε σ α} {s s₁ : σ} {a : α} (h : x s = .ok a s₁)
    (f : α → EStateM ε σ β) : (x >>= f) s = f a s₁ := by
  change EStateM.bind x f s = _
  unfold EStateM.bind
  rw [h]

/-- What goes on from the same value and state may be another action. -/
theorem bind_congr_of_ok {x : EStateM ε σ α} {f g : α → EStateM ε σ β} {s : σ}
    (h : ∀ a s₁, x s = .ok a s₁ → f a s₁ = g a s₁) : (x >>= f) s = (x >>= g) s := by
  change EStateM.bind x f s = EStateM.bind x g s
  unfold EStateM.bind
  cases hx : x s with
  | ok a s₁ => exact h a s₁ hx
  | error e s₁ => rfl

theorem bind_congr_left {x y : EStateM ε σ α} {f : α → EStateM ε σ β} {s : σ} (h : x s = y s) :
    (x >>= f) s = (y >>= f) s := by
  change EStateM.bind x f s = EStateM.bind y f s
  unfold EStateM.bind
  rw [h]

theorem get_bind_apply (f : σ → EStateM ε σ α) (s : σ) : (get >>= f) s = f s s := rfl

theorem modify_apply (f : σ → σ) (s : σ) : (modify f : EStateM ε σ PUnit) s = .ok ⟨⟩ (f s) := rfl

theorem modify_bind_apply (f : σ → σ) (g : PUnit → EStateM ε σ α) (s : σ) :
    (modify f >>= g) s = g ⟨⟩ (f s) := rfl

theorem except_bind_eq_ok {x : Except ε α} {f : α → Except ε β} {b : β} :
    (x >>= f) = .ok b ↔ ∃ a, x = .ok a ∧ f a = .ok b := by
  cases x with
  | ok a => simp [bind, Except.bind]
  | error e => simp [bind, Except.bind]

theorem except_bind_eq_error {x : Except ε α} {f : α → Except ε β} {e : ε} :
    (x >>= f) = .error e ↔ x = .error e ∨ ∃ a, x = .ok a ∧ f a = .error e := by
  cases x with
  | ok a => simp [bind, Except.bind]
  | error e => simp [bind, Except.bind]

theorem except_map_eq_ok {x : Except ε α} {f : α → β} {b : β} :
    x.map f = .ok b ↔ ∃ a, x = .ok a ∧ f a = b := by
  cases x with
  | ok a => simp [Except.map]
  | error e => simp [Except.map]

theorem modify_eq_ok {f : σ → σ} {s s' : σ} :
    (modify f : EStateM ε σ PUnit) s = .ok ⟨⟩ s' ↔ s' = f s :=
  ⟨fun h => (EStateM.Result.ok.inj h).2.symm, fun h => h ▸ rfl⟩

/-- The states in front of and behind an action are related, also where it fails. -/
def Relates (R : σ → σ → Prop) (x : EStateM ε σ α) : Prop := ∀ s, R s (stateAfter (x s))

namespace Relates

variable {R : σ → σ → Prop} {x : EStateM ε σ α}

theorem of_ok (h : Relates R x) {s s' : σ} {a : α} (hx : x s = .ok a s') : R s s' := by
  simpa [hx, stateAfter] using h s

theorem of_error (h : Relates R x) {s s' : σ} {e : ε} (hx : x s = .error e s') : R s s' := by
  simpa [hx, stateAfter] using h s

theorem mono {S : σ → σ → Prop} (hRS : ∀ s s', R s s' → S s s') (h : Relates R x) :
    Relates S x := fun s => hRS _ _ (h s)

theorem pure [Std.Refl R] (a : α) : Relates R (Pure.pure a : EStateM ε σ α) :=
  fun s => Std.Refl.refl s

theorem get [Std.Refl R] : Relates R (MonadState.get : EStateM ε σ σ) :=
  fun s => Std.Refl.refl s

theorem throw [Std.Refl R] (e : ε) : Relates R (MonadExcept.throw e : EStateM ε σ α) :=
  fun s => Std.Refl.refl s

theorem modify {f : σ → σ} (h : ∀ s, R s (f s)) :
    Relates R (modify f : EStateM ε σ PUnit) := h

/-- What one state is related to goes on to what the rest leads to from there. -/
theorem bind_at [Trans R R R] {f : α → EStateM ε σ β} {s : σ} (hx : R s (stateAfter (x s)))
    (hf : ∀ a s₁, x s = .ok a s₁ → R s₁ (stateAfter (f a s₁))) :
    R s (stateAfter ((x >>= f) s)) := by
  change R s (stateAfter (EStateM.bind x f s))
  unfold EStateM.bind
  cases h : x s with
  | ok a s₁ =>
    rw [h] at hx
    exact Trans.trans hx (hf a s₁ h)
  | error e s₁ =>
    rw [h] at hx
    exact hx

theorem bind [Trans R R R] {f : α → EStateM ε σ β} (hx : Relates R x)
    (hf : ∀ a, Relates R (f a)) : Relates R (x >>= f) :=
  fun s => bind_at (hx s) fun a s₁ _ => hf a s₁

/-- What comes behind an action, whether it is come to or not. -/
theorem behind [Std.Refl R] {f : α → EStateM ε σ β} (hf : ∀ a, Relates R (f a)) (s : σ) :
    R (stateAfter (x s)) (stateAfter ((x >>= f) s)) := by
  change R _ (stateAfter (EStateM.bind x f s))
  unfold EStateM.bind
  cases x s with
  | ok a s₁ => exact hf a s₁
  | error e s₁ => exact Std.Refl.refl s₁

/-- What reads the state in front of it goes on with a state it knows. -/
theorem get_bind {f : σ → EStateM ε σ β} (h : ∀ s, R s (stateAfter (f s s))) :
    Relates R (MonadState.get >>= f) := h

theorem ite {p : Prop} [Decidable p] {y : EStateM ε σ α} (hx : Relates R x) (hy : Relates R y) :
    Relates R (if p then x else y) := by
  split
  · exact hx
  · exact hy

end Relates

/-- The states in front of and behind an action are related where it fails. -/
def FailsWith (R : σ → σ → Prop) (x : EStateM ε σ α) : Prop :=
  ∀ ⦃s e s'⦄, x s = .error e s' → R s s'

namespace FailsWith

variable {R : σ → σ → Prop} {x : EStateM ε σ α}

theorem of_relates (h : Relates R x) : FailsWith R x := fun _ _ _ hx => h.of_error hx

theorem bind [Trans R R R] {f : α → EStateM ε σ β} (hx : Relates R x)
    (hf : ∀ a, FailsWith R (f a)) : FailsWith R (x >>= f) := by
  intro s e s' h
  rcases bind_eq_error.mp h with h | ⟨a, s₁, hok, h⟩
  · exact hx.of_error h
  · exact Trans.trans (hx.of_ok hok) (hf a h)

/-- What changes nothing where it fails is related wherever it succeeds. -/
theorem relates [Std.Refl R] (h : FailsWith Eq x) (hok : ∀ ⦃s a s'⦄, x s = .ok a s' → R s s') :
    Relates R x := by
  intro s
  cases hx : x s with
  | ok a s' => exact hok hx
  | error e s' => exact h hx ▸ Std.Refl.refl s

/-- Behind the only action that can fail, anything may be done. -/
theorem bind_total {f : α → EStateM ε σ β} (hx : FailsWith R x)
    (hf : ∀ a s e s', f a s ≠ .error e s') : FailsWith R (x >>= f) := by
  intro s e s' h
  rcases bind_eq_error.mp h with h | ⟨a, s₁, -, h⟩
  · exact hx h
  · exact absurd h (hf a s₁ e s')

end FailsWith

/-- Where an action fails, its error is one of `P`. -/
def FailsAs (P : ε → Prop) (x : EStateM ε σ α) : Prop := ∀ ⦃s e s'⦄, x s = .error e s' → P e

namespace FailsAs

variable {P : ε → Prop} {x : EStateM ε σ α}

theorem pure (a : α) : FailsAs P (Pure.pure a : EStateM ε σ α) := fun _ _ _ h => by cases h

theorem get : FailsAs P (MonadState.get : EStateM ε σ σ) := fun _ _ _ h => by cases h

theorem set (s : σ) : FailsAs P (MonadStateOf.set s : EStateM ε σ PUnit) :=
  fun _ _ _ h => by cases h

theorem modify (f : σ → σ) : FailsAs P (modify f : EStateM ε σ PUnit) :=
  fun _ _ _ h => by cases h

theorem throw {e : ε} (h : P e) : FailsAs P (MonadExcept.throw e : EStateM ε σ α) := by
  intro s e' s' hx
  cases hx
  exact h

theorem bind {f : α → EStateM ε σ β} (hx : FailsAs P x) (hf : ∀ a, FailsAs P (f a)) :
    FailsAs P (x >>= f) := by
  intro s e s' h
  rcases bind_eq_error.mp h with h | ⟨a, s₁, -, h⟩
  · exact hx h
  · exact hf a h

theorem ite {p : Prop} [Decidable p] {y : EStateM ε σ α} (hx : FailsAs P x) (hy : FailsAs P y) :
    FailsAs P (if p then x else y) := by
  split
  · exact hx
  · exact hy

end FailsAs

end CellMachine
