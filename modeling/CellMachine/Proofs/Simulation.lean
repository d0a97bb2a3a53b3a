import CellMachine.Proofs.Action

/-!
# Actions that do the same

Two actions on different states may do the same as far as a relation `R` between the states can
tell. `Simulates φ R x y` says that from related states both give the same value, or `x` an error
`e` and `y` the error `φ e`, and leave related states in either case. It goes through sequences
(`Simulates.bind`). `Echoes R x y` asks for this only where `x` succeeds. A `Relator` is what both
have in common, so that what is put together from parts is followed once for both of them.

`history` is what a machine shows of itself in front of and behind each of its steps. Steps that
simulate each other have the same history (`history_eq_of_simulates`).
-/

namespace CellMachine

variable {ε ε' σ τ α β ω ν : Type}

/-- Two results with the same value, or with errors that correspond, and with related states. -/
inductive Matches (φ : ε → ε') (R : σ → τ → Prop) :
    EStateM.Result ε σ α → EStateM.Result ε' τ α → Prop
  | ok {s : σ} {t : τ} (a : α) (h : R s t) : Matches φ R (.ok a s) (.ok a t)
  | error {s : σ} {t : τ} (e : ε) (h : R s t) : Matches φ R (.error e s) (.error (φ e) t)

theorem Matches.eq_ok_or_eq_error {φ : ε → ε'} {R : σ → τ → Prop} {r : EStateM.Result ε σ α}
    {r' : EStateM.Result ε' τ α} (h : Matches φ R r r') :
    (∃ a s t, r = .ok a s ∧ r' = .ok a t ∧ R s t) ∨
      ∃ e s t, r = .error e s ∧ r' = .error (φ e) t ∧ R s t := by
  cases h with
  | ok a h => exact .inl ⟨a, _, _, rfl, rfl, h⟩
  | error e h => exact .inr ⟨e, _, _, rfl, rfl, h⟩

theorem Matches.bind {φ : ε → ε'} {R : σ → τ → Prop} {x : EStateM ε σ α} {y : EStateM ε' τ α}
    {f : α → EStateM ε σ β} {g : α → EStateM ε' τ β} {s : σ} {t : τ}
    (hx : Matches φ R (x s) (y t))
    (hf : ∀ a s' t', x s = .ok a s' → R s' t' → Matches φ R (f a s') (g a t')) :
    Matches φ R ((x >>= f) s) ((y >>= g) t) := by
  change Matches φ R (EStateM.bind x f s) (EStateM.bind y g t)
  unfold EStateM.bind
  generalize hr : x s = r, y t = r' at hx
  cases hx with
  | ok a h => exact hf a _ _ hr h
  | error e h => exact .error e h

/-- From related states two actions do the same. -/
def Simulates (φ : ε → ε') (R : σ → τ → Prop) (x : EStateM ε σ α) (y : EStateM ε' τ α) : Prop :=
  ∀ ⦃s t⦄, R s t → Matches φ R (x s) (y t)

namespace Simulates

variable {φ : ε → ε'} {R : σ → τ → Prop} {x : EStateM ε σ α} {y : EStateM ε' τ α}

theorem pure (a : α) : Simulates φ R (Pure.pure a : EStateM ε σ α) (Pure.pure a) :=
  fun _ _ h => .ok a h

/-- What goes on with a value may use what is known of the values that the first action gives. -/
theorem bind_of_ok {f : α → EStateM ε σ β} {g : α → EStateM ε' τ β} (hx : Simulates φ R x y)
    (hf : ∀ s t a s', R s t → x s = .ok a s' → Simulates φ R (f a) (g a)) :
    Simulates φ R (x >>= f) (y >>= g) :=
  fun s t h => (hx h).bind fun a s' _ hs hafter => hf s t a s' h hs hafter

theorem bind {f : α → EStateM ε σ β} {g : α → EStateM ε' τ β} (hx : Simulates φ R x y)
    (hf : ∀ a, Simulates φ R (f a) (g a)) : Simulates φ R (x >>= f) (y >>= g) :=
  hx.bind_of_ok fun _ _ a _ _ _ => hf a

end Simulates

/-! ## Successes that are repeated -/

/-- A result that succeeds like another one where that does, with the same value and with related
states. -/
def Echoed (R : σ → τ → Prop) (r : EStateM.Result ε σ α) (r' : EStateM.Result ε' τ α) : Prop :=
  ∀ ⦃a s⦄, r = .ok a s → ∃ t, r' = .ok a t ∧ R s t

namespace Echoed

variable {R : σ → τ → Prop} {x : EStateM ε σ α} {y : EStateM ε' τ α} {s : σ} {t : τ}

theorem ok (a : α) (h : R s t) :
    Echoed R (.ok a s : EStateM.Result ε σ α) (.ok a t : EStateM.Result ε' τ α) := by
  rintro _ _ ⟨⟩
  exact ⟨t, rfl, h⟩

/-- Nothing is asked behind an error. -/
theorem error (e : ε) (s : σ) (r : EStateM.Result ε' τ α) : Echoed R (.error e s) r := by
  rintro _ _ ⟨⟩

theorem bind {f : α → EStateM ε σ β} {g : α → EStateM ε' τ β} (hx : Echoed R (x s) (y t))
    (hf : ∀ a s' t', x s = .ok a s' → R s' t' → Echoed R (f a s') (g a t')) :
    Echoed R ((x >>= f) s) ((y >>= g) t) := by
  intro b s₂ h
  obtain ⟨a, s₁, hs₁, hb⟩ := bind_eq_ok.mp h
  obtain ⟨t₁, ht₁, hR₁⟩ := hx hs₁
  obtain ⟨t₂, ht₂, hR₂⟩ := hf a s₁ t₁ hs₁ hR₁ hb
  exact ⟨t₂, bind_eq_ok.mpr ⟨a, t₁, ht₁, ht₂⟩, hR₂⟩

end Echoed

/-- From related states the second of two actions succeeds like the first. -/
def Echoes (R : σ → τ → Prop) (x : EStateM ε σ α) (y : EStateM ε' τ α) : Prop :=
  ∀ ⦃s t⦄, R s t → Echoed R (x s) (y t)

namespace Echoes

variable {R : σ → τ → Prop} {x : EStateM ε σ α} {y : EStateM ε' τ α}

theorem pure (a : α) : Echoes R (Pure.pure a : EStateM ε σ α) (Pure.pure a : EStateM ε' τ α) :=
  fun _ _ h => .ok a h

theorem throw (e : ε) (y : EStateM ε' τ α) :
    Echoes R (MonadExcept.throw e : EStateM ε σ α) y :=
  fun s t _ => .error e s (y t)

/-- What goes on with a value may use what is known of the values that the first action gives. -/
theorem bind_of_ok {f : α → EStateM ε σ β} {g : α → EStateM ε' τ β} (hx : Echoes R x y)
    (hf : ∀ s t a s', R s t → x s = .ok a s' → Echoes R (f a) (g a)) :
    Echoes R (x >>= f) (y >>= g) :=
  fun s t h => (hx h).bind fun a s' _ hs hafter => hf s t a s' h hs hafter

theorem bind {f : α → EStateM ε σ β} {g : α → EStateM ε' τ β} (hx : Echoes R x y)
    (hf : ∀ a, Echoes R (f a) (g a)) : Echoes R (x >>= f) (y >>= g) :=
  hx.bind_of_ok fun _ _ a _ _ _ => hf a

/-- What reads the state in front of it goes on with a state it knows. -/
theorem get_bind {f : σ → EStateM ε σ β} {g : τ → EStateM ε' τ β}
    (h : ∀ s t, R s t → Echoed R (f s s) (g t t)) :
    Echoes R (MonadState.get >>= f) (MonadState.get >>= g) := h

theorem ite {p : Prop} [Decidable p] {x' : EStateM ε σ α} {y' : EStateM ε' τ α}
    (hx : Echoes R x y) (hx' : Echoes R x' y') :
    Echoes R (if p then x else x') (if p then y else y') := by
  split
  · exact hx
  · exact hx'

end Echoes

/-! ## What goes through sequences -/

/-- A relation between actions that goes through sequences. What goes on with a value may use what
is known of the values that the first action gives. -/
structure Relator (R : σ → τ → Prop)
    (S : {α : Type} → EStateM ε σ α → EStateM ε' τ α → Prop) : Prop where
  pure : ∀ {α : Type} (a : α), S (Pure.pure a) (Pure.pure a)
  bind_of_ok : ∀ {α β : Type} {x : EStateM ε σ α} {y : EStateM ε' τ α} {f : α → EStateM ε σ β}
    {g : α → EStateM ε' τ β}, S x y →
    (∀ s t a s', R s t → x s = .ok a s' → S (f a) (g a)) → S (x >>= f) (y >>= g)
  /-- What is read of both states is the same, and that of some states that are related. -/
  observe : ∀ {α β : Type} {π : σ → α} {π' : τ → α} {f : α → EStateM ε σ β}
    {g : α → EStateM ε' τ β}, (∀ s t, R s t → π' t = π s) → (∀ a, (∃ s t, R s t ∧ π s = a) → S (f a) (g a)) →
    S (MonadState.get >>= fun s => f (π s)) (MonadState.get >>= fun t => g (π' t))

section Observe

variable {φ : ε → ε'} {R : σ → τ → Prop} {π : σ → α} {π' : τ → α} {f : α → EStateM ε σ β}
  {g : α → EStateM ε' τ β}

theorem Simulates.observe (hπ : ∀ s t, R s t → π' t = π s)
    (hf : ∀ a, (∃ s t, R s t ∧ π s = a) → Simulates φ R (f a) (g a)) :
    Simulates φ R (MonadState.get >>= fun s => f (π s)) (MonadState.get >>= fun t => g (π' t)) := by
  intro s t h
  change Matches φ R (f (π s) s) (g (π' t) t)
  rw [hπ s t h]
  exact hf (π s) ⟨s, t, h, rfl⟩ h

theorem Echoes.observe (hπ : ∀ s t, R s t → π' t = π s)
    (hf : ∀ a, (∃ s t, R s t ∧ π s = a) → Echoes R (f a) (g a)) :
    Echoes R (MonadState.get >>= fun s => f (π s)) (MonadState.get >>= fun t => g (π' t)) := by
  intro s t h
  change Echoed R (f (π s) s) (g (π' t) t)
  rw [hπ s t h]
  exact hf (π s) ⟨s, t, h, rfl⟩ h

end Observe

theorem Simulates.relator (φ : ε → ε') (R : σ → τ → Prop) : Relator R (Simulates φ R) :=
  ⟨.pure, .bind_of_ok, .observe⟩

theorem Echoes.relator (R : σ → τ → Prop) :
    Relator R (fun {α} (x : EStateM ε σ α) (y : EStateM ε' τ α) => Echoes R x y) :=
  ⟨.pure, .bind_of_ok, .observe⟩

namespace Relator

variable {R : σ → τ → Prop} {S : {α : Type} → EStateM ε σ α → EStateM ε' τ α → Prop}
  {x : EStateM ε σ α} {y : EStateM ε' τ α}

theorem bind (hS : Relator R S) {f : α → EStateM ε σ β} {g : α → EStateM ε' τ β} (hx : S x y)
    (hf : ∀ a, S (f a) (g a)) : S (x >>= f) (y >>= g) :=
  hS.bind_of_ok hx fun _ _ a _ _ _ => hf a

theorem ite (_ : Relator R S) {p : Prop} [Decidable p] {x' : EStateM ε σ α} {y' : EStateM ε' τ α}
    (hx : S x y) (hx' : S x' y') : S (if p then x else x') (if p then y else y') := by
  split
  · exact hx
  · exact hx'

end Relator

/-! ## Histories -/

/-- What `n` steps give, each with what can be seen of the state behind it. -/
def history (step : σ → ω × σ) (view : σ → ν) : Nat → σ → List (ω × ν)
  | 0, _ => []
  | n + 1, s => ((step s).1, view (step s).2) :: history step view n (step s).2

/-- The state behind `n` steps. -/
def stateBehind (step : σ → ω × σ) : Nat → σ → σ
  | 0, s => s
  | n + 1, s => stateBehind step n (step s).2

variable {R : σ → τ → Prop} {step : σ → ω × σ} {step' : τ → ω × τ}

/-- Steps that keep a relation, give the same and look the same have the same history. -/
theorem history_eq_of_simulates {view : σ → ν} {view' : τ → ν}
    (hstep : ∀ s t, R s t → (step s).1 = (step' t).1 ∧ R (step s).2 (step' t).2)
    (hview : ∀ s t, R s t → view s = view' t) (n : Nat) {s : σ} {t : τ} (h : R s t) :
    history step view n s = history step' view' n t := by
  induction n generalizing s t with
  | zero => rfl
  | succ n ih =>
    obtain ⟨hout, hnext⟩ := hstep s t h
    rw [history, history, hout, hview _ _ hnext, ih hnext]

/-- What is made of every outcome is made of the history. -/
theorem history_map {ω' : Type} (f : ω → ω') (view : σ → ν) (n : Nat) (s : σ) :
    history (fun s => (f (step s).1, (step s).2)) view n s =
      (history step view n s).map fun p => (f p.1, p.2) := by
  induction n generalizing s with
  | zero => rfl
  | succ n ih => rw [history, history, List.map_cons, ih]

theorem stateBehind_of_simulates
    (hstep : ∀ s t, R s t → (step s).1 = (step' t).1 ∧ R (step s).2 (step' t).2) (n : Nat)
    {s : σ} {t : τ} (h : R s t) : R (stateBehind step n s) (stateBehind step' n t) := by
  induction n generalizing s t with
  | zero => exact h
  | succ n ih => exact ih (hstep s t h).2

end CellMachine
