import CellMachine.Proofs.Assembly.Border
import CellMachine.Proofs.Assembly.MacroTable

/-!
# Assembling ends

The loops of the assembler are bounded by the tokens that are left, and uses of macros by how deep
they can be nested. `Ends f s r` says of the same recursion without a bound that it ends at `s` with
`r`. The parsers end because each round of a loop takes a token and none goes on at the end of the
text (`Cursor.loopsEnd`). A macro can stand for more tokens than its use has, so that the statements
end for another reason: a statement takes a token of its own list, or it goes over to another list
one use deeper, and that can be done no more than `maxDepth` times (`Assembler.Consistent.ends`).
-/

namespace CellMachine

/-! ## Recursion without a bound -/

section Recursion

variable {σ ρ : Type} {f : (σ → ρ) → σ → ρ} {s : σ} {r r' : ρ}

/-- The recursion `x = f x` ends at `s` with `r` : unfolded often enough, it does not come to what
stands for the rest. -/
def Ends (f : (σ → ρ) → σ → ρ) (s : σ) (r : ρ) : Prop := ∃ n, ∀ rest, f^[n] rest s = r

theorem iterate_of_le {n m : Nat} (h : ∀ rest, f^[n] rest s = r) (hle : n ≤ m) (rest : σ → ρ) :
    f^[m] rest s = r := by
  obtain ⟨k, rfl⟩ := Nat.exists_eq_add_of_le hle
  rw [Function.iterate_add_apply]
  exact h _

theorem Ends.unique (h : Ends f s r) (h' : Ends f s r') : r = r' := by
  obtain ⟨n, hn⟩ := h
  obtain ⟨m, hm⟩ := h'
  rw [← iterate_of_le hn (Nat.le_max_left n m) fun _ => r,
    iterate_of_le hm (Nat.le_max_right n m) fun _ => r]

/-- A recursion that goes on only where less is left ends with what it gives under a bound of as
many rounds as are left. -/
theorem ends_of_decreasing (f : (σ → ρ) → σ → ρ) (g : Nat → σ → ρ) (left : σ → Nat)
    (hround : ∀ n, g (n + 1) = f (g n)) (hstop : ∀ s x, left s = 0 → f x s = g 0 s)
    (hless : ∀ s x y, (∀ t, left t < left s → x t = y t) → f x s = f y s) (s : σ) :
    Ends f s (g (left s) s) := by
  have hbound : ∀ n s, left s ≤ n → ∀ rest, f^[n + 1] rest s = g n s := by
    intro n
    induction n with
    | zero => exact fun s hs rest => hstop s rest (Nat.le_zero.mp hs)
    | succ n ih =>
      intro s hs rest
      rw [Function.iterate_succ_apply', hround]
      exact hless s _ _ fun t ht => ih t (by omega) rest
  exact ⟨left s + 1, hbound (left s) s (Nat.le_refl _)⟩

/-- The same recursion, if its argument has two parts. -/
def uncurried {α : Type} (f : (α → σ → ρ) → α → σ → ρ) (rest : α × σ → ρ) : α × σ → ρ :=
  Function.uncurry (f (Function.curry rest))

end Recursion

/-! ## Loops of the parsers -/

namespace Cursor

theorem remaining_next_lt {c : Cursor} (h : c.atEnd = false) : c.next.remaining < c.remaining := by
  have hsize := pos_lt_size h
  rw [remaining_next]
  unfold remaining
  omega

theorem Forward.remaining_le {c c' : Cursor} (h : c.Forward c') : c'.remaining ≤ c.remaining := by
  unfold remaining
  rw [h.tokens]
  exact Nat.sub_le_sub_left h.pos _

theorem ends_skipWhile {p : Token → Bool} (hp : ∀ t : Token, t.isEnd = true → p t = false)
    (c : Cursor) : Ends (skipWhileRound p) c (skipWhile p c.remaining c) := by
  refine ends_of_decreasing (skipWhileRound p) (skipWhile p) remaining (fun _ => rfl) (fun c x hc => ?_)
    (fun c x y h => ?_) c
  · exact if_neg (by simpa using hp c.current (atEnd_of_remaining_eq_zero hc))
  · unfold skipWhileRound
    split
    · next hcurrent =>
      refine h _ (remaining_next_lt (Bool.eq_false_iff.mpr fun hend => ?_))
      rw [hp c.current hend] at hcurrent
      cases hcurrent
    · rfl

end Cursor

namespace Parser

open Cursor (atEnd_of_remaining_eq_zero remaining_next_lt)

variable {α : Type}

theorem ne_of_remaining_eq_zero {c : Cursor} (h : c.remaining = 0) {kind : TokenKind}
    (hkind : kind ≠ .endOfCode) : (c.current.kind == kind) = false := by
  have hend : c.current.kind = .endOfCode := by
    simpa [Cursor.atEnd, Token.isEnd] using atEnd_of_remaining_eq_zero h
  rw [hend]
  simpa using hkind.symm

theorem atEnd_of_kind {c : Cursor} {kind : TokenKind} (h : c.current.kind = kind)
    (hkind : kind ≠ .endOfCode) : c.atEnd = false := by
  unfold Cursor.atEnd Token.isEnd
  rw [h]
  simpa using hkind

/-- A round that starts with a colon goes on with fewer tokens left. -/
theorem colon_congr {x y z : Parser α} {c : Cursor}
    (h : ∀ c', c'.remaining < c.remaining → x c' = y c') :
    (do if ← take? .colon then x else z : Parser α) c =
      (do if ← take? .colon then y else z : Parser α) c := by
  rw [take?_bind_apply, take?_bind_apply]
  split
  · next hcolon =>
    exact h c.next (remaining_next_lt (atEnd_of_kind (beq_iff_eq.mp hcolon) (by decide)))
  · rfl

theorem colon_of_remaining_eq_zero {x z : Parser α} {c : Cursor} (h : c.remaining = 0) :
    (do if ← take? .colon then x else z : Parser α) c = z c := by
  rw [take?_bind_apply, ne_of_remaining_eq_zero h (by decide)]
  rfl

theorem ends_dottedRest (name : String) (c : Cursor) :
    Ends (uncurried dottedRestRound) (name, c) (dottedRest name c.remaining c) := by
  refine ends_of_decreasing (uncurried dottedRestRound) (fun n p => dottedRest p.1 n p.2) (fun p => p.2.remaining)
    (fun _ => rfl) (fun ⟨name, c⟩ x hc => ?_) (fun ⟨name, c⟩ x y h => ?_) (name, c)
  · have hdot : (c.current.kind == .dot) = false := ne_of_remaining_eq_zero hc (by decide)
    exact (dottedRestRound_apply _ name c).trans (if_neg (by simp [hdot]))
  · refine (dottedRestRound_apply _ name c).trans (.trans ?_ (dottedRestRound_apply _ name c).symm)
    split
    · next hdot =>
      simp only [Bool.and_eq_true, beq_iff_eq] at hdot
      have hnext := remaining_next_lt (atEnd_of_kind hdot.1 (by decide))
      have hbehind := (Cursor.forward_next c.next).remaining_le
      exact h _ (Nat.lt_of_le_of_lt hbehind hnext)
    · rfl

theorem ends_parameters (c : Cursor) : Ends parametersRound c (parameters c.remaining c) := by
  refine ends_of_decreasing parametersRound parameters Cursor.remaining (fun _ => rfl)
    (fun c x hc => colon_of_remaining_eq_zero hc) (fun c x y h => colon_congr fun c₁ hc₁ => ?_) c
  refine bind_congr_of_ok fun p c₂ hp => ?_
  have hc₂ := (relates_declaration.of_ok hp).remaining_le
  exact bind_congr_left (h c₂ (by omega))

theorem ends_macroParams (c : Cursor) : Ends macroParamsRound c (macroParams c.remaining c) := by
  refine ends_of_decreasing macroParamsRound macroParams Cursor.remaining (fun _ => rfl)
    (fun c x hc => colon_of_remaining_eq_zero hc) (fun c x y h => colon_congr fun c₁ hc₁ => ?_) c
  refine bind_congr_of_ok fun name c₂ hname => ?_
  have hc₂ := (relates_expectName.of_ok hname).remaining_le
  exact bind_congr_left (h c₂ (by omega))

theorem ends_macroBody (depth : Nat) (c : Cursor) :
    Ends (uncurried macroBodyRound) (depth, c) (macroBody depth c.remaining c) := by
  refine ends_of_decreasing (uncurried macroBodyRound) (fun n p => macroBody p.1 n p.2) (fun p => p.2.remaining)
    (fun _ => rfl) (fun ⟨depth, c⟩ x hc => ?_) (fun ⟨depth, c⟩ x y h => ?_) (depth, c)
  · exact (macroBodyRound_apply _ depth c).trans (if_pos (atEnd_of_remaining_eq_zero hc))
  · refine (macroBodyRound_apply _ depth c).trans (.trans ?_ (macroBodyRound_apply _ depth c).symm)
    split
    · rfl
    · next hend =>
      split
      · rfl
      · exact bind_congr_left (h _ (remaining_next_lt (Bool.eq_false_iff.mpr hend)))

theorem ends_argumentTokens (c : Cursor) :
    Ends argumentTokensRound c (argumentTokens c.remaining c) := by
  refine ends_of_decreasing argumentTokensRound argumentTokens Cursor.remaining (fun _ => rfl)
    (fun c x hc => ?_) (fun c x y h => ?_) c
  · have hend : c.current.isEnd = true := atEnd_of_remaining_eq_zero hc
    change (if (c.current.kind == .colon || c.current.endsStatement) = true then pure []
      else _ : Parser (List Token)) c = _
    rw [if_pos (by simp_all [Token.endsStatement, Token.isEnd])]
    rfl
  · change (if (c.current.kind == .colon || c.current.endsStatement) = true then pure []
      else _ : Parser (List Token)) c = (if _ then _ else _ : Parser (List Token)) c
    split
    · rfl
    · next hends =>
      have hend : c.atEnd = false := by
        by_contra hend
        simp_all [Token.endsStatement, Cursor.atEnd, Token.isEnd]
      exact bind_congr_left (h c.next (remaining_next_lt hend))

theorem ends_macroArguments (c : Cursor) :
    Ends macroArgumentsRound c (macroArguments c.remaining c) := by
  refine ends_of_decreasing macroArgumentsRound macroArguments Cursor.remaining (fun _ => rfl)
    (fun c x hc => colon_of_remaining_eq_zero hc) (fun c x y h => colon_congr fun c₁ hc₁ => ?_) c
  refine bind_congr_of_ok fun n c₂ hremaining => bind_congr_of_ok fun arg c₃ harg => ?_
  cases hremaining
  have hc₃ := ((relates_argumentTokens _).of_ok harg).remaining_le
  split
  · rfl
  · exact bind_congr_left (h c₃ (by omega))

end Parser

/-- Every loop of the parsers, taken without a bound from `c` on, ends with what the parser
gives. -/
structure Cursor.LoopsEnd (c : Cursor) : Prop where
  skipNewlines : Ends (skipWhileRound (·.kind == .newline)) c c.skipNewlines
  skipLine : Ends (skipWhileRound (!·.endsStatement)) c c.skipLine
  dottedRest : ∀ name,
    Ends (uncurried Parser.dottedRestRound) (name, c) (Parser.dottedRest name c.remaining c)
  parameters : Ends Parser.parametersRound c (Parser.parameters c.remaining c)
  macroParams : Ends Parser.macroParamsRound c (Parser.macroParams c.remaining c)
  macroBody : ∀ depth,
    Ends (uncurried Parser.macroBodyRound) (depth, c) (Parser.macroBody depth c.remaining c)
  argumentTokens : Ends Parser.argumentTokensRound c (Parser.argumentTokens c.remaining c)
  macroArguments : Ends Parser.macroArgumentsRound c (Parser.macroArguments c.remaining c)

theorem Cursor.loopsEnd (c : Cursor) : c.LoopsEnd where
  skipNewlines := ends_skipWhile (fun t ht => by simp_all [Token.isEnd]) c
  skipLine := ends_skipWhile (fun t ht => by simp_all [Token.isEnd, Token.endsStatement]) c
  dottedRest name := Parser.ends_dottedRest name c
  parameters := Parser.ends_parameters c
  macroParams := Parser.ends_macroParams c
  macroBody depth := Parser.ends_macroBody depth c
  argumentTokens := Parser.ends_argumentTokens c
  macroArguments := Parser.ends_macroArguments c

/-! ## Statements -/

namespace Asm

/-- One round of the statements up to the end of the tokens, where a use of a macro goes on with the
same for the tokens that it stands for. -/
def expandingRound (rest : Asm Unit) : Asm Unit :=
  statementsRound (do nested (← macroUse) rest) rest

theorem iterate_expandingRound (n : Nat) (rest : Asm Unit) (s : Assembler) :
    expandingRound^[n + 1] rest s =
      if s.onLine.cursor.atEnd then .ok () s.onLine
      else
        match attempt (statement (do nested (← macroUse) (expandingRound^[n] rest))) s.onLine with
        | .ok () s₁ => expandingRound^[n] rest s₁.counted
        | .error e s₁ => .error e s₁ := by
  rw [Function.iterate_succ_apply']
  exact round_apply (statement (do nested (← macroUse) (expandingRound^[n] rest))) _ s

/-- A statement depends on how macros are expanded only where it uses one. -/
theorem statement_congr {x y : Asm Unit} {s : Assembler}
    (h : s.cursor.current.kind = .name → Opcode.ofName? s.cursor.current.text = none → x s = y s) :
    statement x s = statement y s := by
  refine bind_congr_left ?_
  unfold statementBody
  rw [current_bind, current_bind]
  cases hkind : s.cursor.current.kind with
  | name =>
    cases hop : Opcode.ofName? s.cursor.current.text with
    | some op => rfl
    | none =>
      change (if (s.findMacro? s.cursor.current.text).isSome = true then x else _ : Asm Unit) s =
        (if (s.findMacro? s.cursor.current.text).isSome = true then y else _ : Asm Unit) s
      split
      · exact h hkind hop
      · rfl
  | _ => rfl

end Asm

namespace Assembler

variable {s t u : Assembler} {k N : Nat} {e : AssemblyError}

/-- The statement under the cursor comes to what it comes to without a bound, if a use of a macro
goes on no more than `N` times. -/
def EndsWithin (s : Assembler) (N : Nat) : Prop :=
  ∀ rest, Asm.statement (do Asm.nested (← Asm.macroUse) (Asm.expandingRound^[N] rest)) s.onLine =
    s.first

theorem EndsWithin.attempt_eq (h : s.EndsWithin N) {M : Nat} (hle : N ≤ M) (rest : Asm Unit) :
    Asm.attempt (Asm.statement (do Asm.nested (← Asm.macroUse) (Asm.expandingRound^[M] rest)))
      s.onLine = Asm.attempt (Asm.statement (Asm.expansion (maxDepth - s.depth))) s.onLine := by
  obtain ⟨j, rfl⟩ := Nat.exists_eq_add_of_le hle
  unfold Asm.attempt
  rw [Function.iterate_add_apply, h]
  rfl

theorem endsWithin_of_not_enters (h : ∀ t, ¬ s.Enters t) : s.EndsWithin 0 := by
  refine fun rest => Asm.statement_congr fun hkind hop => ?_
  cases huse : Asm.macroUse s.onLine with
  | ok tokens s₁ => exact absurd ⟨hkind, hop, tokens, s₁, huse, rfl⟩ (h _)
  | error e s₁ =>
    rw [Asm.expansion_of_error huse]
    exact bind_eq_error.mpr (Or.inl huse)

theorem Enters.endsWithin (h : s.Enters t)
    (ht : ∀ rest, Asm.expandingRound^[N] rest t = t.onward (t.cursor.remaining + 1)) :
    s.EndsWithin N := by
  obtain ⟨c, hnested, hbody⟩ := h.body_eq
  refine fun rest => bind_congr_left ?_
  rw [hnested, ht]
  exact hbody.symm

/-- The statements from one on end, and each of them does. -/
theorem Consistent.ends (hs : s.Consistent) {n : Nat} (hn : s.cursor.remaining < n) :
    Ends Asm.expandingRound s (s.onward n) := by
  refine (hs.walk (P := fun s => ∃ N, s.EndsWithin N) (Q := Ends Asm.expandingRound)
    (fun s _ h => ⟨0, endsWithin_of_not_enters h⟩)
    (fun s t _ h ⟨N, hN⟩ => ⟨N, h.endsWithin hN⟩) ?_ ?_ ?_).2 n hn
  · intro s hend
    exact ⟨1, fun (rest : Asm Unit) => (Asm.iterate_expandingRound 0 rest s).trans (if_pos hend)⟩
  · rintro s t r - ⟨hend, s₁, hok, rfl⟩ ⟨N, hN⟩ ⟨M, hM⟩
    refine ⟨max N M + 1, fun (rest : Asm Unit) => (Asm.iterate_expandingRound _ rest s).trans ?_⟩
    rw [if_neg (by simp [hend]), hN.attempt_eq (Nat.le_max_left N M), Asm.attempt_eq_ok.mpr hok]
    exact iterate_of_le hM (Nat.le_max_right N M) rest
  · rintro s e t hs hend herror ⟨N, hN⟩
    refine ⟨N + 1, fun (rest : Asm Unit) => (Asm.iterate_expandingRound _ rest s).trans ?_⟩
    rw [if_neg (by simp [hend]), hN.attempt_eq (Nat.le_refl N), attempt_of_error hs herror]

/-! ## Feeds -/

/-- The statement under the cursor fails. -/
def Rejects (s : Assembler) (e : AssemblyError) : Prop :=
  s.onLine.cursor.atEnd = false ∧
    ∃ t, Asm.statement (Asm.expansion (maxDepth - s.depth)) s.onLine = .error e t

/-- What is left of a list of tokens is not assembled to its end. -/
def Stops (t : Assembler) (e : AssemblyError) : Prop :=
  ∀ n, t.cursor.remaining < n → outcome (t.onward n) = .error e

theorem Rejects.stops (h : t.Rejects e) (ht : t.Consistent) : t.Stops e := by
  obtain ⟨hend, u, herror⟩ := h
  intro n hn
  cases n with
  | zero => exact absurd hn (Nat.not_lt_zero _)
  | succ n =>
    rw [onward_of_error ht hend herror]
    rfl

theorem Stops.of_passes (h : u.Stops e) (hpass : t.Passes u) (ht : t.Consistent) : t.Stops e := by
  have hfewer := hpass.remaining_lt ht
  intro n hn
  cases n with
  | zero => exact absurd hn (Nat.not_lt_zero _)
  | succ n =>
    rw [hpass.onward_eq ht]
    exact h n (by omega)

/-- A use of a macro fails where one of the statements does that it stands for. -/
theorem Stops.of_enters (h : u.Stops e) (henter : t.Enters u) (ht : t.Consistent) : t.Stops e := by
  obtain ⟨c, -, hbody⟩ := henter.body_eq
  have hinside := h _ (Nat.lt_succ_self _)
  rw [eq_error_of_outcome hinside] at hbody
  exact Rejects.stops ⟨by simp [Cursor.atEnd, Token.isEnd, henter.1], _,
    bind_eq_error.mpr (Or.inl hbody)⟩ ht

theorem Visits.stops (h : s.Visits k t) (hs : s.Consistent) (ht : t.Stops e) : s.Stops e := by
  induction h with
  | start => exact ht
  | pass hvisits hpass ih => exact ih (ht.of_passes hpass (hvisits.consistent hs))
  | enter hvisits henter ih => exact ih (ht.of_enters henter (hvisits.consistent hs))

/-- A feed of whatever tokens ends. The loop over the statements, which uses of macros start anew
for the tokens they stand for, ends without a bound on the number of statements or of uses, and so
do the loops of the parsers. A statement that succeeds takes a token of its list, one that fails
ends the feed with its error, and no more than 64 uses of macros are ever nested. -/
theorem feed_ends {name : String} (hs : Reachable name s) (tokens : Array Token) :
    (∀ r, Ends Asm.expandingRound (s.fedWith tokens) r ↔
      s.feed tokens = (outcome r, stateAfter r)) ∧
    (∀ c : Cursor, c.LoopsEnd) ∧
    ∀ k t, (s.fedWith tokens).Visits k t → k ≤ 64 ∧
      (∀ u, t.Passes u → u.cursor.tokens = t.cursor.tokens ∧
        u.cursor.remaining < t.cursor.remaining) ∧
      ∀ e, t.Rejects e → (s.feed tokens).1 = .error e := by
  have hstart := hs.settled.fedWith tokens
  have hends := hstart.consistent.ends (Nat.lt_succ_self _)
  rw [onward, hstart.depth] at hends
  refine ⟨fun r => ?_, Cursor.loopsEnd, fun k t hvisits => ?_⟩
  · rw [feed_eq_outcome, Prod.mk.injEq]
    constructor
    · intro hr
      rw [hr.unique hends]
      exact ⟨rfl, rfl⟩
    · rintro ⟨houtcome, hstate⟩
      rwa [← eq_of_outcome_of_stateAfter houtcome hstate]
  · have ht := hvisits.consistent hstart.consistent
    refine ⟨(hvisits.depth hstart).2, fun u hu => ⟨hu.tokens ht, hu.remaining_lt ht⟩,
      fun e he => ?_⟩
    rw [feed_eq_outcome]
    have hstops := hvisits.stops hstart.consistent (he.stops ht) _ (Nat.lt_succ_self _)
    rwa [onward, hstart.depth] at hstops

/-- A macro that uses itself, and a use of it. There is no end of the text behind it. -/
def spinTokens : Array Token :=
  #[⟨.directive, "#", ⟨1, 1⟩⟩, ⟨.name, "macro", ⟨1, 2⟩⟩, ⟨.name, "spin", ⟨1, 8⟩⟩,
    ⟨.newline, "\n", ⟨1, 12⟩⟩, ⟨.name, "nop", ⟨2, 1⟩⟩, ⟨.newline, "\n", ⟨2, 4⟩⟩,
    ⟨.name, "spin", ⟨3, 1⟩⟩, ⟨.newline, "\n", ⟨3, 5⟩⟩, ⟨.directive, "#", ⟨4, 1⟩⟩,
    ⟨.name, "end", ⟨4, 2⟩⟩, ⟨.newline, "\n", ⟨4, 5⟩⟩, ⟨.name, "spin", ⟨5, 1⟩⟩]

/-- What becomes of it. -/
def spinError : AssemblyError := ⟨.macroRecursion "spin", ⟨3, 1⟩⟩

theorem feed_ends_spin :
    ((empty "m").feed spinTokens).1 = .error spinError ∧
      (∃ r, Ends Asm.expandingRound ((empty "m").fedWith spinTokens) r ∧
        outcome r = .error spinError) ∧
      ∀ k t, ((empty "m").fedWith spinTokens).Visits k t → k ≤ 64 := by
  have herror : ((empty "m").feed spinTokens).1 = .error spinError := by decide +kernel
  obtain ⟨hends, -, hvisits⟩ := feed_ends (Reachable.empty : Reachable "m" _) spinTokens
  have hdeep : ∀ k t, ((empty "m").fedWith spinTokens).Visits k t → k ≤ 64 :=
    fun k t ht => (hvisits k t ht).1
  clear hvisits
  generalize (empty "m").feed spinTokens = r at herror hends ⊢
  obtain ⟨_, s'⟩ := r
  subst herror
  exact ⟨rfl, ⟨.error spinError s', (hends _).mpr rfl, rfl⟩, hdeep⟩

end Assembler

end CellMachine
