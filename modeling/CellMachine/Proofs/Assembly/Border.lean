import CellMachine.Proofs.Assembly.Parsing
import CellMachine.Proofs.Simulation
import CellMachine.Proofs.Token.Chunks

/-!
# Parsers in two lists of tokens

The same tokens may stand in two lists (`Passage`) : in the first only ends of statements come
behind them, the second may have more in front of them and goes on behind the end of a statement. A
cursor on each, at the same place of these tokens, stand abreast (`Cursor.Abreast`). What a
statement takes where it succeeds does not reach over the end of a statement, or it is the body of a
macro and its `#end` has been found. So every parser that succeeds in the first list does the same
in the second.

The parsers that repeat themselves are bounded by the number of tokens that are left, which differs
between the two lists. Their lemmas ask of both bounds no more than to reach the end of what the
lists have in common.
-/

namespace CellMachine

/-- Tokens that stand in two lists. Behind them there are only ends of statements in the first list,
and one such end in the second. -/
structure Passage where
  shared : Array Token
  /-- What comes behind them in the first list. -/
  ending : Array Token
  /-- What stands in front of them in the second list. -/
  front : Array Token
  /-- What comes behind them in the second list. -/
  behind : Array Token
  ending_pos : 0 < ending.size
  ends : ∀ t ∈ ending, t.endsStatement = true ∧ t.text ≠ "end"
  ends' : ∃ t, behind[0]? = some t ∧ t.endsStatement = true

namespace Passage

/-- The list that ends behind the tokens. -/
def first (w : Passage) : Array Token := w.shared ++ w.ending

/-- The list that goes on. -/
def second (w : Passage) : Array Token := w.front ++ w.shared ++ w.behind

end Passage

theorem Token.endsStatement_of_kind {t : Token} {kind : TokenKind} (h : t.kind = kind)
    (hkind : kind ≠ .newline ∧ kind ≠ .endOfCode) : t.endsStatement = false := by
  simp [endsStatement, h, hkind]

theorem Token.kind_of_endsStatement {t : Token} (h : t.endsStatement = true) :
    t.kind = .newline ∨ t.kind = .endOfCode := by
  simpa [endsStatement] using h

namespace Cursor

theorem pos_next_of_lt {c : Cursor} (h : c.pos < c.tokens.size) : c.next.pos = c.pos + 1 := by
  simp [next, h]

/-- Two cursors at one place of what their lists have in common. -/
structure Abreast (w : Passage) (c c' : Cursor) : Prop where
  tokens : c.tokens = w.first
  tokens' : c'.tokens = w.second
  pos : c'.pos = w.front.size + c.pos
  inside : c.pos ≤ w.shared.size

variable {w : Passage} {c c' : Cursor}

/-- Behind the tokens there are only ends of statements, also beyond the end of the list. -/
theorem tokenAt_behind (h : c.tokens = w.first) {i : Nat} (hi : w.shared.size ≤ i) :
    (c.tokenAt i).endsStatement = true ∧ (c.tokenAt i).text ≠ "end" := by
  unfold tokenAt
  rw [h, Passage.first, Array.getElem?_append_right hi]
  cases hget : w.ending[i - w.shared.size]? with
  | some t => exact w.ends t (Array.mem_of_getElem? hget)
  | none =>
    have hback : c.tokens.back? = w.ending.back? := by
      have hpos := w.ending_pos
      rw [h, Passage.first, Array.back?_eq_getElem?, Array.back?_eq_getElem?, Array.size_append,
        Array.getElem?_append_right (by omega)]
      congr 1
      omega
    unfold fallback
    rw [hback]
    cases hlast : w.ending.back? with
    | none => exact ⟨rfl, by decide⟩
    | some t =>
      simp only [Option.getD_none]
      split
      · exact w.ends t (Array.mem_of_back? hlast)
      · exact ⟨rfl, by decide⟩

namespace Abreast

theorem tokenAt_eq (h : Abreast w c c') {i : Nat} (hi : i < w.shared.size) :
    c'.tokenAt (w.front.size + i) = c.tokenAt i := by
  unfold tokenAt
  rw [h.tokens, h.tokens', Passage.first, Passage.second, Array.append_assoc,
    Array.getElem?_append_right (Nat.le_add_right _ _), Nat.add_sub_cancel_left,
    Array.getElem?_append_left hi, Array.getElem?_append_left hi, Array.getElem?_eq_getElem hi,
    Option.getD_some, Option.getD_some]

theorem tokenAt_ends' (h : Abreast w c c') :
    (c'.tokenAt (w.front.size + w.shared.size)).endsStatement = true := by
  obtain ⟨t, ht, hends⟩ := w.ends'
  unfold tokenAt
  rw [h.tokens', Passage.second, Array.getElem?_append_right (Nat.le_of_eq Array.size_append),
    Array.size_append, Nat.sub_self, ht, Option.getD_some]
  exact hends

/-- A token that does not end a statement is one of those that the lists have in common. -/
theorem lt_of_current (h : Abreast w c c') (hcurrent : c.current.endsStatement = false) :
    c.pos < w.shared.size := by
  refine Nat.lt_of_not_le fun hlast => ?_
  have hends : c.current.endsStatement = true := (tokenAt_behind h.tokens hlast).1
  simp [hcurrent] at hends

theorem lt_of_text (h : Abreast w c c') (htext : c.current.text = "end") :
    c.pos < w.shared.size :=
  Nat.lt_of_not_le fun hlast => (tokenAt_behind h.tokens hlast).2 htext

theorem current_eq_of_lt (h : Abreast w c c') (hlt : c.pos < w.shared.size) :
    c'.current = c.current := by
  unfold current
  rw [h.pos]
  exact h.tokenAt_eq hlt

theorem current_mem (h : Abreast w c c') (hlt : c.pos < w.shared.size) :
    c.current ∈ w.shared := by
  unfold current tokenAt
  rw [h.tokens, Passage.first, Array.getElem?_append_left hlt, Array.getElem?_eq_getElem hlt]
  exact Array.getElem_mem hlt

theorem current_eq (h : Abreast w c c') (hcurrent : c.current.endsStatement = false) :
    c'.current = c.current := h.current_eq_of_lt (h.lt_of_current hcurrent)

theorem endsStatement_current (h : Abreast w c c') :
    c'.current.endsStatement = c.current.endsStatement := by
  cases hcurrent : c.current.endsStatement with
  | false => rw [h.current_eq hcurrent, hcurrent]
  | true =>
    by_cases hlt : c.pos < w.shared.size
    · rw [h.current_eq_of_lt hlt, hcurrent]
    · have hpos : c.pos = w.shared.size := Nat.le_antisymm h.inside (Nat.not_lt.mp hlt)
      unfold current
      rw [h.pos, hpos]
      exact h.tokenAt_ends'

/-- A test for a kind that ends no statement has the same answer. -/
theorem kind_beq (h : Abreast w c c') {kind : TokenKind}
    (hkind : kind ≠ .newline ∧ kind ≠ .endOfCode) :
    (c'.current.kind == kind) = (c.current.kind == kind) := by
  have hends := h.endsStatement_current
  cases hcurrent : c.current.endsStatement with
  | false => rw [h.current_eq hcurrent]
  | true =>
    rw [hcurrent] at hends
    have hne : ∀ t : Token, t.endsStatement = true → (t.kind == kind) = false := by
      intro t ht
      cases hbeq : t.kind == kind with
      | false => rfl
      | true => simp [Token.endsStatement_of_kind (beq_iff_eq.mp hbeq) hkind] at ht
    rw [hne _ hends, hne _ hcurrent]

theorem pos_next (h : Abreast w c c') : c.next.pos = c.pos + 1 := by
  have hinside := h.inside
  have hending := w.ending_pos
  exact pos_next_of_lt (by rw [h.tokens, Passage.first, Array.size_append]; omega)

theorem pos_next' (h : Abreast w c c') : c'.next.pos = c'.pos + 1 := by
  have hinside := h.inside
  obtain ⟨t, ht, -⟩ := w.ends'
  have hbehind : 0 < w.behind.size := (Array.getElem?_eq_some_iff.mp ht).1
  refine pos_next_of_lt ?_
  rw [h.tokens', h.pos, Passage.second, Array.size_append, Array.size_append]
  omega

theorem current_next (h : Abreast w c c') : c.next.current = c.peek := by
  unfold current peek tokenAt fallback
  rw [h.pos_next, (forward_next c).tokens]

theorem current_next' (h : Abreast w c c') : c'.next.current = c'.peek := by
  unfold current peek tokenAt fallback
  rw [h.pos_next', (forward_next c').tokens]

theorem next (h : Abreast w c c') (hnext : c.pos < w.shared.size) :
    Abreast w c.next c'.next :=
  ⟨(forward_next c).tokens.trans h.tokens, (forward_next c').tokens.trans h.tokens',
    by rw [h.pos_next, h.pos_next', h.pos, Nat.add_assoc], by rw [h.pos_next]; exact hnext⟩

/-- The tokens left are enough to reach the end of what the lists have in common. -/
theorem lt_remaining (h : Abreast w c c') : w.shared.size < c.pos + c.remaining := by
  have hinside := h.inside
  have hending := w.ending_pos
  unfold remaining
  rw [h.tokens, Passage.first, Array.size_append]
  omega

theorem lt_remaining' (h : Abreast w c c') : w.shared.size < c.pos + c'.remaining := by
  have hinside := h.inside
  obtain ⟨t, ht, -⟩ := w.ends'
  have hbehind : 0 < w.behind.size := (Array.getElem?_eq_some_iff.mp ht).1
  unfold remaining
  rw [h.tokens', h.pos, Passage.second, Array.size_append, Array.size_append]
  omega

/-- What is repeated under two bounds that reach the end of the tokens in common can be followed
from one round to the next, since each takes a token. -/
@[elab_as_elim]
theorem repeated {P : Nat → Nat → Cursor → Cursor → Prop}
    (hround : ∀ n n' c c', Abreast w c c' →
      (∀ d d', Abreast w d d' → c.pos < d.pos → P n n' d d') → P (n + 1) (n' + 1) c c')
    {n n' : Nat} (h : Abreast w c c') (hn : w.shared.size < c.pos + n)
    (hn' : w.shared.size < c.pos + n') : P n n' c c' := by
  induction n generalizing n' c c' with
  | zero => exact absurd hn (Nat.not_lt.mpr h.inside)
  | succ n ih =>
    cases n' with
    | zero => exact absurd hn' (Nat.not_lt.mpr h.inside)
    | succ n' => exact hround n n' c c' h fun d d' h' hpos => ih h' (by omega) (by omega)

end Abreast

/-! ## Empty lines -/

theorem skipNewlines_of_ne (h : c.current.kind ≠ .newline) : c.skipNewlines = c := by
  unfold skipNewlines
  cases c.remaining with
  | zero => rfl
  | succ n => exact if_neg (by simpa using h)

theorem skipNewlines_of_eq (h : c.current.kind = .newline) :
    c.skipNewlines = c.next.skipNewlines := by
  unfold skipNewlines
  rw [remaining_next]
  cases hremaining : c.remaining with
  | zero =>
    have hend := atEnd_of_remaining_eq_zero hremaining
    simp [atEnd, Token.isEnd, h] at hend
  | succ n => exact if_pos (by simpa using h)

theorem current_skipNewlines_ne (c : Cursor) : c.skipNewlines.current.kind ≠ .newline := by
  rcases skipWhile_stops (·.kind == .newline) c.remaining c (Nat.le_refl _) with h | h
  · simpa [skipNewlines] using h
  · intro hkind
    change c.skipNewlines.current.isEnd = true at h
    simp [Token.isEnd, hkind] at h

theorem skipNewlines_skipNewlines (c : Cursor) : c.skipNewlines.skipNewlines = c.skipNewlines :=
  skipNewlines_of_ne c.current_skipNewlines_ne

theorem atEnd_skipNewlines_behind (h : c.tokens = w.first) (hpos : w.shared.size ≤ c.pos) :
    c.skipNewlines.atEnd = true := by
  have hforward : c.Forward c.skipNewlines := forward_skipWhile _ _ _
  have hends : c.skipNewlines.current.endsStatement = true :=
    (tokenAt_behind (hforward.tokens.trans h) (Nat.le_trans hpos hforward.pos)).1
  rcases Token.kind_of_endsStatement hends with hkind | hkind
  · exact absurd hkind c.current_skipNewlines_ne
  · simp [atEnd, Token.isEnd, hkind]

/-- Behind empty lines both cursors are at the next token, or behind what their lists have in
common. The induction is on the tokens up to there. -/
theorem Abreast.line (h : Abreast w c c') :
    (Abreast w c.skipNewlines c'.skipNewlines ∧ c.skipNewlines.pos < w.shared.size) ∨
      (c.skipNewlines = (⟨w.first, w.shared.size⟩ : Cursor).skipNewlines ∧
        c'.skipNewlines = (⟨w.second, w.front.size + w.shared.size⟩ : Cursor).skipNewlines) := by
  generalize hk : w.shared.size - c.pos = k
  induction k generalizing c c' with
  | zero =>
    have hinside := h.inside
    have hpos : c.pos = w.shared.size := by omega
    have hpos' := h.pos
    rw [hpos] at hpos'
    refine Or.inr ⟨?_, ?_⟩
    · rw [← h.tokens, ← hpos]
    · rw [← h.tokens', ← hpos']
  | succ k ih =>
    have hlt : c.pos < w.shared.size := by omega
    have hcurrent := h.current_eq_of_lt hlt
    by_cases hkind : c.current.kind = .newline
    · rw [skipNewlines_of_eq hkind, skipNewlines_of_eq (c := c') (by rwa [hcurrent])]
      exact ih (h.next hlt) (by rw [h.pos_next]; omega)
    · rw [skipNewlines_of_ne hkind, skipNewlines_of_ne (c := c') (by rwa [hcurrent])]
      exact Or.inl ⟨h, hlt⟩

/-- But for empty lines two cursors stand at one place of what their lists have in common. -/
def Aligned (w : Passage) (c c' : Cursor) : Prop :=
  ∃ d d', Abreast w d d' ∧ c.skipNewlines = d.skipNewlines ∧ c'.skipNewlines = d'.skipNewlines

theorem Abreast.aligned_skipNewlines (h : Abreast w c c') :
    Aligned w c.skipNewlines c'.skipNewlines :=
  ⟨c, c', h, skipNewlines_skipNewlines c, skipNewlines_skipNewlines c'⟩

theorem Aligned.line (h : Aligned w c c') :
    (Abreast w c.skipNewlines c'.skipNewlines ∧ c.skipNewlines.pos < w.shared.size) ∨
      (c.skipNewlines = (⟨w.first, w.shared.size⟩ : Cursor).skipNewlines ∧
        c'.skipNewlines = (⟨w.second, w.front.size + w.shared.size⟩ : Cursor).skipNewlines) := by
  obtain ⟨d, d', hd, hc, hc'⟩ := h
  rw [hc, hc']
  exact hd.line

/-- Before the end of its list the first cursor is in what the lists have in common. -/
theorem Aligned.abreast (h : Aligned w c c') (hend : c.skipNewlines.atEnd = false) :
    Abreast w c.skipNewlines c'.skipNewlines ∧ c.skipNewlines.pos < w.shared.size := by
  rcases h.line with h | ⟨hc, -⟩
  · exact h
  · rw [hc, atEnd_skipNewlines_behind rfl (Nat.le_refl _)] at hend
    cases hend

end Cursor

namespace Parser

open Cursor (Abreast)

variable {w : Passage} {c c' : Cursor} {α : Type}

/-! ## Single tokens -/

/-- What goes on with the current token may know that it is the current one. Where that ends a
statement, the second list may have another one there. -/
theorem echoed_current_bind {f g : Token → Parser α} (h : Abreast w c c')
    (hends : c.current.endsStatement = true → ∀ r : EStateM.Result AssemblyError Cursor α,
      Echoed (Abreast w) (f c.current c) r)
    (hf : c.current.endsStatement = false →
      Echoed (Abreast w) (f c.current c) (g c.current c')) :
    Echoed (Abreast w) ((current >>= f) c) ((current >>= g) c') := by
  change Echoed _ (f c.current c) (g c'.current c')
  cases hcurrent : c.current.endsStatement with
  | true => exact hends hcurrent _
  | false =>
    rw [h.current_eq hcurrent]
    exact hf hcurrent

theorem echoed_next_bind {x y : Parser α} (h : Abreast w c c')
    (hcurrent : c.current.endsStatement = false)
    (hx : Abreast w c.next c'.next → Echoed (Abreast w) (x c.next) (y c'.next)) :
    Echoed (Abreast w) ((do next; x) c) ((do next; y) c') :=
  hx (h.next (h.lt_of_current hcurrent))

variable {n n' : Nat} {kind : TokenKind}

/-- An end of a statement is not taken for another token. -/
theorem expect_ne_ok (hkind : kind ≠ .newline ∧ kind ≠ .endOfCode) {expected : String}
    (hends : c.current.endsStatement = true) (t : Token) (c₁ : Cursor) :
    expect kind expected c ≠ .ok t c₁ := by
  intro h
  change (if (c.current.kind == kind) = true then _ else _ : Parser Token) c = _ at h
  split at h
  · next hbeq => simp [Token.endsStatement_of_kind (beq_iff_eq.mp hbeq) hkind] at hends
  · cases h

theorem echoes_expect (hkind : kind ≠ .newline ∧ kind ≠ .endOfCode) (expected : String) :
    Echoes (Abreast w) (expect kind expected) (expect kind expected) := by
  intro c c' h
  refine echoed_current_bind h (fun hends r t c₁ hok => ?_) fun hcurrent => ?_
  · exact absurd hok (expect_ne_ok hkind hends t c₁)
  · split
    · exact echoed_next_bind h hcurrent fun h' => .ok _ h'
    · exact .error _ _ _

theorem echoes_expectColon : Echoes (Abreast w) expectColon expectColon :=
  .bind (echoes_expect (by decide) _) fun _ => .pure _

theorem echoes_expectName : Echoes (Abreast w) expectName expectName :=
  .bind (echoes_expect (by decide) _) fun _ => .pure _

theorem echoes_expectEnd : Echoes (Abreast w) expectEnd expectEnd := by
  intro c c' h
  change Echoed _ ((if c.current.endsStatement = true then _ else _ : Parser Unit) c)
    ((if c'.current.endsStatement = true then _ else _ : Parser Unit) c')
  rw [h.endsStatement_current]
  split
  · exact .ok _ h
  · exact .error _ _ _

theorem echoes_datatypeSuffix : Echoes (Abreast w) datatypeSuffix datatypeSuffix := by
  refine .bind (echoes_expect (by decide) _) fun _ =>
    .bind (echoes_expect (by decide) _) fun t => ?_
  split
  · exact .pure _
  · exact .throw _ _

/-- The token that is looked at behind the dot is named only in the error. -/
theorem echoes_storedDatatype : Echoes (Abreast w) storedDatatype storedDatatype := by
  intro c c' h
  refine (echoes_datatypeSuffix h).bind fun dt c₁ c₁' _ h₁ => ?_
  by_cases hdt : dt = .none
  · rw [if_pos hdt]
    exact .error _ _ _
  · rw [if_neg hdt, if_neg hdt]
    exact .ok _ h₁

theorem echoed_at?_bind (hkind : kind ≠ .newline ∧ kind ≠ .endOfCode) {f g : Bool → Parser α}
    (h : Abreast w c c')
    (htrue : c.current.endsStatement = false → Echoed (Abreast w) (f true c) (g true c'))
    (hfalse : Echoed (Abreast w) (f false c) (g false c')) :
    Echoed (Abreast w) ((at? kind >>= f) c) ((at? kind >>= g) c') := by
  change Echoed _ (f (c.current.kind == kind) c) (g (c'.current.kind == kind) c')
  rw [h.kind_beq hkind]
  cases hcurrent : c.current.kind == kind with
  | true => exact htrue (Token.endsStatement_of_kind (beq_iff_eq.mp hcurrent) hkind)
  | false => exact hfalse

theorem echoes_at? (hkind : kind ≠ .newline ∧ kind ≠ .endOfCode) :
    Echoes (Abreast w) (at? kind) (at? kind) := by
  intro c c' h
  change Echoed _ (.ok (c.current.kind == kind) c) (.ok (c'.current.kind == kind) c')
  rw [h.kind_beq hkind]
  exact .ok _ h

/-- Takes a token of a kind, if it is there, and goes on with or without it. -/
theorem echoed_taken (hkind : kind ≠ .newline ∧ kind ≠ .endOfCode) {x y x' y' : Parser α}
    (h : Abreast w c c')
    (hx : Abreast w c.next c'.next → Echoed (Abreast w) (x c.next) (x' c'.next))
    (hy : Echoed (Abreast w) (y c) (y' c')) :
    Echoed (Abreast w)
      ((do if ← take? kind then x else y) c) ((do if ← take? kind then x' else y') c') := by
  rw [take?_bind_apply, take?_bind_apply, h.kind_beq hkind]
  by_cases hcurrent : (c.current.kind == kind) = true
  · rw [if_pos hcurrent, if_pos hcurrent]
    exact hx (h.next (h.lt_of_current
      (Token.endsStatement_of_kind (beq_iff_eq.mp hcurrent) hkind)))
  · rw [if_neg hcurrent, if_neg hcurrent]
    exact hy

theorem echoes_take? (hkind : kind ≠ .newline ∧ kind ≠ .endOfCode) :
    Echoes (Abreast w) (take? kind) (take? kind) := by
  intro c c' h
  refine echoed_at?_bind hkind h (fun hcurrent => ?_) (.ok _ h)
  exact echoed_next_bind h hcurrent fun h₁ => .ok _ h₁

/-! ## Names and operands -/

theorem dottedRestRound_apply (rest : String → Parser String) (name : String) (c : Cursor) :
    dottedRestRound rest name c =
      if c.current.kind == .dot && c.peek.kind == .name then
        rest (name ++ "." ++ c.next.current.text) c.next.next
      else .ok name c := by
  change (if c.current.kind == .dot && c.peek.kind == .name then _ else _ : Parser String) c = _
  split
  · rfl
  · rfl

theorem echoed_dottedRest (h : Abreast w c c') (hn : w.shared.size < c.pos + n)
    (hn' : w.shared.size < c.pos + n') :
    ∀ name, Echoed (Abreast w) (dottedRest name n c) (dottedRest name n' c') := by
  refine Abreast.repeated (fun n n' c c' h ih name => ?_) h hn hn'
  rw [dottedRest, dottedRestRound_apply, dottedRest, dottedRestRound_apply, h.kind_beq (by decide)]
  by_cases hdot : c.current.kind = .dot
  · have hlt := h.lt_of_current (Token.endsStatement_of_kind hdot (by decide))
    have h₁ := h.next hlt
    rw [← h.current_next, ← h.current_next', h₁.kind_beq (by decide)]
    by_cases hname : c.next.current.kind = .name
    · rw [if_pos (by simp [hdot, hname]), if_pos (by simp [hdot, hname])]
      have hcurrent := Token.endsStatement_of_kind hname (by decide)
      have hpos := h.pos_next
      have hpos₁ := h₁.pos_next
      rw [h₁.current_eq hcurrent]
      exact ih _ _ (h₁.next (h₁.lt_of_current hcurrent)) (by omega) _
    · rw [if_neg (by simp [hname]), if_neg (by simp [hname])]
      exact .ok _ h
  · rw [if_neg (by simp [hdot]), if_neg (by simp [hdot])]
    exact .ok _ h

theorem echoes_dottedName : Echoes (Abreast w) dottedName dottedName := by
  intro c c' h
  refine (echoes_expectName h).bind fun name c₁ c₁' _ h₁ => ?_
  exact echoed_dottedRest h₁ h₁.lt_remaining h₁.lt_remaining' name

theorem echoed_register (h : Abreast w c c') (hcurrent : c.current.endsStatement = false) :
    Echoed (Abreast w) (register c) (register c') := by
  refine echoed_next_bind h hcurrent fun h₁ => ?_
  refine (echoes_expect (by decide) _ h₁).bind fun t c₂ c₂' _ h₂ => ?_
  cases Register.ofName? t.text with
  | some a => exact .ok _ h₂
  | none => exact .error _ _ _

theorem echoed_frameSlot (h : Abreast w c c') (hcurrent : c.current.endsStatement = false) :
    Echoed (Abreast w) (frameSlot c) (frameSlot c') := by
  refine echoed_next_bind h hcurrent fun h₁ => ?_
  refine (echoes_expect (by decide) _ h₁).bind fun t c₂ c₂' _ h₂ => ?_
  cases IntLiteral.ofText? t.text with
  | some a => exact .ok _ h₂
  | none => exact .error _ _ _

theorem term_ne_ok (hends : c.current.endsStatement = true) (a : Term) (c₁ : Cursor) :
    term c ≠ .ok a c₁ := by
  intro h
  obtain ⟨_, _, hcurrent, h⟩ := bind_eq_ok.mp h
  cases hcurrent
  rcases Token.kind_of_endsStatement hends with hkind | hkind
  · rw [hkind] at h
    cases h
  · rw [hkind] at h
    cases h

theorem echoes_term : Echoes (Abreast w) term term := by
  intro c c' h
  refine echoed_current_bind h (fun hends r a c₁ hok => ?_) fun hcurrent => ?_
  · exact absurd hok (term_ne_ok hends a c₁)
  · cases hkind : c.current.kind with
    | register => exact echoed_register h hcurrent
    | frame => exact echoed_frameSlot h hcurrent
    | name => exact Echoes.bind echoes_dottedName (fun _ => .pure _) h
    | string => exact echoed_next_bind h hcurrent fun h₁ => .ok _ h₁
    | float =>
      refine echoed_next_bind h hcurrent fun h₁ => ?_
      cases floatLiteral? c.current.text with
      | some a => exact .ok _ h₁
      | none => exact .error _ _ _
    | integer =>
      refine echoed_next_bind h hcurrent fun h₁ => ?_
      cases IntLiteral.ofText? c.current.text with
      | some a => exact .ok _ h₁
      | none => exact .error _ _ _
    | _ => exact .error _ _ _

/-- The first token of an operand is kept with it. An operand starts with no end of a statement. -/
theorem echoed_operandBehind (deref : Bool) (h : Abreast w c c') :
    Echoed (Abreast w)
      ((do
        let token ← current
        return (⟨deref, ← term, token⟩ : SourceOperand)) c)
      ((do
        let token ← current
        return (⟨deref, ← term, token⟩ : SourceOperand)) c') := by
  refine echoed_current_bind h (fun hends r => ?_) fun _ =>
    (echoes_term h).bind fun _ _ _ _ h₁ => .ok _ h₁
  intro o c₁ hok
  obtain ⟨a, c₂, hterm, -⟩ := bind_eq_ok.mp hok
  exact absurd hterm (term_ne_ok hends a c₂)

theorem echoes_operand : Echoes (Abreast w) operand operand := by
  intro c c' h
  exact echoed_at?_bind (by decide) h
    (fun hcurrent => echoed_next_bind h hcurrent fun h₁ => echoed_operandBehind true h₁)
    (echoed_operandBehind false h)

theorem echoes_literalValue (o : SourceOperand) (dt : Datatype) :
    Echoes (Abreast w) (literalValue o dt) (literalValue o dt) := by
  unfold literalValue
  split
  · exact .pure _
  · exact .throw _ _

/-! ## Parts of statements -/

theorem echoes_instructionDatatype (op : Opcode) (t : Token) :
    Echoes (Abreast w) (instructionDatatype op t) (instructionDatatype op t) := by
  refine .bind (echoes_at? (by decide)) fun hasSuffix => ?_
  split
  · exact .throw _ _
  · exact .throw _ _
  · exact .bind echoes_datatypeSuffix fun _ => .ite (.throw _ _) (.pure _)
  · exact echoes_datatypeSuffix
  · exact .pure _

theorem echoes_argumentDatatype :
    Echoes (Abreast w) argumentDatatype argumentDatatype := by
  refine .bind (echoes_expect (by decide) _) fun t => ?_
  split
  · exact .throw _ _
  · exact .throw _ _
  · exact .pure _

theorem echoes_optionalDatatype :
    Echoes (Abreast w) optionalDatatype optionalDatatype := by
  refine .bind (echoes_at? (by decide)) fun _ => .ite ?_ (.pure _)
  exact .bind echoes_datatypeSuffix fun _ => .pure _

theorem echoes_aliasAs (o : SourceOperand) (dt : Option Datatype) (v : Value) :
    Echoes (Abreast w) (aliasAs o dt v) (aliasAs o dt v) := by
  unfold aliasAs
  split
  · exact .pure _
  · refine .ite (.pure _) ?_
    split
    · exact .pure _
    · exact .throw _ _

theorem echoes_aliasOf (o : SourceOperand) (dt : Option Datatype) (name : String)
    (found : Option Symbol) :
    Echoes (Abreast w) (aliasOf o dt name found) (aliasOf o dt name found) := by
  cases found with
  | some symbol => exact echoes_aliasAs o dt symbol.value
  | none => exact .throw _ _

theorem echoes_permissionName : Echoes (Abreast w) permissionName permissionName := by
  intro c c' h
  refine echoed_current_bind h (fun hends r name c₁ hok => ?_) fun hcurrent => ?_
  · split at hok
    · next hbeq =>
      simp [Token.endsStatement_of_kind (beq_iff_eq.mp hbeq) (by decide)] at hends
    · obtain ⟨_, _, hname, -⟩ := bind_eq_ok.mp hok
      obtain ⟨t, c₂, hname, -⟩ := bind_eq_ok.mp hname
      exact absurd hname (expect_ne_ok (by decide) hends t c₂)
  · split
    · exact echoed_next_bind h hcurrent fun h₁ => .ok _ h₁
    · exact echoes_dottedName h

theorem echoes_scopeName : Echoes (Abreast w) scopeName scopeName := by
  intro c c' h
  refine echoed_current_bind h (fun hends _ => ?_) fun hcurrent => ?_
  · rw [if_neg fun hbeq => by
      simp [Token.endsStatement_of_kind (beq_iff_eq.mp hbeq) (by decide)] at hends]
    exact .error _ _ _
  · split
    · exact echoed_next_bind h hcurrent fun h₁ => .ok _ h₁
    · exact .error _ _ _

theorem echoes_initializer : Echoes (Abreast w) initializer initializer := by
  intro c c' h
  refine echoed_current_bind h (fun hends _ => ?_) fun hcurrent => ?_
  · rcases Token.kind_of_endsStatement hends with hkind | hkind
    · rw [hkind]
      exact .error _ _ _
    · rw [hkind]
      exact .error _ _ _
  · cases hkind : c.current.kind with
    | integer =>
      refine echoed_next_bind h hcurrent fun h₁ => ?_
      cases reservedSize? c.current.text with
      | some n => exact .ok _ h₁
      | none => exact .error _ _ _
    | string => exact echoed_next_bind h hcurrent fun h₁ => .ok _ h₁
    | _ => exact .error _ _ _

theorem echoes_declaration : Echoes (Abreast w) declaration declaration :=
  .bind echoes_expectName fun _ => .bind echoes_storedDatatype fun _ => .pure _

/-! ## Parameters and arguments -/

theorem echoed_parameters (h : Abreast w c c') (hn : w.shared.size < c.pos + n)
    (hn' : w.shared.size < c.pos + n') :
    Echoed (Abreast w) (parameters n c) (parameters n' c') := by
  refine Abreast.repeated (fun n n' c c' h ih => ?_) h hn hn'
  refine echoed_taken (by decide) h (fun h₁ => ?_) (.ok _ h)
  have hpos := h.pos_next
  refine (echoes_declaration h₁).bind fun p c₂ c₂' hp h₂ => ?_
  have hpos₂ := (relates_declaration.of_ok hp).pos
  exact (ih _ _ h₂ (by omega)).bind fun _ _ _ _ h₃ => .ok _ h₃

theorem echoes_parameterList : Echoes (Abreast w) parameterList parameterList :=
  fun _ _ h => echoed_parameters h h.lt_remaining h.lt_remaining'

theorem echoed_macroParams (h : Abreast w c c') (hn : w.shared.size < c.pos + n)
    (hn' : w.shared.size < c.pos + n') :
    Echoed (Abreast w) (macroParams n c) (macroParams n' c') := by
  refine Abreast.repeated (fun n n' c c' h ih => ?_) h hn hn'
  refine echoed_taken (by decide) h (fun h₁ => ?_) (.ok _ h)
  have hpos := h.pos_next
  refine (echoes_expectName h₁).bind fun name c₂ c₂' hname h₂ => ?_
  have hpos₂ := (relates_expectName.of_ok hname).pos
  exact (ih _ _ h₂ (by omega)).bind fun _ _ _ _ h₃ => .ok _ h₃

theorem echoed_argumentTokens (h : Abreast w c c') (hn : w.shared.size < c.pos + n)
    (hn' : w.shared.size < c.pos + n') :
    Echoed (Abreast w) (argumentTokens n c) (argumentTokens n' c') := by
  refine Abreast.repeated (fun n n' c c' h ih => ?_) h hn hn'
  change Echoed _
    ((if (c.current.kind == .colon || c.current.endsStatement) = true then _ else _ : Parser _) c)
    ((if (c'.current.kind == .colon || c'.current.endsStatement) = true then _ else _ : Parser _) c')
  rw [h.kind_beq (by decide), h.endsStatement_current]
  by_cases hends : (c.current.kind == .colon || c.current.endsStatement) = true
  · rw [if_pos hends, if_pos hends]
    exact .ok _ h
  · rw [if_neg hends, if_neg hends]
    have hcurrent : c.current.endsStatement = false := by
      cases hbool : c.current.endsStatement with
      | false => rfl
      | true => simp [hbool] at hends
    rw [h.current_eq hcurrent]
    refine echoed_next_bind h hcurrent fun h₁ => ?_
    have hpos := h.pos_next
    exact (ih _ _ h₁ (by omega)).bind fun _ _ _ _ h₂ => .ok _ h₂

theorem echoed_macroArguments (h : Abreast w c c') (hn : w.shared.size < c.pos + n)
    (hn' : w.shared.size < c.pos + n') :
    Echoed (Abreast w) (macroArguments n c) (macroArguments n' c') := by
  refine Abreast.repeated (fun n n' c c' h ih => ?_) h hn hn'
  refine echoed_taken (by decide) h (fun h₁ => ?_) (.ok _ h)
  have hpos := h.pos_next
  refine (echoed_argumentTokens h₁ h₁.lt_remaining h₁.lt_remaining').bind
    fun arg c₂ c₂' harg h₂ => ?_
  have hpos₂ := ((relates_argumentTokens _).of_ok harg).pos
  by_cases hempty : arg.isEmpty = true
  · rw [if_pos hempty]
    exact .error _ _ _
  · rw [if_neg hempty, if_neg hempty]
    exact (ih _ _ h₂ (by omega)).bind fun _ _ _ _ h₃ => .ok _ h₃

/-! ## The body of a macro -/

theorem macroBodyRound_apply (rest : Nat → Parser (Option (List Token))) (depth : Nat)
    (c : Cursor) :
    macroBodyRound rest depth c =
      if c.current.isEnd then .ok none c
      else if c.current.kind == .directive && c.peek.text == "end" && depth == 0 then
        .ok (some []) c.next.next
      else (rest (blocksBehind depth c.current c.peek.text) >>=
        fun body => pure (body.map (c.current :: ·))) c.next := by
  change (if c.current.isEnd then _ else if _ then _ else _ : Parser _) c = _
  split
  · rfl
  · split
    · rfl
    · rfl

/-- Behind the tokens in common the first list has no `#end`. -/
theorem macroBody_behind {depth : Nat} {body : List Token} {c₁ : Cursor} (h : c.tokens = w.first)
    (hpos : w.shared.size ≤ c.pos) : macroBody depth n c ≠ .ok (some body) c₁ := by
  induction n generalizing depth body c c₁ with
  | zero =>
    intro hbody
    cases hbody
  | succ n ih =>
    intro hbody
    rw [macroBody, macroBodyRound_apply] at hbody
    have hends : c.current.endsStatement = true := (Cursor.tokenAt_behind h hpos).1
    have hnot : (c.current.kind == .directive) = false := by
      rcases Token.kind_of_endsStatement hends with hkind | hkind <;> rw [hkind] <;> rfl
    simp only [hnot, Bool.false_and, Bool.false_eq_true, if_false] at hbody
    split at hbody
    · cases hbody
    · obtain ⟨rest, c₂, hrest, hbody⟩ := bind_eq_ok.mp hbody
      cases rest with
      | none => cases hbody
      | some rest =>
        have hforward := Cursor.forward_next c
        exact ih (hforward.tokens.trans h) (Nat.le_trans hpos hforward.pos) hrest

/-- The body of a macro goes over the ends of lines, but not beyond the tokens in common, since its
`#end` is found. -/
theorem macroBody_eq_some (h : Abreast w c c') (hn : w.shared.size < c.pos + n)
    (hn' : w.shared.size < c.pos + n') :
    ∀ depth body c₁, macroBody depth n c = .ok (some body) c₁ →
      ∃ c₁', macroBody depth n' c' = .ok (some body) c₁' ∧ Abreast w c₁ c₁' := by
  refine Abreast.repeated (fun n n' c c' h ih depth body c₁ hbody => ?_) h hn hn'
  have hlt : c.pos < w.shared.size := Nat.lt_of_not_le fun hpos =>
    macroBody_behind h.tokens hpos hbody
  have h₁ := h.next hlt
  have hpos := h.pos_next
  rw [macroBody, macroBodyRound_apply] at hbody
  rw [macroBody, macroBodyRound_apply, h.current_eq_of_lt hlt]
  by_cases hend : c.current.isEnd = true
  · rw [if_pos hend] at hbody
    cases hbody
  rw [if_neg hend] at hbody ⊢
  by_cases hclose : (c.current.kind == .directive && c.peek.text == "end" && depth == 0) = true
  · rw [if_pos hclose] at hbody
    cases hbody
    have htext : c.next.current.text = "end" := by
      simp only [Bool.and_eq_true, beq_iff_eq] at hclose
      rw [h.current_next, hclose.1.2]
    have hlt₁ := h₁.lt_of_text htext
    rw [← h.current_next', h₁.current_eq_of_lt hlt₁, h.current_next, if_pos hclose]
    exact ⟨_, rfl, h₁.next hlt₁⟩
  · rw [if_neg hclose] at hbody
    obtain ⟨rest, c₂, hrest, hbody⟩ := bind_eq_ok.mp hbody
    cases rest with
    | none => cases hbody
    | some rest =>
      cases hbody
      -- The body goes on behind the token, so the next one is in common, too.
      have hlt₁ : c.next.pos < w.shared.size := Nat.lt_of_not_le fun hpos =>
        macroBody_behind h₁.tokens hpos hrest
      rw [← h.current_next', h₁.current_eq_of_lt hlt₁, h.current_next, if_neg hclose]
      obtain ⟨c₂', hrest', h₂⟩ := ih _ _ h₁ (by omega) _ _ _ hrest
      exact ⟨c₂', bind_eq_ok.mpr ⟨_, _, hrest', rfl⟩, h₂⟩

/-- A body that is not closed makes the definition fail, so that only a closed one is followed. -/
theorem echoes_macroDef (t : Token) : Echoes (Abreast w) (macroDef t) (macroDef t) := by
  intro c c' h
  refine (echoed_macroParams h h.lt_remaining h.lt_remaining').bind fun params c₁ c₁' _ h₁ => ?_
  refine (echoes_expectEnd h₁).bind fun _ c₂ c₂' _ h₂ => ?_
  intro d c₅ hok
  obtain ⟨_, _, hremaining, hok⟩ := bind_eq_ok.mp hok
  cases hremaining
  obtain ⟨body, c₃, hbody, hok⟩ := bind_eq_ok.mp hok
  cases body with
  | none => cases hok
  | some body =>
    obtain ⟨c₃', hbody', h₃⟩ := macroBody_eq_some h₂ h₂.lt_remaining h₂.lt_remaining' 0 body c₃ hbody
    obtain ⟨c₅', hok', h₅⟩ :=
      Echoes.bind echoes_expectEnd (fun _ => .pure (⟨params, body⟩ : MacroDef)) h₃ hok
    exact ⟨c₅', bind_eq_ok.mpr ⟨_, _, rfl, bind_eq_ok.mpr ⟨some body, c₃', hbody', hok'⟩⟩, h₅⟩

end Parser

end CellMachine
