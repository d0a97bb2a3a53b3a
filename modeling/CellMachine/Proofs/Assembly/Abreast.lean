import CellMachine.Proofs.Assembly.Border
import CellMachine.Proofs.Assembly.Pairing
import CellMachine.Proofs.Assembly.Program

/-!
# Statements in two lists of tokens

Two assemblers that have made the same, of which one is in a list that ends and the other in a list
that goes on behind the same tokens, do the same with a statement among those, if it succeeds for
the first (`Asm.echoes_statementBody`). What a statement does besides taking tokens depends on what
it has taken and not on the cursor (`Asm.pairs_abreast`). A use of a macro assembles tokens of its
own, for which there has to be room : the second assembler may have fewer uses open, but not more.
-/

namespace CellMachine

/-- A passage, how many uses of macros are open in two assemblers there, and how many statements the
second has counted. -/
structure Course extends Passage where
  depth : Nat
  depth' : Nat
  count : Nat
  shallower : depth' ≤ depth

namespace Course

/-- The second assembler, with its cursor at `c'`. -/
def twin (w : Course) (s : Assembler) (c' : Cursor) : Assembler :=
  { s with cursor := c', depth := w.depth', statements := w.count }

/-- Both assemblers in the tokens that a use of a macro stands for. -/
def within (w : Course) (body : Array Token) (stop : Position) : Course where
  shared := body
  ending := #[.endOfCode stop]
  front := #[]
  behind := #[.endOfCode stop]
  ending_pos := Nat.one_pos
  ends t ht := by
    rw [Array.mem_singleton.mp ht]
    exact ⟨rfl, show "" ≠ "end" by decide⟩
  ends' := ⟨_, rfl, rfl⟩
  depth := w.depth + 1
  depth' := w.depth' + 1
  count := w.count
  shallower := Nat.succ_le_succ w.shallower

end Course

/-- Two assemblers that have made the same, with their cursors abreast. -/
def Assembler.Abreast (w : Course) (s s' : Assembler) : Prop :=
  ∃ c', s.cursor.Abreast w.toPassage c' ∧ s.depth = w.depth ∧ s' = w.twin s c'

namespace Asm

open CellMachine.Parser
open Assembler (Abreast)

variable {w : Course} {s s' : Assembler} {α : Type}

/-! ## Single actions -/

variable {x y : Asm Unit} {c' : Cursor} {body : Array Token} {stop : Position}

theorem echoed_ofParser {p q : Parser α} (hdepth : s.depth = w.depth)
    (h : Echoed (Cursor.Abreast w.toPassage) (p s.cursor) (q c')) :
    Echoed (Abreast w) ((liftM p : Asm α) s) ((liftM q : Asm α) (w.twin s c')) := by
  intro a s₁ hp
  obtain ⟨c₁, hc₁, rfl⟩ := ofParser_eq_ok.mp hp
  obtain ⟨c₁', hq, h₁⟩ := h hc₁
  exact ⟨_, ofParser_eq_ok.mpr ⟨c₁', hq, rfl⟩, c₁', h₁, hdepth, rfl⟩

theorem echoes_ofParser {p q : Parser α} (h : Echoes (Cursor.Abreast w.toPassage) p q) :
    Echoes (Abreast w) (liftM p : Asm α) (liftM q : Asm α) := by
  rintro s _ ⟨c', hc, hdepth, rfl⟩
  exact echoed_ofParser hdepth (h hc)

/-- An update that does not touch the place of the assembler. -/
theorem echoes_modify {f : Assembler → Assembler}
    (hf : ∀ (s : Assembler) c d k, f { s with cursor := c, depth := d, statements := k } =
      { f s with cursor := c, depth := d, statements := k }) :
    Echoes (Abreast w) (modify f : Asm Unit) (modify f : Asm Unit) := by
  rintro s _ ⟨c', h, hdepth, rfl⟩
  have hplace := hf s s.cursor s.depth s.statements
  have hcursor : (f s).cursor = s.cursor := congrArg (·.cursor) hplace
  have hdepth' : (f s).depth = s.depth := congrArg (·.depth) hplace
  exact .ok () ⟨c', by rwa [hcursor], hdepth'.trans hdepth, hf s c' w.depth' w.count⟩

theorem echoes_remaining_bind {f g : Nat → Asm α}
    (h : ∀ s c', s.cursor.Abreast w.toPassage c' → s.depth = w.depth →
      Echoed (Abreast w) (f s.cursor.remaining s) (g c'.remaining (w.twin s c'))) :
    Echoes (Abreast w) ((liftM remaining : Asm Nat) >>= f)
      ((liftM remaining : Asm Nat) >>= g) := by
  rintro s _ ⟨c', hc, hdepth, rfl⟩
  exact h s c' hc hdepth

theorem echoed_current_bind {f g : Token → Asm α} (h : s.cursor.Abreast w.toPassage c')
    (hends : s.cursor.current.endsStatement = true →
      ∀ r : EStateM.Result AssemblyError Assembler α, Echoed (Abreast w) (f s.cursor.current s) r)
    (hf : s.cursor.current.endsStatement = false →
      Echoed (Abreast w) (f s.cursor.current s) (g s.cursor.current (w.twin s c')))
    :
    Echoed (Abreast w) (((liftM current : Asm Token) >>= f) s)
      (((liftM current : Asm Token) >>= g) (w.twin s c')) := by
  rw [current_bind, current_bind]
  change Echoed _ _ (g c'.current (w.twin s c'))
  cases hcurrent : s.cursor.current.endsStatement with
  | true => exact hends hcurrent _
  | false =>
    rw [h.current_eq hcurrent]
    exact hf hcurrent

theorem echoed_next_bind {x y : Asm α} (h : s.cursor.Abreast w.toPassage c')
    (hdepth : s.depth = w.depth) (hcurrent : s.cursor.current.endsStatement = false)
    (hx : Echoes (Abreast w) x y) :
    Echoed (Abreast w) ((do next; x : Asm α) s) ((do next; y : Asm α) (w.twin s c')) :=
  hx ⟨c'.next, h.next (h.lt_of_current hcurrent), hdepth, rfl⟩

theorem echoes_define (name : String) (kind : SymbolKind) (value : Value) :
    Echoes (Abreast w) (define name kind value) (define name kind value) := by
  rintro s _ ⟨c', h, hdepth, rfl⟩
  change Echoed _
    ((if s.index.contains (qualify s.path name) = true then _ else _ : Asm Unit) s)
    ((if s.index.contains (qualify s.path name) = true then _ else _ : Asm Unit) (w.twin s c'))
  by_cases hdefined : s.index.contains (qualify s.path name) = true
  · rw [if_pos hdefined]
    exact .error _ _ _
  · rw [if_neg hdefined, if_neg hdefined]
    exact .ok _ ⟨c', h, hdepth, rfl⟩

theorem echoes_storeText (text : String) :
    Echoes (Abreast w) (storeText text) (storeText text) := by
  rintro s _ ⟨c', h, hdepth, rfl⟩
  exact .ok _ ⟨c', h, hdepth, rfl⟩

theorem echoes_closeScope : Echoes (Abreast w) closeScope closeScope := by
  refine .get_bind ?_
  rintro s _ ⟨c', h, hdepth, rfl⟩
  have hscopes : (w.twin s c').scopes = s.scopes := rfl
  rw [hscopes]
  cases s.scopes with
  | nil => exact .error _ _ _
  | cons scope rest => exact .ok _ ⟨c', h, hdepth, rfl⟩

theorem echoes_reserveBytes (size : Nat) :
    Echoes (Abreast w) (reserveBytes size) (reserveBytes size) := by
  refine .get_bind ?_
  rintro s _ ⟨c', h, hdepth, rfl⟩
  have hscopes : (w.twin s c').scopes = s.scopes := rfl
  rw [hscopes]
  cases reserveLocal size s.scopes with
  | none => exact .error _ _ _
  | some reserved => exact .ok _ ⟨c', h, hdepth, rfl⟩

/-! ## Directives and instructions -/

/-- The parsers of directives and instructions, of which those that fail are not followed. -/
theorem echoes_part {p : Parser α} (hp : p.Part) :
    Echoes (Abreast w) (liftM p : Asm α) (liftM p : Asm α) := by
  refine echoes_ofParser ?_
  cases hp with
  | failAt t kind => exact .throw _ _
  | failHere kind => exact fun _ _ _ => .error _ _ _
  | expectName => exact echoes_expectName
  | expectColon => exact echoes_expectColon
  | directiveName => exact echoes_expect (by decide) _
  | macroName => exact echoes_expect (by decide) _
  | colon => exact echoes_take? (by decide)
  | operand => exact echoes_operand
  | literalValue o dt => exact echoes_literalValue o dt
  | instructionDatatype op t => exact echoes_instructionDatatype op t
  | argumentDatatype => exact echoes_argumentDatatype
  | optionalDatatype => exact echoes_optionalDatatype
  | aliasAs o dt v => exact echoes_aliasAs o dt v
  | aliasOf o dt name found => exact echoes_aliasOf o dt name found
  | initializer => exact echoes_initializer
  | dottedName => exact echoes_dottedName
  | permissionName => exact echoes_permissionName
  | scopeName => exact echoes_scopeName
  | declaration => exact echoes_declaration
  | parameterList => exact echoes_parameterList
  | macroDef t => exact echoes_macroDef t

/-- What a directive or an instruction does besides taking tokens does not depend on the cursor. -/
theorem pairs_abreast (w : Course) :
    Pairs (Abreast w) (fun {α} (x y : Asm α) => Echoes (Abreast w) x y) where
  toRelator := Echoes.relator _
  part := echoes_part
  codeSize := by rintro s _ ⟨c', -, -, rfl⟩; rfl
  staticSize := by rintro s _ ⟨c', -, -, rfl⟩; rfl
  lookup := by rintro s _ ⟨c', -, -, rfl⟩ name; rfl
  findMacro? := by rintro s _ ⟨c', -, -, rfl⟩ name; rfl
  define := echoes_define
  storeText := echoes_storeText
  reserveStatic _ := echoes_modify fun _ _ _ _ => rfl
  require _ := echoes_modify fun _ _ _ _ => rfl
  permissions _ := echoes_modify fun _ _ _ _ => rfl
  pushScope _ _ := echoes_modify fun _ _ _ _ => rfl
  closeScope := echoes_closeScope
  reserveBytes := echoes_reserveBytes
  addMacro _ _ := echoes_modify fun _ _ _ _ => rfl
  emit _ := echoes_modify fun _ _ _ _ => rfl
  refer _ _ _ _ := echoes_modify fun _ _ _ _ => rfl
  relocate _ := echoes_modify fun _ _ _ _ => rfl
  overwriteCode _ _ := echoes_modify fun _ _ _ _ => rfl

theorem echoed_instruction (op : Opcode) (h : s.cursor.Abreast w.toPassage c')
    (hdepth : s.depth = w.depth) (hcurrent : s.cursor.current.endsStatement = false) :
    Echoed (Abreast w) (instruction op s) (instruction op (w.twin s c')) := by
  refine echoed_current_bind h (fun hends => absurd hends (by simp [hcurrent])) fun _ =>
    echoed_next_bind h hdepth hcurrent ((pairs_abreast w).instructionBehind op _)

/-! ## Uses of macros -/

theorem echoed_macroUse (h : s.cursor.Abreast w.toPassage c') (hdepth : s.depth = w.depth)
    (hcurrent : s.cursor.current.endsStatement = false) :
    Echoed (Abreast w) (macroUse s) (macroUse (w.twin s c')) := by
  refine echoed_current_bind h (fun hends => absurd hends (by simp [hcurrent])) fun _ => ?_
  have hfind (name : String) : (w.twin s c').findMacro? name = s.findMacro? name := rfl
  rw [get_bind_apply, get_bind_apply, hfind]
  cases s.findMacro? s.cursor.current.text with
  | none => exact .error _ _ _
  | some d =>
    refine echoed_next_bind h hdepth hcurrent (echoes_remaining_bind fun s c' h hdepth => ?_)
    refine (echoed_ofParser hdepth
      (echoed_macroArguments h h.lt_remaining h.lt_remaining')).bind ?_
    intro args s₁ s₁' _ h₁
    refine Echoes.ite (echoes_part (.failAt _ _)) (.get_bind ?_) h₁
    rintro s _ ⟨c', h, hdepth, rfl⟩
    change Echoed _ ((if maxDepth ≤ s.depth then _ else _ : Asm (Array Token)) s)
      ((if maxDepth ≤ w.depth' then _ else _ : Asm (Array Token)) (w.twin s c'))
    by_cases hroom : maxDepth ≤ s.depth
    · rw [if_pos hroom]
      exact .error _ _ _
    · have hshallower := w.shallower
      rw [if_neg hroom, if_neg (by omega)]
      exact .ok _ ⟨c', h, hdepth, rfl⟩

/-- In the tokens that a use of a macro stands for, both assemblers are at the same place. -/
theorem abreast_within {c : Cursor} (htokens : c.tokens = body.push (.endOfCode stop))
    (hinside : c.pos ≤ body.size) : c.Abreast (w.within body stop).toPassage c where
  tokens := by rw [htokens]; rfl
  tokens' := by rw [htokens]; simp [Passage.second, Course.within]
  pos := (Nat.zero_add _).symm
  inside := hinside

theorem eq_of_abreast_within {c : Cursor} (h : c.Abreast (w.within body stop).toPassage c') :
    c' = c := by
  have htokens : c'.tokens = c.tokens := by
    rw [h.tokens, h.tokens']
    simp [Passage.first, Passage.second, Course.within]
  have hpos : c'.pos = c.pos := by
    rw [h.pos]
    exact Nat.zero_add _
  cases c
  cases c'
  simp_all

/-- Empty lines do not lead out of the tokens that a use of a macro stands for. -/
theorem abreast_within_onLine (h : Abreast (w.within body stop) s s') :
    Abreast (w.within body stop) s.onLine s'.onLine := by
  obtain ⟨c', hc, hdepth, rfl⟩ := h
  obtain rfl := eq_of_abreast_within hc
  refine ⟨s.cursor.skipNewlines, ?_, hdepth, rfl⟩
  rcases hc.line with ⟨hline, -⟩ | ⟨hline, -⟩
  · exact hline
  · have hstop : (⟨(w.within body stop).first, body.size⟩ : Cursor).current.kind ≠ .newline := by
      simp [Cursor.current, Cursor.tokenAt, Passage.first, Course.within, Token.endOfCode]
    change _ = (⟨(w.within body stop).first, body.size⟩ : Cursor).skipNewlines at hline
    rw [Cursor.skipNewlines_of_ne hstop] at hline
    change s.cursor.skipNewlines.Abreast _ _
    rw [hline]
    exact abreast_within rfl (Nat.le_refl _)

/-- What a statement takes up to its end is in common. -/
theorem echoed_statement {s₁ : Assembler}
    (hbody : Echoes (Abreast w) (statementBody x) (statementBody y)) (h : Abreast w s s')
    (hok : statement x s = .ok () s₁) :
    ∃ s₂ s₂', Abreast w s₂ s₂' ∧ s₁ = s₂.onLine ∧ statement y s' = .ok () s₂'.onLine := by
  obtain ⟨_, t, ht, hok⟩ := bind_eq_ok.mp hok
  obtain ⟨_, u, hu, hok⟩ := bind_eq_ok.mp hok
  obtain ⟨t', ht', habreast⟩ := hbody h ht
  obtain ⟨u', hu', habreast⟩ := echoes_ofParser echoes_expectEnd habreast hu
  cases hok
  exact ⟨u, u', habreast, rfl,
    bind_eq_ok.mpr ⟨(), t', ht', bind_eq_ok.mpr ⟨(), u', hu', rfl⟩⟩⟩

/-- Statements that a macro stands for are not counted. -/
theorem counted_of_depth {n : Nat} (h : s.depth = n + 1) : s.counted = s := by
  unfold Assembler.counted
  rw [if_neg (by omega)]

theorem echoes_statements_within
    (hbody : Echoes (Abreast (w.within body stop)) (statementBody x) (statementBody y)) (k : Nat) :
    Echoes (Abreast (w.within body stop)) (statements x k) (statements y k) := by
  induction k with
  | zero => exact .pure _
  | succ k ih =>
    intro s s' h _ u hok
    have hline := abreast_within_onLine h
    have hend : s'.onLine.cursor.atEnd = s.onLine.cursor.atEnd := by
      obtain ⟨c', hc, -, hs'⟩ := hline
      rw [hs', ← eq_of_abreast_within hc]
      rfl
    rw [statements_succ] at hok ⊢
    rw [hend]
    split at hok
    · next hatEnd =>
      cases hok
      rw [if_pos hatEnd]
      exact ⟨_, rfl, hline⟩
    · next hatEnd =>
      rw [if_neg hatEnd]
      cases hattempt : attempt (statement x) s.onLine with
      | error e s₁ =>
        rw [hattempt] at hok
        cases hok
      | ok _ s₁ =>
        rw [hattempt] at hok
        obtain ⟨s₂, s₂', h₂, rfl, hok'⟩ :=
          echoed_statement hbody hline (attempt_eq_ok.mp hattempt)
        have hnext := abreast_within_onLine h₂
        have hrest : statements x k s₂.onLine.counted = .ok () u := hok
        rw [attempt_eq_ok.mpr hok']
        change ∃ t, statements y k s₂'.onLine.counted = .ok () t ∧ _
        obtain ⟨c', -, hdepth, hs₂'⟩ := id hnext
        rw [counted_of_depth hdepth] at hrest
        rw [counted_of_depth (n := w.depth') (by rw [hs₂']; rfl)]
        exact ih hnext hrest

theorem echoed_nested (hxy : Echoes (Abreast (w.within body stop)) x y) (h : Abreast w s s') :
    Echoed (Abreast w) (nested (body.push (.endOfCode stop)) x s)
      (nested (body.push (.endOfCode stop)) y s') := by
  obtain ⟨c', hc, hdepth, rfl⟩ := h
  intro _ s₁ hok
  unfold nested at hok
  cases hx : x { s with cursor := ⟨body.push (.endOfCode stop), 0⟩, depth := s.depth + 1 } with
  | error e s₂ =>
    rw [hx] at hok
    cases hok
  | ok _ s₂ =>
    rw [hx] at hok
    cases hok
    have hinner : Abreast (w.within body stop)
        { s with cursor := ⟨body.push (.endOfCode stop), 0⟩, depth := s.depth + 1 }
        { w.twin s c' with
          cursor := ⟨body.push (.endOfCode stop), 0⟩, depth := (w.twin s c').depth + 1 } :=
      ⟨_, abreast_within rfl (Nat.zero_le _), congrArg (· + 1) hdepth, rfl⟩
    obtain ⟨_, hy, c₂', -, hdepth₂, rfl⟩ := hxy hinner hx
    refine ⟨w.twin { s₂ with cursor := s.cursor, depth := s₂.depth - 1 } c', ?_, c', hc, ?_, rfl⟩
    · unfold nested
      rw [hy]
      rfl
    · change s₂.depth - 1 = w.depth
      rw [hdepth₂]
      rfl

/-! ## Statements -/

/-- Statements do the same if uses of macros do. -/
theorem echoes_statementBody_of
    (hxy : ∀ s c', s.cursor.Abreast w.toPassage c' → s.depth = w.depth →
      s.cursor.current.endsStatement = false → Echoed (Abreast w) (x s) (y (w.twin s c')))
    : Echoes (Abreast w) (statementBody x) (statementBody y) := by
  rintro s _ ⟨c', h, hdepth, rfl⟩
  refine echoed_current_bind h (fun hends _ => ?_) fun hcurrent => ?_
  · rcases Token.kind_of_endsStatement hends with hkind | hkind
    · rw [hkind]
      exact .error _ _ _
    · rw [hkind]
      exact .error _ _ _
  · cases hkind : s.cursor.current.kind with
    | directive => exact echoed_next_bind h hdepth hcurrent (pairs_abreast w).directive
    | name =>
      cases Opcode.ofName? s.cursor.current.text with
      | some op => exact echoed_instruction op h hdepth hcurrent
      | none =>
        change Echoed _
          ((if (s.findMacro? s.cursor.current.text).isSome then _ else _ : Asm Unit) s)
          ((if (s.findMacro? s.cursor.current.text).isSome then _ else _ : Asm Unit) (w.twin s c'))
        by_cases hfind : (s.findMacro? s.cursor.current.text).isSome = true
        · rw [if_pos hfind, if_pos hfind]
          exact hxy s c' h hdepth hcurrent
        · rw [if_neg hfind]
          exact .error _ _ _
    | _ => exact .error _ _ _

/-- A statement that succeeds in the first list succeeds in the second. The induction is on the
number of uses of macros that can be nested in the first. -/
theorem echoes_statementBody {n n' : Nat} (w : Course) (hn : w.depth + n = maxDepth)
    (hn' : w.depth' + n' = maxDepth) :
    Echoes (Abreast w) (statementBody (expansion n)) (statementBody (expansion n')) := by
  induction n generalizing w n' with
  | zero =>
    refine echoes_statementBody_of fun s c' h hdepth _ _ s₁ hok => ?_
    obtain ⟨tokens, s₂, huse, -⟩ := bind_eq_ok.mp hok
    obtain ⟨_, _, _, -, -, -, hroom, -⟩ := macroUse_spec huse
    omega
  | succ n ih =>
    obtain ⟨m, rfl⟩ : ∃ m, n' = m + 1 :=
      Nat.exists_eq_succ_of_ne_zero (by have := w.shallower; omega)
    refine echoes_statementBody_of fun s c' h hdepth hcurrent => ?_
    refine (echoed_macroUse h hdepth hcurrent).bind fun tokens s₁ s₁' huse h₁ => ?_
    obtain ⟨d, args, c, -, -, -, -, -, rfl⟩ := macroUse_spec huse
    have hdeeper : (w.within (d.expand args).toArray s.cursor.current.position).depth + n =
        maxDepth := by
      change w.depth + 1 + n = maxDepth
      omega
    have hdeeper' : (w.within (d.expand args).toArray s.cursor.current.position).depth' + m =
        maxDepth := by
      change w.depth' + 1 + m = maxDepth
      omega
    exact echoed_nested (echoes_statements_within (ih _ hdeeper hdeeper') _) h₁

end Asm

end CellMachine
