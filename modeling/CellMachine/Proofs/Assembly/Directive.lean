import CellMachine.Proofs.Assembly.Parsing

/-!
# What directives do

Directives move the cursor, define names, add texts to the static data, ask for modules and
permissions (`Asm.AdmitsNames`), and some change the open scopes (`Asm.Admits`). A relation that
allows each of these holds between the states in front of and behind every directive, but for the
bytes that `#static` reserves, the macro that `#macro` adds and the instructions that `#func` and
`#local` write at their end.
-/

set_option linter.unusedSectionVars false

namespace CellMachine

namespace Assembler

/-- The assembler with its cursor at another place. -/
def movedTo (s : Assembler) (c : Cursor) : Assembler := { s with cursor := c }

/-- The assembler with one more symbol. -/
def withSymbol (s : Assembler) (x : Symbol) : Assembler :=
  { s with
    index := s.index.insert x.name s.object.symbols.length
    object := { s.object with symbols := s.object.symbols ++ [x] } }

/-- The assembler with other static data. -/
def withStatic (s : Assembler) (bytes : Buffer) : Assembler :=
  { s with object := { s.object with static := bytes } }

end Assembler

/-- Whether symbols of this kind name places in the code. -/
def SymbolKind.isPlace : SymbolKind → Bool
  | .label => true
  | .function => true
  | _ => false

namespace Asm

/-- A relation that allows tokens to be taken and data to be stored. -/
structure AdmitsData (R : Assembler → Assembler → Prop) : Prop where
  movedTo : ∀ s c, s.cursor.Forward c → R s (s.movedTo c)
  appendStatic : ∀ s bytes, R s (s.appendStatic bytes)

/-- A relation that allows names to be defined and modules and permissions to be asked for. The
places that are named are the end of the code. -/
structure AdmitsNames (R : Assembler → Assembler → Prop) : Prop extends AdmitsData R where
  withSymbol : ∀ s x, s.index.contains x.name = false →
    (x.kind.isPlace = true → x.value = .addr s.codeEnd) → R s (s.withSymbol x)
  require : ∀ s name, R s { s with object := s.object.require name }
  permissions : ∀ (s : Assembler) mandatory optional,
    R s { s with object := { s.object with mandatory := mandatory, optional := optional } }

/-- A relation that allows the open scopes to change as well. -/
structure Admits (R : Assembler → Assembler → Prop) : Prop extends AdmitsNames R where
  scopes : ∀ (s : Assembler) scopes, R s { s with scopes := scopes }

variable {R : Assembler → Assembler → Prop} [Std.Refl R] [Trans R R R]

/-! ## Single actions -/

/-- Where tokens may be taken, any parser may take them. -/
theorem relates_ofParser (hR : ∀ s c, s.cursor.Forward c → R s (s.movedTo c)) {α : Type}
    {p : Parser α} (hp : Relates Cursor.Forward p) : Relates R (liftM p : Asm α) := by
  intro s
  have hforward := hp s.cursor
  change R s (stateAfter (Asm.ofParser p s))
  unfold Asm.ofParser
  cases h : p s.cursor with
  | ok a c =>
    rw [h] at hforward
    exact hR s c hforward
  | error e c =>
    rw [h] at hforward
    exact hR s c hforward

theorem AdmitsData.ofParser (hR : AdmitsData R) {α : Type} {p : Parser α}
    (hp : Relates Cursor.Forward p) : Relates R (liftM p : Asm α) :=
  relates_ofParser hR.movedTo hp

theorem AdmitsData.fail (hR : AdmitsData R) {α : Type} (t : Token) (kind : AssemblyErrorKind) :
    Relates R (liftM (Parser.failAt t kind : Parser α) : Asm α) :=
  hR.ofParser (Parser.relates_failAt t kind)

theorem AdmitsNames.define (hR : AdmitsNames R) (name : String) {kind : SymbolKind} {value : Value}
    {s : Assembler} (hplace : kind.isPlace = true → value = .addr s.codeEnd) :
    R s (stateAfter (define name kind value s)) := by
  change R s (stateAfter ((if s.index.contains (qualify s.path name) then _ else _ : Asm Unit) s))
  by_cases h : s.index.contains (qualify s.path name)
  · rw [if_pos h]
    exact hR.ofParser (Parser.relates_failHere _) s
  · rw [if_neg h]
    exact hR.withSymbol s ⟨qualify s.path name, kind, value⟩ (by simpa using h) hplace

theorem relates_define (hR : AdmitsNames R) (name : String) {kind : SymbolKind} (value : Value)
    (hkind : kind.isPlace = false) : Relates R (define name kind value) := fun _ =>
  hR.define name fun hplace => absurd (hkind.symm.trans hplace) Bool.false_ne_true

theorem relates_storeText (hR : AdmitsData R) (text : String) : Relates R (storeText text) :=
  .get_bind fun s => hR.appendStatic s _

/-! ## Directives -/

theorem relates_label (hR : AdmitsNames R) : Relates R label :=
  .bind (hR.ofParser Parser.relates_expectName) fun name => .get_bind fun _ =>
    hR.define name fun _ => rfl

theorem relates_aliasValue (hR : AdmitsNames R) (o : SourceOperand) (dt : Option Datatype) :
    Relates R (aliasValue o dt) := by
  refine .ite (hR.fail _ _) ?_
  split
  · exact hR.ofParser (Parser.relates_literalValue _ _)
  · exact hR.ofParser (Parser.relates_literalValue _ _)
  · exact hR.ofParser (Parser.relates_aliasAs _ _ _)
  · exact .bind (relates_storeText hR.toAdmitsData _) fun _ =>
      hR.ofParser (Parser.relates_aliasAs _ _ _)
  · split
    · exact .pure _
    · exact .bind .get fun s => hR.ofParser (Parser.relates_aliasOf _ _ _ _)

theorem relates_aliasDirective (hR : AdmitsNames R) : Relates R aliasDirective :=
  .bind (hR.ofParser Parser.relates_expectName) fun _ =>
    .bind (hR.ofParser Parser.relates_optionalDatatype) fun _ =>
      .bind (hR.ofParser Parser.relates_expectColon) fun _ =>
        .bind (hR.ofParser Parser.relates_operand) fun _ =>
          .bind (relates_aliasValue hR _ _) fun _ => relates_define hR _ _ rfl

theorem relates_storeStatic (hR : AdmitsNames R) (hreserve : ∀ s n, R s (s.reserveStatic n)) :
    Relates R storeStatic := by
  refine .bind (hR.ofParser Parser.relates_initializer) fun x => ?_
  cases x with
  | inl n => exact .modify fun s => hreserve s n
  | inr text => exact .bind (relates_storeText hR.toAdmitsData text) fun _ => .pure _

theorem relates_staticData (hR : AdmitsNames R) (hreserve : ∀ s n, R s (s.reserveStatic n)) :
    Relates R staticData :=
  .bind (hR.ofParser Parser.relates_expectName) fun _ =>
    .bind (hR.ofParser Parser.relates_expectColon) fun _ => .bind .get fun _ =>
      .bind (relates_storeStatic hR hreserve) fun _ => relates_define hR _ _ rfl

theorem relates_request (hR : AdmitsNames R) : Relates R request :=
  .bind (hR.ofParser Parser.relates_dottedName) fun name => .modify fun s => hR.require s name

theorem relates_mandatoryPermission (hR : AdmitsNames R) : Relates R mandatoryPermission :=
  .bind (hR.ofParser Parser.relates_permissionName) fun _ => .modify fun s =>
    hR.permissions s _ s.object.optional

theorem relates_optionalPermission (hR : AdmitsNames R) : Relates R optionalPermission :=
  .bind (hR.ofParser Parser.relates_permissionName) fun _ => .modify fun s =>
    hR.permissions s s.object.mandatory _

theorem relates_pushScope (hR : Admits R) (name : String) (locals : Option Nat) :
    Relates R (pushScope name locals) :=
  .modify fun s => hR.scopes s _

theorem relates_openScope (hR : Admits R) : Relates R openScope :=
  .bind (hR.ofParser Parser.relates_scopeName) fun _ => relates_pushScope hR _ _

theorem relates_closeScope (hR : Admits R) : Relates R closeScope := by
  refine .get_bind fun s => ?_
  cases s.scopes with
  | nil => exact hR.ofParser (Parser.relates_failHere _) s
  | cons scope rest => exact hR.scopes s rest

theorem relates_defineParameters (hR : AdmitsNames R) (params : List (String × Datatype)) :
    Relates R (defineParameters params) := by
  induction params with
  | nil => exact .pure _
  | cons p rest ih => exact .bind (relates_define hR _ _ rfl) fun _ => ih

theorem relates_functionHead (hR : Admits R) : Relates R functionHead :=
  .bind (hR.ofParser Parser.relates_expectName) fun name => .get_bind fun _ =>
    Relates.bind_at (hR.define name fun _ => rfl) fun _ s₁ _ =>
      Relates.bind (hR.ofParser Parser.relates_parameterList) (fun _ =>
        .bind (relates_pushScope hR _ _) fun _ => relates_defineParameters hR.toAdmitsNames _) s₁

theorem relates_reserveBytes (hR : Admits R) (size : Nat) : Relates R (reserveBytes size) := by
  refine .get_bind fun s => ?_
  cases reserveLocal size s.scopes with
  | none => exact hR.ofParser (Parser.relates_failHere _) s
  | some reserved => exact hR.scopes s reserved.2

theorem relates_reserveSlot (hR : Admits R) : Relates R reserveSlot :=
  .bind (hR.ofParser Parser.relates_declaration) fun p =>
    .bind (relates_reserveBytes hR p.2.size) fun _ =>
      .bind (relates_define hR.toAdmitsNames _ _ rfl) fun _ => .pure _

theorem relates_defineMacro (hR : AdmitsNames R)
    (hmacros : ∀ (s : Assembler) macros, R s { s with macros := macros }) :
    Relates R defineMacro :=
  .bind (hR.ofParser (Parser.relates_expect _ _)) fun _ => .bind .get fun _ =>
    .ite (hR.fail _ _) <| .bind (hR.ofParser (Parser.relates_macroDef _)) fun _ =>
      .modify fun s => hmacros s _

section Named

variable {t : Token}

theorem directiveNamed_scope (h : t.text = "scope") : directiveNamed t = openScope := by
  cases t
  cases h
  rfl

theorem directiveNamed_end (h : t.text = "end") : directiveNamed t = closeScope := by
  cases t
  cases h
  rfl

theorem directiveNamed_func (h : t.text = "func") : directiveNamed t = function true := by
  cases t
  cases h
  rfl

theorem directiveNamed_funx (h : t.text = "funx") : directiveNamed t = function false := by
  cases t
  cases h
  rfl

theorem directiveNamed_local (h : t.text = "local") : directiveNamed t = localSlot := by
  cases t
  cases h
  rfl

theorem directiveNamed_defineMacro (h : t.text = "macro") : directiveNamed t = defineMacro := by
  cases t
  cases h
  rfl

end Named

/-- The directives that change the open scopes. -/
def scopeDirectives : List String := ["scope", "end", "func", "funx", "local"]

/-- Every directive that leaves the scopes. -/
theorem relates_namingDirective (hR : AdmitsNames R) {t : Token}
    (hstatic : t.text = "static" → Relates R staticData)
    (hdefine : t.text = "macro" → Relates R defineMacro) (hscopes : t.text ∉ scopeDirectives) :
    Relates R (directiveNamed t) := by
  unfold directiveNamed
  split
  · exact relates_label hR
  · exact relates_aliasDirective hR
  · next heq => exact hstatic heq
  · exact relates_request hR
  · exact relates_mandatoryPermission hR
  · exact relates_optionalPermission hR
  · next heq => exact absurd (by rw [heq]; decide) hscopes
  · next heq => exact absurd (by rw [heq]; decide) hscopes
  · next heq => exact absurd (by rw [heq]; decide) hscopes
  · next heq => exact absurd (by rw [heq]; decide) hscopes
  · next heq => exact absurd (by rw [heq]; decide) hscopes
  · next heq => exact hdefine heq
  · exact hR.fail _ _

/-- Every directive that writes no instruction. -/
theorem relates_directiveNamed (hR : Admits R) {t : Token}
    (hstatic : t.text = "static" → Relates R staticData)
    (hdefine : t.text = "macro" → Relates R defineMacro) (hfunc : t.text ≠ "func")
    (hlocal : t.text ≠ "local") : Relates R (directiveNamed t) := by
  by_cases hscope : t.text = "scope"
  · rw [directiveNamed_scope hscope]
    exact relates_openScope hR
  by_cases hend : t.text = "end"
  · rw [directiveNamed_end hend]
    exact relates_closeScope hR
  by_cases hfunx : t.text = "funx"
  · rw [directiveNamed_funx hfunx]
    exact .bind (relates_functionHead hR) fun _ => .pure _
  exact relates_namingDirective hR.toAdmitsNames hstatic hdefine
    (by simp [scopeDirectives, hscope, hend, hfunc, hfunx, hlocal])

theorem relates_macroUse (hR : ∀ s c, s.cursor.Forward c → R s (s.movedTo c)) :
    Relates R macroUse := by
  have hfail : ∀ t kind, Relates R (liftM (Parser.failAt t kind : Parser (Array Token)) : Asm _) :=
    fun t kind => relates_ofParser hR (Parser.relates_failAt t kind)
  refine .bind (relates_ofParser hR Parser.relates_current) fun call => .bind .get fun _ => ?_
  split
  · exact hfail _ _
  · refine .bind (relates_ofParser hR Parser.relates_next) fun _ =>
      .bind (relates_ofParser hR Parser.relates_remaining) fun _ =>
        .bind (relates_ofParser hR (Parser.relates_macroArguments _)) fun _ =>
          .ite (hfail _ _) ?_
    exact .bind .get fun _ => .ite (hfail _ _) (.pure _)

end Asm

end CellMachine
