import CellMachine.Proofs.Assembly.Feed
import CellMachine.Proofs.Assembly.Pairing

/-!
# The name of a module

The assembler hands on the name of its module and never looks at it : every action does the same to
an assembler of another name (`Asm.Nameless`), since the single ones do (`Asm.pairs_renamed`). So
the same tokens give, under any name, the same object but for its name, or the same error
(`assemble_renamed`).
-/

namespace CellMachine

/-- The object under another name. -/
def Object.renamed (o : Object) (name : String) : Object := { o with name := name }

/-- The assembler of a module with another name. -/
def Assembler.renamed (s : Assembler) (name : String) : Assembler :=
  { s with object := s.object.renamed name }

namespace Asm

open CellMachine.Parser

/-- Does the same whatever the name of the module. -/
def Nameless {α : Type} (x : Asm α) : Prop :=
  ∀ name, Simulates id (fun s t : Assembler => t = s.renamed name) x x

variable {α β : Type}

namespace Nameless

theorem pure (a : α) : Nameless (Pure.pure a : Asm α) := fun _ => .pure a

theorem bind {x : Asm α} {f : α → Asm β} (hx : Nameless x) (hf : ∀ a, Nameless (f a)) :
    Nameless (x >>= f) := fun name => (hx name).bind fun a => hf a name

theorem ite {p : Prop} [Decidable p] {x y : Asm α} (hx : Nameless x) (hy : Nameless y) :
    Nameless (if p then x else y) := by
  split
  · exact hx
  · exact hy

theorem ofParser (p : Parser α) : Nameless (liftM p : Asm α) := by
  rintro name s _ rfl
  change Matches _ _ (Asm.ofParser p s) (Asm.ofParser p (s.renamed name))
  have hcursor : (s.renamed name).cursor = s.cursor := rfl
  unfold Asm.ofParser
  rw [hcursor]
  cases p s.cursor with
  | ok a c => exact .ok a rfl
  | error e c => exact .error e rfl

theorem modify {f : Assembler → Assembler}
    (hf : ∀ s name, f (s.renamed name) = (f s).renamed name) :
    Nameless (modify f : Asm Unit) := by
  rintro name s _ rfl
  exact .ok () (hf s name)

/-- What reads of the state all but the name. -/
theorem get_bind {f : Assembler → Asm α} (hf : ∀ s name, f (s.renamed name) = f s)
    (h : ∀ s, Nameless (f s)) : Nameless (get >>= f) := by
  rintro name s _ rfl
  change Matches _ _ (f s s) (f (s.renamed name) (s.renamed name))
  rw [hf]
  exact h s name rfl

end Nameless

/-! ## Directives and instructions -/

theorem nameless_define (name : String) (kind : SymbolKind) (value : Value) :
    Nameless (define name kind value) := by
  rintro module s _ rfl
  change Matches _ _ ((if s.index.contains (qualify s.path name) then _ else _ : Asm Unit) s)
    ((if s.index.contains (qualify s.path name) then _ else _ : Asm Unit) (s.renamed module))
  by_cases h : s.index.contains (qualify s.path name) = true
  · rw [if_pos h, if_pos h]
    exact .error _ rfl
  · rw [if_neg h, if_neg h]
    exact .ok () rfl

theorem nameless_storeText (text : String) : Nameless (storeText text) := by
  rintro name s _ rfl
  exact .ok _ rfl

theorem nameless_require (required : String) :
    Nameless (modify fun s => { s with object := s.object.require required } : Asm Unit) := by
  refine .modify fun s name => ?_
  unfold Object.require
  have hrequired : (s.renamed name).object.required = s.object.required := rfl
  rw [hrequired]
  split
  · rfl
  · rfl

theorem nameless_closeScope : Nameless closeScope := by
  rintro name s _ rfl
  have hscopes : (s.renamed name).scopes = s.scopes := rfl
  unfold closeScope
  rw [get_bind_apply, get_bind_apply, hscopes]
  cases s.scopes with
  | nil => exact .error _ rfl
  | cons scope rest => exact .ok () rfl

theorem nameless_reserveBytes (size : Nat) : Nameless (reserveBytes size) := by
  rintro name s _ rfl
  have hscopes : (s.renamed name).scopes = s.scopes := rfl
  unfold reserveBytes
  rw [get_bind_apply, get_bind_apply, hscopes]
  cases reserveLocal size s.scopes with
  | none => exact .error _ rfl
  | some reserved => exact .ok _ rfl

/-- No action that directives and instructions are made of looks at the name of the module. -/
theorem pairs_renamed (name : String) :
    Pairs (fun s t => t = s.renamed name) (Simulates id fun s t => t = s.renamed name) where
  toRelator := Simulates.relator id _
  part {_ p} _ := Nameless.ofParser p name
  codeSize := by rintro s _ rfl; rfl
  staticSize := by rintro s _ rfl; rfl
  lookup := by rintro s _ rfl _; rfl
  findMacro? := by rintro s _ rfl _; rfl
  define x kind value := nameless_define x kind value name
  storeText text := nameless_storeText text name
  reserveStatic _ := Nameless.modify (fun _ _ => rfl) name
  require required := nameless_require required name
  permissions _ := Nameless.modify (fun _ _ => rfl) name
  pushScope _ _ := Nameless.modify (fun _ _ => rfl) name
  closeScope := nameless_closeScope name
  reserveBytes size := nameless_reserveBytes size name
  addMacro _ _ := Nameless.modify (fun _ _ => rfl) name
  emit _ := Nameless.modify (fun _ _ => rfl) name
  refer _ _ _ _ := Nameless.modify (fun _ _ => rfl) name
  relocate _ := Nameless.modify (fun _ _ => rfl) name
  overwriteCode _ _ := Nameless.modify (fun _ _ => rfl) name

theorem nameless_directive : Nameless directive := fun name => (pairs_renamed name).directive

theorem nameless_instruction (op : Opcode) : Nameless (instruction op) :=
  .bind (.ofParser _) fun t => .bind (.ofParser _) fun _ => fun name =>
    (pairs_renamed name).instructionBehind op t

/-! ## Statements -/

theorem nameless_macroUse : Nameless macroUse := by
  refine .bind (.ofParser _) fun call => .get_bind (fun _ _ => rfl) fun s => ?_
  split
  · exact .ofParser _
  · refine .bind (.ofParser _) fun _ => .bind (.ofParser _) fun _ => .bind (.ofParser _) fun _ =>
      .ite (.ofParser _) ?_
    exact .get_bind (fun _ _ => rfl) fun _ => .ite (.ofParser _) (.pure _)

theorem nameless_statement {expand : Asm Unit} (hexpand : Nameless expand) :
    Nameless (statement expand) := by
  refine .bind (.bind (.ofParser _) fun t => ?_) fun _ => .bind (.ofParser _) fun _ => .ofParser _
  split
  · exact .bind (.ofParser _) fun _ => nameless_directive
  · split
    · exact nameless_instruction _
    · exact .get_bind (fun _ _ => rfl) fun _ => .ite hexpand (.ofParser _)
  · exact .ofParser _

theorem nameless_attempt {x : Asm Unit} (hx : Nameless x) : Nameless (attempt x) := by
  rintro name s _ rfl
  unfold attempt
  obtain ⟨_, s₁, _, hs, ht, rfl⟩ | ⟨e, s₁, _, hs, ht, rfl⟩ := (hx name rfl).eq_ok_or_eq_error
  · rw [hs, ht]
    exact .ok () rfl
  · rw [hs, ht]
    exact .error e rfl

theorem nameless_countStatement : Nameless countStatement := by
  refine .modify fun s name => ?_
  have hdepth : (s.renamed name).depth = s.depth := rfl
  rw [hdepth]
  split
  · rfl
  · rfl

theorem nameless_statements {expand : Asm Unit} (hexpand : Nameless expand) (n : Nat) :
    Nameless (statements expand n) := by
  induction n with
  | zero => exact .pure _
  | succ n ih =>
    exact .bind (.ofParser _) fun _ => .get_bind (fun _ _ => rfl) fun _ => .ite (.pure _) <|
      .bind (nameless_attempt (nameless_statement hexpand)) fun _ =>
        .bind nameless_countStatement fun _ => ih

theorem nameless_nested (tokens : Array Token) {x : Asm Unit} (hx : Nameless x) :
    Nameless (nested tokens x) := by
  rintro name s _ rfl
  have hinner : { s.renamed name with cursor := ⟨tokens, 0⟩, depth := (s.renamed name).depth + 1 } =
      Assembler.renamed { s with cursor := ⟨tokens, 0⟩, depth := s.depth + 1 } name := rfl
  unfold nested
  obtain ⟨_, s₁, _, hs, ht, rfl⟩ | ⟨e, s₁, _, hs, ht, rfl⟩ := (hx name hinner).eq_ok_or_eq_error
  · rw [hs, ht]
    exact .ok () rfl
  · rw [hs, ht]
    exact .error e rfl

theorem nameless_expansion (n : Nat) : Nameless (expansion n) := by
  induction n with
  | zero => exact .bind nameless_macroUse fun _ => .pure _
  | succ n ih =>
    exact .bind nameless_macroUse fun tokens => nameless_nested tokens (nameless_statements ih _)

end Asm

/-! ## Modules -/

namespace Assembler

theorem feed_renamed (s : Assembler) (name : String) (tokens : Array Token) :
    (s.renamed name).feed tokens = ((s.feed tokens).1, (s.feed tokens).2.renamed name) := by
  have hfed : (s.renamed name).fedWith tokens = (s.fedWith tokens).renamed name := rfl
  have hsame := Asm.nameless_statements (Asm.nameless_expansion maxDepth)
    ((s.fedWith tokens).cursor.remaining + 1) name hfed
  have hremaining : ((s.renamed name).fedWith tokens).cursor.remaining =
      (s.fedWith tokens).cursor.remaining := rfl
  rw [feed_eq, feed_eq, hremaining]
  obtain ⟨_, s₁, _, hs, ht, rfl⟩ | ⟨e, s₁, _, hs, ht, rfl⟩ := hsame.eq_ok_or_eq_error
  · rw [hs, ht]
  · rw [hs, ht]
    rfl

theorem bindReferences_renamed (s : Assembler) (name : String)
    (pending : List (Reference × Position)) (o : Object) :
    (s.renamed name).bindReferences (o.renamed name) pending =
      (s.bindReferences o pending).map (·.renamed name) := by
  induction pending generalizing o with
  | nil => rfl
  | cons p rest ih =>
    obtain ⟨r, position⟩ := p
    have hlookup : (s.renamed name).lookup r.scope r.name = s.lookup r.scope r.name := rfl
    unfold bindReferences
    rw [hlookup]
    cases s.lookup r.scope r.name with
    | none => exact ih { o with unresolved := o.unresolved ++ [{ r with scope := [] }] }
    | some x =>
      dsimp only
      cases x.value.fit? r.datatype with
      | none => rfl
      | some v =>
        have hcode : (o.renamed name).code = o.code := rfl
        dsimp only
        rw [hcode]
        cases patchCell? o.code r.offset v.toCell r.datatype with
        | none => rfl
        | some code =>
          exact ih { o with
            code := code
            relocations := if x.value.isPaged && r.datatype.size == 8 then
              o.relocations ++ [r.offset] else o.relocations }

theorem finish_renamed (s : Assembler) (name : String) :
    (s.renamed name).finish = s.finish.map (·.renamed name) := by
  have hscopes : (s.renamed name).scopes = s.scopes := rfl
  unfold finish
  rw [hscopes]
  cases s.scopes with
  | cons scope rest => rfl
  | nil =>
    exact bindReferences_renamed s name (s.object.unresolved.zip s.positions)
      { s.object with unresolved := [] }

end Assembler

/-- The name of a module is part of its object, and of nothing else. -/
theorem assemble_renamed (tokens : Array Token) (name name' : String) :
    assemble tokens name' = (assemble tokens name).map (·.renamed name') := by
  have hempty : Assembler.empty name' = (Assembler.empty name).renamed name' := rfl
  unfold assemble
  rw [hempty, Assembler.feed_renamed]
  cases (Assembler.empty name).feed tokens with
  | mk r s =>
    cases r with
    | error e => rfl
    | ok _ => exact Assembler.finish_renamed s name'

end CellMachine
