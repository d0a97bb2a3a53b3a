import CellMachine.Proofs.Assembly.Emission

/-!
# The code of a program

The code that feeds have made is the encodings of what the source asks for, one behind the other,
and its references and relocations are those of the slots of names and texts
(`Assembler.Produced.emits`). A failing feed counts as far as its statements have succeeded.
Whatever else is said of a feed by what its statements ask for needs to be said of single
instructions and of directives only (`Asm.Follows.feed`), and what is said by the statements that
are carried out, of each of them (`Asm.Tracks.feed`).
-/

namespace CellMachine

namespace Assembler

/-- The instructions that `es` ask for have been added to the code. -/
def Emits (es : List Emission) (s s' : Assembler) : Prop :=
  ∃ xs, List.Forall₂ Emission.Encodes es xs ∧
    Adds (emissionSlots s.object.code.size es) (xs.flatMap Instruction.encode) s s'

end Assembler

namespace SourceInstruction

variable {i : SourceInstruction} {x : Instruction}

theorem Encodes.length_types (h : i.Encodes x) : i.types.length = i.args.length := by
  have hlength := congrArg List.length h.typed
  simpa using hlength.symm

theorem Encodes.isSome_descriptor (h : i.Encodes x) :
    x.descriptor.isSome = i.opcode.layout.variadic := by
  have hcount := h.count
  rw [h.descriptor]
  cases hvariadic : i.opcode.layout.variadic with
  | false => rfl
  | true =>
    rw [hvariadic, if_pos rfl] at hcount
    simp [Descriptor.ofTypes?, h.length_types, hcount]

theorem Encodes.size_eq (h : i.Encodes x) : x.size = i.size := by
  unfold Instruction.size SourceInstruction.size SourceInstruction.gap
  rw [Asm.operandsSize_of_encodes h.fixed, Asm.operandsSize_of_encodes h.args, h.isSome_descriptor]

end SourceInstruction

theorem Emission.Encodes.size_eq {e : Emission} {x : Instruction} (h : e.Encodes x) :
    x.size = e.size := by
  cases e with
  | written i => exact SourceInstruction.Encodes.size_eq h
  | frame => rw [show x = Asm.plainInstruction .pushFrame from h]; rfl
  | growth size => rw [show x = Asm.growStack size from h]; rfl

/-- The size of the code of some emissions. -/
def emissionsSize (es : List Emission) : Nat := (es.map Emission.size).sum

theorem length_flatMap_encode {es : List Emission} {xs : List Instruction}
    (h : List.Forall₂ Emission.Encodes es xs) :
    (xs.flatMap Instruction.encode).length = emissionsSize es := by
  induction h with
  | nil => rfl
  | cons hx _ ih =>
    simp only [emissionsSize, List.flatMap_cons, List.length_append, List.map_cons,
      List.sum_cons] at ih ⊢
    rw [Instruction.length_encode, hx.size_eq, ih]

theorem emissionSlots_append (es fs : List Emission) (pos : Nat) :
    emissionSlots pos (es ++ fs) =
      emissionSlots pos es ++ emissionSlots (pos + emissionsSize es) fs := by
  induction es generalizing pos with
  | nil => simp [emissionSlots, emissionsSize]
  | cons e es ih =>
    simp only [List.cons_append, emissionSlots, ih, List.append_assoc, emissionsSize, List.map_cons,
      List.sum_cons, Nat.add_assoc]

namespace Assembler

theorem Emits.refl (s : Assembler) : Emits [] s s := ⟨[], .nil, Adds.refl s⟩

variable {s s' : Assembler}

theorem Emits.of_adds_nil (h : Adds [] [] s s') : Emits [] s s' := ⟨[], .nil, h⟩

theorem Emits.size_eq {es : List Emission} (h : Emits es s s') :
    s'.object.code.size = s.object.code.size + emissionsSize es := by
  obtain ⟨xs, hxs, hadds⟩ := h
  rw [hadds.size_eq, length_flatMap_encode hxs]

theorem Emits.trans {es fs : List Emission} {s₁ : Assembler} (h : Emits es s s₁)
    (h' : Emits fs s₁ s') : Emits (es ++ fs) s s' := by
  have hsize := h.size_eq
  obtain ⟨xs, hxs, hadds⟩ := h
  obtain ⟨ys, hys, hadds'⟩ := h'
  refine ⟨xs ++ ys, List.rel_append hxs hys, ?_⟩
  rw [emissionSlots_append, List.flatMap_append, ← hsize]
  exact hadds.trans hadds'

instance : Std.Refl (Emits []) := ⟨Emits.refl⟩

instance : Trans (Emits []) (Emits []) (Emits []) := ⟨Emits.trans⟩

end Assembler

namespace Asm

open Assembler (Adds Emits)

/-! ## Statement by statement -/

/-- A relation between the states in front of and behind statements, by what is carried out for
them. It looks at the object without its static data and at the open scopes only. -/
structure Tracks (E : List Assembler → Assembler → Assembler → Prop) : Prop where
  of_eq : ∀ {s s' : Assembler}, s'.object = s.object → s'.scopes = s.scopes → E [] s s'
  withStatic : ∀ (s : Assembler) bytes, E [] s (s.withStatic bytes)
  trans : ∀ {ts us : List Assembler} {s s₁ s' : Assembler}, E ts s s₁ → E us s₁ s' →
    E (ts ++ us) s s'
  plain : ∀ {expand : Asm Unit} {s s' : Assembler}, s.atUse = false →
    statementBody expand s = .ok () s' → E [s] s s'

theorem object_counted (s : Assembler) : s.counted.object = s.object := by
  unfold Assembler.counted
  split
  · rfl
  · rfl

theorem scopes_counted (s : Assembler) : s.counted.scopes = s.scopes := by
  unfold Assembler.counted
  split
  · rfl
  · rfl

variable {s s' : Assembler} {tokens : Array Token}

/-- A use of a macro takes its arguments and gives the tokens that it stands for, with the end of a
text behind them. There has to be room for one more use to be nested. -/
theorem macroUse_spec (h : macroUse s = .ok tokens s') :
    ∃ d args c, s.findMacro? s.cursor.current.text = some d ∧
      Parser.macroArguments s.cursor.next.remaining s.cursor.next = .ok args c ∧
      args.length = d.params.length ∧ s.depth < maxDepth ∧ s' = s.movedTo c ∧
      tokens = (d.expand args).toArray.push (.endOfCode s.cursor.current.position) := by
  rw [macroUse, current_bind] at h
  obtain ⟨_, _, hget, h⟩ := bind_eq_ok.mp h
  cases hget
  cases hfind : s.findMacro? s.cursor.current.text with
  | none =>
    simp only [hfind] at h
    exact absurd h failAt_ne_ok
  | some d =>
    simp only [hfind] at h
    obtain ⟨_, c, hnext, h⟩ := ofParser_bind_eq_ok.mp h
    cases hnext
    obtain ⟨n, _, hremaining, h⟩ := ofParser_bind_eq_ok.mp h
    cases hremaining
    obtain ⟨args, c, hargs, h⟩ := ofParser_bind_eq_ok.mp h
    split at h
    · exact absurd h failAt_ne_ok
    next harity =>
    obtain ⟨_, _, hget, h⟩ := bind_eq_ok.mp h
    cases hget
    split at h
    · exact absurd h failAt_ne_ok
    · next hdepth =>
      cases h
      exact ⟨d, args, c, rfl, hargs, not_not.mp harity, Nat.not_le.mp hdepth, rfl, rfl⟩

theorem object_of_macroUse (h : macroUse s = .ok tokens s') : s'.object = s.object := by
  obtain ⟨_, _, c, -, -, -, -, rfl, -⟩ := macroUse_spec h
  rfl

theorem scopes_of_macroUse (h : macroUse s = .ok tokens s') : s'.scopes = s.scopes := by
  obtain ⟨_, _, c, -, -, -, -, rfl, -⟩ := macroUse_spec h
  rfl

namespace Tracks

variable {E : List Assembler → Assembler → Assembler → Prop} {ts : List Assembler}
  {s s₁ s' : Assembler}

theorem of_front (hE : Tracks E) (h : E ts s₁ s') (hobject : s₁.object = s.object)
    (hscopes : s₁.scopes = s.scopes) : E ts s s' :=
  hE.trans (hE.of_eq hobject hscopes) h

theorem of_behind (hE : Tracks E) (h : E ts s s₁) (hobject : s'.object = s₁.object)
    (hscopes : s'.scopes = s₁.scopes) : E ts s s' := by
  simpa using hE.trans h (hE.of_eq hobject hscopes)

theorem nested (hE : Tracks E) {tokens : Array Token} {x : Asm Unit}
    (hx : ∀ s₁, x { s with cursor := ⟨tokens, 0⟩, depth := s.depth + 1 } = .ok () s₁ →
      E ts { s with cursor := ⟨tokens, 0⟩, depth := s.depth + 1 } s₁)
    (h : Asm.nested tokens x s = .ok () s') : E ts s s' := by
  unfold Asm.nested at h
  cases hstep : x { s with cursor := ⟨tokens, 0⟩, depth := s.depth + 1 } with
  | error e s₁ => simp [hstep] at h
  | ok _ s₁ =>
    simp only [hstep, EStateM.Result.ok.injEq, true_and] at h
    subst h
    exact hE.of_behind (hE.of_front (hx s₁ hstep) rfl rfl) rfl rfl

section Expand

variable {expand : Asm Unit} {steps : Assembler → List Assembler}

/-- A use of a macro is tracked as what it stands for. -/
def Expands (E : List Assembler → Assembler → Assembler → Prop) (expand : Asm Unit)
    (steps : Assembler → List Assembler) : Prop :=
  ∀ s s', expand s = .ok () s' → E (steps s) s s'

theorem statementBody (hE : Tracks E) (hexpand : Expands E expand steps)
    (h : Asm.statementBody expand s = .ok () s') : E (statementSteps steps s) s s' := by
  unfold statementSteps
  cases huse : s.atUse with
  | false => exact hE.plain huse h
  | true =>
    obtain ⟨hkind, hop⟩ : s.cursor.current.kind = .name ∧
        Opcode.ofName? s.cursor.current.text = none := by simpa [Assembler.atUse] using huse
    rcases statementBody_cases expand s with
      ⟨hmark, -⟩ | ⟨op, hsome, -, -⟩ | ⟨-, -, hbody⟩ | ⟨-, -, e, hbody⟩
    · cases hkind.symm.trans hmark
    · cases hop.symm.trans hsome
    · exact hexpand s s' (hbody ▸ h)
    · rw [hbody] at h
      cases h

theorem statement (hE : Tracks E) (hexpand : Expands E expand steps)
    (h : Asm.statement expand s = .ok () s') : E (statementSteps steps s) s s' := by
  obtain ⟨_, s₁, hbody, h⟩ := bind_eq_ok.mp h
  obtain ⟨_, c, -, h⟩ := ofParser_bind_eq_ok.mp h
  obtain ⟨c', -, rfl⟩ := ofParser_eq_ok.mp h
  exact hE.of_behind (hE.statementBody hexpand hbody) rfl rfl

/-- Statements are tracked one behind the other. -/
theorem statements (hE : Tracks E) (hexpand : Expands E expand steps) {n : Nat}
    (h : Asm.statements expand n s = .ok () s') :
    E (statementsSteps expand steps n s) s s' := by
  induction n generalizing s with
  | zero =>
    cases h
    exact hE.of_eq rfl rfl
  | succ n ih =>
    rw [statements_succ] at h
    unfold statementsSteps
    by_cases hend : s.onLine.cursor.atEnd = true
    · rw [if_pos hend] at h ⊢
      cases h
      exact hE.of_eq rfl rfl
    · rw [if_neg hend] at h ⊢
      cases hattempt : attempt (Asm.statement expand) s.onLine with
      | error e s₁ => simp [hattempt] at h
      | ok _ s₁ =>
        have hstatement := attempt_eq_ok.mp hattempt
        simp only [hattempt] at h
        rw [hstatement]
        have hfirst : E (statementSteps steps s.onLine) s s₁.counted :=
          hE.of_behind (hE.of_front (hE.statement hexpand hstatement) rfl rfl) (object_counted s₁)
            (scopes_counted s₁)
        exact hE.trans hfirst (ih h)

end Expand

theorem expansion (hE : Tracks E) (n : Nat) : Expands E (Asm.expansion n) (expansionSteps n) := by
  induction n with
  | zero =>
    intro s s' h
    obtain ⟨tokens, s₁, huse, h⟩ := bind_eq_ok.mp h
    cases h
    exact hE.of_eq (object_of_macroUse huse) (scopes_of_macroUse huse)
  | succ n ih =>
    intro s s' h
    obtain ⟨tokens, s₁, huse, h⟩ := bind_eq_ok.mp h
    have hnested := hE.nested (fun s₂ hs₂ => hE.statements ih hs₂) h
    simp only [expansionSteps, huse]
    exact hE.of_front hnested (object_of_macroUse huse) (scopes_of_macroUse huse)

/-- The statements of the source are tracked up to the first that fails. -/
theorem stateAfter_statements (hE : Tracks E) (hs : s.Settled) (n : Nat) :
    E (statementsSteps (Asm.expansion maxDepth) (expansionSteps maxDepth) n s) s
      (stateAfter (Asm.statements (Asm.expansion maxDepth) n s)) := by
  induction n generalizing s with
  | zero => exact hE.of_eq rfl rfl
  | succ n ih =>
    rw [statements_succ]
    unfold statementsSteps
    by_cases hend : s.onLine.cursor.atEnd = true
    · rw [if_pos hend, if_pos hend]
      exact hE.of_eq rfl rfl
    · rw [if_neg hend, if_neg hend]
      cases hattempt : attempt (Asm.statement (Asm.expansion maxDepth)) s.onLine with
      | ok _ s₁ =>
        have hstatement := attempt_eq_ok.mp hattempt
        have hsettled := (Assembler.extends_of_statement hs.onLine hstatement).settled hs.onLine
        rw [hstatement]
        have hfirst : E (statementSteps (expansionSteps maxDepth) s.onLine) s s₁.counted :=
          hE.of_behind (hE.of_front (hE.statement (hE.expansion _) hstatement) rfl rfl)
            (object_counted s₁) (scopes_counted s₁)
        exact hE.trans hfirst (ih hsettled.counted)
      | error e s₁ =>
        obtain ⟨s₂, hstatement, rfl⟩ :=
          attempt_eq_error (grows_statement (grows_expansion _)) hs.onLine.consistent hattempt
        rw [hstatement]
        exact hE.of_behind (hE.of_front (hE.withStatic s.onLine _) rfl rfl) rfl rfl

/-- A feed is tracked up to the first statement that fails. -/
theorem feed (hE : Tracks E) (hs : s.Settled) (tokens : Array Token) :
    E (s.steps tokens) s (s.feed tokens).2 := by
  have hrun := hE.stateAfter_statements (hs.fedWith tokens)
    ((s.fedWith tokens).cursor.remaining + 1)
  rw [Assembler.feed_eq_outcome]
  exact hE.of_front hrun rfl rfl

end Tracks

/-! ## Relations that follow the source -/

/-- A relation between the states in front of and behind statements, by what the statements ask
for. It looks at the object without its static data only, and the code grows by the instructions
asked for. -/
structure Follows (E : List Emission → Assembler → Assembler → Prop) : Prop where
  admits : Admits (E [])
  of_object_eq : ∀ {s s' : Assembler}, s'.object = s.object → E [] s s'
  withStatic : ∀ (s : Assembler) bytes, E [] s (s.withStatic bytes)
  trans : ∀ {es fs : List Emission} {s s₁ s' : Assembler}, E es s s₁ → E fs s₁ s' →
    E (es ++ fs) s s'
  append : ∀ {e : Emission} {x : Instruction}, e.Encodes x → (∀ pos, e.slots pos = []) →
    ∀ s : Assembler, E [e] s (s.appendCode x.encode)
  instruction : ∀ {op : Opcode} {s s' : Assembler}, instruction op s = .ok () s' →
    ∃ i, Parser.sourceInstruction op s.cursor = .ok i s'.cursor ∧ E [.written i] s s'

theorem expect_eq_ok {kind : TokenKind} {expected : String} {c c' : Cursor} {t : Token}
    (h : Parser.expect kind expected c = .ok t c') : t = c.current ∧ c' = c.next := by
  obtain ⟨_, _, hcurrent, h⟩ := bind_eq_ok.mp h
  cases hcurrent
  by_cases hkind : (c.current.kind == kind) = true
  · rw [if_pos hkind] at h
    cases h
    exact ⟨rfl, rfl⟩
  · rw [if_neg hkind] at h
    cases h

/-- The datatype of a local is the one that it is declared with. -/
theorem declaration_of_reserveSlot {dt : Datatype} (h : reserveSlot s = .ok dt s') :
    ∃ name c, Parser.declaration s.cursor = .ok (name, dt) c := by
  obtain ⟨⟨name, t⟩, c, hdeclares, h⟩ := ofParser_bind_eq_ok.mp h
  obtain ⟨_, _, -, h⟩ := bind_eq_ok.mp h
  obtain ⟨_, _, -, h⟩ := bind_eq_ok.mp h
  cases h
  exact ⟨name, c, hdeclares⟩

namespace Follows

variable {E : List Emission → Assembler → Assembler → Prop} {es : List Emission}
  {s s₁ s' : Assembler}

theorem of_front (hE : Follows E) (h : E es s₁ s') (hobject : s₁.object = s.object) : E es s s' :=
  hE.trans (hE.of_object_eq hobject) h

/-! ## Directives -/

variable [Std.Refl (E [])] [Trans (E []) (E []) (E [])]

theorem function (hE : Follows E) (h : Asm.function true s = .ok () s') : E [.frame] s s' := by
  obtain ⟨_, s₁, hhead, h⟩ := bind_eq_ok.mp h
  cases h
  have hframe : Emission.frame.Encodes (plainInstruction .pushFrame) := rfl
  exact hE.trans ((relates_functionHead hE.admits).of_ok hhead)
    (hE.append hframe (fun _ => rfl) s₁)

theorem localSlot (hE : Follows E) (h : Asm.localSlot s = .ok () s') :
    ∃ name dt c, Parser.declaration s.cursor = .ok (name, dt) c ∧ E [.growth dt.size] s s' := by
  obtain ⟨dt, s₁, hreserve, h⟩ := bind_eq_ok.mp h
  cases h
  obtain ⟨name, c, hdeclares⟩ := declaration_of_reserveSlot hreserve
  have hgrowth : (Emission.growth dt.size).Encodes (growStack dt.size) := rfl
  exact ⟨name, dt, c, hdeclares, hE.trans ((relates_reserveSlot hE.admits).of_ok hreserve)
    (hE.append hgrowth (fun _ => rfl) s₁)⟩

theorem directive (hE : Follows E) (h : Asm.directive s = .ok () s') :
    E (directiveEmissions s.cursor.current.text s.cursor.next) s s' := by
  obtain ⟨t, c, hname, h⟩ := ofParser_bind_eq_ok.mp h
  obtain ⟨rfl, rfl⟩ := expect_eq_ok hname
  have hnamed : E (directiveEmissions s.cursor.current.text s.cursor.next)
      (s.movedTo s.cursor.next) s' := by
    unfold directiveEmissions
    by_cases hfunc : s.cursor.current.text = "func"
    · rw [directiveNamed_func hfunc] at h
      rw [if_pos hfunc]
      exact hE.function h
    rw [if_neg hfunc]
    by_cases hlocal : s.cursor.current.text = "local"
    · rw [directiveNamed_local hlocal] at h
      obtain ⟨name, dt, c, hdeclares, hslot⟩ := hE.localSlot h
      have hdeclares' : Parser.declaration s.cursor.next = .ok (name, dt) c := hdeclares
      simpa only [if_pos hlocal, hdeclares'] using hslot
    rw [if_neg hlocal]
    have hstatic : Relates (E []) staticData :=
      relates_staticData hE.admits.toAdmitsNames fun s _ => hE.withStatic s _
    have hdefine : Relates (E []) defineMacro :=
      relates_defineMacro hE.admits.toAdmitsNames fun _ _ => hE.of_object_eq rfl
    exact (relates_directiveNamed hE.admits (fun _ => hstatic) (fun _ => hdefine) hfunc
      hlocal).of_ok h
  exact hE.of_front hnamed rfl

/-! ## Statements -/

theorem statementBody (hE : Follows E) {expand : Asm Unit} (huse : s.atUse = false)
    (h : Asm.statementBody expand s = .ok () s') : E s.asks s s' := by
  unfold Assembler.asks statementEmissions
  rcases statementBody_cases expand s with
    ⟨hkind, hbody⟩ | ⟨op, hop, hkind, hbody⟩ | ⟨hkind, hop, -⟩ | ⟨-, -, e, hbody⟩
  · rw [hbody] at h
    simp only [hkind]
    exact hE.of_front (hE.directive h) rfl
  · rw [hbody] at h
    obtain ⟨i, hread, hemits⟩ := hE.instruction h
    simp only [hkind, hop, hread]
    exact hemits
  · simp [Assembler.atUse, hkind, hop] at huse
  · rw [hbody] at h
    cases h

/-- What statements ask for is known from each of them. -/
theorem tracks (hE : Follows E) : Tracks fun ts => E (ts.flatMap Assembler.asks) where
  of_eq hobject _ := hE.of_object_eq hobject
  withStatic := hE.withStatic
  trans h h' := by
    rw [List.flatMap_append]
    exact hE.trans h h'
  plain huse h := by
    rw [List.flatMap_singleton]
    exact hE.statementBody huse h

/-- A feed is followed up to the first statement that fails. -/
theorem feed (hE : Follows E) (hs : s.Settled) (tokens : Array Token) :
    E (s.emissions tokens) s (s.feed tokens).2 := by
  rw [Assembler.emissions_eq]
  exact hE.tracks.feed hs tokens

end Follows

/-! ## The code -/

theorem admits_emits_nil : Admits (Emits []) := by
  have hsame : ∀ {s s' : Assembler}, s'.object.code = s.object.code →
      s'.object.unresolved = s.object.unresolved →
      s'.object.relocations = s.object.relocations → Emits [] s s' := fun hcode hrefs hrelocs =>
    .of_adds_nil ⟨by rw [hcode, List.append_nil], by rw [hrefs]; exact (List.append_nil _).symm,
      by rw [hrelocs]; exact (List.append_nil _).symm⟩
  refine ⟨⟨⟨fun _ _ _ => hsame rfl rfl rfl, fun _ _ => hsame rfl rfl rfl⟩,
    fun _ _ _ _ => hsame rfl rfl rfl, fun s name => ?_, fun _ _ _ => hsame rfl rfl rfl⟩,
    fun _ _ => hsame rfl rfl rfl⟩
  unfold Object.require
  split
  · exact hsame rfl rfl rfl
  · exact hsame rfl rfl rfl

/-- The code follows the source. -/
theorem follows_emits : Follows Emits where
  admits := admits_emits_nil
  of_object_eq h := .of_adds_nil (by
    refine ⟨?_, ?_, ?_⟩ <;> rw [h] <;> exact (List.append_nil _).symm)
  withStatic _ _ := .of_adds_nil
    ⟨(List.append_nil _).symm, (List.append_nil _).symm, (List.append_nil _).symm⟩
  trans := Emits.trans
  append {_ x} hx hslots s := by
    refine ⟨[x], .cons hx .nil, ?_⟩
    simpa [emissionSlots, hslots] using Assembler.adds_appendCode s x.encode
  instruction h := by
    obtain ⟨i, x, hread, hencodes, hadds⟩ := instruction_spec h
    refine ⟨i, hread, [x], .cons hencodes .nil, ?_⟩
    simpa [emissionSlots, Emission.slots] using hadds

end Asm

namespace Assembler

/-- The assemblers that feeds lead to, with what the source has asked for so far. -/
inductive Produced (name : String) : List Emission → Assembler → Prop
  | empty : Produced name [] (empty name)
  | feed {es : List Emission} {s : Assembler} (tokens : Array Token) :
    Produced name es s → Produced name (es ++ s.emissions tokens) (s.feed tokens).2

theorem Produced.settled {name : String} {es : List Emission} {s : Assembler}
    (h : Produced name es s) : s.Settled := by
  induction h with
  | empty => exact ⟨consistent_empty name, rfl⟩
  | feed tokens _ ih => exact settled_feed ih tokens

theorem Produced.emits {name : String} {es : List Emission} {s : Assembler}
    (h : Produced name es s) : Emits es (Assembler.empty name) s := by
  induction h with
  | empty => exact Emits.refl _
  | feed tokens hs ih => exact ih.trans (Asm.follows_emits.feed hs.settled tokens)

end Assembler

end CellMachine
