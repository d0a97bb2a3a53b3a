import CellMachine.Proofs.Assembly.Statements

/-!
# Macros that outlive a failing statement

A statement that fails is undone, but a checkpoint has no part for the macros. The statement of a
source is either no use of a macro, and then it fails before it can define one, or it stands for
other statements, each of which is carried out in its turn (`Assembler.Meets`) and may define a
macro (`Assembler.Defines`) before a later one fails. What a failing feed has added to the table is
exactly that (`Assembler.feed_error_macros`).
-/

namespace CellMachine

/-! ## Definitions -/

/-- Takes what stands behind `#macro` : the macro and its name. -/
def Parser.macroDefinition : Parser (String × MacroDef) := do
  let t ← expect .name "a macro name"
  return (t.text, ← macroDef t)

namespace Assembler

/-- The assembler comes to `t` inside of the macro that the statement at `s` uses, in front of one
of the statements it stands for or of one of those that another use among them stands for. -/
inductive Meets (s : Assembler) : Assembler → Prop
  | enter {t : Assembler} : s.Enters t → Meets s t
  | pass {t u : Assembler} : Meets s t → t.Passes u → Meets s u
  | nest {t u : Assembler} : Meets s t → t.Enters u → Meets s u

/-- The statement under the cursor is a `#macro` that succeeds, with `d` as what it defines. -/
structure Defines (s : Assembler) (d : String × MacroDef) : Prop where
  mark : s.onLine.cursor.current.kind = .directive
  name : s.onLine.cursor.next.current.text = "macro"
  reads : ∃ c, Parser.macroDefinition s.onLine.cursor.next.next = .ok d c
  passes : ∃ t, s.Passes t

/-- The statement under the cursor defines a macro, be it inside of one that it uses. -/
def Yields (s : Assembler) (d : String × MacroDef) : Prop :=
  s.Defines d ∨ ∃ t, s.Meets t ∧ t.Defines d

variable {s s' : Assembler} {D : String × MacroDef → Prop}

theorem Meets.trans {t u : Assembler} (h : s.Meets t) (h' : t.Meets u) : s.Meets u := by
  induction h' with
  | enter henter => exact .nest h henter
  | pass _ hpass ih => exact .pass ih hpass
  | nest _ henter ih => exact .nest ih henter

/-- What is met lies at or below one of the statements that the use stands for itself. -/
theorem meets_iff {t : Assembler} :
    s.Meets t ↔ ∃ t₀ u, s.Enters t₀ ∧ Relation.ReflTransGen Passes t₀ u ∧ (u = t ∨ u.Meets t) := by
  constructor
  · intro h
    induction h with
    | enter henter => exact ⟨_, _, henter, .refl, Or.inl rfl⟩
    | pass _ hpass ih =>
      obtain ⟨t₀, u, henter, hrun, rfl | hmeets⟩ := ih
      · exact ⟨t₀, _, henter, .tail hrun hpass, Or.inl rfl⟩
      · exact ⟨t₀, u, henter, hrun, Or.inr (.pass hmeets hpass)⟩
    | nest _ hnest ih =>
      obtain ⟨t₀, u, henter, hrun, rfl | hmeets⟩ := ih
      · exact ⟨t₀, _, henter, hrun, Or.inr (.enter hnest)⟩
      · exact ⟨t₀, u, henter, hrun, Or.inr (.nest hmeets hnest)⟩
  · rintro ⟨t₀, u, henter, hrun, hu⟩
    have hmeets : s.Meets u := by
      clear hu
      induction hrun with
      | refl => exact .enter henter
      | tail _ hpass ih => exact .pass ih hpass
    rcases hu with rfl | hu
    · exact hmeets
    · exact hmeets.trans hu

/-- Only a use of a macro yields what it does not define itself. -/
theorem yields_iff_of_not_enters (h : ∀ t, ¬ s.Enters t) (d : String × MacroDef) :
    s.Yields d ↔ s.Defines d := by
  refine or_iff_left ?_
  rintro ⟨t, hmeets, -⟩
  obtain ⟨t₀, -, henter, -⟩ := meets_iff.mp hmeets
  exact h t₀ henter

/-- A use of a macro yields what the statements yield that it stands for. -/
theorem yields_iff_of_enters {t₀ : Assembler} (h : s.Enters t₀) (d : String × MacroDef) :
    s.Yields d ↔ ∃ u, Relation.ReflTransGen Passes t₀ u ∧ u.Yields d := by
  constructor
  · rintro (hdefines | ⟨t, hmeets, hdefines⟩)
    · exact absurd (h.1.symm.trans hdefines.mark) (by decide)
    · obtain ⟨t₁, u, henter, hrun, hu⟩ := meets_iff.mp hmeets
      obtain ⟨-, -, tokens, s₁, huse, rfl⟩ := h
      obtain ⟨-, -, tokens', s₁', huse', rfl⟩ := henter
      cases huse.symm.trans huse'
      refine ⟨u, hrun, ?_⟩
      rcases hu with rfl | hu
      · exact Or.inl hdefines
      · exact Or.inr ⟨t, hu, hdefines⟩
  · rintro ⟨u, hrun, hdefines | ⟨t, hmeets, hdefines⟩⟩
    · exact Or.inr ⟨u, meets_iff.mpr ⟨t₀, u, h, hrun, Or.inl rfl⟩, hdefines⟩
    · exact Or.inr ⟨t, meets_iff.mpr ⟨t₀, u, h, hrun, Or.inr hmeets⟩, hdefines⟩

/-- The macros of `D` have been added to the table, each under a name of its own. -/
def Leaves (D : String × MacroDef → Prop) (s s' : Assembler) : Prop :=
  ∃ added, s'.macros = s.macros ++ added ∧ (∀ d, d ∈ added ↔ D d) ∧
    ((s.macros.map (·.1)).Nodup → (s'.macros.map (·.1)).Nodup)

/-- The same macros. -/
def SameMacros (s s' : Assembler) : Prop := s'.macros = s.macros

instance : Std.Refl SameMacros := ⟨fun _ => rfl⟩

instance : Trans SameMacros SameMacros SameMacros where
  trans h h' := Eq.trans h' h

theorem leaves_none (h : SameMacros s s') (hD : ∀ d, ¬ D d) : Leaves D s s' :=
  ⟨[], by rw [List.append_nil, h], fun d => by simpa using hD d, fun hs => by rwa [h]⟩

theorem Leaves.congr {D' : String × MacroDef → Prop} {s₁ s₁' : Assembler} (h : Leaves D s₁ s₁')
    (hD : ∀ d, D' d ↔ D d) (hs : SameMacros s s₁) (hs' : SameMacros s₁' s') : Leaves D' s s' := by
  obtain ⟨added, hmacros, hadded, hnodup⟩ := h
  unfold SameMacros at hs hs'
  refine ⟨added, by rw [hs', hmacros, hs], fun d => (hadded d).trans (hD d).symm, ?_⟩
  rw [hs', ← hs]
  exact hnodup

theorem Leaves.trans {D' : String × MacroDef → Prop} {s₁ : Assembler} (h : Leaves D s s₁)
    (h' : Leaves D' s₁ s') : Leaves (fun d => D d ∨ D' d) s s' := by
  obtain ⟨added, hmacros, hadded, hnodup⟩ := h
  obtain ⟨added', hmacros', hadded', hnodup'⟩ := h'
  refine ⟨added ++ added', by rw [hmacros', hmacros, List.append_assoc], fun d => ?_,
    hnodup' ∘ hnodup⟩
  rw [List.mem_append, hadded, hadded']

end Assembler

namespace Asm

open Assembler (SameMacros Leaves)

theorem admits_sameMacros : AdmitsCode SameMacros where
  movedTo _ _ _ := rfl
  withSymbol _ _ _ _ := rfl
  appendStatic _ _ := rfl
  require _ _ := rfl
  permissions _ _ _ := rfl
  scopes _ _ := rfl
  appendCode _ _ := rfl
  refer _ _ _ := rfl
  relocate _ _ := rfl
  overwriteCode _ _ _ _ _ h := h

/-! ## One statement -/

theorem failsWith_defineMacro : FailsWith SameMacros defineMacro := by
  have hR := admits_sameMacros
  refine .bind (hR.ofParser (Parser.relates_expect _ _)) fun t => .bind .get fun _ => ?_
  split
  · exact .of_relates (hR.fail _ _)
  · exact .bind (hR.ofParser (Parser.relates_macroDef t)) fun _ => nofun

/-- The body of a macro is closed, and it ends where statements end. -/
theorem macroDef_spec {t : Token} {d : MacroDef} {c c' : Cursor}
    (h : Parser.macroDef t c = .ok d c') :
    c'.current.endsStatement = true ∧
      ∃ n c₁ c₂, Parser.macroBody 0 n c₁ = .ok (some d.body) c₂ := by
  obtain ⟨_, _, -, h⟩ := bind_eq_ok.mp h
  obtain ⟨params, _, -, h⟩ := bind_eq_ok.mp h
  obtain ⟨_, _, -, h⟩ := bind_eq_ok.mp h
  obtain ⟨n, c₁, -, h⟩ := bind_eq_ok.mp h
  obtain ⟨body, c₂, hbody, h⟩ := bind_eq_ok.mp h
  cases body with
  | none => cases h
  | some body =>
    obtain ⟨_, c₃, hend, h⟩ := bind_eq_ok.mp h
    cases h
    obtain ⟨hends, rfl⟩ := expectEnd_eq_ok.mp hend
    exact ⟨hends, n, c₁, _, hbody⟩

/-- A macro is added under a name that is neither that of another one nor that of an
instruction. -/
theorem defineMacro_eq_ok {s s' : Assembler} (h : defineMacro s = .ok () s') :
    ∃ d c, Parser.macroDefinition s.cursor = .ok d c ∧ c.current.endsStatement = true ∧
      s.findMacro? d.1 = none ∧
      s' = { s with cursor := c, macros := s.macros ++ [d] } := by
  obtain ⟨t, c₁, hname, h⟩ := ofParser_bind_eq_ok.mp h
  obtain ⟨_, _, hget, h⟩ := bind_eq_ok.mp h
  cases hget
  split at h
  · exact absurd h failAt_ne_ok
  next hnew =>
  obtain ⟨d, c₂, hd, h⟩ := ofParser_bind_eq_ok.mp h
  cases h
  have hreads : Parser.macroDefinition s.cursor = .ok (t.text, d) c₂ :=
    bind_eq_ok.mpr ⟨t, c₁, hname, bind_eq_ok.mpr ⟨d, c₂, hd, rfl⟩⟩
  simp only [Bool.or_eq_true, not_or] at hnew
  exact ⟨_, c₂, hreads, (macroDef_spec hd).1, Option.not_isSome_iff_eq_none.mp hnew.1, rfl⟩

/-- What can become of a directive : it defines a macro, keeps the macros, or has no name. -/
theorem directive_cases (s : Assembler) :
    (s.cursor.current.text = "macro" ∧ directive s = defineMacro (s.movedTo s.cursor.next)) ∨
      (s.cursor.current.text ≠ "macro" ∧ SameMacros s (stateAfter (directive s))) ∨
      ∃ e, directive s = .error e s := by
  have hdirective : directive s =
      (if (s.cursor.current.kind == .name) = true then
        directiveNamed s.cursor.current (s.movedTo s.cursor.next)
      else .error ⟨.unexpectedToken "a directive name" s.cursor.current.describe,
        s.cursor.current.position⟩ s) := by
    change EStateM.bind (ofParser do
      if (s.cursor.current.kind == .name) = true then
        Parser.next
        return s.cursor.current
      else Parser.unexpected s.cursor.current "a directive name") directiveNamed s = _
    by_cases hkind : (s.cursor.current.kind == .name) = true
    · rw [if_pos hkind, if_pos hkind]
      rfl
    · rw [if_neg hkind, if_neg hkind]
      rfl
  rw [hdirective]
  split
  · by_cases hname : s.cursor.current.text = "macro"
    · exact Or.inl ⟨hname, congrFun (directiveNamed_defineMacro hname) _⟩
    · exact Or.inr (Or.inl ⟨hname, relates_writingDirective admits_sameMacros
        (fun _ => relates_staticData admits_sameMacros.toAdmitsNames fun _ _ => rfl)
        (fun h => absurd h hname) _⟩)
  · exact Or.inr (Or.inr ⟨_, rfl⟩)

theorem leaves_defineMacro {s s' : Assembler} (h : defineMacro s = .ok () s') :
    Leaves (fun d => ∃ c, Parser.macroDefinition s.cursor = .ok d c) s s' := by
  obtain ⟨d, c, hreads, -, hnew, rfl⟩ := defineMacro_eq_ok h
  refine ⟨[d], rfl, fun d' => ?_, fun hnodup => ?_⟩
  · rw [List.mem_singleton]
    constructor
    · rintro rfl
      exact ⟨c, hreads⟩
    · rintro ⟨c', hreads'⟩
      cases hreads.symm.trans hreads'
      rfl
  · have hnot : d.1 ∉ s.macros.map (·.1) := by
      intro hmem
      obtain ⟨d', hd', hname⟩ := List.mem_map.mp hmem
      unfold Assembler.findMacro? at hnew
      rw [Option.map_eq_none_iff, List.find?_eq_none] at hnew
      exact hnew d' hd' (by simp [hname])
    simpa using hnodup.append (List.nodup_singleton d.1) (by simpa using hnot)

end Asm

namespace Assembler

variable {s s' : Assembler}

theorem not_enters_of_ne (h : s.onLine.cursor.current.kind ≠ .name) (t : Assembler) :
    ¬ s.Enters t := fun henter => h henter.1

theorem not_yields_of_atEnd (h : s.onLine.cursor.atEnd = true) (d : String × MacroDef) :
    ¬ s.Yields d := by
  have hkind : s.onLine.cursor.current.kind = .endOfCode := by
    simpa [Cursor.atEnd, Token.isEnd] using h
  rw [yields_iff_of_not_enters (not_enters_of_ne (by rw [hkind]; decide))]
  intro hdefines
  exact absurd (hkind.symm.trans hdefines.mark) (by decide)

/-- A statement with the mark of directives adds the macro that it defines, if it is a `#macro`
that succeeds. -/
theorem leaves_directive (hkind : s.onLine.cursor.current.kind = .directive)
    (hbody : s.body = Asm.directive (s.onLine.movedTo s.onLine.cursor.next))
    : Leaves s.Yields s (stateAfter s.first) := by
  have hyields := yields_iff_of_not_enters (not_enters_of_ne (s := s) (by rw [hkind]; decide))
  have hsame := behind_body Asm.admits_sameMacros.movedTo s
  -- Where the directive fails nothing is defined, since a definition is that of a statement that
  -- succeeds.
  have hfails : ∀ e s₁, Asm.directive (s.onLine.movedTo s.onLine.cursor.next) = .error e s₁ →
      SameMacros s s₁ → Leaves s.Yields s (stateAfter s.first) := by
    intro e s₁ hstep hs₁
    rw [hbody, hstep] at hsame
    refine leaves_none (Trans.trans hs₁ hsame) fun d hd => ?_
    obtain ⟨t, hpasses⟩ := ((hyields d).mp hd).passes
    exact not_passes_of_error (bind_eq_error.mpr (Or.inl (hbody.trans hstep))) t hpasses
  rcases Asm.directive_cases (s.onLine.movedTo s.onLine.cursor.next) with
    ⟨hname, hstep⟩ | ⟨hname, hkeeps⟩ | ⟨e, hstep⟩
  · cases hdefine : Asm.defineMacro (s.onLine.movedTo s.onLine.cursor.next.next) with
    | ok _ s₁ =>
      rw [hbody, hstep.trans hdefine] at hsame
      obtain ⟨d, c, -, hends, -, rfl⟩ := Asm.defineMacro_eq_ok hdefine
      have hpasses := passes_of_ok rfl (by simp [Cursor.atEnd, Token.isEnd, hkind])
        (Asm.statement_eq_ok (hbody.trans (hstep.trans hdefine)) hends)
      refine (Asm.leaves_defineMacro hdefine).congr (fun d => ?_) rfl hsame
      rw [hyields]
      exact ⟨fun hd => hd.reads, fun hreads => ⟨hkind, hname, hreads, _, hpasses⟩⟩
    | error e s₁ =>
      have hkeeps : SameMacros (s.onLine.movedTo s.onLine.cursor.next.next) s₁ :=
        Asm.failsWith_defineMacro hdefine
      exact hfails e s₁ (hstep.trans hdefine) (hkeeps.trans rfl)
  · rw [hbody] at hsame
    exact leaves_none (hsame.trans hkeeps) fun d hd => hname ((hyields d).mp hd).name
  · exact hfails e _ hstep rfl

theorem leaves_plain (h : ∀ t, ¬ s.Enters t) : Leaves s.Yields s (stateAfter s.first) := by
  have hsame := behind_body Asm.admits_sameMacros.movedTo s
  have hyields := yields_iff_of_not_enters h
  rcases plain_cases Asm.admits_sameMacros.movedTo h with
    ⟨hkind, hbody⟩ | ⟨hkind, op, hbody⟩ | ⟨hkind, hkeeps⟩
  · exact leaves_directive hkind hbody
  · have hkeeps := Asm.relates_instruction Asm.admits_sameMacros.toAdmitsWriting op s.onLine
    rw [hbody] at hsame
    exact leaves_none (hsame.trans hkeeps) fun d hd =>
      absurd (hkind.symm.trans ((hyields d).mp hd).mark) (by decide)
  · exact leaves_none (hsame.trans hkeeps) fun d hd => hkind ((hyields d).mp hd).mark

/-! ## All statements -/

/-- What is yielded from `s` on, in the same list of tokens. -/
def YieldsOnward (s : Assembler) (d : String × MacroDef) : Prop :=
  ∃ t, Relation.ReflTransGen Passes s t ∧ t.Yields d

theorem yieldsOnward_of_passes {t : Assembler} (h : s.Passes t) (d : String × MacroDef) :
    s.YieldsOnward d ↔ s.Yields d ∨ t.YieldsOnward d := by
  constructor
  · rintro ⟨u, hrun, hu⟩
    rcases Relation.ReflTransGen.cases_head hrun with rfl | ⟨t', hpasses, hrun⟩
    · exact Or.inl hu
    · exact Or.inr ⟨u, h.unique hpasses ▸ hrun, hu⟩
  · rintro (hs | ⟨u, hrun, hu⟩)
    · exact ⟨s, .refl, hs⟩
    · exact ⟨u, .head h hrun, hu⟩

theorem yieldsOnward_of_not_passes (h : ∀ t, ¬ s.Passes t) (d : String × MacroDef) :
    s.YieldsOnward d ↔ s.Yields d := by
  constructor
  · rintro ⟨u, hrun, hu⟩
    rcases Relation.ReflTransGen.cases_head hrun with rfl | ⟨t, hpasses, -⟩
    · exact hu
    · exact absurd hpasses (h t)
  · exact fun hs => ⟨s, .refl, hs⟩

theorem macros_counted (s : Assembler) : s.counted.macros = s.macros := by
  unfold counted
  split <;> rfl

/-- Every statement leaves behind what it yields. -/
theorem Consistent.leaves (hs : s.Consistent) : Leaves s.Yields s (stateAfter s.first) := by
  refine (hs.walk (P := fun s => Leaves s.Yields s (stateAfter s.first))
    (Q := fun s r => Leaves s.YieldsOnward s (stateAfter r)) (fun s _ => leaves_plain)
    ?_ ?_ ?_ ?_).1
  · intro s t _ henter ht
    obtain ⟨hfront, hback⟩ := henter.framed (R := SameMacros) fun _ _ _ => rfl
    exact ht.congr (yields_iff_of_enters henter) hfront hback
  · intro s hend
    refine leaves_none rfl fun d => ?_
    rw [yieldsOnward_of_not_passes fun t ht => by simp [ht.1] at hend]
    exact not_yields_of_atEnd hend d
  · intro s t r hs hpass hfirst hrest
    have hyields := yieldsOnward_of_passes hpass
    obtain ⟨-, s₁, hok, rfl⟩ := hpass
    rw [first, hok] at hfirst
    exact (hfirst.trans (hrest.congr (fun _ => Iff.rfl) (macros_counted s₁) rfl)).congr hyields rfl rfl
  · intro s e t _ _ herror hfirst
    rw [herror] at hfirst
    exact hfirst.congr (yieldsOnward_of_not_passes (not_passes_of_error herror)) rfl rfl

/-! ## Feeds -/

/-- The macros have names of their own. -/
def Distinct (s : Assembler) : Prop := (s.macros.map (·.1)).Nodup

theorem Takes.distinct (h : s.Takes s') (hs : s.Settled) (hd : s.Distinct) : s'.Distinct := by
  have hleaves := hs.consistent.leaves
  obtain ⟨-, s₁, hok, rfl⟩ := hs.takes_iff.mp h
  rw [first, hok] at hleaves
  obtain ⟨-, -, -, hdistinct⟩ := hleaves
  rw [Distinct, macros_counted]
  exact hdistinct hd

/-- A failing statement of the source leaves behind what it meets inside of the macro it uses. -/
theorem Fails.leaves {e : AssemblyError} (h : s.Fails e s') (hs : s.Settled) :
    Leaves (fun d => ∃ t, s.Meets t ∧ t.Defines d) s s' := by
  have herror := h.first_eq hs
  have hleaves := hs.consistent.leaves
  rw [herror] at hleaves
  refine hleaves.congr (fun d => ?_) rfl rfl
  -- It defines nothing itself, since a `#macro` that fails adds no macro.
  refine (or_iff_right fun hd => ?_).symm
  obtain ⟨t, hpasses⟩ := hd.passes
  exact not_passes_of_error herror t hpasses

theorem invariant_distinct : Invariant Distinct where
  movedTo _ hd := hd
  takes h hs hd := h.distinct hs hd
  fails h hs hd := by
    obtain ⟨-, -, -, hdistinct⟩ := h.leaves hs
    exact hdistinct hd

theorem distinct_of_takes (h : Relation.ReflTransGen Takes s s') (hs : s.Settled)
    (hd : s.Distinct) : s'.Distinct :=
  invariant_distinct.run h hs hd

theorem Reachable.distinct {name : String} (h : Reachable name s) : s.Distinct :=
  invariant_distinct.reachable List.nodup_nil h

/-- In a table without two macros of a name, each is found. -/
theorem findMacro?_of_mem (hs : s.Distinct) {d : String × MacroDef} (hd : d ∈ s.macros) :
    s.findMacro? d.1 = some d.2 := by
  obtain ⟨before, behind, hmacros⟩ := List.append_of_mem hd
  unfold Distinct at hs
  rw [hmacros, List.map_append, List.map_cons, List.nodup_append] at hs
  have hfind : s.macros.find? (·.1 == d.1) = some d := by
    rw [List.find?_eq_some_iff_append]
    refine ⟨by simp, before, behind, hmacros, fun d' hd' => ?_⟩
    simpa using hs.2.2 d'.1 (List.mem_map_of_mem hd') d.1 List.mem_cons_self
  unfold findMacro?
  rw [hfind, Option.map_some]

theorem findMacro?_eq_none_of_append {added : List (String × MacroDef)}
    (h : ((s.macros ++ added).map (·.1)).Nodup) {d : String × MacroDef} (hd : d ∈ added) :
    s.findMacro? d.1 = none := by
  rw [List.map_append, List.nodup_append] at h
  unfold findMacro?
  rw [Option.map_eq_none_iff, List.find?_eq_none]
  intro d' hd'
  simpa using h.2.2 d'.1 (List.mem_map_of_mem hd') d.1 (List.mem_map_of_mem hd)

/-- What a failing feed leaves in the table of macros, beside what the statements in front have
defined : exactly the macros that were defined inside of the macro whose use has failed. They stay
in use. -/
theorem feed_error_macros {name : String} {s s' : Assembler} {tokens : Array Token}
    {e : AssemblyError} (hs : Reachable name s) (h : s.feed tokens = (.error e, s')) :
    ∃ s₁ s₂ added, Relation.ReflTransGen Takes (s.fedWith tokens) s₁ ∧ s₁.Fails e s₂ ∧
      s'.macros = s₁.macros ++ added ∧
      (∀ d, d ∈ added ↔ ∃ t, s₁.Meets t ∧ t.Defines d) ∧
      ∀ d ∈ added, s₁.findMacro? d.1 = none ∧ s'.findMacro? d.1 = some d.2 := by
  have hstart := hs.settled.fedWith tokens
  obtain ⟨s₁, hrun, hresult⟩ := feed_run hs.settled tokens
  rw [h] at hresult
  obtain ⟨s₂, hfails, rfl⟩ := hresult
  obtain ⟨added, hmacros, hadded, hdistinct⟩ := hfails.leaves (settled_of_takes hrun hstart)
  have hd := hdistinct (distinct_of_takes hrun hstart hs.distinct)
  refine ⟨s₁, s₂, added, hrun, hfails, hmacros, hadded, fun d hmem => ⟨?_, ?_⟩⟩
  · rw [hmacros] at hd
    exact findMacro?_eq_none_of_append hd hmem
  · exact findMacro?_of_mem (s := s₂) hd (hmacros ▸ List.mem_append_right _ hmem)

/-- The macro `m`, which defines the macro `inner` and has an unknown instruction behind it, and a
use of `m`. -/
def leakyLines : List Token :=
  [⟨.directive, "#", ⟨1, 1⟩⟩, ⟨.name, "macro", ⟨1, 2⟩⟩, ⟨.name, "m", ⟨1, 8⟩⟩,
    ⟨.newline, "\n", ⟨1, 9⟩⟩, ⟨.directive, "#", ⟨2, 1⟩⟩, ⟨.name, "macro", ⟨2, 2⟩⟩,
    ⟨.name, "inner", ⟨2, 8⟩⟩, ⟨.newline, "\n", ⟨2, 13⟩⟩, ⟨.name, "nop", ⟨3, 1⟩⟩,
    ⟨.newline, "\n", ⟨3, 4⟩⟩, ⟨.directive, "#", ⟨4, 1⟩⟩, ⟨.name, "end", ⟨4, 2⟩⟩,
    ⟨.newline, "\n", ⟨4, 5⟩⟩, ⟨.name, "bogus", ⟨5, 1⟩⟩, ⟨.newline, "\n", ⟨5, 6⟩⟩,
    ⟨.directive, "#", ⟨6, 1⟩⟩, ⟨.name, "end", ⟨6, 2⟩⟩, ⟨.newline, "\n", ⟨6, 5⟩⟩,
    ⟨.name, "m", ⟨7, 1⟩⟩, ⟨.newline, "\n", ⟨7, 2⟩⟩]

/-- The tokens of `leakyLines`, with the end of the text behind them. -/
def leakyTokens : Array Token := (leakyLines ++ [Token.endOfCode ⟨8, 1⟩]).toArray

/-- What is wrong with them. -/
def leakyError : AssemblyError := ⟨.unknownInstruction "bogus", ⟨5, 1⟩⟩

theorem feed_error_macros_leaky :
    ∃ s', (empty "main").feed leakyTokens = (.error leakyError, s') ∧
      s'.macros.map (·.1) = ["m", "inner"] ∧
      ∃ s₁ added, Relation.ReflTransGen Takes ((empty "main").fedWith leakyTokens) s₁ ∧
        s'.macros = s₁.macros ++ added ∧ ∀ d, d ∈ added ↔ ∃ t, s₁.Meets t ∧ t.Defines d := by
  have herror : ((empty "main").feed leakyTokens).1 = .error leakyError := by cbv
  have hmacros : ((empty "main").feed leakyTokens).2.macros.map (·.1) = ["m", "inner"] := by cbv
  generalize hfeed : (empty "main").feed leakyTokens = r at herror hmacros
  obtain ⟨_, s'⟩ := r
  subst herror
  obtain ⟨s₁, s₂, added, hrun, -, hadded, hdefined, -⟩ := feed_error_macros .empty hfeed
  exact ⟨s', rfl, hmacros, s₁, added, hrun, hadded, hdefined⟩

/-- The assembler behind the definition of `m`. -/
def leakyStart : Assembler :=
  (stateAfter (Asm.statement (Asm.expansion maxDepth)
    ((empty "main").fedWith leakyTokens).onLine)).counted

theorem takes_leakyStart : Takes ((empty "main").fedWith leakyTokens) leakyStart := by
  have hstart : outcome (Asm.statement (Asm.expansion maxDepth)
      ((empty "main").fedWith leakyTokens).onLine) = .ok () := by cbv
  refine ⟨_, by cbv, eq_ok_of_outcome hstart, ?_⟩
  rw [leakyStart, counted, if_pos (by cbv)]

theorem fails_leakyStart : ∃ s₂, leakyStart.Fails leakyError s₂ := by
  have herror : outcome (Asm.statement (Asm.expansion maxDepth) leakyStart.onLine) =
      .error leakyError := by cbv
  exact ⟨_, by cbv, eq_error_of_outcome herror⟩

/-- The assembler behind `leakyLines`. -/
def leakyEnd : Assembler := ((empty "main").feed leakyTokens).2

theorem feed_leakyTokens : (empty "main").feed leakyTokens = (.error leakyError, leakyEnd) := by
  have herror : ((empty "main").feed leakyTokens).1 = .error leakyError := by cbv
  rw [leakyEnd, ← herror]

/-- A use of `inner` behind `leakyLines`. -/
def leakyUse : Array Token :=
  (leakyLines ++ [⟨.name, "inner", ⟨8, 1⟩⟩, ⟨.newline, "\n", ⟨8, 6⟩⟩,
    Token.endOfCode ⟨9, 1⟩]).toArray

/-- A macro that was defined inside of a failing statement is not undone : `inner` was not known in
front of the statement, and can be used behind it. -/
theorem feed_error_keeps_macro :
    Takes ((empty "main").fedWith leakyTokens) leakyStart ∧
      (∃ s₂, leakyStart.Fails leakyError s₂) ∧
      (empty "main").feed leakyTokens = (.error leakyError, leakyEnd) ∧
      leakyStart.findMacro? "inner" = none ∧ (leakyEnd.findMacro? "inner").isSome = true ∧
      (leakyEnd.feed leakyUse).1 = .ok () := by
  refine ⟨takes_leakyStart, fails_leakyStart, feed_leakyTokens, ?_, ?_, ?_⟩
  · cbv
  · cbv
  · cbv

end Assembler

end CellMachine
