import CellMachine.Proofs.Assembly.Abreast
import CellMachine.Proofs.Assembly.Termination

/-!
# Macros in place

The name of a parameter in the body of a macro stands for the tokens of its argument, any other token
for itself (`Token.StandsFor`). A use of the macro assembles what its body stands for
(`MacroDef.StandsFor`) in a list of its own. In the place of the use, with the end of the use behind
them, the same tokens lead to the same module (`Assembler.passes_inlined`). The two lists have these
tokens in common (`Assembler.callCourse`) and the statements there are followed one by one
(`Course.Aligned.run`). All of them are reached, since no macro has the end of a text among its
tokens (`Assembler.MacrosOpen`).
-/

namespace CellMachine

/-! ## The tokens of macros -/

namespace Parser

variable {c c' : Cursor} {n : Nat}

theorem isEnd_of_macroBody {depth : Nat} {body : List Token}
    (h : macroBody depth n c = .ok (some body) c') : ∀ t ∈ body, t.isEnd = false := by
  induction n generalizing depth c body with
  | zero => cases h
  | succ n ih =>
    rw [macroBody, macroBodyRound_apply] at h
    split at h
    · cases h
    · next hend =>
      split at h
      · cases h
        simp
      · obtain ⟨rest, c₁, hrest, h⟩ := bind_eq_ok.mp h
        cases rest with
        | none => cases h
        | some rest =>
          cases h
          exact List.forall_mem_cons.mpr ⟨by simpa using hend, ih hrest⟩

theorem isEnd_of_macroDefinition {d : String × MacroDef} (h : macroDefinition c = .ok d c') :
    ∀ t ∈ d.2.body, t.isEnd = false := by
  obtain ⟨t, c₁, -, h⟩ := bind_eq_ok.mp h
  obtain ⟨m, c₂, hm, h⟩ := bind_eq_ok.mp h
  cases h
  obtain ⟨-, n, c₃, c₄, hbody⟩ := Asm.macroDef_spec hm
  exact isEnd_of_macroBody hbody

theorem endsStatement_of_argumentTokens {ts : List Token} (h : argumentTokens n c = .ok ts c') :
    ∀ t ∈ ts, t.endsStatement = false := by
  induction n generalizing c ts with
  | zero =>
    cases h
    simp
  | succ n ih =>
    change (if (c.current.kind == .colon || c.current.endsStatement) = true then _ else _ :
      Parser (List Token)) c = _ at h
    split at h
    · cases h
      simp
    · next hends =>
      obtain ⟨_, c₁, -, h⟩ := bind_eq_ok.mp h
      obtain ⟨rest, c₂, hrest, h⟩ := bind_eq_ok.mp h
      cases h
      refine List.forall_mem_cons.mpr ⟨?_, ih hrest⟩
      simp only [Bool.or_eq_true, not_or, Bool.not_eq_true] at hends
      exact hends.2

theorem endsStatement_of_macroArguments {args : List (List Token)}
    (h : macroArguments n c = .ok args c') : ∀ arg ∈ args, ∀ t ∈ arg, t.endsStatement = false := by
  induction n generalizing c args with
  | zero =>
    cases h
    simp
  | succ n ih =>
    obtain ⟨more, c₁, -, h⟩ := bind_eq_ok.mp h
    cases more with
    | false =>
      cases h
      simp
    | true =>
      obtain ⟨_, c₂, -, h⟩ := bind_eq_ok.mp h
      obtain ⟨arg, c₃, harg, h⟩ := bind_eq_ok.mp h
      split at h
      · cases h
      · obtain ⟨rest, c₄, hrest, h⟩ := bind_eq_ok.mp h
        cases h
        exact List.forall_mem_cons.mpr ⟨endsStatement_of_argumentTokens harg, ih hrest⟩

end Parser

/-! ## What a body stands for -/

/-- The tokens that one in the body of a macro stands for : if it is the name of a parameter, those
of the argument at the same place, and otherwise it alone. The first parameter of a name counts. -/
inductive Token.StandsFor (params : List String) (args : List (List Token)) (t : Token) :
    List Token → Prop
  | parameter {i : Nat} {arg : List Token} (name : t.kind = .name)
    (param : params[i]? = some t.text) (first : ∀ j < i, params[j]? ≠ some t.text)
    (argument : args[i]? = some arg) : StandsFor params args t arg
  | other (h : t.kind = .name → t.text ∉ params) : StandsFor params args t [t]

/-- The tokens that those in the body of a macro stand for, one behind the other. -/
def MacroDef.StandsFor (d : MacroDef) (args : List (List Token)) (ts : List Token) : Prop :=
  ∃ parts, List.Forall₂ (Token.StandsFor d.params args) d.body parts ∧ parts.flatten = ts

variable {params : List String}

/-- The first parameter of a name is bound to the argument at its place. -/
theorem find?_zip_eq_some_iff {args : List (List Token)} {name : String} {arg : List Token} :
    (params.zip args).find? (·.1 == name) = some (name, arg) ↔
      ∃ i : Nat, params[i]? = some name ∧ (∀ j < i, params[j]? ≠ some name) ∧
        args[i]? = some arg := by
  rw [List.find?_eq_some_iff_getElem]
  constructor
  · rintro ⟨-, i, hi, hb, hfirst⟩
    have hboth : i < params.length ∧ i < args.length := by simpa using hi
    rw [List.getElem_zip, Prod.mk.injEq] at hb
    refine ⟨i, List.getElem?_eq_some_iff.mpr ⟨hboth.1, hb.1⟩, fun j hj hparam => ?_,
      List.getElem?_eq_some_iff.mpr ⟨hboth.2, hb.2⟩⟩
    obtain ⟨_, hname⟩ := List.getElem?_eq_some_iff.mp hparam
    simpa [hname] using hfirst j hj
  · rintro ⟨i, hparam, hfirst, harg⟩
    obtain ⟨hi, hname⟩ := List.getElem?_eq_some_iff.mp hparam
    obtain ⟨hi', harg⟩ := List.getElem?_eq_some_iff.mp harg
    refine ⟨beq_self_eq_true _, i, by simpa using ⟨hi, hi'⟩, ?_, fun j hj => ?_⟩
    · rw [List.getElem_zip, hname, harg]
    · have hne := hfirst j hj
      rw [List.getElem?_eq_getElem (hj.trans hi)] at hne
      simpa using hne

theorem find?_zip_eq_none {args : List (List Token)} {name : String}
    (hlen : params.length = args.length) (h : (params.zip args).find? (·.1 == name) = none) :
    name ∉ params := by
  intro hmem
  rw [← List.map_fst_zip (Nat.le_of_eq hlen)] at hmem
  obtain ⟨b, hb, rfl⟩ := List.mem_map.mp hmem
  simpa using List.find?_eq_none.mp h b hb

theorem Token.standsFor_iff {args : List (List Token)} (hlen : params.length = args.length)
    {t : Token} {ts : List Token} :
    t.StandsFor params args ts ↔ substitute (params.zip args) t = ts := by
  unfold substitute
  by_cases hkind : t.kind = .name
  · rw [if_pos (beq_iff_eq.mpr hkind)]
    cases hfind : (params.zip args).find? (·.1 == t.text) with
    | none =>
      have hnot := find?_zip_eq_none hlen hfind
      constructor
      · rintro (⟨-, hparam, -, -⟩ | -)
        · exact absurd (List.mem_of_getElem? hparam) hnot
        · rfl
      · rintro rfl
        exact .other fun _ => hnot
    | some b =>
      obtain ⟨name, arg⟩ := b
      obtain rfl : name = t.text := by simpa using List.find?_some hfind
      constructor
      · rintro (⟨-, hparam, hfirst, hargument⟩ | hnot)
        · have hbound := find?_zip_eq_some_iff.mpr ⟨_, hparam, hfirst, hargument⟩
          cases hfind.symm.trans hbound
          rfl
        · have hmem := (List.of_mem_zip (List.mem_of_find?_eq_some hfind)).1
          exact absurd hmem (hnot hkind)
      · rintro rfl
        obtain ⟨i, hparam, hfirst, hargument⟩ := find?_zip_eq_some_iff.mp hfind
        exact .parameter hkind hparam hfirst hargument
  · rw [if_neg (by simpa using hkind)]
    constructor
    · rintro (⟨hname, -, -, -⟩ | -)
      · exact absurd hname hkind
      · rfl
    · rintro rfl
      exact .other fun hname => absurd hname hkind

theorem MacroDef.standsFor_iff {d : MacroDef} {args : List (List Token)}
    (hlen : d.params.length = args.length) {ts : List Token} :
    d.StandsFor args ts ↔ d.expand args = ts := by
  have hparts (parts : List (List Token)) :
      List.Forall₂ (Token.StandsFor d.params args) d.body parts ↔
        d.body.map (substitute (d.params.zip args)) = parts := by
    rw [← List.forall₂_eq_eq_eq, List.forall₂_map_left_iff]
    exact ⟨.imp fun _ _ => (Token.standsFor_iff hlen).mp,
      .imp fun _ _ => (Token.standsFor_iff hlen).mpr⟩
  unfold StandsFor expand
  simp only [hparts, exists_eq_left', List.flatMap_def]

/-- What a macro stands for has no end of a text in it if neither its body nor its arguments do. -/
theorem MacroDef.isEnd_of_mem_expand {d : MacroDef} {args : List (List Token)} {t : Token}
    (hbody : ∀ t ∈ d.body, t.isEnd = false) (hargs : ∀ arg ∈ args, ∀ t ∈ arg, t.isEnd = false)
    (ht : t ∈ d.expand args) : t.isEnd = false := by
  obtain ⟨u, hu, ht⟩ := List.mem_flatMap.mp ht
  have hself : t ∈ [u] → t.isEnd = false := fun h => by
    rw [List.mem_singleton.mp h]
    exact hbody u hu
  unfold substitute at ht
  split at ht
  · split at ht
    · next b hfind =>
      have hb := List.of_mem_zip (List.mem_of_find?_eq_some hfind)
      exact hargs b.2 hb.2 t ht
    · exact hself ht
  · exact hself ht

namespace Assembler

/-- No macro has the end of a text in its body. -/
def MacrosOpen (s : Assembler) : Prop := ∀ d ∈ s.macros, ∀ t ∈ d.2.body, t.isEnd = false

variable {s s' t u : Assembler} {k : Nat}

theorem Yields.exists_defines {d : String × MacroDef} (h : s.Yields d) :
    ∃ t : Assembler, t.Defines d := by
  rcases h with h | ⟨t, -, h⟩
  · exact ⟨s, h⟩
  · exact ⟨t, h⟩

theorem MacrosOpen.leaves {D : String × MacroDef → Prop} (hs : s.MacrosOpen) (h : Leaves D s s')
    (hD : ∀ d, D d → ∃ t : Assembler, t.Defines d) : s'.MacrosOpen := by
  obtain ⟨added, hmacros, hadded, -⟩ := h
  intro d hd
  rw [hmacros] at hd
  rcases List.mem_append.mp hd with hd | hd
  · exact hs d hd
  · obtain ⟨t, hdefines⟩ := hD d ((hadded d).mp hd)
    obtain ⟨c, hreads⟩ := hdefines.reads
    exact Parser.isEnd_of_macroDefinition hreads

theorem MacrosOpen.of_eq (hs : s.MacrosOpen) (h : s'.macros = s.macros) : s'.MacrosOpen := by
  unfold MacrosOpen
  rwa [h]

/-- A statement defines macros as they are read. -/
theorem MacrosOpen.passes (hs : s.MacrosOpen) (hc : s.Consistent) (h : s.Passes t) :
    t.MacrosOpen := by
  have hleaves := hc.leaves
  obtain ⟨-, s₁, hok, rfl⟩ := h
  rw [first, hok] at hleaves
  exact (hs.leaves hleaves fun d hd => hd.exists_defines).of_eq (macros_counted s₁)

theorem MacrosOpen.visits (hs : s.MacrosOpen) (hc : s.Consistent) (h : s.Visits k t) :
    t.MacrosOpen := by
  induction h with
  | start => exact hs
  | pass hvisits hpass ih => exact ih.passes (hvisits.consistent hc) hpass
  | enter _ henter ih =>
    obtain ⟨-, -, tokens, s₁, huse, rfl⟩ := henter
    obtain ⟨c, rfl, -⟩ := Asm.macroUse_eq_ok huse
    exact ih.of_eq rfl

theorem invariant_macrosOpen : Invariant MacrosOpen where
  movedTo _ hopen := hopen.of_eq rfl
  takes h hs hopen := hopen.passes hs.consistent (hs.takes_iff.mp h)
  fails h hs hopen := (hopen.leaves (h.leaves hs) fun _ ⟨t, _, hd⟩ => ⟨t, hd⟩).of_eq rfl

theorem Reachable.macrosOpen {name : String} (h : Reachable name s) : s.MacrosOpen :=
  invariant_macrosOpen.reachable (fun _ hd => (List.not_mem_nil hd).elim) h

end Assembler

/-! ## Statements in the place of the use -/

namespace Course

variable {w : Course} {s s' s₁ u : Assembler} {n k : Nat}

/-- The second assembler has counted `count` statements. -/
def withCount (w : Course) (count : Nat) : Course := { w with count := count }

/-- Two assemblers that have made the same, with their cursors at one place but for empty lines. -/
def Aligned (w : Course) (s s' : Assembler) : Prop :=
  ∃ c', s.cursor.Aligned w.toPassage c' ∧ s.depth = w.depth ∧ s' = w.twin s c'

theorem counted_twin (w : Course) (s : Assembler) (c' : Cursor) :
    ∃ count, (w.twin s c').counted = (w.withCount count).twin s c' := by
  unfold Assembler.counted
  split
  · exact ⟨w.count + 1, rfl⟩
  · exact ⟨w.count, rfl⟩

theorem Aligned.onLine (h : w.Aligned s s') : w.Aligned s.onLine s' := by
  obtain ⟨c', ⟨d, d', hd, hc, hc'⟩, hdepth, rfl⟩ := h
  exact ⟨c', ⟨d, d', hd, (Cursor.skipNewlines_skipNewlines _).trans hc, hc'⟩, hdepth, rfl⟩

/-- A statement that passes in the first list passes in the second. -/
theorem Aligned.passes (h : w.Aligned s s') (hn : w.depth + n = maxDepth)
    (hend : s.onLine.cursor.atEnd = false)
    (hok : Asm.statement (Asm.expansion n) s.onLine = .ok () s₁) :
    ∃ count s₁', s'.Passes s₁' ∧ (w.withCount count).Aligned s₁ s₁' := by
  obtain ⟨c', hc, hdepth, rfl⟩ := h
  obtain ⟨hline, hlt⟩ := hc.abreast hend
  have hroom : w.depth' + (maxDepth - w.depth') = maxDepth := by
    have := w.shallower
    omega
  have habreast : Assembler.Abreast w s.onLine (w.twin s c').onLine :=
    ⟨c'.skipNewlines, hline, hdepth, rfl⟩
  obtain ⟨u, u', ⟨d', hd, hdepth₁, rfl⟩, rfl, hok'⟩ :=
    Asm.echoed_statement (Asm.echoes_statementBody w hn hroom) habreast hok
  have hend' : (w.twin s c').onLine.cursor.atEnd = false := by
    change c'.skipNewlines.current.isEnd = false
    rw [hline.current_eq_of_lt hlt]
    exact hend
  obtain ⟨count, hcount⟩ := w.counted_twin u.onLine d'.skipNewlines
  exact ⟨count, _, Assembler.passes_of_ok rfl hend' hok', d'.skipNewlines, hd.aligned_skipNewlines,
    hdepth₁, hcount⟩

/-- All statements up to the end of the first list pass in the second. -/
theorem Aligned.run (h : w.Aligned s s') (hn : w.depth + n = maxDepth) (hdeep : 0 < w.depth)
    (hs : s.Consistent) (hk : s.cursor.remaining < k)
    (hok : Asm.statements (Asm.expansion n) k s = .ok () u) :
    ∃ count u', Relation.ReflTransGen Assembler.Passes s' u' ∧ (w.withCount count).Aligned u u' ∧
      u.onLine.cursor.atEnd = true := by
  have hroom : ∀ {w : Course} {s s' : Assembler}, w.Aligned s s' → w.depth + n = maxDepth →
      maxDepth - s.depth = n := by
    rintro w s s' ⟨-, -, hdepth, -⟩ hn
    omega
  have honward : s.onward k = .ok () u := by rw [Assembler.onward, hroom h hn, hok]
  refine (hs.walk (P := fun _ => True) (Q := fun s r => ∀ w s', Aligned w s s' →
    w.depth + n = maxDepth → 0 < w.depth → r = .ok () u → ∃ count u',
      Relation.ReflTransGen Assembler.Passes s' u' ∧ (w.withCount count).Aligned u u' ∧
        u.onLine.cursor.atEnd = true) (fun _ _ _ => trivial) (fun _ _ _ _ _ => trivial)
    ?_ ?_ ?_).2 k hk w s' h hn hdeep honward
  · rintro s hend w s' h - - ⟨⟩
    refine ⟨w.count, s', .refl, h.onLine, ?_⟩
    change s.cursor.skipNewlines.skipNewlines.atEnd = true
    rwa [Cursor.skipNewlines_skipNewlines]
  · rintro s t r - ⟨hend, s₁, hstatement, rfl⟩ - ih w s' h hn hdeep hr
    rw [hroom h hn] at hstatement
    obtain ⟨count, s₁', hpasses, h₁⟩ := h.passes hn hend hstatement
    have hcounted : s₁.counted = s₁ := by
      obtain ⟨-, -, hdepth, -⟩ := id h₁
      exact Asm.counted_of_depth (n := w.depth - 1)
        (hdepth.trans (Nat.succ_pred_eq_of_pos hdeep).symm)
    rw [hcounted] at ih
    obtain ⟨count', u', hrun, hu⟩ := ih _ _ h₁ hn hdeep hr
    exact ⟨count', u', .head hpasses hrun, hu⟩
  · rintro s e t - - - - w s' - - - ⟨⟩

end Course

namespace Assembler

variable {s s₀ t : Assembler} {d : MacroDef} {args : List (List Token)} {c : Cursor} {k : Nat}

/-- The statement under the cursor is a use of the macro `d` with the arguments `args`, and `c` is
behind them. -/
structure Calls (s : Assembler) (d : MacroDef) (args : List (List Token)) (c : Cursor) : Prop where
  kind : s.onLine.cursor.current.kind = .name
  opcode : Opcode.ofName? s.onLine.cursor.current.text = none
  found : s.findMacro? s.onLine.cursor.current.text = some d
  arguments : Parser.macroArguments s.onLine.cursor.next.remaining s.onLine.cursor.next = .ok args c

theorem Calls.isEnd_of_mem_expand (h : s.Calls d args c) (hs : s.MacrosOpen) :
    ∀ t ∈ d.expand args, t.isEnd = false := by
  intro t ht
  obtain ⟨m, hm, hd⟩ := Option.map_eq_some_iff.mp h.found
  refine MacroDef.isEnd_of_mem_expand ?_ (fun arg harg t ht => ?_) ht
  · rw [← hd]
    exact hs m (List.mem_of_find?_eq_some hm)
  · have hends := Parser.endsStatement_of_macroArguments h.arguments arg harg t ht
    simp only [Token.endsStatement, Bool.or_eq_false_iff] at hends
    exact hends.2

/-- A use of a macro that passes assembles all statements that it stands for, and goes on behind its
arguments at the end of its line. -/
theorem Calls.passes_cases (h : s.Calls d args c) (hpass : s.Passes t) :
    c.current.endsStatement = true ∧ d.params.length = args.length ∧
      ∃ n stop v, s.depth + 1 + n = maxDepth ∧
      Asm.statements (Asm.expansion n) (((d.expand args).toArray.push (.endOfCode stop)).size + 1)
        { s with
          cursor := ⟨(d.expand args).toArray.push (.endOfCode stop), 0⟩, depth := s.depth + 1 } =
        .ok () v ∧
      t = ({ v with cursor := c.skipNewlines, depth := v.depth - 1 } : Assembler).counted := by
  obtain ⟨-, s₁, hok, rfl⟩ := hpass
  obtain ⟨_, s₂, hbody, hok⟩ := bind_eq_ok.mp hok
  obtain ⟨_, c₃, hexpect, hok⟩ := Asm.ofParser_bind_eq_ok.mp hok
  obtain ⟨hends, rfl⟩ := Asm.expectEnd_eq_ok.mp hexpect
  cases hok
  rcases Asm.statementBody_cases (Asm.expansion (maxDepth - s.depth)) s.onLine with
    ⟨hmark, -⟩ | ⟨op, hsome, -, -⟩ | ⟨-, -, huse⟩ | ⟨-, hunknown, -⟩
  · cases h.kind.symm.trans hmark
  · cases h.opcode.symm.trans hsome
  · rw [huse] at hbody
    cases hn : maxDepth - s.depth with
    | zero =>
      rw [hn] at hbody
      obtain ⟨_, _, huse, -⟩ := bind_eq_ok.mp hbody
      obtain ⟨_, _, _, -, -, -, hroom, -⟩ := Asm.macroUse_spec huse
      change s.depth < maxDepth at hroom
      omega
    | succ n =>
      rw [hn] at hbody
      obtain ⟨_, _, huse, hbody⟩ := bind_eq_ok.mp hbody
      obtain ⟨d', args', c', hfound, hargs, hlen, -, rfl, rfl⟩ := Asm.macroUse_spec huse
      cases h.found.symm.trans hfound
      cases h.arguments.symm.trans hargs
      unfold Asm.nested at hbody
      split at hbody
      · next v hv =>
        cases hbody
        exact ⟨hends, hlen.symm, n, _, v, by omega, hv, rfl⟩
      · cases hbody
  · cases (hunknown h.kind).symm.trans h.found

/-- Tokens in the place of a use of a macro, between others, with the end of the use behind them. -/
def inlined (front : Array Token) (ts : List Token) (stop : Token) (more : Array Token) :
    Array Token :=
  front ++ ts.toArray ++ (#[stop] ++ more)

theorem getElem?_zero_singleton_append (stop : Token) (more : Array Token) :
    (#[stop] ++ more)[0]? = some stop := by
  rw [Array.getElem?_append_left (by simp)]
  rfl

theorem endsStatement_of_mem_endOfCode {p : Position} {t : Token} (h : t ∈ #[Token.endOfCode p]) :
    t.endsStatement = true ∧ t.text ≠ "end" := by
  rw [Array.mem_singleton.mp h]
  exact ⟨rfl, show "" ≠ "end" by decide⟩

/-- The tokens that a use of a macro stands for, in the list that the use makes of them and in the
place of the use. -/
def callCourse (s : Assembler) (ts : List Token) (front more : Array Token) (eoc : Position)
    (stop : Token) (hstop : stop.endsStatement = true) : Course where
  shared := ts.toArray
  ending := #[.endOfCode eoc]
  front := front
  behind := #[stop] ++ more
  ending_pos := Nat.one_pos
  ends _ := endsStatement_of_mem_endOfCode
  ends' := ⟨stop, getElem?_zero_singleton_append stop more, hstop⟩
  depth := s.depth + 1
  depth' := s.depth
  count := s.statements
  shallower := Nat.le_succ _

/-- A use of a macro stands for its body with the arguments in place of the parameters, which is one
list of tokens. Wherever the use stands, if it passes, then so do the statements of these tokens
between any others, up to the end of the use behind them, and they leave the same module, scopes,
index, positions of references and macros. -/
theorem passes_inlined {name : String} {tokens : Array Token} (hs : Reachable name s₀)
    (hvisits : (s₀.fedWith tokens).Visits k s) (hcall : s.Calls d args c) (hpass : s.Passes t) :
    ∃ ts, (∀ ts', d.StandsFor args ts' ↔ ts' = ts) ∧ ∀ front more : Array Token,
      ∃ u, Relation.ReflTransGen Passes
          (s.movedTo ⟨inlined front ts c.current more, front.size⟩) u ∧
        u = { t with cursor := u.cursor, statements := u.statements } ∧
        u.onLine.cursor = (⟨inlined front ts c.current more,
          front.size + ts.length⟩ : Cursor).skipNewlines := by
  have hsettled := hs.settled.fedWith tokens
  have hmacros : (s₀.fedWith tokens).MacrosOpen := hs.macrosOpen.of_eq rfl
  have hconsistent := hvisits.consistent hsettled.consistent
  obtain ⟨hends, hlen, n, eoc, v, hn, hok, rfl⟩ := hcall.passes_cases hpass
  refine ⟨d.expand args, fun ts' => (MacroDef.standsFor_iff hlen).trans eq_comm,
    fun front more => ?_⟩
  let w := s.callCourse (d.expand args) front more eoc c.current hends
  have hopen := hcall.isEnd_of_mem_expand (hmacros.visits hsettled.consistent hvisits)
  have hstart : w.Aligned
      { s with cursor := ⟨(d.expand args).toArray.push (.endOfCode eoc), 0⟩, depth := s.depth + 1 }
      (s.movedTo ⟨inlined front (d.expand args) c.current more, front.size⟩) :=
    ⟨_, ⟨_, _, ⟨rfl, rfl, rfl, Nat.zero_le _⟩, rfl, rfl⟩, rfl, rfl⟩
  obtain ⟨count, u, hrun, ⟨c', hc, hdepth, rfl⟩, hatEnd⟩ :=
    hstart.run hn (Nat.succ_pos _) (hconsistent.of_eq rfl rfl rfl rfl) (by simp [Cursor.remaining]) hok
  refine ⟨_, hrun, ?_, ?_⟩
  · have hv : v.depth - 1 = s.depth := by
      rw [hdepth]
      rfl
    unfold counted
    rw [hv]
    split
    · rfl
    · rfl
  · rcases hc.line with ⟨hline, hlt⟩ | ⟨-, hline⟩
    · have hmem := hopen _ (List.mem_toArray.mp (hline.current_mem hlt))
      cases hatEnd.symm.trans hmem
    · exact hline

/-- A scope with a label and a jump to it, a macro, and a use of that with `v`. -/
def blockTokens (v : TokenKind × String) : List Token :=
  let words : List (TokenKind × String) :=
    [(.newline, "\n"), (.directive, "#"), (.name, "scope"), (.name, "here"), (.newline, "\n"),
      (.directive, "#"), (.name, "label"), (.name, "again"), (.newline, "\n"),
      (.name, "jmp"), (.colon, ":"), (.name, "again"), (.newline, "\n"),
      (.directive, "#"), (.name, "macro"), (.name, "once"), (.colon, ":"), (.name, "w"),
      (.newline, "\n"), (.name, "mov"), (.dot, "."), (.name, "u8"), (.colon, ":"),
      (.register, "$"), (.name, "ac"), (.colon, ":"), (.name, "w"), (.newline, "\n"),
      (.directive, "#"), (.name, "end"), (.newline, "\n"),
      (.name, "once"), (.colon, ":"), v, (.newline, "\n"),
      (.directive, "#"), (.name, "end"), (.newline, "\n")]
  words.map fun w => ⟨w.1, w.2, .start⟩

/-- A macro of which this is the body, with `v` as its parameter. -/
def block : MacroDef := ⟨["v"], blockTokens (.name, "v")⟩

/-- The definition of that macro, and a scope that stays open. -/
def blockDefinition : Array Token :=
  #[⟨.directive, "#", .start⟩, ⟨.name, "macro", .start⟩, ⟨.name, "block", .start⟩,
    ⟨.colon, ":", .start⟩, ⟨.name, "v", .start⟩] ++ block.body.toArray ++
  #[⟨.directive, "#", .start⟩, ⟨.name, "end", .start⟩, ⟨.newline, "\n", .start⟩,
    ⟨.directive, "#", .start⟩, ⟨.name, "scope", .start⟩, ⟨.name, "outer", .start⟩,
    ⟨.newline, "\n", .start⟩]

/-- In that scope, in front of a use of the macro with `7`. -/
def blockUse : Assembler :=
  (((empty "m").feed (blockDefinition.push (.endOfCode .start))).2).fedWith
    (blockDefinition ++ #[⟨.name, "block", .start⟩, ⟨.colon, ":", .start⟩, ⟨.integer, "7", .start⟩,
      ⟨.newline, "\n", .start⟩, .endOfCode .start])

theorem passes_inlined_block :
    ∃ c t u, blockUse.Calls block [[⟨.integer, "7", .start⟩]] c ∧ blockUse.Passes t ∧
      (t.macros.map (·.1), t.scopes.map (·.name), t.object.symbols.length) =
        (["block", "once"], ["outer"], 1) ∧
      t.object.code.toList = [80, 15, 0, 0, 0, 0, 0, 0, 0, 0, 0, 0,
        16, 4, 0, 0, 32, 0, 0, 0, 0, 0, 0, 160, 7] ∧
      block.StandsFor [[⟨.integer, "7", .start⟩]] (blockTokens (.integer, "7")) ∧
      Relation.ReflTransGen Passes (blockUse.movedTo
        ⟨inlined #[] (blockTokens (.integer, "7")) c.current #[], 0⟩) u ∧
      u = { t with cursor := u.cursor, statements := u.statements } := by
  have hcall : blockUse.Calls block [[⟨.integer, "7", .start⟩]] _ :=
    ⟨by decide +kernel, by decide +kernel, by decide +kernel,
      eq_ok_of_outcome (by decide +kernel)⟩
  have hpass : blockUse.Passes _ :=
    passes_of_ok rfl (by decide +kernel) (eq_ok_of_outcome (by decide +kernel))
  have hstands : block.StandsFor [[⟨.integer, "7", .start⟩]] (blockTokens (.integer, "7")) :=
    (MacroDef.standsFor_iff rfl).mpr (by decide +kernel)
  obtain ⟨ts, hts, hinlined⟩ :=
    passes_inlined (.feed _ .empty : Reachable "m" _) .start hcall hpass
  obtain rfl := (hts _).mp hstands
  obtain ⟨u, hrun, hu, -⟩ := hinlined #[] #[]
  exact ⟨_, _, u, hcall, hpass, by decide +kernel, by decide +kernel, hstands, hrun, hu⟩

end Assembler

end CellMachine
