import CellMachine.Proofs.Assembly.Lines
import CellMachine.Proofs.Assembly.Positions
import CellMachine.Proofs.Assembly.Unfilled
import CellMachine.Proofs.NameMap

/-!
# Names for numbers

A program is known by its words, the kinds and texts of its tokens (`Spelled`). An instruction with
a name in the place of a number is written with that slot open (`Assembler.Opened`), and what the
number fills it with is what the rest of the program has to find (`Assembler.Filled`). If the name
is an alias in the same module, finishing the module does so : it is the module of the instruction
with the number, with one more symbol (`Replaceable.assemble_before`,
`Replaceable.assemble_behind`). If the module has no such name, the slot stays open
(`Replaceable.assemble_apart`).
-/

namespace CellMachine

open Assembler (scopeLine endLine aliasLine)

/-! ## Words -/

/-- The kinds and texts of the tokens of some lines. -/
abbrev Words := List (TokenKind × String)

/-- These lines inside scopes, the outermost first. -/
def inScopes (path : List String) (words : Words) : Words :=
  path.flatMap scopeLine ++ words ++ (List.replicate path.length endLine).flatten

/-- The line of an instruction. -/
def instructionLine (ts : List Token) : Words := ts.map Token.spelling ++ [(.newline, "\n")]

/-- The tokens are these words and the end of the text, wherever in it they stand. -/
def Spelled (tokens : Array Token) (words : Words) : Prop :=
  ∃ lines stop, tokens = (lines ++ [Token.endOfCode stop]).toArray ∧
    lines.map Token.spelling = words

/-- The tokens of these words, all of them at the start of the text. -/
def tokensOf (words : Words) : Array Token :=
  (words.map (fun w => (⟨w.1, w.2, .start⟩ : Token)) ++ [Token.endOfCode .start]).toArray

theorem spelled_tokensOf (words : Words) : Spelled (tokensOf words) words :=
  ⟨_, _, rfl, by simp [Token.spelling, Function.comp_def]⟩

theorem exists_of_inScopes {lines : List Token} {path : List String} {words : Words}
    (h : lines.map Token.spelling = inScopes path words) :
    ∃ opening body closing, lines = opening ++ body ++ closing ∧
      opening.map Token.spelling = path.flatMap scopeLine ∧ body.map Token.spelling = words ∧
      closing.map Token.spelling = (List.replicate path.length endLine).flatten := by
  obtain ⟨_, closing, rfl, h, hclosing⟩ := List.map_eq_append_iff.mp h
  obtain ⟨opening, body, rfl, hopening, hbody⟩ := List.map_eq_append_iff.mp h
  exact ⟨opening, body, closing, rfl, hopening, hbody, hclosing⟩

theorem exists_of_instructionLine {lines ts : List Token}
    (h : lines.map Token.spelling = instructionLine ts) :
    ∃ ts' e, lines = ts' ++ [e] ∧ ts'.map Token.spelling = ts.map Token.spelling ∧
      e.kind = .newline := by
  obtain ⟨ts', _, rfl, hts, hlast⟩ := List.map_eq_append_iff.mp h
  obtain ⟨e, _, rfl, he, hnil⟩ := List.map_eq_cons_iff.mp hlast
  cases List.map_eq_nil_iff.mp hnil
  have hkind : e.kind = .newline := congrArg Prod.fst he
  exact ⟨ts', e, rfl, hts, hkind⟩

/-- An alias takes every number of 64 bits with a sign. -/
theorem Value.exists_ofInt?_i64 {n : Int} (h : -2 ^ 63 ≤ n ∧ n < 2 ^ 63) :
    ∃ v, ofInt? n .i64 = some v := by
  have hbounds : minInt true Width.w64.bits ≤ n ∧ n ≤ maxInt true Width.w64.bits := by
    have hmin : minInt true Width.w64.bits = -2 ^ 63 := rfl
    have hmax : maxInt true Width.w64.bits = 2 ^ 63 - 1 := rfl
    omega
  exact ⟨_, if_pos hbounds⟩

/-! ## Finishing a module with one reference -/

namespace Assembler

variable {u : Assembler} {r : Reference} {y : Symbol} {o : Object}

/-- What is left to do for a single reference. -/
theorem finish_of_single (hscopes : u.scopes = []) (hrefs : u.object.unresolved = [r])
    (hplaces : u.positions.length = 1) : ∃ p, u.finish =
      u.bindReferences { u.object with unresolved := [] } [(r, p)] := by
  obtain ⟨p, hp⟩ := List.length_eq_one_iff.mp hplaces
  refine ⟨p, ?_⟩
  unfold finish
  rw [hscopes, hrefs, hp]
  rfl

/-- A reference to a number is bound to it if it fits. -/
theorem finish_eq_ok_iff_of_lookup (hscopes : u.scopes = []) (hrefs : u.object.unresolved = [r])
    (hplaces : u.positions.length = 1) (hy : u.lookup r.scope r.name = some y)
    (hpaged : y.value.isPaged = false) :
    u.finish = .ok o ↔ ∃ v, y.value.fit? r.datatype = some v ∧
      r.offset + r.datatype.size ≤ u.object.code.size ∧
      o = { u.object with
        code := u.object.code.write r.offset (v.toCell.bytes r.datatype), unresolved := [] } := by
  obtain ⟨p, hfinish⟩ := finish_of_single hscopes hrefs hplaces
  rw [hfinish]
  simp only [bindReferences, hy, hpaged, patchCell?]
  cases y.value.fit? r.datatype with
  | none => simp
  | some v =>
    by_cases hle : r.offset + r.datatype.size ≤ u.object.code.size
    · simp [hle, eq_comm]
    · simp [hle]

/-- A reference to a name that the module does not have is left to the linker. -/
theorem finish_eq_ok_iff_of_lookup_eq_none (hscopes : u.scopes = [])
    (hrefs : u.object.unresolved = [r]) (hplaces : u.positions.length = 1)
    (hnone : u.lookup r.scope r.name = none) :
    u.finish = .ok o ↔ o = { u.object with unresolved := [{ r with scope := [] }] } := by
  obtain ⟨p, hfinish⟩ := finish_of_single hscopes hrefs hplaces
  rw [hfinish]
  simp only [bindReferences, hnone]
  simp [eq_comm]

variable {a s : Assembler}

theorem lookup_congr {t : Assembler} (hindex : s.index = t.index)
    (hsymbols : s.object.symbols = t.object.symbols) : s.lookup = t.lookup := by
  funext path name
  unfold lookup symbol?
  rw [hindex, hsymbols]

/-- A module with a single symbol finds it from inside every scope that it is in. -/
theorem lookup_withSymbol (outer inner : List String) {x : String} (hindex : s.index = ∅)
    (hsymbols : s.object.symbols = []) (hy : y.name = qualify outer x) :
    (s.withSymbol y).lookup (outer ++ inner) x = some y := by
  have hsymbol (full : String) :
      (s.withSymbol y).symbol? full = if full = y.name then some y else none := by
    unfold symbol? withSymbol
    simp only [hindex, hsymbols, NameMap.get?_insert, NameMap.get?_empty]
    split
    · simp
    · simp
  have hmem : y.name ∈ candidates (outer ++ inner) x := by
    unfold candidates
    refine List.mem_map.mpr ⟨outer.length, by simp, ?_⟩
    rw [List.take_left, hy]
  unfold lookup
  generalize candidates (outer ++ inner) x = names at hmem
  induction names with
  | nil => cases hmem
  | cons full rest ih =>
    rw [List.findSome?_cons, hsymbol]
    by_cases hfull : full = y.name
    · rw [if_pos hfull]
    · rw [if_neg hfull]
      exact ih ((List.mem_cons.mp hmem).resolve_left (Ne.symm hfull))

theorem lookup_of_index_eq_empty (h : s.index = ∅) (path : List String) (x : String) :
    s.lookup path x = none := by
  unfold lookup
  rw [List.findSome?_eq_none_iff]
  intro full _
  unfold symbol?
  rw [h, NameMap.get?_empty]
  rfl

/-! ## The slot of the name -/

/-- Nothing but symbols and scopes has been made of a module so far. -/
structure Unwritten (name : String) (a : Assembler) : Prop where
  object : a.object = { Object.empty name with symbols := a.object.symbols }
  positions : a.positions = []
  cursor : a.cursor = .empty

theorem Unwritten.withOutput {name : String} (h : a.Unwritten name) :
    a.withOutput (.empty name) = a := by
  have hobject := h.object
  have hcursor := h.cursor
  cases a
  dsimp only at hobject hcursor
  subst hcursor
  unfold Assembler.withOutput
  congr 1
  rw [hobject]
  rfl

theorem Unwritten.empty_withOutput {name : String} (h : a.Unwritten name) :
    (Assembler.empty name).withOutput a = .empty name := by
  unfold Assembler.withOutput
  rw [h.object, h.cursor]
  rfl

/-- An instruction has been written behind `a`, with the slot of a reference to `x` left open. -/
structure Opened (x : String) (a t : Assembler) (r : Reference) : Prop where
  name : r.name = x
  scope : r.scope = a.path
  recorded : ∃ p, t = (a.withOutput t).recorded r p

/-- Where the reference was written makes no difference. -/
theorem Opened.of_repositioned {x name : String} {t t' : Assembler} (h : Opened x a t r)
    (ha : a.Unwritten name) (ht : t.Repositioned t') : Opened x a t' r := by
  obtain ⟨ps, rfl, hlength⟩ := ht
  obtain ⟨p, hp⟩ := h.recorded
  have hplaces : t.positions = a.positions ++ [p] := congrArg Assembler.positions hp
  rw [hplaces, ha.positions] at hlength
  obtain ⟨p', rfl⟩ := List.length_eq_one_iff.mp hlength
  refine ⟨h.name, h.scope, p', ?_⟩
  have hmoved := congrArg (fun u : Assembler => { u with positions := [p'] }) hp
  refine hmoved.trans ?_
  unfold Assembler.recorded Assembler.withOutput
  rw [ha.positions]
  rfl

/-- The output is what there is in `b`, but for the slot, which is filled there with the number. -/
structure Filled (l : IntLiteral) (b t : Assembler) (r : Reference) (v : Value) : Prop where
  value : Value.ofInt? l.toInt r.datatype = some v
  holds : b.object.code.Holds r.offset (v.toCell.bytes r.datatype)
  code : t.object.code = b.object.code.write r.offset (List.replicate r.datatype.size 0)
  static : t.object.static = b.object.static
  relocations : t.object.relocations = b.object.relocations

end Assembler

/-- An instruction without names that has the number `l` for an operand, and a name that can stand
in its place. -/
structure Replaceable (j : SourceInstruction) (front : List Token) (number : Token)
    (back : List Token) (l : IntLiteral) (x : String) : Prop where
  read : j.ReadFrom (front ++ number :: back)
  opcode : j.opcode ≠ .convert
  names : ∀ p ∈ j.operands, ∀ n, p.2.term ≠ .name n
  number : SourceInstruction.NumberBehind front number l
  range : -2 ^ 63 ≤ l.toInt ∧ l.toInt < 2 ^ 63
  zero : l.negative = true → l.magnitude ≠ 0
  fresh : Datatype.ofName? x = none

namespace SourceInstruction.ReadFrom

/-- Only calls have typed arguments. -/
theorem variadic {j : SourceInstruction} {ts : List Token} (h : j.ReadFrom ts) (hargs : j.args ≠ []) :
    j.opcode.layout.variadic = true := by
  obtain ⟨d, hreads, -⟩ := h.reads
  obtain ⟨t, c₁, -, hreads⟩ := bind_eq_ok.mp hreads
  obtain ⟨_, c₂, -, hreads⟩ := bind_eq_ok.mp hreads
  obtain ⟨dt, c₃, -, hreads⟩ := bind_eq_ok.mp hreads
  obtain ⟨fixed, c₄, -, hreads⟩ := bind_eq_ok.mp hreads
  obtain ⟨args, c₅, hread, hreads⟩ := bind_eq_ok.mp hreads
  by_contra hvariadic
  rw [if_neg hvariadic] at hread
  cases hread
  have hnil : j.args = [] := by
    generalize j.opcode = op at hreads
    cases hreads
    rfl
  exact hargs hnil

/-- Tokens are read as one instruction only. -/
theorem unique {j j' : SourceInstruction} {ts : List Token} (h : j.ReadFrom ts)
    (h' : j'.ReadFrom ts) : j = j' := by
  obtain ⟨t, ht, -, hop⟩ := h.name
  obtain ⟨t', ht', -, hop'⟩ := h'.name
  cases ht.symm.trans ht'
  obtain ⟨d, hreads, -⟩ := h.reads
  obtain ⟨d', hreads', -⟩ := h'.reads
  rw [Option.some.inj (hop.symm.trans hop')] at hreads
  exact (EStateM.Result.ok.inj (hreads.symm.trans hreads')).1

end SourceInstruction.ReadFrom

namespace Replaceable

open Assembler

variable {j j' : SourceInstruction} {front back ts : List Token} {number : Token} {l : IntLiteral}
  {x name : String} {a t b : Assembler}

theorem exists_renamed (h : Replaceable j front number back l x) (hread : j'.ReadFrom ts)
    (hts : ts.map Token.spelling = (front ++ number.renamed x :: back).map Token.spelling) :
    ∃ j₁, j.Renamed l x j₁ ∧ j₁.Alike j' := by
  obtain ⟨j₁, hrenamed, hread₁⟩ := h.read.renamed h.number h.names x
  obtain ⟨j₂, halike, hread₂⟩ := hread₁.respelled hts
  rw [hread₂.unique hread] at halike
  exact ⟨j₁, hrenamed, halike⟩

/-- What the instruction writes with the name, wherever its tokens stand. -/
theorem opened (h : Replaceable j front number back l x) (ha : a.Unwritten name)
    (hread : j'.ReadFrom ts)
    (hts : ts.map Token.spelling = (front ++ number.renamed x :: back).map Token.spelling)
    (hwrite : Asm.writeInstruction j' a = .ok () t) :
    ∃ r, Opened x a t r ∧ ((∃ b v, Asm.writeInstruction j (.empty name) = .ok () b ∧
      Filled l b t r v) ∨ Value.ofInt? l.toInt r.datatype = none) := by
  obtain ⟨j₁, hrenamed, halike⟩ := h.exists_renamed hread hts
  have hsame : a.Repositioned a := ⟨_, rfl, rfl⟩
  obtain ⟨t₁, hwrite₁, ps, rfl, hlength⟩ := Asm.writeInstruction_alike halike.symm hsame hwrite
  have hback : Repositioned { t with positions := ps } t := ⟨_, rfl, hlength.symm⟩
  rcases Asm.writeInstruction_of_renamed hrenamed h.opcode h.names h.zero h.fresh h.read.variadic
    hwrite₁ with ⟨s, hs⟩ | ⟨r, p, hname, hscope, hmisfit, hrecorded⟩
  · obtain ⟨t₂, hwrite₂, r, p, v, hr, hv, hopen, hholds⟩ :=
      Asm.writeInstruction_renamed hrenamed h.opcode h.names h.zero h.fresh h.read.variadic hs
    obtain rfl : { t with positions := ps } = t₂ :=
      (EStateM.Result.ok.inj (hwrite₁.symm.trans hwrite₂)).2
    have hb := Asm.writeInstruction_withOutput h.opcode h.names (.empty name) hs
    rw [ha.empty_withOutput] at hb
    have hopened : Opened x a { t with positions := ps } r :=
      ⟨hr.name, hr.scope, p, by rw [hopen]; rfl⟩
    refine ⟨r, hopened.of_repositioned ha hback, .inl ⟨_, v, hb, hv, hholds, ?_, ?_, ?_⟩⟩
    · exact congrArg (·.object.code) hopen
    · exact congrArg (·.object.static) hopen
    · exact congrArg (·.object.relocations) hopen
  · have hopened : Opened x a { t with positions := ps } r := ⟨hname, hscope, p, hrecorded⟩
    exact ⟨r, hopened.of_repositioned ha hback, .inr hmisfit⟩

theorem exists_opened (h : Replaceable j front number back l x) (ha : a.Unwritten name)
    (hread : j'.ReadFrom ts)
    (hts : ts.map Token.spelling = (front ++ number.renamed x :: back).map Token.spelling)
    (hwrite : Asm.writeInstruction j (.empty name) = .ok () b) :
    ∃ t r v, Asm.writeInstruction j' a = .ok () t ∧ Opened x a t r ∧ Filled l b t r v := by
  obtain ⟨j₁, hrenamed, halike⟩ := h.exists_renamed hread hts
  have hs := Asm.writeInstruction_withOutput h.opcode h.names a hwrite
  rw [ha.withOutput] at hs
  obtain ⟨t₁, hwrite₁, r, p, v, hr, hv, rfl, hholds⟩ :=
    Asm.writeInstruction_renamed hrenamed h.opcode h.names h.zero h.fresh h.read.variadic hs
  have hsame : a.Repositioned a := ⟨_, rfl, rfl⟩
  obtain ⟨t, hwrite', hmoved⟩ := Asm.writeInstruction_alike halike hsame hwrite₁
  have hopened : Opened x a (((a.withOutput (a.withOutput b))).unfilled r p) r :=
    ⟨hr.name, hr.scope, p, rfl⟩
  refine ⟨t, r, v, hwrite', hopened.of_repositioned ha hmoved, ?_⟩
  obtain ⟨ps, rfl, -⟩ := hmoved
  exact ⟨hv, hholds, rfl, rfl, rfl⟩

/-! ## Modules -/

variable {tokens : Array Token} {o : Object} {v : Value} {r : Reference} {y : Symbol}

/-- The module of an instruction without names is what the instruction writes. -/
theorem object_of_writeInstruction (h : Replaceable j front number back l x)
    (hb : Asm.writeInstruction j (.empty name) = .ok () b) :
    b.object = { Object.empty name with
      code := b.object.code, static := b.object.static, relocations := b.object.relocations } :=
  congrArg Assembler.object (Asm.eq_withOutput_of_writeInstruction h.opcode h.names hb)

theorem assemble_number (h : Replaceable j front number back l x)
    (hspelled : Spelled tokens (instructionLine (front ++ number :: back))) :
    assemble tokens name = .ok o ↔
      ∃ b, Asm.writeInstruction j (.empty name) = .ok () b ∧ o = b.object := by
  obtain ⟨lines, stop, rfl, hlines⟩ := hspelled
  obtain ⟨ts, e, rfl, hts, he⟩ := exists_of_instructionLine hlines
  obtain ⟨j', halike, hread⟩ := h.read.respelled hts
  have hassemble : assemble ([] ++ (ts ++ [e]) ++ [] ++ [Token.endOfCode stop]).toArray name = .ok o ↔
      ∃ b, Asm.writeInstruction j' (.empty name) = .ok () b ∧
        finish { b with statements := b.statements + 1 } = .ok o :=
    assemble_eq_ok_iff_of_leads hread he (.nil (.empty name)) fun b _ => .nil _
  rw [List.nil_append, List.append_nil] at hassemble
  rw [hassemble]
  have hsame : (Assembler.empty name).Repositioned (.empty name) := ⟨_, rfl, rfl⟩
  -- Finishing a module without references changes nothing.
  have hfinish {b b' : Assembler} (hb : Asm.writeInstruction j (.empty name) = .ok () b)
      (hmoved : b.Repositioned b') :
      finish { b' with statements := b'.statements + 1 } = .ok o ↔ o = b.object := by
    have houtput := Asm.eq_withOutput_of_writeInstruction h.opcode h.names hb
    obtain ⟨ps, rfl, -⟩ := hmoved
    rw [finish_eq_ok_iff]
    rw [houtput]
    exact ⟨fun hok => (Except.ok.inj hok.2).symm, fun ho => ⟨rfl, congrArg Except.ok ho.symm⟩⟩
  constructor
  · rintro ⟨b', hb', hok⟩
    obtain ⟨b, hb, hmoved⟩ := Asm.writeInstruction_alike halike.symm hsame hb'
    have hback : b.Repositioned b' := by
      obtain ⟨ps, rfl, hlength⟩ := hmoved
      exact ⟨_, rfl, hlength.symm⟩
    exact ⟨b, hb, (hfinish hb hback).mp hok⟩
  · rintro ⟨b, hb, ho⟩
    obtain ⟨b', hb', hmoved⟩ := Asm.writeInstruction_alike halike hsame hb
    exact ⟨b', hb', (hfinish hb hmoved).mpr ho⟩

/-- All of the object but its output is known. -/
theorem object_of_opened (ha : a.Unwritten name) (h : Opened x a t r) :
    t.object = { Object.empty name with
      code := t.object.code, static := t.object.static, relocations := t.object.relocations
      symbols := a.object.symbols, unresolved := [r] } := by
  obtain ⟨p, hp⟩ := h.recorded
  have hobject := congrArg Assembler.object hp
  refine hobject.trans ?_
  unfold recorded withOutput
  rw [ha.object]
  rfl

/-- Finishing has one symbol to find, for one reference. -/
structure Bindable (y : Symbol) (path : List String) (x : String) (t u : Assembler) : Prop where
  object : u.object = { t.object with symbols := [y] }
  scopes : u.scopes = []
  positions : u.positions = t.positions
  lookup : u.lookup path x = some y

/-- The slot of the name is filled with the number that the name stands for. -/
theorem finish_of_opened {u : Assembler} {n : Int} (ha : a.Unwritten name) (hopened : Opened x a t r)
    (hv : Value.ofInt? n .i64 = some y.value) (hu : Bindable y a.path x t u) :
    u.finish = .ok o ↔ ∃ v, Value.ofInt? n r.datatype = some v ∧
      r.offset + r.datatype.size ≤ t.object.code.size ∧
      o = { t.object with
        code := t.object.code.write r.offset (v.toCell.bytes r.datatype), unresolved := []
        symbols := [y] } := by
  have hpaged : y.value.isPaged = false := by
    have hdatatype := Value.datatype_of_ofInt? hv
    cases hvalue : y.value with
    | addr a => simp [hvalue, Value.datatype] at hdatatype
    | _ => rfl
  obtain ⟨p, hp⟩ := hopened.recorded
  have hrefs : u.object.unresolved = [r] := by
    rw [hu.object]
    exact congrArg Object.unresolved (object_of_opened ha hopened)
  have hlength : u.positions.length = 1 := by
    rw [hu.positions, show t.positions = a.positions ++ [p] from congrArg Assembler.positions hp,
      ha.positions]
    rfl
  have hlookup := hu.lookup
  rw [← hopened.scope, ← hopened.name] at hlookup
  rw [finish_eq_ok_iff_of_lookup hu.scopes hrefs hlength hlookup hpaged, hu.object]
  simp only [Value.fit?_of_ofInt?_i64 hv]

/-- If finishing finds the number, the module is that of the instruction with the number, with the
symbol of the name. -/
theorem exists_finish_iff (h : Replaceable j front number back l x) (ha : a.Unwritten name)
    (hread : j'.ReadFrom ts)
    (hts : ts.map Token.spelling = (front ++ number.renamed x :: back).map Token.spelling)
    (hv : Value.ofInt? l.toInt .i64 = some y.value) {f : Assembler → Assembler}
    (hf : ∀ t r, Opened x a t r → Bindable y a.path x t (f t)) :
    (∃ t, Asm.writeInstruction j' a = .ok () t ∧ (f t).finish = .ok o) ↔
      ∃ b, Asm.writeInstruction j (.empty name) = .ok () b ∧
        o = { b.object with symbols := [y] } := by
  have hfinish {t : Assembler} {r : Reference} (hopened : Opened x a t r) :=
    finish_of_opened (o := o) ha hopened hv (hf t r hopened)
  -- What is written into the slot is what the number has filled it with.
  have hresult {t b : Assembler} {r : Reference} {v : Value} (hopened : Opened x a t r)
      (hb : Asm.writeInstruction j (.empty name) = .ok () b) (hfilled : Filled l b t r v) :
      ({ t.object with
        code := t.object.code.write r.offset (v.toCell.bytes r.datatype), unresolved := []
        symbols := [y] } : Object) = { b.object with symbols := [y] } := by
    rw [object_of_opened ha hopened, h.object_of_writeInstruction hb]
    dsimp only
    rw [hfilled.code, hfilled.static, hfilled.relocations, hfilled.holds.write_write (by simp)]
    rfl
  constructor
  · rintro ⟨t, ht, hok⟩
    obtain ⟨r, hopened, ⟨b, v, hb, hfilled⟩ | hmisfit⟩ := h.opened ha hread hts ht
    · obtain ⟨w, hw, -, rfl⟩ := (hfinish hopened).mp hok
      cases hfilled.value.symm.trans hw
      exact ⟨b, hb, hresult hopened hb hfilled⟩
    · obtain ⟨w, hw, -⟩ := (hfinish hopened).mp hok
      cases hmisfit.symm.trans hw
  · rintro ⟨b, hb, rfl⟩
    obtain ⟨t, r, v, ht, hopened, hfilled⟩ := h.exists_opened ha hread hts hb
    refine ⟨t, ht, (hfinish hopened).mpr ⟨v, hfilled.value, ?_, (hresult hopened hb hfilled).symm⟩⟩
    have hinside := hfilled.holds.1
    rw [Cell.length_bytes] at hinside
    rw [hfilled.code, Buffer.size_write]
    exact hinside

/-- The scopes of a path, the innermost first. -/
def scopesOf (path : List String) : List Scope := (path.map fun name => ⟨name, none⟩).reverse

@[simp] theorem length_scopesOf (path : List String) : (scopesOf path).length = path.length := by
  simp [scopesOf]

variable {inner outer : List String}

theorem path_of_scopes {s : Assembler} (hs : s.scopes = scopesOf inner ++ (scopesOf outer ++ [])) :
    s.path = outer ++ inner := by
  simp [path, hs, scopesOf, Function.comp_def]

/-- What the instruction leaves is what was there, but for the output and the reference. -/
theorem kept_of_opened (h : Opened x a t r) :
    t.scopes = a.scopes ∧ t.index = a.index ∧ t.object.symbols = a.object.symbols := by
  obtain ⟨p, hp⟩ := h.recorded
  rw [hp]
  exact ⟨rfl, rfl, rfl⟩

theorem exists_readFrom (h : Replaceable j front number back l x)
    (hts : ts.map Token.spelling = (front ++ number.renamed x :: back).map Token.spelling) :
    ∃ j' : SourceInstruction, j'.ReadFrom ts := by
  obtain ⟨j₁, -, hread₁⟩ := h.read.renamed h.number h.names x
  obtain ⟨j', -, hread⟩ := hread₁.respelled hts
  exact ⟨j', hread⟩

/-- A module with the instruction between lines that make a symbol of the name. -/
theorem assemble_around (h : Replaceable j front number back l x) (ha : a.Unwritten name)
    (hread : j'.ReadFrom ts)
    (hts : ts.map Token.spelling = (front ++ number.renamed x :: back).map Token.spelling)
    {e : Token} (he : e.kind = .newline) (hv : Value.ofInt? l.toInt .i64 = some y.value)
    {opening closing : List Token} {f : Assembler → Assembler}
    (hopening : Leads opening (.empty name) a)
    (hclosing : ∀ t r, Opened x a t r →
      Leads closing { t with statements := t.statements + 1 } (f t))
    (hf : ∀ t r, Opened x a t r → Bindable y a.path x t (f t)) (stop : Position) :
    assemble (opening ++ (ts ++ [e]) ++ closing ++ [Token.endOfCode stop]).toArray name = .ok o ↔
      ∃ b, Asm.writeInstruction j (.empty name) = .ok () b ∧
        o = { b.object with symbols := [y] } := by
  rw [← h.exists_finish_iff ha hread hts hv hf]
  refine assemble_eq_ok_iff_of_leads hread he hopening fun t ht => ?_
  obtain ⟨r, hopened, -⟩ := h.opened ha hread hts ht
  exact hclosing t r hopened

/-- An alias for the number in front of the instruction, in a scope around it. -/
theorem assemble_before (h : Replaceable j front number back l x)
    (hv : Value.ofInt? l.toInt .i64 = some v)
    (hspelled : Spelled tokens (inScopes outer (aliasLine x number.text ++
      inScopes inner (instructionLine (front ++ number.renamed x :: back)))))
    :
    assemble tokens name = .ok o ↔ ∃ b, Asm.writeInstruction j (.empty name) = .ok () b ∧
      o = { b.object with symbols := [⟨qualify outer x, .alias, v⟩] } := by
  obtain ⟨lines, stop, rfl, hlines⟩ := hspelled
  obtain ⟨opening, body, closing, rfl, hopening, hbody, hclosing⟩ := exists_of_inScopes hlines
  obtain ⟨line, body, rfl, hline, hbody⟩ := List.map_eq_append_iff.mp hbody
  obtain ⟨opening', body, closing', rfl, hopening', hbody, hclosing'⟩ := exists_of_inScopes hbody
  obtain ⟨ts, e, rfl, hts, he⟩ := exists_of_instructionLine hbody
  obtain ⟨j', hread⟩ := h.exists_readFrom hts
  let a₀ : Assembler := { Assembler.empty name with
    scopes := scopesOf outer ++ [], statements := 0 + outer.length }
  let a : Assembler := { a₀.withSymbol ⟨qualify outer x, .alias, v⟩ with
    scopes := scopesOf inner ++ (scopesOf outer ++ [])
    statements := 0 + outer.length + 1 + inner.length }
  let f (t : Assembler) : Assembler := { t with
    scopes := [], statements := t.statements + 1 + (inner.length + outer.length) }
  have hpath₀ : a₀.path = outer := (path_of_scopes (s := a₀) rfl).trans (List.append_nil outer)
  have hpath : a.path = outer ++ inner := path_of_scopes rfl
  have hunwritten : a.Unwritten name := ⟨rfl, rfl, rfl⟩
  have hfront : Leads (opening ++ line ++ opening') (.empty name) a := by
    have hopen := leads_scopeLines (.empty name) hopening
    have halias := leads_aliasLine (a := a₀) hline h.number.number hv rfl
    rw [hpath₀] at halias
    exact (hopen.append halias).append (leads_scopeLines _ hopening')
  have hback (t : Assembler) (r : Reference) (hopened : Opened x a t r) :
      Leads (closing' ++ closing) { t with statements := t.statements + 1 } (f t) := by
    have hscopes : t.scopes = scopesOf inner ++ (scopesOf outer ++ []) :=
      (kept_of_opened hopened).1
    refine leads_endLines (inner.length + outer.length) ?_ ?_ ?_
    · rw [List.map_append, hclosing', hclosing, ← List.flatten_append,
        List.replicate_append_replicate]
    · simp [hscopes]
    · simp [hscopes]
  have hbound (t : Assembler) (r : Reference) (hopened : Opened x a t r) :
      Bindable ⟨qualify outer x, .alias, v⟩ a.path x t (f t) := by
    refine ⟨?_, rfl, rfl, ?_⟩
    · change t.object = _
      rw [object_of_opened hunwritten hopened]
      rfl
    · obtain ⟨-, hindex, hsymbols⟩ := kept_of_opened hopened
      rw [lookup_congr (s := f t) (t := a₀.withSymbol ⟨qualify outer x, .alias, v⟩) hindex hsymbols,
        hpath]
      exact lookup_withSymbol _ _ rfl rfl rfl
  have hassemble := h.assemble_around (o := o) hunwritten hread hts he hv hfront hback hbound stop
  simpa only [List.append_assoc] using hassemble

/-- An alias for the number behind the instruction, in a scope around it. -/
theorem assemble_behind (h : Replaceable j front number back l x)
    (hv : Value.ofInt? l.toInt .i64 = some v)
    (hspelled : Spelled tokens (inScopes outer (inScopes inner (instructionLine
      (front ++ number.renamed x :: back)) ++ aliasLine x number.text)))
    :
    assemble tokens name = .ok o ↔ ∃ b, Asm.writeInstruction j (.empty name) = .ok () b ∧
      o = { b.object with symbols := [⟨qualify outer x, .alias, v⟩] } := by
  obtain ⟨lines, stop, rfl, hlines⟩ := hspelled
  obtain ⟨opening, body, closing, rfl, hopening, hbody, hclosing⟩ := exists_of_inScopes hlines
  obtain ⟨body, line, rfl, hbody, hline⟩ := List.map_eq_append_iff.mp hbody
  obtain ⟨opening', body, closing', rfl, hopening', hbody, hclosing'⟩ := exists_of_inScopes hbody
  obtain ⟨ts, e, rfl, hts, he⟩ := exists_of_instructionLine hbody
  obtain ⟨j', hread⟩ := h.exists_readFrom hts
  let a : Assembler := { Assembler.empty name with
    scopes := scopesOf inner ++ (scopesOf outer ++ [])
    statements := 0 + outer.length + inner.length }
  let f (t : Assembler) : Assembler := { t.withSymbol ⟨qualify outer x, .alias, v⟩ with
    scopes := [], statements := t.statements + 1 + inner.length + 1 + outer.length }
  have hpath : a.path = outer ++ inner := path_of_scopes rfl
  have hunwritten : a.Unwritten name := ⟨rfl, rfl, rfl⟩
  have hfront : Leads (opening ++ opening') (.empty name) a :=
    (leads_scopeLines (.empty name) hopening).append (leads_scopeLines _ hopening')
  have hback (t : Assembler) (r : Reference) (hopened : Opened x a t r) :
      Leads (closing' ++ line ++ closing) { t with statements := t.statements + 1 } (f t) := by
    obtain ⟨hscopes, hindex, -⟩ := kept_of_opened hopened
    let t₁ : Assembler := { t with
      scopes := scopesOf outer ++ [], statements := t.statements + 1 + inner.length }
    have hclose : Leads closing' { t with statements := t.statements + 1 } t₁ :=
      leads_endLines inner.length hclosing' (by simp [hscopes, a]) (by simp [hscopes, a])
    have hpath₁ : t₁.path = outer := (path_of_scopes (s := t₁) rfl).trans (List.append_nil outer)
    have halias := leads_aliasLine (a := t₁) hline h.number.number hv (by
      rw [show t₁.index = ∅ from hindex]
      rfl)
    rw [hpath₁] at halias
    exact (hclose.append halias).append
      (leads_endLines outer.length hclosing (by simp [t₁, withSymbol]) (by simp [t₁, withSymbol]))
  have hbound (t : Assembler) (r : Reference) (hopened : Opened x a t r) :
      Bindable ⟨qualify outer x, .alias, v⟩ a.path x t (f t) := by
    obtain ⟨-, hindex, hsymbols⟩ := kept_of_opened hopened
    have hempty : t.object.symbols = [] := hsymbols
    refine ⟨by simp [f, withSymbol, hempty], rfl, rfl, ?_⟩
    rw [hpath]
    exact lookup_withSymbol (s := t) _ _ hindex hsymbols rfl
  have hassemble := h.assemble_around (o := o) hunwritten hread hts he hv hfront hback hbound stop
  simpa only [List.append_assoc] using hassemble

/-- A module with nothing but the alias. -/
theorem assemble_alias (h : Replaceable j front number back l x)
    (hv : Value.ofInt? l.toInt .i64 = some v) (hspelled : Spelled tokens (aliasLine x number.text)) :
    assemble tokens name = .ok o ↔
      o = { Object.empty name with symbols := [⟨x, .alias, v⟩] } := by
  obtain ⟨lines, stop, rfl, hlines⟩ := hspelled
  have hleads := leads_aliasLine (a := .empty name) hlines h.number.number hv rfl
  rw [show qualify (Assembler.empty name).path x = x from rfl] at hleads
  rw [assemble_of_leads hleads]
  exact ⟨fun hok => (Except.ok.inj hok).symm, fun ho => congrArg Except.ok ho.symm⟩

/-- The object is `b` with a slot left open for `x`, which the number fills there. -/
def LeavesUnbound (l : IntLiteral) (x : String) (b o : Object) : Prop :=
  ∃ r v, r.name = x ∧ Value.ofInt? l.toInt r.datatype = some v ∧
    b.code.Holds r.offset (v.toCell.bytes r.datatype) ∧
    o = { b with
      code := b.code.write r.offset (List.replicate r.datatype.size 0), unresolved := [r] }

/-- A module with the instruction, and nothing that tells what the name stands for : a slot is left
open, for the number if that fits. -/
theorem assemble_apart (h : Replaceable j front number back l x) (name : String)
    {scopes : List String} (hspelled : Spelled tokens (inScopes scopes (instructionLine
      (front ++ number.renamed x :: back)))) :
    (∀ o, assemble tokens name = .ok o →
      (∃ b, Asm.writeInstruction j (.empty name) = .ok () b ∧ LeavesUnbound l x b.object o) ∨
        o.symbols = [] ∧ ∃ r ∈ o.unresolved, r.name = x ∧ Value.ofInt? l.toInt r.datatype = none) ∧
      ∀ b, Asm.writeInstruction j (.empty name) = .ok () b →
        ∃ o, assemble tokens name = .ok o ∧ LeavesUnbound l x b.object o := by
  obtain ⟨lines, stop, rfl, hlines⟩ := hspelled
  obtain ⟨opening, body, closing, rfl, hopening, hbody, hclosing⟩ := exists_of_inScopes hlines
  obtain ⟨ts, e, rfl, hts, he⟩ := exists_of_instructionLine hbody
  obtain ⟨j', hread⟩ := h.exists_readFrom hts
  let a : Assembler := { Assembler.empty name with
    scopes := scopesOf scopes ++ [], statements := 0 + scopes.length }
  let f (t : Assembler) : Assembler := { t with
    scopes := [], statements := t.statements + 1 + scopes.length }
  have hunwritten : a.Unwritten name := ⟨rfl, rfl, rfl⟩
  have hback (t : Assembler) (ht : Asm.writeInstruction j' a = .ok () t) :
      Leads closing { t with statements := t.statements + 1 } (f t) := by
    obtain ⟨r, hopened, -⟩ := h.opened hunwritten hread hts ht
    obtain ⟨hscopes, -⟩ := kept_of_opened hopened
    exact leads_endLines scopes.length hclosing (by simp [hscopes, a]) (by simp [hscopes, a])
  have hassemble (o : Object) :
      assemble (opening ++ (ts ++ [e]) ++ closing ++ [Token.endOfCode stop]).toArray name = .ok o ↔
        ∃ t, Asm.writeInstruction j' a = .ok () t ∧ (f t).finish = .ok o :=
    assemble_eq_ok_iff_of_leads hread he (leads_scopeLines (.empty name) hopening) hback
  have hfinish {t : Assembler} {r : Reference} (hopened : Opened x a t r) (o : Object) :
      (f t).finish = .ok o ↔ o = { t.object with unresolved := [{ r with scope := [] }] } := by
    obtain ⟨p, hp⟩ := hopened.recorded
    have hrefs : (f t).object.unresolved = [r] :=
      congrArg Object.unresolved (object_of_opened hunwritten hopened)
    have hplaces : (f t).positions = [p] := congrArg Assembler.positions hp
    exact finish_eq_ok_iff_of_lookup_eq_none rfl hrefs (by rw [hplaces]; rfl)
      (lookup_of_index_eq_empty (kept_of_opened hopened).2.1 _ _)
  have hunbound {t b : Assembler} {r : Reference} {v : Value} (hopened : Opened x a t r)
      (hb : Asm.writeInstruction j (.empty name) = .ok () b) (hfilled : Filled l b t r v) :
      LeavesUnbound l x b.object { t.object with unresolved := [{ r with scope := [] }] } := by
    refine ⟨{ r with scope := [] }, v, hopened.name, hfilled.value, hfilled.holds, ?_⟩
    rw [object_of_opened hunwritten hopened, h.object_of_writeInstruction hb]
    dsimp only
    rw [hfilled.code, hfilled.static, hfilled.relocations]
    rfl
  constructor
  · intro o ho
    obtain ⟨t, ht, hok⟩ := (hassemble o).mp ho
    obtain ⟨r, hopened, ⟨b, v, hb, hfilled⟩ | hmisfit⟩ := h.opened hunwritten hread hts ht
    · rw [(hfinish hopened o).mp hok]
      exact .inl ⟨b, hb, hunbound hopened hb hfilled⟩
    · rw [(hfinish hopened o).mp hok]
      exact .inr ⟨(kept_of_opened hopened).2.2, _, List.mem_singleton_self _, hopened.name, hmisfit⟩
  · intro b hb
    obtain ⟨t, r, v, ht, hopened, hfilled⟩ := h.exists_opened hunwritten hread hts hb
    exact ⟨_, (hassemble _).mpr ⟨t, ht, (hfinish hopened _).mpr rfl⟩, hunbound hopened hb hfilled⟩

end Replaceable

end CellMachine
