import CellMachine.Proofs.Assembly.Resolution
import Mathlib

/-!
# Locals of functions

A `#local` belongs to the innermost function around it, whatever scopes lie between. `Nesting` says
this of the source alone : it goes through the statements that are carried out, opens and closes
scopes with them and notes the locals of every function in their order. The assembler notes less, a
number of bytes for each open function. By induction over the statements that number is the size of
the locals noted (`Nesting.Describes`), so that each local got the place behind those in front of it
(`Local.Laid`), and the instruction that grows the stack by its size. Both stay when the module is
finished (`Assembler.Carried.laid_of_finish`).
-/

namespace CellMachine

/-! ## Locals of the source -/

/-- A local as it is declared. -/
structure Local where
  /-- The scopes around the declaration. -/
  path : List String
  name : String
  datatype : Datatype
  /-- Where the code of the declaration starts. -/
  start : Nat
  deriving DecidableEq

namespace Local

/-- The size of some locals. -/
def totalSize (ls : List Local) : Nat := Datatype.totalSize (ls.map (·.datatype))

theorem totalSize_concat (ls : List Local) (l : Local) :
    totalSize (ls ++ [l]) = totalSize ls + l.datatype.size := by
  unfold totalSize
  rw [List.map_append, Datatype.totalSize_append]
  rfl

/-- The place behind some locals in a frame. -/
def placeBehind (ls : List Local) : Address := .make .frameAdd (UInt64.ofNat (totalSize ls))

end Local

/-- What a statement does to the scopes around the next one. -/
inductive Bracket where
  | function
  | scope
  | close
  | declare (l : Local)
  | plain

/-- What the directive `name` in front of `c` does to the scopes. -/
def directiveBracket (s : Assembler) (name : String) (c : Cursor) : Bracket :=
  if name = "func" ∨ name = "funx" then .function
  else if name = "scope" then .scope
  else if name = "end" then .close
  else if name = "local" then
    match Parser.declaration c with
    | .ok (name, dt) _ => .declare ⟨s.path, name, dt, s.object.code.size⟩
    | .error _ _ => .plain
  else .plain

/-- What the statement under the cursor does to the scopes, said by its tokens. -/
def Assembler.bracket (s : Assembler) : Bracket :=
  if s.cursor.current.kind = .directive then
    directiveBracket s s.cursor.next.current.text s.cursor.next.next
  else .plain

/-- The local that is declared, if one is. -/
def Bracket.local? : Bracket → Option Local
  | .declare l => some l
  | _ => none

/-- The functions of the source and their locals, in the order of the declarations. -/
structure Nesting where
  /-- The locals of the functions that are closed. -/
  closed : List (List Local)
  /-- The open scopes, the innermost first. Those that are no functions have no locals. -/
  scopes : List (Option (List Local))

namespace Nesting

/-- No statements. -/
def empty : Nesting := ⟨[], []⟩

/-- Adds a local to the innermost function. -/
def declare (l : Local) : List (Option (List Local)) → List (Option (List Local))
  | [] => []
  | some ls :: rest => some (ls ++ [l]) :: rest
  | none :: rest => none :: declare l rest

/-- Goes behind a statement. -/
def step (n : Nesting) : Bracket → Nesting
  | .function => ⟨n.closed, some [] :: n.scopes⟩
  | .scope => ⟨n.closed, none :: n.scopes⟩
  | .close => ⟨n.closed ++ (n.scopes.take 1).reduceOption, n.scopes.drop 1⟩
  | .declare l => ⟨n.closed, declare l n.scopes⟩
  | .plain => n

/-- Goes behind statements. -/
def behind (n : Nesting) (bs : List Bracket) : Nesting := bs.foldl step n

/-- The locals of each function, closed or open. -/
def functions (n : Nesting) : List (List Local) := n.closed ++ n.scopes.reduceOption

end Nesting

/-! ## Scopes of the assembler -/

namespace Asm

/-- The open scopes are the same, and no local has been added. -/
def SameScopes (s s' : Assembler) : Prop := s'.scopes = s.scopes

instance : Std.Refl SameScopes := ⟨fun _ => rfl⟩

instance : Trans SameScopes SameScopes SameScopes := ⟨fun h h' => Eq.trans h' h⟩

theorem admits_sameScopes : AdmitsNames SameScopes where
  movedTo _ _ _ := rfl
  appendStatic _ _ := rfl
  withSymbol _ _ _ _ := rfl
  require _ _ := rfl
  permissions _ _ _ := rfl

/-- Directives that are no brackets leave the scopes. -/
theorem sameScopes_directiveNamed {t : Token} (ht : t.text ∉ scopeDirectives) :
    Relates SameScopes (directiveNamed t) :=
  relates_namingDirective admits_sameScopes
    (fun _ => relates_staticData admits_sameScopes fun _ _ => rfl)
    (fun _ => relates_defineMacro admits_sameScopes fun _ _ => rfl) ht

variable {s s' : Assembler}

/-- A function starts without locals. -/
theorem scopes_of_function {pushFrame : Bool} (h : function pushFrame s = .ok () s') :
    ∃ name, s'.scopes = ⟨name, some 0⟩ :: s.scopes := by
  obtain ⟨_, s₁, hhead, h⟩ := bind_eq_ok.mp h
  have hemit : s'.scopes = s₁.scopes := by
    split at h
    · cases h
      rfl
    · cases h
      rfl
  obtain ⟨name, c, -, hhead⟩ := ofParser_bind_eq_ok.mp hhead
  obtain ⟨_, _, hget, hhead⟩ := bind_eq_ok.mp hhead
  cases hget
  obtain ⟨_, s₂, hdefine, hhead⟩ := bind_eq_ok.mp hhead
  obtain ⟨params, c₁, -, hhead⟩ := ofParser_bind_eq_ok.mp hhead
  obtain ⟨_, s₃, hpush, hhead⟩ := bind_eq_ok.mp hhead
  cases hpush
  have hdefined : s₂.scopes = (s.movedTo c).scopes := by
    obtain ⟨-, rfl⟩ := define_eq_ok.mp hdefine
    rfl
  have hparams := (relates_defineParameters admits_sameScopes params).of_ok hhead
  refine ⟨name, hemit.trans (hparams.trans ?_)⟩
  exact congrArg _ hdefined

theorem scopes_of_openScope (h : openScope s = .ok () s') :
    ∃ name, s'.scopes = ⟨name, none⟩ :: s.scopes := by
  obtain ⟨name, c, -, h⟩ := ofParser_bind_eq_ok.mp h
  cases h
  exact ⟨name, rfl⟩

theorem scopes_of_closeScope (h : closeScope s = .ok () s') :
    ∃ scope, s.scopes = scope :: s'.scopes := by
  unfold closeScope at h
  rw [get_bind_apply] at h
  cases hscopes : s.scopes with
  | nil =>
    rw [hscopes] at h
    obtain ⟨c, hc, -⟩ := ofParser_eq_ok.mp h
    cases hc
  | cons scope rest =>
    rw [hscopes] at h
    cases h
    exact ⟨scope, rfl⟩

/-- The innermost function gets the local, and no scope its name. -/
theorem names_of_reserveLocal {size n : Nat} {scopes scopes' : List Scope}
    (h : reserveLocal size scopes = some (n, scopes')) :
    scopes'.map (·.name) = scopes.map (·.name) := by
  induction scopes generalizing scopes' with
  | nil => cases h
  | cons scope rest ih =>
    unfold reserveLocal at h
    cases hlocals : scope.locals with
    | some k =>
      simp only [hlocals] at h
      cases h
      rfl
    | none =>
      simp only [hlocals] at h
      obtain ⟨⟨k, rest'⟩, hrest, hpair⟩ := Option.map_eq_some_iff.mp h
      cases hpair
      simp [ih hrest]

theorem reserveBytes_eq_ok {size n : Nat} (h : reserveBytes size s = .ok n s') :
    ∃ scopes, reserveLocal size s.scopes = some (n, scopes) ∧ s' = { s with scopes := scopes } := by
  unfold reserveBytes at h
  rw [get_bind_apply] at h
  cases hlocal : reserveLocal size s.scopes with
  | none =>
    rw [hlocal] at h
    obtain ⟨c, hc, -⟩ := ofParser_eq_ok.mp h
    cases hc
  | some reserved =>
    rw [hlocal] at h
    cases h
    exact ⟨reserved.2, rfl, rfl⟩

/-- What a `#local` leaves behind : its symbol, with the bytes of the locals so far as its offset,
the growth of the stack, and the innermost function grown by its size. -/
theorem localSlot_spec (h : localSlot s = .ok () s') :
    ∃ name dt c n scopes, Parser.declaration s.cursor = .ok (name, dt) c ∧
      reserveLocal dt.size s.scopes = some (n, scopes) ∧ s'.scopes = scopes ∧
      s'.object.symbols = s.object.symbols ++
        [⟨qualify s.path name, .alias, .addr (.make .frameAdd (UInt64.ofNat n))⟩] ∧
      s'.object.code.toList = s.object.code.toList ++ (growStack dt.size).encode ∧
      s'.object.unresolved = s.object.unresolved := by
  obtain ⟨dt, s₁, hreserve, h⟩ := bind_eq_ok.mp h
  cases h
  obtain ⟨⟨name, t⟩, c, hdeclares, hreserve⟩ := ofParser_bind_eq_ok.mp hreserve
  obtain ⟨n, s₂, hbytes, hreserve⟩ := bind_eq_ok.mp hreserve
  obtain ⟨_, s₃, hdefine, hreserve⟩ := bind_eq_ok.mp hreserve
  obtain ⟨scopes, hlocal, rfl⟩ := reserveBytes_eq_ok hbytes
  obtain ⟨-, rfl⟩ := define_eq_ok.mp hdefine
  cases hreserve
  have hpath : (scopes.map (·.name)).reverse = s.path := by
    rw [names_of_reserveLocal hlocal]
    rfl
  refine ⟨name, dt, c, n, scopes, hdeclares, hlocal, rfl, ?_, ?_, rfl⟩
  · rw [← hpath]
    rfl
  · simp [Assembler.appendCode, Assembler.withSymbol, Assembler.movedTo]

end Asm

/-! ## Places -/

namespace Local

variable {l : Local} {ls : List Local} {o o' : Object}

/-- The locals of a function have their places one behind the other, and the stack is grown by the
size of each. -/
structure Laid (o : Object) (ls : List Local) : Prop where
  symbols : ∀ k l, ls[k]? = some l →
    ⟨qualify l.path l.name, .alias, .addr (placeBehind (ls.take k))⟩ ∈ o.symbols
  code : ∀ l ∈ ls, o.code.Holds l.start (Asm.growStack l.datatype.size).encode

theorem laid_nil (o : Object) : Laid o [] := ⟨by simp, by simp⟩

theorem Laid.mono (h : Laid o ls) (hsymbols : o.symbols <+: o'.symbols)
    (hcode : o.code.toList <+: o'.code.toList) : Laid o' ls where
  symbols k l hl := hsymbols.subset (h.symbols k l hl)
  code l hl := (h.code l hl).grown hcode

/-- One more local lies behind the others. -/
theorem Laid.append (h : Laid o ls)
    (hsymbol : ⟨qualify l.path l.name, .alias, .addr (placeBehind ls)⟩ ∈ o.symbols)
    (hcode : o.code.Holds l.start (Asm.growStack l.datatype.size).encode) :
    Laid o (ls ++ [l]) where
  symbols k x hx := by
    rcases Nat.lt_or_ge k ls.length with hk | hk
    · rw [List.getElem?_append_left hk] at hx
      rw [List.take_append_of_le_length hk.le]
      exact h.symbols k x hx
    · rw [List.getElem?_append_right hk, List.getElem?_singleton] at hx
      split at hx
      · next hzero =>
        cases hx
        obtain rfl : k = ls.length := by omega
        rw [List.take_left]
        exact hsymbol
      · cases hx
  code x hx := by
    rcases List.mem_append.mp hx with hx | hx
    · exact h.code x hx
    · rw [List.mem_singleton.mp hx]
      exact hcode

/-- The slot of a reference is no part of the code of the declaration. -/
def ApartFrom (l : Local) (r : Reference) : Prop :=
  r.offset + r.datatype.size ≤ l.start ∨
    l.start + (Asm.growStack l.datatype.size).encode.length ≤ r.offset

end Local

theorem Reference.IsBlank.le {r : Reference} {code : Buffer} (h : r.IsBlank code) :
    r.offset + r.datatype.size ≤ code.size := by
  simpa using h.1

/-- The locals of functions are laid out in an object, and its references lie inside the code and
apart from theirs. -/
structure Object.Places (o : Object) (fs : List (List Local)) : Prop where
  laid : ∀ ls ∈ fs, Local.Laid o ls
  apart : ∀ ls ∈ fs, ∀ l ∈ ls, ∀ r ∈ o.unresolved, l.ApartFrom r
  inside : ∀ r ∈ o.unresolved, r.offset + r.datatype.size ≤ o.code.size

namespace Object.Places

variable {o o' : Object} {fs gs : List (List Local)}

/-- Places stay while symbols, code and references are added. -/
theorem mono (h : o.Places fs) {refs : List Reference} (hsymbols : o.symbols <+: o'.symbols)
    (hcode : o.code.toList <+: o'.code.toList) (hunresolved : o'.unresolved = o.unresolved ++ refs)
    (hrefs : ∀ r ∈ refs, o.code.size ≤ r.offset ∧ r.IsBlank o'.code) : o'.Places fs where
  laid ls hls := (h.laid ls hls).mono hsymbols hcode
  apart ls hls l hl r hr := by
    rw [hunresolved, List.mem_append] at hr
    rcases hr with hr | hr
    · exact h.apart ls hls l hl r hr
    · have hend := ((h.laid ls hls).code l hl).1
      exact Or.inr (Nat.le_trans hend (hrefs r hr).1)
  inside r hr := by
    rw [hunresolved, List.mem_append] at hr
    rcases hr with hr | hr
    · have hsize : o.code.size ≤ o'.code.size := by simpa using hcode.length_le
      exact Nat.le_trans (h.inside r hr) hsize
    · exact (hrefs r hr).2.le

/-- A function without locals is laid out anywhere. -/
theorem of_subset (h : o.Places fs) (hgs : ∀ ls ∈ gs, ls ∈ fs ∨ ls = []) : o.Places gs where
  laid ls hls := by
    rcases hgs ls hls with hls | rfl
    · exact h.laid ls hls
    · exact Local.laid_nil o
  apart ls hls l hl := by
    rcases hgs ls hls with hls | rfl
    · exact h.apart ls hls l hl
    · cases hl
  inside := h.inside

/-- One of the functions has got one more local. -/
theorem declare {ls : List Local} {l : Local} (h : o.Places fs) (hls : ls ∈ fs)
    (hlaid : Local.Laid o (ls ++ [l])) (hapart : ∀ r ∈ o.unresolved, l.ApartFrom r)
    (hgs : ∀ ls' ∈ gs, ls' ∈ fs ∨ ls' = ls ++ [l]) : o.Places gs where
  laid ls' hls' := by
    rcases hgs ls' hls' with hls' | rfl
    · exact h.laid ls' hls'
    · exact hlaid
  apart ls' hls' x hx r hr := by
    rcases hgs ls' hls' with hls' | rfl
    · exact h.apart ls' hls' x hx r hr
    · rcases List.mem_append.mp hx with hx | hx
      · exact h.apart ls hls x hx r hr
      · rw [List.mem_singleton.mp hx]
        exact hapart r hr
  inside := h.inside

end Object.Places

namespace Assembler

open Asm

variable {s s' : Assembler} {expand : Asm Unit} {fs : List (List Local)}

theorem le_offset_of_mem_names {r : Reference} (hr : r ∈ s.names) :
    s.object.code.size ≤ r.offset := by
  obtain ⟨x, hx, huse⟩ := List.mem_filterMap.mp hr
  obtain ⟨name, -, rfl⟩ := Option.map_eq_some_iff.mp huse
  exact (slotsWithin_emissionSlots _ _).lower x hx

/-- No statement touches the places of locals in front of it. -/
theorem places_of_statementBody (hs : s.object.Places fs) (huse : s.atUse = false)
    (h : statementBody expand s = .ok () s') : s'.object.Places fs := by
  have hextends := extends_of_statementBody huse h
  have hrecords := tracks_records.plain huse h
  rw [List.flatMap_singleton] at hrecords
  exact hs.mono hextends.symbols hextends.code hrecords.unresolved fun r hr =>
    ⟨le_offset_of_mem_names hr, hrecords.blank r hr⟩

end Assembler

/-! ## Statement by statement -/

namespace Nesting

open Asm

variable {n : Nesting} {s s' : Assembler} {expand : Asm Unit}

/-- The assembler counts the bytes of the locals of each open function, and all locals have their
places. -/
structure Describes (n : Nesting) (s : Assembler) : Prop where
  counts : s.scopes.map (·.locals) = n.scopes.map (Option.map Local.totalSize)
  places : s.object.Places n.functions

variable {l : Local}

/-- The assembler adds the size of a local where the local is added. -/
theorem declare_spec {k : Nat} {scopes scopes' : List Scope} {opened : List (Option (List Local))}
    (hcounts : scopes.map (·.locals) = opened.map (Option.map Local.totalSize))
    (h : reserveLocal l.datatype.size scopes = some (k, scopes')) :
    ∃ inner ls outer, opened = inner ++ some ls :: outer ∧
      declare l opened = inner ++ some (ls ++ [l]) :: outer ∧ k = Local.totalSize ls ∧
      scopes'.map (·.locals) = (declare l opened).map (Option.map Local.totalSize) := by
  induction opened generalizing scopes scopes' with
  | nil =>
    rw [List.map_nil, List.map_eq_nil_iff] at hcounts
    rw [hcounts] at h
    cases h
  | cons first rest ih =>
    cases scopes with
    | nil => cases hcounts
    | cons scope scopes =>
      obtain ⟨hfirst, hrest⟩ := List.cons.inj hcounts
      unfold reserveLocal at h
      cases first with
      | some ls =>
        have hfirst : scope.locals = some (Local.totalSize ls) := hfirst
        simp only [hfirst] at h
        cases h
        refine ⟨[], ls, rest, rfl, rfl, rfl, ?_⟩
        simp only [List.map_cons, declare, Option.map_some, Local.totalSize_concat]
        exact congrArg _ hrest
      | none =>
        have hfirst : scope.locals = none := hfirst
        simp only [hfirst] at h
        obtain ⟨⟨k', scopes₁⟩, hreserve, hpair⟩ := Option.map_eq_some_iff.mp h
        cases hpair
        obtain ⟨inner, ls, outer, hopened, hdeclare, hk, hsizes⟩ := ih hrest hreserve
        refine ⟨none :: inner, ls, outer, by rw [hopened]; rfl, ?_, hk, ?_⟩
        · rw [declare, hdeclare]
          rfl
        · rw [List.map_cons, hsizes, declare, List.map_cons, hfirst]
          rfl

theorem mem_functions_declare {inner outer : List (Option (List Local))} {ls : List Local}
    {closed : List (List Local)} :
    ∀ ls' ∈ functions ⟨closed, inner ++ some (ls ++ [l]) :: outer⟩,
      ls' ∈ functions ⟨closed, inner ++ some ls :: outer⟩ ∨ ls' = ls ++ [l] := by
  intro ls' hls'
  simp only [functions, List.reduceOption_append, List.reduceOption_cons_of_some, List.mem_append,
    List.mem_cons] at hls' ⊢
  tauto

/-- A statement is followed : what it leaves behind is described, and a local that it declares is
one more. -/
def Follows (n : Nesting) (b : Bracket) (s' : Assembler) : Prop :=
  (n.step b).Describes s' ∧
    (n.step b).functions.flatten.Perm (n.functions.flatten ++ b.local?.toList)

theorem follows_plain (hn : n.Describes s) (hplaces : s'.object.Places n.functions)
    (hscopes : s'.scopes = s.scopes) : n.Follows .plain s' :=
  ⟨⟨hscopes ▸ hn.counts, hplaces⟩, by simp [step, Bracket.local?]⟩

theorem follows_function (hn : n.Describes s) {name : String}
    (hplaces : s'.object.Places n.functions) (hscopes : s'.scopes = ⟨name, some 0⟩ :: s.scopes) :
    n.Follows .function s' := by
  refine ⟨⟨?_, hplaces.of_subset fun ls hls => ?_⟩, ?_⟩
  · rw [hscopes, List.map_cons, hn.counts]
    rfl
  · simp only [step, functions, List.reduceOption_cons_of_some, List.mem_append,
      List.mem_cons] at hls ⊢
    tauto
  · simp [step, functions, List.reduceOption_cons_of_some, Bracket.local?]

theorem follows_scope (hn : n.Describes s) {name : String}
    (hplaces : s'.object.Places n.functions) (hscopes : s'.scopes = ⟨name, none⟩ :: s.scopes) :
    n.Follows .scope s' := by
  have hfunctions : (n.step .scope).functions = n.functions := by
    simp only [step, functions, List.reduceOption_cons_of_none]
  refine ⟨⟨?_, hfunctions ▸ hplaces⟩, by simp [hfunctions, Bracket.local?]⟩
  rw [hscopes, List.map_cons, hn.counts]
  rfl

/-- A function that is closed keeps its locals. -/
theorem follows_close (hn : n.Describes s) {scope : Scope}
    (hplaces : s'.object.Places n.functions) (hscopes : s.scopes = scope :: s'.scopes) :
    n.Follows .close s' := by
  have hfunctions : (n.step .close).functions = n.functions := by
    unfold step functions
    rw [List.append_assoc, ← List.reduceOption_append, List.take_append_drop]
  refine ⟨⟨?_, hfunctions ▸ hplaces⟩, by simp [hfunctions, Bracket.local?]⟩
  have hcounts := congrArg (List.drop 1) hn.counts
  rwa [hscopes, ← List.map_drop, ← List.map_drop] at hcounts

theorem follows_declare (hn : n.Describes s) {k : Nat} (hplaces : s'.object.Places n.functions)
    (hreserve : reserveLocal l.datatype.size s.scopes = some (k, s'.scopes))
    (hsymbol : ⟨qualify l.path l.name, .alias, .addr (.make .frameAdd (UInt64.ofNat k))⟩ ∈
      s'.object.symbols)
    (hcode : s'.object.code.Holds l.start (growStack l.datatype.size).encode)
    (hapart : ∀ r ∈ s'.object.unresolved, l.ApartFrom r) : n.Follows (.declare l) s' := by
  obtain ⟨inner, ls, outer, hopened, hdeclare, rfl, hcounts⟩ := declare_spec hn.counts hreserve
  have hfunctions : n.functions = functions ⟨n.closed, inner ++ some ls :: outer⟩ := by
    rw [← hopened]
  have hstep : n.step (.declare l) = ⟨n.closed, inner ++ some (ls ++ [l]) :: outer⟩ := by
    rw [← hdeclare]
    rfl
  have hls : ls ∈ n.functions := by
    rw [hfunctions]
    simp [functions, List.reduceOption_append, List.reduceOption_cons_of_some]
  refine ⟨⟨hcounts, ?_⟩, ?_⟩
  · refine hplaces.declare hls ((hplaces.laid ls hls).append hsymbol hcode) hapart ?_
    rw [hstep, hfunctions]
    exact mem_functions_declare
  · rw [hstep, hfunctions]
    simp only [functions, List.reduceOption_append, List.reduceOption_cons_of_some,
      List.flatten_append, List.flatten_cons, List.append_assoc, Bracket.local?,
      Option.toList_some]
    refine .append_left _ (.append_left _ (.append_left _ ?_))
    exact List.perm_append_comm

/-- The declaration of a local is read as the assembler reads it. -/
theorem follows_of_localSlot (hn : n.Describes s) {c : Cursor}
    (hplaces : s'.object.Places n.functions) (h : localSlot (s.movedTo c) = .ok () s') :
    ∃ name dt d, Parser.declaration c = .ok (name, dt) d ∧
      n.Follows (.declare ⟨s.path, name, dt, s.object.code.size⟩) s' := by
  obtain ⟨name, dt, d, k, scopes, hdeclaration, hreserve, rfl, hsymbols, hcode, hunresolved⟩ :=
    localSlot_spec h
  refine ⟨name, dt, d, hdeclaration, follows_declare hn hplaces hreserve ?_ ?_ fun r hr => ?_⟩
  · rw [hsymbols]
    exact List.mem_append_right _ (List.mem_singleton.mpr rfl)
  · exact Buffer.holds_iff_exists.mpr ⟨s.object.code.toList, [],
      by rw [hcode, List.append_nil]; rfl, Array.length_toList⟩
  · rw [hunresolved] at hr
    exact Or.inl (hn.places.inside r hr)

theorem follows_of_directive (hn : n.Describes s) {t : Token} {c : Cursor}
    (hplaces : s'.object.Places n.functions) (h : directiveNamed t (s.movedTo c) = .ok () s') :
    n.Follows (directiveBracket s t.text c) s' := by
  unfold directiveBracket
  by_cases hfunction : t.text = "func" ∨ t.text = "funx"
  · rw [if_pos hfunction]
    obtain ⟨pushFrame, hnamed⟩ : ∃ pushFrame, directiveNamed t = function pushFrame := by
      rcases hfunction with hname | hname
      · exact ⟨true, directiveNamed_func hname⟩
      · exact ⟨false, directiveNamed_funx hname⟩
    rw [hnamed] at h
    obtain ⟨name, hscopes⟩ := scopes_of_function h
    exact follows_function hn hplaces hscopes
  rw [if_neg hfunction]
  by_cases hscope : t.text = "scope"
  · rw [if_pos hscope]
    rw [directiveNamed_scope hscope] at h
    obtain ⟨name, hscopes⟩ := scopes_of_openScope h
    exact follows_scope hn hplaces hscopes
  rw [if_neg hscope]
  by_cases hend : t.text = "end"
  · rw [if_pos hend]
    rw [directiveNamed_end hend] at h
    obtain ⟨scope, hscopes⟩ := scopes_of_closeScope h
    exact follows_close hn hplaces hscopes
  rw [if_neg hend]
  by_cases hlocal : t.text = "local"
  · rw [if_pos hlocal]
    rw [directiveNamed_local hlocal] at h
    obtain ⟨name, dt, d, hdeclaration, hfollows⟩ := follows_of_localSlot hn hplaces h
    rw [hdeclaration]
    exact hfollows
  rw [if_neg hlocal]
  have hscopes : s'.scopes = (s.movedTo c).scopes :=
    (sameScopes_directiveNamed (by simp_all [scopeDirectives])).of_ok h
  exact follows_plain hn hplaces hscopes

/-- Every statement that is carried out is followed. -/
theorem Describes.follows (hn : n.Describes s) (huse : s.atUse = false)
    (h : statementBody expand s = .ok () s') : n.Follows s.bracket s' := by
  have hplaces := Assembler.places_of_statementBody hn.places huse h
  unfold Assembler.bracket
  rcases statementBody_cases expand s with
    ⟨hkind, hbody⟩ | ⟨op, -, hkind, hbody⟩ | ⟨hkind, hop, -⟩ | ⟨-, -, e, hbody⟩
  · rw [hbody] at h
    rw [if_pos hkind]
    obtain ⟨t, c, hname, h⟩ := ofParser_bind_eq_ok.mp h
    obtain ⟨rfl, rfl⟩ := expect_eq_ok hname
    exact follows_of_directive hn hplaces h
  · rw [hbody] at h
    rw [if_neg (by rw [hkind]; decide)]
    exact follows_plain hn hplaces (writes_of_instruction h).scopes
  · simp [Assembler.atUse, hkind, hop] at huse
  · rw [hbody] at h
    cases h

/-- Statements lead from what is described to what is described, and lose no local. -/
theorem tracks_nesting : Tracks fun ts s s' => ∀ n : Nesting, n.Describes s →
    (n.behind (ts.map Assembler.bracket)).Describes s' ∧
      (n.behind (ts.map Assembler.bracket)).functions.flatten.Perm
        (n.functions.flatten ++ ts.filterMap (·.bracket.local?)) where
  of_eq hobject hscopes n hn := ⟨⟨hscopes ▸ hn.counts, hobject ▸ hn.places⟩, by simp [behind]⟩
  withStatic _ _ n hn := ⟨⟨hn.counts, hn.places.mono List.prefix_rfl List.prefix_rfl
    (List.append_nil _).symm (by simp)⟩, by simp [behind]⟩
  trans {ts us s s₁ s'} h h' n hn := by
    obtain ⟨hn₁, hperm⟩ := h n hn
    obtain ⟨hn', hperm'⟩ := h' _ hn₁
    simp only [behind, List.map_append, List.foldl_append, List.filterMap_append] at hn' hperm' ⊢
    refine ⟨hn', hperm'.trans ?_⟩
    rw [← List.append_assoc]
    exact hperm.append_right _
  plain {expand s s'} huse h n hn := by
    obtain ⟨hdescribes, hperm⟩ := hn.follows huse h
    refine ⟨hdescribes, ?_⟩
    cases hlocal : s.bracket.local? <;> simpa [behind, hlocal] using hperm

end Nesting

namespace Assembler

/-- The functions of the statements that were carried out, with their locals. -/
def nesting (ts : List Assembler) : Nesting := Nesting.empty.behind (ts.map bracket)

/-- Whatever is fed, all locals are described. -/
theorem Carried.describes {name : String} {ts : List Assembler} {s : Assembler}
    (h : Carried name ts s) : (nesting ts).Describes s ∧
      (nesting ts).functions.flatten.Perm (ts.filterMap (·.bracket.local?)) := by
  induction h with
  | empty =>
    refine ⟨⟨rfl, ?_, ?_, ?_⟩, .nil⟩
    all_goals simp [nesting, Nesting.behind, Nesting.empty, Nesting.functions, Assembler.empty,
      Object.empty]
  | @feed ts s tokens hs ih =>
    obtain ⟨hdescribes, hperm⟩ :=
      Nesting.tracks_nesting.feed hs.reachable.settled tokens _ ih.1
    have hbehind : nesting (ts ++ s.steps tokens) =
        (nesting ts).behind ((s.steps tokens).map bracket) := by
      simp [nesting, Nesting.behind]
    rw [hbehind, List.filterMap_append]
    exact ⟨hdescribes, hperm.trans (ih.2.append_right _)⟩

/-- Binding the references of a module leaves its locals where they are. -/
theorem Carried.laid_of_finish {name : String} {ts : List Assembler} {s : Assembler} {o : Object}
    (hs : Carried name ts s) (h : s.finish = .ok o) {ls : List Local}
    (hls : ls ∈ (nesting ts).functions) : Local.Laid o ls := by
  have hplaces := hs.describes.1.places
  have hlaid := hplaces.laid ls hls
  have hbinds := binds_of_finish hs.reachable.settled.consistent hs.produced.emits.carries h
  refine ⟨(finish_keeps h).1 ▸ hlaid.symbols, fun l hl => ?_⟩
  obtain ⟨hle, hread⟩ := hlaid.code l hl
  refine ⟨by rw [hbinds.code.size]; exact hle, Eq.trans (hbinds.code.read_eq fun p hp => ?_) hread⟩
  obtain ⟨r, hr, hp⟩ := List.mem_filterMap.mp hp
  obtain ⟨hoffset, hlength⟩ := filling?_eq_some hp
  rw [hoffset, hlength]
  exact (hplaces.apart ls hls l hl r hr).symm

end Assembler

end CellMachine
