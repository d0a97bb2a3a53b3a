import CellMachine.Proofs.Image.Gaps

/-!
# Names of places in the code

A label and a function name the place where the code ends when they are defined. Statements leave
whole instructions behind, and those that fail nothing at all, so that such a place lies between two
of the instructions that the source asks for (`Assembler.Marks`). Linking puts the module on a page
and keeps the sizes of its instructions. So every such name stands in an image for a place between
two instructions of its module (`Image.atBoundary_of_ofObjects`).
-/

namespace CellMachine

/-- Where an instruction starts, or the last one ends, in a code buffer as it is listed. -/
def IsBoundary (code : Buffer) (k : Nat) : Prop :=
  ∃ ls, disassembleAll code = .ok ls ∧ (k = code.size ∨ ∃ l ∈ ls, l.offset = k)

/-! ## Boundaries between instructions -/

theorem Tiles.boundary {es fs : List Emission} {ls : List Listed} {stop pos : Nat}
    (htiles : Tiles stop pos ls) (hlists : List.Forall₂ Emission.Lists es ls) (h : fs <+: es) :
    pos + emissionsSize fs = stop ∨ ∃ l ∈ ls, l.offset = pos + emissionsSize fs := by
  induction fs generalizing es ls pos with
  | nil =>
    cases hlists with
    | nil => exact .inl htiles
    | @cons _ l _ ls _ _ => exact .inr ⟨l, List.mem_cons_self, htiles.1⟩
  | cons f fs ih =>
    cases hlists with
    | nil => exact absurd (List.prefix_nil.mp h) (List.cons_ne_nil f fs)
    | @cons e l es ls hl hrest =>
      obtain ⟨rfl, hfs⟩ := List.cons_prefix_cons.mp h
      have hsize : pos + emissionsSize (f :: fs) = pos + l.size + emissionsSize fs := by
        rw [hl.size_eq]
        simp [emissionsSize, Nat.add_assoc]
      rw [hsize]
      obtain hstop | ⟨m, hm, hoffset⟩ := ih htiles.2 hrest hfs
      · exact .inl hstop
      · exact .inr ⟨m, List.mem_cons_of_mem l hm, hoffset⟩

/-- What the first of the emissions have led to ends at a boundary. -/
theorem EncodesCode.isBoundary {es fs : List Emission} {code : Buffer} (h : EncodesCode es code)
    (hfs : fs <+: es) : IsBoundary code (emissionsSize fs) := by
  obtain ⟨ls, hls, hlists, htiles⟩ := listedAs_of_encodes h
  have hboundary := htiles.boundary hlists hfs
  rw [Nat.zero_add] at hboundary
  exact ⟨ls, hls, hboundary⟩

/-! ## Places in an assembler -/

namespace Assembler

/-- The code has grown by what `es` ask for, and each place that has got a name is where the first
of them have led to. -/
structure Marks (es : List Emission) (s s' : Assembler) : Prop where
  size : s'.object.code.size = s.object.code.size + emissionsSize es
  symbols : ∀ x ∈ s'.object.symbols, x ∈ s.object.symbols ∨ (x.kind.isPlace = true →
    ∃ fs, fs <+: es ∧
      x.value = .addr (.code 0 (UInt64.ofNat (s.object.code.size + emissionsSize fs))))

theorem Marks.of_same {s s' : Assembler} (hcode : s'.object.code = s.object.code)
    (hsymbols : s'.object.symbols = s.object.symbols) : Marks [] s s' where
  size := by rw [hcode]; rfl
  symbols x hx := .inl (hsymbols ▸ hx)

theorem Marks.trans {es fs : List Emission} {s s₁ s' : Assembler} (h : Marks es s s₁)
    (h' : Marks fs s₁ s') : Marks (es ++ fs) s s' where
  size := by
    rw [h'.size, h.size, Nat.add_assoc]
    simp [emissionsSize]
  symbols x hx := by
    obtain hx | hplace := h'.symbols x hx
    · refine (h.symbols x hx).imp_right fun hplace hkind => ?_
      obtain ⟨gs, hgs, hvalue⟩ := hplace hkind
      exact ⟨gs, hgs.trans (List.prefix_append es fs), hvalue⟩
    · refine .inr fun hkind => ?_
      obtain ⟨gs, hgs, hvalue⟩ := hplace hkind
      refine ⟨es ++ gs, (List.prefix_append_right_inj es).mpr hgs, ?_⟩
      rw [hvalue, h.size, Nat.add_assoc]
      simp [emissionsSize]

instance : Std.Refl (Marks []) := ⟨fun _ => .of_same rfl rfl⟩

instance : Trans (Marks []) (Marks []) (Marks []) := ⟨Marks.trans⟩

/-- The object has the same symbols. -/
def SameSymbols (s s' : Assembler) : Prop := s'.object.symbols = s.object.symbols

instance : Std.Refl SameSymbols := ⟨fun _ => rfl⟩

instance : Trans SameSymbols SameSymbols SameSymbols := ⟨fun h h' => Eq.trans h' h⟩

end Assembler

namespace Asm

open Assembler (Marks SameSymbols)

theorem admitsWriting_sameSymbols : AdmitsWriting SameSymbols where
  movedTo _ _ _ := rfl
  appendStatic _ _ := rfl
  appendCode _ _ := rfl
  refer _ _ _ := rfl
  relocate _ _ := rfl
  overwriteCode _ _ _ _ _ h := h

theorem admits_marks_nil : Admits (Marks []) where
  movedTo _ _ _ := .of_same rfl rfl
  appendStatic _ _ := .of_same rfl rfl
  withSymbol s x _ hx := by
    refine ⟨rfl, fun y hy => ?_⟩
    rcases List.mem_append.mp hy with hy | hy
    · exact .inl hy
    · rw [List.mem_singleton.mp hy]
      exact .inr fun hkind => ⟨[], List.nil_prefix, hx hkind⟩
  require s name := by
    unfold Object.require
    split
    · exact .of_same rfl rfl
    · exact .of_same rfl rfl
  permissions _ _ _ := .of_same rfl rfl
  scopes _ _ := .of_same rfl rfl

/-- The names of places follow the source. -/
theorem follows_marks : Follows Marks where
  admits := admits_marks_nil
  of_object_eq h := .of_same (by rw [h]) (by rw [h])
  withStatic _ _ := .of_same rfl rfl
  trans := Marks.trans
  append {e x} hx _ s := by
    refine ⟨?_, fun y hy => .inl hy⟩
    rw [(Assembler.adds_appendCode s x.encode).size_eq, Instruction.length_encode, hx.size_eq]
    simp [emissionsSize]
  instruction {op s s'} h := by
    obtain ⟨i, x, hread, hencodes, hadds⟩ := instruction_spec h
    have hsymbols : SameSymbols s s' := (relates_instruction admitsWriting_sameSymbols op).of_ok h
    refine ⟨i, hread, ?_, fun y hy => .inl (hsymbols ▸ hy)⟩
    rw [hadds.size_eq, Instruction.length_encode, hencodes.size_eq]
    simp [emissionsSize, Emission.size]

end Asm

theorem Assembler.Produced.marks {name : String} {es : List Emission} {s : Assembler}
    (h : Produced name es s) : Marks es (Assembler.empty name) s := by
  induction h with
  | empty => exact .of_same rfl rfl
  | feed tokens hs ih => exact ih.trans (Asm.follows_marks.feed hs.settled tokens)

/-! ## Places in an object -/

namespace Object

/-- Each place with a name is where the first of the emissions have led to. -/
def NamesPlaces (es : List Emission) (o : Object) : Prop :=
  ∀ x ∈ o.symbols, x.kind.isPlace = true →
    ∃ fs, fs <+: es ∧ x.value = .addr (.code 0 (UInt64.ofNat (emissionsSize fs)))

theorem namesPlaces_of_produced {name : String} {es : List Emission} {s : Assembler}
    (h : Assembler.Produced name es s) : s.object.NamesPlaces es := by
  intro x hx hkind
  rcases h.marks.symbols x hx with hx | hplace
  · cases hx
  · obtain ⟨fs, hfs, hvalue⟩ := hplace hkind
    have hsize : (Assembler.empty name).object.code.size + emissionsSize fs = emissionsSize fs :=
      Nat.zero_add _
    exact ⟨fs, hfs, by rw [hvalue, hsize]⟩

/-- What is known of every compiled object. -/
theorem Compiled.exists_carries {o : Object} (h : o.Compiled) :
    ∃ es, o.Carries es ∧ o.NamesPlaces es ∧ (o.symbols.map (·.name)).Nodup := by
  obtain ⟨name, s, hs, hobject⟩ := h
  obtain ⟨es, hes⟩ := hs.exists_produced
  have hplaces := namesPlaces_of_produced hes
  have hdistinct := hs.settled.consistent.distinct
  rcases hobject with hfinish | rfl
  · have hsymbols := (Assembler.finish_keeps hfinish).1
    unfold NamesPlaces at hplaces
    rw [← hsymbols] at hplaces hdistinct
    exact ⟨es, Assembler.carries_of_finish hes hfinish, hplaces, hdistinct⟩
  · exact ⟨es, hes.emits.carries, hplaces, hdistinct⟩

end Object

/-! ## Places in an image -/

namespace Address

theorem base?_code (page : Nat) (x : UInt64) : (Address.code page x).base? = some .code :=
  base?_make .code _

theorem toNat_intraOffset_code (k : Nat) :
    (Address.code 0 (UInt64.ofNat k)).intraOffset.toNat = k % 2 ^ 56 := by
  rw [toNat_intraOffset]
  unfold Address.code
  rw [toNat_offset_paged (by decide), UInt64.toNat_ofNat']
  omega

end Address

namespace Image

/-- An address on a page between two instructions of the object there, or at its ends, in the 56
bits that an address has for it. -/
structure AtBoundary (image : Image) (page : Nat) (a : Address) : Prop where
  base : a.base? = some .code
  page_eq : a.page = page
  boundary : ∃ o k, image.objects[page]? = some o ∧ IsBoundary o.code k ∧
    a.intraOffset.toNat = k % 2 ^ 56

/-- A place keeps its distance from the start of the code on every page. -/
theorem atBoundary_of_onPage {image : Image} {page : Nat} {es fs : List Emission} {o : Object}
    {v : Value} (ho : image.objects[page]? = some o) (hcode : EncodesCode es o.code)
    (hfs : fs <+: es)
    (hv : (Value.addr (.code 0 (UInt64.ofNat (emissionsSize fs)))).OnPage page v) :
    ∃ a, v = .addr a ∧ image.AtBoundary page a := by
  obtain ⟨a, rfl, ha⟩ : ∃ a, v = .addr a ∧
      (Address.code 0 (UInt64.ofNat (emissionsSize fs))).OnPage page a := by
    cases hv with
    | addr ha => exact ⟨_, rfl, ha⟩
    | other hne => exact absurd rfl hne
  have hbase := Address.base?_code 0 (UInt64.ofNat (emissionsSize fs))
  refine ⟨a, rfl, ha.base.trans hbase, ha.page (Address.isPaged_iff.mpr ⟨.code, hbase, rfl⟩), o,
    emissionsSize fs, ho, hcode.isBoundary hfs, ?_⟩
  rw [ha.intraOffset, Address.toNat_intraOffset_code]

/-- Every label and every function stands in an image for a place between two instructions of its
module, on the page of the module. -/
theorem atBoundary_of_ofObjects {objects : List Object} {image : Image}
    (hobjects : ∀ o ∈ objects, o.Compiled) (h : Image.ofObjects objects = .ok image) :
    (∀ (p : Nat) (o : Object), objects[p]? = some o → ∀ y ∈ o.symbols, y.kind.isPlace = true →
      ∃ a, image.symbols.get? y.name = some ⟨y.name, y.kind, .addr a⟩ ∧ image.AtBoundary p a) ∧
    ∀ name x, image.symbols.get? name = some x → x.kind.isPlace = true →
      ∃ (p : Nat) (o : Object) (a : Address), objects[p]? = some o ∧
        name ∈ o.symbols.map (·.name) ∧ x.value = .addr a ∧ image.AtBoundary p a := by
  obtain ⟨l, hadd, hlink⟩ := except_bind_eq_ok.mp h
  obtain ⟨linked, hlinked, rfl⟩ := Linker.link_eq_ok hlink
  have hown : ∀ o ∈ objects, (o.symbols.map (·.name)).Nodup := by
    intro o ho
    obtain ⟨_, -, -, hdistinct⟩ := (hobjects o ho).exists_carries
    exact hdistinct
  obtain ⟨hl, hall⟩ := Linker.consistent_empty.addAll hown hadd
  change l.image.objects = objects at hall
  subst hall
  have hplace : ∀ (p : Nat) (o : Object), l.image.objects[p]? = some o → ∀ y ∈ o.symbols,
      y.kind.isPlace = true → ∀ x : Symbol, y.OnPage p x → ∃ a, x.value = .addr a ∧
        ({ l.image with objects := linked } : Image).AtBoundary p a := by
    intro p o hp y hy hkind x hx
    obtain ⟨o', hp', hobject⟩ := (Linker.linkObjects_get? hlinked).2 p o hp
    obtain ⟨es, hcarries, hplaces, -⟩ := (hobjects o (List.mem_of_getElem? hp)).exists_carries
    obtain ⟨fs, hfs, hvalue⟩ := hplaces y hy hkind
    have hvalue' := hx.value
    rw [hvalue] at hvalue'
    exact atBoundary_of_onPage hp' (Linker.patched_linkObject hcarries hobject).2.1 hfs hvalue'
  constructor
  · intro p o hp y hy hkind
    obtain ⟨hget, hx⟩ := hl.get?_symbols hp hy
    obtain ⟨a, ha, hboundary⟩ := hplace p o hp y hy hkind _ hx
    exact ⟨a, hget.trans (congrArg (some ∘ Symbol.mk y.name y.kind) ha), hboundary⟩
  · intro name x hget hkind
    obtain ⟨p, o, y, hp, hy, rfl, hx⟩ := (hl.symbols name x).mp hget
    obtain ⟨a, ha, hboundary⟩ := hplace p o hp y hy (hx.kind ▸ hkind) x hx
    exact ⟨p, o, a, hp, List.mem_map_of_mem hy, ha, hboundary⟩

/-- A function with a label of a macro, and a use of another macro that fails behind its label.
Then come more tokens. -/
def detourTokens (more : List (TokenKind × String)) : Array Token :=
  let words : List (TokenKind × String) :=
    [(.directive, "#"), (.name, "macro"), (.name, "m"), (.newline, "\n"),
      (.name, "nop"), (.newline, "\n"),
      (.directive, "#"), (.name, "label"), (.name, "inner"), (.newline, "\n"),
      (.directive, "#"), (.name, "end"), (.newline, "\n"),
      (.directive, "#"), (.name, "macro"), (.name, "n"), (.newline, "\n"),
      (.directive, "#"), (.name, "label"), (.name, "lost"), (.newline, "\n"),
      (.name, "nop"), (.name, "x"), (.newline, "\n"),
      (.directive, "#"), (.name, "end"), (.newline, "\n"),
      (.directive, "#"), (.name, "func"), (.name, "f"), (.newline, "\n"),
      (.name, "m"), (.newline, "\n"), (.name, "n"), (.newline, "\n")]
  ((words ++ more).map fun w => ⟨w.1, w.2, .start⟩).toArray.push (.endOfCode .start)

/-- The function goes on behind the use that has failed. -/
def detoured : Assembler :=
  (((Assembler.empty "a").feed (detourTokens [])).2.feed (detourTokens
    [(.name, "jmp"), (.colon, ":"), (.name, "inner"), (.newline, "\n"), (.directive, "#"),
      (.name, "label"), (.name, "after"), (.newline, "\n"), (.directive, "#"), (.name, "end")])).2

/-- The object of this function, with a label between its instructions and one at their end. -/
def detourObject : Object :=
  ⟨"a", [], ∅, ∅, #[100, 15, 0, 0, 0, 15, 0, 0, 80, 15, 0, 0, 8, 0, 0, 0, 0, 0, 0, 128], #[],
    [⟨"f", .function, .addr (.code 0 0)⟩, ⟨"f.inner", .label, .addr (.code 0 8)⟩,
      ⟨"f.after", .label, .addr (.code 0 20)⟩], [], [12]⟩

theorem atBoundary_of_ofObjects_detour :
    ∃ image a b, Image.ofObjects [startObject, detourObject] = .ok image ∧
      image.symbols.get? "f.inner" = some ⟨"f.inner", .label, .addr a⟩ ∧ image.AtBoundary 1 a ∧
      image.symbols.get? "f.after" = some ⟨"f.after", .label, .addr b⟩ ∧ image.AtBoundary 1 b := by
  have hstart : startObject.Compiled :=
    ⟨"b", ((Assembler.empty "b").feed startTokens).2, .feed _ .empty, .inl (by cbv)⟩
  have hdetour : detourObject.Compiled := ⟨"a", detoured, .feed _ (.feed _ .empty), .inl (by cbv)⟩
  have hok : (Image.ofObjects [startObject, detourObject]).isOk = true := by cbv
  generalize hlink : Image.ofObjects [startObject, detourObject] = r at hok
  cases r with
  | error e => cases hok
  | ok image =>
    have hplaces := (atBoundary_of_ofObjects (fun o ho => by
      rcases List.mem_pair.mp ho with rfl | rfl
      · exact hstart
      · exact hdetour) hlink).1 1 detourObject rfl
    obtain ⟨a, ha⟩ := hplaces ⟨"f.inner", .label, .addr (.code 0 8)⟩ (by simp [detourObject]) rfl
    obtain ⟨b, hb⟩ := hplaces ⟨"f.after", .label, .addr (.code 0 20)⟩ (by simp [detourObject]) rfl
    exact ⟨image, a, b, rfl, ha.1, ha.2, hb.1, hb.2⟩

end Image

end CellMachine
