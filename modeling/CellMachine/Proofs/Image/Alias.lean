import CellMachine.Proofs.Assembly.Aliased
import CellMachine.Proofs.Image.Gaps

/-!
# Aliases for numbers

A number can have a name, defined in the same module in front of its use or behind it, or in another
module. In all of these places the name is worth as much as the number : the program can be
assembled and linked just if the instruction with the number can, and its code is the same
(`Replaceable.linkedCode?_alias`). Relocating does not see the slot of the name
(`Linker.relocate_write`), so it does not matter whether the number is there before or is written
afterwards (`Linker.relocate_of_unbound`).
-/

namespace CellMachine

/-! ## Slots that relocations do not touch -/

namespace Linker

variable {module : String} {page pos : Nat} {code : Buffer} {offsets : List Nat} {xs : List UInt8}

/-- What is written apart from the relocations can be written before or after them. -/
theorem relocate_write (hapart : ∀ n ∈ offsets, n + 8 ≤ pos ∨ pos + xs.length ≤ n) :
    relocate module page (code.write pos xs) offsets =
      (relocate module page code offsets).map (·.write pos xs) := by
  induction offsets generalizing code with
  | nil => rfl
  | cons n rest ih =>
    obtain ⟨hn, hrest⟩ := List.forall_mem_cons.mp hapart
    by_cases hle : n + 8 ≤ code.size
    · have hstamp : stampedBytes page (code.write pos xs) n = stampedBytes page code n := by
        have hread : (code.write pos xs).read n Datatype.addr.size = code.read n Datatype.addr.size :=
          Buffer.read_write_of_apart (by simp only [Datatype.size]; omega)
        unfold stampedBytes
        rw [hread]
      have hcomm : (code.write pos xs).write n (stampedBytes page code n) =
          (code.write n (stampedBytes page code n)).write pos xs := by
        refine Buffer.write_comm ?_
        simp only [Buffer.Apart, length_stampedBytes]
        omega
      rw [relocate_of_le (by simpa using hle), relocate_of_le hle, hstamp, hcomm, ih hrest]
    · have hread (code : Buffer) (hle : ¬n + 8 ≤ code.size) : readCell? code n .addr = none :=
        if_neg hle
      unfold relocate
      rw [hread _ hle, hread _ (by simpa using hle)]
      rfl

/-- The code of an object without references is relocated only. -/
theorem relocate_of_resolved {symbols : NameMap Symbol} {o o' : Object} (hnone : o.unresolved = [])
    (h : linkObject symbols page o = .ok (o', [])) :
    relocate o.name page o.code o.relocations = .ok o'.code := by
  obtain ⟨code, code', hrelocate, hresolve, rfl⟩ := linkObject_eq_ok h
  rw [hnone] at hresolve
  cases hresolve
  exact hrelocate

/-- So is that of an object with one reference, as if its number had been there from the start. -/
theorem relocate_of_unbound {symbols : NameMap Symbol} {o b o' : Object} {r : Reference} {v : Value}
    (ho : o = { b with
      code := b.code.write r.offset (List.replicate r.datatype.size 0), unresolved := [r] })
    (hholds : b.code.Holds r.offset (v.toCell.bytes r.datatype))
    (hapart : ∀ n ∈ b.relocations, n + 8 ≤ r.offset ∨ r.offset + r.datatype.size ≤ n)
    (hv : boundValue? symbols r = some v) (h : linkObject symbols page o = .ok (o', [])) :
    relocate b.name page b.code b.relocations = .ok o'.code := by
  obtain ⟨code, code', hrelocate, hresolve, rfl⟩ := linkObject_eq_ok h
  subst ho
  obtain ⟨w, hw, -, hresolve⟩ := resolve_cons hresolve
  cases hv.symm.trans hw
  cases hresolve
  have hwrite : relocate b.name page ((b.code.write r.offset (List.replicate r.datatype.size 0)).write
      r.offset (v.toCell.bytes r.datatype)) b.relocations = .ok _ :=
    (relocate_write (by simpa using hapart)).trans (congrArg (Except.map _) hrelocate)
  rwa [hholds.write_write (by simp)] at hwrite

end Linker

/-! ## Programs -/

/-- The code of an object among others that are linked in this order, if they can be. -/
def Image.codeOf? (objects : List Object) (k : Nat) : Option Buffer :=
  match Image.ofObjects objects with
  | .ok image => image.objects[k]?.map (·.code)
  | .error _ => none

/-- The code of a module of a program, if its modules can be assembled and linked in this order. -/
def linkedCode? (modules : List (Array Token × String)) (k : Nat) : Option Buffer :=
  match modules.mapM fun m => assemble m.1 m.2 with
  | .ok objects => Image.codeOf? objects k
  | .error _ => none

/-- These are the objects of the modules. -/
abbrev Assembles (modules : List (Array Token × String)) (objects : List Object) : Prop :=
  List.Forall₂ (fun m o => assemble m.1 m.2 = .ok o) modules objects

variable {objects : List Object} {o : Object}

theorem linkedCode?_of_assembles {modules : List (Array Token × String)}
    (h : Assembles modules objects) (k : Nat) :
    linkedCode? modules k = Image.codeOf? objects k := by
  have hmap : modules.mapM (fun m => assemble m.1 m.2) = .ok objects := by
    induction h with
    | nil => rfl
    | cons hm _ ih =>
      rw [List.mapM_cons, hm, ih]
      rfl
  unfold linkedCode?
  rw [hmap]

theorem linkedCode?_of_error {modules : List (Array Token × String)} {m : Array Token × String}
    (hm : m ∈ modules) (h : ¬∃ o, assemble m.1 m.2 = .ok o) (k : Nat) :
    linkedCode? modules k = none := by
  have hmap (objects : List Object) : modules.mapM (fun m => assemble m.1 m.2) ≠ .ok objects := by
    induction modules generalizing objects with
    | nil => cases hm
    | cons m' rest ih =>
      rw [List.mapM_cons]
      intro hok
      obtain ⟨o, ho, hok⟩ := except_bind_eq_ok.mp hok
      obtain ⟨os, hos, -⟩ := except_bind_eq_ok.mp hok
      rcases List.mem_cons.mp hm with rfl | hm
      · exact h ⟨o, ho⟩
      · exact ih hm os hos
  unfold linkedCode?
  cases hmodules : modules.mapM fun m => assemble m.1 m.2 with
  | ok objects => exact absurd hmodules (hmap objects)
  | error e => rfl

/-- Objects that can be linked have the code that linking gives them. -/
theorem Image.exists_codeOf? {k : Nat} (hown : ∀ o ∈ objects, (o.symbols.map (·.name)).Nodup)
    (h : Linkable objects) (hk : objects[k]? = some o) :
    ∃ (l : Linker) (o' : Object), l.Consistent ∧ l.image.objects = objects ∧
      Linker.linkObject l.image.symbols k o = .ok (o', []) ∧ codeOf? objects k = some o'.code := by
  obtain ⟨image, himage⟩ := (exists_ofObjects_iff hown).mpr h
  obtain ⟨l, hadd, hlink⟩ := except_bind_eq_ok.mp himage
  obtain ⟨linked, hlinked, rfl⟩ := Linker.link_eq_ok hlink
  obtain ⟨hl, hobjects⟩ := Linker.consistent_empty.addAll hown hadd
  change l.image.objects = objects at hobjects
  subst hobjects
  obtain ⟨-, hget⟩ := Linker.linkObjects_get? hlinked
  obtain ⟨o', ho', hobject⟩ := hget k o hk
  rw [Nat.zero_add] at hobject
  refine ⟨l, o', hl, rfl, hobject, ?_⟩
  unfold codeOf?
  rw [himage]
  simp [ho']

theorem Image.codeOf?_of_not_linkable (hown : ∀ o ∈ objects, (o.symbols.map (·.name)).Nodup)
    (h : ¬Linkable objects) (k : Nat) : codeOf? objects k = none := by
  unfold codeOf?
  cases himage : ofObjects objects with
  | ok image => exact absurd ((exists_ofObjects_iff hown).mp ⟨image, himage⟩) h
  | error e => rfl

theorem linkable_single (hrequired : o.required = []) (hnone : o.unresolved = []) (ho : o.Fillable)
    (hown : (o.symbols.map (·.name)).Nodup) : Linkable [o] := by
  constructor
  · exact ⟨by simp, by simp, by simpa [symbolNames] using hown⟩
  · simp [hrequired]
  · simpa using ho.relocations
  · simp [hnone]

/-- An object that refers to nothing but the symbol of another one can be linked with it. -/
theorem linkable_pair {d : Object} {y : Symbol} {name : String}
    (hd : d = { Object.empty name with symbols := [y] }) (hname : o.name ≠ name)
    (hsymbols : o.symbols = []) (hrequired : o.required = []) (ho : o.Fillable)
    (hrefs : ∀ r ∈ o.unresolved, y.name = r.name ∧ (y.value.fit? r.datatype).isSome = true) :
    Linkable [d, o] := by
  subst hd
  constructor
  · constructor
    · simp
    · simpa [Object.empty] using hname.symm
    · simp [symbolNames, hsymbols]
  · simp [hrequired, Object.empty]
  · intro o' ho' n hn
    rcases List.mem_pair.mp ho' with rfl | rfl
    · cases hn
    · exact ho.relocations n hn
  · intro o' ho' r hr
    rcases List.mem_pair.mp ho' with rfl | rfl
    · cases hr
    · exact ⟨ho.unresolved r hr, _, List.mem_cons_self, y, List.mem_singleton_self y, hrefs r hr⟩

namespace Asm

/-- The code of an instruction in a module of its own, on a page. -/
def codeOnPage? (j : SourceInstruction) (name : String) (page : Nat) : Option Buffer :=
  match writeInstruction j (.empty name) with
  | .ok () b => (Linker.relocate name page b.object.code b.object.relocations).toOption
  | .error _ _ => none

theorem codeOnPage?_of_ok {j : SourceInstruction} {name : String} {page : Nat} {b : Assembler}
    {code : Buffer} (hb : writeInstruction j (.empty name) = .ok () b)
    (hcode : Linker.relocate name page b.object.code b.object.relocations = .ok code) :
    codeOnPage? j name page = some code := by
  unfold codeOnPage?
  rw [hb]
  simp only [hcode]
  rfl

theorem codeOnPage?_of_error {j : SourceInstruction} {name : String}
    (h : ¬∃ b, writeInstruction j (.empty name) = .ok () b) (page : Nat) :
    codeOnPage? j name page = none := by
  unfold codeOnPage?
  cases hwrite : writeInstruction j (.empty name) with
  | ok _ b => exact absurd ⟨b, hwrite⟩ h
  | error _ _ => rfl

end Asm

namespace Replaceable

open Assembler (aliasLine)

variable {j : SourceInstruction} {front back : List Token} {number : Token} {l : IntLiteral}
  {x name other : String} {v : Value} {b : Assembler} {tokens literal definition : Array Token}
  {path : List String}

/-- The code of a module by itself that is the instruction with the number, but for its symbols. -/
theorem linkedCode?_single (h : Replaceable j front number back l x) (ys : List Symbol)
    (htokens : ∀ o, assemble tokens name = .ok o ↔
      ∃ b, Asm.writeInstruction j (.empty name) = .ok () b ∧ o = { b.object with symbols := ys }) :
    linkedCode? [(tokens, name)] 0 = Asm.codeOnPage? j name 0 := by
  by_cases hwrite : ∃ b, Asm.writeInstruction j (.empty name) = .ok () b
  · obtain ⟨b, hb⟩ := hwrite
    have hassemble := (htokens _).mpr ⟨b, hb, rfl⟩
    obtain ⟨⟨es, hes⟩, hown⟩ := carries_of_assemble hassemble
    have hobject := h.object_of_writeInstruction hb
    have hnone : b.object.unresolved = [] := by rw [hobject]; rfl
    have hname : b.object.name = name := by rw [hobject]; rfl
    have hlinkable : Linkable [{ b.object with symbols := ys }] :=
      linkable_single (by rw [hobject]; rfl) hnone hes.fillable hown
    obtain ⟨l, o', -, -, hlink, hcode⟩ :=
      Image.exists_codeOf? (k := 0) (by simpa using hown) hlinkable rfl
    have hrelocate : Linker.relocate b.object.name 0 b.object.code b.object.relocations =
        .ok o'.code := Linker.relocate_of_resolved (o := { b.object with symbols := ys }) hnone hlink
    rw [hname] at hrelocate
    have hmodules : Assembles [(tokens, name)] [{ b.object with symbols := ys }] :=
      .cons hassemble .nil
    rw [linkedCode?_of_assembles hmodules, hcode, Asm.codeOnPage?_of_ok hb hrelocate]
  · have herror : ¬∃ o, assemble tokens name = .ok o := fun ⟨o, ho⟩ => by
      obtain ⟨b, hb, -⟩ := (htokens o).mp ho
      exact hwrite ⟨b, hb⟩
    rw [Asm.codeOnPage?_of_error hwrite,
      linkedCode?_of_error (m := (tokens, name)) List.mem_cons_self herror]

/-- The linker finds the number for a name that is defined in another module. -/
theorem boundValue?_alias {linker : Linker} {d : Object} {r : Reference}
    (hv : Value.ofInt? l.toInt .i64 = some v) (hlinker : linker.Consistent)
    (hd : d ∈ linker.image.objects) (hy : ⟨r.name, .alias, v⟩ ∈ d.symbols) :
    Linker.boundValue? linker.image.symbols r = Value.ofInt? l.toInt r.datatype := by
  obtain ⟨p, hp⟩ := List.getElem?_of_mem hd
  have hget := (hlinker.get?_symbols hp hy).1
  have hvalue : v.withPage p = v :=
    Value.withPage_of_ne (by rw [Value.datatype_of_ofInt? hv]; decide) p
  unfold Linker.boundValue?
  rw [hget, ← Value.fit?_of_ofInt?_i64 hv]
  simp [Symbol.withPage, hvalue]

/-- The module of the alias can stand on either side of a module that is linked as the instruction
with the number is. -/
theorem linkedCode?_beside {d : Object} (hd : assemble definition other = .ok d)
    (hok : ∀ b, Asm.writeInstruction j (.empty name) = .ok () b →
      ∃ o, assemble tokens name = .ok o ∧ Linkable [d, o] ∧
        ∀ (linker : Linker) page o', linker.Consistent → d ∈ linker.image.objects →
          Linker.linkObject linker.image.symbols page o = .ok (o', []) →
            Linker.relocate name page b.object.code b.object.relocations = .ok o'.code)
    (herror : (¬∃ b, Asm.writeInstruction j (.empty name) = .ok () b) →
      ∀ o, assemble tokens name = .ok o → ¬Linkable [d, o]) :
    linkedCode? [(definition, other), (tokens, name)] 1 = Asm.codeOnPage? j name 1 ∧
      linkedCode? [(tokens, name), (definition, other)] 0 = Asm.codeOnPage? j name 0 := by
  have howns {o : Object} (ho : assemble tokens name = .ok o) (p : Object) (hp : p ∈ [d, o]) :
      (p.symbols.map (·.name)).Nodup := by
    rcases List.mem_pair.mp hp with rfl | rfl
    · exact (carries_of_assemble hd).2
    · exact (carries_of_assemble ho).2
  have hcode {o : Object} (ho : assemble tokens name = .ok o) :
      linkedCode? [(definition, other), (tokens, name)] 1 = Image.codeOf? [d, o] 1 ∧
        linkedCode? [(tokens, name), (definition, other)] 0 = Image.codeOf? [o, d] 0 := by
    have hmodules : Assembles [(definition, other), (tokens, name)] [d, o] :=
      .cons hd (.cons ho .nil)
    have hmodules' : Assembles [(tokens, name), (definition, other)] [o, d] :=
      .cons ho (.cons hd .nil)
    exact ⟨linkedCode?_of_assembles hmodules 1, linkedCode?_of_assembles hmodules' 0⟩
  have hswap (o : Object) : [d, o].Perm [o, d] := List.Perm.swap o d []
  by_cases hwrite : ∃ b, Asm.writeInstruction j (.empty name) = .ok () b
  · obtain ⟨b, hb⟩ := hwrite
    obtain ⟨o, ho, hlinkable, hrelocate⟩ := hok b hb
    rw [(hcode ho).1, (hcode ho).2]
    constructor
    · obtain ⟨linker, o', hlinker, hobjects, hlink, hfound⟩ :=
        Image.exists_codeOf? (k := 1) (howns ho) hlinkable rfl
      rw [hfound, Asm.codeOnPage?_of_ok hb (hrelocate linker 1 o' hlinker (by simp [hobjects]) hlink)]
    · obtain ⟨linker, o', hlinker, hobjects, hlink, hfound⟩ :=
        Image.exists_codeOf? (k := 0) (by simpa only [(hswap o).mem_iff] using howns ho)
          (hlinkable.perm (hswap o)) rfl
      rw [hfound, Asm.codeOnPage?_of_ok hb (hrelocate linker 0 o' hlinker (by simp [hobjects]) hlink)]
  · rw [Asm.codeOnPage?_of_error hwrite, Asm.codeOnPage?_of_error hwrite]
    cases ho : assemble tokens name with
    | error e =>
      have herror : ¬∃ o, assemble tokens name = .ok o := by simp [ho]
      exact ⟨linkedCode?_of_error (m := (tokens, name)) (by simp) herror 1,
        linkedCode?_of_error (m := (tokens, name)) (by simp) herror 0⟩
    | ok o =>
      have hlinkable := herror hwrite o ho
      have hlinkable' : ¬Linkable [o, d] := fun h => hlinkable (h.perm (hswap o).symm)
      rw [(hcode ho).1, (hcode ho).2, Image.codeOf?_of_not_linkable (howns ho) hlinkable,
        Image.codeOf?_of_not_linkable (by simpa only [(hswap o).mem_iff] using howns ho) hlinkable']
      exact ⟨rfl, rfl⟩

section

variable (h : Replaceable j front number back l x)
include h

/-- An instruction that can be written has code on every page. -/
theorem isSome_codeOnPage? (hliteral : Spelled literal (instructionLine (front ++ number :: back)))
    (page : Nat) : (Asm.codeOnPage? j name page).isSome = true ↔
      ∃ o, assemble literal name = .ok o := by
  simp only [h.assemble_number hliteral]
  constructor
  · intro hsome
    by_contra hnone
    have hwrite : ¬∃ b, Asm.writeInstruction j (.empty name) = .ok () b := fun ⟨b, hb⟩ =>
      hnone ⟨_, b, hb, rfl⟩
    rw [Asm.codeOnPage?_of_error hwrite] at hsome
    cases hsome
  · rintro ⟨_, b, hb, rfl⟩
    have hassemble := (h.assemble_number hliteral).mpr ⟨b, hb, rfl⟩
    obtain ⟨⟨es, hes⟩, -⟩ := carries_of_assemble hassemble
    obtain ⟨code, hcode⟩ := Linker.exists_relocate_iff.mpr hes.fillable.relocations
    rw [Asm.codeOnPage?_of_ok hb hcode]
    rfl

variable (hname : name ≠ other) (hdefinition : Spelled definition (aliasLine x number.text))
include hname hdefinition

/-- The instruction with the number beside the module of the alias, which it does not need. -/
theorem linkedCode?_number_beside
    (hliteral : Spelled literal (instructionLine (front ++ number :: back))) :
    linkedCode? [(definition, other), (literal, name)] 1 = Asm.codeOnPage? j name 1 := by
  obtain ⟨v, hv⟩ := Value.exists_ofInt?_i64 h.range
  have hd : assemble definition other =
      .ok { Object.empty other with symbols := [⟨x, .alias, v⟩] } :=
    (h.assemble_alias hv hdefinition).mpr rfl
  refine (linkedCode?_beside hd (fun b hb => ?_) fun hwrite o ho => ?_).1
  · have hassemble := (h.assemble_number hliteral).mpr ⟨b, hb, rfl⟩
    obtain ⟨⟨es, hes⟩, -⟩ := carries_of_assemble hassemble
    have hobject := h.object_of_writeInstruction hb
    have hbname : b.object.name = name := by rw [hobject]; rfl
    have hnone : b.object.unresolved = [] := by rw [hobject]; rfl
    refine ⟨b.object, hassemble, ?_, fun linker page o' _ _ hlink => ?_⟩
    · refine linkable_pair rfl (hbname ▸ hname) ?_ ?_ hes.fillable (by simp [hnone])
      · rw [hobject]; rfl
      · rw [hobject]; rfl
    · rw [← hbname]
      exact Linker.relocate_of_resolved hnone hlink
  · obtain ⟨b, hb, -⟩ := (h.assemble_number hliteral).mp ho
    exact absurd ⟨b, hb⟩ hwrite

/-- The code of a module with the name is that of the instruction, on whichever side the module of
the alias is. -/
theorem linkedCode?_apart (hspelled : Spelled tokens (inScopes path (instructionLine
      (front ++ number.renamed x :: back)))) :
    linkedCode? [(definition, other), (tokens, name)] 1 = Asm.codeOnPage? j name 1 ∧
      linkedCode? [(tokens, name), (definition, other)] 0 = Asm.codeOnPage? j name 0 := by
  obtain ⟨v, hv⟩ := Value.exists_ofInt?_i64 h.range
  obtain ⟨hapart, hexists⟩ := h.assemble_apart name hspelled
  have hd : assemble definition other =
      .ok { Object.empty other with symbols := [⟨x, .alias, v⟩] } :=
    (h.assemble_alias hv hdefinition).mpr rfl
  refine linkedCode?_beside hd (fun b hb => ?_) fun hwrite o ho hlinkable => ?_
  · obtain ⟨o, hassemble, r, w, hx, hw, hholds, ho⟩ := hexists b hb
    obtain ⟨⟨es, hes⟩, -⟩ := carries_of_assemble hassemble
    have hobject := h.object_of_writeInstruction hb
    have hbname : b.object.name = name := by rw [hobject]; rfl
    have honame : o.name = name := by rw [ho]; exact hbname
    have hrefs : o.unresolved = [r] := by rw [ho]
    refine ⟨o, hassemble, ?_, fun linker page o' hlinker hmem hlink => ?_⟩
    · refine linkable_pair rfl (honame ▸ hname) ?_ ?_ hes.fillable ?_
      · rw [ho, hobject]; rfl
      · rw [ho, hobject]; rfl
      · simp [hrefs, hx, Value.fit?_of_ofInt?_i64 hv, hw]
    · have hslots (n : Nat) (hn : n ∈ b.object.relocations) :
          n + 8 ≤ r.offset ∨ r.offset + r.datatype.size ≤ n :=
        hes.relocation_apart (by rw [ho]; exact hn) (by simp [hrefs])
      have hbound := boundValue?_alias hv hlinker hmem (r := r) (by simp [hx])
      rw [← hbname]
      exact Linker.relocate_of_unbound ho hholds hslots (hbound.trans hw) hlink
  -- The number does not fit, and nothing else has the name.
  · rcases hapart o ho with ⟨b, hb, -⟩ | ⟨hsymbols, r, hr, hx, hmisfit⟩
    · exact hwrite ⟨b, hb⟩
    · obtain ⟨-, d', hd', y, hy, -, hfit⟩ := hlinkable.references o (by simp) r hr
      rcases List.mem_pair.mp hd' with rfl | rfl
      · rw [List.mem_singleton.mp hy, Value.fit?_of_ofInt?_i64 hv, hmisfit] at hfit
        cases hfit
      · rw [hsymbols] at hy
        cases hy

end

/-- A name for a number is worth as much as the number. Let an instruction without names have a
number for an operand. It can be assembled just if it can be assembled and linked with a name in the
place of the number, and then the code is the same. That is so if the name is an alias for the
number in a scope around the instruction, in front of it or behind it, and if it is one in another
module, on either side. -/
theorem linkedCode?_alias (h : Replaceable j front number back l x) (hname : name ≠ other)
    {literal before behind apart definition : Array Token} {outer inner path : List String}
    (hliteral : Spelled literal (instructionLine (front ++ number :: back)))
    (hbefore : Spelled before (inScopes outer (aliasLine x number.text ++
      inScopes inner (instructionLine (front ++ number.renamed x :: back)))))
    (hbehind : Spelled behind (inScopes outer (inScopes inner (instructionLine
      (front ++ number.renamed x :: back)) ++ aliasLine x number.text)))
    (hapart : Spelled apart (inScopes path (instructionLine (front ++ number.renamed x :: back))))
    (hdefinition : Spelled definition (aliasLine x number.text)) :
    ((∃ o, assemble literal name = .ok o) ↔ (linkedCode? [(literal, name)] 0).isSome = true) ∧
      ((∃ o, assemble literal name = .ok o) ↔
        (linkedCode? [(definition, other), (literal, name)] 1).isSome = true) ∧
      linkedCode? [(before, name)] 0 = linkedCode? [(literal, name)] 0 ∧
      linkedCode? [(behind, name)] 0 = linkedCode? [(literal, name)] 0 ∧
      linkedCode? [(apart, name), (definition, other)] 0 = linkedCode? [(literal, name)] 0 ∧
      linkedCode? [(definition, other), (apart, name)] 1 =
        linkedCode? [(definition, other), (literal, name)] 1 := by
  obtain ⟨v, hv⟩ := Value.exists_ofInt?_i64 h.range
  have hnumber : linkedCode? [(literal, name)] 0 = Asm.codeOnPage? j name 0 := by
    refine h.linkedCode?_single [] fun o => (h.assemble_number hliteral).trans ?_
    refine exists_congr fun b => and_congr_right fun hb => ?_
    rw [h.object_of_writeInstruction hb]
    rfl
  have hbeside := h.linkedCode?_number_beside hname hdefinition hliteral
  obtain ⟨hfirst, hsecond⟩ := h.linkedCode?_apart hname hdefinition hapart
  rw [hnumber, hbeside, hfirst, hsecond,
    h.linkedCode?_single _ fun o => h.assemble_before hv hbefore,
    h.linkedCode?_single _ fun o => h.assemble_behind hv hbehind]
  exact ⟨(h.isSome_codeOnPage? hliteral 0).symm, (h.isSome_codeOnPage? hliteral 1).symm,
    rfl, rfl, rfl, rfl⟩

/-- `call : 16 : i8 -5 : addr "s"`, cut in front of the argument that is a number and behind it. -/
def callFront : List Token :=
  [⟨.name, "call", .start⟩, ⟨.colon, ":", .start⟩, ⟨.integer, "16", .start⟩, ⟨.colon, ":", .start⟩,
    ⟨.name, "i8", .start⟩]

def callNumber : Token := ⟨.integer, "-5", .start⟩

def callBack : List Token :=
  [⟨.colon, ":", .start⟩, ⟨.name, "addr", .start⟩, ⟨.string, "s", .start⟩]

def callInstruction : SourceInstruction :=
  ⟨.call, .none, [(.address, ⟨false, .integer ⟨false, 16⟩, ⟨.integer, "16", .start⟩⟩)],
    [(.typed .i8, ⟨false, .integer ⟨true, 5⟩, callNumber⟩),
      (.typed .addr, ⟨false, .text "s", ⟨.string, "s", .start⟩⟩)]⟩

theorem replaceable_call : Replaceable callInstruction callFront callNumber callBack ⟨true, 5⟩ "x" where
  read := ⟨⟨_, rfl, rfl, by cbv⟩, ⟨_, by cbv, rfl⟩⟩
  opcode := by decide
  names := by simp [callInstruction, SourceInstruction.operands]
  number := ⟨rfl, by cbv, by simp [callFront]⟩
  range := by decide
  zero := by decide
  fresh := by cbv

def callLiteral : Words := instructionLine (callFront ++ callNumber :: callBack)

def callNamed : Words := instructionLine (callFront ++ callNumber.renamed "x" :: callBack)

/-- The alias is in the scope around the call and behind it, and in another module. The string has
an address that is relocated. -/
theorem linkedCode?_alias_call :
    (linkedCode? [(tokensOf callLiteral, "m")] 0).isSome = true ∧
      linkedCode? [(tokensOf (inScopes ["a"] (inScopes ["b"] callNamed ++ aliasLine "x" "-5")), "m")]
        0 = linkedCode? [(tokensOf callLiteral, "m")] 0 ∧
      linkedCode? [(tokensOf (aliasLine "x" "-5"), "n"), (tokensOf (inScopes ["a"] callNamed), "m")]
        1 = linkedCode? [(tokensOf (aliasLine "x" "-5"), "n"), (tokensOf callLiteral, "m")] 1 := by
  have hname : "m" ≠ "n" := by decide
  obtain ⟨hsome, -, -, hbehind, -, hapart⟩ := replaceable_call.linkedCode?_alias hname
    (spelled_tokensOf callLiteral)
    (spelled_tokensOf (inScopes ["a"] (aliasLine "x" "-5" ++ inScopes ["b"] callNamed)))
    (spelled_tokensOf (inScopes ["a"] (inScopes ["b"] callNamed ++ aliasLine "x" "-5")))
    (spelled_tokensOf (inScopes ["a"] callNamed)) (spelled_tokensOf (aliasLine "x" "-5"))
  refine ⟨hsome.mp ?_, hbehind, hapart⟩
  cases hassemble : assemble (tokensOf callLiteral) "m" with
  | ok o => exact ⟨o, rfl⟩
  | error e =>
    have hok : (assemble (tokensOf callLiteral) "m").isOk = true := by cbv
    rw [hassemble] at hok
    cases hok

end Replaceable

end CellMachine
