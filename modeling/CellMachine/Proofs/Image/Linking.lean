import CellMachine.Proofs.Assembly.Disassembly
import CellMachine.Proofs.Image.Tables

/-!
# What linking changes

Linking fills the slots of every object, its relocations with its own page and its references with
the values of symbols, and changes nothing else (`Linker.patched_linkObject`). The instructions stay
the same but for the values in those slots, since the code of an assembled object still encodes
what its source has asked for. `Image.ofObjects_links` puts it together for all objects.
-/

namespace CellMachine

/-! ## The code of one object -/

/-- The code encodes what `es` ask for. -/
def EncodesCode (es : List Emission) (code : Buffer) : Prop :=
  ∃ xs, List.Forall₂ Emission.Encodes es xs ∧ code.toList = xs.flatMap Instruction.encode

namespace Linker

/-- The bytes of an address that has got its page. -/
def stampedBytes (page : Nat) (code : Buffer) (offset : Nat) : List UInt8 :=
  (Cell.ofAddress ((Cell.ofBytes (code.read offset Datatype.addr.size)).toAddress.withPage
    page)).bytes .addr

theorem length_stampedBytes (page : Nat) (code : Buffer) (offset : Nat) :
    (stampedBytes page code offset).length = 8 := by
  simp [stampedBytes, Datatype.size]

theorem readCell?_eq_some {code : Buffer} {offset : Nat} {dt : Datatype} {c : Cell}
    (h : readCell? code offset dt = some c) :
    offset + dt.size ≤ code.size ∧ c = Cell.ofBytes (code.read offset dt.size) := by
  unfold readCell? at h
  split at h
  · next hle => exact ⟨hle, (Option.some.inj h).symm⟩
  · simp at h

variable {module : String} {page : Nat} {symbols : NameMap Symbol}

theorem relocate_cons {offset : Nat} {code code' : Buffer} {rest : List Nat}
    (h : relocate module page code (offset :: rest) = .ok code') :
    offset + 8 ≤ code.size ∧
      relocate module page (code.write offset (stampedBytes page code offset)) rest =
        .ok code' := by
  unfold relocate at h
  cases hread : readCell? code offset .addr with
  | none => simp [hread] at h
  | some c =>
    obtain ⟨hle, hc⟩ := readCell?_eq_some hread
    simp only [hread, hc] at h
    split at h
    · simp at h
    · next code₁ hpatch =>
      rw [(patchCell?_eq_some hpatch).2] at h
      exact ⟨hle, h⟩

/-- Relocating stamps every slot as it was before. -/
theorem patched_relocate {offsets : List Nat} {code code' : Buffer}
    (hapart : offsets.Pairwise fun a b => a + 8 ≤ b ∨ b + 8 ≤ a)
    (h : relocate module page code offsets = .ok code') :
    Buffer.Patched (offsets.map fun n => (n, stampedBytes page code n)) code code' := by
  induction offsets generalizing code with
  | nil =>
    cases h
    exact Buffer.patched_nil _
  | cons offset rest ih =>
    obtain ⟨hfirst, hrest⟩ := List.pairwise_cons.mp hapart
    obtain ⟨hle, h⟩ := relocate_cons h
    have hlen := length_stampedBytes page code offset
    have hwrite : Buffer.Patched [(offset, stampedBytes page code offset)] code
        (code.write offset (stampedBytes page code offset)) :=
      Buffer.patched_write (by omega)
    -- The offsets are apart, so what the rest reads is what stood there at the start.
    have hsame : (rest.map fun n => (n, stampedBytes page
        (code.write offset (stampedBytes page code offset)) n)) =
        rest.map fun n => (n, stampedBytes page code n) := by
      refine List.map_congr_left fun n hn => ?_
      have hnapart := hfirst n hn
      have hread : (code.write offset (stampedBytes page code offset)).read n Datatype.addr.size =
          code.read n Datatype.addr.size :=
        Buffer.read_write_of_apart (by simp only [Datatype.size]; omega)
      simp only [stampedBytes] at hread ⊢
      rw [hread]
    have hrun := ih hrest h
    rw [hsame] at hrun
    refine hwrite.trans hrun fun p hp q hq => ?_
    rw [List.mem_singleton.mp hp]
    obtain ⟨n, hn, rfl⟩ := List.mem_map.mp hq
    have hnapart := hfirst n hn
    have hlen' := length_stampedBytes page code n
    simp only [Buffer.Apart]
    omega

/-- The value that a reference is bound to. -/
def boundValue? (symbols : NameMap Symbol) (r : Reference) : Option Value :=
  (symbols.get? r.name).bind (·.value.fit? r.datatype)

/-- The bytes that are written for a reference. -/
def boundBytes (symbols : NameMap Symbol) (r : Reference) : List UInt8 :=
  ((boundValue? symbols r).map (·.toCell.bytes r.datatype)).getD []

theorem resolve_cons {code code' : Buffer} {r : Reference} {rest : List Reference}
    (h : resolve symbols module code (r :: rest) = .ok (code', [])) :
    ∃ v, boundValue? symbols r = some v ∧ r.offset + r.datatype.size ≤ code.size ∧
      resolve symbols module (code.write r.offset (v.toCell.bytes r.datatype)) rest =
        .ok (code', []) := by
  unfold resolve at h
  cases hget : symbols.get? r.name with
  | none =>
    simp only [hget] at h
    obtain ⟨_, -, h⟩ := except_bind_eq_ok.mp h
    cases h
  | some x =>
    cases hfit : x.value.fit? r.datatype with
    | none => simp [hget, hfit] at h
    | some v =>
      cases hpatch : patchCell? code r.offset v.toCell r.datatype with
      | none => simp [hget, hfit, hpatch] at h
      | some code₁ =>
        obtain ⟨hle, rfl⟩ := patchCell?_eq_some hpatch
        simp only [hget, hfit, hpatch] at h
        exact ⟨v, by simp [boundValue?, hget, hfit], hle, h⟩

/-- Two references whose slots do not overlap. -/
def RefersApart (r q : Reference) : Prop :=
  r.offset + r.datatype.size ≤ q.offset ∨ q.offset + q.datatype.size ≤ r.offset

/-- Resolving fills every slot with the value of its symbol. -/
theorem patched_resolve {code code' : Buffer} {refs : List Reference}
    (hapart : refs.Pairwise RefersApart) (h : resolve symbols module code refs = .ok (code', [])) :
    (∀ r ∈ refs, (boundValue? symbols r).isSome = true) ∧
      Buffer.Patched (refs.map fun r => (r.offset, boundBytes symbols r)) code code' := by
  induction refs generalizing code with
  | nil =>
    cases h
    exact ⟨by simp, Buffer.patched_nil _⟩
  | cons r rest ih =>
    obtain ⟨hfirst, hrest⟩ := List.pairwise_cons.mp hapart
    obtain ⟨v, hv, hle, h⟩ := resolve_cons h
    obtain ⟨hbound, hrun⟩ := ih hrest h
    have hbytes : boundBytes symbols r = v.toCell.bytes r.datatype := by simp [boundBytes, hv]
    refine ⟨by simpa [hv] using hbound, ?_⟩
    have hwrite : Buffer.Patched [(r.offset, boundBytes symbols r)] code
        (code.write r.offset (v.toCell.bytes r.datatype)) := by
      rw [hbytes]
      exact Buffer.patched_write (by simpa using hle)
    refine hwrite.trans hrun fun p hp q hq => ?_
    rw [List.mem_singleton.mp hp]
    obtain ⟨r', hr', rfl⟩ := List.mem_map.mp hq
    obtain ⟨w, hw⟩ := Option.isSome_iff_exists.mp (hbound r' hr')
    have hbytes' : boundBytes symbols r' = w.toCell.bytes r'.datatype := by simp [boundBytes, hw]
    simpa [Buffer.Apart, RefersApart, hbytes, hbytes'] using hfirst r' hr'

/-! ## Its instructions -/

theorem encodes_relocate {es : List Emission} {offsets : List Nat} {code code' : Buffer}
    (hcode : EncodesCode es code)
    (hslots : ∀ n ∈ offsets, ∃ x ∈ emissionSlots 0 es, x.IsOpen ∧
      x.offset = n ∧ x.datatype.holdsAddress = true)
    (h : relocate module page code offsets = .ok code') : EncodesCode es code' := by
  induction offsets generalizing code with
  | nil =>
    cases h
    exact hcode
  | cons offset rest ih =>
    obtain ⟨-, h⟩ := relocate_cons h
    refine ih ?_ (fun n hn => hslots n (by simp [hn])) h
    obtain ⟨x, hx, hopen, hoffset, hholds⟩ := hslots offset (by simp)
    obtain ⟨v, hv, hcell⟩ := Value.exists_toCell_eq_ofAddress hholds
      ((Cell.ofBytes (code.read offset Datatype.addr.size)).toAddress.withPage page)
    have hsize : x.datatype.size = Datatype.addr.size := by
      have hdt : x.datatype = .addr ∨ x.datatype = .u64 := by
        simpa [Datatype.holdsAddress] using hholds
      rcases hdt with hdt | hdt
      · rw [hdt]
      · rw [hdt]
        rfl
    have hwrite := exists_encodes_write hcode hx hopen hv
    have hbytes : v.toCell.bytes x.datatype = stampedBytes page code offset := by
      rw [hcell, stampedBytes, Cell.bytes, Cell.bytes, hsize]
    rwa [hbytes, hoffset] at hwrite

theorem encodes_resolve {es : List Emission} {code code' : Buffer} {refs : List Reference}
    (hcode : EncodesCode es code)
    (hslots : ∀ r ∈ refs, ∃ x ∈ emissionSlots 0 es, x.IsOpen ∧
      x.offset = r.offset ∧ x.datatype = r.datatype)
    (h : resolve symbols module code refs = .ok (code', [])) : EncodesCode es code' := by
  induction refs generalizing code with
  | nil =>
    cases h
    exact hcode
  | cons r rest ih =>
    obtain ⟨v, hbound, -, h⟩ := resolve_cons h
    refine ih ?_ (fun r' hr' => hslots r' (by simp [hr'])) h
    obtain ⟨x, hx, hopen, hoffset, hdatatype⟩ := hslots r (by simp)
    have hv : v.datatype = x.datatype := by
      obtain ⟨symbol, -, hfit⟩ := Option.bind_eq_some_iff.mp hbound
      rw [Value.datatype_of_fit? hfit, hdatatype]
    have hwrite := exists_encodes_write hcode hx hopen hv
    rwa [hoffset, hdatatype] at hwrite

theorem linkObject_eq_ok {o o' : Object} {names : List String}
    (h : linkObject symbols page o = .ok (o', names)) :
    ∃ code code', relocate o.name page o.code o.relocations = .ok code ∧
      resolve symbols o.name code o.unresolved = .ok (code', names) ∧
      o' = { o with code := code', unresolved := [], relocations := [] } := by
  obtain ⟨code, hrelocate, h⟩ := except_bind_eq_ok.mp h
  obtain ⟨⟨code', names'⟩, hresolve, h⟩ := except_bind_eq_ok.mp h
  cases h
  exact ⟨code, code', hrelocate, hresolve, rfl⟩

/-- What is written into the code of an object. -/
def fillings (symbols : NameMap Symbol) (page : Nat) (o : Object) : List (Nat × List UInt8) :=
  (o.relocations.map fun n => (n, stampedBytes page o.code n)) ++
    o.unresolved.map fun r => (r.offset, boundBytes symbols r)

end Linker

namespace Object

variable {es : List Emission} {o : Object}

/-- A relocation has the slot of an address. -/
theorem Carries.relocation_slot (h : o.Carries es) {n : Nat} (hn : n ∈ o.relocations) :
    ∃ x ∈ emissionSlots 0 es, x.offset = n ∧ x.datatype.size = 8 := by
  obtain ⟨x, hx, -, hoffset, hholds⟩ := h.relocations n hn
  have hdt : x.datatype = .addr ∨ x.datatype = .u64 := by
    simpa [Datatype.holdsAddress] using hholds
  refine ⟨x, hx, hoffset, ?_⟩
  rcases hdt with hdt | hdt <;> (rw [hdt]; rfl)

theorem Carries.pairwise_relocations (h : o.Carries es) :
    o.relocations.Pairwise fun a b => a + 8 ≤ b ∨ b + 8 ≤ a := by
  refine List.Pairwise.imp_of_mem (fun {a b} ha hb hne => ?_) (List.nodup_append.mp h.distinct).2.1
  obtain ⟨x, hx, rfl, hxs⟩ := h.relocation_slot ha
  obtain ⟨y, hy, rfl, hys⟩ := h.relocation_slot hb
  have hapart := (slotsWithin_emissionSlots es 0).apart hx hy hne
  unfold Slot.Before at hapart
  omega

theorem Carries.pairwise_unresolved (h : o.Carries es) :
    o.unresolved.Pairwise Linker.RefersApart := by
  have hdistinct := List.pairwise_map.mp (List.nodup_append.mp h.distinct).1
  refine List.Pairwise.imp_of_mem (fun {r q} hr hq hne => ?_) hdistinct
  obtain ⟨x, hx, -, hxo, hxd⟩ := h.mem_slots hr
  obtain ⟨y, hy, -, hyo, hyd⟩ := h.mem_slots hq
  have hapart := (slotsWithin_emissionSlots es 0).apart hx hy (by rw [hxo, hyo]; exact hne)
  unfold Slot.Before at hapart
  unfold Linker.RefersApart
  rwa [hxo, hyo, hxd, hyd] at hapart

theorem Carries.relocation_apart (h : o.Carries es) {n : Nat} {r : Reference}
    (hn : n ∈ o.relocations) (hr : r ∈ o.unresolved) :
    n + 8 ≤ r.offset ∨ r.offset + r.datatype.size ≤ n := by
  have hne : n ≠ r.offset := fun heq =>
    (List.nodup_append.mp h.distinct).2.2 r.offset (List.mem_map_of_mem hr) n hn heq.symm
  obtain ⟨x, hx, rfl, hxs⟩ := h.relocation_slot hn
  obtain ⟨y, hy, -, hyo, hyd⟩ := h.mem_slots hr
  have hapart := (slotsWithin_emissionSlots es 0).apart hx hy (by rw [hyo]; exact hne)
  unfold Slot.Before at hapart
  rw [← hyo, ← hyd]
  omega

end Object

namespace Linker

/-- Linking an object fills its slots and changes nothing else. -/
theorem patched_linkObject {symbols : NameMap Symbol} {page : Nat} {es : List Emission}
    {o o' : Object} (ho : o.Carries es) (h : linkObject symbols page o = .ok (o', [])) :
    o' = { o with code := o'.code, unresolved := [], relocations := [] } ∧
      EncodesCode es o'.code ∧ (∀ r ∈ o.unresolved, (boundValue? symbols r).isSome = true) ∧
      Buffer.Patched (fillings symbols page o) o.code o'.code := by
  obtain ⟨code, code', hrelocate, hresolve, rfl⟩ := linkObject_eq_ok h
  have hcode := encodes_relocate ho.code ho.relocations hrelocate
  have hcode' := encodes_resolve hcode (fun r hr => ho.mem_slots hr) hresolve
  have hfirst := patched_relocate ho.pairwise_relocations hrelocate
  obtain ⟨hbound, hsecond⟩ := patched_resolve ho.pairwise_unresolved hresolve
  refine ⟨rfl, hcode', hbound, hfirst.trans hsecond fun p hp q hq => ?_⟩
  obtain ⟨n, hn, rfl⟩ := List.mem_map.mp hp
  obtain ⟨r, hr, rfl⟩ := List.mem_map.mp hq
  obtain ⟨v, hv⟩ := Option.isSome_iff_exists.mp (hbound r hr)
  have hapart := ho.relocation_apart hn hr
  simpa [Buffer.Apart, length_stampedBytes, boundBytes, hv] using hapart

end Linker

/-! ## Decoding before and after -/

/-- The instructions of a code buffer from a place to its end, each behind the other. -/
def Decodes (code : Buffer) : Nat → List Instruction → Prop
  | pos, [] => pos = code.size
  | pos, x :: rest => decode code pos = .ok x ∧ Decodes code (pos + x.size) rest

/-- All of an instruction but the values of its operands. -/
def Instruction.shape (x : Instruction) :
    Opcode × Datatype × UInt16 × Nat × Option Descriptor :=
  (x.opcode, x.datatype, x.mask, x.size, x.descriptor)

theorem decodes_of_encodes {es : List Emission} {xs : List Instruction} {code : Buffer}
    {pre : List UInt8} (h : List.Forall₂ Emission.Encodes es xs)
    (hcode : code.toList = pre ++ xs.flatMap Instruction.encode) : Decodes code pre.length xs := by
  induction h generalizing pre with
  | nil =>
    have hsize := congrArg List.length hcode
    simpa [Decodes] using hsize.symm
  | @cons e x es xs hx _ ih =>
    rw [List.flatMap_cons, ← List.append_assoc] at hcode
    have hrest := ih hcode
    rw [List.length_append, Instruction.length_encode] at hrest
    exact ⟨decode_of_holds hx.wellFormed (Buffer.holds_of_toList hcode), hrest⟩

theorem derefs_of_encodes {dt : Datatype} {source : Role × SourceOperand → Option Datatype}
    {ps : List (Role × SourceOperand)} {xs : List Operand}
    (h : List.Forall₂ (fun p => EncodesOperand dt (source p) p) ps xs) :
    xs.map (·.deref) = ps.map (·.2.deref) :=
  Asm.map_of_encodes h fun _ _ => rfl

/-- The source says all of an instruction but the values of its operands. -/
theorem Emission.Encodes.shape_eq {e : Emission} {x y : Instruction} (hx : e.Encodes x)
    (hy : e.Encodes y) : x.shape = y.shape := by
  cases e with
  | written i =>
    have hmask : x.mask = y.mask := by
      rw [SourceInstruction.Encodes.mask hx, SourceInstruction.Encodes.mask hy, maskOf, maskOf]
      refine congrArg UInt16.ofNat (derefBits_congr ?_)
      simp only [Instruction.operands, List.map_append]
      rw [derefs_of_encodes (SourceInstruction.Encodes.fixed hx),
        derefs_of_encodes (SourceInstruction.Encodes.args hx),
        derefs_of_encodes (SourceInstruction.Encodes.fixed hy),
        derefs_of_encodes (SourceInstruction.Encodes.args hy)]
    unfold Instruction.shape
    rw [SourceInstruction.Encodes.opcode hx, SourceInstruction.Encodes.opcode hy,
      SourceInstruction.Encodes.datatype hx, SourceInstruction.Encodes.datatype hy,
      SourceInstruction.Encodes.size_eq hx, SourceInstruction.Encodes.size_eq hy,
      SourceInstruction.Encodes.descriptor hx, SourceInstruction.Encodes.descriptor hy, hmask]
  | frame => rw [show x = y from Eq.trans hx (Eq.symm hy)]
  | growth size => rw [show x = y from Eq.trans hx (Eq.symm hy)]

theorem map_shape_eq {es : List Emission} {xs ys : List Instruction}
    (hx : List.Forall₂ Emission.Encodes es xs) (hy : List.Forall₂ Emission.Encodes es ys) :
    xs.map Instruction.shape = ys.map Instruction.shape := by
  induction hx generalizing ys with
  | nil =>
    cases hy
    rfl
  | cons hx _ ih =>
    cases hy with
    | cons hy hys => rw [List.map_cons, List.map_cons, hx.shape_eq hy, ih hys]

/-- Two code buffers for the same source have the same instructions, but for the values of their
operands. -/
theorem EncodesCode.exists_decodes {es : List Emission} {code code' : Buffer}
    (h : EncodesCode es code) (h' : EncodesCode es code') :
    ∃ xs ys, Decodes code 0 xs ∧ Decodes code' 0 ys ∧
      ys.map Instruction.shape = xs.map Instruction.shape := by
  obtain ⟨xs, hxs, hcode⟩ := h
  obtain ⟨ys, hys, hcode'⟩ := h'
  have hfrom : code.toList = [] ++ xs.flatMap Instruction.encode := hcode
  have hfrom' : code'.toList = [] ++ ys.flatMap Instruction.encode := hcode'
  exact ⟨xs, ys, decodes_of_encodes hxs hfrom, decodes_of_encodes hys hfrom', map_shape_eq hys hxs⟩

namespace Linker

/-! ## All objects -/

theorem get?_addAll {names : List String} {m : NameSet} {k : String}
    (h : k ∈ names ∨ m.get? k = some ()) : (NameSet.addAll m names).get? k = some () := by
  induction names generalizing m with
  | nil => simpa [NameSet.addAll] using h
  | cons name rest ih =>
    refine ih ?_
    by_cases hk : k = name
    · exact Or.inr (by simp [NameSet.add, NameMap.get?_insert, hk])
    · rcases h with h | h
      · exact Or.inl (by simpa [hk] using h)
      · exact Or.inr (by simpa [NameSet.add, NameMap.get?_insert, hk] using h)

theorem eq_nil_of_keys_ofNames {names : List String} (h : (NameSet.ofNames names).keys = []) :
    names = [] := by
  cases names with
  | nil => rfl
  | cons name rest =>
    have hget : (NameSet.ofNames (name :: rest)).get? name = some () :=
      get?_addAll (Or.inl (by simp))
    have hentries : (NameSet.ofNames (name :: rest)).entries = [] := List.map_eq_nil_iff.mp h
    simp [NameMap.get?, hentries] at hget

/-- Every object is linked on the page of its place. -/
theorem linkObjects_get? {symbols : NameMap Symbol} {page : Nat} {objects linked : List Object}
    (h : linkObjects symbols page objects = .ok (linked, [])) :
    linked.length = objects.length ∧ ∀ (p : Nat) (o : Object), objects[p]? = some o →
      ∃ o', linked[p]? = some o' ∧ linkObject symbols (page + p) o = .ok (o', []) := by
  induction objects generalizing page linked with
  | nil =>
    cases h
    exact ⟨rfl, by simp⟩
  | cons o rest ih =>
    obtain ⟨⟨o₁, names⟩, hfirst, h⟩ := except_bind_eq_ok.mp h
    obtain ⟨⟨os, names'⟩, hrest, h⟩ := except_bind_eq_ok.mp h
    obtain ⟨rfl, hnames⟩ := Prod.mk.inj (Except.ok.inj h)
    obtain ⟨rfl, rfl⟩ := List.append_eq_nil_iff.mp hnames
    obtain ⟨hlength, hget⟩ := ih hrest
    refine ⟨by simp [hlength], fun p o' hp => ?_⟩
    cases p with
    | zero =>
      cases hp
      exact ⟨o₁, rfl, hfirst⟩
    | succ p =>
      obtain ⟨o₂, hp₂, hlink⟩ := hget p o' hp
      exact ⟨o₂, hp₂, by rw [← hlink]; congr 1; omega⟩

theorem link_eq_ok {l : Linker} {image : Image} (h : l.link = .ok image) :
    ∃ linked, linkObjects l.image.symbols 0 l.image.objects = .ok (linked, []) ∧
      image = { l.image with objects := linked } := by
  unfold link at h
  split at h
  · obtain ⟨⟨linked, names⟩, hlinked, h⟩ := except_bind_eq_ok.mp h
    dsimp only at h
    split at h
    · next hnames =>
      obtain rfl := eq_nil_of_keys_ofNames hnames
      cases h
      exact ⟨linked, hlinked, rfl⟩
    · cases h
  · cases h

end Linker

/-- How an object among others is linked on a page. -/
structure Linked (objects : List Object) (page : Nat) (o o' : Object) : Prop where
  others : o' = { o with code := o'.code, unresolved := [], relocations := [] }
  decodes : ∃ xs ys, Decodes o.code 0 xs ∧ Decodes o'.code 0 ys ∧
    ys.map Instruction.shape = xs.map Instruction.shape
  relocations : ∀ n ∈ o.relocations, ∃ a b, readCell? o.code n .addr = some (Cell.ofAddress a) ∧
    readCell? o'.code n .addr = some (Cell.ofAddress b) ∧ a.OnPage page b
  unresolved : ∀ r ∈ o.unresolved, ∃ x v, IsSymbolOf objects r.name x ∧
    x.value.fit? r.datatype = some v ∧ o'.code.Holds r.offset (v.toCell.bytes r.datatype)
  size : o'.code.size = o.code.size
  elsewhere : ∀ i : Nat, (∀ n ∈ o.relocations, i < n ∨ n + Datatype.addr.size ≤ i) →
    (∀ r ∈ o.unresolved, i < r.offset ∨ r.offset + r.datatype.size ≤ i) → o'.code[i]? = o.code[i]?

theorem readCell?_of_holds {code : Buffer} {n : Nat} {c : Cell} {dt : Datatype}
    (hc : c.Fits dt) (h : code.Holds n (c.bytes dt)) : readCell? code n dt = some c := by
  obtain ⟨hle, hread⟩ := h
  rw [Cell.length_bytes] at hle hread
  rw [readCell?, if_pos hle, hread, Cell.ofBytes_bytes hc]

theorem Linker.linked_linkObject {objects : List Object} {symbols : NameMap Symbol} {page : Nat}
    {o o' : Object} {es : List Emission} (hpage : page < Address.maxPages) (ho : o.Carries es)
    (hsymbols : ∀ name x, symbols.get? name = some x ↔ IsSymbolOf objects name x)
    (h : linkObject symbols page o = .ok (o', [])) : Linked objects page o o' := by
  obtain ⟨hothers, hcode, hbound, hpatched⟩ := patched_linkObject ho h
  have hmem : ∀ r ∈ o.unresolved, ∃ x v, symbols.get? r.name = some x ∧
      x.value.fit? r.datatype = some v ∧ boundBytes symbols r = v.toCell.bytes r.datatype := by
    intro r hr
    obtain ⟨v, hv⟩ := Option.isSome_iff_exists.mp (hbound r hr)
    obtain ⟨x, hx, hfit⟩ := Option.bind_eq_some_iff.mp hv
    exact ⟨x, v, hx, hfit, by simp [boundBytes, hv]⟩
  refine ⟨hothers, EncodesCode.exists_decodes ho.code hcode, fun n hn => ?_, fun r hr => ?_,
    hpatched.size, fun i hn hr => ?_⟩
  · have hheld := hpatched.holds (n, stampedBytes page o.code n)
      (List.mem_append_left _ (List.mem_map_of_mem hn))
    refine ⟨_, _, if_pos ?_, readCell?_of_holds (Cell.fits_of_size_eq rfl) hheld,
      Address.onPage_withPage hpage _⟩
    have hle := hheld.1
    rwa [length_stampedBytes, hpatched.size] at hle
  · obtain ⟨x, v, hx, hfit, hbytes⟩ := hmem r hr
    have hheld := hpatched.holds (r.offset, boundBytes symbols r)
      (List.mem_append_right _ (List.mem_map_of_mem hr))
    rw [hbytes] at hheld
    exact ⟨x, v, (hsymbols r.name x).mp hx, hfit, hheld⟩
  · refine hpatched.elsewhere i fun p hp => ?_
    rcases List.mem_append.mp hp with hp | hp
    · obtain ⟨n, hn', rfl⟩ := List.mem_map.mp hp
      rw [length_stampedBytes]
      exact hn n hn'
    · obtain ⟨r, hr', rfl⟩ := List.mem_map.mp hp
      obtain ⟨x, v, -, -, hbytes⟩ := hmem r hr'
      rw [hbytes, Cell.length_bytes]
      exact hr r hr'

theorem nodup_symbols_of_assembled {objects : List Object}
    (hobjects : ∀ o ∈ objects, ∃ tokens name, assemble tokens name = .ok o) :
    ∀ o ∈ objects, (o.symbols.map (·.name)).Nodup := by
  intro o ho
  obtain ⟨tokens, name, hassemble⟩ := hobjects o ho
  exact (carries_of_assemble hassemble).2

/-- What an image is made of : a linker with all objects, and each of them linked. -/
theorem Image.ofObjects_parts {objects : List Object} {image : Image}
    (hobjects : ∀ o ∈ objects, ∃ tokens name, assemble tokens name = .ok o)
    (h : Image.ofObjects objects = .ok image) :
    ∃ (l : Linker) (linked : List Object), l.Consistent ∧ l.image.objects = objects ∧
      image = { l.image with objects := linked } ∧ linked.length = objects.length ∧
      ∀ (p : Nat) (o : Object), objects[p]? = some o →
        ∃ a, linked[p]? = some a ∧ Linked objects p o a := by
  obtain ⟨l, hadd, hlink⟩ := except_bind_eq_ok.mp h
  obtain ⟨linked, hlinked, rfl⟩ := Linker.link_eq_ok hlink
  obtain ⟨hl, hall⟩ := Linker.consistent_empty.addAll (nodup_symbols_of_assembled hobjects) hadd
  change l.image.objects = objects at hall
  subst hall
  obtain ⟨hlength, hget⟩ := Linker.linkObjects_get? hlinked
  refine ⟨l, linked, hl, rfl, rfl, hlength, fun p o hp => ?_⟩
  obtain ⟨a, ha, hobject⟩ := hget p o hp
  obtain ⟨tokens, name, hassemble⟩ := hobjects o (List.mem_of_getElem? hp)
  obtain ⟨⟨es, hes⟩, -⟩ := carries_of_assemble hassemble
  rw [Nat.zero_add] at hobject
  exact ⟨a, ha, Linker.linked_linkObject (hl.page_lt hp) hes hl.symbols hobject⟩

/-- Linking assembled objects fills their slots, keeps everything else, and merges their symbols. -/
theorem Image.ofObjects_links {objects : List Object} {image : Image}
    (hobjects : ∀ o ∈ objects, ∃ tokens name, assemble tokens name = .ok o)
    (h : Image.ofObjects objects = .ok image) :
    image.objects.length = objects.length ∧
      (∀ name x, image.symbols.get? name = some x ↔ IsSymbolOf objects name x) ∧
      ∀ (p : Nat) (o : Object), objects[p]? = some o →
        ∃ o', image.objects[p]? = some o' ∧ Linked objects p o o' := by
  obtain ⟨l, linked, hl, rfl, rfl, hlength, hlinked⟩ := ofObjects_parts hobjects h
  exact ⟨hlength, hl.symbols, hlinked⟩

/-- The tokens of `jumpObject`. -/
def jumpTokens : Array Token :=
  #[⟨.name, "jmp", ⟨1, 1⟩⟩, ⟨.colon, ":", ⟨1, 5⟩⟩, ⟨.name, "start", ⟨1, 7⟩⟩, .endOfCode ⟨1, 12⟩]

/-- The tokens of `startObject`. -/
def startTokens : Array Token :=
  #[⟨.directive, "#", ⟨1, 1⟩⟩, ⟨.name, "label", ⟨1, 2⟩⟩, ⟨.name, "start", ⟨1, 8⟩⟩,
    ⟨.newline, "\n", ⟨1, 13⟩⟩, ⟨.name, "jmp", ⟨2, 1⟩⟩, ⟨.colon, ":", ⟨2, 5⟩⟩,
    ⟨.name, "start", ⟨2, 7⟩⟩, .endOfCode ⟨2, 12⟩]

theorem Image.ofObjects_links_jump :
    ∃ image o o', Image.ofObjects [jumpObject, startObject] = .ok image ∧
      image.objects = [o, o'] ∧ Linked [jumpObject, startObject] 0 jumpObject o ∧
      Linked [jumpObject, startObject] 1 startObject o' := by
  have hjump : assemble jumpTokens "a" = .ok jumpObject := by cbv
  have hstart : assemble startTokens "b" = .ok startObject := by cbv
  have hok : (Image.ofObjects [jumpObject, startObject]).isOk = true := by cbv
  generalize hlink : Image.ofObjects [jumpObject, startObject] = r at hok
  cases r with
  | error e => cases hok
  | ok image =>
    obtain ⟨hlength, -, hlinked⟩ := Image.ofObjects_links (fun o ho => by
      rcases List.mem_pair.mp ho with rfl | rfl
      · exact ⟨_, _, hjump⟩
      · exact ⟨_, _, hstart⟩) hlink
    obtain ⟨o, ho, hojump⟩ := hlinked 0 jumpObject rfl
    obtain ⟨o', ho', hostart⟩ := hlinked 1 startObject rfl
    obtain ⟨x, y, hxy⟩ := List.length_eq_two.mp hlength
    rw [hxy] at ho ho'
    cases ho
    cases ho'
    exact ⟨image, o, o', rfl, hxy, hojump, hostart⟩

end CellMachine
