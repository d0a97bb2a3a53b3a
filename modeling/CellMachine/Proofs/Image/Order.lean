import CellMachine.Proofs.Image.Linking

/-!
# Objects in another order

Whether objects can be linked does not depend on their order : `Linkable` says what it takes
without naming a page (`Image.exists_ofObjects_iff`). Nor does the image, but for the pages
(`Image.ofObjects_perm`) : permissions, names and kinds are the same, and the code of an object
differs only where an address stands that was written by the linker, and there only in the page,
which is that of the object it points into.
-/

namespace CellMachine

/-! ## What can be linked -/

namespace Linker

variable {code : Buffer} {symbols : NameMap Symbol} {module : String} {page : Nat} {e : LinkError}
  {l : Linker} {offsets : List Nat} {refs : List Reference} {o : Object}

theorem relocate_of_le {offset : Nat} {rest : List Nat} (h : offset + 8 ≤ code.size) :
    relocate module page code (offset :: rest) =
      relocate module page (code.write offset (stampedBytes page code offset)) rest := by
  have hsize : offset + Datatype.addr.size ≤ code.size := h
  simp only [relocate, readCell?, patchCell?, if_pos hsize, stampedBytes]

theorem exists_relocate_iff :
    (∃ code', relocate module page code offsets = .ok code') ↔
      ∀ n ∈ offsets, n + 8 ≤ code.size := by
  induction offsets generalizing code with
  | nil => simp [relocate]
  | cons offset rest ih =>
    rw [List.forall_mem_cons]
    constructor
    · rintro ⟨code', h⟩
      obtain ⟨hle, h⟩ := relocate_cons h
      exact ⟨hle, by simpa using ih.mp ⟨code', h⟩⟩
    · rintro ⟨hle, hrest⟩
      rw [relocate_of_le hle, ih]
      simpa using hrest

theorem relocate_eq_error (h : relocate module page code offsets = .error e) :
    ∃ n ∈ offsets, code.size < n + 8 ∧ e = .badPatchOffset module n := by
  induction offsets generalizing code with
  | nil => cases h
  | cons offset rest ih =>
    by_cases hle : offset + 8 ≤ code.size
    · rw [relocate_of_le hle] at h
      obtain ⟨n, hn, hlt, he⟩ := ih h
      exact ⟨n, List.mem_cons_of_mem offset hn, by simpa using hlt, he⟩
    · have hread : readCell? code offset .addr = none := if_neg hle
      simp only [relocate, hread] at h
      cases h
      exact ⟨offset, List.mem_cons_self, Nat.not_le.mp hle, rfl⟩

theorem size_of_relocate {code' : Buffer} (h : relocate module page code offsets = .ok code') :
    code'.size = code.size := by
  induction offsets generalizing code with
  | nil =>
    cases h
    rfl
  | cons offset rest ih => simpa using ih (relocate_cons h).2

/-- The references can be bound, and their slots lie inside the code. -/
def Binds (symbols : NameMap Symbol) (code : Buffer) (refs : List Reference) : Prop :=
  ∀ r ∈ refs, r.offset + r.datatype.size ≤ code.size ∧ (boundValue? symbols r).isSome = true

theorem Binds.congr {code' : Buffer} (h : Binds symbols code refs)
    (hsize : code'.size = code.size) : Binds symbols code' refs :=
  fun r hr => hsize ▸ h r hr

theorem resolve_of_boundValue? {r : Reference} {rest : List Reference} {v : Value}
    (hv : boundValue? symbols r = some v) (hle : r.offset + r.datatype.size ≤ code.size) :
    resolve symbols module code (r :: rest) =
      resolve symbols module (code.write r.offset (v.toCell.bytes r.datatype)) rest := by
  obtain ⟨x, hx, hfit⟩ := Option.bind_eq_some_iff.mp hv
  simp only [resolve, hx, hfit, patchCell?, if_pos hle]

theorem exists_resolve_iff :
    (∃ code', resolve symbols module code refs = .ok (code', [])) ↔ Binds symbols code refs := by
  induction refs generalizing code with
  | nil => simp [resolve, Binds]
  | cons r rest ih =>
    constructor
    · rintro ⟨code', h⟩
      obtain ⟨v, hv, hle, h⟩ := resolve_cons h
      have hrest : Binds symbols code rest := (ih.mp ⟨code', h⟩).congr (by simp)
      exact List.forall_mem_cons.mpr ⟨⟨hle, by rw [hv]; rfl⟩, hrest⟩
    · intro h
      obtain ⟨⟨hle, hbound⟩, hrest⟩ := List.forall_mem_cons.mp h
      obtain ⟨v, hv⟩ := Option.isSome_iff_exists.mp hbound
      rw [resolve_of_boundValue? hv hle, ih]
      exact Binds.congr hrest (by simp)

/-- Where the slots lie inside the code, only a value that does not fit keeps references from being
resolved. -/
theorem resolve_eq_error (h : resolve symbols module code refs = .error e) :
    ∃ r ∈ refs, (code.size < r.offset + r.datatype.size ∧ e = .badPatchOffset module r.offset) ∨
      ∃ x, symbols.get? r.name = some x ∧ x.value.fit? r.datatype = none ∧
        e = misfit r module x.value := by
  induction refs generalizing code with
  | nil => cases h
  | cons r rest ih =>
    unfold resolve at h
    cases hx : symbols.get? r.name with
    | none =>
      simp only [hx] at h
      obtain h | ⟨_, -, h⟩ := except_bind_eq_error.mp h
      · obtain ⟨q, hq, hcause⟩ := ih h
        exact ⟨q, List.mem_cons_of_mem r hq, hcause⟩
      · cases h
    | some x =>
      cases hfit : x.value.fit? r.datatype with
      | none =>
        simp only [hx, hfit] at h
        cases h
        exact ⟨r, List.mem_cons_self, .inr ⟨x, hx, hfit, rfl⟩⟩
      | some v =>
        by_cases hle : r.offset + r.datatype.size ≤ code.size
        · simp only [hx, hfit, patchCell?, if_pos hle] at h
          obtain ⟨q, hq, hcause⟩ := ih h
          exact ⟨q, List.mem_cons_of_mem r hq, by simpa using hcause⟩
        · simp only [hx, hfit, patchCell?, if_neg hle] at h
          cases h
          exact ⟨r, List.mem_cons_self, .inl ⟨Nat.not_le.mp hle, rfl⟩⟩

/-- Why the slots of an object cannot be filled : one of them is not inside the code, or the value
for it does not fit. -/
inductive SlotError (symbols : NameMap Symbol) (o : Object) : LinkError → Prop
  | relocation {n : Nat} (hn : n ∈ o.relocations) (h : o.code.size < n + 8) :
    SlotError symbols o (.badPatchOffset o.name n)
  | reference {r : Reference} (hr : r ∈ o.unresolved)
    (h : o.code.size < r.offset + r.datatype.size) :
    SlotError symbols o (.badPatchOffset o.name r.offset)
  | misfit {r : Reference} {x : Symbol} (hr : r ∈ o.unresolved)
    (hx : symbols.get? r.name = some x) (h : x.value.fit? r.datatype = none) :
    SlotError symbols o (misfit r o.name x.value)

theorem linkObject_eq_error (h : linkObject symbols page o = .error e) : SlotError symbols o e := by
  obtain h | ⟨code, hcode, h⟩ := except_bind_eq_error.mp h
  · obtain ⟨n, hn, hlt, rfl⟩ := relocate_eq_error h
    exact .relocation hn hlt
  obtain h | ⟨_, -, h⟩ := except_bind_eq_error.mp h
  · obtain ⟨r, hr, ⟨hlt, rfl⟩ | ⟨x, hx, hfit, rfl⟩⟩ := resolve_eq_error h
    · exact .reference hr (size_of_relocate hcode ▸ hlt)
    · exact .misfit hr hx hfit
  · cases h

theorem linkObjects_eq_error {objects : List Object}
    (h : linkObjects symbols page objects = .error e) : ∃ o ∈ objects, SlotError symbols o e := by
  induction objects generalizing page with
  | nil => cases h
  | cons o rest ih =>
    obtain h | ⟨_, -, h⟩ := except_bind_eq_error.mp h
    · exact ⟨o, List.mem_cons_self, linkObject_eq_error h⟩
    obtain h | ⟨_, -, h⟩ := except_bind_eq_error.mp h
    · obtain ⟨d, hd, hcause⟩ := ih h
      exact ⟨d, List.mem_cons_of_mem o hd, hcause⟩
    · cases h

/-- Linking fails for want of a module or a symbol, or at a slot. -/
theorem link_eq_error (h : l.link = .error e) :
    (l.missing ≠ [] ∧ e = .missingModules l.missing) ∨ (∃ names, e = .unresolvedSymbols names) ∨
      ∃ o ∈ l.image.objects, SlotError l.image.symbols o e := by
  unfold link at h
  split at h
  · obtain h | ⟨_, -, h⟩ := except_bind_eq_error.mp h
    · exact .inr (.inr (linkObjects_eq_error h))
    · dsimp only at h
      split at h
      · cases h
      · exact .inr (.inl ⟨_, (Except.error.inj h).symm⟩)
  · next hmissing => exact .inl ⟨hmissing, (Except.error.inj h).symm⟩

/-- All slots of an object lie inside its code, and its references can be bound. -/
def Ready (symbols : NameMap Symbol) (o : Object) : Prop :=
  (∀ n ∈ o.relocations, n + 8 ≤ o.code.size) ∧ Binds symbols o.code o.unresolved

theorem exists_linkObject_iff :
    (∃ o', linkObject symbols page o = .ok (o', [])) ↔ Ready symbols o := by
  constructor
  · rintro ⟨o', h⟩
    obtain ⟨code, code', hrelocate, hresolve, -⟩ := linkObject_eq_ok h
    have hsize := size_of_relocate hrelocate
    exact ⟨exists_relocate_iff.mp ⟨code, hrelocate⟩,
      (exists_resolve_iff.mp ⟨code', hresolve⟩).congr hsize.symm⟩
  · rintro ⟨hrelocations, hbinds⟩
    obtain ⟨code, hrelocate⟩ := exists_relocate_iff.mpr hrelocations
    have hsize := size_of_relocate hrelocate
    obtain ⟨code', hresolve⟩ := exists_resolve_iff.mpr (hbinds.congr hsize)
    refine ⟨{ o with code := code', unresolved := [], relocations := [] }, ?_⟩
    exact except_bind_eq_ok.mpr ⟨code, hrelocate,
      except_bind_eq_ok.mpr ⟨(code', []), hresolve, rfl⟩⟩

theorem exists_linkObjects_iff (page : Nat) {objects : List Object} :
    (∃ linked, linkObjects symbols page objects = .ok (linked, [])) ↔
      ∀ o ∈ objects, Ready symbols o := by
  constructor
  · rintro ⟨linked, h⟩ o ho
    obtain ⟨p, hp⟩ := List.getElem?_of_mem ho
    obtain ⟨o', -, hlink⟩ := (linkObjects_get? h).2 p o hp
    exact exists_linkObject_iff.mp ⟨o', hlink⟩
  · intro h
    induction objects generalizing page with
    | nil => exact ⟨[], rfl⟩
    | cons o rest ih =>
      obtain ⟨hfirst, hrest⟩ := List.forall_mem_cons.mp h
      obtain ⟨o', ho'⟩ := exists_linkObject_iff.mpr hfirst
      obtain ⟨os, hos⟩ := ih (page + 1) hrest
      exact ⟨o' :: os, except_bind_eq_ok.mpr ⟨(o', []), ho',
        except_bind_eq_ok.mpr ⟨(os, []), hos, rfl⟩⟩⟩

theorem exists_link_iff :
    (∃ image, l.link = .ok image) ↔
      l.missing = [] ∧ ∀ o ∈ l.image.objects, Ready l.image.symbols o := by
  rw [← exists_linkObjects_iff 0]
  constructor
  · rintro ⟨image, h⟩
    obtain ⟨linked, hlinked, -⟩ := link_eq_ok h
    refine ⟨?_, linked, hlinked⟩
    unfold link at h
    split at h
    · next hmissing => exact hmissing
    · cases h
  · rintro ⟨hmissing, linked, hlinked⟩
    refine ⟨{ l.image with objects := linked }, ?_⟩
    unfold link
    rw [hmissing]
    exact except_bind_eq_ok.mpr ⟨(linked, []), hlinked, rfl⟩

/-! ## Objects that go together -/

/-- Objects of different names, no more than there are pages, that define different names. -/
structure Compatible (objects : List Object) : Prop where
  pages : objects.length ≤ 32
  names : (objects.map (·.name)).Nodup
  symbolNames : (CellMachine.symbolNames objects).Nodup

theorem Consistent.compatible (h : l.Consistent) : Compatible l.image.objects :=
  ⟨h.pages, h.names, h.symbolNames⟩

theorem Compatible.not_refuses {rest : List Object}
    (h : Compatible (l.image.objects ++ o :: rest)) : ¬l.Refuses o := by
  rintro (hname | hpages | ⟨y, hy, hsymbol⟩)
  · have hnames := h.names
    rw [List.map_append, List.map_cons] at hnames
    exact (List.nodup_append.mp hnames).2.2 _ hname _ List.mem_cons_self rfl
  · have hlength := h.pages
    rw [List.length_append, List.length_cons] at hlength
    omega
  · have hnames := h.symbolNames
    unfold CellMachine.symbolNames at hnames
    rw [List.flatMap_append, List.flatMap_cons] at hnames
    refine (List.nodup_append.mp hnames).2.2 _ hsymbol y.name ?_ rfl
    exact List.mem_append_left _ (List.mem_map_of_mem hy)

theorem exists_addAll_iff {rest : List Object} (h : l.Consistent)
    (hown : ∀ o ∈ rest, (o.symbols.map (·.name)).Nodup) :
    (∃ l', l.addAll rest = .ok l') ↔ Compatible (l.image.objects ++ rest) := by
  constructor
  · rintro ⟨l', hok⟩
    obtain ⟨hl', hobjects⟩ := h.addAll hown hok
    rw [← hobjects]
    exact hl'.compatible
  · intro hcompatible
    induction rest generalizing l with
    | nil => exact ⟨l, rfl⟩
    | cons o rest ih =>
      obtain ⟨hfirst, hrest⟩ := List.forall_mem_cons.mp hown
      have ho := hcompatible.not_refuses
      rw [← objects_extended_append] at hcompatible
      obtain ⟨l', hok⟩ := ih (h.extended ho hfirst) hrest hcompatible
      exact ⟨l', except_bind_eq_ok.mpr ⟨_, (add_eq_ok_iff h).mpr ⟨ho, rfl⟩, hok⟩⟩

end Linker

/-! ## All objects together -/

/-- Objects that can be linked, in whatever order they are. -/
structure Linkable (objects : List Object) : Prop where
  compatible : Linker.Compatible objects
  required : ∀ o ∈ objects, ∀ name ∈ o.required, ∃ d ∈ objects, d.name = name
  relocations : ∀ o ∈ objects, ∀ n ∈ o.relocations, n + 8 ≤ o.code.size
  references : ∀ o ∈ objects, ∀ r ∈ o.unresolved, r.offset + r.datatype.size ≤ o.code.size ∧
    ∃ d ∈ objects, ∃ y ∈ d.symbols, y.name = r.name ∧ (y.value.fit? r.datatype).isSome = true

theorem Linkable.perm {objects objects' : List Object} (h : Linkable objects)
    (hperm : objects.Perm objects') : Linkable objects' where
  compatible := {
    pages := hperm.length_eq ▸ h.compatible.pages
    names := (hperm.map _).nodup_iff.mp h.compatible.names
    symbolNames := (hperm.flatMap_right _).nodup_iff.mp h.compatible.symbolNames }
  required := by simpa only [hperm.mem_iff] using h.required
  relocations := by simpa only [hperm.mem_iff] using h.relocations
  references := by simpa only [hperm.mem_iff] using h.references

theorem Value.OnPage.isSome_fit? {page : Nat} {v w : Value} (h : v.OnPage page w) (dt : Datatype) :
    (w.fit? dt).isSome = (v.fit? dt).isSome := by
  cases h with
  | addr _ =>
    simp only [Value.fit?_addr]
    split
    · rfl
    · split <;> rfl
  | other _ => rfl

namespace Linker

theorem Consistent.missing_eq_nil {l : Linker} (h : l.Consistent) :
    l.missing = [] ↔ ∀ o ∈ l.image.objects, ∀ name ∈ o.required,
      ∃ d ∈ l.image.objects, d.name = name := by
  simp only [List.eq_nil_iff_forall_not_mem, h.missing, not_and, not_forall, not_not]
  constructor
  · intro hall o ho name hname
    simpa using hall name ⟨o, ho, hname⟩
  · rintro hall name ⟨o, ho, hname⟩
    simpa using hall o ho name hname

theorem Consistent.isSome_boundValue? {l : Linker} (h : l.Consistent) (r : Reference) :
    (boundValue? l.image.symbols r).isSome = true ↔ ∃ d ∈ l.image.objects, ∃ y ∈ d.symbols,
      y.name = r.name ∧ (y.value.fit? r.datatype).isSome = true := by
  unfold boundValue?
  rw [Option.isSome_bind, Option.any_eq_true]
  constructor
  · rintro ⟨x, hx, hfit⟩
    obtain ⟨p, d, y, hp, hy, hname, honPage⟩ := (h.symbols r.name x).mp hx
    exact ⟨d, List.mem_of_getElem? hp, y, hy, hname, honPage.value.isSome_fit? _ ▸ hfit⟩
  · rintro ⟨d, hd, y, hy, hname, hfit⟩
    obtain ⟨p, hp⟩ := List.getElem?_of_mem hd
    obtain ⟨hget, honPage⟩ := h.get?_symbols hp hy
    exact ⟨y.withPage p, hname ▸ hget, (honPage.value.isSome_fit? _).trans hfit⟩

end Linker

/-- Linking succeeds just on the objects that can be linked. -/
theorem Image.exists_ofObjects_iff {objects : List Object}
    (hown : ∀ o ∈ objects, (o.symbols.map (·.name)).Nodup) :
    (∃ image, Image.ofObjects objects = .ok image) ↔ Linkable objects := by
  have hempty := Linker.consistent_empty
  constructor
  · rintro ⟨image, h⟩
    obtain ⟨l, hadd, hlink⟩ := except_bind_eq_ok.mp h
    obtain ⟨hl, hobjects⟩ := hempty.addAll hown hadd
    obtain ⟨hmissing, hready⟩ := Linker.exists_link_iff.mp ⟨image, hlink⟩
    change l.image.objects = objects at hobjects
    subst hobjects
    exact ⟨hl.compatible, hl.missing_eq_nil.mp hmissing, fun o ho => (hready o ho).1,
      fun o ho r hr => ⟨((hready o ho).2 r hr).1,
        (hl.isSome_boundValue? r).mp ((hready o ho).2 r hr).2⟩⟩
  · intro h
    obtain ⟨l, hadd⟩ := (Linker.exists_addAll_iff hempty hown).mpr h.compatible
    obtain ⟨hl, hobjects⟩ := hempty.addAll hown hadd
    change l.image.objects = objects at hobjects
    subst hobjects
    obtain ⟨image, hlink⟩ := Linker.exists_link_iff.mpr ⟨hl.missing_eq_nil.mpr h.required,
      fun o ho => ⟨h.relocations o ho, fun r hr => ⟨(h.references o ho r hr).1,
        (hl.isSome_boundValue? r).mpr (h.references o ho r hr).2⟩⟩⟩
    exact ⟨image, except_bind_eq_ok.mpr ⟨l, hadd, hlink⟩⟩

/-! ## Code on two pages -/

/-- The address `a` stands at an offset of both codes, on a page of its own in each. -/
structure MovesAt (code code' : Buffer) (offset : Nat) (page page' : Nat) (a : Address) : Prop where
  left : ∃ b, readCell? code offset .addr = some (Cell.ofAddress b) ∧ a.OnPage page b
  right : ∃ b, readCell? code' offset .addr = some (Cell.ofAddress b) ∧ a.OnPage page' b

/-- One of the objects defines the name of a reference as an address. -/
def RefersToAddress (objects : List Object) (r : Reference) : Prop :=
  ∃ d ∈ objects, ∃ y ∈ d.symbols, y.name = r.name ∧ y.value.datatype = .addr

/-- How the code of an object `o` on the page `p` among `objects` differs from its code on the page
`p'` among `objects'`. -/
structure CodeMoves (objects objects' : List Object) (o : Object) (p p' : Nat)
    (code code' : Buffer) : Prop where
  size : code'.size = code.size
  relocations : ∀ n ∈ o.relocations, ∃ a, readCell? o.code n .addr = some (Cell.ofAddress a) ∧
    MovesAt code code' n p p' a
  references : ∀ r ∈ o.unresolved, ∀ (q q' : Nat) (d : Object), objects[q]? = some d →
    objects'[q']? = some d → ∀ y ∈ d.symbols, y.name = r.name → ∀ a, y.value = .addr a →
      MovesAt code code' r.offset q q' a
  elsewhere : ∀ i : Nat, (∀ n ∈ o.relocations, i < n ∨ n + Datatype.addr.size ≤ i) →
    (∀ r ∈ o.unresolved, RefersToAddress objects r →
      i < r.offset ∨ r.offset + r.datatype.size ≤ i) → code'[i]? = code[i]?

/-- An address takes the same bytes in every slot that it fits into. -/
theorem Value.bytes_of_fit?_addr {a : Address} {dt : Datatype} {v : Value}
    (h : (Value.addr a).fit? dt = some v) :
    v.toCell.bytes dt = (Cell.ofAddress a).bytes .addr := by
  rw [Value.fit?_addr] at h
  split at h
  · next hdt =>
    subst hdt
    cases h
    rfl
  · split at h
    · next hdt =>
      subst hdt
      cases h
      rfl
    · cases h

namespace Linked

variable {objects objects' : List Object} {o a a' : Object} {p p' : Nat}

/-- Whatever a name means is the symbol of any object that defines it. -/
def Unique (objects : List Object) : Prop :=
  ∀ {q : Nat} {d : Object} {x y : Symbol}, objects[q]? = some d → y ∈ d.symbols →
    IsSymbolOf objects y.name x → y.OnPage q x

variable {r : Reference}

/-- The value of a reference is that of the symbol with its name, on the page of that symbol. -/
theorem holds (h : Linked objects p o a) (hunique : Unique objects) (hr : r ∈ o.unresolved)
    {q : Nat} {d : Object} {y : Symbol} (hd : objects[q]? = some d) (hy : y ∈ d.symbols)
    (hname : y.name = r.name) :
    ∃ w v, y.value.OnPage q w ∧ w.fit? r.datatype = some v ∧
      a.code.Holds r.offset (v.toCell.bytes r.datatype) := by
  obtain ⟨x, v, hx, hfit, hholds⟩ := h.unresolved r hr
  exact ⟨x.value, v, (hunique hd hy (hname ▸ hx)).value, hfit, hholds⟩

theorem address_at (h : Linked objects p o a) (hunique : Unique objects) (hr : r ∈ o.unresolved)
    {q : Nat} {d : Object} {y : Symbol} (hd : objects[q]? = some d) (hy : y ∈ d.symbols)
    (hname : y.name = r.name) {b : Address} (hb : y.value = .addr b) :
    ∃ c, readCell? a.code r.offset .addr = some (Cell.ofAddress c) ∧ b.OnPage q c := by
  obtain ⟨w, v, honPage, hfit, hholds⟩ := h.holds hunique hr hd hy hname
  rw [hb] at honPage
  cases honPage with
  | addr hc =>
    rw [Value.bytes_of_fit?_addr hfit] at hholds
    exact ⟨_, readCell?_of_holds (Cell.fits_of_size_eq rfl) hholds, hc⟩
  | other hne => exact absurd rfl hne

/-- Both codes have the same bytes in the slot of a reference that is not bound to an address. -/
theorem getElem?_slot (h : Linked objects p o a) (h' : Linked objects' p' o a')
    (hunique : Unique objects) (hperm : objects.Perm objects') (hr : r ∈ o.unresolved)
    (haddress : ¬RefersToAddress objects r) {i : Nat} (hle : r.offset ≤ i)
    (hlt : i < r.offset + r.datatype.size) : a'.code[i]? = a.code[i]? := by
  obtain ⟨x', v', ⟨q', d, y, hq', hy, hname, hx'⟩, hfit', hholds'⟩ := h'.unresolved r hr
  have hd : d ∈ objects := hperm.mem_iff.mpr (List.mem_of_getElem? hq')
  obtain ⟨q, hq⟩ := List.getElem?_of_mem hd
  obtain ⟨w, v, hw, hfit, hholds⟩ := h.holds hunique hr hq hy hname
  have hvalue : y.value.datatype ≠ .addr := fun hv => haddress ⟨d, hd, y, hy, hname, hv⟩
  rw [hw.eq_of_ne hvalue] at hfit
  rw [hx'.value.eq_of_ne hvalue] at hfit'
  obtain rfl : v' = v := Option.some.inj (hfit'.symm.trans hfit)
  obtain ⟨j, rfl⟩ := Nat.exists_eq_add_of_le hle
  have hj : j < (v'.toCell.bytes r.datatype).length := by
    rw [Cell.length_bytes]
    omega
  rw [hholds.getElem?_add hj, hholds'.getElem?_add hj]

theorem codeMoves (h : Linked objects p o a) (h' : Linked objects' p' o a')
    (hunique : Unique objects) (hunique' : Unique objects') (hperm : objects.Perm objects') :
    CodeMoves objects objects' o p p' a.code a'.code := by
  constructor
  case size => exact h'.size.trans h.size.symm
  case relocations =>
    intro n hn
    obtain ⟨b, c, hb, hleft⟩ := h.relocations n hn
    obtain ⟨b', c', hb', hright⟩ := h'.relocations n hn
    obtain rfl : b = b' := congrArg Cell.toAddress (Option.some.inj (hb.symm.trans hb'))
    exact ⟨b, hb, ⟨c, hleft⟩, ⟨c', hright⟩⟩
  case references =>
    intro r hr q q' d hq hq' y hy hname b hb
    exact ⟨h.address_at hunique hr hq hy hname hb, h'.address_at hunique' hr hq' hy hname hb⟩
  case elsewhere =>
    intro i hrelocations hreferences
    -- A byte in no slot is that of the object. One in the slot of a reference to another value is
    -- overwritten both times, with the same bytes.
    by_cases hslot : ∃ r ∈ o.unresolved, r.offset ≤ i ∧ i < r.offset + r.datatype.size
    · obtain ⟨r, hr, hle, hlt⟩ := hslot
      refine h.getElem?_slot h' hunique hperm hr (fun haddress => ?_) hle hlt
      have := hreferences r hr haddress
      omega
    · have hfree : ∀ r ∈ o.unresolved, i < r.offset ∨ r.offset + r.datatype.size ≤ i := by
        intro r hr
        by_contra hin
        exact hslot ⟨r, hr, by omega, by omega⟩
      rw [h.elsewhere i hrelocations hfree, h'.elsewhere i hrelocations hfree]

end Linked

/-! ## Images of the same objects -/

/-- The object `o` stands as `a` on a page of an image, and so do its symbols. -/
structure Image.Places (image : Image) (o : Object) (page : Nat) (a : Object) : Prop where
  index : image.index.get? o.name = some page
  object : image.objects[page]? = some a
  others : a = { o with code := a.code, unresolved := [], relocations := [] }
  symbols : ∀ y ∈ o.symbols, ∃ x, image.symbols.get? y.name = some x ∧ y.OnPage page x

/-- The images of the same objects in two orders differ in pages only. -/
structure Image.Reordered (objects objects' : List Object) (image image' : Image) : Prop where
  length : image.objects.length = objects.length
  length' : image'.objects.length = objects.length
  mandatory : image'.mandatory = image.mandatory
  optional : image'.optional = image.optional
  kinds : ∀ name,
    (image'.symbols.get? name).map (·.kind) = (image.symbols.get? name).map (·.kind)
  objects : ∀ o ∈ objects, ∃ p p' a a', objects[p]? = some o ∧ objects'[p']? = some o ∧
    image.Places o p a ∧ image'.Places o p' a' ∧ CodeMoves objects objects' o p p' a.code a'.code

namespace Linker

variable {l l' : Linker}

theorem Consistent.unique (h : l.Consistent) : Linked.Unique l.image.objects := by
  intro q d x y hq hy hx
  obtain ⟨hget, honPage⟩ := h.get?_symbols hq hy
  rwa [Option.some.inj (((h.symbols y.name x).mpr hx).symm.trans hget)]

theorem Consistent.kind_iff (h : l.Consistent) (name : String) (kind : SymbolKind) :
    (l.image.symbols.get? name).map (·.kind) = some kind ↔
      ∃ o ∈ l.image.objects, ∃ y ∈ o.symbols, y.name = name ∧ y.kind = kind := by
  rw [Option.map_eq_some_iff]
  constructor
  · rintro ⟨x, hx, rfl⟩
    obtain ⟨p, o, y, hp, hy, hname, honPage⟩ := (h.symbols name x).mp hx
    exact ⟨o, List.mem_of_getElem? hp, y, hy, hname, honPage.kind.symm⟩
  · rintro ⟨o, ho, y, hy, hname, rfl⟩
    obtain ⟨p, hp⟩ := List.getElem?_of_mem ho
    exact ⟨y.withPage p, hname ▸ (h.get?_symbols hp hy).1, rfl⟩

/-- Linking puts every object on the page that is its place. -/
theorem Consistent.places (h : l.Consistent) {linked : List Object} {o a : Object} {p : Nat}
    (hp : l.image.objects[p]? = some o) (ha : linked[p]? = some a)
    (hlinked : Linked l.image.objects p o a) :
    ({ l.image with objects := linked } : Image).Places o p a where
  index := (h.index o.name p).mpr ⟨o, hp, rfl⟩
  object := ha
  others := hlinked.others
  symbols y hy := ⟨y.withPage p, h.get?_symbols hp hy⟩

end Linker

theorem Image.reordered_of_perm {objects objects' : List Object} {image image' : Image}
    (hobjects : ∀ o ∈ objects, ∃ tokens name, assemble tokens name = .ok o)
    (hperm : objects.Perm objects') (h : Image.ofObjects objects = .ok image)
    (h' : Image.ofObjects objects' = .ok image') :
    Image.Reordered objects objects' image image' := by
  obtain ⟨l, linked, hl, rfl, rfl, hlength, hlinked⟩ := ofObjects_parts hobjects h
  obtain ⟨l', linked', hl', rfl, rfl, hlength', hlinked'⟩ :=
    ofObjects_parts (fun o ho => hobjects o (hperm.mem_iff.mpr ho)) h'
  constructor
  case length => exact hlength
  case length' => exact hlength'.trans hperm.length_eq.symm
  case mandatory =>
    refine NameSet.ext_keys fun name => ?_
    rw [hl'.mandatory, hl.mandatory]
    simp only [hperm.mem_iff]
  case optional =>
    refine NameSet.ext_keys fun name => ?_
    rw [hl'.optional, hl.optional]
    simp only [hperm.mem_iff]
  case kinds =>
    intro name
    refine Option.ext fun kind => ?_
    rw [hl'.kind_iff, hl.kind_iff]
    simp only [hperm.mem_iff]
  case objects =>
    intro o ho
    obtain ⟨p, hp⟩ := List.getElem?_of_mem ho
    obtain ⟨p', hp'⟩ := List.getElem?_of_mem (hperm.mem_iff.mp ho)
    obtain ⟨a, ha, hoa⟩ := hlinked p o hp
    obtain ⟨a', ha', hoa'⟩ := hlinked' p' o hp'
    exact ⟨p, p', a, a', hp, hp', hl.places hp ha hoa, hl'.places hp' ha' hoa',
      hoa.codeMoves hoa' hl.unique hl'.unique hperm⟩

/-- The order of the objects decides about their pages and about nothing else. -/
theorem Image.ofObjects_perm {objects objects' : List Object}
    (hobjects : ∀ o ∈ objects, ∃ tokens name, assemble tokens name = .ok o)
    (hperm : objects.Perm objects') :
    ((∃ image, Image.ofObjects objects = .ok image) ↔
      ∃ image', Image.ofObjects objects' = .ok image') ∧
    ∀ image image', Image.ofObjects objects = .ok image → Image.ofObjects objects' = .ok image' →
      Image.Reordered objects objects' image image' := by
  have hown := nodup_symbols_of_assembled hobjects
  have hown' : ∀ o ∈ objects', (o.symbols.map (·.name)).Nodup :=
    fun o ho => hown o (hperm.mem_iff.mpr ho)
  constructor
  · rw [exists_ofObjects_iff hown, exists_ofObjects_iff hown']
    exact ⟨fun h => h.perm hperm, fun h => h.perm hperm.symm⟩
  · intro image image' h h'
    exact reordered_of_perm hobjects hperm h h'

/-- A jump into the other object, linked before and behind it. -/
theorem Image.ofObjects_perm_jump :
    ∃ image image', Image.ofObjects [jumpObject, startObject] = .ok image ∧
      Image.ofObjects [startObject, jumpObject] = .ok image' ∧
      Image.Reordered [jumpObject, startObject] [startObject, jumpObject] image image' := by
  have hjump : assemble jumpTokens "a" = .ok jumpObject := by cbv
  have hstart : assemble startTokens "b" = .ok startObject := by cbv
  have hok : (Image.ofObjects [jumpObject, startObject]).isOk = true := by cbv
  obtain ⟨hiff, hreordered⟩ := Image.ofObjects_perm (fun o ho => by
    rcases List.mem_pair.mp ho with rfl | rfl
    · exact ⟨_, _, hjump⟩
    · exact ⟨_, _, hstart⟩) (List.Perm.swap startObject jumpObject [])
  generalize hlink : Image.ofObjects [jumpObject, startObject] = r at hok
  cases r with
  | error e => cases hok
  | ok image =>
    obtain ⟨image', hlink'⟩ := hiff.mp ⟨image, hlink⟩
    exact ⟨image, image', rfl, hlink', hreordered image image' hlink hlink'⟩

end CellMachine
