import CellMachine.Image.Linker
import CellMachine.Proofs.Action
import CellMachine.Proofs.Address
import CellMachine.Proofs.NameMap

/-!
# The tables of the linker

The linker keeps its objects, the page of every name, the symbols, the permissions and the modules
it still wants. `Linker.Consistent` says what each table holds in terms of the objects alone. An
object that is added keeps the tables consistent (`Linker.Consistent.extended`), one that is
refused changes nothing, and `Linker.Refuses` says which objects those are. So the tables are
consistent behind any calls, whatever their outcome (`Linker.consistent_offered`).
-/

namespace CellMachine

/-! ## Values on a page -/

/-- The value of a symbol on the page of its object : an address moves there, other values stay
as they are. -/
inductive Value.OnPage (page : Nat) : Value → Value → Prop
  | addr {a b : Address} (h : a.OnPage page b) : OnPage page (.addr a) (.addr b)
  | other {v : Value} (h : v.datatype ≠ .addr) : OnPage page v v

/-- The symbol `x` is `y` on a page. -/
structure Symbol.OnPage (page : Nat) (y x : Symbol) : Prop where
  name : x.name = y.name
  kind : x.kind = y.kind
  value : y.value.OnPage page x.value

variable {v : Value} {page : Nat}

theorem Value.withPage_of_ne (h : v.datatype ≠ .addr) (page : Nat) : v.withPage page = v := by
  cases v with
  | addr a => exact absurd rfl h
  | _ => rfl

theorem Value.onPage_iff (h : page < Address.maxPages) {w : Value} :
    v.OnPage page w ↔ w = v.withPage page := by
  constructor
  · intro hw
    cases hw with
    | addr hb => exact congrArg Value.addr ((Address.onPage_iff h).mp hb)
    | other hv => exact (withPage_of_ne hv page).symm
  · rintro rfl
    by_cases hv : v.datatype = .addr
    · cases v with
      | addr a => exact .addr (Address.onPage_withPage h a)
      | _ => cases hv
    · rw [withPage_of_ne hv]
      exact .other hv

theorem Symbol.onPage_iff (h : page < Address.maxPages) {x y : Symbol} :
    y.OnPage page x ↔ x = y.withPage page := by
  constructor
  · intro hx
    cases x with
    | mk name kind value =>
      obtain ⟨rfl, rfl, hvalue⟩ := hx
      exact congrArg (Symbol.mk y.name y.kind) ((Value.onPage_iff h).mp hvalue)
  · rintro rfl
    exact ⟨rfl, rfl, (Value.onPage_iff h).mpr rfl⟩

/-- A value that is no address is the same on every page. -/
theorem Value.OnPage.eq_of_ne {w : Value} (h : v.OnPage page w) (hv : v.datatype ≠ .addr) :
    w = v := by
  cases h with
  | addr _ => exact absurd rfl hv
  | other _ => rfl

/-- A symbol of one of the objects, on the page of that object. -/
def IsSymbolOf (objects : List Object) (name : String) (x : Symbol) : Prop :=
  ∃ (p : Nat) (o : Object) (y : Symbol),
    objects[p]? = some o ∧ y ∈ o.symbols ∧ y.name = name ∧ y.OnPage p x

/-! ## One more object -/

/-- What speaks against adding an object. -/
def Linker.objection? (l : Linker) (o : Object) : Option LinkError :=
  if l.image.index.contains o.name then some (.duplicateModule o.name)
  else if Address.maxPages ≤ l.image.objects.length then some (.tooManyModules Address.maxPages)
  else (o.symbols.find? fun s => l.image.symbols.contains s.name).map fun clash =>
    .symbolAlreadyDefined clash.name o.name

theorem Linker.objection?_eq_none {l : Linker} {o : Object} :
    l.objection? o = none ↔ l.image.index.contains o.name = false ∧
      l.image.objects.length < Address.maxPages ∧
      ∀ s ∈ o.symbols, l.image.symbols.contains s.name = false := by
  unfold objection?
  by_cases hname : l.image.index.contains o.name = true
  · simp [hname]
  by_cases hpages : Address.maxPages ≤ l.image.objects.length
  · simp [hname, hpages]
  · simp [hname, hpages, Nat.not_le.mp hpages]

theorem Linker.objection?_eq_some {l : Linker} {o : Object} {e : LinkError}
    (h : l.objection? o = some e) :
    (l.image.index.contains o.name = true ∧ e = .duplicateModule o.name) ∨
      e = .tooManyModules Address.maxPages ∨
      ∃ clash ∈ o.symbols, e = .symbolAlreadyDefined clash.name o.name := by
  unfold objection? at h
  split at h
  · next hname => exact .inl ⟨hname, (Option.some.inj h).symm⟩
  split at h
  · exact .inr (.inl (Option.some.inj h).symm)
  · obtain ⟨clash, hclash, rfl⟩ := Option.map_eq_some_iff.mp h
    exact .inr (.inr ⟨clash, List.mem_of_find?_eq_some hclash, rfl⟩)

/-- All tables with what one more object brings. -/
def Linker.extended (l : Linker) (o : Object) : Linker :=
  Linker.update ⟨{
    objects := l.image.objects ++ [o]
    index := l.image.index.insert o.name l.image.objects.length
    symbols := o.symbols.foldl
      (fun m s => m.insert s.name (s.withPage l.image.objects.length)) l.image.symbols
    mandatory := NameSet.addAll l.image.mandatory o.mandatory.keys
    optional := NameSet.addAll l.image.optional o.optional.keys }, l.wanted⟩

namespace Linking

theorem defineAll_apply (page : Nat) (xs : List Symbol) (l : Linker) :
    defineAll page xs l = .ok () { l with image := { l.image with
      symbols := xs.foldl (fun m s => m.insert s.name (s.withPage page)) l.image.symbols } } := by
  induction xs generalizing l with
  | nil => rfl
  | cons s rest ih => exact ih (l.define page s)

theorem add_of_objection {l : Linker} {o : Object} {e : LinkError} (h : l.objection? o = some e) :
    add o l = .error e l := by
  unfold Linker.objection? at h
  unfold add
  rw [get_bind_apply]
  by_cases hname : l.image.index.contains o.name = true
  · rw [if_pos hname] at h ⊢
    cases h
    rfl
  rw [if_neg hname] at h ⊢
  by_cases hpages : Address.maxPages ≤ l.image.objects.length
  · rw [if_pos hpages] at h ⊢
    cases h
    rfl
  rw [if_neg hpages] at h ⊢
  obtain ⟨clash, hclash, rfl⟩ := Option.map_eq_some_iff.mp h
  rw [hclash]
  rfl

theorem add_of_none {l : Linker} {o : Object} (h : l.objection? o = none) :
    add o l = .ok () (l.extended o) := by
  unfold Linker.objection? at h
  unfold add
  rw [get_bind_apply]
  by_cases hname : l.image.index.contains o.name = true
  · rw [if_pos hname] at h
    cases h
  rw [if_neg hname] at h ⊢
  by_cases hpages : Address.maxPages ≤ l.image.objects.length
  · rw [if_pos hpages] at h
    cases h
  rw [if_neg hpages] at h ⊢
  rw [Option.map_eq_none_iff.mp h]
  exact bind_eq_ok.mpr ⟨(), _, defineAll_apply _ o.symbols l, rfl⟩

end Linking

/-! ## What the tables hold -/

theorem get?_foldl_insert {xs : List Symbol} (h : (xs.map (·.name)).Nodup) (f : Symbol → Symbol)
    (m : NameMap Symbol) (k : String) (x : Symbol) :
    (xs.foldl (fun m s => m.insert s.name (f s)) m).get? k = some x ↔
      (∃ y ∈ xs, y.name = k ∧ x = f y) ∨ (∀ y ∈ xs, y.name ≠ k) ∧ m.get? k = some x := by
  induction xs generalizing m with
  | nil => simp
  | cons a rest ih =>
    obtain ⟨ha, hrest⟩ := List.nodup_cons.mp h
    have hne : ∀ y ∈ rest, y.name ≠ a.name := fun y hy heq =>
      ha (List.mem_map.mpr ⟨y, hy, heq⟩)
    rw [List.foldl_cons, ih hrest, NameMap.get?_insert]
    by_cases hk : k = a.name
    · subst hk
      simp only [if_true, Option.some.injEq, List.mem_cons, exists_eq_or_imp, forall_eq_or_imp]
      constructor
      · rintro (⟨y, hy, hname, -⟩ | ⟨-, rfl⟩)
        · exact absurd hname (hne y hy)
        · exact Or.inl (Or.inl ⟨trivial, rfl⟩)
      · rintro ((⟨-, rfl⟩ | ⟨y, hy, hname, -⟩) | ⟨⟨hself, -⟩, -⟩)
        · exact Or.inr ⟨hne, rfl⟩
        · exact absurd hname (hne y hy)
        · exact absurd rfl hself
    · have hka : a.name ≠ k := Ne.symm hk
      simp [hk, hka]

theorem getElem?_append_singleton {α : Type} {xs : List α} {x y : α} {p : Nat} :
    (xs ++ [x])[p]? = some y ↔ xs[p]? = some y ∨ p = xs.length ∧ y = x := by
  rw [List.getElem?_append]
  split
  · next h => simp [Nat.ne_of_lt h]
  · next h =>
    have hnone : xs[p]? = none := List.getElem?_eq_none (Nat.not_lt.mp h)
    rw [List.getElem?_singleton, hnone]
    grind

/-- The names of all symbols of some objects. -/
def symbolNames (objects : List Object) : List String :=
  objects.flatMap fun o => o.symbols.map (·.name)

theorem mem_symbolNames {objects : List Object} {name : String} :
    name ∈ symbolNames objects ↔ ∃ o ∈ objects, ∃ y ∈ o.symbols, y.name = name := by
  simp only [symbolNames, List.mem_flatMap, List.mem_map]

namespace Linker

/-- Every table of the linker is what its objects say. -/
structure Consistent (l : Linker) : Prop where
  pages : l.image.objects.length ≤ 32
  index : ∀ name p, l.image.index.get? name = some p ↔
    ∃ o, l.image.objects[p]? = some o ∧ o.name = name
  names : (l.image.objects.map (·.name)).Nodup
  symbolNames : (symbolNames l.image.objects).Nodup
  symbols : ∀ name x, l.image.symbols.get? name = some x ↔ IsSymbolOf l.image.objects name x
  mandatory : ∀ name, name ∈ l.image.mandatory.keys ↔
    ∃ o ∈ l.image.objects, name ∈ o.mandatory.keys
  optional : ∀ name, name ∈ l.image.optional.keys ↔
    ∃ o ∈ l.image.objects, name ∈ o.optional.keys
  missing : ∀ name, name ∈ l.missing ↔ (∃ o ∈ l.image.objects, name ∈ o.required) ∧
    ∀ o ∈ l.image.objects, o.name ≠ name

/-- An object that cannot be added : its name is taken, there is no page left, or it defines a
name that another object defines. -/
def Refuses (l : Linker) (o : Object) : Prop :=
  o.name ∈ l.image.objects.map (·.name) ∨ 32 ≤ l.image.objects.length ∨
    ∃ y ∈ o.symbols, y.name ∈ CellMachine.symbolNames l.image.objects

theorem consistent_empty : empty.Consistent := by
  constructor <;>
    simp [empty, Image.empty, missing, CellMachine.symbolNames, IsSymbolOf, NameMap.get?_empty,
      NameMap.mem_keys]

theorem contains_index {image : Image} (h : ∀ name p, image.index.get? name = some p ↔
    ∃ o, image.objects[p]? = some o ∧ o.name = name) (name : String) :
    image.index.contains name = true ↔ ∃ o ∈ image.objects, o.name = name := by
  unfold NameMap.contains
  rw [Option.isSome_iff_exists]
  constructor
  · rintro ⟨p, hp⟩
    obtain ⟨o, ho, hname⟩ := (h name p).mp hp
    exact ⟨o, List.mem_of_getElem? ho, hname⟩
  · rintro ⟨o, ho, hname⟩
    obtain ⟨p, hp⟩ := List.getElem?_of_mem ho
    exact ⟨p, (h name p).mpr ⟨o, hp, hname⟩⟩

variable {l : Linker}

/-- What is wanted is found out from the objects and their pages. -/
theorem mem_missing_update
    (h : ∀ name p, l.image.index.get? name = some p ↔
      ∃ o, l.image.objects[p]? = some o ∧ o.name = name)
    (name : String) :
    name ∈ l.update.missing ↔ (∃ o ∈ l.image.objects, name ∈ o.required) ∧
      ∀ o ∈ l.image.objects, o.name ≠ name := by
  change name ∈ (NameSet.ofNames _).keys ↔ _
  rw [NameSet.mem_keys_ofNames, List.mem_filter, List.mem_flatMap, Bool.not_eq_true',
    Bool.eq_false_iff, ne_eq, contains_index h]
  simp only [not_exists, not_and, ne_eq]

namespace Consistent

variable {l : Linker} {o : Object}

theorem page_lt (h : l.Consistent) {p : Nat} (hp : l.image.objects[p]? = some o) :
    p < Address.maxPages :=
  Nat.lt_of_lt_of_le (List.getElem?_eq_some_iff.mp hp).1 h.pages

theorem get?_symbols (h : l.Consistent) {p : Nat} {y : Symbol}
    (hp : l.image.objects[p]? = some o) (hy : y ∈ o.symbols) :
    l.image.symbols.get? y.name = some (y.withPage p) ∧ y.OnPage p (y.withPage p) :=
  have honPage := (Symbol.onPage_iff (h.page_lt hp)).mpr rfl
  ⟨(h.symbols y.name _).mpr ⟨p, o, y, hp, hy, rfl, honPage⟩, honPage⟩

theorem contains_symbols (h : l.Consistent) (name : String) :
    l.image.symbols.contains name = true ↔ name ∈ CellMachine.symbolNames l.image.objects := by
  unfold NameMap.contains
  rw [Option.isSome_iff_exists, mem_symbolNames]
  constructor
  · rintro ⟨x, hx⟩
    obtain ⟨p, o, y, hp, hy, hname, -⟩ := (h.symbols name x).mp hx
    exact ⟨o, List.mem_of_getElem? hp, y, hy, hname⟩
  · rintro ⟨o, ho, y, hy, rfl⟩
    obtain ⟨p, hp⟩ := List.getElem?_of_mem ho
    exact ⟨y.withPage p, (h.get?_symbols hp hy).1⟩

/-- The linker refuses just the objects that do not go with those it has. -/
theorem objection?_eq_none (h : l.Consistent) : l.objection? o = none ↔ ¬l.Refuses o := by
  have hname := contains_index h.index o.name
  have hsymbols := fun y : Symbol => h.contains_symbols y.name
  rw [Linker.objection?_eq_none]
  unfold Refuses
  simp only [Bool.eq_false_iff, ne_eq, hname, hsymbols, not_or, not_exists, not_and, Nat.not_le,
    List.mem_map]
  exact Iff.rfl

/-! ## Adding an object -/

theorem index_extended (h : l.Consistent) (ho : ¬l.Refuses o) (name : String) (p : Nat) :
    (l.extended o).image.index.get? name = some p ↔
      ∃ d, (l.extended o).image.objects[p]? = some d ∧ d.name = name := by
  change (l.image.index.insert o.name l.image.objects.length).get? name = some p ↔
    ∃ d, (l.image.objects ++ [o])[p]? = some d ∧ d.name = name
  have hfree : o.name ∉ l.image.objects.map (·.name) := fun hmem => ho (Or.inl hmem)
  rw [NameMap.get?_insert]
  simp only [getElem?_append_singleton]
  by_cases hname : name = o.name
  · subst hname
    rw [if_pos rfl, Option.some.injEq]
    constructor
    · rintro rfl
      exact ⟨o, Or.inr ⟨rfl, rfl⟩, rfl⟩
    · rintro ⟨d, hd | ⟨hp, rfl⟩, hdname⟩
      · exact absurd (List.mem_map.mpr ⟨d, List.mem_of_getElem? hd, hdname⟩) hfree
      · exact hp.symm
  · rw [if_neg hname, h.index]
    constructor
    · rintro ⟨d, hd, hdname⟩
      exact ⟨d, Or.inl hd, hdname⟩
    · rintro ⟨d, hd | ⟨-, rfl⟩, hdname⟩
      · exact ⟨d, hd, hdname⟩
      · exact absurd hdname.symm hname

theorem names_extended (h : l.Consistent) (ho : ¬l.Refuses o) :
    ((l.extended o).image.objects.map (·.name)).Nodup := by
  change ((l.image.objects ++ [o]).map (·.name)).Nodup
  rw [List.map_append, List.map_singleton, List.nodup_append_comm, List.singleton_append,
    List.nodup_cons]
  exact ⟨fun hmem => ho (Or.inl hmem), h.names⟩

theorem symbolNames_extended (h : l.Consistent) (ho : ¬l.Refuses o)
    (hown : (o.symbols.map (·.name)).Nodup) :
    (CellMachine.symbolNames (l.extended o).image.objects).Nodup := by
  change (CellMachine.symbolNames (l.image.objects ++ [o])).Nodup
  have hsplit : CellMachine.symbolNames (l.image.objects ++ [o]) =
      CellMachine.symbolNames l.image.objects ++ o.symbols.map (·.name) := by
    simp [CellMachine.symbolNames]
  rw [hsplit]
  refine List.nodup_append'.mpr ⟨h.symbolNames, hown, fun name hname hmem => ?_⟩
  obtain ⟨y, hy, rfl⟩ := List.mem_map.mp hmem
  exact ho (Or.inr (Or.inr ⟨y, hy, hname⟩))

theorem length_lt (h : l.Consistent) (ho : ¬l.Refuses o) :
    l.image.objects.length < Address.maxPages :=
  (Linker.objection?_eq_none.mp (h.objection?_eq_none.mpr ho)).2.1

theorem symbols_extended (h : l.Consistent) (ho : ¬l.Refuses o)
    (hown : (o.symbols.map (·.name)).Nodup) (name : String) (x : Symbol) :
    (l.extended o).image.symbols.get? name = some x ↔
      IsSymbolOf (l.extended o).image.objects name x := by
  have hlast {y : Symbol} : y.OnPage l.image.objects.length x ↔
      x = y.withPage l.image.objects.length := Symbol.onPage_iff (h.length_lt ho)
  change (o.symbols.foldl _ l.image.symbols).get? name = some x ↔
    IsSymbolOf (l.image.objects ++ [o]) name x
  unfold IsSymbolOf
  simp only [get?_foldl_insert hown, h.symbols, getElem?_append_singleton]
  constructor
  · rintro (⟨y, hy, hname, hx⟩ | ⟨-, p, d, y, hp, hy, hname, hx⟩)
    · exact ⟨_, o, y, .inr ⟨rfl, rfl⟩, hy, hname, hlast.mpr hx⟩
    · exact ⟨p, d, y, .inl hp, hy, hname, hx⟩
  · rintro ⟨p, d, y, hp | ⟨rfl, rfl⟩, hy, hname, hx⟩
    · -- The new object cannot define this name as well: it would have been refused.
      refine .inr ⟨fun z hz hzname => ho (.inr (.inr ⟨z, hz, mem_symbolNames.mpr ?_⟩)),
        p, d, y, hp, hy, hname, hx⟩
      exact ⟨d, List.mem_of_getElem? hp, y, hy, hname.trans hzname.symm⟩
    · exact .inl ⟨y, hy, hname, hlast.mp hx⟩

/-- One more object that is not refused leaves all tables consistent. -/
theorem extended (h : l.Consistent) (ho : ¬l.Refuses o) (hown : (o.symbols.map (·.name)).Nodup) :
    (l.extended o).Consistent := by
  constructor
  case pages =>
    change (l.image.objects ++ [o]).length ≤ 32
    rw [List.length_append, List.length_singleton]
    exact h.length_lt ho
  case index => exact h.index_extended ho
  case names => exact h.names_extended ho
  case symbolNames => exact h.symbolNames_extended ho hown
  case symbols => exact h.symbols_extended ho hown
  case mandatory =>
    intro name
    change name ∈ (NameSet.addAll l.image.mandatory o.mandatory.keys).keys ↔
      ∃ d ∈ l.image.objects ++ [o], name ∈ d.mandatory.keys
    rw [NameSet.mem_keys_addAll, h.mandatory]
    simp only [List.mem_append, List.mem_singleton, or_and_right, exists_or, exists_eq_left]
  case optional =>
    intro name
    change name ∈ (NameSet.addAll l.image.optional o.optional.keys).keys ↔
      ∃ d ∈ l.image.objects ++ [o], name ∈ d.optional.keys
    rw [NameSet.mem_keys_addAll, h.optional]
    simp only [List.mem_append, List.mem_singleton, or_and_right, exists_or, exists_eq_left]
  case missing => exact mem_missing_update (h.index_extended ho)

end Consistent

/-! ## Any calls -/

/-- The linker behind a call, whatever its outcome. -/
def offer (l : Linker) (o : Object) : Linker := stateAfter (Linking.add o l)

/-- The linker behind calls with some objects, one after the other. -/
def offered (l : Linker) (calls : List Object) : Linker := calls.foldl offer l

theorem Consistent.add {o : Object} (h : l.Consistent) :
    (l.Refuses o → ∃ e, Linking.add o l = .error e l) ∧
      (¬l.Refuses o → Linking.add o l = .ok () (l.extended o)) := by
  constructor
  · intro ho
    cases hobjection : l.objection? o with
    | none => exact absurd ho (h.objection?_eq_none.mp hobjection)
    | some e => exact ⟨e, Linking.add_of_objection hobjection⟩
  · intro ho
    exact Linking.add_of_none (h.objection?_eq_none.mpr ho)

theorem Consistent.offer {o : Object} (h : l.Consistent) (hown : (o.symbols.map (·.name)).Nodup) :
    (l.offer o).Consistent := by
  unfold Linker.offer
  by_cases ho : l.Refuses o
  · obtain ⟨e, hadd⟩ := h.add.1 ho
    rw [hadd]
    exact h
  · rw [h.add.2 ho]
    exact h.extended ho hown

theorem Consistent.offered {calls : List Object} (h : l.Consistent)
    (hcalls : ∀ o ∈ calls, (o.symbols.map (·.name)).Nodup) : (l.offered calls).Consistent := by
  induction calls generalizing l with
  | nil => exact h
  | cons o rest ih =>
    exact ih (h.offer (hcalls o List.mem_cons_self)) fun d hd =>
      hcalls d (List.mem_cons_of_mem o hd)

/-- Behind any calls the tables are what the objects say, and the next call either puts its object
behind the others or fails and changes nothing. -/
theorem consistent_offered {calls : List Object}
    (hcalls : ∀ o ∈ calls, (o.symbols.map (·.name)).Nodup) :
    (empty.offered calls).Consistent ∧ ∀ o : Object,
      ((empty.offered calls).Refuses o →
        ∃ e, Linking.add o (empty.offered calls) = .error e (empty.offered calls)) ∧
      (¬(empty.offered calls).Refuses o →
        ∃ l, Linking.add o (empty.offered calls) = .ok () l ∧
          l.image.objects = (empty.offered calls).image.objects ++ [o]) := by
  have hconsistent := consistent_empty.offered hcalls
  refine ⟨hconsistent, fun o => ⟨hconsistent.add.1, fun ho => ?_⟩⟩
  exact ⟨_, hconsistent.add.2 ho, rfl⟩

end Linker

/-- A jump to a name of another module, with a reference. -/
def jumpObject : Object :=
  ⟨"a", [], ∅, ∅, #[80, 15, 0, 0, 0, 0, 0, 0, 0, 0, 0, 0], #[], [], [⟨"start", 4, .addr, []⟩], []⟩

/-- The module with that name, and a jump of its own to it, with a relocation. -/
def startObject : Object :=
  ⟨"b", [], ∅, ∅, #[80, 15, 0, 0, 0, 0, 0, 0, 0, 0, 0, 128], #[],
    [⟨"start", .label, .addr (.code 0 0)⟩], [], [4]⟩

namespace Linker

/-- An object with a name that `startObject` defines. -/
def clashingObject : Object :=
  { Object.empty "c" with symbols := [⟨"start", .alias, .int true .w32 3⟩] }

/-- Two objects are added, one of them again and a clashing one are refused. -/
theorem consistent_offered_mixed :
    (empty.offered [startObject, jumpObject, startObject, clashingObject]).Consistent ∧
      (empty.offered [startObject, jumpObject, startObject, clashingObject]).image.objects =
        [startObject, jumpObject] ∧
      ∃ e, Linking.add clashingObject
          (empty.offered [startObject, jumpObject, startObject, clashingObject]) =
        .error e (empty.offered [startObject, jumpObject, startObject, clashingObject]) := by
  have hcalls : ∀ o ∈ [startObject, jumpObject, startObject, clashingObject],
      (o.symbols.map (·.name)).Nodup := by decide
  have hobjects :
      (empty.offered [startObject, jumpObject, startObject, clashingObject]).image.objects =
        [startObject, jumpObject] := by cbv
  obtain ⟨hconsistent, hnext⟩ := consistent_offered hcalls
  refine ⟨hconsistent, hobjects, (hnext clashingObject).1 (Or.inr (Or.inr ?_))⟩
  rw [hobjects]
  decide

/-! ## Adding objects one by one -/

variable {l : Linker}

theorem add_eq_ok_iff {l' : Linker} {o : Object} (h : l.Consistent) :
    l.add o = .ok l' ↔ ¬l.Refuses o ∧ l' = l.extended o := by
  unfold add
  by_cases ho : l.Refuses o
  · obtain ⟨e, hadd⟩ := h.add.1 ho
    simp [hadd, ho]
  · simp [h.add.2 ho, ho, eq_comm]

theorem add_eq_error {o : Object} {e : LinkError} (h : l.add o = .error e) :
    l.objection? o = some e := by
  unfold add at h
  cases hobjection : l.objection? o with
  | none =>
    rw [Linking.add_of_none hobjection] at h
    cases h
  | some e' =>
    rw [Linking.add_of_objection hobjection] at h
    cases h
    rfl

/-- The first object that is refused says why objects cannot be added. -/
theorem addAll_eq_error {objects : List Object} {e : LinkError} (h : l.addAll objects = .error e) :
    ∃ front o back l', objects = front ++ o :: back ∧ l.addAll front = .ok l' ∧
      l'.objection? o = some e := by
  induction objects generalizing l with
  | nil => cases h
  | cons o rest ih =>
    obtain h | ⟨l₁, hadd, h⟩ := except_bind_eq_error.mp h
    · exact ⟨[], o, rest, l, rfl, rfl, add_eq_error h⟩
    · obtain ⟨front, o', back, l', rfl, hfront, hobjection⟩ := ih h
      exact ⟨o :: front, o', back, l', rfl, except_bind_eq_ok.mpr ⟨l₁, hadd, hfront⟩, hobjection⟩

theorem objects_extended_append (l : Linker) (o : Object) (rest : List Object) :
    (l.extended o).image.objects ++ rest = l.image.objects ++ o :: rest := by
  change l.image.objects ++ [o] ++ rest = l.image.objects ++ o :: rest
  rw [List.append_assoc, List.singleton_append]

theorem Consistent.addAll {l' : Linker} {rest : List Object} (h : l.Consistent)
    (hown : ∀ o ∈ rest, (o.symbols.map (·.name)).Nodup) (hok : l.addAll rest = .ok l') :
    l'.Consistent ∧ l'.image.objects = l.image.objects ++ rest := by
  induction rest generalizing l with
  | nil =>
    cases hok
    exact ⟨h, (List.append_nil _).symm⟩
  | cons o rest ih =>
    obtain ⟨l₁, hadd, hok⟩ := except_bind_eq_ok.mp hok
    obtain ⟨ho, rfl⟩ := (add_eq_ok_iff h).mp hadd
    obtain ⟨hfirst, hrest⟩ := List.forall_mem_cons.mp hown
    obtain ⟨hl', hobjects⟩ := ih (h.extended ho hfirst) hrest hok
    exact ⟨hl', hobjects.trans (objects_extended_append l o rest)⟩

end Linker

end CellMachine
