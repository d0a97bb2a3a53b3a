import CellMachine.Proofs.Assembly.Recording
import CellMachine.Proofs.Image.Gaps

/-!
# What names mean

A name inside open scopes means the symbol of the innermost scope that has one of that name, and
that is settled when the module is finished, from all of its symbols. `Object.Means` and
`Object.Unknown` say it without the search, `Assembler.lookup_eq_some_iff` and
`Assembler.lookup_eq_none_iff` that the search finds just that. `Assembler.finish_resolves` says
what becomes of all names of a module : what is found is written into its slot, what is not stays as
it was, and no other byte of the code changes.
-/

namespace CellMachine

namespace Object

/-- What a name means inside `path` : among the beginnings of `path` behind which a symbol of that
name is defined, the longest decides. -/
def Means (o : Object) (path : List String) (name : String) (x : Symbol) : Prop :=
  x ∈ o.symbols ∧ ∃ outer ∈ path.inits, x.name = qualify outer name ∧
    ∀ inner ∈ path.inits, outer.length < inner.length →
      ∀ y ∈ o.symbols, y.name ≠ qualify inner name

/-- No beginning of `path` has a symbol of that name. -/
def Unknown (o : Object) (path : List String) (name : String) : Prop :=
  ∀ outer ∈ path.inits, ∀ x ∈ o.symbols, x.name ≠ qualify outer name

instance (o : Object) (path : List String) (name : String) : Decidable (o.Unknown path name) :=
  inferInstanceAs (Decidable (∀ outer ∈ path.inits, ∀ x ∈ o.symbols, x.name ≠ qualify outer name))

end Object

/-- What becomes of the names of a module, all of them references of `o`, in the finished object
`o'`. What a name means is written into its slot as a value that fits there, and the slot waits for
the page of the module if that is a place in its code or its static data. A name that is unknown
is left over as it was, but for its scopes, and its slot stays zero. No other byte changes. -/
structure Object.Resolves (refs : List Reference) (o o' : Object) : Prop where
  symbols : o'.symbols = o.symbols
  bound : ∀ r ∈ refs, ¬ o.Unknown r.scope r.name → ∃ x v, o.Means r.scope r.name x ∧
    (∀ y, o.Means r.scope r.name y → y = x) ∧ x.value.fit? r.datatype = some v ∧
    o'.code.Holds r.offset (v.toCell.bytes r.datatype) ∧
    (r.offset ∈ o'.relocations ↔
      ∃ a, x.value = .addr a ∧ (a.base? = some .code ∨ a.base? = some .static))
  unresolved : o'.unresolved =
    (refs.filter fun r => o.Unknown r.scope r.name).map fun r => { r with scope := [] }
  blank : ∀ r ∈ refs, o.Unknown r.scope r.name → r.IsBlank o'.code ∧ r.offset ∉ o'.relocations
  size : o'.code.size = o.code.size
  elsewhere : ∀ i : Nat, (∀ r ∈ refs, ¬ o.Unknown r.scope r.name →
    i < r.offset ∨ r.offset + r.datatype.size ≤ i) → o'.code[i]? = o.code[i]?

/-! ## Looking up a name -/

/-- The last number below `n` that something is found for decides. -/
theorem findSome?_reverse_range {β : Type} {f : Nat → Option β} {n : Nat} {b : β} :
    (List.range n).reverse.findSome? f = some b ↔
      ∃ k < n, f k = some b ∧ ∀ j, k < j → j < n → f j = none := by
  induction n with
  | zero => simp
  | succ n ih =>
    rw [List.range_succ, List.reverse_append, List.reverse_singleton, List.singleton_append,
      List.findSome?_cons]
    cases hn : f n with
    | some c =>
      constructor
      · intro h
        cases h
        exact ⟨n, by omega, hn, fun j hj hlt => by omega⟩
      · rintro ⟨k, hk, hfound, hlater⟩
        rcases Nat.lt_or_eq_of_le (Nat.lt_succ_iff.mp hk) with hlt | rfl
        · simp [hlater n hlt (by omega)] at hn
        · exact hn.symm.trans hfound
    | none =>
      refine ih.trans ⟨?_, ?_⟩
      · rintro ⟨k, hk, hfound, hlater⟩
        refine ⟨k, by omega, hfound, fun j hj hlt => ?_⟩
        rcases Nat.lt_or_eq_of_le (Nat.lt_succ_iff.mp hlt) with hlt | rfl
        · exact hlater j hj hlt
        · exact hn
      · rintro ⟨k, hk, hfound, hlater⟩
        rcases Nat.lt_or_eq_of_le (Nat.lt_succ_iff.mp hk) with hlt | rfl
        · exact ⟨k, hlt, hfound, fun j hj hlt => hlater j hj (by omega)⟩
        · simp [hn] at hfound

namespace Assembler

variable {s : Assembler} {path : List String} {name : String}

variable {r : Reference} {o : Object} {x : Symbol}

theorem symbol?_eq_some_iff (hs : s.Consistent) :
    s.symbol? name = some x ↔ x ∈ s.object.symbols ∧ x.name = name := by
  unfold symbol?
  rw [Option.bind_eq_some_iff]
  constructor
  · rintro ⟨k, hk, hx⟩
    rw [hs.index_iff, hx] at hk
    exact ⟨List.mem_of_getElem? hx, Option.some.inj hk⟩
  · rintro ⟨hx, rfl⟩
    obtain ⟨k, hk⟩ := List.getElem?_of_mem hx
    exact ⟨k, (hs.index_iff _ _).mpr (by rw [hk]; rfl), hk⟩

theorem symbol?_eq_none_iff (hs : s.Consistent) :
    s.symbol? name = none ↔ ∀ x ∈ s.object.symbols, x.name ≠ name := by
  rw [Option.eq_none_iff_forall_ne_some]
  constructor
  · intro h x hx hname
    exact h x ((symbol?_eq_some_iff hs).mpr ⟨hx, hname⟩)
  · intro h x hx
    obtain ⟨hmem, hname⟩ := (symbol?_eq_some_iff hs).mp hx
    exact h x hmem hname

theorem lookup_eq_findSome? (s : Assembler) (path : List String) (name : String) :
    s.lookup path name = (List.range (path.length + 1)).reverse.findSome? fun k =>
      s.symbol? (qualify (path.take k) name) := by
  unfold lookup candidates
  rw [List.findSome?_map]
  rfl

/-- The search finds the symbol that a name means. -/
theorem lookup_eq_some_iff (hs : s.Consistent) :
    s.lookup path name = some x ↔ s.object.Means path name x := by
  rw [lookup_eq_findSome?, findSome?_reverse_range]
  constructor
  · rintro ⟨k, hk, hfound, hlater⟩
    obtain ⟨hx, hname⟩ := (symbol?_eq_some_iff hs).mp hfound
    refine ⟨hx, path.take k, (List.mem_inits _ _).mpr (List.take_prefix _ _), hname, ?_⟩
    intro inner hinner hlonger
    have hinner := (List.mem_inits _ _).mp hinner
    have hle := hinner.length_le
    rw [List.length_take, min_eq_left (by omega)] at hlonger
    have hnone := hlater inner.length hlonger (by omega)
    rw [← List.prefix_iff_eq_take.mp hinner] at hnone
    exact (symbol?_eq_none_iff hs).mp hnone
  · rintro ⟨hx, outer, houter, hname, hlater⟩
    have houter := (List.mem_inits _ _).mp houter
    have hle := houter.length_le
    refine ⟨outer.length, by omega, ?_, fun j hj hlt => ?_⟩
    · rw [← List.prefix_iff_eq_take.mp houter]
      exact (symbol?_eq_some_iff hs).mpr ⟨hx, hname⟩
    · refine (symbol?_eq_none_iff hs).mpr (hlater _ ?_ ?_)
      · exact (List.mem_inits _ _).mpr (List.take_prefix _ _)
      · rw [List.length_take]
        omega

/-- The search finds nothing where a name is unknown. -/
theorem lookup_eq_none_iff (hs : s.Consistent) :
    s.lookup path name = none ↔ s.object.Unknown path name := by
  rw [lookup_eq_findSome?, List.findSome?_eq_none_iff]
  constructor
  · intro h outer houter
    have houter := (List.mem_inits _ _).mp houter
    have hle := houter.length_le
    have hnone := h outer.length (by simpa using by omega)
    rw [← List.prefix_iff_eq_take.mp houter] at hnone
    exact (symbol?_eq_none_iff hs).mp hnone
  · intro h k _
    exact (symbol?_eq_none_iff hs).mpr
      (h _ ((List.mem_inits _ _).mpr (List.take_prefix _ _)))

/-! ## Binding -/

/-- The bytes that a reference is bound to, with their place. -/
def filling? (s : Assembler) (r : Reference) : Option (Nat × List UInt8) :=
  (s.lookup r.scope r.name).bind fun x =>
    (x.value.fit? r.datatype).map fun v => (r.offset, v.toCell.bytes r.datatype)

/-- Whether a reference is bound to a place that moves with the module. -/
def bindsPlace (s : Assembler) (r : Reference) : Bool :=
  (s.lookup r.scope r.name).any (·.value.isPaged)

/-- References have been bound to the symbols of `s`, or are left over. -/
structure Binds (s : Assembler) (refs : List Reference) (o o' : Object) : Prop where
  fits : ∀ r ∈ refs, ∀ x, s.lookup r.scope r.name = some x → ∃ v, x.value.fit? r.datatype = some v
  code : Buffer.Patched (refs.filterMap s.filling?) o.code o'.code
  unresolved : o'.unresolved = o.unresolved ++
    (refs.filter fun r => (s.lookup r.scope r.name).isNone).map fun r => { r with scope := [] }
  relocations : o'.relocations = o.relocations ++ (refs.filter s.bindsPlace).map (·.offset)

theorem binds_nil (s : Assembler) (o : Object) : s.Binds [] o o :=
  ⟨by simp, Buffer.patched_nil _, by simp, by simp⟩

theorem filling?_eq_some {q : Nat × List UInt8} (h : s.filling? r = some q) :
    q.1 = r.offset ∧ q.2.length = r.datatype.size := by
  obtain ⟨x, -, hv⟩ := Option.bind_eq_some_iff.mp h
  obtain ⟨v, -, rfl⟩ := Option.map_eq_some_iff.mp hv
  exact ⟨rfl, Cell.length_bytes _ _⟩

/-- What is known of the first reference and of the others. -/
theorem Binds.cons {refs : List Reference} {o₁ o' : Object} (h : s.Binds [r] o o₁)
    (h' : s.Binds refs o₁ o') (hapart : ∀ q ∈ refs, Linker.RefersApart r q) :
    s.Binds (r :: refs) o o' where
  fits q hq := by
    rcases List.mem_cons.mp hq with rfl | hq
    · exact h.fits _ (by simp)
    · exact h'.fits q hq
  code := by
    rw [← List.singleton_append, List.filterMap_append]
    refine h.code.trans h'.code fun p hp q hq => ?_
    obtain ⟨r₁, hr₁, hp⟩ := List.mem_filterMap.mp hp
    obtain ⟨r₂, hr₂, hq⟩ := List.mem_filterMap.mp hq
    rw [List.mem_singleton.mp hr₁] at hp
    obtain ⟨hp₁, hp₂⟩ := filling?_eq_some hp
    obtain ⟨hq₁, hq₂⟩ := filling?_eq_some hq
    unfold Buffer.Apart
    rw [hp₁, hp₂, hq₁, hq₂]
    exact hapart r₂ hr₂
  unresolved := by
    rw [← List.singleton_append, List.filter_append, List.map_append, h'.unresolved, h.unresolved,
      List.append_assoc]
  relocations := by
    rw [← List.singleton_append, List.filter_append, List.map_append, h'.relocations,
      h.relocations, List.append_assoc]

theorem binds_unknown (h : s.lookup r.scope r.name = none) (o : Object) :
    s.Binds [r] o { o with unresolved := o.unresolved ++ [{ r with scope := [] }] } where
  fits q hq x hx := by
    rw [List.mem_singleton.mp hq, h] at hx
    cases hx
  code := by simpa [filling?, h] using Buffer.patched_nil o.code
  unresolved := by simp [h]
  relocations := by simp [bindsPlace, h]

theorem binds_known {v : Value} {code : Buffer} (h : s.lookup r.scope r.name = some x)
    (hfit : x.value.fit? r.datatype = some v)
    (hpatch : patchCell? o.code r.offset v.toCell r.datatype = some code) :
    s.Binds [r] o { o with
      code := code
      relocations := if x.value.isPaged && r.datatype.size == 8 then o.relocations ++ [r.offset]
        else o.relocations } where
  fits q hq y hy := by
    rw [List.mem_singleton.mp hq] at hy ⊢
    cases h.symm.trans hy
    exact ⟨v, hfit⟩
  code := by
    obtain ⟨hle, rfl⟩ := patchCell?_eq_some hpatch
    have hinside : r.offset + (v.toCell.bytes r.datatype).length ≤ o.code.size := by
      simpa using hle
    simpa [filling?, h, hfit] using Buffer.patched_write hinside
  unresolved := by simp [h]
  relocations := by
    cases hpaged : x.value.isPaged with
    | false => simp [bindsPlace, h, hpaged]
    | true =>
      -- Only slots of the size of an address take one.
      have hsize : r.datatype.size = 8 := by
        have hholds := Value.holdsAddress_of_fit? hpaged hfit
        have hdt : r.datatype = .addr ∨ r.datatype = .u64 := by
          simpa [Datatype.holdsAddress] using hholds
        rcases hdt with hdt | hdt <;> rw [hdt] <;> rfl
      simp [bindsPlace, h, hpaged, hsize]

theorem binds_of_bindReferences {pending : List (Reference × Position)} {o' : Object}
    (hapart : (pending.map (·.1)).Pairwise Linker.RefersApart)
    (h : s.bindReferences o pending = .ok o') : s.Binds (pending.map (·.1)) o o' := by
  induction pending generalizing o with
  | nil =>
    cases h
    exact binds_nil s _
  | cons p rest ih =>
    obtain ⟨r, position⟩ := p
    obtain ⟨hfirst, hrest⟩ := List.pairwise_cons.mp hapart
    unfold bindReferences at h
    cases hlookup : s.lookup r.scope r.name with
    | none =>
      simp only [hlookup] at h
      exact (binds_unknown hlookup o).cons (ih hrest h) hfirst
    | some x =>
      cases hfit : x.value.fit? r.datatype with
      | none => simp [hlookup, hfit] at h
      | some v =>
        cases hpatch : patchCell? o.code r.offset v.toCell r.datatype with
        | none => simp [hlookup, hfit, hpatch] at h
        | some code =>
          simp only [hlookup, hfit, hpatch] at h
          exact (binds_known hlookup hfit hpatch).cons (ih hrest h) hfirst

/-! ## Finishing a module -/

/-- What the source of an assembler has asked for, from what was carried out. -/
theorem Carried.produced {ts : List Assembler} (h : Carried name ts s) :
    Produced name (ts.flatMap asks) s := by
  induction h with
  | empty => exact .empty
  | feed tokens _ ih =>
    rw [List.flatMap_append, ← emissions_eq]
    exact ih.feed tokens

theorem binds_of_finish {es : List Emission} (hs : s.Consistent) (hcarries : s.object.Carries es)
    (h : s.finish = .ok o) : s.Binds s.object.unresolved { s.object with unresolved := [] } o := by
  have hpending : (s.object.unresolved.zip s.positions).map (·.1) = s.object.unresolved :=
    List.map_fst_zip (Nat.le_of_eq hs.positions.symm)
  have hbinds := binds_of_bindReferences (by rw [hpending]; exact hcarries.pairwise_unresolved)
    (finish_eq_ok h)
  rwa [hpending] at hbinds

theorem isPaged_iff {v : Value} : v.isPaged = true ↔
    ∃ a, v = .addr a ∧ (a.base? = some .code ∨ a.base? = some .static) := by
  cases v with
  | addr a =>
    unfold Value.isPaged
    cases hbase : a.base? with
    | none => simp [hbase]
    | some b => cases b <;> simp [hbase, Base.isPaged]
  | _ => simp [Value.isPaged]

section

variable {es : List Emission} {o : Object} {r : Reference}

/-- A slot that was bound is a relocation only if it holds a place. -/
theorem Binds.mem_relocations (h : s.Binds s.object.unresolved { s.object with unresolved := [] } o)
    (hcarries : s.object.Carries es) (hr : r ∈ s.object.unresolved) :
    r.offset ∈ o.relocations ↔ s.bindsPlace r = true := by
  obtain ⟨hoffsets, -, hapart⟩ := List.nodup_append.mp hcarries.distinct
  rw [h.relocations, List.mem_append, List.mem_map]
  constructor
  · rintro (hold | ⟨q, hq, hoffset⟩)
    · exact absurd rfl (hapart r.offset (List.mem_map_of_mem hr) r.offset hold)
    · obtain ⟨hq, hplace⟩ := List.mem_filter.mp hq
      rwa [← List.inj_on_of_nodup_map hoffsets hq hr hoffset]
  · intro hplace
    exact Or.inr ⟨r, List.mem_filter.mpr ⟨hr, hplace⟩, rfl⟩

/-- A slot that nothing is found for stays as it was. -/
theorem Binds.isBlank (h : s.Binds s.object.unresolved { s.object with unresolved := [] } o)
    (hcarries : s.object.Carries es) (hr : r ∈ s.object.unresolved)
    (hnone : s.lookup r.scope r.name = none) (hblank : r.IsBlank s.object.code) :
    r.IsBlank o.code := by
  refine ⟨by rw [h.code.size]; exact hblank.1, Eq.trans (h.code.read_eq fun p hp => ?_) hblank.2⟩
  obtain ⟨q, hq, hp⟩ := List.mem_filterMap.mp hp
  have hne : r ≠ q := by
    rintro rfl
    simp [filling?, hnone] at hp
  have : Std.Symm Linker.RefersApart := ⟨fun _ _ hpair => hpair.symm⟩
  obtain ⟨hoffset, hlength⟩ := filling?_eq_some hp
  rw [hoffset, hlength, List.length_replicate]
  exact hcarries.pairwise_unresolved.forall hr hq hne

end

/-- A module that can be finished has every name bound to what it means, wherever that is
defined, and leaves the others over in their order. -/
theorem finish_resolves {name : String} {ts : List Assembler} {o : Object}
    (hs : Carried name ts s) (h : s.finish = .ok o) :
    s.object.Resolves (ts.flatMap names) o := by
  have hconsistent := hs.reachable.settled.consistent
  have hcarries := hs.produced.emits.carries
  have hbinds := binds_of_finish hconsistent hcarries h
  have hrefs : ts.flatMap names = s.object.unresolved := hs.records.unresolved.symm
  have hblank := hs.records.blank
  rw [hrefs] at hblank ⊢
  refine ⟨(finish_keeps h).1, fun r hr hknown => ?_, ?_, fun r hr hunknown => ?_, hbinds.code.size,
    fun i hi => hbinds.code.elsewhere i fun p hp => ?_⟩
  · obtain ⟨x, hx⟩ := Option.ne_none_iff_exists'.mp (mt (lookup_eq_none_iff hconsistent).mp hknown)
    obtain ⟨v, hv⟩ := hbinds.fits r hr x hx
    have hfilling : s.filling? r = some (r.offset, v.toCell.bytes r.datatype) := by
      simp [filling?, hx, hv]
    refine ⟨x, v, (lookup_eq_some_iff hconsistent).mp hx, fun y hy => ?_, hv,
      hbinds.code.holds _ (List.mem_filterMap.mpr ⟨r, hr, hfilling⟩), ?_⟩
    · exact Option.some.inj (((lookup_eq_some_iff hconsistent).mpr hy).symm.trans hx)
    · rw [hbinds.mem_relocations hcarries hr, bindsPlace, hx, Option.any_some, isPaged_iff]
  · have hfilter : ∀ r ∈ s.object.unresolved, (s.lookup r.scope r.name).isNone =
        decide (s.object.Unknown r.scope r.name) := fun r _ => by
      rw [Bool.eq_iff_iff, Option.isNone_iff_eq_none, lookup_eq_none_iff hconsistent,
        decide_eq_true_iff]
    rw [hbinds.unresolved, List.nil_append, List.filter_congr hfilter]
  · have hnone := (lookup_eq_none_iff hconsistent).mpr hunknown
    refine ⟨hbinds.isBlank hcarries hr hnone (hblank r hr), ?_⟩
    rw [hbinds.mem_relocations hcarries hr]
    simp [bindsPlace, hnone]
  · obtain ⟨r, hr, hp⟩ := List.mem_filterMap.mp hp
    obtain ⟨hoffset, hlength⟩ := filling?_eq_some hp
    rw [hoffset, hlength]
    refine hi r hr fun hunknown => ?_
    simp [filling?, (lookup_eq_none_iff hconsistent).mpr hunknown] at hp

/-- A jump and a move inside a scope, in front of the label and the alias that they name, and a jump
to a name of another module. An alias of the same name outside the scope is not meant. -/
def shadowTokens : Array Token :=
  let words : List (TokenKind × String) :=
    [(.directive, "#"), (.name, "alias"), (.name, "v"), (.colon, ":"), (.integer, "1"),
      (.newline, "\n"), (.directive, "#"), (.name, "scope"), (.name, "a"), (.newline, "\n"),
      (.name, "jmp"), (.colon, ":"), (.name, "l"), (.newline, "\n"),
      (.name, "jmp"), (.colon, ":"), (.name, "far"), (.newline, "\n"),
      (.name, "mov"), (.dot, "."), (.name, "u8"), (.colon, ":"), (.register, "$"), (.name, "ac"),
      (.colon, ":"), (.name, "v"), (.newline, "\n"),
      (.directive, "#"), (.name, "label"), (.name, "l"), (.newline, "\n"),
      (.directive, "#"), (.name, "alias"), (.name, "v"), (.colon, ":"), (.integer, "2"),
      (.newline, "\n"), (.directive, "#"), (.name, "end"), (.newline, "\n")]
  (words.map fun w => ⟨w.1, w.2, .start⟩).toArray.push (.endOfCode .start)

theorem finish_resolves_shadow :
    ((empty "m").steps shadowTokens).flatMap names =
        [⟨"l", 4, .addr, ["a"]⟩, ⟨"far", 16, .addr, ["a"]⟩, ⟨"v", 36, .u8, ["a"]⟩] ∧
      ∃ s o, Carried "m" ((empty "m").steps shadowTokens) s ∧ s.finish = .ok o ∧
        s.object.Resolves (((empty "m").steps shadowTokens).flatMap names) o ∧
        o.unresolved = [⟨"far", 16, .addr, []⟩] ∧ o.relocations = [4] ∧
        o.code.read 36 1 = [2] := by
  have hnames : ((empty "m").steps shadowTokens).flatMap names =
      [⟨"l", 4, .addr, ["a"]⟩, ⟨"far", 16, .addr, ["a"]⟩, ⟨"v", 36, .u8, ["a"]⟩] := by decide +kernel
  have hresult : ((empty "m").feed shadowTokens).2.finish.map
      (fun o => (o.unresolved, o.relocations, o.code.read 36 1)) =
        .ok ([⟨"far", 16, .addr, []⟩], [4], [2]) := by decide +kernel
  obtain ⟨o, ho, hparts⟩ := except_map_eq_ok.mp hresult
  simp only [Prod.mk.injEq] at hparts
  have hcarried : Carried "m" ([] ++ (empty "m").steps shadowTokens)
      ((empty "m").feed shadowTokens).2 := .feed shadowTokens .empty
  rw [List.nil_append] at hcarried
  exact ⟨hnames, _, o, hcarried, ho, finish_resolves hcarried ho, hparts⟩

end Assembler

end CellMachine
