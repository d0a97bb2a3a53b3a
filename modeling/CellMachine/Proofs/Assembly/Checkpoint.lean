import CellMachine.Proofs.Assembly.Directive

/-!
# Coming back to a checkpoint

A checkpoint keeps little more than sizes, so coming back to it is exact only where nothing but
additions have been made since. `Assembler.Extends` says that everything in front has stayed
where it was, but for the static data, which can have been cut. Then `Assembler.restore_checkpoint`
gives back all but the cursor, the macros and what has been cut off (`Assembler.undone`).
-/

namespace CellMachine

namespace Assembler

/-! ## What statements rely on -/

/-- The index has the place of every symbol, no name is defined twice, and every reference has
the place it was written at. -/
structure Consistent (s : Assembler) : Prop where
  index : ∀ name, s.index.get? name = s.object.symbols.findIdx? (·.name == name)
  distinct : (s.object.symbols.map (·.name)).Nodup
  positions : s.positions.length = s.object.unresolved.length

/-- Consistency looks at the symbols, the references and the tables beside them, and at nothing
else of the assembler. -/
theorem Consistent.of_eq {s s' : Assembler} (hs : s.Consistent)
    (hsymbols : s'.object.symbols = s.object.symbols)
    (hunresolved : s'.object.unresolved = s.object.unresolved)
    (hindex : s'.index = s.index) (hpositions : s'.positions = s.positions) : s'.Consistent where
  index name := by rw [hindex, hsymbols]; exact hs.index name
  distinct := by rw [hsymbols]; exact hs.distinct
  positions := by rw [hpositions, hunresolved]; exact hs.positions

theorem consistent_empty (name : String) : (empty name).Consistent where
  index _ := rfl
  distinct := List.nodup_nil
  positions := rfl

/-- What an action of a statement can do : it adds to the lists of the object and of the
assembler, changes the static data, and moves the cursor forward. -/
structure Extends (s s' : Assembler) : Prop where
  name : s'.object.name = s.object.name
  required : s.object.required <+: s'.object.required
  code : s.object.code.toList <+: s'.object.code.toList
  symbols : s.object.symbols <+: s'.object.symbols
  unresolved : s.object.unresolved <+: s'.object.unresolved
  relocations : s.object.relocations <+: s'.object.relocations
  positions : s.positions <+: s'.positions
  depth : s'.depth = s.depth
  statements : s'.statements = s.statements
  cursor : s.cursor.Forward s'.cursor
  consistent : s.Consistent → s'.Consistent

theorem Extends.refl (s : Assembler) : s.Extends s where
  name := rfl
  required := List.prefix_rfl
  code := List.prefix_rfl
  symbols := List.prefix_rfl
  unresolved := List.prefix_rfl
  relocations := List.prefix_rfl
  positions := List.prefix_rfl
  depth := rfl
  statements := rfl
  cursor := Std.Refl.refl s.cursor
  consistent := id

instance : Std.Refl Extends := ⟨Extends.refl⟩

instance : Trans Extends Extends Extends where
  trans h h' := {
    name := h'.name.trans h.name
    required := h.required.trans h'.required
    code := h.code.trans h'.code
    symbols := h.symbols.trans h'.symbols
    unresolved := h.unresolved.trans h'.unresolved
    relocations := h.relocations.trans h'.relocations
    positions := h.positions.trans h'.positions
    depth := h'.depth.trans h.depth
    statements := h'.statements.trans h.statements
    cursor := Trans.trans h.cursor h'.cursor
    consistent := h'.consistent ∘ h.consistent }

/-! ## Coming back -/

theorem get?_foldl_erase (symbols : List Symbol) (m : NameMap Nat) (name : String) :
    (symbols.foldl (fun m x => m.erase x.name) m).get? name =
      if name ∈ symbols.map (·.name) then none else m.get? name := by
  induction symbols generalizing m with
  | nil => simp
  | cons x rest ih =>
    rw [List.foldl_cons, ih, NameMap.get?_erase]
    by_cases hx : name = x.name
    · simp [hx]
    · simp [hx]

/-- The names added behind a checkpoint are the ones to be taken out of the index. -/
theorem index_restore {s s' : Assembler} (hs : s.Consistent) (h : s.Extends s') :
    (s'.restore s.checkpoint).index = s.index := by
  obtain ⟨added, hadded⟩ := h.symbols
  have hs' := h.consistent hs
  have hdrop : s'.object.symbols.drop s.object.symbols.length = added := by
    rw [← hadded, List.drop_left]
  apply NameMap.ext_get?
  intro name
  simp only [restore, checkpoint]
  rw [hdrop, get?_foldl_erase, hs'.index, hs.index, ← hadded, List.findIdx?_append]
  have hdisjoint := hs'.distinct
  rw [← hadded, List.map_append, List.nodup_append] at hdisjoint
  -- A name added behind the checkpoint was not defined in front of it, or it would be there twice.
  split
  · next hmem =>
    have hnot : name ∉ s.object.symbols.map (·.name) := fun hin =>
      hdisjoint.2.2 name hin name hmem rfl
    symm
    rw [List.findIdx?_eq_none_iff]
    intro x hx
    simp only [beq_eq_false_iff_ne, ne_eq]
    exact fun hname => hnot (List.mem_map.mpr ⟨x, hx, hname⟩)
  · next hmem =>
    have hnone : added.findIdx? (·.name == name) = none := by
      rw [List.findIdx?_eq_none_iff]
      intro x hx
      simp only [beq_eq_false_iff_ne, ne_eq]
      exact fun hname => hmem (List.mem_map.mpr ⟨x, hx, hname⟩)
    simp [hnone]

theorem take_length_of_prefix {α : Type} {l l' : List α} (h : l <+: l') :
    l'.take l.length = l := (List.prefix_iff_eq_take.mp h).symm

theorem take_size_eq {b b' : Buffer} (h : b.toList <+: b'.toList) :
    b'.take b.size = b := by
  apply Array.toList_inj.mp
  rw [Array.take_eq_extract, Array.toList_extract]
  simpa using take_length_of_prefix h

/-- What is left of `s'` when it is undone back to `s` : the macros, and no more static data than
it has. -/
def undone (s s' : Assembler) : Assembler :=
  { s.withStatic (s'.object.static.take s.object.static.size) with macros := s'.macros }

/-- Coming back to a checkpoint undoes everything but the moves of the cursor, the definitions of
macros and the cuts into the static data. -/
theorem restore_checkpoint {s s' : Assembler} (hs : s.Consistent) (h : s.Extends s') :
    s'.restore s.checkpoint = (s.undone s').movedTo s'.cursor := by
  have hindex := index_restore hs h
  have hpositions : s'.positions.take s.object.unresolved.length = s.positions := by
    rw [← hs.positions]
    exact take_length_of_prefix h.positions
  unfold restore checkpoint at hindex ⊢
  simp only at hindex
  simp only [hindex, hpositions, h.depth, h.name, take_length_of_prefix h.required,
    take_size_eq h.code, take_length_of_prefix h.symbols,
    take_length_of_prefix h.unresolved, take_length_of_prefix h.relocations]
  rfl

end Assembler

end CellMachine
