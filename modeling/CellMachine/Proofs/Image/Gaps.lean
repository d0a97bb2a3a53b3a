import CellMachine.Proofs.Image.Order

/-!
# Gaps in the code

What an object leaves open are gaps in its code, one for each reference and each relocation.
Whatever has been fed to an assembler, and whether it failed or not, the gaps of its object lie
inside the code and apart from each other (`Object.Carries.fillable`), and the tables beside the
object agree with it (`Assembler.Sound`). So neither `Assembler.finish` nor `Linker.link` ever
writes outside the code (`Assembler.finish_eq_error`, `Linker.link_ne_badPatchOffset`).
-/

namespace CellMachine

namespace Object

/-- The starts and the sizes of the slots that are still to be filled. -/
def gaps (o : Object) : List (Nat × Nat) :=
  o.unresolved.map (fun r => (r.offset, r.datatype.size)) ++ o.relocations.map fun n => (n, 8)

/-- The gaps lie inside the code and do not overlap. -/
structure Fillable (o : Object) : Prop where
  inside : ∀ g ∈ o.gaps, g.1 + g.2 ≤ o.code.size
  apart : o.gaps.Pairwise fun g h => g.1 + g.2 ≤ h.1 ∨ h.1 + h.2 ≤ g.1

variable {es : List Emission} {o : Object}

theorem Fillable.unresolved (h : o.Fillable) :
    ∀ r ∈ o.unresolved, r.offset + r.datatype.size ≤ o.code.size := fun r hr =>
  h.inside (r.offset, r.datatype.size) (List.mem_append_left _ (List.mem_map_of_mem hr))

theorem Fillable.relocations (h : o.Fillable) : ∀ n ∈ o.relocations, n + 8 ≤ o.code.size :=
  fun n hn => h.inside (n, 8) (List.mem_append_right _ (List.mem_map_of_mem hn))

theorem Carries.code_size (h : o.Carries es) : o.code.size = emissionsSize es := by
  obtain ⟨xs, hxs, hcode⟩ := h.code
  rw [← Array.length_toList, hcode, length_flatMap_encode hxs]

/-- Every gap is a slot of an instruction, and no two are the same. -/
theorem Carries.fillable (h : o.Carries es) : o.Fillable where
  inside g hg := by
    have hupper := (slotsWithin_emissionSlots es 0).upper
    rw [Nat.zero_add, ← h.code_size] at hupper
    rcases List.mem_append.mp hg with hg | hg
    · obtain ⟨r, hr, rfl⟩ := List.mem_map.mp hg
      obtain ⟨x, hx, -, hoffset, hdatatype⟩ := h.mem_slots hr
      simpa only [hoffset, hdatatype] using hupper x hx
    · obtain ⟨n, hn, rfl⟩ := List.mem_map.mp hg
      obtain ⟨x, hx, hoffset, hsize⟩ := h.relocation_slot hn
      simpa only [hoffset, hsize] using hupper x hx
  apart := by
    refine List.pairwise_append.mpr ⟨?_, ?_, fun g hg g' hg' => ?_⟩
    · exact List.pairwise_map.mpr h.pairwise_unresolved
    · exact List.pairwise_map.mpr h.pairwise_relocations
    · obtain ⟨r, hr, rfl⟩ := List.mem_map.mp hg
      obtain ⟨n, hn, rfl⟩ := List.mem_map.mp hg'
      exact (h.relocation_apart hn hr).symm

end Object

/-! ## Assemblers -/

namespace Assembler

/-- What holds of an assembler between two feeds. -/
structure Sound (s : Assembler) : Prop where
  distinct : (s.object.symbols.map (·.name)).Nodup
  index : ∀ name k, s.index.get? name = some k ↔
    (s.object.symbols[k]?).map (·.name) = some name
  positions : s.positions.length = s.object.unresolved.length
  gaps : s.object.Fillable
  depth : s.depth = 0

variable {s : Assembler}

theorem Consistent.index_iff (h : s.Consistent) (name : String) (k : Nat) :
    s.index.get? name = some k ↔ (s.object.symbols[k]?).map (·.name) = some name := by
  rw [h.index, List.findIdx?_eq_some_iff_getElem, Option.map_eq_some_iff]
  constructor
  · rintro ⟨hk, hname, -⟩
    exact ⟨s.object.symbols[k], List.getElem?_eq_getElem hk, by simpa using hname⟩
  · rintro ⟨x, hx, rfl⟩
    obtain ⟨hk, rfl⟩ := List.getElem?_eq_some_iff.mp hx
    refine ⟨hk, by simp, fun j hj => ?_⟩
    have hne := List.pairwise_iff_getElem.mp h.distinct j k (by simp; omega) (by simpa) hj
    simpa using hne

theorem Reachable.exists_produced {name : String} (h : Reachable name s) :
    ∃ es, Produced name es s := by
  induction h with
  | empty => exact ⟨[], .empty⟩
  | feed tokens _ ih =>
    obtain ⟨es, hes⟩ := ih
    exact ⟨_, hes.feed tokens⟩

theorem Reachable.fillable {name : String} (h : Reachable name s) : s.object.Fillable := by
  obtain ⟨es, hes⟩ := h.exists_produced
  exact hes.emits.carries.fillable

theorem Reachable.sound {name : String} (h : Reachable name s) : s.Sound where
  distinct := h.settled.consistent.distinct
  index := h.settled.consistent.index_iff
  positions := h.settled.consistent.positions
  gaps := h.fillable
  depth := h.settled.depth

/-- Where the slots lie inside the code, only a value that does not fit keeps references from being
bound. -/
theorem bindReferences_eq_error {pending : List (Reference × Position)} {o : Object}
    {e : AssemblyError} (hinside : ∀ p ∈ pending, p.1.offset + p.1.datatype.size ≤ o.code.size)
    (h : s.bindReferences o pending = .error e) :
    ∃ p ∈ pending, ∃ x, s.lookup p.1.scope p.1.name = some x ∧
      x.value.fit? p.1.datatype = none ∧ e = ⟨misfit p.1 x, p.2⟩ := by
  induction pending generalizing o with
  | nil => cases h
  | cons p rest ih =>
    obtain ⟨r, position⟩ := p
    obtain ⟨hfirst, hrest⟩ := List.forall_mem_cons.mp hinside
    have hlater (o' : Object) (hsize : o'.code.size = o.code.size)
        (h' : s.bindReferences o' rest = .error e) :
        ∃ p ∈ (r, position) :: rest, ∃ x, s.lookup p.1.scope p.1.name = some x ∧
          x.value.fit? p.1.datatype = none ∧ e = ⟨misfit p.1 x, p.2⟩ := by
      obtain ⟨p, hp, hcause⟩ := ih (fun p hp => hsize ▸ hrest p hp) h'
      exact ⟨p, List.mem_cons_of_mem _ hp, hcause⟩
    unfold bindReferences at h
    cases hlookup : s.lookup r.scope r.name with
    | none =>
      simp only [hlookup] at h
      refine hlater _ ?_ h
      rfl
    | some x =>
      cases hfit : x.value.fit? r.datatype with
      | none =>
        simp only [hlookup, hfit] at h
        cases h
        exact ⟨(r, position), List.mem_cons_self, x, hlookup, hfit, rfl⟩
      | some v =>
        simp only [hlookup, hfit, patchCell?, if_pos hfirst] at h
        exact hlater _ (by simp) h

/-- A module that cannot be finished has a scope open, or a symbol that does not fit where it is
used. -/
theorem finish_eq_error {name : String} {e : AssemblyError} (hs : Reachable name s)
    (h : s.finish = .error e) :
    (∃ scope ∈ s.scopes, e.kind = .unclosedScope scope.name) ∨
      ∃ r ∈ s.object.unresolved, ∃ x, s.lookup r.scope r.name = some x ∧
        x.value.fit? r.datatype = none ∧ e.kind = misfit r x := by
  unfold finish at h
  split at h
  · next scope _ hscopes =>
    cases h
    exact .inl ⟨scope, by simp [hscopes], rfl⟩
  · have hinside : ∀ p ∈ s.object.unresolved.zip s.positions,
        p.1.offset + p.1.datatype.size ≤ s.object.code.size := fun p hp =>
      hs.fillable.unresolved p.1 (List.of_mem_zip hp).1
    obtain ⟨p, hp, x, hlookup, hfit, rfl⟩ :=
      bindReferences_eq_error (o := { s.object with unresolved := [] }) hinside h
    exact .inr ⟨p.1, (List.of_mem_zip hp).1, x, hlookup, hfit, rfl⟩

theorem finish_ne_undefinedSymbol {name : String} (hs : Reachable name s) (symbol : String)
    (p : Position) : s.finish ≠ .error ⟨.undefinedSymbol symbol, p⟩ := by
  intro h
  rcases finish_eq_error hs h with ⟨_, -, hkind⟩ | ⟨r, -, x, -, -, hkind⟩
  · cases hkind
  · unfold misfit at hkind
    split at hkind
    · cases hkind
    · cases hkind

end Assembler

/-- The object of an assembler that feeds have led to, finished or as it stands. -/
def Object.Compiled (o : Object) : Prop :=
  ∃ name s, Assembler.Reachable name s ∧ (s.finish = .ok o ∨ s.snapshot = o)

theorem Object.Compiled.fillable {o : Object} (h : o.Compiled) : o.Fillable := by
  obtain ⟨name, s, hs, hfinish | rfl⟩ := h
  · obtain ⟨es, hes⟩ := hs.exists_produced
    exact (Assembler.carries_of_finish hes hfinish).fillable
  · exact hs.fillable

/-! ## Linkers -/

namespace Linker

variable {l : Linker}

theorem link_ne_badPatchOffset (h : ∀ o ∈ l.image.objects, o.Fillable) (m : String) (n : Nat) :
    l.link ≠ .error (.badPatchOffset m n) := by
  intro herror
  obtain ⟨-, hcause⟩ | ⟨names, hcause⟩ | ⟨o, ho, hcause⟩ := link_eq_error herror
  · cases hcause
  · cases hcause
  · generalize he : LinkError.badPatchOffset m n = e at hcause
    cases hcause with
    | relocation hn hlt => exact absurd ((h o ho).relocations _ hn) (Nat.not_le.mpr hlt)
    | reference hr hlt => exact absurd ((h o ho).unresolved _ hr) (Nat.not_le.mpr hlt)
    | misfit =>
      unfold misfit at he
      split at he <;> cases he

/-- Only what has been offered is there. -/
theorem mem_objects_offered {calls : List Object} {o : Object}
    (h : o ∈ (l.offered calls).image.objects) : o ∈ l.image.objects ∨ o ∈ calls := by
  induction calls generalizing l with
  | nil => exact .inl h
  | cons c rest ih =>
    rcases ih h with h | h
    · unfold offer at h
      cases hobjection : l.objection? c with
      | some e =>
        rw [Linking.add_of_objection hobjection] at h
        exact .inl h
      | none =>
        rw [Linking.add_of_none hobjection] at h
        rcases List.mem_append.mp h with h | h
        · exact .inl h
        · exact .inr (by simp [List.mem_singleton.mp h])
    · exact .inr (List.mem_cons_of_mem c h)

theorem addAll_ne_badPatchOffset {objects : List Object} (m : String) (n : Nat) :
    l.addAll objects ≠ .error (.badPatchOffset m n) := by
  intro herror
  obtain ⟨_, o, _, l', -, -, hobjection⟩ := addAll_eq_error herror
  obtain ⟨-, hcause⟩ | hcause | ⟨_, -, hcause⟩ := objection?_eq_some hobjection <;> cases hcause

/-- Where all objects are added, that is what offering them comes to. -/
theorem eq_offered_of_addAll {l' : Linker} {objects : List Object} (h : l.addAll objects = .ok l') :
    l' = l.offered objects := by
  induction objects generalizing l with
  | nil =>
    cases h
    rfl
  | cons o rest ih =>
    obtain ⟨l₁, hadd, hrest⟩ := except_bind_eq_ok.mp h
    have hoffer : l.offer o = l₁ := by
      unfold add at hadd
      unfold offer
      cases hstep : Linking.add o l with
      | ok _ l₂ =>
        rw [hstep] at hadd
        cases hadd
        rfl
      | error e l₂ =>
        rw [hstep] at hadd
        cases hadd
    rw [ih hrest, ← hoffer]
    rfl

end Linker

/-- Whatever has been fed to an assembler, its tables agree with its object, whose gaps lie inside
the code and apart from each other, and no macro is open. So finishing the object never fails for
want of room in the code, and neither does linking such objects, at once or in any calls of which
some are refused. -/
theorem Assembler.sound_of_reachable :
    (∀ {name : String} {s : Assembler}, Reachable name s → s.Sound ∧
      (∀ e, s.finish = .error e → (∃ scope ∈ s.scopes, e.kind = .unclosedScope scope.name) ∨
        ∃ r ∈ s.object.unresolved, ∃ x, s.lookup r.scope r.name = some x ∧
          x.value.fit? r.datatype = none ∧ e.kind = misfit r x) ∧
      ∀ symbol p, s.finish ≠ .error ⟨.undefinedSymbol symbol, p⟩) ∧
      ∀ objects : List Object, (∀ o ∈ objects, o.Compiled) → ∀ module offset,
        (Linker.empty.offered objects).link ≠ .error (.badPatchOffset module offset) ∧
          Image.ofObjects objects ≠ .error (.badPatchOffset module offset) := by
  refine ⟨fun hs => ⟨hs.sound, fun e => finish_eq_error hs, finish_ne_undefinedSymbol hs⟩,
    fun objects hobjects module offset => ?_⟩
  have hlink : (Linker.empty.offered objects).link ≠ .error (.badPatchOffset module offset) := by
    refine Linker.link_ne_badPatchOffset (fun o ho => ?_) module offset
    rcases Linker.mem_objects_offered ho with ho | ho
    · cases ho
    · exact (hobjects o ho).fillable
  refine ⟨hlink, fun herror => ?_⟩
  rcases except_bind_eq_error.mp herror with herror | ⟨l, hl, herror⟩
  · exact Linker.addAll_ne_badPatchOffset module offset herror
  · rw [Linker.eq_offered_of_addAll hl] at herror
    exact hlink herror

namespace Assembler

/-- A macro whose second statement fails is used in an open scope, behind a jump to a name of
another module and a text. Then come more tokens. -/
def macroTokens (more : List (TokenKind × String)) : Array Token :=
  let words : List (TokenKind × String) :=
    [(.directive, "#"), (.name, "macro"), (.name, "m"), (.colon, ":"), (.name, "x"),
      (.newline, "\n"), (.name, "jmp"), (.colon, ":"), (.name, "x"), (.newline, "\n"),
      (.name, "nop"), (.name, "x"), (.newline, "\n"),
      (.directive, "#"), (.name, "end"), (.newline, "\n"),
      (.directive, "#"), (.name, "scope"), (.name, "a"), (.newline, "\n"),
      (.directive, "#"), (.name, "label"), (.name, "l"), (.newline, "\n"),
      (.name, "jmp"), (.colon, ":"), (.name, "far"), (.newline, "\n"),
      (.name, "jmp"), (.colon, ":"), (.string, "t"), (.newline, "\n"),
      (.name, "m"), (.colon, ":"), (.name, "l"), (.newline, "\n")]
  ((words ++ more).map fun w => ⟨w.1, w.2, .start⟩).toArray.push (.endOfCode .start)

/-- The use of the macro is undone, and the scope goes on behind it. -/
def resumed : Assembler :=
  (((empty "m").feed (macroTokens [])).2.feed (macroTokens
    [(.name, "jmp"), (.colon, ":"), (.name, "l"), (.newline, "\n"), (.directive, "#"),
      (.name, "end")])).2

theorem sound_of_reachable_resumed :
    Reachable "m" resumed ∧ resumed.Sound ∧ resumed.object.gaps = [(4, 8), (28, 8), (16, 8)] ∧
      (∀ symbol p, resumed.finish ≠ .error ⟨.undefinedSymbol symbol, p⟩) ∧
      resumed.snapshot.Compiled ∧ ∀ module offset,
        Image.ofObjects [resumed.snapshot] ≠ .error (.badPatchOffset module offset) := by
  have hreachable : Reachable "m" resumed := .feed _ (.feed _ .empty)
  have hcompiled : resumed.snapshot.Compiled := ⟨"m", resumed, hreachable, .inr rfl⟩
  obtain ⟨hassembler, hlinker⟩ := sound_of_reachable
  obtain ⟨hsound, -, hfinish⟩ := hassembler hreachable
  exact ⟨hreachable, hsound, by cbv, hfinish, hcompiled, fun module offset =>
    (hlinker [resumed.snapshot] (by simpa using hcompiled) module offset).2⟩

end Assembler

end CellMachine
