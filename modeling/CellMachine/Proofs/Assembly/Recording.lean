import CellMachine.Proofs.Assembly.Program
import Mathlib

/-!
# Recording names

Where an operand is a name, its slot stays zero and a reference is recorded, with the scopes around
the use. `Assembler.names` gives the references of one statement, said by its tokens.
`Assembler.Carried` gives all statements that an assembler has carried out, those of failed feeds
included, and `Assembler.Carried.records` says that the references of the object are exactly those
of these statements, in their order, with zeros in their slots.
-/

namespace CellMachine

/-- Bytes stay where they are if others come behind. -/
theorem Buffer.Holds.grown {b b' : Buffer} {pos : Nat} {bs : List UInt8} (h : b.Holds pos bs)
    (hgrown : b.toList <+: b'.toList) : b'.Holds pos bs := by
  obtain ⟨pre, post, hb, rfl⟩ := Buffer.holds_iff_exists.mp h
  obtain ⟨more, hmore⟩ := hgrown
  exact Buffer.holds_iff_exists.mpr ⟨pre, post ++ more, by simp [← hmore, hb], rfl⟩

theorem Cell.bytes_zero (dt : Datatype) : Cell.zero.bytes dt = List.replicate dt.size 0 := by
  have hzeros (n : Nat) : littleEndian n 0 = List.replicate n 0 := by
    induction n with
    | zero => rfl
    | succ n ih =>
      rw [littleEndian, Nat.zero_div, ih]
      rfl
  exact hzeros dt.size

/-- The slot of the reference holds zeros. -/
def Reference.IsBlank (r : Reference) (code : Buffer) : Prop :=
  code.Holds r.offset (List.replicate r.datatype.size 0)

/-- The reference that a slot inside `path` waits with. -/
def Slot.use? (path : List String) (x : Slot) : Option Reference :=
  x.name?.map fun name => ⟨name, x.offset, x.datatype, path⟩

namespace Assembler

/-! ## Operands -/

/-- Operands have been written : the code has grown, and the references that are new stand in it as
zeros, with the scopes that are open. -/
structure Writes (s s' : Assembler) : Prop where
  scopes : s'.scopes = s.scopes
  code : s.object.code.toList <+: s'.object.code.toList
  unresolved : ∃ refs, s'.object.unresolved = s.object.unresolved ++ refs ∧
    ∀ r ∈ refs, r.scope = s.path ∧ s.object.code.size ≤ r.offset ∧ r.IsBlank s'.object.code

variable {s s' : Assembler}

theorem Writes.path_eq (h : Writes s s') : s'.path = s.path := by
  unfold path
  rw [h.scopes]

theorem size_le_of_grown (h : s.object.code.toList <+: s'.object.code.toList) :
    s.object.code.size ≤ s'.object.code.size := by
  simpa using h.length_le

theorem writes_of_eq (hscopes : s'.scopes = s.scopes)
    (hcode : s.object.code.toList <+: s'.object.code.toList)
    (hunresolved : s'.object.unresolved = s.object.unresolved) : Writes s s' :=
  ⟨hscopes, hcode, [], by simp [hunresolved], by simp⟩

instance : Std.Refl Writes := ⟨fun _ => writes_of_eq rfl List.prefix_rfl rfl⟩

instance : Trans Writes Writes Writes where
  trans {s s₁ s'} h h' := by
    obtain ⟨refs, hrefs, hblank⟩ := h.unresolved
    obtain ⟨refs', hrefs', hblank'⟩ := h'.unresolved
    refine ⟨h'.scopes.trans h.scopes, h.code.trans h'.code, refs ++ refs',
      by rw [hrefs', hrefs, List.append_assoc], fun r hr => ?_⟩
    rcases List.mem_append.mp hr with hr | hr
    · obtain ⟨hscope, hoffset, hzero⟩ := hblank r hr
      exact ⟨hscope, hoffset, hzero.grown h'.code⟩
    · obtain ⟨hscope, hoffset, hzero⟩ := hblank' r hr
      exact ⟨hscope.trans h.path_eq, (size_le_of_grown h.code).trans hoffset, hzero⟩

theorem writes_appendCode (s : Assembler) (bytes : List UInt8) : Writes s (s.appendCode bytes) :=
  writes_of_eq rfl (by simp [appendCode]) rfl

/-- Bytes in front of the operands may be overwritten, since no reference lies among them. -/
theorem Writes.overwriteCode {front cs : List UInt8} {start : Nat}
    (h : Writes (s.appendCode front) s') (hstart : s.object.code.size ≤ start)
    (hend : start + cs.length ≤ s.object.code.size + front.length) :
    Writes s (s'.overwriteCode start cs) := by
  have hsize : (s.appendCode front).object.code.size = s.object.code.size + front.length := by
    simp [appendCode]
  obtain ⟨refs, hrefs, hblank⟩ := h.unresolved
  refine ⟨h.scopes, ?_, refs, hrefs, fun r hr => ?_⟩
  · have hgrown := ((writes_appendCode s front).code.trans h.code)
    rw [List.prefix_iff_eq_take, Array.length_toList] at hgrown ⊢
    rw [hgrown]
    exact (Buffer.take_write cs hstart).symm
  · obtain ⟨hscope, hoffset, hle, hread⟩ := hblank r hr
    rw [hsize] at hoffset
    have hapart : (s'.object.code.write start cs).read r.offset
        (List.replicate r.datatype.size (0 : UInt8)).length = s'.object.code.read r.offset
          (List.replicate r.datatype.size (0 : UInt8)).length :=
      Buffer.read_write_of_apart (Or.inr (by omega))
    exact ⟨hscope, by omega, by simpa [Assembler.overwriteCode] using hle, hapart.trans hread⟩

end Assembler

namespace Asm

open Assembler (Writes writes_of_eq writes_appendCode)

theorem writes_ofParser {α : Type} {p : Parser α} (hp : Relates Cursor.Forward p) :
    Relates Writes (liftM p : Asm α) :=
  relates_ofParser (fun _ _ _ => writes_of_eq rfl List.prefix_rfl rfl) hp

theorem writes_emit (bytes : List UInt8) : Relates Writes (emit bytes) :=
  .modify fun s => writes_appendCode s bytes

theorem writes_literalCell (o : SourceOperand) (dt : Datatype) :
    Relates Writes (do return (← Parser.literalValue o dt).toCell : Asm Cell) :=
  .bind (writes_ofParser (Parser.relates_literalValue _ _)) fun _ => .pure _

variable {dt : Datatype}

/-- What becomes of an operand that is no name records nothing. -/
theorem writes_operandCell {o : SourceOperand} {offset : Nat}
    (hname : (⟨offset, dt, o⟩ : Slot).name? = none) : Relates Writes (operandCell o offset dt) := by
  unfold operandCell
  unfold Slot.name? at hname
  cases hterm : o.term with
  | name name =>
    simp only [hterm] at hname ⊢
    by_cases hslot : dt = .type ∧ (Datatype.ofName? name).isSome
    · rw [if_pos hslot]
      exact writes_literalCell o dt
    · simp [hslot] at hname
  | text text =>
    have hfail : ∀ kind, Relates Writes (liftM (Parser.failAt o.token kind : Parser Cell) :
        Asm Cell) := fun kind => writes_ofParser (Parser.relates_failAt _ kind)
    refine .ite (hfail _) (.ite (hfail _) ?_)
    have hstore : Relates Writes (storeText text) :=
      .get_bind fun s => writes_of_eq rfl List.prefix_rfl rfl
    have hrelocate : Relates Writes (relocate offset) :=
      .modify fun s => writes_of_eq rfl List.prefix_rfl rfl
    exact .bind hstore fun _ => .bind hrelocate fun _ => .pure _
  | _ => exact writes_literalCell o dt

theorem operandCell_name {o : SourceOperand} {offset : Nat} {name : String}
    (hname : (⟨offset, dt, o⟩ : Slot).name? = some name) :
    operandCell o offset dt = (do refer o name offset dt; return Cell.zero) := by
  unfold operandCell
  unfold Slot.name? at hname
  cases hterm : o.term with
  | name other =>
    simp only [hterm] at hname ⊢
    by_cases hslot : dt = .type ∧ (Datatype.ofName? other).isSome
    · simp [hslot] at hname
    · rw [if_neg hslot] at hname ⊢
      cases hname
      rfl
  | _ => simp [hterm] at hname

theorem writes_writeOperand (o : SourceOperand) (role : Role) (dt : Datatype) :
    Relates Writes (writeOperand o role dt) := by
  refine .get_bind fun s => ?_
  cases hname : (⟨s.object.code.size, role.encodedDatatype dt o.deref, o⟩ : Slot).name? with
  | none =>
    exact Relates.bind_at (writes_operandCell hname s) fun _ s₁ _ =>
      Relates.bind (writes_emit _) (fun _ => .pure _) s₁
  | some name =>
    rw [operandCell_name hname]
    have hzero : (s.appendCode (Cell.zero.bytes (role.encodedDatatype dt o.deref))).object.code.Holds
        s.object.code.size (Cell.zero.bytes (role.encodedDatatype dt o.deref)) :=
      Buffer.holds_iff_exists.mpr ⟨s.object.code.toList, [], by simp [Assembler.appendCode], by simp⟩
    refine ⟨rfl, (writes_appendCode s (Cell.zero.bytes (role.encodedDatatype dt o.deref))).code,
      [⟨name, s.object.code.size, role.encodedDatatype dt o.deref, s.path⟩], rfl, fun r hr => ?_⟩
    rw [List.mem_singleton.mp hr]
    refine ⟨rfl, Nat.le_refl _, ?_⟩
    rw [Reference.IsBlank, ← Cell.bytes_zero]
    exact hzero

theorem admitsOperands_writes : AdmitsOperands Writes where
  movedTo _ _ _ := writes_of_eq rfl List.prefix_rfl rfl
  writeOperand := writes_writeOperand
  writeConverted o source dt := by
    refine .bind (writes_ofParser (Parser.relates_literalValue _ _)) fun v => ?_
    split
    · exact .bind (writes_emit _) fun _ => .pure _
    · exact writes_ofParser (Parser.relates_failAt _ _)

/-! ## Instructions -/

theorem writes_of_describedArguments {xs : List Operand} {s s' : Assembler}
    (h : describedArguments dt s = .ok xs s') : Writes s s' := by
  obtain ⟨_, _, hget, h⟩ := bind_eq_ok.mp h
  cases hget
  obtain ⟨_, s₁, hemit, h⟩ := bind_eq_ok.mp h
  cases hemit
  obtain ⟨os, s₂, hargs, h⟩ := bind_eq_ok.mp h
  obtain ⟨_, s₃, hfill, h⟩ := bind_eq_ok.mp h
  cases h
  have hwrites := (relates_typedArguments admitsOperands_writes _ _).of_ok hargs
  unfold fillDescriptor at hfill
  cases hd : Descriptor.ofTypes? (argumentTypes xs) with
  | some d =>
    simp only [hd] at hfill
    cases hfill
    exact hwrites.overwriteCode (Nat.le_refl _) (by simp)
  | none =>
    simp only [hd] at hfill
    obtain ⟨c, hc, -⟩ := ofParser_eq_ok.mp hfill
    cases hc

theorem writes_of_instruction {op : Opcode} {s s' : Assembler} (h : instruction op s = .ok () s') :
    Writes s s' := by
  obtain ⟨t, c₁, -, h⟩ := ofParser_bind_eq_ok.mp h
  obtain ⟨_, c₂, -, h⟩ := ofParser_bind_eq_ok.mp h
  obtain ⟨dt, c₃, -, h⟩ := ofParser_bind_eq_ok.mp h
  obtain ⟨_, _, hget, h⟩ := bind_eq_ok.mp h
  cases hget
  obtain ⟨_, s₁, hemit, h⟩ := bind_eq_ok.mp h
  cases hemit
  obtain ⟨fixed, s₂, hfixed, h⟩ := bind_eq_ok.mp h
  obtain ⟨args, s₃, hargs, h⟩ := bind_eq_ok.mp h
  cases h
  have hwrites := (relates_fixedOperands admitsOperands_writes _ _ _ _).of_ok hfixed
  have hargs : Writes s₂ s₃ := by
    unfold callArguments at hargs
    split at hargs
    · exact writes_of_describedArguments hargs
    · cases hargs
      exact Std.Refl.refl _
  have hboth : Writes ((((s.movedTo c₁).movedTo c₂).movedTo c₃).appendCode (encodeHeader op dt 0)) s₃ :=
    Trans.trans hwrites hargs
  have hmask : s.object.code.size + 2 + (littleEndian 2 (maskOf (fixed ++ args)).toNat).length ≤
      s.object.code.size + (encodeHeader op dt 0).length := by
    rw [length_littleEndian, length_encodeHeader]
    exact Nat.le_refl _
  have hall := hboth.overwriteCode (Nat.le_add_right _ _) hmask
  exact ⟨hall.scopes, hall.code, hall.unresolved⟩

end Asm

/-! ## Statements -/

namespace Assembler

/-- The references that the statement under the cursor makes by itself, no use of a macro : one for
each operand that is a name, in order. -/
def names (s : Assembler) : List Reference :=
  (emissionSlots s.object.code.size s.asks).filterMap (Slot.use? s.path)

/-- References have been recorded, and zeros written where they wait. -/
structure Records (refs : List Reference) (s s' : Assembler) : Prop where
  code : s.object.code.toList <+: s'.object.code.toList
  unresolved : s'.object.unresolved = s.object.unresolved ++ refs
  blank : ∀ r ∈ refs, r.IsBlank s'.object.code

variable {s s' : Assembler}

theorem Records.trans {refs refs' : List Reference} {s₁ : Assembler} (h : Records refs s s₁)
    (h' : Records refs' s₁ s') : Records (refs ++ refs') s s' where
  code := h.code.trans h'.code
  unresolved := by rw [h'.unresolved, h.unresolved, List.append_assoc]
  blank r hr := by
    rcases List.mem_append.mp hr with hr | hr
    · exact (h.blank r hr).grown h'.code
    · exact h'.blank r hr

theorem records_of_object_eq (h : s'.object = s.object) : Records [] s s' :=
  ⟨by rw [h], by simp [h], by simp⟩

/-- References are known by their places and their scopes. -/
theorem eq_filterMap_use? {refs : List Reference} {slots : List Slot} {path : List String}
    (hplace : refs.map Reference.place = slots.filterMap Slot.reference?)
    (hscope : ∀ r ∈ refs, r.scope = path) : refs = slots.filterMap (Slot.use? path) := by
  have hslots : slots.filterMap (Slot.use? path) = (slots.filterMap Slot.reference?).map
      fun p => (⟨p.1, p.2.1, p.2.2, path⟩ : Reference) := by
    rw [List.map_filterMap]
    congr 1
    funext x
    simp only [Slot.use?, Slot.reference?, Option.map_map]
    rfl
  rw [hslots, ← hplace, List.map_map]
  symm
  refine (List.map_congr_left fun r hr => ?_).trans (List.map_id refs)
  rw [id, ← hscope r hr]
  rfl

theorem records_of_instruction {op : Opcode} {slots : List Slot} {bytes : List UInt8}
    (h : Asm.instruction op s = .ok () s') (hadds : Adds slots bytes s s') :
    Records (slots.filterMap (Slot.use? s.path)) s s' := by
  have hwrites := Asm.writes_of_instruction h
  obtain ⟨refs, hrefs, hblank⟩ := hwrites.unresolved
  have hplace : refs.map Reference.place = slots.filterMap Slot.reference? := by
    have hall := hadds.unresolved
    rw [hrefs, List.map_append] at hall
    exact List.append_cancel_left hall
  rw [← eq_filterMap_use? hplace fun r hr => (hblank r hr).1]
  exact ⟨hwrites.code, hrefs, fun r hr => (hblank r hr).2.2⟩

theorem records_of_directive {bytes : List UInt8} (h : s.Extends s') (hadds : Adds [] bytes s s') :
    Records [] s s' := by
  obtain ⟨refs, hrefs⟩ := h.unresolved
  have hlength := congrArg List.length hadds.unresolved
  have hnil : refs = [] := by
    rw [← hrefs] at hlength
    simpa using hlength
  refine ⟨h.code, ?_, by simp⟩
  rw [← hrefs, hnil]

/-- A directive writes no operands. -/
theorem emissionSlots_directive (hkind : s.cursor.current.kind = .directive) (pos : Nat) :
    emissionSlots pos s.asks = [] := by
  simp only [asks, statementEmissions, hkind]
  unfold directiveEmissions
  split
  · rfl
  · split
    · split
      · rfl
      · rfl
    · rfl

theorem extends_of_statementBody {expand : Asm Unit} (huse : s.atUse = false)
    (h : Asm.statementBody expand s = .ok () s') : s.Extends s' := by
  rcases Asm.statementBody_cases expand s with
    ⟨-, hbody⟩ | ⟨op, -, -, hbody⟩ | ⟨hkind, hop, -⟩ | ⟨-, -, e, hbody⟩
  · rw [hbody] at h
    have hmoved : s.Extends (s.movedTo s.cursor.next) :=
      (Asm.extends_ofParser Parser.relates_next).of_ok (a := ()) rfl
    exact Trans.trans hmoved (Asm.extends_directive.of_ok h)
  · rw [hbody] at h
    exact (Asm.extends_instruction op).of_ok h
  · simp [atUse, hkind, hop] at huse
  · rw [hbody] at h
    cases h

/-- A statement records the names that stand in it. -/
theorem tracks_records : Asm.Tracks fun ts => Records (ts.flatMap names) where
  of_eq hobject _ := records_of_object_eq hobject
  withStatic _ _ := ⟨List.prefix_rfl, (List.append_nil _).symm, by simp⟩
  trans h h' := by
    rw [List.flatMap_append]
    exact h.trans h'
  plain {expand s s'} huse h := by
    rw [List.flatMap_singleton]
    obtain ⟨xs, -, hadds⟩ := Asm.follows_emits.statementBody huse h
    rcases Asm.statementBody_cases expand s with
      ⟨hkind, hbody⟩ | ⟨op, -, -, hbody⟩ | ⟨hkind, hop, -⟩ | ⟨-, -, e, hbody⟩
    · rw [names, emissionSlots_directive hkind]
      rw [emissionSlots_directive hkind] at hadds
      exact records_of_directive (extends_of_statementBody huse h) hadds
    · rw [hbody] at h
      exact records_of_instruction h hadds
    · simp [atUse, hkind, hop] at huse
    · rw [hbody] at h
      cases h

/-- The assemblers that feeds lead to, with those in front of the statements carried out so far. -/
inductive Carried (name : String) : List Assembler → Assembler → Prop
  | empty : Carried name [] (empty name)
  | feed {ts : List Assembler} {s : Assembler} (tokens : Array Token) :
    Carried name ts s → Carried name (ts ++ s.steps tokens) (s.feed tokens).2

theorem Carried.reachable {name : String} {ts : List Assembler} (h : Carried name ts s) :
    Reachable name s := by
  induction h with
  | empty => exact .empty
  | feed tokens _ ih => exact ih.feed tokens

/-- The references of an object are the names of the statements carried out, in their order. -/
theorem Carried.records {name : String} {ts : List Assembler} (h : Carried name ts s) :
    Records (ts.flatMap names) (Assembler.empty name) s := by
  induction h with
  | empty => exact records_of_object_eq rfl
  | feed tokens hs ih =>
    rw [List.flatMap_append]
    exact ih.trans (tracks_records.feed hs.reachable.settled tokens)

end Assembler

end CellMachine
