import CellMachine.Proofs.Assembly.Program

/-!
# Filling slots

A slot that waits for a name or a page can be filled with any value of its datatype, and the code
still encodes what the source has asked for (`exists_encodes_write`). `Object.Carries` says that
the code of an object is of that kind and that its references and relocations are such slots, each
of them once; binding the references of a module to itself keeps that
(`Assembler.carries_of_finish`).
-/

namespace CellMachine

/-- A slot that waits for a name or for the page of a text. -/
def Slot.IsOpen (x : Slot) : Prop := x.name?.isSome = true ∨ x.isText = true

variable {x : Slot} {v : Value} {dt : Datatype}

theorem Slot.IsOpen.not_isNumber (h : x.IsOpen) : x.operand.isNumber = false := by
  unfold IsOpen name? isText at h
  unfold SourceOperand.isNumber
  grind

/-- Any value of its datatype may stand in an open slot. -/
theorem Slot.IsOpen.denotes {w : Value} (h : x.IsOpen) (hw : x.operand.Denotes none w)
    (hwx : w.datatype = x.datatype) (hv : v.datatype = x.datatype) : x.operand.Denotes none v := by
  unfold SourceOperand.Denotes at hw ⊢
  cases hterm : x.operand.term with
  | name name =>
    simp only
    intro htype t ht
    have hname : ¬ (x.datatype = .type ∧ (Datatype.ofName? name).isSome = true) := by
      intro hslot
      rcases h with h | h
      · simp [name?, hterm, hslot] at h
      · simp [isText, hterm] at h
    exact absurd ⟨hv.symm.trans htype, by simp [ht]⟩ hname
  | text t =>
    simp only [hterm] at hw ⊢
    rw [hv, ← hwx, hw]
  | _ =>
    rcases h with h | h
    · simp [name?, hterm] at h
    · simp [isText, hterm] at h

theorem derefBits_congr {xs ys : List Operand} (h : xs.map (·.deref) = ys.map (·.deref)) :
    derefBits xs = derefBits ys := by
  induction xs generalizing ys with
  | nil => simp [List.map_eq_nil_iff.mp h.symm]
  | cons x xs ih =>
    obtain ⟨y, ys, rfl, hy, hys⟩ := List.map_eq_cons_iff.mp h.symm
    simp only [derefBits, hy, ih hys.symm]

section Fill

variable {slot : Slot} {v : Value}

variable {pos : Nat}

/-- Filling a slot among operands. -/
theorem exists_operands_replaces {dt : Datatype} {source : Role × SourceOperand → Option Datatype}
    {ps : List (Role × SourceOperand)} {xs : List Operand}
    (hsource : ∀ p, p.2.isNumber = false → source p = none)
    (h : List.Forall₂ (fun p => EncodesOperand dt (source p) p) ps xs)
    (hslot : slot ∈ operandSlots dt pos ps) (hopen : slot.IsOpen)
    (hv : v.datatype = slot.datatype) :
    ∃ ys start, List.Forall₂ (fun p => EncodesOperand dt (source p) p) ps ys ∧
      ys.map (·.deref) = xs.map (·.deref) ∧ slot.offset = pos + start ∧
      Buffer.Replaces start (v.toCell.bytes slot.datatype) (encodeOperands xs)
        (encodeOperands ys) := by
  induction h generalizing pos with
  | nil => simp [operandSlots] at hslot
  | @cons p x ps xs hx hxs ih =>
    simp only [operandSlots, List.mem_cons] at hslot
    obtain ⟨w, hw, hdenotes, rfl⟩ := hx
    rcases hslot with rfl | hslot
    · simp only at hv
      have hnone := hsource p hopen.not_isNumber
      rw [hnone] at hdenotes
      have hfill : p.2.Denotes (source p) v := by
        rw [hnone]
        exact hopen.denotes hdenotes hw hv
      refine ⟨⟨p.1, v.datatype, p.2.deref, v.toCell⟩ :: xs, 0, .cons ⟨v, hv, hfill, rfl⟩ hxs,
        rfl, rfl, ?_⟩
      rw [encodeOperands_cons, encodeOperands_cons]
      refine Buffer.Replaces.append_right ?_ _
      rw [Operand.encode, hv]
      exact Buffer.replaces_self (by simp [hw])
    · obtain ⟨ys, start, hys, hderef, hoffset, hreplaces⟩ := ih hslot
      refine ⟨⟨p.1, w.datatype, p.2.deref, w.toCell⟩ :: ys,
        (p.1.encodedDatatype dt p.2.deref).size + start, .cons ⟨w, hw, hdenotes, rfl⟩ hys,
        by simp [hderef], by omega, ?_⟩
      have hboth := hreplaces.append_left (Operand.encode ⟨p.1, w.datatype, p.2.deref, w.toCell⟩)
      rw [Operand.length_encode] at hboth
      simp only [hw] at hboth ⊢
      rwa [encodeOperands_cons, encodeOperands_cons]

theorem length_encodeDescriptor {i : SourceInstruction} {x : Instruction} (h : i.Encodes x) :
    x.encodeDescriptor.length = i.gap := by
  have hsome := h.isSome_descriptor
  unfold Instruction.encodeDescriptor SourceInstruction.gap
  rw [← hsome]
  cases x.descriptor with
  | none => rfl
  | some d => simp

/-- Filling a slot of an instruction. -/
theorem exists_instruction_replaces {i : SourceInstruction} {x : Instruction} (h : i.Encodes x)
    (hslot : slot ∈ i.slots pos) (hopen : slot.IsOpen) (hv : v.datatype = slot.datatype) :
    ∃ y start, i.Encodes y ∧ slot.offset = pos + start ∧
      Buffer.Replaces start (v.toCell.bytes slot.datatype) x.encode y.encode := by
  rcases List.mem_append.mp hslot with hslot | hslot
  · have hsource : ∀ p : Role × SourceOperand, p.2.isNumber = false →
        readAs i.source? p = none := by
      intro p hp
      simp [readAs, hp]
    obtain ⟨ys, start, hys, hderef, hoffset, hreplaces⟩ :=
      exists_operands_replaces hsource h.fixed hslot hopen hv
    refine ⟨{ x with fixed := ys }, headerSize + start, { h with fixed := hys, mask := ?_ },
      by omega, ?_⟩
    · rw [h.mask, maskOf, maskOf]
      exact congrArg UInt16.ofNat (derefBits_congr (by simp [Instruction.operands, hderef]))
    · have hall := hreplaces.append_left (encodeHeader x.opcode x.datatype x.mask)
      rw [length_encodeHeader] at hall
      exact (hall.append_right _).append_right _
  · obtain ⟨ys, start, hys, hderef, hoffset, hreplaces⟩ :=
      exists_operands_replaces (fun _ _ => rfl) h.args hslot hopen hv
    refine ⟨{ x with args := ys },
      headerSize + operandsWidth i.datatype i.fixed + i.gap + start,
      { h with args := hys, mask := ?_ }, by omega, ?_⟩
    · rw [h.mask, maskOf, maskOf]
      exact congrArg UInt16.ofNat (derefBits_congr (by simp [Instruction.operands, hderef]))
    · have hall := hreplaces.append_left (encodeHeader x.opcode x.datatype x.mask ++
        encodeOperands x.fixed ++ x.encodeDescriptor)
      rwa [List.length_append, List.length_append, length_encodeHeader, length_encodeOperands,
        Asm.operandsSize_of_encodes h.fixed, length_encodeDescriptor h] at hall

/-- Filling a slot of the code. -/
theorem exists_code_replaces {es : List Emission} {xs : List Instruction}
    (h : List.Forall₂ Emission.Encodes es xs) (hslot : slot ∈ emissionSlots pos es)
    (hopen : slot.IsOpen) (hv : v.datatype = slot.datatype) :
    ∃ ys start, List.Forall₂ Emission.Encodes es ys ∧ slot.offset = pos + start ∧
      Buffer.Replaces start (v.toCell.bytes slot.datatype) (xs.flatMap Instruction.encode)
        (ys.flatMap Instruction.encode) := by
  induction h generalizing pos with
  | nil => simp [emissionSlots] at hslot
  | @cons e x es xs hx hxs ih =>
    simp only [emissionSlots, List.mem_append] at hslot
    rcases hslot with hslot | hslot
    · cases e with
      | written i =>
        obtain ⟨y, start, hy, hoffset, hreplaces⟩ := exists_instruction_replaces hx hslot hopen hv
        refine ⟨y :: xs, start, .cons hy hxs, hoffset, ?_⟩
        simpa using hreplaces.append_right (xs.flatMap Instruction.encode)
      | frame => simp [Emission.slots] at hslot
      | growth size => simp [Emission.slots] at hslot
    · obtain ⟨ys, start, hys, hoffset, hreplaces⟩ := ih hslot
      refine ⟨x :: ys, e.size + start, .cons hx hys, by omega, ?_⟩
      have hall := hreplaces.append_left x.encode
      rw [Instruction.length_encode, hx.size_eq] at hall
      simpa using hall

end Fill

/-! ## Slots lie apart -/

/-- One slot ends where the other starts, or in front of that. -/
def Slot.Before (x y : Slot) : Prop := x.offset + x.datatype.size ≤ y.offset

/-- The slots lie one behind the other between two places. -/
structure SlotsWithin (start stop : Nat) (xs : List Slot) : Prop where
  pairwise : xs.Pairwise Slot.Before
  lower : ∀ x ∈ xs, start ≤ x.offset
  upper : ∀ x ∈ xs, x.offset + x.datatype.size ≤ stop

theorem SlotsWithin.nil (start stop : Nat) : SlotsWithin start stop [] :=
  ⟨.nil, by simp, by simp⟩

theorem SlotsWithin.append {a b c d : Nat} {xs ys : List Slot} (hx : SlotsWithin a b xs)
    (hy : SlotsWithin c d ys) (hac : a ≤ c) (hbc : b ≤ c) (hbd : b ≤ d) :
    SlotsWithin a d (xs ++ ys) where
  pairwise := by
    refine List.pairwise_append.mpr ⟨hx.pairwise, hy.pairwise, fun x hxm y hym => ?_⟩
    have := hx.upper x hxm
    have := hy.lower y hym
    unfold Slot.Before
    omega
  lower z hz := by
    rcases List.mem_append.mp hz with hz | hz
    · exact hx.lower z hz
    · exact Nat.le_trans hac (hy.lower z hz)
  upper z hz := by
    rcases List.mem_append.mp hz with hz | hz
    · exact Nat.le_trans (hx.upper z hz) hbd
    · exact hy.upper z hz

theorem slotsWithin_operandSlots (dt : Datatype) (pos : Nat) (ps : List (Role × SourceOperand)) :
    SlotsWithin pos (pos + operandsWidth dt ps) (operandSlots dt pos ps) := by
  induction ps generalizing pos with
  | nil => exact .nil _ _
  | cons p ps ih =>
    have hrest := ih (pos + (p.1.encodedDatatype dt p.2.deref).size)
    have hone : SlotsWithin pos (pos + (p.1.encodedDatatype dt p.2.deref).size)
        [⟨pos, p.1.encodedDatatype dt p.2.deref, p.2⟩] := ⟨by simp, by simp, by simp⟩
    have hwidth : operandsWidth dt (p :: ps) =
        (p.1.encodedDatatype dt p.2.deref).size + operandsWidth dt ps := by
      simp [operandsWidth, Datatype.totalSize]
    rw [hwidth, ← Nat.add_assoc]
    exact hone.append hrest (by omega) (Nat.le_refl _) (by omega)

theorem slotsWithin_slots (e : Emission) (pos : Nat) :
    SlotsWithin pos (pos + e.size) (e.slots pos) := by
  cases e with
  | frame => exact .nil _ _
  | growth size => exact .nil _ _
  | written i =>
    have hfixed := slotsWithin_operandSlots i.datatype (pos + headerSize) i.fixed
    have hargs := slotsWithin_operandSlots i.datatype
      (pos + headerSize + operandsWidth i.datatype i.fixed + i.gap) i.args
    have hboth := hfixed.append hargs (by omega) (by omega) (by omega)
    refine ⟨hboth.pairwise, fun x hx => ?_, fun x hx => ?_⟩
    · have := hboth.lower x hx
      omega
    · have := hboth.upper x hx
      simp only [Emission.size, SourceInstruction.size]
      omega

theorem slotsWithin_emissionSlots (es : List Emission) (pos : Nat) :
    SlotsWithin pos (pos + emissionsSize es) (emissionSlots pos es) := by
  induction es generalizing pos with
  | nil => exact .nil _ _
  | cons e es ih =>
    have hsize : emissionsSize (e :: es) = e.size + emissionsSize es := by simp [emissionsSize]
    rw [hsize, ← Nat.add_assoc]
    exact (slotsWithin_slots e pos).append (ih (pos + e.size)) (by omega) (Nat.le_refl _) (by omega)

/-- Two slots at different places do not overlap. -/
theorem SlotsWithin.apart {start stop : Nat} {xs : List Slot} (h : SlotsWithin start stop xs)
    {y : Slot} (hx : x ∈ xs) (hy : y ∈ xs) (hne : x.offset ≠ y.offset) :
    x.Before y ∨ y.Before x := by
  obtain ⟨i, hi, rfl⟩ := List.getElem_of_mem hx
  obtain ⟨j, hj, rfl⟩ := List.getElem_of_mem hy
  have hpairs := List.pairwise_iff_getElem.mp h.pairwise
  rcases Nat.lt_trichotomy i j with hij | rfl | hji
  · exact Or.inl (hpairs i j hi hj hij)
  · exact absurd rfl hne
  · exact Or.inr (hpairs j i hj hi hji)

/-! ## What the slots of encoded instructions hold -/

theorem exists_denotes_operand {source : Role × SourceOperand → Option Datatype}
    {ps : List (Role × SourceOperand)} {xs : List Operand} {pos : Nat}
    (h : List.Forall₂ (fun p => EncodesOperand dt (source p) p) ps xs)
    (hx : x ∈ operandSlots dt pos ps) : ∃ t v, v.datatype = x.datatype ∧ x.operand.Denotes t v := by
  induction h generalizing pos with
  | nil => simp [operandSlots] at hx
  | @cons p _ ps xs hp _ ih =>
    simp only [operandSlots, List.mem_cons] at hx
    rcases hx with rfl | hx
    · obtain ⟨v, hv, hdenotes, -⟩ := hp
      exact ⟨_, v, hv, hdenotes⟩
    · exact ih hx

/-- Every slot has a value that its operand denotes. -/
theorem exists_denotes {es : List Emission} {xs : List Instruction} {pos : Nat}
    (h : List.Forall₂ Emission.Encodes es xs) (hx : x ∈ emissionSlots pos es) :
    ∃ t v, v.datatype = x.datatype ∧ x.operand.Denotes t v := by
  induction h generalizing pos with
  | nil => simp [emissionSlots] at hx
  | @cons e _ es xs he _ ih =>
    simp only [emissionSlots, List.mem_append] at hx
    rcases hx with hx | hx
    · cases e with
      | written i =>
        rcases List.mem_append.mp hx with hx | hx
        · exact exists_denotes_operand (SourceInstruction.Encodes.fixed he) hx
        · exact exists_denotes_operand (SourceInstruction.Encodes.args he) hx
      | frame => simp [Emission.slots] at hx
      | growth size => simp [Emission.slots] at hx
    · exact ih hx

theorem Value.size_datatype_pos (v : Value) : 0 < v.datatype.size := by
  cases v with
  | int signed w v => cases w <;> simp [datatype, Datatype.size, Width.bytes]
  | _ => simp [datatype, Datatype.size]

/-- A text has the slot of an address. -/
theorem holdsAddress_of_isText {t : Option Datatype} (hv : v.datatype = x.datatype)
    (hdenotes : x.operand.Denotes t v) (htext : x.isText = true) :
    x.datatype.holdsAddress = true := by
  unfold Slot.isText at htext
  unfold SourceOperand.Denotes at hdenotes
  cases hterm : x.operand.term with
  | text s =>
    cases t with
    | some t =>
      obtain ⟨w, hw, -⟩ := hdenotes
      simp [SourceOperand.value?, hterm] at hw
    | none => simpa [hterm, hv] using hdenotes
  | _ => simp [hterm] at htext

theorem nodup_offsets {es : List Emission} {xs : List Instruction} (pos : Nat)
    (h : List.Forall₂ Emission.Encodes es xs) :
    ((emissionSlots pos es).map (·.offset)).Nodup := by
  have hpairs := (slotsWithin_emissionSlots es pos).pairwise
  refine List.pairwise_map.mpr (hpairs.imp_of_mem fun {x y} hx _ hxy => ?_)
  obtain ⟨_, v, hv, -⟩ := exists_denotes h hx
  have hpos := v.size_datatype_pos
  unfold Slot.Before at hxy
  rw [hv] at hpos
  omega

/-! ## Objects -/

/-- The code of an object encodes what the source has asked for, and each of its references and
relocations is an open slot, of its own. -/
structure Object.Carries (es : List Emission) (o : Object) : Prop where
  code : ∃ xs, List.Forall₂ Emission.Encodes es xs ∧ o.code.toList = xs.flatMap Instruction.encode
  unresolved : ∀ r ∈ o.unresolved, ∃ x ∈ emissionSlots 0 es, x.reference? = some r.place
  relocations : ∀ n ∈ o.relocations, ∃ x ∈ emissionSlots 0 es, x.IsOpen ∧ x.offset = n ∧
    x.datatype.holdsAddress = true
  distinct : (o.unresolved.map (·.offset) ++ o.relocations).Nodup

theorem Slot.reference?_eq_some {p : String × Nat × Datatype} :
    x.reference? = some p ↔ x.name? = some p.1 ∧ x.offset = p.2.1 ∧ x.datatype = p.2.2 := by
  unfold reference?
  rw [Option.map_eq_some_iff]
  constructor
  · rintro ⟨name, hname, rfl⟩
    exact ⟨hname, rfl, rfl⟩
  · rintro ⟨hname, hoffset, hdatatype⟩
    exact ⟨p.1, hname, by rw [hoffset, hdatatype]⟩

theorem map_references (xs : List Slot) :
    (xs.filterMap Slot.reference?).map (·.2.1) = (xs.filter (·.name?.isSome)).map (·.offset) := by
  induction xs with
  | nil => rfl
  | cons x xs ih => cases hx : x.name? <;> simp [Slot.reference?, hx, ih]

theorem filterMap_relocation? (xs : List Slot) :
    xs.filterMap Slot.relocation? = (xs.filter (·.isText)).map (·.offset) := by
  induction xs with
  | nil => rfl
  | cons x xs ih => cases hx : x.isText <;> simp [Slot.relocation?, hx, ih]

/-- A slot that waits for a name and one with a text are never the same. -/
theorem nodup_references_relocations {xs : List Slot} (h : (xs.map (·.offset)).Nodup) :
    ((xs.filterMap Slot.reference?).map (·.2.1) ++ xs.filterMap Slot.relocation?).Nodup := by
  rw [map_references, filterMap_relocation?, ← List.map_append]
  have htext : (xs.filter (·.isText)).Sublist (xs.filter fun x => !x.name?.isSome) := by
    refine List.monotone_filter_right xs fun x hx => ?_
    unfold Slot.isText at hx
    unfold Slot.name?
    grind
  have hall := (List.filter_append_perm (·.name?.isSome) xs).map (·.offset)
  exact ((htext.append_left _).map _).nodup (hall.nodup_iff.mpr h)

/-- The object of a run carries what the source has asked for. -/
theorem Assembler.Emits.carries {name : String} {es : List Emission} {s : Assembler}
    (h : Emits es (Assembler.empty name) s) : s.object.Carries es := by
  obtain ⟨xs, hxs, hadds⟩ := h
  have hunresolved : s.object.unresolved.map Reference.place =
      (emissionSlots 0 es).filterMap Slot.reference? := hadds.unresolved
  have hrelocations : s.object.relocations = (emissionSlots 0 es).filterMap Slot.relocation? :=
    hadds.relocations
  refine ⟨⟨xs, hxs, hadds.code⟩, fun r hr => ?_, fun n hn => ?_, ?_⟩
  · have hplace : r.place ∈ (emissionSlots 0 es).filterMap Slot.reference? := by
      rw [← hunresolved]
      exact List.mem_map_of_mem hr
    exact List.mem_filterMap.mp hplace
  · rw [hrelocations] at hn
    obtain ⟨x, hx, htext⟩ := List.mem_filterMap.mp hn
    have htext : x.isText = true ∧ x.offset = n := by simpa [Slot.relocation?] using htext
    obtain ⟨t, v, hv, hdenotes⟩ := exists_denotes hxs hx
    exact ⟨x, hx, Or.inr htext.1, htext.2, holdsAddress_of_isText hv hdenotes htext.1⟩
  · have hoffsets : s.object.unresolved.map (·.offset) =
        ((emissionSlots 0 es).filterMap Slot.reference?).map (·.2.1) := by
      rw [← hunresolved, List.map_map]
      rfl
    rw [hoffsets, hrelocations]
    exact nodup_references_relocations (nodup_offsets 0 hxs)

/-- An open slot of the code can be filled with a value of its datatype. -/
theorem exists_encodes_write {es : List Emission} {code : Buffer}
    (hcode : ∃ xs, List.Forall₂ Emission.Encodes es xs ∧
      code.toList = xs.flatMap Instruction.encode)
    (hx : x ∈ emissionSlots 0 es) (hopen : x.IsOpen) (hv : v.datatype = x.datatype) :
    ∃ ys, List.Forall₂ Emission.Encodes es ys ∧
      (code.write x.offset (v.toCell.bytes x.datatype)).toList = ys.flatMap Instruction.encode := by
  obtain ⟨xs, hxs, hcode⟩ := hcode
  obtain ⟨ys, start, hys, hoffset, hreplaces⟩ := exists_code_replaces hxs hx hopen hv
  rw [Nat.zero_add] at hoffset
  rw [hoffset]
  exact ⟨ys, hys, Buffer.toList_write_of_replaces hcode hreplaces⟩

theorem patchCell?_eq_some {code code' : Buffer} {offset : Nat} {c : Cell}
    (h : patchCell? code offset c dt = some code') :
    offset + dt.size ≤ code.size ∧ code' = code.write offset (c.bytes dt) := by
  unfold patchCell? at h
  split at h
  · next hle => exact ⟨hle, (Option.some.inj h).symm⟩
  · simp at h

theorem Value.holdsAddress_of_fit? {w : Value} (hpaged : v.isPaged = true)
    (h : v.fit? dt = some w) : dt.holdsAddress = true := by
  cases v with
  | addr a =>
    have hslot : dt = .addr ∨ dt = .u64 := by
      by_contra hne
      rw [not_or] at hne
      simp [fit?, datatype, Ne.symm hne.1, hne.2] at h
    rcases hslot with rfl | rfl <;> rfl
  | _ => simp [isPaged] at hpaged

namespace Object

variable {o : Object}

theorem Carries.mem_slots {es : List Emission} {r : Reference} (h : o.Carries es)
    (hr : r ∈ o.unresolved) :
    ∃ x ∈ emissionSlots 0 es, x.IsOpen ∧ x.offset = r.offset ∧ x.datatype = r.datatype := by
  obtain ⟨x, hx, hplace⟩ := h.unresolved r hr
  obtain ⟨hname, hoffset, hdatatype⟩ := Slot.reference?_eq_some.mp hplace
  exact ⟨x, hx, Or.inl (by simp [hname]), hoffset, hdatatype⟩

/-- The order of the references and their scopes do not matter. -/
theorem Carries.of_perm {es : List Emission} {o' : Object} (h : o.Carries es)
    (hcode : o'.code = o.code) (hrelocations : o'.relocations = o.relocations)
    (hperm : (o'.unresolved.map Reference.place).Perm (o.unresolved.map Reference.place)) :
    o'.Carries es := by
  have hoffsets : (o'.unresolved.map (·.offset)).Perm (o.unresolved.map (·.offset)) := by
    have := hperm.map (·.2.1)
    simpa [List.map_map, Function.comp_def, Reference.place] using this
  refine ⟨by rw [hcode]; exact h.code, fun r hr => ?_, by rw [hrelocations]; exact h.relocations,
    ?_⟩
  · obtain ⟨r', hr', hplace⟩ := List.mem_map.mp (hperm.subset (List.mem_map_of_mem hr))
    rw [← hplace]
    exact h.unresolved r' hr'
  · rw [hrelocations]
    exact ((hoffsets.append_right _).nodup_iff).mpr h.distinct

/-- The reference at the front is filled. It becomes a relocation if its value has a page. -/
theorem Carries.fill {es : List Emission} {r : Reference} {rest : List Reference} {code : Buffer}
    {v : Value} {paged : Bool} (h : ({ o with unresolved := r :: rest } : Object).Carries es)
    (hv : v.datatype = r.datatype) (hpaged : paged = true → r.datatype.holdsAddress = true)
    (hcode : patchCell? o.code r.offset v.toCell r.datatype = some code) :
    ({ o with
      code := code
      unresolved := rest
      relocations := if paged then o.relocations ++ [r.offset] else o.relocations } :
        Object).Carries es := by
  obtain ⟨x, hx, hopen, hoffset, hdatatype⟩ := h.mem_slots (r := r) (by simp)
  obtain ⟨-, rfl⟩ := patchCell?_eq_some hcode
  have hdistinct : (r.offset :: (rest.map (·.offset) ++ o.relocations)).Nodup := by
    simpa using h.distinct
  refine ⟨?_, fun r' hr' => h.unresolved r' (by simp [hr']), fun n hn => ?_, ?_⟩
  · have hwrite := exists_encodes_write h.code hx hopen (hv.trans hdatatype.symm)
    rwa [hoffset, hdatatype] at hwrite
  · cases hp : paged with
    | false => exact h.relocations n (by simpa [hp] using hn)
    | true =>
      have hn : n ∈ o.relocations ∨ n = r.offset := by simpa [hp] using hn
      rcases hn with hn | rfl
      · exact h.relocations n hn
      · exact ⟨x, hx, hopen, hoffset, by rw [hdatatype]; exact hpaged hp⟩
  · cases hp : paged with
    | false => exact hdistinct.of_cons
    | true =>
      have hperm : (rest.map (·.offset) ++ (o.relocations ++ [r.offset])).Perm
          (r.offset :: (rest.map (·.offset) ++ o.relocations)) := by
        rw [← List.append_assoc]
        exact List.perm_append_singleton _ _
      exact hperm.nodup_iff.mpr hdistinct

end Object

namespace Assembler

variable {s : Assembler} {o : Object}

/-- Binding references changes nothing but the code, the references and the relocations. -/
theorem bindReferences_eq {pending : List (Reference × Position)} {o' : Object}
    (h : s.bindReferences o pending = .ok o') :
    o' = { o with
      code := o'.code, unresolved := o'.unresolved, relocations := o'.relocations } := by
  induction pending generalizing o with
  | nil =>
    cases h
    rfl
  | cons p rest ih =>
    unfold bindReferences at h
    split at h
    · rw [ih h]
    · split at h
      · simp at h
      · split at h
        · simp at h
        · rw [ih h]

/-- Binding references, one by one, leaves the others as slots of their own. -/
theorem carries_of_bindReferences {es : List Emission} {pending : List (Reference × Position)}
    {o' : Object}
    (ho : ({ o with unresolved := pending.map (·.1) ++ o.unresolved } : Object).Carries es)
    (h : s.bindReferences o pending = .ok o') : o'.Carries es := by
  induction pending generalizing o with
  | nil =>
    cases h
    exact ho
  | cons p rest ih =>
    obtain ⟨r, position⟩ := p
    unfold bindReferences at h
    cases hlookup : s.lookup r.scope r.name with
    | none =>
      simp only [hlookup] at h
      refine ih ?_ h
      refine ho.of_perm rfl rfl ?_
      simp only [List.map_append, List.map_cons, List.map_nil, List.cons_append]
      rw [← List.append_assoc]
      exact List.perm_append_singleton r.place _
    | some symbol =>
      cases hfit : symbol.value.fit? r.datatype with
      | none => simp [hlookup, hfit] at h
      | some v =>
        cases hpatch : patchCell? o.code r.offset v.toCell r.datatype with
        | none => simp [hlookup, hfit, hpatch] at h
        | some code =>
          simp only [hlookup, hfit, hpatch] at h
          refine ih ?_ h
          refine Object.Carries.fill ho (Value.datatype_of_fit? hfit) (fun hpaged => ?_) hpatch
          have hpaged := (Bool.and_eq_true _ _).mp hpaged
          exact Value.holdsAddress_of_fit? hpaged.1 hfit

theorem finish_eq_ok (h : s.finish = .ok o) :
    s.bindReferences { s.object with unresolved := [] }
      (s.object.unresolved.zip s.positions) = .ok o := by
  unfold finish at h
  split at h
  · simp at h
  · exact h

/-- A finished object carries what the source has asked for. -/
theorem carries_of_finish {name : String} {es : List Emission} (hs : Produced name es s)
    (h : s.finish = .ok o) : o.Carries es := by
  have hpositions := hs.settled.consistent.positions
  have hpending : (s.object.unresolved.zip s.positions).map (·.1) = s.object.unresolved :=
    List.map_fst_zip (Nat.le_of_eq hpositions.symm)
  refine carries_of_bindReferences ?_ (finish_eq_ok h)
  simpa [hpending] using hs.emits.carries

/-- A finished object has the symbols and the static data that were there before. -/
theorem finish_keeps (h : s.finish = .ok o) :
    o.symbols = s.object.symbols ∧ o.static = s.object.static := by
  have heq := bindReferences_eq (finish_eq_ok h)
  exact ⟨by rw [heq], by rw [heq]⟩

end Assembler

/-- What is known of every assembled object. -/
theorem carries_of_assemble {tokens : Array Token} {name : String} {o : Object}
    (h : assemble tokens name = .ok o) :
    (∃ es, o.Carries es) ∧ (o.symbols.map (·.name)).Nodup := by
  unfold assemble at h
  cases hfeed : (Assembler.empty name).feed tokens with
  | mk r s =>
    cases r with
    | error e => simp [hfeed] at h
    | ok _ =>
      simp only [hfeed] at h
      have hempty : Assembler.Produced name [] (Assembler.empty name) := .empty
      have hs := hempty.feed tokens
      rw [hfeed] at hs
      refine ⟨⟨_, Assembler.carries_of_finish hs h⟩, ?_⟩
      rw [(Assembler.finish_keeps h).1]
      exact hs.settled.consistent.distinct

end CellMachine
