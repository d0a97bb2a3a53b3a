import CellMachine.Proofs.Instruction.RoundTrip

/-!
# Encoding what was decoded

The decoder reads any bytes, not only those that an encoder has written. Where it succeeds, the
bytes are the encoding of the instruction it gives, and that instruction is legible, so that it
would be read again (`decode_eq_ok_iff`). `Instruction.compose` makes an instruction of its opcode,
datatype, mask and cells; the instructions made so are, but for spare codes in a descriptor, those
that can be read (`decode_compose`).
-/

namespace CellMachine

/-! ## Numbers, cells and descriptors -/

/-- A number has one spelling in a given count of bytes. -/
theorem littleEndian_ofLittleEndian (bs : List UInt8) :
    littleEndian bs.length (ofLittleEndian bs) = bs := by
  induction bs with
  | nil => rfl
  | cons b rest ih =>
    have hlt := b.toNat_lt
    have hdiv : (b.toNat + 256 * ofLittleEndian rest) / 256 = ofLittleEndian rest := by omega
    have hbyte : UInt8.ofNat (b.toNat + 256 * ofLittleEndian rest) = b := by
      apply UInt8.toNat_inj.mp
      rw [UInt8.toNat_ofNat']
      omega
    rw [List.length_cons, ofLittleEndian, littleEndian, hdiv, hbyte, ih]

theorem ofLittleEndian_lt (bs : List UInt8) : ofLittleEndian bs < 256 ^ bs.length := by
  have hread := ofLittleEndian_littleEndian bs.length (ofLittleEndian bs)
  rw [littleEndian_ofLittleEndian] at hread
  rw [hread]
  exact Nat.mod_lt _ (Nat.pow_pos (by decide))

namespace Cell

theorem toNat_ofBytes {bs : List UInt8} (h : bs.length ≤ size) :
    (ofBytes bs).bits.toNat = ofLittleEndian bs := by
  have hlt : ofLittleEndian bs < 2 ^ 64 :=
    calc ofLittleEndian bs < 256 ^ bs.length := ofLittleEndian_lt bs
      _ ≤ 256 ^ 8 := Nat.pow_le_pow_right (by decide) h
      _ = 2 ^ 64 := by decide
  rw [ofBytes, List.take_of_length_le h, UInt64.toNat_ofNat']
  exact Nat.mod_eq_of_lt hlt

variable {bs : List UInt8} {dt : Datatype}

/-- A cell that was read from the bytes of a `dt` has these bytes. -/
theorem bytes_ofBytes (h : bs.length = dt.size) : (ofBytes bs).bytes dt = bs := by
  rw [bytes, toNat_ofBytes (h ▸ dt.size_le), ← h, littleEndian_ofLittleEndian]

theorem fits_ofBytes (h : bs.length = dt.size) : (ofBytes bs).Fits dt := by
  unfold Fits
  rw [toNat_ofBytes (h ▸ dt.size_le), ← h]
  exact ofLittleEndian_lt bs

end Cell

theorem Descriptor.toBytes_ofBytes {bs : List UInt8} (h : bs.length = size) :
    (ofBytes bs).toBytes = bs := by
  cases bs with
  | nil => cases h
  | cons b rest =>
    have hrest : rest.length = 4 := by simpa [size] using h
    have hlt : ofLittleEndian rest < 2 ^ 32 := by
      have := ofLittleEndian_lt rest
      rwa [hrest] at this
    have hcodes : (UInt32.ofNat (ofLittleEndian rest)).toNat = ofLittleEndian rest := by
      rw [UInt32.toNat_ofNat']
      exact Nat.mod_eq_of_lt hlt
    have htake : rest.take 4 = rest := List.take_of_length_le (Nat.le_of_eq hrest)
    simp only [ofBytes, toBytes, List.headD_cons, List.tail_cons, htake, hcodes]
    rw [← hrest, littleEndian_ofLittleEndian]

/-! ## What the parts of the decoder have read -/

section Reading

variable {code : Buffer} {dt : Datatype} {mask : UInt16} {pos index : Nat}

variable {os : List Operand} {n : Nat} {role : Role} {o : Operand}

theorem holds_of_takeBytes {bs : List UInt8} (h : takeBytes code pos n = .ok bs) :
    code.Holds pos bs ∧ bs.length = n := by
  unfold takeBytes at h
  split at h
  · next hle =>
    cases h
    have hlength := code.length_read_of_le pos n hle
    exact ⟨⟨by rw [hlength]; exact hle, by rw [hlength]⟩, hlength⟩
  · cases h

theorem readOperand_eq_ok (h : readOperand code dt mask role index pos = .ok o) :
    o.role = role ∧ o.WellFormed dt ∧ maskBit mask index = o.deref ∧ code.Holds pos o.encode := by
  obtain ⟨bs, hbs, h⟩ := except_bind_eq_ok.mp h
  obtain ⟨hholds, hlength⟩ := holds_of_takeBytes hbs
  cases h
  refine ⟨rfl, ⟨rfl, Cell.fits_ofBytes hlength⟩, rfl, ?_⟩
  rwa [Operand.encode, Cell.bytes_ofBytes hlength]

/-- Operands have been read from `pos` on, the first of them as operand `index`. -/
structure OperandsAt (code : Buffer) (dt : Datatype) (mask : UInt16) (index pos : Nat)
    (os : List Operand) : Prop where
  wellFormed : ∀ o ∈ os, o.WellFormed dt
  masks : Masks mask index os
  holds : code.Holds pos (encodeOperands os)

theorem operandsAt_nil (h : pos ≤ code.size) : OperandsAt code dt mask index pos [] :=
  ⟨by simp, trivial, h, by simp [Buffer.read, encodeOperands]⟩

theorem operandsAt_cons (h : readOperand code dt mask role index pos = .ok o)
    (hos : OperandsAt code dt mask (index + 1) (pos + o.datatype.size) os) :
    OperandsAt code dt mask index pos (o :: os) := by
  obtain ⟨-, hwellFormed, hmask, hholds⟩ := readOperand_eq_ok h
  refine ⟨List.forall_mem_cons.mpr ⟨hwellFormed, hos.wellFormed⟩, ⟨hmask, hos.masks⟩, ?_⟩
  rw [encodeOperands_cons, Buffer.holds_append, Operand.length_encode]
  exact ⟨hholds, hos.holds⟩

/-- An operand that was read lies inside the code. -/
theorem le_size_of_readOperand (h : readOperand code dt mask role index pos = .ok o) :
    pos + o.datatype.size ≤ code.size := by
  obtain ⟨-, -, -, hholds⟩ := readOperand_eq_ok h
  simpa using hholds.1

theorem operandsAt_of_readFixed {roles : List Role} (hpos : pos ≤ code.size)
    (h : readFixed code dt mask index pos roles = .ok os) :
    os.map (·.role) = roles ∧ OperandsAt code dt mask index pos os := by
  induction roles generalizing index pos os with
  | nil =>
    cases h
    exact ⟨rfl, operandsAt_nil hpos⟩
  | cons role rest ih =>
    obtain ⟨o, ho, h⟩ := except_bind_eq_ok.mp h
    obtain ⟨os', hrest, h⟩ := except_bind_eq_ok.mp h
    cases h
    obtain ⟨hroles, hos⟩ := ih (le_size_of_readOperand ho) hrest
    exact ⟨by rw [List.map_cons, (readOperand_eq_ok ho).1, hroles], operandsAt_cons ho hos⟩

theorem readArgs_succ_eq_ok {d : Descriptor} {descriptorAt i : Nat}
    (h : readArgs code dt mask d descriptorAt i index pos (n + 1) = .ok os) :
    ∃ t o os', d.datatype? i = some t ∧ t ≠ .none ∧
      readOperand code dt mask (.typed t) index pos = .ok o ∧
      readArgs code dt mask d descriptorAt (i + 1) (index + 1) (pos + o.datatype.size) n =
        .ok os' ∧
      os = o :: os' := by
  unfold readArgs at h
  split at h
  · cases h
  · cases h
  · next t hne ht =>
    obtain ⟨o, ho, h⟩ := except_bind_eq_ok.mp h
    obtain ⟨os', hrest, h⟩ := except_bind_eq_ok.mp h
    cases h
    exact ⟨t, o, os', ht, hne, ho, hrest, rfl⟩

/-- The arguments from the `i`-th on have the datatypes that the descriptor gives for them. -/
theorem operandsAt_of_readArgs {d : Descriptor} {descriptorAt i : Nat} (hpos : pos ≤ code.size)
    (h : readArgs code dt mask d descriptorAt i index pos n = .ok os) :
    ∃ types : List Datatype, os.map (·.role) = types.map .typed ∧ types.length = n ∧
      Datatype.none ∉ types ∧ (∀ k < n, d.datatype? (i + k) = types[k]?) ∧
      OperandsAt code dt mask index pos os := by
  induction n generalizing i index pos os with
  | zero =>
    cases h
    exact ⟨[], rfl, rfl, by simp, by simp, operandsAt_nil hpos⟩
  | succ n ih =>
    obtain ⟨t, o, os', ht, hne, ho, hrest, rfl⟩ := readArgs_succ_eq_ok h
    obtain ⟨types, hroles, hlength, hnone, htypes, hos⟩ := ih (le_size_of_readOperand ho) hrest
    refine ⟨t :: types, ?_, by rw [List.length_cons, hlength], ?_, fun k hk => ?_,
      operandsAt_cons ho hos⟩
    · rw [List.map_cons, List.map_cons, (readOperand_eq_ok ho).1, hroles]
    · simp only [List.mem_cons, not_or]
      exact ⟨Ne.symm hne, hnone⟩
    · cases k with
      | zero => exact ht
      | succ k =>
        rw [List.getElem?_cons_succ, ← htypes k (by omega)]
        congr 1
        omega

end Reading

theorem Descriptor.announces_of_datatype? {d : Descriptor} {types : List Datatype}
    (hcount : d.count.toNat = types.length) (hlimit : types.length ≤ maxArgs)
    (hnone : Datatype.none ∉ types)
    (htypes : ∀ k < types.length, d.datatype? (0 + k) = types[k]?) : d.Announces types where
  count := hcount
  limit := hlimit
  datatypes k := by
    by_cases hk : k < types.length
    · rw [← htypes k hk, Nat.zero_add]
    · rw [datatype?, if_neg (by omega), List.getElem?_eq_none (by omega)]
  stored := hnone

/-! ## Instructions -/

theorem singleton_of_takeBytes {code : Buffer} {pos : Nat} {bs : List UInt8}
    (h : takeBytes code pos 1 = .ok bs) : bs = [bs.headD 0] ∧ code.Holds pos [bs.headD 0] := by
  obtain ⟨hholds, hlength⟩ := holds_of_takeBytes h
  obtain ⟨b, rfl⟩ := List.length_eq_one_iff.mp hlength
  exact ⟨rfl, hholds⟩

namespace Decoded

variable {code : Buffer} {pos : Nat} {i : Instruction}

/-- The first four bytes are the header. -/
theorem holds_header (h : Decoded code pos i) :
    code.Holds pos (encodeHeader i.opcode i.datatype i.mask) := by
  obtain ⟨bs, hbs, hop⟩ := h.opcode
  obtain ⟨cs, hcs, hdt⟩ := h.datatype
  obtain ⟨ms, hms, hmask⟩ := h.mask
  obtain ⟨hholds, hlength⟩ := holds_of_takeBytes hms
  have hlt : ofLittleEndian ms < 2 ^ 16 := by
    have := ofLittleEndian_lt ms
    rwa [hlength] at this
  have hbytes : littleEndian 2 i.mask.toNat = ms := by
    rw [hmask, UInt16.toNat_ofNat', Nat.mod_eq_of_lt hlt, ← hlength, littleEndian_ofLittleEndian]
  have hsplit : encodeHeader i.opcode i.datatype i.mask =
      [i.opcode.byte] ++ ([i.datatype.code] ++ littleEndian 2 i.mask.toNat) := rfl
  rw [hsplit, Buffer.holds_append, Buffer.holds_append, hbytes, Opcode.byte_of_ofByte? hop,
    Datatype.code_of_ofCode? hdt]
  exact ⟨(singleton_of_takeBytes hbs).2, (singleton_of_takeBytes hcs).2, hholds⟩

theorem operandsAt_fixed (h : Decoded code pos i) :
    i.fixed.map (·.role) = i.opcode.fixedRoles i.datatype ∧
      OperandsAt code i.datatype i.mask 0 (pos + headerSize) i.fixed := by
  have hheader := h.holds_header.1
  rw [length_encodeHeader] at hheader
  exact operandsAt_of_readFixed hheader h.fixed

/-- What stands behind the operands of the layout. -/
theorem operandsAt_args (h : Decoded code pos i) :
    (i.opcode.layout.variadic = true → ∃ types d, i.args.map (·.role) = types.map .typed ∧
      d.Announces types ∧ i.descriptor = some d) ∧
    code.Holds (pos + headerSize + operandsSize i.fixed) i.encodeDescriptor ∧
    OperandsAt code i.datatype i.mask i.fixed.length
      (pos + headerSize + operandsSize i.fixed + i.encodeDescriptor.length) i.args := by
  have hfixed := h.operandsAt_fixed.2.holds.1
  rw [length_encodeOperands] at hfixed
  cases hv : i.opcode.layout.variadic with
  | false =>
    obtain ⟨hd, ha⟩ := h.plain hv
    have hbytes : i.encodeDescriptor = [] := by simp [Instruction.encodeDescriptor, hd]
    rw [hbytes, ha]
    exact ⟨fun hv => absurd hv Bool.false_ne_true, ⟨hfixed, by simp [Buffer.read]⟩,
      operandsAt_nil hfixed⟩
  | true =>
    obtain ⟨bs, hbs, hd, hcount, hargs⟩ := h.variadic hv
    obtain ⟨hholds, hlength⟩ := holds_of_takeBytes hbs
    have hbytes : i.encodeDescriptor = bs := by
      simp [Instruction.encodeDescriptor, hd, Descriptor.toBytes_ofBytes hlength]
    have hend : pos + headerSize + operandsSize i.fixed + Descriptor.size ≤ code.size :=
      hlength ▸ hholds.1
    obtain ⟨types, hroles, htypesLength, hnone, htypes, hos⟩ := operandsAt_of_readArgs hend hargs
    rw [← htypesLength] at htypes hcount
    rw [hbytes, hlength]
    exact ⟨fun _ => ⟨types, _, hroles,
      Descriptor.announces_of_datatype? htypesLength.symm hcount hnone htypes, hd⟩, hholds, hos⟩

theorem legible (h : Decoded code pos i) : i.Legible where
  roles := h.operandsAt_fixed.1
  operands o ho := by
    rcases List.mem_append.mp ho with ho | ho
    · exact h.operandsAt_fixed.2.wellFormed o ho
    · exact h.operandsAt_args.2.2.wellFormed o ho
  masks := by
    rw [Instruction.operands, masks_append, Nat.zero_add]
    exact ⟨h.operandsAt_fixed.2.masks, h.operandsAt_args.2.2.masks⟩
  variadic := h.operandsAt_args.1
  plain := h.plain

theorem holds_encode (h : Decoded code pos i) : code.Holds pos i.encode := by
  unfold Instruction.encode
  simp only [Buffer.holds_append, List.length_append, length_encodeHeader, length_encodeOperands,
    ← Nat.add_assoc]
  exact ⟨⟨⟨h.holds_header, h.operandsAt_fixed.2.holds⟩, h.operandsAt_args.2.1⟩,
    h.operandsAt_args.2.2.holds⟩

end Decoded

/-- The decoder reads the legible instructions, each where its encoding stands. -/
theorem decode_eq_ok_iff {code : Buffer} {pos : Nat} {i : Instruction} :
    decode code pos = .ok i ↔ i.Legible ∧ code.Holds pos i.encode :=
  ⟨fun h => ⟨(decoded_of_decode h).legible, (decoded_of_decode h).holds_encode⟩,
    fun h => decode_of_legible h.1 h.2⟩

/-! ## Instructions by their parts -/

/-- Operands with given roles and cells, the first of them operand `index`. The mask says which
are dereferenced. -/
def placeOperands (dt : Datatype) (mask : UInt16) : Nat → List (Role × Cell) → List Operand
  | _, [] => []
  | index, (role, c) :: rest =>
    ⟨role, role.encodedDatatype dt (maskBit mask index), maskBit mask index, c⟩ ::
      placeOperands dt mask (index + 1) rest

namespace Instruction

/-- The instruction with these cells for the operands of its layout and these typed arguments. -/
def compose (op : Opcode) (dt : Datatype) (mask : UInt16) (cells : List Cell)
    (args : List (Datatype × Cell)) : Instruction where
  opcode := op
  datatype := dt
  mask := mask
  fixed := placeOperands dt mask 0 ((op.fixedRoles dt).zip cells)
  descriptor := if op.layout.variadic then Descriptor.ofTypes? (args.map (·.1)) else none
  args := placeOperands dt mask (op.fixedRoles dt).length
    (args.map fun a => (.typed a.1, a.2))

/-- There is a cell for every operand of the layout, at most eight arguments and those only where
the layout has them, none of them without a datatype, and all cells are zero above their width. -/
structure Composable (op : Opcode) (dt : Datatype) (mask : UInt16) (cells : List Cell)
    (args : List (Datatype × Cell)) : Prop where
  complete : cells.length = (op.fixedRoles dt).length
  limit : args.length ≤ Descriptor.maxArgs
  plain : op.layout.variadic = false → args = []
  stored : ∀ a ∈ args, a.1 ≠ .none
  fits : ∀ o ∈ (compose op dt mask cells args).operands, o.cell.Fits o.datatype

end Instruction

section Placing

variable {dt : Datatype} {mask : UInt16} {index : Nat}

theorem roles_placeOperands (ps : List (Role × Cell)) :
    (placeOperands dt mask index ps).map (·.role) = ps.map (·.1) := by
  induction ps generalizing index with
  | nil => rfl
  | cons p rest ih => simp [placeOperands, ih]

theorem masks_placeOperands (ps : List (Role × Cell)) :
    Masks mask index (placeOperands dt mask index ps) := by
  induction ps generalizing index with
  | nil => trivial
  | cons p rest ih => exact ⟨rfl, ih⟩

theorem datatype_of_mem_placeOperands {ps : List (Role × Cell)} {o : Operand}
    (h : o ∈ placeOperands dt mask index ps) :
    o.datatype = o.role.encodedDatatype dt o.deref := by
  induction ps generalizing index with
  | nil => cases h
  | cons p rest ih =>
    rcases List.mem_cons.mp h with rfl | h
    · rfl
    · exact ih h

/-- Roles, mask and cells say all of well-formed operands. -/
theorem placeOperands_eq {os : List Operand} (hos : ∀ o ∈ os, o.WellFormed dt)
    (hmask : Masks mask index os) :
    placeOperands dt mask index (os.map fun o => (o.role, o.cell)) = os := by
  induction os generalizing index with
  | nil => rfl
  | cons o rest ih =>
    obtain ⟨ho, hrest⟩ := List.forall_mem_cons.mp hos
    obtain ⟨hderef, hmask⟩ := hmask
    simp only [List.map_cons, placeOperands, hderef, ← ho.datatype_eq, ih hrest hmask]

end Placing

namespace Instruction

theorem Composable.wellFormed {op : Opcode} {dt : Datatype} {mask : UInt16} {cells : List Cell}
    {args : List (Datatype × Cell)} (h : Composable op dt mask cells args) :
    (compose op dt mask cells args).WellFormed := by
  have hroles : ((op.fixedRoles dt).zip cells).map (·.1) = op.fixedRoles dt :=
    List.map_fst_zip (Nat.le_of_eq h.complete.symm)
  have hfixedRoles : (compose op dt mask cells args).fixed.map (·.role) = op.fixedRoles dt :=
    (roles_placeOperands _).trans hroles
  have hfixed : (compose op dt mask cells args).fixed.length = (op.fixedRoles dt).length := by
    rw [← List.length_map, hfixedRoles]
  refine ⟨hfixedRoles, fun o ho => ⟨?_, h.fits o ho⟩, ?_, fun hv => ?_,
    fun hv => ?_⟩
  · rcases List.mem_append.mp ho with ho | ho
    · exact datatype_of_mem_placeOperands ho
    · exact datatype_of_mem_placeOperands ho
  · rw [operands, masks_append, Nat.zero_add, hfixed]
    exact ⟨masks_placeOperands _, masks_placeOperands _⟩
  · obtain ⟨d, hd⟩ : ∃ d, Descriptor.ofTypes? (args.map (·.1)) = some d :=
      ⟨_, if_pos (by simpa using h.limit)⟩
    have hvariadic : op.layout.variadic = true := hv
    refine ⟨args.map (·.1), d, ?_, ?_, hd, (if_pos hvariadic).trans hd⟩
    · refine (roles_placeOperands _).trans ?_
      simp
    · intro hmem
      obtain ⟨a, ha, hnone⟩ := List.mem_map.mp hmem
      exact h.stored a ha hnone
  · have hplain : op.layout.variadic = false := hv
    refine ⟨by simp [compose, hplain], ?_⟩
    rw [compose, h.plain hplain]
    rfl

/-- The typed arguments of a legible instruction, by their datatypes. -/
theorem Legible.exists_types {i : Instruction} (h : i.Legible) :
    ∃ types : List Datatype, i.args.map (·.role) = types.map .typed ∧
      types.length ≤ Descriptor.maxArgs ∧ Datatype.none ∉ types ∧
      (i.opcode.layout.variadic = true → ∃ d, i.descriptor = some d ∧ d.Announces types) ∧
      (i.opcode.layout.variadic = false → i.descriptor = none ∧ types = []) := by
  cases hv : i.opcode.layout.variadic with
  | true =>
    obtain ⟨types, d, hroles, hd, hid⟩ := h.variadic hv
    exact ⟨types, hroles, hd.limit, hd.stored, fun _ => ⟨d, hid, hd⟩, fun hplain => by cases hplain⟩
  | false =>
    obtain ⟨hd, ha⟩ := h.plain hv
    exact ⟨[], by simp [ha], Nat.zero_le _, List.not_mem_nil,
      fun hvariadic => absurd hvariadic Bool.false_ne_true, fun _ => ⟨hd, rfl⟩⟩

/-- A legible instruction is composed of its parts, but for its descriptor. -/
theorem Legible.exists_compose {i : Instruction} (h : i.Legible) :
    ∃ cells args, Composable i.opcode i.datatype i.mask cells args ∧
      i = { compose i.opcode i.datatype i.mask cells args with descriptor := i.descriptor } ∧
      (i.opcode.layout.variadic = true →
        ∃ d, i.descriptor = some d ∧ d.Announces (args.map (·.1))) ∧
      (i.opcode.layout.variadic = false → i.descriptor = none) := by
  obtain ⟨types, hroles, hlimit, hstored, hvariadic, hplain⟩ := h.exists_types
  have hlength : types.length = (i.args.map (·.cell)).length := by
    simpa using (congrArg List.length hroles).symm
  have hmasks := masks_append.mp h.masks
  obtain ⟨cells, hcells⟩ : ∃ cells, cells = i.fixed.map (·.cell) := ⟨_, rfl⟩
  obtain ⟨args, hargs⟩ : ∃ args, args = types.zip (i.args.map (·.cell)) := ⟨_, rfl⟩
  have htypes : args.map (·.1) = types := by
    rw [hargs]
    exact List.map_fst_zip (Nat.le_of_eq hlength)
  have hfixedLength : (i.opcode.fixedRoles i.datatype).length = i.fixed.length := by
    rw [← h.roles, List.length_map]
  have hfixedEq : (compose i.opcode i.datatype i.mask cells args).fixed = i.fixed := by
    have hzip : (i.opcode.fixedRoles i.datatype).zip cells =
        i.fixed.map fun o => (o.role, o.cell) := by
      rw [← h.roles, hcells, List.zip_map']
    rw [compose, hzip]
    exact placeOperands_eq (fun o ho => h.operands o (List.mem_append_left _ ho)) hmasks.1
  have hargsEq : (compose i.opcode i.datatype i.mask cells args).args = i.args := by
    have hzip : (args.map fun a => (Role.typed a.1, a.2)) =
        i.args.map fun o => (o.role, o.cell) := by
      have hcells : args.map (·.2) = i.args.map (·.cell) := by
        rw [hargs]
        exact List.map_snd_zip (Nat.le_of_eq hlength.symm)
      calc (args.map fun a => (Role.typed a.1, a.2))
          = (args.map fun a => Role.typed a.1).zip (args.map (·.2)) := (List.zip_map' ..).symm
        _ = (types.map Role.typed).zip (i.args.map (·.cell)) := by
          rw [hcells, ← htypes, List.map_map]
          rfl
        _ = i.args.map fun o => (o.role, o.cell) := by rw [← hroles, List.zip_map']
    rw [compose, hzip, hfixedLength]
    refine placeOperands_eq (fun o ho => h.operands o (List.mem_append_right _ ho)) ?_
    simpa using hmasks.2
  have hoperands : (compose i.opcode i.datatype i.mask cells args).operands = i.operands := by
    rw [Instruction.operands, Instruction.operands, hfixedEq, hargsEq]
  refine ⟨cells, args, ⟨?_, ?_, fun hv => ?_, fun a ha hnone => ?_, fun o ho => ?_⟩, ?_,
    fun hv => htypes ▸ hvariadic hv, fun hv => (hplain hv).1⟩
  · rw [hcells, List.length_map, hfixedLength]
  · rw [← List.length_map (f := (·.1)), htypes]
    exact hlimit
  · rw [← List.map_eq_nil_iff (f := (·.1)), htypes]
    exact (hplain hv).2
  · exact hstored (htypes ▸ List.mem_map.mpr ⟨a, ha, hnone⟩)
  · exact (h.operands o (hoperands ▸ ho)).fits
  · change i = ⟨i.opcode, i.datatype, i.mask, (compose i.opcode i.datatype i.mask cells args).fixed,
      i.descriptor, (compose i.opcode i.datatype i.mask cells args).args⟩
    rw [hfixedEq, hargsEq]

end Instruction

/-- An instruction composed of any parts is read where its encoding stands, with the size of that;
and where any bytes can be read, they are the encoding of what is read, which is composed of its
parts but for the codes of its descriptor behind those of its arguments. -/
theorem decode_compose :
    (∀ (op : Opcode) (dt : Datatype) (mask : UInt16) (cells : List Cell)
      (args : List (Datatype × Cell)), Instruction.Composable op dt mask cells args →
      ∀ pre post : List UInt8,
        decode (pre ++ (Instruction.compose op dt mask cells args).encode ++ post).toArray
            pre.length = .ok (Instruction.compose op dt mask cells args) ∧
          (Instruction.compose op dt mask cells args).size =
            (Instruction.compose op dt mask cells args).encode.length) ∧
      ∀ (code : Buffer) (pos : Nat) (i : Instruction), decode code pos = .ok i →
        headerSize ≤ i.size ∧ pos + i.size ≤ code.size ∧ code.read pos i.size = i.encode ∧
          ∃ cells args, Instruction.Composable i.opcode i.datatype i.mask cells args ∧
            i = { Instruction.compose i.opcode i.datatype i.mask cells args with
              descriptor := i.descriptor } ∧
            (i.opcode.layout.variadic = true →
              ∃ d, i.descriptor = some d ∧ d.Announces (args.map (·.1))) ∧
            (i.opcode.layout.variadic = false → i.descriptor = none) := by
  constructor
  · intro op dt mask cells args h pre post
    have hholds := Buffer.holds_of_toList (b := (pre ++
      (Instruction.compose op dt mask cells args).encode ++ post).toArray) rfl
    exact ⟨decode_of_holds h.wellFormed hholds, (Instruction.length_encode _).symm⟩
  · intro code pos i h
    obtain ⟨hlegible, hholds⟩ := decode_eq_ok_iff.mp h
    rw [Buffer.Holds, Instruction.length_encode] at hholds
    exact ⟨i.headerSize_le_size, hholds.1, hholds.2, hlegible.exists_compose⟩

/-- The cells of a foreign call with a slot for its result. -/
def printCells : List Cell := [⟨0x20⟩, ⟨0xa000000000000020⟩]

/-- A byte and a dereferenced number. -/
def printArgs : List (Datatype × Cell) := [(.u8, ⟨9⟩), (.f64, ⟨0xa000000000000028⟩)]

/-- The code of that call behind another byte, with codes in its descriptor that stand for
nothing. -/
def printCode : Buffer :=
  #[0xff, 0x56, 3, 8, 0, 0x20, 0, 0, 0, 0, 0, 0, 0, 0x20, 0, 0, 0, 0, 0, 0, 0xa0, 2, 0x94, 0xed, 0,
    0, 9, 0x28, 0, 0, 0, 0, 0, 0, 0xa0]

theorem decode_compose_print :
    Instruction.Composable .foreign .i64 8 printCells printArgs ∧
      decode ([0xff] ++ (Instruction.compose .foreign .i64 8 printCells printArgs).encode ++
        [0xee]).toArray 1 = .ok (Instruction.compose .foreign .i64 8 printCells printArgs) ∧
      ∃ i, decode printCode 1 = .ok i ∧ i.size = 34 ∧ printCode.read 1 34 = i.encode ∧
        i.descriptor ≠ Descriptor.ofTypes? (printArgs.map (·.1)) := by
  have hcomposable : Instruction.Composable .foreign .i64 8 printCells printArgs := by
    refine ⟨rfl, by decide, fun h => absurd h (by decide), by decide, ?_⟩
    unfold Cell.Fits
    decide
  have hdecode : decode printCode 1 = .ok
      { Instruction.compose .foreign .i64 8 printCells printArgs with
        descriptor := some ⟨2, 0xed94⟩ } := by rfl
  obtain ⟨hread, hwritten⟩ := decode_compose
  obtain ⟨-, -, hbytes, -⟩ := hwritten printCode 1 _ hdecode
  exact ⟨hcomposable, (hread _ _ _ _ _ hcomposable [0xff] [0xee]).1, _, hdecode, rfl, hbytes,
    by decide⟩

end CellMachine
