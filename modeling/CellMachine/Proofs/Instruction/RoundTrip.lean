import CellMachine.Instruction.Disassembly
import CellMachine.Proofs.Action
import CellMachine.Proofs.Buffer

/-!
# Decoding what was encoded

An instruction is well formed (`Instruction.WellFormed`) if its operands are those of its layout,
each encoded with the datatype of its role and zero above the size of that, and if its mask and
its descriptor say so. Where the encoding of a well-formed instruction stands in a buffer, the
decoder reads that instruction (`decode_of_holds`), whatever stands in front and behind. It does
not look at the codes of a descriptor behind those it announces, so that it is enough for an
instruction to be legible (`decode_of_legible`). What it reads from any bytes has the operands of
its layout and no more arguments than a descriptor can announce (`decode_eq_ok`).
-/

namespace CellMachine

/-! ## Cells, masks and descriptors -/

/-- The bytes of a `dt`, read back, are the low bits of the cell. -/
theorem Cell.toNat_ofBytes_bytes (c : Cell) (dt : Datatype) :
    (Cell.ofBytes (c.bytes dt)).bits.toNat = c.bits.toNat % 256 ^ dt.size := by
  have htake : (c.bytes dt).take Cell.size = c.bytes dt :=
    List.take_of_length_le (by simpa [Cell.size] using dt.size_le)
  have hlt : c.bits.toNat % 256 ^ dt.size < 2 ^ 64 :=
    Nat.lt_of_le_of_lt (Nat.mod_le _ _) c.bits.toNat_lt
  rw [Cell.ofBytes, htake, Cell.bytes, ofLittleEndian_littleEndian, UInt64.toNat_ofNat']
  exact Nat.mod_eq_of_lt hlt

/-- A cell is zero above the size of a datatype. -/
def Cell.Fits (c : Cell) (dt : Datatype) : Prop := c.bits.toNat < 256 ^ dt.size

theorem Cell.ofBytes_bytes {c : Cell} {dt : Datatype} (h : c.Fits dt) :
    Cell.ofBytes (c.bytes dt) = c := by
  have hbits := Cell.toNat_ofBytes_bytes c dt
  rw [Nat.mod_eq_of_lt h] at hbits
  cases c with
  | mk bits => exact congrArg Cell.mk (UInt64.toNat_inj.mp hbits)

theorem Cell.fits_of_size_eq {c : Cell} {dt : Datatype} (h : dt.size = 8) : c.Fits dt := by
  unfold Cell.Fits
  rw [h]
  exact c.bits.toNat_lt

/-- The mask has the bits of the operands, the first being operand `index`. -/
def Masks (mask : UInt16) : Nat → List Operand → Prop
  | _, [] => True
  | index, o :: rest => maskBit mask index = o.deref ∧ Masks mask (index + 1) rest

variable {index n pos : Nat} {i : Instruction} {os : List Operand}

theorem masks_append {mask : UInt16} {xs ys : List Operand} :
    Masks mask index (xs ++ ys) ↔ Masks mask index xs ∧ Masks mask (index + xs.length) ys := by
  induction xs generalizing index with
  | nil => simp [Masks]
  | cons o rest ih =>
    simp only [List.cons_append, Masks, ih, List.length_cons, and_assoc]
    rw [show index + (rest.length + 1) = index + 1 + rest.length by omega]

theorem maskBit_ofNat (h : index < 16) : maskBit (UInt16.ofNat n) index = n.testBit index := by
  rw [maskBit, UInt16.toNat_ofNat', Nat.testBit_mod_two_pow]
  simp [h]

theorem derefBits_testBit_zero (o : Operand) (rest : List Operand) :
    (derefBits (o :: rest)).testBit 0 = o.deref := by
  cases hd : o.deref <;> simp [derefBits, hd, Nat.testBit_zero, Nat.add_mod]

theorem derefBits_testBit_succ (o : Operand) (rest : List Operand) (k : Nat) :
    (derefBits (o :: rest)).testBit (k + 1) = (derefBits rest).testBit k := by
  have hhalf : (o.deref.toNat + 2 * derefBits rest) / 2 = derefBits rest := by
    have := o.deref.toNat_lt
    omega
  rw [derefBits, Nat.testBit_succ, hhalf]

theorem masks_of_testBit (hlen : index + os.length ≤ 16)
    (h : ∀ k, n.testBit (index + k) = (derefBits os).testBit k) :
    Masks (UInt16.ofNat n) index os := by
  induction os generalizing index with
  | nil => trivial
  | cons o rest ih =>
    simp only [List.length_cons] at hlen
    refine ⟨?_, ih (by omega) fun k => ?_⟩
    · rw [maskBit_ofNat (by omega), ← Nat.add_zero index, h, derefBits_testBit_zero]
    · rw [Nat.add_assoc, Nat.add_comm 1 k, h, derefBits_testBit_succ]

/-- The mask of at most sixteen operands has their bits. -/
theorem masks_maskOf (h : os.length ≤ 16) : Masks (maskOf os) 0 os :=
  masks_of_testBit (by omega) fun k => by rw [Nat.zero_add]

namespace Descriptor

theorem ofBytes_toBytes (d : Descriptor) : ofBytes d.toBytes = d := by
  have hcodes : d.codes.toNat % 256 ^ 4 = d.codes.toNat := Nat.mod_eq_of_lt d.codes.toNat_lt
  have htake : (littleEndian 4 d.codes.toNat).take 4 = littleEndian 4 d.codes.toNat :=
    List.take_of_length_le (by simp)
  have hread : ofLittleEndian (littleEndian 4 d.codes.toNat) = d.codes.toNat :=
    (ofLittleEndian_littleEndian 4 _).trans hcodes
  simp [ofBytes, toBytes, htake, hread]

theorem code_lt (dt : Datatype) : dt.code.toNat < 16 := by
  cases dt with
  | int signed w => cases signed <;> cases w <;> decide
  | _ => decide

theorem packCodes_lt (types : List Datatype) : packCodes types < 16 ^ types.length := by
  induction types with
  | nil => simp [packCodes]
  | cons dt rest ih =>
    have := code_lt dt
    simp only [packCodes, List.length_cons, Nat.pow_succ]
    omega

/-- Four bits of the packed codes are one code. -/
theorem packCodes_div_mod (types : List Datatype) (i : Nat) :
    packCodes types / 16 ^ i % 16 = ((types[i]?).map fun dt => dt.code.toNat).getD 0 := by
  induction types generalizing i with
  | nil => simp [packCodes]
  | cons dt rest ih =>
    have := code_lt dt
    cases i with
    | zero => simp [packCodes]; omega
    | succ i =>
      have hdiv : (dt.code.toNat + 16 * packCodes rest) / 16 = packCodes rest := by omega
      rw [packCodes, Nat.pow_succ', ← Nat.div_div_eq_div_mul, hdiv, ih]
      simp

variable {types : List Datatype} {d : Descriptor}

theorem length_le_of_ofTypes? (h : ofTypes? types = some d) : types.length ≤ maxArgs := by
  unfold ofTypes? at h
  split at h
  · assumption
  · simp at h

theorem count_of_ofTypes? (h : ofTypes? types = some d) : d.count.toNat = types.length := by
  have hlen := length_le_of_ofTypes? h
  unfold maxArgs at hlen
  unfold ofTypes? at h
  split at h
  · cases h
    exact UInt8.toNat_ofNat_of_lt' (by simp [UInt8.size]; omega)
  · simp at h

/-- A descriptor gives back the datatypes it was made of. -/
theorem datatype?_of_ofTypes? (h : ofTypes? types = some d) (i : Nat) :
    d.datatype? i = types[i]? := by
  have hcount := count_of_ofTypes? h
  have hlen := length_le_of_ofTypes? h
  have hcodes : d.codes.toNat = packCodes types := by
    unfold ofTypes? at h
    rw [if_pos hlen] at h
    cases h
    apply UInt32.toNat_ofNat_of_lt'
    calc packCodes types < 16 ^ types.length := packCodes_lt types
      _ ≤ 16 ^ 8 := Nat.pow_le_pow_right (by omega) hlen
      _ = UInt32.size := by decide
  unfold datatype?
  rw [Nat.pow_eq, hcount, hcodes, packCodes_div_mod]
  split
  · next hi =>
    rw [List.getElem?_eq_getElem hi]
    simp [Datatype.ofCode?_code]
  · next hi => rw [List.getElem?_eq_none (by omega)]

/-- A descriptor announces arguments of these datatypes. The codes behind them may be anything. -/
structure Announces (d : Descriptor) (types : List Datatype) : Prop where
  count : d.count.toNat = types.length
  limit : types.length ≤ maxArgs
  datatypes : ∀ k, d.datatype? k = types[k]?
  stored : Datatype.none ∉ types

theorem announces_of_ofTypes? (h : ofTypes? types = some d) (hnone : Datatype.none ∉ types) :
    d.Announces types :=
  ⟨count_of_ofTypes? h, length_le_of_ofTypes? h, datatype?_of_ofTypes? h, hnone⟩

end Descriptor

/-! ## Operands -/

/-- An operand of an instruction with datatype `dt` is encoded with the datatype of its role, and
its cell is zero above the size of that. -/
structure Operand.WellFormed (dt : Datatype) (o : Operand) : Prop where
  datatype_eq : o.datatype = o.role.encodedDatatype dt o.deref
  fits : o.cell.Fits o.datatype

@[simp]
theorem Operand.length_encode (o : Operand) : o.encode.length = o.datatype.size := by
  simp [Operand.encode]

theorem encodeOperands_cons (o : Operand) (os : List Operand) :
    encodeOperands (o :: os) = o.encode ++ encodeOperands os := by
  simp [encodeOperands]

section Reading

variable {code : Buffer} {dt : Datatype} {mask : UInt16}

variable {index pos : Nat}

theorem takeBytes_of_holds {bs : List UInt8} (h : code.Holds pos bs) :
    takeBytes code pos bs.length = .ok bs := by
  unfold takeBytes
  rw [if_pos h.1, h.2]

theorem readOperand_of_holds {o : Operand} (ho : o.WellFormed dt)
    (hmask : maskBit mask index = o.deref) (h : code.Holds pos o.encode) :
    readOperand code dt mask o.role index pos = .ok o := by
  have htake := takeBytes_of_holds h
  rw [Operand.length_encode] at htake
  have hcell : Cell.ofBytes o.encode = o.cell := Cell.ofBytes_bytes ho.fits
  unfold readOperand
  simp only [hmask, ← ho.datatype_eq, htake, bind, Except.bind, pure, Except.pure, hcell]

theorem readFixed_of_holds {os : List Operand} (hos : ∀ o ∈ os, o.WellFormed dt)
    (hmask : Masks mask index os) (h : code.Holds pos (encodeOperands os)) :
    readFixed code dt mask index pos (os.map (·.role)) = .ok os := by
  induction os generalizing index pos with
  | nil => rfl
  | cons o rest ih =>
    rw [encodeOperands_cons, Buffer.holds_append, Operand.length_encode] at h
    have hread := readOperand_of_holds (hos o (by simp)) hmask.1 h.1
    have hrest := ih (fun x hx => hos x (by simp [hx])) hmask.2 h.2
    simp only [List.map_cons, readFixed, hread, hrest, bind, Except.bind, pure, Except.pure]

/-- The typed arguments from the `i`-th on are read if the descriptor has their datatypes. -/
theorem readArgs_of_holds {d : Descriptor} {types : List Datatype} {os : List Operand}
    {descriptorAt i : Nat} (hroles : os.map (·.role) = types.map .typed)
    (htypes : ∀ k, d.datatype? (i + k) = types[k]?) (hnone : Datatype.none ∉ types)
    (hos : ∀ o ∈ os, o.WellFormed dt) (hmask : Masks mask index os)
    (h : code.Holds pos (encodeOperands os)) :
    readArgs code dt mask d descriptorAt i index pos types.length = .ok os := by
  induction types generalizing os i index pos with
  | nil =>
    obtain rfl : os = [] := List.map_eq_nil_iff.mp hroles
    rfl
  | cons t rest ih =>
    obtain ⟨o, os, rfl, hrole, hroles⟩ := List.map_eq_cons_iff.mp hroles
    rw [encodeOperands_cons, Buffer.holds_append, Operand.length_encode] at h
    have ht : d.datatype? i = some t := by simpa using htypes 0
    have hrest : ∀ k, d.datatype? (i + 1 + k) = rest[k]? := by
      intro k
      simpa [Nat.add_assoc, Nat.add_comm 1 k] using htypes (k + 1)
    have hread := readOperand_of_holds (hos o (by simp)) hmask.1 h.1
    rw [hrole] at hread
    have hargs := ih hroles hrest (fun hn => hnone (by simp [hn]))
      (fun x hx => hos x (by simp [hx])) hmask.2 h.2
    have hne : t ≠ .none := fun htn => hnone (by simp [htn])
    simp only [List.length_cons, readArgs, ht, hread, hargs, bind, Except.bind, pure, Except.pure]

end Reading

/-! ## Instructions -/

/-- An instruction has the operands of its layout, each well formed, the mask that its operands
ask for, and the descriptor of its typed arguments. -/
structure Instruction.WellFormed (i : Instruction) : Prop where
  roles : i.fixed.map (·.role) = i.opcode.fixedRoles i.datatype
  operands : ∀ o ∈ i.operands, o.WellFormed i.datatype
  masks : Masks i.mask 0 i.operands
  variadic : i.opcode.layout.variadic = true → ∃ types d, i.args.map (·.role) = types.map .typed ∧
    Datatype.none ∉ types ∧ Descriptor.ofTypes? types = some d ∧ i.descriptor = some d
  plain : i.opcode.layout.variadic = false → i.descriptor = none ∧ i.args = []

/-- An instruction is well formed but for the codes of its descriptor behind those of its typed
arguments. -/
structure Instruction.Legible (i : Instruction) : Prop where
  roles : i.fixed.map (·.role) = i.opcode.fixedRoles i.datatype
  operands : ∀ o ∈ i.operands, o.WellFormed i.datatype
  masks : Masks i.mask 0 i.operands
  variadic : i.opcode.layout.variadic = true → ∃ types d, i.args.map (·.role) = types.map .typed ∧
    d.Announces types ∧ i.descriptor = some d
  plain : i.opcode.layout.variadic = false → i.descriptor = none ∧ i.args = []

theorem Instruction.WellFormed.legible (h : i.WellFormed) : i.Legible where
  roles := h.roles
  operands := h.operands
  masks := h.masks
  variadic hv := by
    obtain ⟨types, d, hroles, hnone, hd, hid⟩ := h.variadic hv
    exact ⟨types, d, hroles, Descriptor.announces_of_ofTypes? hd hnone, hid⟩
  plain := h.plain

theorem length_encodeHeader (op : Opcode) (dt : Datatype) (mask : UInt16) :
    (encodeHeader op dt mask).length = headerSize := by
  simp [encodeHeader, headerSize]

/-- The parts of an encoded instruction, each at its place. -/
theorem Instruction.holds_parts {code : Buffer} (h : code.Holds pos i.encode) :
    code.Holds pos (encodeHeader i.opcode i.datatype i.mask) ∧
      code.Holds (pos + headerSize) (encodeOperands i.fixed) ∧
      code.Holds (pos + headerSize + operandsSize i.fixed) i.encodeDescriptor ∧
      code.Holds (pos + headerSize + operandsSize i.fixed + i.encodeDescriptor.length)
        (encodeOperands i.args) := by
  unfold Instruction.encode at h
  simp only [Buffer.holds_append, List.length_append, length_encodeHeader, length_encodeOperands,
    ← Nat.add_assoc] at h
  exact ⟨h.1.1.1, h.1.1.2, h.1.2, h.2⟩

theorem takeBytes_header {code : Buffer} {op : Opcode} {dt : Datatype} {mask : UInt16}
    (h : code.Holds pos (encodeHeader op dt mask)) :
    takeBytes code pos 1 = .ok [op.byte] ∧ takeBytes code (pos + 1) 1 = .ok [dt.code] ∧
      takeBytes code (pos + 2) 2 = .ok (littleEndian 2 mask.toNat) := by
  have hsplit : encodeHeader op dt mask =
      [op.byte] ++ ([dt.code] ++ littleEndian 2 mask.toNat) := rfl
  rw [hsplit, Buffer.holds_append, Buffer.holds_append] at h
  exact ⟨takeBytes_of_holds h.1, takeBytes_of_holds h.2.1, takeBytes_of_holds h.2.2⟩

theorem ofLittleEndian_mask (mask : UInt16) :
    UInt16.ofNat (ofLittleEndian (littleEndian 2 mask.toNat)) = mask := by
  have hlt : mask.toNat < 256 ^ 2 := mask.toNat_lt
  rw [ofLittleEndian_littleEndian, Nat.mod_eq_of_lt hlt, UInt16.ofNat_toNat]

/-- The decoder reads a legible instruction where its encoding stands. -/
theorem decode_of_legible {code : Buffer} (hi : i.Legible) (h : code.Holds pos i.encode) :
    decode code pos = .ok i := by
  obtain ⟨hheader, hfixed, hdesc, hargs⟩ := Instruction.holds_parts h
  obtain ⟨hb, hc, hm⟩ := takeBytes_header hheader
  have hmasks := masks_append.mp hi.masks
  have hfixedRead := readFixed_of_holds
    (fun o ho => hi.operands o (by simp [Instruction.operands, ho])) hmasks.1 hfixed
  rw [hi.roles] at hfixedRead
  unfold decode
  simp only [hb, hc, hm, ofLittleEndian_mask, hfixedRead, List.headD_cons, Opcode.ofByte?_byte,
    Datatype.ofCode?_code, bind, Except.bind, pure, Except.pure]
  cases hv : i.opcode.layout.variadic with
  | false =>
    obtain ⟨hd, ha⟩ := hi.plain hv
    simp only [Bool.false_eq_true, if_false, ← hd, ← ha]
  | true =>
    obtain ⟨types, d, hroles, hd, hid⟩ := hi.variadic hv
    have hbytes : i.encodeDescriptor = d.toBytes := by simp [Instruction.encodeDescriptor, hid]
    rw [hbytes] at hdesc hargs
    have hdescRead := takeBytes_of_holds hdesc
    rw [Descriptor.length_toBytes] at hdescRead hargs
    have htypes : ∀ k, d.datatype? (0 + k) = types[k]? := fun k => by
      rw [Nat.zero_add, hd.datatypes]
    have hargsRead : readArgs code i.datatype i.mask d (pos + headerSize + operandsSize i.fixed) 0
        i.fixed.length (pos + headerSize + operandsSize i.fixed + Descriptor.size) types.length =
          .ok i.args :=
      readArgs_of_holds hroles htypes hd.stored
        (fun o ho => hi.operands o (by simp [Instruction.operands, ho]))
        (by simpa using hmasks.2) hargs
    simp only [if_true, hdescRead, Descriptor.ofBytes_toBytes, hd.count,
      if_neg (Nat.not_lt.mpr hd.limit), hargsRead, ← hid]

/-- The decoder reads a well-formed instruction where its encoding stands. -/
theorem decode_of_holds {code : Buffer} (hi : i.WellFormed) (h : code.Holds pos i.encode) :
    decode code pos = .ok i := decode_of_legible hi.legible h

/-! ## What any bytes decode to -/

theorem length_readFixed {code : Buffer} {dt : Datatype} {mask : UInt16} {roles : List Role}
    (h : readFixed code dt mask index pos roles = .ok os) : os.length = roles.length := by
  induction roles generalizing index pos os with
  | nil =>
    cases h
    rfl
  | cons role rest ih =>
    obtain ⟨o, -, h⟩ := except_bind_eq_ok.mp h
    obtain ⟨os', hrest, h⟩ := except_bind_eq_ok.mp h
    cases h
    rw [List.length_cons, List.length_cons, ih hrest]

theorem length_readArgs {code : Buffer} {dt : Datatype} {mask : UInt16} {d : Descriptor}
    {descriptorAt i : Nat} (h : readArgs code dt mask d descriptorAt i index pos n = .ok os) :
    os.length = n := by
  induction n generalizing i index pos os with
  | zero =>
    cases h
    rfl
  | succ n ih =>
    unfold readArgs at h
    split at h
    · cases h
    · cases h
    · obtain ⟨o, -, h⟩ := except_bind_eq_ok.mp h
      obtain ⟨os', hrest, h⟩ := except_bind_eq_ok.mp h
      cases h
      rw [List.length_cons, ih hrest]

/-- What the decoder has read where it succeeds. -/
structure Decoded (code : Buffer) (pos : Nat) (i : Instruction) : Prop where
  opcode : ∃ bs, takeBytes code pos 1 = .ok bs ∧ Opcode.ofByte? (bs.headD 0) = some i.opcode
  datatype : ∃ bs, takeBytes code (pos + 1) 1 = .ok bs ∧
    Datatype.ofCode? (bs.headD 0) = some i.datatype
  mask : ∃ bs, takeBytes code (pos + 2) 2 = .ok bs ∧ i.mask = UInt16.ofNat (ofLittleEndian bs)
  fixed : readFixed code i.datatype i.mask 0 (pos + headerSize) (i.opcode.fixedRoles i.datatype) =
    .ok i.fixed
  variadic : i.opcode.layout.variadic = true → ∃ bs,
    takeBytes code (pos + headerSize + operandsSize i.fixed) Descriptor.size = .ok bs ∧
      i.descriptor = some (.ofBytes bs) ∧
      (Descriptor.ofBytes bs).count.toNat ≤ Descriptor.maxArgs ∧
      readArgs code i.datatype i.mask (.ofBytes bs) (pos + headerSize + operandsSize i.fixed) 0
        i.fixed.length (pos + headerSize + operandsSize i.fixed + Descriptor.size)
        (Descriptor.ofBytes bs).count.toNat = .ok i.args
  plain : i.opcode.layout.variadic = false → i.descriptor = none ∧ i.args = []

theorem decoded_of_decode {code : Buffer} (h : decode code pos = .ok i) : Decoded code pos i := by
  unfold decode at h
  obtain ⟨bs, hbs, h⟩ := except_bind_eq_ok.mp h
  dsimp only at h
  cases hop : Opcode.ofByte? (bs.headD 0) with
  | none => rw [hop] at h; cases h
  | some op =>
  rw [hop] at h
  obtain ⟨_, hok, h⟩ := except_bind_eq_ok.mp h
  cases hok
  obtain ⟨cs, hcs, h⟩ := except_bind_eq_ok.mp h
  cases hdt : Datatype.ofCode? (cs.headD 0) with
  | none => rw [hdt] at h; cases h
  | some dt =>
  rw [hdt] at h
  obtain ⟨_, hok, h⟩ := except_bind_eq_ok.mp h
  cases hok
  obtain ⟨ms, hms, h⟩ := except_bind_eq_ok.mp h
  obtain ⟨fixed, hfixed, h⟩ := except_bind_eq_ok.mp h
  split at h
  · next hvariadic =>
    obtain ⟨ds, hds, h⟩ := except_bind_eq_ok.mp h
    split at h
    · cases h
    · next hcount =>
      obtain ⟨args, hargs, h⟩ := except_bind_eq_ok.mp h
      cases h
      exact ⟨⟨bs, hbs, hop⟩, ⟨cs, hcs, hdt⟩, ⟨ms, hms, rfl⟩, hfixed,
        fun _ => ⟨ds, hds, rfl, Nat.le_of_not_lt hcount, hargs⟩,
        fun hplain => by rw [hplain] at hvariadic; cases hvariadic⟩
  · next hplain =>
    cases h
    exact ⟨⟨bs, hbs, hop⟩, ⟨cs, hcs, hdt⟩, ⟨ms, hms, rfl⟩, hfixed,
      fun hvariadic => absurd hvariadic hplain, fun _ => ⟨rfl, rfl⟩⟩

/-- What the decoder reads from any bytes has the operands of its layout, and no more arguments
than a descriptor can announce. -/
theorem decode_eq_ok {code : Buffer} (h : decode code pos = .ok i) :
    readFixed code i.datatype i.mask 0 (pos + headerSize) (i.opcode.fixedRoles i.datatype) =
        .ok i.fixed ∧
      i.args.length ≤ Descriptor.maxArgs := by
  have hi := decoded_of_decode h
  refine ⟨hi.fixed, ?_⟩
  cases hv : i.opcode.layout.variadic with
  | true =>
    obtain ⟨_, -, -, hcount, hargs⟩ := hi.variadic hv
    rwa [length_readArgs hargs]
  | false =>
    rw [(hi.plain hv).2]
    exact Nat.zero_le _

theorem length_args_of_decode {code : Buffer} (h : decode code pos = .ok i) :
    i.args.length ≤ Descriptor.maxArgs := (decode_eq_ok h).2

end CellMachine
