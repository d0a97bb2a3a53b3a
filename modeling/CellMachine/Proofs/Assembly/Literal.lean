import CellMachine.Proofs.Assembly.Conversion
import CellMachine.Proofs.Assembly.Written
import CellMachine.Proofs.Token.Integer

/-!
# Integers in the code

An integer of the source text goes to one of three places. As an operand it is checked against the
range of its datatype (`Datatype.InRange`), and its bytes are read back as the number that is
spelled (`IntegerText.stored_of_toValue?`). Behind the mark of a frame slot it becomes the offset of
an address, which has 61 bits of the 64 that a literal has (`IntegerText.offset_frameAddress`). As
the size of static data it is the number of zeros that are put behind the data so far
(`Asm.staticData_eq_ok_iff`).
-/

namespace CellMachine

/-! ## Ranges -/

/-- Whether an integer can be stored as a `dt`. Floating-point types take every integer and round
it, and types are stored as their codes. -/
def Datatype.InRange : Datatype → Int → Prop
  | .int true w, n => -2 ^ (w.bits - 1) ≤ n ∧ n < 2 ^ (w.bits - 1)
  | .int false w, n => 0 ≤ n ∧ n < 2 ^ w.bits
  | .f32, _ | .f64, _ => True
  | .bool, n => n = 0 ∨ n = 1
  | .addr, n => 0 ≤ n ∧ n < 2 ^ 64
  | .type, n => ∃ t ∈ Datatype.all, n = t.code.toNat
  | .none, _ => False

namespace Value

theorem isSome_datatypeOfInt?_iff {n : Int} :
    (datatypeOfInt? n).isSome = true ↔ ∃ t ∈ Datatype.all, n = t.code.toNat := by
  constructor
  · intro h
    obtain ⟨t, ht⟩ := Option.isSome_iff_exists.mp h
    have htype : ofInt? n .type = some (.type t) := Option.map_eq_some_iff.mpr ⟨t, ht, rfl⟩
    have hnumber := Numeral.integer.inj (toNumeral_of_ofInt? htype rfl)
    exact ⟨t, List.mem_of_find?_eq_some (Datatype.ofCode?_code t), hnumber.symm⟩
  · rintro ⟨t, -, rfl⟩
    have hlt := t.code.toNat_lt
    unfold datatypeOfInt?
    rw [if_pos ⟨Int.natCast_nonneg _, by omega⟩, Int.toNat_natCast, UInt8.ofNat_toNat,
      Datatype.ofCode?_code]
    rfl

/-- The integers that become a `dt` are those in its range. -/
theorem isSome_ofInt?_iff {n : Int} {dt : Datatype} :
    (ofInt? n dt).isSome = true ↔ dt.InRange n := by
  cases dt with
  | int signed w =>
    cases signed with
    | true => simp [ofInt?, minInt, maxInt, Datatype.InRange]
    | false => simp [ofInt?, minInt, maxInt, Datatype.InRange]
  | f32 | f64 => simp [ofInt?, Datatype.InRange]
  | bool =>
    simp only [ofInt?, Datatype.InRange]
    split
    · simp_all
    · split <;> simp_all
  | addr => simp [ofInt?, word?, Datatype.InRange, UInt64.size]
  | type => simpa [ofInt?, Datatype.InRange] using isSome_datatypeOfInt?_iff
  | none => simp [ofInt?, Datatype.InRange]

/-- The bytes of a value are read back as the value. -/
theorem ofCell?_ofBytes (v : Value) :
    ofCell? v.datatype (Cell.ofBytes (v.toCell.bytes v.datatype)) = some v := by
  rw [Cell.ofBytes_bytes v.fits_toCell, ofCell?_toCell]

end Value

/-! ## Operands -/

namespace IntegerText

variable {x : IntegerText} {dt : Datatype} {v : Value}

/-- The literal that is read from an integer. -/
def literal (x : IntegerText) : IntLiteral := ⟨x.isNegative, x.magnitude⟩

/-- What stands for the number of an integer in the code : as many bytes as its datatype has, which
are read back as the number. -/
structure Stored (x : IntegerText) (dt : Datatype) (bytes : List UInt8) : Prop where
  length : bytes.length = dt.size
  value : ∃ v, Value.ofCell? dt (Cell.ofBytes bytes) = some v ∧ v.toNumeral = .integer x.toInt

theorem stored_of_toValue? (h : x.literal.toValue? dt = some v) (hdt : dt.isFloat = false) :
    x.Stored dt (v.toCell.bytes dt) := by
  obtain rfl := Value.datatype_of_ofInt? h
  exact ⟨Cell.length_bytes _ _, v, v.ofCell?_ofBytes, Value.toNumeral_of_ofInt? h hdt⟩

theorem isSome_toValue?_iff : (x.literal.toValue? dt).isSome = true ↔ dt.InRange x.toInt :=
  Value.isSome_ofInt?_iff

theorem ofText?_eq_some_iff {l : IntLiteral} :
    IntLiteral.ofText? x.text = some l ↔ x.magnitude < 2 ^ 64 ∧ l = x.literal := by
  rw [x.ofText?_text, Option.ite_none_right_eq_some, Option.some.injEq, eq_comm (b := l)]
  rfl

theorem ofText?_of_lt (h : x.magnitude < 2 ^ 64) : IntLiteral.ofText? x.text = some x.literal :=
  ofText?_eq_some_iff.mpr ⟨h, rfl⟩

theorem ofText?_eq_none (h : 2 ^ 64 ≤ x.magnitude) : IntLiteral.ofText? x.text = none := by
  rw [x.ofText?_text]
  exact if_neg (Nat.not_lt.mpr h)

end IntegerText

namespace Parser

variable {c : Cursor} {x : IntegerText}

/-- An operand is its term behind a mark or none. -/
theorem operand_eq (c : Cursor) : operand c =
    if c.current.kind = .deref then
      (do return ⟨true, ← term, c.next.current⟩ : Parser SourceOperand) c.next
    else (do return ⟨false, ← term, c.current⟩ : Parser SourceOperand) c := by
  have hmark : at? .deref c = .ok (c.current.kind == .deref) c := rfl
  by_cases h : c.current.kind = .deref
  · rw [if_pos h]
    rw [beq_iff_eq.mpr h] at hmark
    exact bind_of_ok hmark _
  · rw [if_neg h]
    rw [beq_eq_false_iff_ne.mpr h] at hmark
    exact bind_of_ok hmark _

theorem operand_of_integer (hkind : c.current.kind = .integer) (htext : c.current.text = x.text)
    (h : x.magnitude < 2 ^ 64) :
    operand c = .ok ⟨false, .integer x.literal, c.current⟩ c.next := by
  have hliteral : IntLiteral.ofText? c.current.text = some x.literal := by
    rw [htext, IntegerText.ofText?_of_lt h]
  rw [operand_eq, if_neg (by simp [hkind])]
  exact bind_eq_ok.mpr ⟨_, _, term_of_literal hkind hliteral, rfl⟩

theorem operand_of_integer_error (hkind : c.current.kind = .integer)
    (htext : c.current.text = x.text) (h : 2 ^ 64 ≤ x.magnitude) :
    operand c = .error ⟨.invalidLiteral x.text, c.current.position⟩ c.next := by
  have hterm : term c = .error ⟨.invalidLiteral x.text, c.current.position⟩ c.next := by
    refine bind_eq_error.mpr (.inr ⟨_, _, rfl, ?_⟩)
    rw [hkind]
    refine bind_eq_error.mpr (.inr ⟨(), c.next, rfl, ?_⟩)
    rw [htext, IntegerText.ofText?_eq_none h]
    rfl
  rw [operand_eq, if_neg (by simp [hkind])]
  exact bind_eq_error.mpr (.inl hterm)

end Parser

namespace Asm

/-- An operand without a value is refused at its token. -/
theorem writeOperand_of_error {o : SourceOperand} {role : Role} {dt : Datatype}
    {kind : AssemblyErrorKind} (hname : ∀ n, o.term ≠ .name n) (htext : ∀ t, o.term ≠ .text t)
    (h : o.value? (role.encodedDatatype dt o.deref) = .error kind) (s : Assembler) :
    writeOperand o role dt s = .error ⟨kind, o.token.position⟩ s := by
  have hcell (offset : Nat) : operandCell o offset (role.encodedDatatype dt o.deref) s =
      .error ⟨kind, o.token.position⟩ s := by
    have hread : (do return (← Parser.literalValue o (role.encodedDatatype dt o.deref)).toCell :
        Asm Cell) s = .error ⟨kind, o.token.position⟩ s := by
      refine bind_eq_error.mpr (.inl ?_)
      unfold Parser.literalValue
      rw [h]
      rfl
    unfold operandCell
    cases hterm : o.term with
    | name n => exact absurd hterm (hname n)
    | text t => exact absurd hterm (htext t)
    | _ => exact hread
  exact bind_eq_error.mpr (.inr ⟨_, _, rfl, bind_eq_error.mpr (.inl (hcell _))⟩)

/-- Takes an operand and appends it to the code, as instructions do with all operands but the
numbers they convert. -/
def takeOperand (role : Role) (dt : Datatype) : Asm Operand := do
  writeOperand (← Parser.operand) role dt

variable {s : Assembler} {x : IntegerText} {role : Role} {dt : Datatype}

/-- An integer in range is appended with the bytes that stand for it. -/
theorem takeOperand_of_inRange (hkind : s.cursor.current.kind = .integer)
    (htext : s.cursor.current.text = x.text) (hlt : x.magnitude < 2 ^ 64)
    (hrange : (role.encodedDatatype dt false).InRange x.toInt)
    (hfloat : (role.encodedDatatype dt false).isFloat = false) :
    ∃ bytes, x.Stored (role.encodedDatatype dt false) bytes ∧ takeOperand role dt s =
      .ok ⟨role, role.encodedDatatype dt false, false, .ofBytes bytes⟩
        ((s.movedTo s.cursor.next).appendCode bytes) := by
  obtain ⟨v, hv⟩ := Option.isSome_iff_exists.mp (IntegerText.isSome_toValue?_iff.mpr hrange)
  have hdatatype := Value.datatype_of_ofInt? hv
  let o : SourceOperand := ⟨false, .integer x.literal, s.cursor.current⟩
  have hvalue : o.value? v.datatype = .ok v := by
    rw [hdatatype]
    exact (SourceOperand.value?_integer_iff rfl rfl).mpr hv
  have hwrite := writeOperand_of_value? hdatatype hvalue (s.movedTo s.cursor.next)
  refine ⟨_, IntegerText.stored_of_toValue? hv hfloat, ?_⟩
  rw [← hdatatype, Cell.ofBytes_bytes v.fits_toCell]
  exact (ofParser_bind_of_ok (Parser.operand_of_integer hkind htext hlt) _).trans hwrite

/-- An integer out of range is refused. -/
theorem takeOperand_of_not_inRange (hkind : s.cursor.current.kind = .integer)
    (htext : s.cursor.current.text = x.text) (hlt : x.magnitude < 2 ^ 64)
    (hrange : ¬ (role.encodedDatatype dt false).InRange x.toInt) :
    takeOperand role dt s = .error ⟨.integerOutOfRange x.text (role.encodedDatatype dt false),
      s.cursor.current.position⟩ (s.movedTo s.cursor.next) := by
  have hnone : x.literal.toValue? (role.encodedDatatype dt false) = none := by
    rw [← Option.not_isSome_iff_eq_none, IntegerText.isSome_toValue?_iff]
    exact hrange
  let o : SourceOperand := ⟨false, .integer x.literal, s.cursor.current⟩
  have hvalue : o.value? (role.encodedDatatype dt o.deref) =
      .error (.integerOutOfRange x.text (role.encodedDatatype dt false)) := by
    simp [o, SourceOperand.value?, hnone, htext]
  unfold takeOperand
  rw [ofParser_bind_of_ok (Parser.operand_of_integer hkind htext hlt),
    writeOperand_of_error (by simp) (by simp) hvalue]

theorem takeOperand_of_long (hkind : s.cursor.current.kind = .integer)
    (htext : s.cursor.current.text = x.text) (h : 2 ^ 64 ≤ x.magnitude) :
    takeOperand role dt s = .error ⟨.invalidLiteral x.text, s.cursor.current.position⟩
      (s.movedTo s.cursor.next) :=
  ofParser_bind_of_error (Parser.operand_of_integer_error hkind htext h) _

end Asm

/-- Every integer that the scanner makes is spelled with a sign or none, a mark or none, and digits.
It can be read as a `dt` exactly if its digits stay within 64 bits and its number is in the range of
`dt`, and the bytes are then those of the number. The assembler appends such bytes to the code where
it takes the integer as an operand, and refuses all other integers. -/
theorem integer_stored_exactly {source : String} {tokens : Array Token} {t : Token}
    (hsource : tokenize source = .ok tokens) (ht : t ∈ tokens) (hkind : t.kind = .integer) :
    ∃ x : IntegerText, t.text = x.text ∧ ∀ dt : Datatype, dt.isFloat = false →
      ((∃ l v, IntLiteral.ofText? t.text = some l ∧ l.toValue? dt = some v) ↔
        x.magnitude < 2 ^ 64 ∧ dt.InRange x.toInt) ∧
      (∀ l v, IntLiteral.ofText? t.text = some l → l.toValue? dt = some v →
        x.Stored dt (v.toCell.bytes dt)) ∧
      ∀ (role : Role) (instruction : Datatype) (s : Assembler),
        role.encodedDatatype instruction false = dt → s.cursor.current = t →
        (x.magnitude < 2 ^ 64 → dt.InRange x.toInt →
          ∃ bytes, x.Stored dt bytes ∧ Asm.takeOperand role instruction s =
            .ok ⟨role, dt, false, .ofBytes bytes⟩ ((s.movedTo s.cursor.next).appendCode bytes)) ∧
        (x.magnitude < 2 ^ 64 → ¬ dt.InRange x.toInt →
          Asm.takeOperand role instruction s =
            .error ⟨.integerOutOfRange t.text dt, t.position⟩ (s.movedTo s.cursor.next)) ∧
        (2 ^ 64 ≤ x.magnitude →
          Asm.takeOperand role instruction s =
            .error ⟨.invalidLiteral t.text, t.position⟩ (s.movedTo s.cursor.next)) := by
  obtain ⟨x, hx⟩ := exists_integerText hsource ht hkind
  refine ⟨x, hx, fun dt hfloat => ⟨?_, ?_, ?_⟩⟩
  · rw [hx]
    constructor
    · rintro ⟨l, v, hl, hv⟩
      obtain ⟨hlt, rfl⟩ := IntegerText.ofText?_eq_some_iff.mp hl
      exact ⟨hlt, IntegerText.isSome_toValue?_iff.mp (Option.isSome_iff_exists.mpr ⟨v, hv⟩)⟩
    · rintro ⟨hlt, hrange⟩
      obtain ⟨v, hv⟩ := Option.isSome_iff_exists.mp (IntegerText.isSome_toValue?_iff.mpr hrange)
      exact ⟨_, v, IntegerText.ofText?_of_lt hlt, hv⟩
  · intro l v hl hv
    rw [hx] at hl
    obtain ⟨-, rfl⟩ := IntegerText.ofText?_eq_some_iff.mp hl
    exact IntegerText.stored_of_toValue? hv hfloat
  · rintro role instruction s rfl rfl
    rw [hx]
    exact ⟨fun hlt hrange => Asm.takeOperand_of_inRange hkind hx hlt hrange hfloat,
      Asm.takeOperand_of_not_inRange hkind hx, Asm.takeOperand_of_long hkind hx⟩

/-- The least number of an `i8` is stored in one byte. -/
theorem integer_stored_exactly_least :
    tokenize "-0X80" = .ok #[⟨.integer, "-0X80", ⟨1, 1⟩⟩, .endOfCode ⟨1, 6⟩] ∧
      ∃ x : IntegerText, "-0X80" = x.text ∧ Datatype.InRange .i8 x.toInt ∧ x.Stored .i8 [0x80] := by
  have hsource : tokenize "-0X80" = .ok #[⟨.integer, "-0X80", ⟨1, 1⟩⟩, .endOfCode ⟨1, 6⟩] := by
    decide +kernel
  have hliteral : IntLiteral.ofText? "-0X80" = some ⟨true, 128⟩ := by decide +kernel
  have hvalue : IntLiteral.toValue? ⟨true, 128⟩ .i8 = some (.int true .w8 0x80) := by decide +kernel
  obtain ⟨x, hx, hstored⟩ := integer_stored_exactly hsource (Array.mem_of_getElem? (i := 0) rfl) rfl
  obtain ⟨hreads, hbytes, -⟩ := hstored .i8 rfl
  exact ⟨hsource, x, hx, (hreads.mp ⟨_, _, hliteral, hvalue⟩).2, hbytes _ _ hliteral hvalue⟩

/-! ## Frame slots -/

namespace IntegerText

/-- The address of the frame slot that an integer names. -/
def frameAddress (x : IntegerText) : Address :=
  .make (if x.isNegative then .frameSub else .frameAdd) (UInt64.ofNat x.magnitude)

theorem base?_frameAddress (x : IntegerText) :
    x.frameAddress.base? = some (if x.isNegative then .frameSub else .frameAdd) :=
  Address.base?_make _ _

/-- An offset has 61 bits, and those of the integer above them are cut off. -/
theorem offset_frameAddress (x : IntegerText) :
    x.frameAddress.offset.toNat = x.magnitude % 2 ^ 61 := by
  unfold frameAddress
  rw [Address.offset_make, Address.toNat_offsetMask_and, UInt64.toNat_ofNat']
  omega

end IntegerText

/-- The words of a frame slot, perhaps dereferenced. -/
def frameWords (deref : Bool) (x : IntegerText) : Words :=
  if deref then [(.deref, "@"), (.frame, "~"), (.integer, x.text)]
  else [(.frame, "~"), (.integer, x.text)]

/-- The cursor at the integer of a frame slot. -/
def Cursor.atSlot (c : Cursor) (deref : Bool) : Cursor := if deref then c.next.next else c.next

namespace Parser

variable {c : Cursor} {x : IntegerText} {deref : Bool} {ws : Words}

theorem term_of_frame (h : c.Ahead ((.frame, "~") :: (.integer, x.text) :: ws))
    (hlt : x.magnitude < 2 ^ 64) : term c = .ok (.address x.frameAddress) c.next.next := by
  have hslot := frameSlot_of_literal (IntegerText.ofText?_of_lt hlt) h
  refine bind_eq_ok.mpr ⟨_, _, rfl, ?_⟩
  rw [h.kind]
  exact hslot

theorem term_of_frame_error (h : c.Ahead ((.frame, "~") :: (.integer, x.text) :: ws))
    (hlong : 2 ^ 64 ≤ x.magnitude) :
    term c = .error ⟨.invalidLiteral x.text, c.next.current.position⟩ c.next.next := by
  refine bind_eq_error.mpr (.inr ⟨_, _, rfl, ?_⟩)
  rw [h.kind]
  refine bind_eq_error.mpr (.inr ⟨(), c.next, rfl, bind_eq_error.mpr (.inr
    ⟨_, _, expect_of_ahead h.next, ?_⟩)⟩)
  rw [h.next.text, IntegerText.ofText?_eq_none hlong]
  rfl

theorem operand_of_frame (h : c.Ahead (frameWords deref x ++ ws)) (hlt : x.magnitude < 2 ^ 64) :
    ∃ token, operand c = .ok ⟨deref, .address x.frameAddress, token⟩ (c.atSlot deref).next := by
  cases deref with
  | true =>
    have h : c.Ahead ((.deref, "@") :: (.frame, "~") :: (.integer, x.text) :: ws) := h
    rw [operand_eq, if_pos h.kind]
    exact ⟨_, bind_eq_ok.mpr ⟨_, _, term_of_frame h.next hlt, rfl⟩⟩
  | false =>
    have h : c.Ahead ((.frame, "~") :: (.integer, x.text) :: ws) := h
    rw [operand_eq, if_neg (by simp [h.kind])]
    exact ⟨_, bind_eq_ok.mpr ⟨_, _, term_of_frame h hlt, rfl⟩⟩

theorem operand_of_frame_error (h : c.Ahead (frameWords deref x ++ ws))
    (hlong : 2 ^ 64 ≤ x.magnitude) :
    operand c = .error ⟨.invalidLiteral x.text, (c.atSlot deref).current.position⟩
      (c.atSlot deref).next := by
  cases deref with
  | true =>
    have h : c.Ahead ((.deref, "@") :: (.frame, "~") :: (.integer, x.text) :: ws) := h
    rw [operand_eq, if_pos h.kind]
    exact bind_eq_error.mpr (.inl (term_of_frame_error h.next hlong))
  | false =>
    have h : c.Ahead ((.frame, "~") :: (.integer, x.text) :: ws) := h
    rw [operand_eq, if_neg (by simp [h.kind])]
    exact bind_eq_error.mpr (.inl (term_of_frame_error h hlong))

end Parser

/-- An address has a value wherever there is room for one. -/
theorem SourceOperand.value?_address {o : SourceOperand} {a : Address} (h : o.term = .address a)
    {dt : Datatype} (hdt : dt.holdsAddress = true) :
    ∃ v, o.value? dt = .ok v ∧ v.datatype = dt ∧ v.toCell = .ofAddress a := by
  have hslot : dt = .addr ∨ dt = .u64 := by simpa [Datatype.holdsAddress] using hdt
  rcases hslot with rfl | rfl
  · exact ⟨.addr a, by simp only [value?, h]; rfl, rfl, rfl⟩
  · refine ⟨.ofUInt64 a.bits, ?_, rfl, Value.toCell_ofUInt64 a⟩
    simp only [value?, h, hdt, if_true, Value.cast?_addr]

namespace Asm

variable {s s' : Assembler} {x : IntegerText} {role : Role} {dt : Datatype} {deref : Bool}
  {ws : Words}

/-- A frame slot is written as its address where there is room for one. -/
theorem takeOperand_of_frame (h : s.cursor.Ahead (frameWords deref x ++ ws))
    (hlt : x.magnitude < 2 ^ 64) (hslot : (role.encodedDatatype dt deref).holdsAddress = true) :
    takeOperand role dt s =
      .ok ⟨role, role.encodedDatatype dt deref, deref, .ofAddress x.frameAddress⟩
        ((s.movedTo (s.cursor.atSlot deref).next).appendCode
          ((Cell.ofAddress x.frameAddress).bytes (role.encodedDatatype dt deref))) := by
  obtain ⟨token, hoperand⟩ := Parser.operand_of_frame h hlt
  let o : SourceOperand := ⟨deref, .address x.frameAddress, token⟩
  obtain ⟨v, hv, hdatatype, hcell⟩ := SourceOperand.value?_address (o := o) rfl hslot
  have hwrite := writeOperand_of_value? (o := o) hdatatype (hdatatype ▸ hv)
    (s.movedTo (s.cursor.atSlot deref).next)
  rw [hdatatype, hcell] at hwrite
  exact (ofParser_bind_of_ok hoperand _).trans hwrite

theorem takeOperand_of_frame_mismatch (h : s.cursor.Ahead (frameWords deref x ++ ws))
    (hlt : x.magnitude < 2 ^ 64) (hslot : (role.encodedDatatype dt deref).holdsAddress = false) :
    ∃ p, takeOperand role dt s =
      .error ⟨.datatypeMismatch (role.encodedDatatype dt deref) "an address", p⟩
        (s.movedTo (s.cursor.atSlot deref).next) := by
  obtain ⟨token, hoperand⟩ := Parser.operand_of_frame h hlt
  let o : SourceOperand := ⟨deref, .address x.frameAddress, token⟩
  have hvalue : o.value? (role.encodedDatatype dt o.deref) =
      .error (.datatypeMismatch (role.encodedDatatype dt deref) "an address") := by
    simp [o, SourceOperand.value?, hslot]
  have hwrite := writeOperand_of_error (by simp [o]) (by simp [o]) hvalue
    (s.movedTo (s.cursor.atSlot deref).next)
  exact ⟨_, (ofParser_bind_of_ok hoperand _).trans hwrite⟩

theorem takeOperand_of_frame_long (h : s.cursor.Ahead (frameWords deref x ++ ws))
    (hlong : 2 ^ 64 ≤ x.magnitude) :
    takeOperand role dt s =
      .error ⟨.invalidLiteral x.text, (s.cursor.atSlot deref).current.position⟩
        (s.movedTo (s.cursor.atSlot deref).next) :=
  ofParser_bind_of_error (Parser.operand_of_frame_error h hlong) _

/-- A frame slot is taken exactly if its integer has 64 bits and there is room for an address. -/
theorem takeOperand_frame_eq_ok_iff {o : Operand} (h : s.cursor.Ahead (frameWords deref x ++ ws)) :
    takeOperand role dt s = .ok o s' ↔
      (x.magnitude < 2 ^ 64 ∧ (role.encodedDatatype dt deref).holdsAddress = true) ∧
      o = ⟨role, role.encodedDatatype dt deref, deref, .ofAddress x.frameAddress⟩ ∧
      s' = (s.movedTo (s.cursor.atSlot deref).next).appendCode
        ((Cell.ofAddress x.frameAddress).bytes (role.encodedDatatype dt deref)) := by
  by_cases hlt : x.magnitude < 2 ^ 64
  · cases hslot : (role.encodedDatatype dt deref).holdsAddress with
    | true =>
      rw [takeOperand_of_frame h hlt hslot, EStateM.Result.ok.injEq]
      exact ⟨fun ⟨ho, hs⟩ => ⟨⟨hlt, rfl⟩, ho.symm, hs.symm⟩, fun ⟨_, ho, hs⟩ => ⟨ho.symm, hs.symm⟩⟩
    | false =>
      obtain ⟨p, hrefused⟩ := takeOperand_of_frame_mismatch h hlt hslot
      simp [hrefused]
  · rw [takeOperand_of_frame_long h (Nat.not_lt.mp hlt)]
    exact ⟨fun hok => (by cases hok), fun hok => absurd hok.1.1 hlt⟩

end Asm

/-! ## Static data -/

/-- Where the sum of the sizes has 64 bits, a buffer that is made longer gets zeros at its end. -/
theorem Buffer.resize_add_mod {b : Buffer} {n : Nat} (h : b.size + n < 2 ^ 64) :
    b.resize ((b.size + n) % UInt64.size) = b ++ zeros n := by
  have hmod : (b.size + n) % UInt64.size = b.size + n := Nat.mod_eq_of_lt h
  have htake : b.take (b.size + n) = b := Array.extract_eq_self_of_le (Nat.le_add_right _ _)
  rw [hmod, resize, htake, Nat.add_sub_cancel_left]

namespace Parser

variable {c : Cursor} {x : IntegerText} {ws : Words}

theorem reservedSize?_of_lt (hsign : x.isNegative = false) (hlt : x.magnitude < 2 ^ 64) :
    reservedSize? x.text = some x.magnitude := by
  unfold reservedSize?
  rw [IntegerText.ofText?_of_lt hlt]
  simp [IntegerText.literal, hsign]

theorem reservedSize?_eq_none (h : x.isNegative = true ∨ 2 ^ 64 ≤ x.magnitude) :
    reservedSize? x.text = none := by
  unfold reservedSize?
  by_cases hlt : x.magnitude < 2 ^ 64
  · have hsign : x.isNegative = true := h.resolve_right (Nat.not_le.mpr hlt)
    rw [IntegerText.ofText?_of_lt hlt]
    simp [IntegerText.literal, hsign]
  · rw [IntegerText.ofText?_eq_none (Nat.not_lt.mp hlt)]

theorem initializer_of_lt (h : c.Ahead ((.integer, x.text) :: ws)) (hsign : x.isNegative = false)
    (hlt : x.magnitude < 2 ^ 64) : initializer c = .ok (.inl x.magnitude) c.next := by
  refine bind_eq_ok.mpr ⟨_, _, rfl, ?_⟩
  rw [h.kind]
  refine bind_eq_ok.mpr ⟨_, _, rfl, ?_⟩
  rw [h.text, reservedSize?_of_lt hsign hlt]
  rfl

theorem initializer_error (h : c.Ahead ((.integer, x.text) :: ws))
    (hx : x.isNegative = true ∨ 2 ^ 64 ≤ x.magnitude) :
    initializer c = .error ⟨.integerOutOfRange x.text .u64, c.current.position⟩ c.next := by
  refine bind_eq_error.mpr (.inr ⟨_, _, rfl, ?_⟩)
  rw [h.kind]
  refine bind_eq_error.mpr (.inr ⟨_, _, rfl, ?_⟩)
  rw [h.text, reservedSize?_eq_none hx]
  rfl

end Parser

namespace Asm

variable {s s' : Assembler} {x : IntegerText} {ws : Words}

/-- The words of a reservation. -/
def reservationWords (name : String) (x : IntegerText) : Words :=
  [(.name, name), (.colon, ":"), (.integer, x.text)]

variable {name : String}

/-- Behind the name and the colon, the data is stored and the name becomes its place. -/
theorem staticData_eq (h : s.cursor.Ahead (reservationWords name x ++ ws)) :
    staticData s = (do storeStatic; define name .static (.addr s.staticEnd) : Asm Unit)
      (s.movedTo s.cursor.next.next) := by
  have h : s.cursor.Ahead ((.name, name) :: (.colon, ":") :: (.integer, x.text) :: ws) := h
  unfold staticData
  rw [ofParser_bind_of_ok (Parser.expectName_of_ahead h)]
  exact ofParser_bind_of_ok (s := s.movedTo s.cursor.next) (Parser.colon_of_ahead h.next) _

/-- A negative size and a size of more than 64 bits are refused. -/
theorem staticData_of_none (h : s.cursor.Ahead (reservationWords name x ++ ws))
    (hx : x.isNegative = true ∨ 2 ^ 64 ≤ x.magnitude) :
    staticData s = .error ⟨.integerOutOfRange x.text .u64, s.cursor.next.next.current.position⟩
      (s.movedTo s.cursor.next.next.next) := by
  have hnext : s.cursor.next.next.Ahead ((.integer, x.text) :: ws) := h.next.next
  rw [staticData_eq h]
  exact bind_eq_error.mpr (.inl (ofParser_bind_of_error (s := s.movedTo s.cursor.next.next)
    (Parser.initializer_error hnext hx) _))

/-- A size reserves as many bytes behind the static data exactly if it has 64 bits and the name is
free. -/
theorem staticData_eq_ok_iff (h : s.cursor.Ahead (reservationWords name x ++ ws)) :
    staticData s = .ok () s' ↔ (x.isNegative = false ∧ x.magnitude < 2 ^ 64) ∧
      s.index.contains (qualify s.path name) = false ∧
      s' = ((s.movedTo s.cursor.next.next.next).reserveStatic x.magnitude).withSymbol
        ⟨qualify s.path name, .static, .addr s.staticEnd⟩ := by
  by_cases hx : x.isNegative = false ∧ x.magnitude < 2 ^ 64
  · have hnext : s.cursor.next.next.Ahead ((.integer, x.text) :: ws) := h.next.next
    have hstore : storeStatic (s.movedTo s.cursor.next.next) =
        .ok () ((s.movedTo s.cursor.next.next.next).reserveStatic x.magnitude) :=
      ofParser_bind_of_ok (Parser.initializer_of_lt hnext hx.1 hx.2) _
    rw [staticData_eq h, bind_of_ok hstore, and_iff_right hx]
    exact define_eq_ok
  · have hrefused : x.isNegative = true ∨ 2 ^ 64 ≤ x.magnitude := by
      rwa [not_and_or, Bool.not_eq_false, Nat.not_lt] at hx
    rw [staticData_of_none h hrefused]
    exact ⟨fun hok => (by cases hok), fun hok => absurd hok.1 hx⟩

/-- A frame slot that is taken as an operand becomes an address with the base of its sign and the
last 61 bits of its offset, which is the offset itself exactly if that has no more bits. As long as
it stays within 64 bits, static data grows by the zeros that are asked for and nothing else.
Integers of more than 64 bits are refused in both places, and so are negative sizes. -/
theorem frame_offset_and_static_size (x : IntegerText) (s : Assembler) (ws : Words) :
    (∀ (deref : Bool) (role : Role) (instruction : Datatype),
      s.cursor.Ahead (frameWords deref x ++ ws) →
      ((∃ o s', takeOperand role instruction s = .ok o s') ↔
        x.magnitude < 2 ^ 64 ∧ (role.encodedDatatype instruction deref).holdsAddress = true) ∧
      (∀ o s', takeOperand role instruction s = .ok o s' → ∃ a : Address,
        a.base? = some (if x.isNegative then .frameSub else .frameAdd) ∧
        a.offset.toNat = x.magnitude % 2 ^ 61 ∧
        (a.offset.toNat = x.magnitude ↔ x.magnitude < 2 ^ 61) ∧
        o.cell = .ofAddress a ∧
        s'.object.code = s.object.code ++
          ((Cell.ofAddress a).bytes (role.encodedDatatype instruction deref)).toArray) ∧
      (2 ^ 64 ≤ x.magnitude → takeOperand role instruction s =
        .error ⟨.invalidLiteral x.text, (s.cursor.atSlot deref).current.position⟩
          (s.movedTo (s.cursor.atSlot deref).next))) ∧
    (∀ name : String, s.cursor.Ahead (reservationWords name x ++ ws) →
      (s.object.static.size + x.magnitude < 2 ^ 64 →
        ((∃ s', staticData s = .ok () s') ↔
          x.isNegative = false ∧ s.index.contains (qualify s.path name) = false) ∧
        ∀ s', staticData s = .ok () s' →
          s'.object.static = s.object.static ++ Buffer.zeros x.magnitude ∧
          s'.object.symbols = s.object.symbols ++
            [⟨qualify s.path name, .static, .addr s.staticEnd⟩]) ∧
      (x.isNegative = true ∨ 2 ^ 64 ≤ x.magnitude → staticData s =
        .error ⟨.integerOutOfRange x.text .u64, s.cursor.next.next.current.position⟩
          (s.movedTo s.cursor.next.next.next))) := by
  refine ⟨fun deref role instruction h => ⟨⟨?_, ?_⟩, ?_, takeOperand_of_frame_long h⟩,
    fun name h => ⟨fun hsum => ?_, staticData_of_none h⟩⟩
  · rintro ⟨o, s', hok⟩
    exact ((takeOperand_frame_eq_ok_iff h).mp hok).1
  · intro hx
    exact ⟨_, _, (takeOperand_frame_eq_ok_iff h).mpr ⟨hx, rfl, rfl⟩⟩
  · intro o s' hok
    obtain ⟨-, rfl, rfl⟩ := (takeOperand_frame_eq_ok_iff h).mp hok
    have hoffset := x.offset_frameAddress
    refine ⟨x.frameAddress, x.base?_frameAddress, hoffset, ?_, rfl, rfl⟩
    rw [hoffset]
    omega
  · have hlt : x.magnitude < 2 ^ 64 := by omega
    refine ⟨⟨?_, ?_⟩, ?_⟩
    · rintro ⟨s', hok⟩
      obtain ⟨⟨hsign, -⟩, hfree, -⟩ := (staticData_eq_ok_iff h).mp hok
      exact ⟨hsign, hfree⟩
    · rintro ⟨hsign, hfree⟩
      exact ⟨_, (staticData_eq_ok_iff h).mpr ⟨⟨hsign, hlt⟩, hfree, rfl⟩⟩
    · intro s' hok
      obtain ⟨-, -, rfl⟩ := (staticData_eq_ok_iff h).mp hok
      exact ⟨Buffer.resize_add_mod hsum, rfl⟩

/-- The least offset that has more than 61 bits. -/
def pastOffsets : IntegerText :=
  ⟨⟨none, .decimal, "2305843009213693952".toList, by simp, List.all_eq_true.mp rfl⟩, by simp⟩

/-- `+0x3`. -/
def hexThree : IntegerText :=
  ⟨⟨some '+', .hexadecimal false, ['3'], by simp [isSign], List.all_eq_true.mp rfl⟩, by simp⟩

/-- An assembler that has seen nothing, in front of some words. -/
def inFrontOf (words : Words) : Assembler :=
  { Assembler.empty "main" with cursor := ⟨tokensOf words, 0⟩ }

theorem ahead_inFrontOf (words : Words) :
    (inFrontOf words).cursor.Ahead (words ++ [(.endOfCode, "")]) := by
  simp [inFrontOf, Cursor.Ahead, tokensOf, Token.spelling, Token.endOfCode, Function.comp_def]

/-- The first offset that is too long is cut to none, and three bytes of static data are three
zeros. -/
theorem frame_offset_and_static_size_border :
    (∃ o s', takeOperand .address .u64 (inFrontOf (frameWords false pastOffsets)) = .ok o s' ∧
      ∃ a : Address, a.base? = some .frameAdd ∧ a.offset.toNat = 0 ∧ o.cell = .ofAddress a) ∧
    ∃ s', staticData (inFrontOf (reservationWords "x" hexThree)) = .ok () s' ∧
      s'.object.static = #[0, 0, 0] := by
  have hmagnitude : pastOffsets.magnitude = 2 ^ 61 := by decide +kernel
  have hthree : hexThree.magnitude = 3 := by decide +kernel
  obtain ⟨hframe, -⟩ := frame_offset_and_static_size pastOffsets
    (inFrontOf (frameWords false pastOffsets)) [(.endOfCode, "")]
  obtain ⟨-, hstatic⟩ := frame_offset_and_static_size hexThree
    (inFrontOf (reservationWords "x" hexThree)) [(.endOfCode, "")]
  constructor
  · obtain ⟨htaken, haddress, -⟩ := hframe false .address .u64 (ahead_inFrontOf _)
    obtain ⟨o, s', hok⟩ := htaken.mpr ⟨by simp [hmagnitude], rfl⟩
    obtain ⟨a, hbase, hoffset, -, hcell, -⟩ := haddress o s' hok
    rw [hmagnitude, Nat.mod_self] at hoffset
    exact ⟨o, s', hok, a, hbase, hoffset, hcell⟩
  · have hsum : 0 + hexThree.magnitude < 2 ^ 64 := by simp [hthree]
    obtain ⟨hstored, hzeros⟩ := (hstatic "x" (ahead_inFrontOf _)).1 hsum
    obtain ⟨s', hok⟩ := hstored.mpr ⟨rfl, rfl⟩
    have hdata := (hzeros s' hok).1
    rw [hthree] at hdata
    exact ⟨s', hok, hdata⟩

end Asm

/-- The code of a source text, if it can be assembled. -/
def sourceCode? (source : String) : Option (List UInt8) :=
  (tokenize source).toOption.bind fun tokens => assembledCode? tokens "main"

/-- An offset of more than 61 bits is cut without an error : the slot that is asked for lies far
above the frame, and the one that the code names is the first. -/
theorem sourceCode?_frame_cut :
    sourceCode? "mov.u64 : $ac : ~2305843009213693952" = sourceCode? "mov.u64 : $ac : ~0" ∧
      (sourceCode? "mov.u64 : $ac : ~0").isSome = true := by
  decide +kernel

end CellMachine
