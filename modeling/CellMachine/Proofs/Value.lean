import CellMachine.Assembly.Operand
import CellMachine.Proofs.Instruction.RoundTrip

/-!
# Values in cells

The cell of a value is zero above the size of its datatype (`Value.fits_toCell`) and is read back
as the value (`Value.ofCell?_toCell`). Both conversions give values of the datatype they are asked
for, and an integer that is in range keeps its number (`Value.toNumeral_of_ofInt?`).
-/

namespace CellMachine

namespace Value

/-! ## Cells -/

theorem fits_toCell (v : Value) : v.toCell.Fits v.datatype := by
  unfold Cell.Fits
  cases v with
  | int signed w v =>
    have hv := v.isLt
    have hbound : v.toNat < 2 ^ 64 :=
      Nat.lt_of_lt_of_le hv (Nat.pow_le_pow_right (by omega) (by cases w <;> decide))
    have hsize : 256 ^ w.bytes = 2 ^ w.bits := by
      rw [Width.bits, Nat.pow_mul]
    have hbits : (toCell (.int signed w v)).bits.toNat = v.toNat :=
      (BitVec.toNat_setWidth 64 v).trans (Nat.mod_eq_of_lt hbound)
    rw [hbits]
    exact hsize ▸ hv
  | f32 word => simpa [toCell, datatype, Datatype.size] using word.toNat_lt
  | f64 word => simpa [toCell, datatype, Datatype.size] using word.toNat_lt
  | bool b => cases b <;> decide
  | addr a => simpa [toCell, datatype, Datatype.size, Cell.ofAddress] using a.bits.toNat_lt
  | type dt => simpa [toCell, datatype, Datatype.size, Cell.ofDatatype] using dt.code.toNat_lt

theorem ofCell?_toCell (v : Value) : ofCell? v.datatype v.toCell = some v := by
  cases v with
  | int signed w v =>
    have hbits : w.bits ≤ 64 := by cases w <;> decide
    simp [ofCell?, datatype, toCell, Cell.low, Cell.ofBitVec, BitVec.setWidth_setWidth_of_le,
      hbits]
  | f32 word => simp [ofCell?, datatype, toCell]
  | f64 word => rfl
  | bool b => cases b <;> rfl
  | addr a => rfl
  | type dt => simp [ofCell?, datatype, toCell, Cell.ofDatatype, Cell.toDatatype?, Cell.byte,
      Datatype.ofCode?_code]

variable {dt : Datatype} {v : Value} {n : Int}

/-- Every datatype but `none` has a value whose cell is zero. -/
theorem exists_toCell_eq_zero (h : dt ≠ .none) :
    ∃ v : Value, v.datatype = dt ∧ v.toCell = .zero := by
  cases dt with
  | int signed w => exact ⟨.int signed w 0, rfl, by simp [toCell, Cell.ofBitVec, Cell.zero]⟩
  | f32 => exact ⟨.f32 0, rfl, rfl⟩
  | f64 => exact ⟨.f64 0, rfl, rfl⟩
  | bool => exact ⟨.bool false, rfl, rfl⟩
  | addr => exact ⟨.addr ⟨0⟩, rfl, rfl⟩
  | type => exact ⟨.type .i8, rfl, rfl⟩
  | none => exact absurd rfl h

theorem toCell_ofUInt64 (a : Address) : (ofUInt64 a.bits).toCell = .ofAddress a := by
  simp [ofUInt64, toCell, Cell.ofBitVec, Cell.ofAddress]
  rfl

/-- An address has a value in every slot that has room for one. -/
theorem exists_toCell_eq_ofAddress (h : dt.holdsAddress = true) (a : Address) :
    ∃ v : Value, v.datatype = dt ∧ v.toCell = .ofAddress a := by
  have hdt : dt = .addr ∨ dt = .u64 := by simpa [Datatype.holdsAddress] using h
  rcases hdt with rfl | rfl
  · exact ⟨.addr a, rfl, rfl⟩
  · exact ⟨.ofUInt64 a.bits, rfl, toCell_ofUInt64 a⟩

/-! ## Conversions -/

theorem datatype_of_ofInt? (h : ofInt? n dt = some v) : v.datatype = dt := by
  unfold ofInt? at h
  cases dt <;> grind [datatype, Option.map_eq_some_iff]

theorem datatype_of_cast? {w : Value} (h : v.cast? dt = some w) : w.datatype = dt := by
  unfold cast? at h
  split at h
  · grind
  · cases dt <;> cases hn : v.toNumeral <;> simp only [hn] at h <;>
      grind [datatype, Option.map_eq_some_iff]

theorem datatype_of_fit? {w : Value} (h : v.fit? dt = some w) : w.datatype = dt := by
  unfold fit? at h
  split at h
  · grind
  · cases v <;> grind [datatype_of_cast?, datatype_of_ofInt?]

theorem cast?_addr (a : Address) :
    (Value.addr a).cast? .u64 = some (.ofUInt64 a.bits) := by
  have hbits : BitVec.ofInt Width.w64.bits a.bits.toNat = a.bits.toBitVec := by
    rw [BitVec.ofInt_natCast]
    exact (BitVec.ofNat_toNat 64 a.bits.toBitVec).trans (BitVec.setWidth_eq _)
  change some (Value.int false .w64 (BitVec.ofInt _ _)) = _
  rw [hbits]
  rfl

/-- An address fits into slots of its own size only. -/
theorem fit?_addr (a : Address) (dt : Datatype) : (Value.addr a).fit? dt =
    if dt = .addr then some (.addr a) else if dt = .u64 then some (.ofUInt64 a.bits) else none := by
  by_cases hdt : dt = .addr
  · subst hdt
    rfl
  · rw [if_neg hdt]
    by_cases hu64 : dt = .u64
    · subst hu64
      exact cast?_addr a
    · rw [if_neg hu64]
      simp [fit?, datatype, Ne.symm hdt, hu64]

/-- The bits of an integer that is in range stand for it. -/
theorem intOf_ofInt {signed : Bool} {w : Width} (hmin : minInt signed w.bits ≤ n)
    (hmax : n ≤ maxInt signed w.bits) : intOf signed (BitVec.ofInt w.bits n) = n := by
  have hpos : 0 < w.bits := by cases w <;> decide
  have hpow : 2 ^ w.bits = 2 * 2 ^ (w.bits - 1) := by
    rw [← Nat.pow_succ', Nat.succ_eq_add_one, Nat.sub_add_cancel hpos]
  cases signed with
  | true =>
    simp only [minInt, maxInt, if_true, Nat.pow_eq] at hmin hmax
    simp only [intOf, if_true, BitVec.toInt_ofInt]
    exact Int.bmod_eq_of_le (by rw [hpow]; omega) (by rw [hpow]; omega)
  | false =>
    simp only [minInt, maxInt, Bool.false_eq_true, if_false, Nat.pow_eq] at hmin hmax
    simp only [intOf, Bool.false_eq_true, if_false, BitVec.toNat_ofInt]
    rw [Int.emod_eq_of_lt hmin (by omega), Int.toNat_of_nonneg hmin]

/-- An integer that is in range keeps its number, but for the rounding of floats. -/
theorem toNumeral_of_ofInt? (h : ofInt? n dt = some v) (hdt : dt.isFloat = false) :
    v.toNumeral = .integer n := by
  cases dt with
  | int signed w =>
    simp only [ofInt?] at h
    split at h
    · next hrange =>
      cases h
      exact congrArg Numeral.integer (intOf_ofInt hrange.1 hrange.2)
    · simp at h
  | f32 => simp [Datatype.isFloat] at hdt
  | f64 => simp [Datatype.isFloat] at hdt
  | bool => grind [ofInt?, toNumeral]
  | addr =>
    obtain ⟨w, hw, rfl⟩ := Option.map_eq_some_iff.mp h
    unfold word? at hw
    split at hw
    · next hrange =>
      cases hw
      have hsize : UInt64.size = 2 ^ 64 := rfl
      simp only [toNumeral, UInt64.toNat_ofNat', Numeral.integer.injEq]
      omega
    · simp at hw
  | type =>
    obtain ⟨t, ht, rfl⟩ := Option.map_eq_some_iff.mp h
    unfold datatypeOfInt? at ht
    split at ht
    · next hrange =>
      simp only [toNumeral, Datatype.code_of_ofCode? ht, UInt8.toNat_ofNat', Numeral.integer.injEq]
      omega
    · simp at ht
  | none => simp [ofInt?] at h

/-- A number that was stored as an integer goes wherever the number itself goes. -/
theorem fit?_of_ofInt?_i64 (h : ofInt? n .i64 = some v) (dt : Datatype) :
    v.fit? dt = ofInt? n dt := by
  have hnumeral := toNumeral_of_ofInt? h rfl
  have hdatatype := datatype_of_ofInt? h
  cases v with
  | int signed w bits =>
    unfold fit?
    split
    · next hdt => rw [← hdt, hdatatype, h]
    · simp only [hnumeral]
  | _ => cases hdatatype

end Value

end CellMachine
