import CellMachine.Proofs.Assembly.Literal
import CellMachine.Proofs.Machine.Arithmetic

/-!
# Values bound to slots

There are two conversions of values. `Value.fit?` binds a value to a slot before the program runs
and refuses what is not in the range of the slot; `Value.cast?` is that of the running program and
cuts what is too large. Where the first gives a value the second gives the same
(`Value.cast?_of_fit?`). What the first takes is known from the number of the value, and an address
is kept from slots of another size (`Value.fit?_eq_some_iff`); what the second gives between integer
types is the number modulo the size of the target (`Value.cast?_int`, `Value.intOf_ofInt_emod`).
-/

namespace CellMachine

namespace Value

variable {v w : Value} {dt : Datatype} {n : Int}

theorem exists_toNumeral (h : v.datatype.isFloat = false) : ∃ n, v.toNumeral = .integer n := by
  cases v with
  | f32 _ => cases h
  | f64 _ => cases h
  | _ => exact ⟨_, rfl⟩

theorem cast?_self (v : Value) : v.cast? v.datatype = some v := by
  unfold cast?
  exact if_pos rfl

theorem fit?_self (v : Value) : v.fit? v.datatype = some v := by
  unfold fit?
  exact if_pos rfl

/-! ## What fits -/

theorem ofInt?_ofUInt64 (x : UInt64) : ofInt? x.toNat .u64 = some (.ofUInt64 x) := by
  have hmax : maxInt false Width.w64.bits = 2 ^ 64 - 1 := by decide
  have hlt := x.toNat_lt
  simp only [ofInt?]
  rw [if_pos ⟨Int.natCast_nonneg _, by omega⟩]
  exact cast?_addr ⟨x⟩

/-- A value that is no float is bound as its number. An address goes to slots of its own size
only. -/
theorem fit?_eq_some_iff (hn : v.toNumeral = .integer n) (hdt : v.datatype ≠ dt) :
    v.fit? dt = some w ↔ (v.datatype ≠ .addr ∨ dt = .u64) ∧ ofInt? n dt = some w := by
  cases v with
  | f32 _ => cases hn
  | f64 _ => cases hn
  | addr a =>
    cases hn
    have hdt : dt ≠ .addr := Ne.symm hdt
    rw [fit?_addr, if_neg hdt]
    by_cases hu64 : dt = .u64
    · subst hu64
      simp [ofInt?_ofUInt64]
    · simp [hu64, datatype]
  | _ =>
    unfold fit?
    rw [if_neg hdt]
    simp [hn, datatype]

/-! ## What is cut -/

/-- A word is cut to itself. -/
theorem ofInt_eq_of_word? {word : UInt64} (h : word? n = some word) :
    (⟨BitVec.ofInt 64 n⟩ : UInt64) = word := by
  unfold word? at h
  split at h
  · next hrange =>
    cases h
    obtain ⟨k, rfl⟩ := Int.eq_ofNat_of_zero_le hrange.1
    rw [Int.toNat_natCast, BitVec.ofInt_natCast]
    rfl
  · cases h

/-- What is in range is cut to itself. -/
theorem cast?_of_toNumeral (hn : v.toNumeral = .integer n) (hdt : v.datatype ≠ dt)
    (h : ofInt? n dt = some w) : v.cast? dt = some w := by
  unfold cast?
  rw [if_neg hdt]
  cases dt with
  | int signed width =>
    simp only [ofInt?] at h
    split at h
    · simpa only [hn] using h
    · cases h
  | f32 | f64 | type => simpa only [hn, ofInt?] using h
  | bool =>
    simp only [ofInt?] at h
    simp only [hn]
    split at h
    · next hzero => rw [hzero]; exact h
    · split at h
      · next hone => rw [hone]; exact h
      · cases h
  | addr =>
    obtain ⟨word, hword, rfl⟩ := Option.map_eq_some_iff.mp h
    simp only [hn, ofInt_eq_of_word? hword]
  | none => cases h

/-- Floats are bound to floats only, and by the conversion of the machine. -/
theorem fit?_of_isFloat (hfloat : v.datatype.isFloat = true) (hdt : v.datatype ≠ dt) :
    v.fit? dt = if dt.isFloat then v.cast? dt else none := by
  unfold fit?
  rw [if_neg hdt]
  cases v with
  | f32 _ => rfl
  | f64 _ => rfl
  | _ => cases hfloat

/-- Both conversions agree wherever the checked one gives a value. -/
theorem cast?_of_fit? (h : v.fit? dt = some w) : v.cast? dt = some w := by
  by_cases hdt : v.datatype = dt
  · subst hdt
    rw [cast?_self, ← h, fit?_self]
  · cases hfloat : v.datatype.isFloat with
    | true =>
      rw [fit?_of_isFloat hfloat hdt] at h
      split at h
      · exact h
      · cases h
    | false =>
      obtain ⟨n, hn⟩ := exists_toNumeral hfloat
      exact cast?_of_toNumeral hn hdt ((fit?_eq_some_iff hn hdt).mp h).2

/-- The numbers of an integer type are in its range. -/
theorem inRange_intOf (signed : Bool) {width : Width} (x : BitVec width.bits) :
    (Datatype.int signed width).InRange (intOf signed x) := by
  cases signed with
  | true => exact ⟨BitVec.le_toInt x, BitVec.toInt_lt⟩
  | false =>
    have hlt : ((x.toNat : Nat) : Int) < (2 ^ width.bits : Nat) := Int.ofNat_lt.mpr x.isLt
    exact ⟨Int.natCast_nonneg x.toNat, by simpa [intOf] using hlt⟩

theorem cast?_int (hn : v.toNumeral = .integer n) (signed : Bool) (width : Width) :
    v.cast? (.int signed width) = some (.int signed width (BitVec.ofInt width.bits n)) := by
  by_cases hdt : v.datatype = .int signed width
  · cases v with
    | int signed' width' x =>
      cases hdt
      cases hn
      rw [ofInt_intOf]
      exact cast?_self _
    | _ => cases hdt
  · unfold cast?
    rw [if_neg hdt]
    simp only [hn]

/-- An integer is cut to what is left of its number modulo the size of the target, in its range. -/
theorem intOf_ofInt_emod (signed : Bool) (width : Width) (n : Int) :
    intOf signed (BitVec.ofInt width.bits n) % width.modulus = n % width.modulus := by
  have hpos : width.modulus ≠ 0 := by cases width <;> decide
  rw [intOf_emod, BitVec.toNat_ofInt]
  exact Int.toNat_of_nonneg (Int.emod_nonneg _ hpos)

/-- Binding a value to a slot loses nothing and is what the machine would do. What is bound between
types that are no floats is what is in the range of the slot, unless it is an address that the slot
is too small for; it stays the same number. The machine reduces an integer into the range of another
integer type, modulo its size. -/
theorem fit?_lossless (v : Value) (dt : Datatype) :
    (∀ w, v.fit? dt = some w → v.cast? dt = some w ∧ w.datatype = dt) ∧
    (v.datatype.isFloat = false → dt.isFloat = false → v.datatype ≠ dt →
      ∃ n, v.toNumeral = .integer n ∧
        ((v.fit? dt).isSome = true ↔
          (v.datatype ≠ .addr ∨ dt = .u64) ∧ dt ≠ .none ∧ dt.InRange n) ∧
        ∀ w, v.fit? dt = some w → w.toNumeral = .integer n) ∧
    ∀ (n : Int) (signed : Bool) (width : Width), v.toNumeral = .integer n →
      dt = .int signed width → ∃ w m, v.cast? dt = some w ∧ w.toNumeral = .integer m ∧
        dt.InRange m ∧ m % width.modulus = n % width.modulus := by
  refine ⟨fun w h => ⟨cast?_of_fit? h, datatype_of_fit? h⟩, fun hv hslot hdt => ?_,
    fun n signed width hn hdt => ?_⟩
  · obtain ⟨n, hn⟩ := exists_toNumeral hv
    have hnone : dt.InRange n → dt ≠ .none := by
      rintro hrange rfl
      exact hrange
    refine ⟨n, hn, ?_, fun w h => toNumeral_of_ofInt? ((fit?_eq_some_iff hn hdt).mp h).2 hslot⟩
    rw [Option.isSome_iff_exists, exists_congr fun w => fit?_eq_some_iff hn hdt, exists_and_left,
      ← Option.isSome_iff_exists, isSome_ofInt?_iff, and_iff_right_of_imp hnone]
  · subst hdt
    exact ⟨_, _, cast?_int hn signed width, rfl, inRange_intOf signed _,
      intOf_ofInt_emod signed width n⟩

/-- The code 15 is that of the type `none`, and there is a slot for it. The number -1 is no address,
and 300 is cut to 44. -/
theorem fit?_lossless_corners :
    ((Value.int false .w8 15).cast? .type = some (.type .none) ∧
      (Value.type .none).toNumeral = .integer 15) ∧
    ((Value.int true .w64 (-1)).fit? .addr).isSome = false ∧
    ∃ w m, (Value.int true .w64 300).cast? .i8 = some w ∧ w.toNumeral = .integer m ∧
      Datatype.InRange .i8 m ∧ m % 256 = 44 := by
  have hfit : (Value.int false .w8 15).fit? .type = some (.type .none) := by decide
  obtain ⟨hcast, hnumber, -⟩ := fit?_lossless (.int false .w8 15) .type
  obtain ⟨n, hn, -, hkept⟩ := hnumber rfl rfl (by decide)
  obtain ⟨-, hrefused, -⟩ := fit?_lossless (.int true .w64 (-1)) .addr
  obtain ⟨k, hk, hiff, -⟩ := hrefused rfl rfl (by decide)
  obtain ⟨-, -, hcut⟩ := fit?_lossless (.int true .w64 300) .i8
  obtain ⟨w, m, hw, hm, hrange, hmod⟩ := hcut 300 true .w8 (by decide) rfl
  refine ⟨⟨(hcast _ hfit).1, (hkept _ hfit).trans ?_⟩, ?_, w, m, hw, hm, hrange, ?_⟩
  · exact hn.symm.trans (by decide)
  · cases hk
    rw [Bool.eq_false_iff]
    exact fun h => absurd (hiff.mp h).2.2.1 (by decide)
  · exact hmod.trans (by decide)

end Value

end CellMachine
