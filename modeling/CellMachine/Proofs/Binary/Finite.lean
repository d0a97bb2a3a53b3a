import CellMachine.Proofs.Value
import Mathlib

/-!
# Finite words

The word of a number below `2 ^ b` has an exponent field of at most `Format.reach b`
(`Format.ofScaled_le`). As long as infinity is out of reach, the word is finite, with a bounded
mantissa and exponent (`Format.finiteBelow_withSign`), so that a change of format can follow
(`Format.FiniteBelow.convert`). Integers of 64 bits are finite in both formats and stay finite in
the other one (`Value.isFinite_of_cast?`).
-/

namespace CellMachine.Binary.Format

/-! ## Rounding -/

theorem roundEven_le {a b c : Nat} (h : a < b * c) : roundEven a b ≤ c := by
  have hquotient : a / b < c := Nat.div_lt_of_lt_mul h
  unfold roundEven
  dsimp only
  split_ifs <;> omega

/-- The leading bit moves with the number. -/
theorem leadingExponent_two_pow {num : Nat} (h : num ≠ 0) (k : Nat) :
    leadingExponent num (2 ^ k) = num.log2 - k := by
  have hlow := Nat.log2_self_le h
  unfold leadingExponent
  dsimp only
  rw [Nat.log2_two_pow]
  refine if_pos ?_
  split
  · next hle =>
    have hsum : k + ((num.log2 : Int) - k).toNat = num.log2 := by omega
    rw [Nat.pow_eq, ← pow_add, hsum]
    exact hlow
  · next hlt =>
    have hsum : k = num.log2 + (-((num.log2 : Int) - k)).toNat := by omega
    calc 2 ^ k = 2 ^ num.log2 * 2 ^ (-((num.log2 : Int) - k)).toNat := by rw [← pow_add, ← hsum]
      _ ≤ num * 2 ^ (-((num.log2 : Int) - k)).toNat := Nat.mul_le_mul_right _ hlow

/-- A bound for the exponent fields of numbers below `2 ^ bits`. A mantissa that is rounded up may
carry into the field. -/
def reach (f : Format) (bits : Int) : Nat := (bits - f.fractionBits - 1 - f.minExponent).toNat + 2

variable (f : Format) {num word m b : Nat} {e : Int}

theorem ofRatio_le (hnum : num < 2 ^ b) (k : Nat) :
    f.ofRatio num (2 ^ k) ≤ f.reach (b - k) * 2 ^ f.fractionBits := by
  unfold ofRatio
  split
  · exact Nat.zero_le _
  · next hzero =>
    have hzero : num ≠ 0 := by simpa using hzero
    have hbits : num.log2 < b := (Nat.log2_lt hzero).mpr hnum
    have hhigh := Nat.lt_log2_self (n := num)
    rw [leadingExponent_two_pow hzero]
    dsimp only
    generalize hexponent : max f.minExponent ((num.log2 : Int) - k - f.fractionBits) = x
    have hmantissa : (if 0 ≤ x then roundEven num (2 ^ k * Nat.pow 2 x.toNat)
        else roundEven (num * Nat.pow 2 (-x).toNat) (2 ^ k)) ≤ 2 ^ (f.fractionBits + 1) := by
      split
      · refine roundEven_le (hhigh.trans_le ?_)
        rw [Nat.pow_eq, ← pow_add, ← pow_add]
        exact Nat.pow_le_pow_right (by decide) (by omega)
      · refine roundEven_le ?_
        calc num * 2 ^ (-x).toNat < 2 ^ (num.log2 + 1) * 2 ^ (-x).toNat :=
              Nat.mul_lt_mul_of_pos_right hhigh (by positivity)
          _ = 2 ^ (num.log2 + 1 + (-x).toNat) := (pow_add _ _ _).symm
          _ ≤ 2 ^ (k + (f.fractionBits + 1)) := Nat.pow_le_pow_right (by decide) (by omega)
          _ = 2 ^ k * 2 ^ (f.fractionBits + 1) := pow_add _ _ _
    have hfield : (x - f.minExponent).toNat + 2 ≤ f.reach (b - k) := by
      unfold reach
      omega
    refine (Nat.min_le_right _ _).trans ?_
    calc (x - f.minExponent).toNat * 2 ^ f.fractionBits + _
        ≤ (x - f.minExponent).toNat * 2 ^ f.fractionBits + 2 ^ (f.fractionBits + 1) :=
          Nat.add_le_add_left hmantissa _
      _ = ((x - f.minExponent).toNat + 2) * 2 ^ f.fractionBits := by rw [pow_succ]; ring
      _ ≤ f.reach (b - k) * 2 ^ f.fractionBits := Nat.mul_le_mul_right _ hfield

theorem reach_mono {a b : Int} (h : a ≤ b) : f.reach a ≤ f.reach b := by
  unfold reach
  omega

theorem ofScaled_le (hm : m < 2 ^ b) {k : Nat} (he : e ≤ k) :
    f.ofScaled m e ≤ f.reach (b + k) * 2 ^ f.fractionBits := by
  unfold ofScaled
  split
  · have hscaled : m * 2 ^ e.toNat < 2 ^ (b + e.toNat) := by
      rw [pow_add]
      exact Nat.mul_lt_mul_of_pos_right hm (by positivity)
    exact (f.ofRatio_le hscaled 0).trans (Nat.mul_le_mul_right _ (f.reach_mono (by omega)))
  · exact (f.ofRatio_le hm _).trans (Nat.mul_le_mul_right _ (f.reach_mono (by omega)))

/-! ## Finite numbers -/

/-- A word that is finite, with an exponent of at most `k`. -/
structure FiniteBelow (word : Nat) (k : Int) : Prop where
  isWord : word < 2 ^ (f.fractionBits + f.exponentBits + 1)
  decode : ∃ s m e, f.decode word = .finite s m e ∧ m < 2 ^ (f.fractionBits + 1) ∧ e ≤ k

variable {f}

/-- A word is finite if its exponent field is less than that of infinity. -/
theorem finiteBelow_withSign {c : Nat} (h : word ≤ c * 2 ^ f.fractionBits)
    (hc : c + 1 < 2 ^ f.exponentBits) (negative : Bool) :
    f.FiniteBelow (f.withSign negative word) (f.minExponent + c) := by
  have hpos : 0 < 2 ^ f.fractionBits := by positivity
  have hsign : f.signBit = 2 ^ f.fractionBits * 2 ^ f.exponentBits := by simp [signBit, pow_add]
  have hlt : word < f.signBit := by
    calc word ≤ c * 2 ^ f.fractionBits := h
      _ < 2 ^ f.exponentBits * 2 ^ f.fractionBits := Nat.mul_lt_mul_of_pos_right (by omega) hpos
      _ = f.signBit := by rw [hsign, mul_comm]
  have hfield : word / 2 ^ f.fractionBits ≤ c := Nat.div_le_of_le_mul (by rwa [mul_comm])
  have hbiased : f.withSign negative word / 2 ^ f.fractionBits % 2 ^ f.exponentBits =
      word / 2 ^ f.fractionBits := by
    have hmod := Nat.mod_eq_of_lt (show word / 2 ^ f.fractionBits < 2 ^ f.exponentBits by omega)
    cases negative with
    | false => exact hmod
    | true =>
      have hword : f.withSign true word = 2 ^ f.fractionBits * 2 ^ f.exponentBits + word := by
        rw [← hsign]
        rfl
      rw [hword, Nat.mul_add_div hpos, Nat.add_mod_left, hmod]
  constructor
  · have htwice : 2 ^ (f.fractionBits + f.exponentBits + 1) = 2 * f.signBit := by
      rw [hsign, pow_succ, pow_add, mul_comm]
    rw [htwice]
    unfold withSign
    split <;> omega
  · have hfraction := Nat.mod_lt (f.withSign negative word) hpos
    unfold Format.decode
    dsimp only
    simp only [Nat.pow_eq, hbiased, beq_iff_eq]
    rw [if_neg (by omega)]
    split
    · exact ⟨_, _, _, rfl, by rw [pow_succ]; omega, by omega⟩
    · exact ⟨_, _, _, rfl, by rw [pow_succ]; omega, by omega⟩

theorem finiteBelow_ofInt {n : Int} (hn : n.natAbs < 2 ^ b) (hb : f.reach b + 1 < 2 ^ f.exponentBits) :
    f.FiniteBelow (f.ofInt n) (f.minExponent + f.reach b) := by
  refine finiteBelow_withSign ?_ hb _
  have hle := f.ofRatio_le hn 0
  rwa [Nat.cast_zero, sub_zero] at hle

/-- A finite number is finite in another format that reaches far enough. -/
theorem FiniteBelow.convert {g : Format} {k : Nat} (h : f.FiniteBelow word k)
    (hg : g.reach (f.fractionBits + 1 + k) + 1 < 2 ^ g.exponentBits) :
    g.FiniteBelow (f.convert g word) (g.minExponent + g.reach (f.fractionBits + 1 + k)) := by
  obtain ⟨s, m, e, hdecode, hm, he⟩ := h.decode
  unfold Format.convert
  rw [hdecode]
  refine finiteBelow_withSign ?_ hg s
  have hle := g.ofScaled_le hm he
  rwa [Nat.cast_add, Nat.cast_one] at hle

end CellMachine.Binary.Format

namespace CellMachine.Value

open Binary (Format)

/-- Whether a value is neither infinite nor missing. -/
def isFinite : Value → Bool
  | f32 w => (Format.single.decode w.toNat).isFinite
  | f64 w => (Format.double.decode w.toNat).isFinite
  | _ => true

theorem isFinite_of_isFloat_eq_false {v : Value} (h : v.datatype.isFloat = false) :
    v.isFinite = true := by
  cases v <;> first | rfl | cases h

theorem isFinite_f32 {word : Nat} {k : Int} (h : Format.single.FiniteBelow word k) :
    (f32 (UInt32.ofNat word)).isFinite = true := by
  obtain ⟨s, m, e, hdecode, -⟩ := h.decode
  have hword : (UInt32.ofNat word).toNat = word := UInt32.toNat_ofNat_of_lt' h.isWord
  simp only [isFinite, hword, hdecode, Binary.Number.isFinite]

theorem isFinite_f64 {word : Nat} {k : Int} (h : Format.double.FiniteBelow word k) :
    (f64 (UInt64.ofNat word)).isFinite = true := by
  obtain ⟨s, m, e, hdecode, -⟩ := h.decode
  have hword : (UInt64.ofNat word).toNat = word := UInt64.toNat_ofNat_of_lt' h.isWord
  simp only [isFinite, hword, hdecode, Binary.Number.isFinite]

/-- What an integer of 64 bits is read as and converted to is finite. -/
theorem isFinite_of_cast? {n : Int} {F T : Datatype} {v w : Value} (hn : n.natAbs < 2 ^ 64)
    (hv : ofInt? n F = some v) (hw : v.cast? T = some w) : w.isFinite = true := by
  have hsingle : Format.single.FiniteBelow (Format.single.ofInt n) (42 : Nat) :=
    Format.finiteBelow_ofInt hn (by decide)
  have hdouble : Format.double.FiniteBelow (Format.double.ofInt n) (13 : Nat) :=
    Format.finiteBelow_ofInt hn (by decide)
  have hread : v.isFinite = true := by
    cases F with
    | f32 =>
      cases hv
      exact isFinite_f32 hsingle
    | f64 =>
      cases hv
      exact isFinite_f64 hdouble
    | _ => exact isFinite_of_isFloat_eq_false (datatype_of_ofInt? hv ▸ rfl)
  have hdatatype := datatype_of_cast? hw
  cases T with
  | f32 =>
    unfold cast? at hw
    split at hw
    · cases hw
      exact hread
    · cases F with
      | f32 =>
        cases hv
        contradiction
      | f64 =>
        cases hv
        cases hw
        rw [UInt64.toNat_ofNat_of_lt' hdouble.isWord]
        exact isFinite_f32 (hdouble.convert (by decide))
      | _ =>
        rw [toNumeral_of_ofInt? hv rfl] at hw
        cases hw
        exact isFinite_f32 hsingle
  | f64 =>
    unfold cast? at hw
    split at hw
    · cases hw
      exact hread
    · cases F with
      | f64 =>
        cases hv
        contradiction
      | f32 =>
        cases hv
        cases hw
        rw [UInt32.toNat_ofNat_of_lt' hsingle.isWord]
        exact isFinite_f64 (hsingle.convert (by decide))
      | _ =>
        rw [toNumeral_of_ofInt? hv rfl] at hw
        cases hw
        exact isFinite_f64 hdouble
  | _ => exact isFinite_of_isFloat_eq_false (hdatatype ▸ rfl)

end CellMachine.Value
