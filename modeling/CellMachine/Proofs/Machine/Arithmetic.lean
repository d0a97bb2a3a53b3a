import CellMachine.Machine.Arithmetic
import CellMachine.Proofs.Value

/-!
# Integer arithmetic

The eight integer types share their operations, which work on words. What the words stand for are
numbers, and `ExactArithmetic` says in terms of these, and of bits, what each operation should give.
A word is determined by its number (`Value.ofInt_intOf`), so that sums, differences and products
need no case of their own for either sign. Division does : `Value.intOf_quotient` has the one
quotient that is no number of its type, and all the rest is in `divided_tdiv`, about integers only.
-/

namespace CellMachine

/-! ## Numbers and bits -/

/-- `2 ^ w`, the number of words of a width. -/
def Width.modulus (w : Width) : Int := (Nat.pow 2 w.bits : Nat)

namespace Cell

/-- The number that the low bits of a cell stand for. -/
def number (c : Cell) (signed : Bool) (w : Width) : Int := Value.intOf signed (c.low w.bits)

/-- A number modulo `2 ^ w`, with zeros above. -/
def residue (w : Width) (n : Int) : Cell := ⟨UInt64.ofNat (n % w.modulus).toNat⟩

/-- A bit of a cell, counted from the lowest. -/
def bit (c : Cell) (i : Nat) : Bool := c.bits.toNat.testBit i

/-- By how much a cell shifts. -/
def count (c : Cell) (signed : Bool) (w : Width) : Nat := (c.number signed w % w.bits).toNat

end Cell

/-- A result that has the bits `f` below `w` and zeros above. -/
def HasBits (w : Width) (f : Nat → Bool) (result : Except Fault Cell) : Prop :=
  ∃ c, result = .ok c ∧ ∀ i, c.bit i = (decide (i < w.bits) && f i)

/-- The quotient and the remainder of two numbers of a type. -/
structure Divided (signed : Bool) (w : Width) (x y q r : Int) : Prop where
  identity : (y * q + r) % w.modulus = x % w.modulus
  /-- The quotient is cut toward zero. There is one that is too large. -/
  quotient : q = if x = Value.minInt signed w.bits ∧ y = -1 then x else x.tdiv y
  overflow : x = Value.minInt signed w.bits → y = -1 → r = 0
  small : r.natAbs < y.natAbs
  sign : r = 0 ∨ r.sign = x.sign

/-- The operations on the integers of a type are exact. -/
structure ExactArithmetic (signed : Bool) (w : Width) : Prop where
  /-- Only the low bits of the operands count. -/
  binary_low : ∀ (op : BinaryOp) (a a' b b' : Cell), a.low w.bits = a'.low w.bits →
    b.low w.bits = b'.low w.bits → op.apply (.int signed w) a b = op.apply (.int signed w) a' b'
  unary_low : ∀ (op : UnaryOp) (a a' : Cell), a.low w.bits = a'.low w.bits →
    op.apply (.int signed w) a = op.apply (.int signed w) a'
  binary_fits : ∀ (op : BinaryOp) (a b c : Cell), op.apply (.int signed w) a b = .ok c →
    c.Fits (.int signed w)
  /-- With one operand there is always a result. -/
  unary_fits : ∀ (op : UnaryOp) (a : Cell), ∃ c, op.apply (.int signed w) a = .ok c ∧
    c.Fits (.int signed w)
  add : ∀ a b, BinaryOp.add.apply (.int signed w) a b =
    .ok (.residue w (a.number signed w + b.number signed w))
  sub : ∀ a b, BinaryOp.sub.apply (.int signed w) a b =
    .ok (.residue w (a.number signed w - b.number signed w))
  mul : ∀ a b, BinaryOp.mul.apply (.int signed w) a b =
    .ok (.residue w (a.number signed w * b.number signed w))
  neg : ∀ a, UnaryOp.neg.apply (.int signed w) a = .ok (.residue w (-a.number signed w))
  inc : ∀ a, UnaryOp.inc.apply (.int signed w) a = .ok (.residue w (a.number signed w + 1))
  dec : ∀ a, UnaryOp.dec.apply (.int signed w) a = .ok (.residue w (a.number signed w - 1))
  /-- There is no fault but for a zero divisor. -/
  fault : ∀ (op : BinaryOp) (a b : Cell) (f : Fault), op.apply (.int signed w) a b = .error f ↔
    ((op = .div ∨ op = .mod) ∧ b.low w.bits = 0) ∧ f = .divisionByZero
  division : ∀ a b : Cell, b.low w.bits ≠ 0 → ∃ q r, BinaryOp.div.apply (.int signed w) a b = .ok q ∧
    BinaryOp.mod.apply (.int signed w) a b = .ok r ∧
    Divided signed w (a.number signed w) (b.number signed w) (q.number signed w) (r.number signed w)
  shl : ∀ a b : Cell, HasBits w
    (fun i => decide (b.count signed w ≤ i) && a.bit (i - b.count signed w))
    (BinaryOp.shl.apply (.int signed w) a b)
  /-- A signed number is shifted to the right with copies of its sign bit. -/
  shr : ∀ a b : Cell, HasBits w
    (fun i => if b.count signed w + i < w.bits then a.bit (b.count signed w + i)
      else signed && a.bit (w.bits - 1))
    (BinaryOp.shr.apply (.int signed w) a b)
  and : ∀ a b : Cell, HasBits w (fun i => a.bit i && b.bit i) (BinaryOp.and.apply (.int signed w) a b)
  or : ∀ a b : Cell, HasBits w (fun i => a.bit i || b.bit i) (BinaryOp.or.apply (.int signed w) a b)
  xor : ∀ a b : Cell, HasBits w (fun i => a.bit i ^^ b.bit i) (BinaryOp.xor.apply (.int signed w) a b)
  not : ∀ a : Cell, HasBits w (fun i => !a.bit i) (UnaryOp.not.apply (.int signed w) a)

theorem Width.bits_le (w : Width) : w.bits ≤ 64 := by cases w <;> decide

namespace Cell

variable {w : Width}

theorem toNat_ofBitVec (v : BitVec w.bits) : (ofBitVec v).bits.toNat = v.toNat := by
  have hlt : v.toNat < 2 ^ 64 :=
    Nat.lt_of_lt_of_le v.isLt (Nat.pow_le_pow_right (by decide) w.bits_le)
  exact (BitVec.toNat_setWidth 64 v).trans (Nat.mod_eq_of_lt hlt)

theorem low_ofBitVec (v : BitVec w.bits) : (ofBitVec v).low w.bits = v := by
  simp [low, ofBitVec, BitVec.setWidth_setWidth_of_le, w.bits_le]

theorem fits_ofBitVec (signed : Bool) (v : BitVec w.bits) : (ofBitVec v).Fits (.int signed w) :=
  Value.fits_toCell (.int signed w v)

theorem ofBitVec_ofInt (n : Int) : ofBitVec (BitVec.ofInt w.bits n) = residue w n := by
  have hword : (BitVec.ofInt w.bits n).toNat = (n % w.modulus).toNat := BitVec.toNat_ofInt n
  unfold residue
  rw [← hword, ← toNat_ofBitVec, UInt64.ofNat_toNat]

theorem bit_ofBitVec (v : BitVec w.bits) (i : Nat) : (ofBitVec v).bit i = v.getLsbD i := by
  rw [bit, toNat_ofBitVec, BitVec.testBit_toNat]

theorem getLsbD_low (c : Cell) (i : Nat) :
    (c.low w.bits).getLsbD i = (decide (i < w.bits) && c.bit i) := by
  rw [low, BitVec.getLsbD_setWidth, bit]
  exact congrArg _ (BitVec.testBit_toNat c.bits.toBitVec).symm

end Cell

namespace Value

/-- A word is that of its number. -/
theorem ofInt_intOf (signed : Bool) {n : Nat} (v : BitVec n) :
    BitVec.ofInt n (intOf signed v) = v := by
  cases signed with
  | true => exact BitVec.ofInt_toInt
  | false =>
    simp only [intOf, Bool.false_eq_true, if_false]
    rw [BitVec.ofInt_natCast, BitVec.ofNat_toNat, BitVec.setWidth_eq]

theorem intOf_inj {signed : Bool} {n : Nat} {v v' : BitVec n} :
    intOf signed v = intOf signed v' ↔ v = v' := by
  refine ⟨fun h => ?_, congrArg _⟩
  rw [← ofInt_intOf signed v, h, ofInt_intOf]

theorem intOf_eq_zero {signed : Bool} {n : Nat} {v : BitVec n} : intOf signed v = 0 ↔ v = 0 := by
  have hzero : intOf signed (0 : BitVec n) = 0 := by cases signed <;> simp [intOf]
  rw [← hzero, intOf_inj]

/-- A number of either sign is its word modulo `2 ^ w`. -/
theorem intOf_emod (signed : Bool) {w : Width} (v : BitVec w.bits) :
    intOf signed v % w.modulus = v.toNat := by
  have hword : (intOf signed v % w.modulus).toNat = v.toNat :=
    (BitVec.toNat_ofInt _).symm.trans (congrArg BitVec.toNat (ofInt_intOf signed v))
  have hpos : w.modulus ≠ 0 := by cases w <;> decide
  rw [← hword, Int.toNat_of_nonneg (Int.emod_nonneg _ hpos)]

/-- The quotient of two words. There is one whose number is not in the type, and the word that
stands for it is the dividend. -/
theorem intOf_quotient (signed : Bool) {w : Width} (x y : BitVec w.bits) :
    intOf signed (if signed then x.sdiv y else x.udiv y) =
      if intOf signed x = minInt signed w.bits ∧ intOf signed y = -1 then intOf signed x
      else (intOf signed x).tdiv (intOf signed y) := by
  cases signed with
  | true =>
    have hmin : minInt true w.bits = intOf true (BitVec.intMin w.bits) := by cases w <;> decide
    have hone : (-1 : Int) = intOf true (-1#w.bits) := by cases w <;> decide
    have hlarge : intOf true x = minInt true w.bits ∧ intOf true y = -1 ↔
        x = BitVec.intMin w.bits ∧ y = -1#w.bits := by
      rw [hmin, hone, intOf_inj, intOf_inj]
    by_cases h : x = BitVec.intMin w.bits ∧ y = -1#w.bits
    · rw [if_pos (hlarge.mpr h), if_pos rfl, h.1, h.2, BitVec.intMin_sdiv_neg_one]
    · rw [if_neg (mt hlarge.mp h), if_pos rfl]
      exact BitVec.toInt_sdiv_of_ne_or_ne x y (not_and_or.mp h)
  | false =>
    have hpos : (y.toNat : Int) ≠ -1 := by omega
    simp only [intOf, Bool.false_eq_true, if_false, hpos, and_false]
    exact Int.ofNat_tdiv _ _

theorem intOf_remainder (signed : Bool) {n : Nat} (x y : BitVec n) :
    intOf signed (if signed then x.srem y else x.umod y) =
      (intOf signed x).tmod (intOf signed y) := by
  cases signed with
  | true => exact BitVec.toInt_srem x y
  | false => exact Int.ofNat_tmod _ _

end Value

/-- Quotients and remainders are what they should be for integers of any size, but for the quotient
that is too large. -/
theorem divided_tdiv (signed : Bool) (w : Width) (x : Int) {y : Int} (hy : y ≠ 0) :
    Divided signed w x y (if x = Value.minInt signed w.bits ∧ y = -1 then x else x.tdiv y)
      (x.tmod y) where
  identity := by
    split
    · next h =>
      obtain ⟨rfl, rfl⟩ := h
      rw [Int.tmod_neg, Int.tmod_one]
      -- The least number is its own negative modulo `2 ^ w`.
      cases signed <;> cases w <;> decide
    · rw [Int.mul_tdiv_add_tmod]
  quotient := rfl
  overflow _ hone := by rw [hone, Int.tmod_neg, Int.tmod_one]
  small := by
    rw [Int.natAbs_tmod]
    exact Nat.mod_lt _ (Int.natAbs_pos.mpr hy)
  sign := by
    by_cases hdvd : y ∣ x
    · exact .inl (Int.tmod_eq_zero_of_dvd hdvd)
    · exact .inr (by rw [Int.sign_tmod, if_neg hdvd])

/-- A shift is by the word modulo the width, since the width divides `2 ^ w`. -/
theorem Cell.count_eq (c : Cell) (signed : Bool) (w : Width) :
    c.count signed w = (c.low w.bits).toNat % w.bits := by
  have hdvd : (w.bits : Int) ∣ w.modulus := by cases w <;> decide
  unfold count number
  rw [← Int.emod_emod_of_dvd _ hdvd, Value.intOf_emod]
  exact Int.toNat_natCast _

/-! ## Operations -/

section

variable {signed : Bool} {w : Width}

theorem hasBits_ofBitVec {v : BitVec w.bits} {f : Nat → Bool}
    (h : ∀ i, i < w.bits → v.getLsbD i = f i) : HasBits w f (.ok (.ofBitVec v)) := by
  refine ⟨_, rfl, fun i => ?_⟩
  rw [Cell.bit_ofBitVec]
  by_cases hi : i < w.bits
  · rw [h i hi, decide_eq_true hi, Bool.true_and]
  · rw [BitVec.getLsbD_of_ge v i (Nat.le_of_not_lt hi), decide_eq_false hi, Bool.false_and]

/-- An operation on words that is one on numbers. -/
theorem ok_ofBitVec {v : BitVec w.bits} {n : Int} (h : v = BitVec.ofInt w.bits n) :
    (.ok (.ofBitVec v) : Except Fault Cell) = .ok (.residue w n) := by
  rw [h, Cell.ofBitVec_ofInt]

namespace BinaryOp

variable {op : BinaryOp} {a b c : Cell}

theorem onInts_eq_none {x y : BitVec w.bits} :
    op.onInts signed x y = none ↔ (op = .div ∨ op = .mod) ∧ y = 0 := by
  cases op <;> simp [onInts]

theorem apply_int_eq_ok : op.apply (.int signed w) a b = .ok c ↔
    ∃ v, op.onInts signed (a.low w.bits) (b.low w.bits) = some v ∧ c = .ofBitVec v := by
  simp only [apply]
  split
  · next v hv => simp [hv, eq_comm]
  · next hv => simp [hv]

theorem apply_int_eq_error {f : Fault} : op.apply (.int signed w) a b = .error f ↔
    op.onInts signed (a.low w.bits) (b.low w.bits) = none ∧ f = .divisionByZero := by
  simp only [apply]
  split
  · next v hv => simp [hv]
  · next hv => simp [hv, eq_comm]

end BinaryOp

end

/-- The operations of each of the eight integer types are exact. -/
theorem exactArithmetic_int (signed : Bool) (w : Width) : ExactArithmetic signed w where
  binary_low op a a' b b' ha hb := by simp only [BinaryOp.apply, ha, hb]
  unary_low op a a' ha := by simp only [UnaryOp.apply, ha]
  binary_fits op a b c h := by
    obtain ⟨v, -, rfl⟩ := BinaryOp.apply_int_eq_ok.mp h
    exact Cell.fits_ofBitVec signed v
  unary_fits op a := ⟨_, rfl, Cell.fits_ofBitVec signed _⟩
  add a b := ok_ofBitVec (by
    simp only [Cell.number, BitVec.ofInt_add, Value.ofInt_intOf])
  sub a b := ok_ofBitVec (by
    simp only [Cell.number, Int.sub_eq_add_neg, BitVec.ofInt_add, BitVec.ofInt_neg,
      Value.ofInt_intOf, BitVec.sub_eq_add_neg])
  mul a b := ok_ofBitVec (by
    simp only [Cell.number, BitVec.ofInt_mul, Value.ofInt_intOf])
  neg a := ok_ofBitVec (by
    simp only [Cell.number, BitVec.ofInt_neg, Value.ofInt_intOf, UnaryOp.onInt])
  inc a := ok_ofBitVec (by
    simp only [Cell.number, BitVec.ofInt_add, Value.ofInt_intOf, UnaryOp.onInt]
    rfl)
  dec a := ok_ofBitVec (by
    simp only [Cell.number, Int.sub_eq_add_neg, BitVec.ofInt_add, BitVec.ofInt_neg,
      Value.ofInt_intOf, BitVec.sub_eq_add_neg, UnaryOp.onInt]
    rfl)
  fault op a b f := by rw [BinaryOp.apply_int_eq_error, BinaryOp.onInts_eq_none]
  division a b hb := by
    have hy : b.number signed w ≠ 0 := mt Value.intOf_eq_zero.mp hb
    refine ⟨_, _, BinaryOp.apply_int_eq_ok.mpr ⟨_, if_neg hb, rfl⟩,
      BinaryOp.apply_int_eq_ok.mpr ⟨_, if_neg hb, rfl⟩, ?_⟩
    simp only [Cell.number, Cell.low_ofBitVec, Value.intOf_quotient, Value.intOf_remainder]
    exact divided_tdiv signed w _ hy
  shl a b := hasBits_ofBitVec fun i hi => by
    rw [Cell.count_eq, BitVec.getLsbD_shiftLeft, Cell.getLsbD_low]
    grind
  shr a b := hasBits_ofBitVec fun i hi => by
    rw [Cell.count_eq]
    cases signed with
    | true =>
      rw [if_pos rfl, BitVec.getLsbD_sshiftRight, BitVec.msb_eq_getLsbD_last, Cell.getLsbD_low,
        Cell.getLsbD_low]
      grind
    | false =>
      rw [if_neg (by decide), BitVec.getLsbD_ushiftRight, Cell.getLsbD_low]
      grind
  and a b := hasBits_ofBitVec fun i hi => by
    rw [BitVec.getLsbD_and, Cell.getLsbD_low, Cell.getLsbD_low]
    simp [hi]
  or a b := hasBits_ofBitVec fun i hi => by
    rw [BitVec.getLsbD_or, Cell.getLsbD_low, Cell.getLsbD_low]
    simp [hi]
  xor a b := hasBits_ofBitVec fun i hi => by
    rw [BitVec.getLsbD_xor, Cell.getLsbD_low, Cell.getLsbD_low]
    simp [hi]
  not a := hasBits_ofBitVec fun i hi => by
    simp only [UnaryOp.onInt]
    rw [BitVec.getLsbD_not, Cell.getLsbD_low]
    simp [hi]

example : BinaryOp.div.apply .i8 ⟨0x80⟩ ⟨0xff⟩ = .ok ⟨0x80⟩ := rfl

end CellMachine
