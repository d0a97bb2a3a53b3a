import CellMachine.Machine.Arithmetic
import CellMachine.Proofs.Address

/-!
# Pointer arithmetic

An address is moved by a signed number of bytes, and what moves is the offset alone : base and page
stay what they are, and the field of the offset wraps around (`Address.MovedBy`). There is one
address of that kind for every number (`Address.MovedBy.eq`). So two moves are one, and a move can
be taken back, because that is what becomes of the offset.
-/

namespace CellMachine

/-- Adding a signed number to a word adds it to the number of the word, modulo `2 ^ 64`. -/
theorem toNat_add_toUInt64_emod (x : UInt64) (d : Int64) :
    ((x + d.toUInt64).toNat : Int) % 2 ^ 64 = (x.toNat + d.toInt) % 2 ^ 64 := by
  have hword : d.toInt % (2 ^ 64 : Nat) = d.toUInt64.toNat % (2 ^ 64 : Nat) := by
    rw [Int64.toInt, BitVec.toInt_eq_toNat_bmod, Int.bmod_emod]
    rfl
  rw [UInt64.toNat_add]
  omega

theorem toInt_add_emod (d e : Int64) : (d + e).toInt % 2 ^ 64 = (d.toInt + e.toInt) % 2 ^ 64 := by
  rw [Int64.toInt_add]
  exact Int.bmod_emod

namespace Address

/-- `b` is the place `d` bytes from `a`. Where there is a page, that is a place on the same page. -/
structure MovedBy (d : Int) (a b : Address) : Prop where
  base : b.base? = a.base?
  page : a.isPaged = true → b.page = a.page
  intraOffset : a.isPaged = true → (b.intraOffset.toNat : Int) = (a.intraOffset.toNat + d) % 2 ^ 56
  offset : a.isPaged = false → (b.offset.toNat : Int) = (a.offset.toNat + d) % 2 ^ 61

variable {a b b' c : Address} {d e : Int}

theorem isPaged_of_base?_eq (h : b.base? = a.base?) : b.isPaged = a.isPaged := by
  unfold isPaged
  rw [h]

theorem page_lt (a : Address) : a.page < maxPages := by
  have hlt := toNat_offset_lt a
  rw [page_eq]
  unfold maxPages
  omega

/-- Base and offset make an address. -/
theorem eq_of_offset (hbase : a.base?.isSome = true) (hbase' : b.base? = a.base?)
    (hoffset : b.offset = a.offset) : b = a := by
  obtain ⟨s, hs⟩ := Option.isSome_iff_exists.mp hbase
  rw [eq_make hs, eq_make (hbase'.trans hs), hoffset]

namespace MovedBy

/-- There is one place at a distance. -/
theorem eq (hbase : a.base?.isSome = true) (h : a.MovedBy d b) (h' : a.MovedBy d b') : b = b' := by
  refine eq_of_offset (h'.base ▸ hbase) (h.base.trans h'.base.symm) (UInt64.toNat_inj.mp ?_)
  cases hpaged : a.isPaged with
  | true =>
    have hpage := (h.page hpaged).trans (h'.page hpaged).symm
    have hintra := (h.intraOffset hpaged).trans (h'.intraOffset hpaged).symm
    rw [page_eq, page_eq] at hpage
    rw [toNat_intraOffset, toNat_intraOffset] at hintra
    omega
  | false =>
    have hoffset := (h.offset hpaged).trans (h'.offset hpaged).symm
    omega

theorem zero (a : Address) : a.MovedBy 0 a where
  base := rfl
  page _ := rfl
  intraOffset _ := by
    have hlt := toNat_intraOffset a
    omega
  offset _ := by
    have hlt := toNat_offset_lt a
    omega

theorem trans (h : a.MovedBy d b) (h' : b.MovedBy e c) : a.MovedBy (d + e) c := by
  have hsame := isPaged_of_base?_eq h.base
  refine ⟨h'.base.trans h.base, fun hpaged => ?_, fun hpaged => ?_, fun hpaged => ?_⟩
  · exact (h'.page (hsame.trans hpaged)).trans (h.page hpaged)
  · rw [h'.intraOffset (hsame.trans hpaged), h.intraOffset hpaged]
    omega
  · rw [h'.offset (hsame.trans hpaged), h.offset hpaged]
    omega

/-- Distances of 64 bits are enough for both fields. -/
theorem of_emod_eq (h : a.MovedBy d b) (hd : e % 2 ^ 64 = d % 2 ^ 64) : a.MovedBy e b := by
  refine ⟨h.base, h.page, fun hpaged => ?_, fun hpaged => ?_⟩
  · rw [h.intraOffset hpaged]
    omega
  · rw [h.offset hpaged]
    omega

end MovedBy

theorem movedBy_add (h : a.base?.isSome = true) (d : Int64) : a.MovedBy d.toInt (a.add d) := by
  obtain ⟨s, hbase⟩ := Option.isSome_iff_exists.mp h
  have hpaged : a.isPaged = s.isPaged := by simp [isPaged, hbase]
  unfold add
  simp only [hbase]
  cases hs : s.isPaged with
  | true =>
    rw [hs] at hpaged
    have hoffset := toNat_offset_paged a.page_lt s (a.intraOffset + d.toUInt64)
    have hmoved := toNat_add_toUInt64_emod a.intraOffset d
    rw [if_pos rfl]
    refine ⟨(base?_make s _).trans hbase.symm, fun _ => ?_, fun _ => ?_, fun hother => ?_⟩
    · rw [page_eq, hoffset]
      omega
    · rw [toNat_intraOffset, hoffset]
      omega
    · cases hother.symm.trans hpaged
  | false =>
    rw [hs] at hpaged
    have hmoved := toNat_add_toUInt64_emod a.offset d
    rw [if_neg (by decide)]
    refine ⟨(base?_make s _).trans hbase.symm, fun hother => ?_, fun hother => ?_, fun _ => ?_⟩
    · cases hother.symm.trans hpaged
    · cases hother.symm.trans hpaged
    · rw [offset_make, toNat_offsetMask_and]
      omega

/-- Two moves are one. -/
theorem add_add (h : a.base?.isSome = true) (d e : Int64) : (a.add d).add e = a.add (d + e) := by
  have hmoved := movedBy_add h d
  have hboth := hmoved.trans (movedBy_add (hmoved.base ▸ h) e)
  exact (hboth.of_emod_eq (toInt_add_emod d e)).eq h (movedBy_add h (d + e))

theorem add_zero (h : a.base?.isSome = true) : a.add 0 = a :=
  (movedBy_add h 0).eq h (.zero a)

/-- A move can be taken back. -/
theorem apply_add_sub (h : a.base?.isSome = true) (delta : Cell) :
    (do BinaryOp.sub.apply .addr (← BinaryOp.add.apply .addr (.ofAddress a) delta) delta) =
      .ok (.ofAddress a) := by
  have hback : (a.add delta.bits.toInt64).add (-delta.bits.toInt64) = a := by
    rw [add_add h, Int64.add_right_neg, add_zero h]
  exact congrArg (fun b => Except.ok (Cell.ofAddress b)) hback

/-- Arithmetic on an address that has a base acts on its offset only : the place is moved within its
segment or its page, moves add up, and the machine can take a move back. Putting an address on
another page changes the page and nothing else, and that only where there is one. -/
theorem arithmetic_on_offset (a : Address) :
    (a.base?.isSome = true →
      (∀ d : Int64, a.MovedBy d.toInt (a.add d)) ∧
      (∀ d e : Int64, (a.add d).add e = a.add (d + e)) ∧
      ∀ delta : Cell,
        (do BinaryOp.sub.apply .addr (← BinaryOp.add.apply .addr (.ofAddress a) delta) delta) =
          .ok (.ofAddress a)) ∧
    ∀ page < maxPages, a.OnPage page (a.withPage page) :=
  ⟨fun h => ⟨movedBy_add h, add_add h, apply_add_sub h⟩, fun _ hpage => onPage_withPage hpage a⟩

/-- Behind the last byte of a page comes its first byte, and going back by the least number does not
reach into the page. -/
theorem arithmetic_on_offset_endOfPage :
    ((code 31 0xffffffffffffff).add 2).page = 31 ∧
      ((code 31 0xffffffffffffff).add 2).intraOffset.toNat = 1 ∧
      ((code 31 0xffffffffffffff).add Int64.minValue).add 1 = code 31 0 ∧
      ((code 31 0xffffffffffffff).withPage 4).page = 4 := by
  have hpaged : (code 31 0xffffffffffffff).isPaged = true := by decide
  have hlast : (code 31 0xffffffffffffff).intraOffset.toNat = 2 ^ 56 - 1 := by decide
  obtain ⟨hbase, hpage⟩ := arithmetic_on_offset (code 31 0xffffffffffffff)
  obtain ⟨hmoved, hsum, -⟩ := hbase (by decide)
  refine ⟨((hmoved 2).page hpaged).trans (by decide), ?_, (hsum _ _).trans (by decide),
    (hpage 4 (by decide)).page hpaged⟩
  have hintra := (hmoved 2).intraOffset hpaged
  rw [hlast] at hintra
  exact Int.ofNat_inj.mp (hintra.trans (by decide))

end Address

end CellMachine
