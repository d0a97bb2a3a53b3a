import CellMachine.Address
import Mathlib

/-!
# Addresses and their parts

An address is made of its base and its offset (`Address.eq_make`), and both can be read off an
address that was made of them. Where the offset starts with a page, `Address.withPage` changes
that page and nothing else (`Address.onPage_iff`).
-/

namespace CellMachine.Address

theorem toNat_offsetMask_and (x : UInt64) :
    (x &&& offsetMask).toNat = x.toNat % 2 ^ 61 := by
  rw [UInt64.toNat_and]
  exact Nat.and_two_pow_sub_one_eq_mod x.toNat 61

theorem toNat_offset_lt (a : Address) : a.offset.toNat < 2 ^ 61 := by
  unfold offset
  rw [toNat_offsetMask_and]
  exact Nat.mod_lt _ (by decide)

theorem offset_make (b : Base) (x : UInt64) :
    (make b x).offset = x &&& offsetMask := by
  have hbase : b.toBits <<< baseShift &&& offsetMask = 0 := by cases b <;> decide
  have hnat := congrArg UInt64.toNat hbase
  rw [UInt64.toNat_and] at hnat
  apply UInt64.toNat_inj.mp
  unfold make offset
  rw [UInt64.toNat_and, UInt64.toNat_or, UInt64.toNat_and, Nat.and_or_distrib_right, hnat,
    Nat.and_assoc, Nat.and_self]
  exact Nat.zero_or _

theorem toNat_offset_make {n : Nat} (h : n < 2 ^ 61) (b : Base) :
    (make b (UInt64.ofNat n)).offset.toNat = n := by
  rw [offset_make, toNat_offsetMask_and, UInt64.toNat_ofNat']
  omega

theorem base?_make (b : Base) (x : UInt64) : (make b x).base? = some b := by
  have hbase : b.toBits <<< baseShift >>> baseShift = b.toBits := by
    cases b <;> decide
  have hoffset : (x &&& offsetMask) >>> baseShift = 0 := by
    apply UInt64.toNat_inj.mp
    rw [UInt64.toNat_shiftRight, toNat_offsetMask_and]
    have hlt : x.toNat % 2 ^ 61 < 2 ^ 61 := Nat.mod_lt _ (by decide)
    exact Nat.shiftRight_eq_zero _ _ hlt
  have hbits : Base.ofBits? b.toBits = some b := by cases b <;> rfl
  unfold base? make
  rw [UInt64.shiftRight_or, hbase, hoffset, UInt64.or_zero, hbits]

variable {a : Address} {page : Nat}

/-- An address is made of its base and its offset. -/
theorem eq_make {b : Base} (h : a.base? = some b) : a = .make b a.offset := by
  have hbits : b.toBits = a.bits >>> baseShift := by
    have hfind := List.find?_some h
    simpa using hfind
  have hshift : (a.bits >>> baseShift <<< baseShift).toNat = a.bits.toNat >>> 61 <<< 61 := by
    have hlt := a.bits.toNat_lt
    rw [UInt64.toNat_shiftLeft, UInt64.toNat_shiftRight]
    change a.bits.toNat >>> 61 <<< 61 % 2 ^ 64 = _
    rw [Nat.shiftLeft_eq, Nat.shiftRight_eq_div_pow]
    omega
  apply congrArg mk
  apply UInt64.toNat_inj.mp
  rw [hbits, UInt64.toNat_or, hshift, toNat_offsetMask_and]
  change _ = _ ||| (a.bits &&& offsetMask).toNat % 2 ^ 61
  rw [toNat_offsetMask_and, Nat.mod_mod,
    ← Nat.shiftLeft_add_eq_or_of_lt (Nat.mod_lt _ (by decide)), Nat.shiftLeft_eq,
    Nat.shiftRight_eq_div_pow, Nat.div_add_mod']

/-! ## Pages -/

theorem toNat_intraMask_and (x : UInt64) : (x &&& intraMask).toNat = x.toNat % 2 ^ 56 := by
  rw [UInt64.toNat_and]
  exact Nat.and_two_pow_sub_one_eq_mod x.toNat 56

theorem toNat_intraOffset (a : Address) : a.intraOffset.toNat = a.offset.toNat % 2 ^ 56 :=
  toNat_intraMask_and a.offset

theorem page_eq (a : Address) : a.page = a.offset.toNat / 2 ^ 56 := by
  have hlt := toNat_offset_lt a
  have hshift : (a.offset >>> pageShift).toNat = a.offset.toNat / 2 ^ 56 := by
    rw [UInt64.toNat_shiftRight]
    exact Nat.shiftRight_eq_div_pow _ 56
  unfold page
  rw [UInt64.toNat_and, hshift]
  change a.offset.toNat / 2 ^ 56 &&& 2 ^ 5 - 1 = _
  rw [Nat.and_two_pow_sub_one_eq_mod]
  omega

theorem toNat_offset_paged (h : page < maxPages) (b : Base) (x : UInt64) :
    (paged b page x).offset.toNat = page * 2 ^ 56 + x.toNat % 2 ^ 56 := by
  have hpage : (UInt64.ofNat page &&& pageMask).toNat = page := by
    rw [UInt64.toNat_and, UInt64.toNat_ofNat']
    change page % 2 ^ 64 &&& 2 ^ 5 - 1 = page
    rw [Nat.and_two_pow_sub_one_eq_mod]
    unfold maxPages at h
    omega
  have hshift : ((UInt64.ofNat page &&& pageMask) <<< pageShift).toNat = page <<< 56 := by
    rw [UInt64.toNat_shiftLeft, hpage]
    change page <<< 56 % 2 ^ 64 = _
    rw [Nat.shiftLeft_eq]
    unfold maxPages at h
    omega
  have hintra : (x &&& intraMask).toNat < 2 ^ 56 := by
    rw [toNat_intraMask_and]
    exact Nat.mod_lt _ (by decide)
  unfold paged
  rw [offset_make, toNat_offsetMask_and, UInt64.toNat_or, hshift,
    ← Nat.shiftLeft_add_eq_or_of_lt hintra, toNat_intraMask_and, Nat.shiftLeft_eq]
  unfold maxPages at h
  omega

/-- Whether an address has a page. -/
def isPaged (a : Address) : Bool := (a.base?.map Base.isPaged).getD false

theorem isPaged_iff : a.isPaged = true ↔ ∃ b, a.base? = some b ∧ b.isPaged = true := by
  unfold isPaged
  cases a.base? with
  | none => simp
  | some b => simp

theorem withPage_of_base? {b : Base} (h : a.base? = some b) (hb : b.isPaged = true) (page : Nat) :
    a.withPage page = paged b page a.intraOffset := by
  simp only [withPage, h, hb, if_true]

theorem withPage_of_not_isPaged (h : a.isPaged = false) (page : Nat) : a.withPage page = a := by
  unfold isPaged at h
  unfold withPage
  cases hbase : a.base? with
  | none => rfl
  | some b =>
    have hb : b.isPaged = false := by simpa [hbase] using h
    simp only [hb, Bool.false_eq_true, if_false]

/-- `b` is the place `a` on a page : where `a` has a page, that one takes its place, and nothing
else changes. -/
structure OnPage (page : Nat) (a b : Address) : Prop where
  base : b.base? = a.base?
  page : a.isPaged = true → b.page = page
  intraOffset : b.intraOffset = a.intraOffset
  other : a.isPaged = false → b = a

theorem onPage_withPage (h : page < maxPages) (a : Address) : a.OnPage page (a.withPage page) := by
  cases hpaged : a.isPaged with
  | true =>
    obtain ⟨b, hbase, hb⟩ := isPaged_iff.mp hpaged
    have hoffset := toNat_offset_paged h b a.intraOffset
    have hlt : a.intraOffset.toNat < 2 ^ 56 := by
      rw [toNat_intraOffset]
      exact Nat.mod_lt _ (by decide)
    rw [withPage_of_base? hbase hb]
    constructor
    · rw [hbase]
      exact base?_make b _
    · intro _
      rw [page_eq, hoffset]
      omega
    · apply UInt64.toNat_inj.mp
      rw [toNat_intraOffset, hoffset]
      omega
    · intro hother
      rw [hpaged] at hother
      cases hother
  | false =>
    rw [withPage_of_not_isPaged hpaged]
    constructor
    · rfl
    · intro hpaged'
      rw [hpaged] at hpaged'
      cases hpaged'
    · rfl
    · intro _
      rfl

/-- Base, page and place on it make an address. -/
theorem OnPage.eq {b b' : Address} (h : a.OnPage page b) (h' : a.OnPage page b') : b = b' := by
  by_cases hpaged : a.isPaged = true
  · have hoffset : b.offset = b'.offset := by
      have hpage := (h.page hpaged).trans (h'.page hpaged).symm
      have hintra := congrArg UInt64.toNat (h.intraOffset.trans h'.intraOffset.symm)
      rw [page_eq, page_eq] at hpage
      rw [toNat_intraOffset, toNat_intraOffset] at hintra
      apply UInt64.toNat_inj.mp
      omega
    cases hbase : a.base? with
    | none => simp [isPaged, hbase] at hpaged
    | some s =>
      rw [eq_make (h.base.trans hbase), eq_make (h'.base.trans hbase), hoffset]
  · have hother : a.isPaged = false := by simpa using hpaged
    rw [h.other hother, h'.other hother]

theorem onPage_iff (h : page < maxPages) {b : Address} : a.OnPage page b ↔ b = a.withPage page :=
  ⟨fun hb => hb.eq (onPage_withPage h a), fun hb => hb ▸ onPage_withPage h a⟩

end CellMachine.Address
