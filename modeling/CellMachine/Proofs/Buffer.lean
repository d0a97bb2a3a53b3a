import CellMachine.Bytes
import Mathlib.Algebra.Ring.Nat

/-!
# Bytes at a place of a buffer

A number that was spelled in bytes is read back (`ofLittleEndian_littleEndian`).
`Buffer.Holds b pos bs` says that the bytes `bs` stand in `b` from `pos` on. It splits along
appended byte strings (`Buffer.holds_append`), and a write makes it true at its own place
(`Buffer.holds_write`). `Buffer.Patched` says the same of several writes at once, with everything
else as it was.
-/

namespace CellMachine

/-- Reading back what was spelled in `n` bytes gives the number modulo `256 ^ n`. -/
theorem ofLittleEndian_littleEndian (n x : Nat) :
    ofLittleEndian (littleEndian n x) = x % 256 ^ n := by
  induction n generalizing x with
  | zero => simp [littleEndian, ofLittleEndian, Nat.mod_one]
  | succ n ih =>
    have hpow : 256 ^ (n + 1) = 256 * 256 ^ n := Nat.pow_succ'
    rw [littleEndian, ofLittleEndian, ih, UInt8.toNat_ofNat', hpow, Nat.mod_mul]

namespace Buffer

theorem read_eq_take_drop (b : Buffer) (start len : Nat) :
    b.read start len = (b.toList.drop start).take len := by
  rw [read, Array.toList_extract, List.extract_eq_take_drop, Nat.add_sub_cancel_left]

theorem toList_write (b : Buffer) (start : Nat) (xs : List UInt8)
    (h : start + xs.length ≤ b.size) :
    (b.write start xs).toList = b.toList.take start ++ xs ++ b.toList.drop (start + xs.length) := by
  induction xs generalizing b start with
  | nil => simp [write]
  | cons x rest ih =>
    simp only [List.length_cons] at h
    have hlt : start < b.toList.length := by simp; omega
    rw [write, ih _ _ (by simp; omega), Array.toList_setIfInBounds, List.take_set,
      List.drop_set_of_lt (by omega), List.set_eq_take_append_cons_drop,
      if_pos (by simp; omega)]
    simp [List.take_take, show start + 1 + rest.length = start + (rest.length + 1) by omega]

variable {bs new xs ys : List UInt8} {i len pos start : Nat} {b b' : Buffer}

/-- A write over bytes in the middle puts as many others in their place. -/
theorem toList_write_middle {zs cs : List UInt8} (h : b.toList = xs ++ ys ++ zs)
    (hstart : start = xs.length) (hlen : cs.length = ys.length) :
    (b.write start cs).toList = xs ++ cs ++ zs := by
  have hsize : b.size = xs.length + ys.length + zs.length := by
    rw [← Array.length_toList, h, List.length_append, List.length_append]
  have hdrop : (xs ++ ys ++ zs).drop (xs.length + ys.length) = zs :=
    List.drop_left' (List.length_append)
  have htake : (xs ++ ys ++ zs).take xs.length = xs := by
    rw [List.append_assoc, List.take_left]
  rw [toList_write _ _ _ (by omega), h, hstart, hlen, hdrop, htake]

/-- `ys` is `xs` with `new` in the place of as many bytes from `start` on. -/
def Replaces (start : Nat) (new xs ys : List UInt8) : Prop :=
  ∃ front old back, xs = front ++ old ++ back ∧ ys = front ++ new ++ back ∧
    start = front.length ∧ new.length = old.length

theorem replaces_self (h : ys.length = xs.length) : Replaces 0 ys xs ys :=
  ⟨[], xs, [], by simp, by simp, rfl, h⟩

theorem Replaces.append_left (h : Replaces start new xs ys) (pre : List UInt8) :
    Replaces (pre.length + start) new (pre ++ xs) (pre ++ ys) := by
  obtain ⟨front, old, back, rfl, rfl, rfl, hlen⟩ := h
  exact ⟨pre ++ front, old, back, by simp, by simp, by simp, hlen⟩

theorem Replaces.append_right (h : Replaces start new xs ys) (post : List UInt8) :
    Replaces start new (xs ++ post) (ys ++ post) := by
  obtain ⟨front, old, back, rfl, rfl, rfl, hlen⟩ := h
  exact ⟨front, old, back ++ post, by simp, by simp, rfl, hlen⟩

theorem toList_write_of_replaces (hb : b.toList = xs) (h : Replaces start new xs ys) :
    (b.write start new).toList = ys := by
  obtain ⟨front, old, back, rfl, rfl, hstart, hlen⟩ := h
  exact toList_write_middle hb hstart hlen

/-- The bytes `bs` stand at `pos`. -/
def Holds (b : Buffer) (pos : Nat) (bs : List UInt8) : Prop :=
  pos + bs.length ≤ b.size ∧ b.read pos bs.length = bs

theorem holds_iff_exists :
    b.Holds pos bs ↔ ∃ pre post, b.toList = pre ++ bs ++ post ∧ pre.length = pos := by
  constructor
  · rintro ⟨hle, hread⟩
    refine ⟨b.toList.take pos, b.toList.drop (pos + bs.length), ?_, by simp; omega⟩
    rw [read_eq_take_drop] at hread
    have hdrop := List.take_append_drop bs.length (b.toList.drop pos)
    rw [hread, List.drop_drop] at hdrop
    rw [List.append_assoc, hdrop, List.take_append_drop]
  · rintro ⟨pre, post, hb, rfl⟩
    have hsize : b.size = (pre ++ bs ++ post).length := by rw [← hb]; simp
    refine ⟨by rw [hsize]; simp, ?_⟩
    rw [read_eq_take_drop, hb]
    simp

theorem holds_of_toList {pre post : List UInt8} (h : b.toList = pre ++ bs ++ post) :
    b.Holds pre.length bs :=
  holds_iff_exists.mpr ⟨pre, post, h, rfl⟩

theorem holds_append : b.Holds pos (xs ++ ys) ↔ b.Holds pos xs ∧ b.Holds (pos + xs.length) ys := by
  constructor
  · intro h
    obtain ⟨pre, post, hb, rfl⟩ := holds_iff_exists.mp h
    exact ⟨holds_iff_exists.mpr ⟨pre, ys ++ post, by simp [hb], rfl⟩,
      holds_iff_exists.mpr ⟨pre ++ xs, post, by simp [hb], by simp⟩⟩
  · rintro ⟨⟨hle, hread⟩, ⟨hle', hread'⟩⟩
    refine ⟨by simp; omega, ?_⟩
    rw [read_eq_take_drop] at hread hread' ⊢
    rw [List.length_append, List.take_add, hread, List.drop_drop, hread']

theorem Holds.getElem?_add (h : b.Holds pos bs) (hi : i < bs.length) : b[pos + i]? = bs[i]? := by
  obtain ⟨pre, post, hb, rfl⟩ := holds_iff_exists.mp h
  rw [← Array.getElem?_toList, hb, List.append_assoc, List.getElem?_append_right (by omega),
    Nat.add_sub_cancel_left, List.getElem?_append_left hi]

/-- Bytes stay where they are if none of their places changes. -/
theorem Holds.of_getElem?_eq (h : b.Holds pos bs) (hsize : pos + bs.length ≤ b'.size)
    (heq : ∀ i : Nat, i < pos + bs.length → b'[i]? = b[i]?) : b'.Holds pos bs := by
  refine ⟨hsize, Eq.trans (List.ext_getElem? fun i => ?_) h.2⟩
  rw [read_eq_take_drop, read_eq_take_drop, List.getElem?_take, List.getElem?_take]
  split
  · next hi => simpa using heq (pos + i) (by omega)
  · rfl

/-- A write that lies inside the buffer is found there. -/
theorem holds_write (h : start + xs.length ≤ b.size) : (b.write start xs).Holds start xs :=
  holds_iff_exists.mpr ⟨_, _, toList_write b start xs h, by simp; omega⟩

/-- A read sees what it saw if none of its bytes is written. -/
theorem read_write_of_outside
    (h : ∀ i, pos ≤ i → i < pos + len → i < start ∨ start + xs.length ≤ i) :
    (b.write start xs).read pos len = b.read pos len := by
  apply List.ext_getElem?
  intro i
  rw [read_eq_take_drop, read_eq_take_drop, List.getElem?_take, List.getElem?_take]
  split
  · next hi =>
    have := getElem?_write_of_outside b start xs (pos + i) (h _ (by omega) (by omega))
    simpa using this
  · rfl

theorem read_write_of_apart (h : pos + len ≤ start ∨ start + xs.length ≤ pos) :
    (b.write start xs).read pos len = b.read pos len :=
  read_write_of_outside fun i _ _ => by omega

theorem take_write {n : Nat} (xs : List UInt8) (h : n ≤ start) :
    (b.write start xs).toList.take n = b.toList.take n := by
  have hread : (b.write start xs).read 0 n = b.read 0 n :=
    read_write_of_apart (Or.inl (by omega))
  simpa [read_eq_take_drop] using hread

/-! ## Several writes -/

/-- Byte strings at places that do not overlap. -/
def Apart (p q : Nat × List UInt8) : Prop := p.1 + p.2.length ≤ q.1 ∨ q.1 + q.2.length ≤ p.1

theorem write_setIfInBounds (x : UInt8) (h : i < start ∨ start + xs.length ≤ i) :
    write (b.setIfInBounds i x) start xs = (b.write start xs).setIfInBounds i x := by
  induction xs generalizing b start with
  | nil => rfl
  | cons y rest ih =>
    simp only [List.length_cons] at h
    have hne : i ≠ start := by omega
    rw [write, Array.setIfInBounds_comm _ _ hne, ih (by omega)]
    rfl

/-- Writes at places that do not overlap can be done in any order. -/
theorem write_comm {j : Nat} (h : Apart (i, xs) (j, ys)) :
    (b.write i xs).write j ys = (b.write j ys).write i xs := by
  induction xs generalizing b i with
  | nil => rfl
  | cons x rest ih =>
    simp only [Apart, List.length_cons] at h
    have hrest : Apart (i + 1, rest) (j, ys) := by
      simp only [Apart]
      omega
    rw [write, ih hrest, write_setIfInBounds x (by omega)]
    rfl

theorem write_append (h : start + xs.length ≤ b.size) (c : Buffer) :
    (b ++ c).write start xs = b.write start xs ++ c := by
  induction xs generalizing b start with
  | nil => rfl
  | cons x rest ih =>
    rw [List.length_cons] at h
    rw [write, write, Array.setIfInBounds_append_left (by omega)]
    exact ih (by simp; omega)

theorem Holds.write_apart (h : b.Holds pos bs) (hapart : Apart (pos, bs) (start, xs)) :
    (b.write start xs).Holds pos bs :=
  ⟨by simpa using h.1, (read_write_of_apart hapart).trans h.2⟩

/-- Bytes that were overwritten are there again once they are written again. -/
theorem Holds.write_write (h : b.Holds pos bs) (hlen : xs.length = bs.length) :
    (b.write pos xs).write pos bs = b := by
  obtain ⟨pre, post, hb, rfl⟩ := holds_iff_exists.mp h
  have hwrite := toList_write_middle hb rfl hlen
  apply Array.toList_inj.mp
  rw [toList_write_middle hwrite rfl hlen.symm, hb]

/-- Byte strings were written at their places, and nothing else was changed. -/
structure Patched (ps : List (Nat × List UInt8)) (b b' : Buffer) : Prop where
  size : b'.size = b.size
  holds : ∀ p ∈ ps, b'.Holds p.1 p.2
  elsewhere : ∀ i : Nat, (∀ p ∈ ps, i < p.1 ∨ p.1 + p.2.length ≤ i) → b'[i]? = b[i]?

theorem patched_nil (b : Buffer) : Patched [] b b := ⟨rfl, by simp, fun _ _ => rfl⟩

theorem patched_write (h : start + xs.length ≤ b.size) :
    Patched [(start, xs)] b (b.write start xs) where
  size := size_write b start xs
  holds p hp := by
    rw [List.mem_singleton.mp hp]
    exact holds_write h
  elsewhere i hi := getElem?_write_of_outside b start xs i (hi (start, xs) (by simp))

theorem Patched.read_eq {ps : List (Nat × List UInt8)} (h : Patched ps b b')
    (hapart : ∀ p ∈ ps, pos + len ≤ p.1 ∨ p.1 + p.2.length ≤ pos) :
    b'.read pos len = b.read pos len := by
  apply List.ext_getElem?
  intro i
  rw [read_eq_take_drop, read_eq_take_drop, List.getElem?_take, List.getElem?_take]
  split
  · next hi =>
    have helse := h.elsewhere (pos + i) fun p hp => by
      have := hapart p hp
      omega
    simpa using helse
  · rfl

/-- Later writes leave earlier ones alone if they lie apart from them. -/
theorem Patched.trans {ps qs : List (Nat × List UInt8)} {b₁ : Buffer} (h : Patched ps b b₁)
    (h' : Patched qs b₁ b') (hapart : ∀ p ∈ ps, ∀ q ∈ qs, Apart p q) : Patched (ps ++ qs) b b' where
  size := h'.size.trans h.size
  holds p hp := by
    rcases List.mem_append.mp hp with hp | hp
    · have hheld := h.holds p hp
      refine ⟨by rw [h'.size]; exact hheld.1, ?_⟩
      rw [h'.read_eq fun q hq => hapart p hp q hq, hheld.2]
    · exact h'.holds p hp
  elsewhere i hi := by
    rw [h'.elsewhere i fun q hq => hi q (List.mem_append_right _ hq),
      h.elsewhere i fun p hp => hi p (List.mem_append_left _ hp)]

end Buffer

end CellMachine
