import CellMachine.Container.Codec
import CellMachine.Proofs.Buffer
import Mathlib

/-!
# Reading back what was written

A byte reader takes a value off the front of a byte string. `Takes r bs x` says that it takes `x`
off `bs`, whatever follows. `Determined r` says that bytes behind those at hand only lengthen the
rest, unless the reader has run out of bytes. A determined reader that takes a value off `bs` runs
out of bytes on every strict beginning of `bs` (`Takes.truncated`).

Both properties go through sequences (`Takes.andThen`, `Determined.andThen`). What a codec writes
is described by pieces : bytes as they are and numbers in groups of seven bits. `Lawful c P layout`
says that `c` writes the values with `P` in the pieces that `layout` gives, that it reads them
back, and that its reader is determined. A codec built from lawful ones is lawful.
-/

namespace CellMachine

/-- Takes a value off the front of a byte string. -/
abbrev ByteReader (α : Type) := List UInt8 → Except CodecError (α × List UInt8)

namespace Codec

variable {α β : Type}

/-! ## Readers -/

/-- The reader takes `x` off the bytes `bs`, whatever follows them. -/
def Takes (r : ByteReader α) (bs : List UInt8) (x : α) : Prop :=
  ∀ rest, r (bs ++ rest) = .ok (x, rest)

/-- Unless the reader has run out of bytes, more of them only lengthen the rest. -/
def Determined (r : ByteReader α) : Prop :=
  ∀ bs more, r bs ≠ .error .truncated →
    r (bs ++ more) = (r bs).map fun p => (p.1, p.2 ++ more)

/-- One reader, then another that may depend on the value of the first. -/
def andThen (r : ByteReader α) (k : α → ByteReader β) : ByteReader β := fun bs =>
  match r bs with
  | .error e => .error e
  | .ok (x, rest) => k x rest

/-- Another reader for the value of a reader. -/
def mapped (r : ByteReader α) (f : α → β) : ByteReader β := andThen r fun x bs => .ok (f x, bs)

/-- A reader that takes a value off `bs` runs out of bytes where only a beginning of `bs` is
left. -/
theorem Takes.truncated {r : ByteReader α} {bs more : List UInt8} {x : α}
    (h : Takes r (bs ++ more) x) (hr : Determined r) (hmore : more ≠ []) :
    r bs = .error .truncated := by
  by_contra hne
  have hall := h []
  rw [List.append_nil, hr bs more hne] at hall
  cases hread : r bs with
  | error e => simp [hread, Except.map] at hall
  | ok p =>
    -- What was read leaves a rest that ends in `more`, and nothing is left of all the bytes.
    simp only [hread, Except.map, Except.ok.injEq, Prod.mk.injEq, List.append_eq_nil_iff] at hall
    exact hmore hall.2.2

theorem Takes.andThen {r : ByteReader α} {k : α → ByteReader β} {bs bs' : List UInt8} {x : α}
    {y : β} (hr : Takes r bs x) (hk : Takes (k x) bs' y) :
    Takes (andThen r k) (bs ++ bs') y := by
  intro rest
  simp only [Codec.andThen, List.append_assoc, hr (bs' ++ rest), hk rest]

theorem takes_pure (x : α) : Takes (fun bs => .ok (x, bs)) [] x := fun _ => rfl

theorem Takes.mapped {r : ByteReader α} {bs : List UInt8} {x : α} (h : Takes r bs x) (f : α → β) :
    Takes (mapped r f) bs (f x) := by
  intro rest
  simp only [Codec.mapped, Codec.andThen, h rest]

theorem determined_error (e : CodecError) : Determined (fun _ => .error e : ByteReader α) :=
  fun _ _ _ => rfl

theorem determined_pure (x : α) : Determined fun bs => .ok (x, bs) := fun _ _ _ => rfl

theorem Determined.andThen {r : ByteReader α} {k : α → ByteReader β} (hr : Determined r)
    (hk : ∀ x, Determined (k x)) : Determined (andThen r k) := by
  intro bs more hne
  have hfirst : r bs ≠ .error .truncated := fun h => hne (by simp only [Codec.andThen, h])
  have hbs := hr bs more hfirst
  cases hread : r bs with
  | error e => simp only [Codec.andThen, hbs, hread, Except.map]
  | ok p =>
    have hsecond : k p.1 p.2 ≠ .error .truncated := fun h =>
      hne (by simp only [Codec.andThen, hread, h])
    simp only [Codec.andThen, hbs, hread, Except.map]
    exact hk p.1 p.2 more hsecond

theorem Determined.mapped {r : ByteReader α} (h : Determined r) (f : α → β) :
    Determined (mapped r f) := h.andThen fun x => determined_pure (f x)

/-! ## Layouts -/

/-- A number in groups of seven bits, the lowest group first. Every byte but the last has its top
bit set, and no group is there in vain. -/
inductive Groups : Nat → List UInt8 → Prop
  | last {b : UInt8} (h : b.toNat < 128) : Groups b.toNat [b]
  | more {b : UInt8} {n : Nat} {bs : List UInt8} (hb : 128 ≤ b.toNat) (hn : 0 < n)
      (h : Groups n bs) : Groups (b.toNat - 128 + 128 * n) (b :: bs)

/-- What the body of a container is made of. -/
inductive Piece where
  /-- Bytes as they are. -/
  | raw (bs : List UInt8)
  /-- A number in groups. -/
  | number (n : Nat)

/-- The bytes are those of the pieces, one piece behind the other. -/
inductive Spelled : List Piece → List UInt8 → Prop
  | nil : Spelled [] []
  | raw {bs out : List UInt8} {ps : List Piece} (h : Spelled ps out) :
      Spelled (.raw bs :: ps) (bs ++ out)
  | number {n : Nat} {bs out : List UInt8} {ps : List Piece} (hn : Groups n bs)
      (h : Spelled ps out) : Spelled (.number n :: ps) (bs ++ out)

theorem spelled_raw (bs : List UInt8) : Spelled [.raw bs] bs := by
  have h : Spelled [.raw bs] (bs ++ []) := .raw .nil
  rwa [List.append_nil] at h

theorem spelled_number {n : Nat} {bs : List UInt8} (h : Groups n bs) : Spelled [.number n] bs := by
  have h' := Spelled.number h .nil
  rwa [List.append_nil] at h'

theorem Spelled.append {ps qs : List Piece} {bs bs' : List UInt8} (h : Spelled ps bs)
    (h' : Spelled qs bs') : Spelled (ps ++ qs) (bs ++ bs') := by
  induction h with
  | nil => exact h'
  | raw _ ih =>
    rw [List.cons_append, List.append_assoc]
    exact .raw ih
  | number hn _ ih =>
    rw [List.cons_append, List.append_assoc]
    exact .number hn ih

/-! ## Lawful codecs -/

/-- The codec writes the values with `P` in the pieces of `layout` and reads them back, and its
reader is determined. -/
structure Lawful (c : Codec α) (P : α → Prop) (layout : α → List Piece) : Prop where
  spelled : ∀ x, P x → Spelled (layout x) (c.write x)
  takes : ∀ x, P x → Takes c.read (c.write x) x
  determined : Determined c.read

theorem read_pair (a : Codec α) (b : Codec β) :
    (pair a b).read = andThen a.read fun x => mapped b.read fun y => (x, y) := by
  funext bs
  cases ha : a.read bs with
  | error e => simp only [pair, andThen, ha]
  | ok p =>
    cases hb : b.read p.2 with
    | error e => simp only [pair, andThen, mapped, ha, hb]
    | ok q => simp only [pair, andThen, mapped, ha, hb]

theorem Lawful.pair {a : Codec α} {b : Codec β} {P : α → Prop} {Q : β → Prop}
    {layout : α → List Piece} {layout' : β → List Piece} (ha : Lawful a P layout)
    (hb : Lawful b Q layout') :
    Lawful (pair a b) (fun p => P p.1 ∧ Q p.2) fun p => layout p.1 ++ layout' p.2 where
  spelled p hp := (ha.spelled p.1 hp.1).append (hb.spelled p.2 hp.2)
  takes p hp := by
    rw [read_pair]
    exact (ha.takes p.1 hp.1).andThen ((hb.takes p.2 hp.2).mapped _)
  determined := by
    rw [read_pair]
    exact ha.determined.andThen fun x => hb.determined.mapped _

theorem Lawful.imap {c : Codec α} {P : α → Prop} {layout : α → List Piece} {f : β → α}
    {g : α → β} (h : Lawful c P layout) (hg : ∀ y, g (f y) = y) :
    Lawful (c.imap f g) (fun y => P (f y)) fun y => layout (f y) where
  spelled y hy := h.spelled (f y) hy
  takes y hy := by
    have hread := (h.takes (f y) hy).mapped g
    rwa [hg y] at hread
  determined := h.determined.mapped g

/-- A value that was read, where it stands for one of another type. -/
def recognize (g : α → Option β) (e : CodecError) (x : α) : ByteReader β := fun bs =>
  match g x with
  | none => .error e
  | some y => .ok (y, bs)

theorem determined_recognize (g : α → Option β) (e : CodecError) (x : α) :
    Determined (recognize g e x) := by
  unfold recognize
  cases g x with
  | none => exact determined_error e
  | some y => exact determined_pure y

theorem Lawful.refine {c : Codec α} {P : α → Prop} {layout : α → List Piece} {f : β → α}
    {g : α → Option β} {e : CodecError} {Q : β → Prop} (h : Lawful c P layout)
    (hf : ∀ y, Q y → P (f y) ∧ g (f y) = some y) :
    Lawful (c.refine f g e) Q fun y => layout (f y) where
  spelled y hy := h.spelled (f y) (hf y hy).1
  takes y hy := by
    obtain ⟨hp, hg⟩ := hf y hy
    have hrecognize : Takes (recognize g e (f y)) [] y := fun rest => by
      simp only [recognize, hg, List.nil_append]
    have hread := (h.takes (f y) hp).andThen hrecognize
    rwa [List.append_nil] at hread
  determined := h.determined.andThen (determined_recognize g e)

/-! ## Bytes and numbers -/

theorem lawful_byte : Lawful byte (fun _ => True) fun b => [.raw [b]] where
  spelled b _ := spelled_raw [b]
  takes _ _ _ := rfl
  determined bs more hne := by
    cases bs with
    | nil => exact absurd rfl hne
    | cons b rest => rfl

theorem lawful_bool : Lawful bool (fun _ => True) fun b => [.raw [if b then 1 else 0]] where
  spelled b _ := spelled_raw _
  takes b _ _ := by cases b <;> rfl
  determined bs more hne := by
    cases bs with
    | nil => exact absurd rfl hne
    | cons b rest =>
      simp only [bool, List.cons_append]
      split <;> simp_all [Except.map]

theorem takes_take (bs : List UInt8) : Takes (take bs.length) bs bs := fun rest => by
  simp [take]

theorem determined_take (n : Nat) : Determined (take n) := by
  intro bs more hne
  have hle : n ≤ bs.length := by
    by_contra hlt
    exact hne (if_neg hlt)
  have hle' : n ≤ (bs ++ more).length := by
    rw [List.length_append]
    omega
  simp only [take, if_pos hle, if_pos hle', Except.map, List.take_append_of_le_length hle,
    List.drop_append_of_le_length hle]

theorem read_fixed (n : Nat) : (fixed n).read = mapped (take n) ofLittleEndian := by
  funext bs
  cases h : take n bs with
  | error e => simp only [fixed, mapped, andThen, h]
  | ok p => simp only [fixed, mapped, andThen, h]

theorem lawful_fixed (n : Nat) :
    Lawful (fixed n) (fun x => x < 256 ^ n) fun x => [.raw (littleEndian n x)] where
  spelled x _ := spelled_raw (littleEndian n x)
  takes x hx := by
    have hread := (takes_take (littleEndian n x)).mapped ofLittleEndian
    rwa [length_littleEndian, ← read_fixed, ofLittleEndian_littleEndian, Nat.mod_eq_of_lt hx]
      at hread
  determined := by
    rw [read_fixed]
    exact (determined_take n).mapped _

variable {last x : Nat}

theorem toNat_ofNat_small (h : x < 256) : (UInt8.ofNat x).toNat = x := by
  rw [UInt8.toNat_ofNat', Nat.mod_eq_of_lt h]

/-- What is left behind the first group fits the groups that are left. -/
theorem div_lt_room {n : Nat} (hx : x < 128 ^ (n + 1) * (last + 1)) :
    x / 128 < 128 ^ n * (last + 1) := by
  rw [Nat.div_lt_iff_lt_mul (by decide)]
  calc x < 128 ^ (n + 1) * (last + 1) := hx
    _ = 128 ^ n * (last + 1) * 128 := by ring

theorem groups_of_lt (h : x < 128) : Groups x [UInt8.ofNat x] := by
  have hbyte := toNat_ofNat_small (x := x) (by omega)
  have hlast := Groups.last (b := UInt8.ofNat x) (by omega)
  rwa [hbyte] at hlast

theorem groups_writeGroups (hlast : last < 128) (n : Nat) (hx : x < 128 ^ n * (last + 1)) :
    Groups x (writeGroups (n + 1) x) := by
  induction n generalizing x with
  | zero =>
    have hsmall : x < 128 := by omega
    rw [writeGroups, if_pos hsmall]
    exact groups_of_lt hsmall
  | succ n ih =>
    rw [writeGroups]
    by_cases hsmall : x < 128
    · rw [if_pos hsmall]
      exact groups_of_lt hsmall
    · have hbyte := toNat_ofNat_small (x := 128 + x % 128) (by omega)
      have hmore := Groups.more (b := UInt8.ofNat (128 + x % 128)) (by omega)
        (Nat.div_pos (by omega) (by decide)) (ih (div_lt_room hx))
      rw [hbyte, show 128 + x % 128 - 128 + 128 * (x / 128) = x by omega] at hmore
      rwa [if_neg hsmall]

/-- Groups are read back as long as the last of them has room for what is left. -/
theorem takes_readGroups (hlast : last < 128) (n : Nat) (hx : x < 128 ^ n * (last + 1)) :
    Takes (readGroups last (n + 1)) (writeGroups (n + 1) x) x := by
  induction n generalizing x with
  | zero =>
    intro rest
    have hsmall : x < 128 := by omega
    have hbyte := toNat_ofNat_small (x := x) (by omega)
    have hroom : ¬last < x := by omega
    simp [writeGroups, readGroups, hsmall, hbyte, hroom]
  | succ n ih =>
    intro rest
    by_cases hsmall : x < 128
    · have hbyte := toNat_ofNat_small (x := x) (by omega)
      simp [writeGroups, readGroups, hsmall, hbyte]
    · have hbyte := toNat_ofNat_small (x := 128 + x % 128) (by omega)
      have hread := ih (div_lt_room hx) rest
      have hlow : (128 + x % 128) % 128 + 128 * (x / 128) = x := by omega
      rw [writeGroups, if_neg hsmall, List.cons_append, readGroups, hbyte, if_neg (by omega), hread]
      simp only [hlow]

theorem determined_readGroups (last n : Nat) : Determined (readGroups last n) := by
  intro bs more hne
  induction n generalizing bs with
  | zero => rfl
  | succ n ih =>
    cases bs with
    | nil => exact absurd rfl hne
    | cons b rest =>
      by_cases hb : b.toNat < 128
      · by_cases hlast : n = 0 ∧ last < b.toNat
        · simp only [List.cons_append, readGroups, if_pos hb, if_pos hlast, Except.map]
        · simp only [List.cons_append, readGroups, if_pos hb, if_neg hlast, Except.map]
      · have hrest : readGroups last n rest ≠ .error .truncated := fun h =>
          hne (by simp only [readGroups, if_neg hb, h])
        have hread := ih rest hrest
        cases hn : readGroups last n rest with
        | error e =>
          simp only [List.cons_append, readGroups, if_neg hb, hread, hn, Except.map]
        | ok p =>
          simp only [List.cons_append, readGroups, if_neg hb, hread, hn, Except.map]

/-- The groups of a width that is no multiple of seven have room for every number of it. -/
theorem room_varint {bits : Nat} (h : bits % 7 ≠ 0) :
    maxGroups bits = bits / 7 + 1 ∧ 2 ^ bits = 128 ^ (bits / 7) * (maxLastGroup bits + 1) ∧
      maxLastGroup bits < 128 := by
  have hpos : 0 < 2 ^ (bits % 7) := Nat.two_pow_pos _
  have hlast : maxLastGroup bits + 1 = 2 ^ (bits % 7) := by
    unfold maxLastGroup
    rw [Nat.pow_eq]
    omega
  have hle : 2 ^ (bits % 7) ≤ 2 ^ 7 := Nat.pow_le_pow_right (by decide) (by omega)
  refine ⟨by unfold maxGroups; omega, ?_, by omega⟩
  calc 2 ^ bits = 2 ^ (7 * (bits / 7) + bits % 7) := by rw [Nat.div_add_mod]
    _ = 128 ^ (bits / 7) * (maxLastGroup bits + 1) := by rw [Nat.pow_add, Nat.pow_mul, hlast]

theorem lawful_varint {bits : Nat} (h : bits % 7 ≠ 0) :
    Lawful (varint bits) (fun x => x < 2 ^ bits) fun x => [.number x] where
  spelled x hx := by
    obtain ⟨hgroups, hroom, hlast⟩ := room_varint h
    simp only [varint, hgroups]
    exact spelled_number (groups_writeGroups hlast (bits / 7) (hroom ▸ hx))
  takes x hx := by
    obtain ⟨hgroups, hroom, hlast⟩ := room_varint h
    simp only [varint, hgroups]
    exact takes_readGroups hlast (bits / 7) (hroom ▸ hx)
  determined := determined_readGroups _ _

theorem lawful_count : Lawful count (fun x => x < 2 ^ 64) fun x => [.number x] :=
  lawful_varint (by decide)

/-! ## Sequences and text -/

/-- As many values as a 64-bit word can count, each with `P`. -/
def Counted (P : α → Prop) (xs : List α) : Prop := xs.length < 2 ^ 64 ∧ ∀ x ∈ xs, P x

instance decidableCounted (P : α → Prop) [DecidablePred P] (xs : List α) :
    Decidable (Counted P xs) :=
  inferInstanceAs (Decidable (xs.length < 2 ^ 64 ∧ ∀ x ∈ xs, P x))

theorem readMany_succ (c : Codec α) (n : Nat) :
    readMany c (n + 1) = andThen c.read fun x => mapped (readMany c n) (x :: ·) := by
  funext bs
  cases h : c.read bs with
  | error e => simp only [readMany, andThen, h]
  | ok p =>
    simp only [readMany, andThen, mapped, h]
    cases readMany c n p.2 with
    | error e => rfl
    | ok q => rfl

theorem Lawful.spelled_flatMap {c : Codec α} {P : α → Prop} {layout : α → List Piece}
    (h : Lawful c P layout) {xs : List α} (hxs : ∀ x ∈ xs, P x) :
    Spelled (xs.flatMap layout) (xs.flatMap c.write) := by
  induction xs with
  | nil => exact .nil
  | cons x xs ih =>
    have hrest := ih fun y hy => hxs y (List.mem_cons_of_mem x hy)
    rw [List.flatMap_cons, List.flatMap_cons]
    exact (h.spelled x (hxs x List.mem_cons_self)).append hrest

theorem Lawful.takes_readMany {c : Codec α} {P : α → Prop} {layout : α → List Piece}
    (h : Lawful c P layout) {xs : List α} (hxs : ∀ x ∈ xs, P x) :
    Takes (readMany c xs.length) (xs.flatMap c.write) xs := by
  induction xs with
  | nil => exact takes_pure []
  | cons x xs ih =>
    have hrest := ih fun y hy => hxs y (List.mem_cons_of_mem x hy)
    rw [List.length_cons, readMany_succ, List.flatMap_cons]
    exact (h.takes x (hxs x List.mem_cons_self)).andThen (hrest.mapped _)

theorem Lawful.determined_readMany {c : Codec α} {P : α → Prop} {layout : α → List Piece}
    (h : Lawful c P layout) (n : Nat) : Determined (readMany c n) := by
  induction n with
  | zero => exact determined_pure []
  | succ n ih =>
    rw [readMany_succ]
    exact h.determined.andThen fun x => ih.mapped _

theorem read_list (c : Codec α) : (list c).read = andThen count.read (readMany c) := by
  funext bs
  cases h : count.read bs with
  | error e => simp only [list, andThen, h]
  | ok p => simp only [list, andThen, h]

/-- A sequence has its length in front. -/
def listLayout (layout : α → List Piece) (xs : List α) : List Piece :=
  .number xs.length :: xs.flatMap layout

theorem Lawful.list {c : Codec α} {P : α → Prop} {layout : α → List Piece} (h : Lawful c P layout) :
    Lawful (list c) (Counted P) (listLayout layout) where
  spelled xs hxs := (lawful_count.spelled xs.length hxs.1).append (h.spelled_flatMap hxs.2)
  takes xs hxs := by
    rw [read_list]
    exact (lawful_count.takes xs.length hxs.1).andThen (h.takes_readMany hxs.2)
  determined := by
    rw [read_list]
    exact lawful_count.determined.andThen h.determined_readMany

theorem read_bytes : bytes.read = andThen count.read take := by
  funext bs
  cases h : count.read bs with
  | error e => simp only [bytes, andThen, h]
  | ok p => simp only [bytes, andThen, h]

/-- Bytes have their number in front. -/
def bytesLayout (bs : List UInt8) : List Piece := [.number bs.length, .raw bs]

theorem lawful_bytes : Lawful bytes (fun bs => bs.length < 2 ^ 64) bytesLayout where
  spelled bs hbs := (lawful_count.spelled bs.length hbs).append (spelled_raw bs)
  takes bs hbs := by
    rw [read_bytes]
    exact (lawful_count.takes bs.length hbs).andThen (takes_take bs)
  determined := by
    rw [read_bytes]
    exact lawful_count.determined.andThen determined_take

theorem lawful_buffer :
    Lawful buffer (fun b => b.size < 2 ^ 64) fun b => bytesLayout b.toList :=
  lawful_bytes.imap fun _ => Array.toArray_toList

theorem ofUtf8?_toUtf8 (s : String) : Text.ofUtf8? (Text.toUtf8 s) = some s :=
  dif_pos s.isValidUTF8

/-- The size of a text in UTF-8 is a word. -/
def TextSized (s : String) : Prop := s.utf8ByteSize < 2 ^ 64

instance decidableTextSized (s : String) : Decidable (TextSized s) :=
  inferInstanceAs (Decidable (s.utf8ByteSize < 2 ^ 64))

/-- Text is its bytes in UTF-8. -/
def textLayout (s : String) : List Piece := bytesLayout (Text.toUtf8 s)

theorem lawful_text : Lawful text TextSized textLayout :=
  lawful_bytes.refine fun s hs => ⟨hs, ofUtf8?_toUtf8 s⟩

end Codec

end CellMachine
