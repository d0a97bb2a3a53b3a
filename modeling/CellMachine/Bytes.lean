/-!
# Byte strings and buffers

A byte string is a `List UInt8`, a buffer an `Array UInt8` that is read and overwritten in
place. `littleEndian` spells a number in a fixed count of bytes and `ofLittleEndian` reads it
back. `Buffer.read` and `Buffer.write` are the two accesses to a range of a buffer : a write
keeps the size (`Buffer.size_write`) and every byte outside its range
(`Buffer.getElem?_write_of_outside`).
-/

namespace CellMachine

/-! ## Numbers as bytes -/

/-- The `n` low bytes of `x`, least significant first. -/
def littleEndian : Nat → Nat → List UInt8
  | 0, _ => []
  | n + 1, x => UInt8.ofNat x :: littleEndian n (x / 256)

/-- The number that a byte string spells, least significant byte first. -/
def ofLittleEndian : List UInt8 → Nat
  | [] => 0
  | b :: rest => b.toNat + 256 * ofLittleEndian rest

@[simp]
theorem length_littleEndian (n x : Nat) : (littleEndian n x).length = n := by
  induction n generalizing x with
  | zero => rfl
  | succ n ih => simp [littleEndian, ih]

/-! ## Buffers -/

/-- Bytes with random access. -/
abbrev Buffer := Array UInt8

namespace Buffer

/-- The `len` bytes from `start`, fewer where the buffer ends. -/
def read (b : Buffer) (start len : Nat) : List UInt8 :=
  (b.extract start (start + len)).toList

/-- Overwrites the bytes from `start` on. Bytes past the end of the buffer are dropped. -/
def write (b : Buffer) (start : Nat) : List UInt8 → Buffer
  | [] => b
  | x :: rest => write (b.setIfInBounds start x) (start + 1) rest

/-- A buffer of `n` zero bytes. -/
def zeros (n : Nat) : Buffer := Array.replicate n 0

/-- The buffer with another size : its end is cut off, or zero bytes come behind it. -/
def resize (b : Buffer) (size : Nat) : Buffer := b.take size ++ zeros (size - b.size)

@[simp]
theorem size_write (b : Buffer) (start : Nat) (xs : List UInt8) :
    (b.write start xs).size = b.size := by
  induction xs generalizing b start with
  | nil => rfl
  | cons x rest ih => simp [write, ih]

theorem getElem?_write_of_outside (b : Buffer) (start : Nat) (xs : List UInt8) (i : Nat)
    (h : i < start ∨ start + xs.length ≤ i) : (b.write start xs)[i]? = b[i]? := by
  induction xs generalizing b start with
  | nil => rfl
  | cons x rest ih =>
    simp only [List.length_cons] at h
    rw [write, ih _ _ (by omega), Array.getElem?_setIfInBounds_ne (by omega)]

theorem length_read_of_le (b : Buffer) (start len : Nat) (h : start + len ≤ b.size) :
    (b.read start len).length = len := by
  simp [read]
  omega

end Buffer

/-! ## Hexadecimal text -/

/-- The digits `0` to `9` and `a` to `f`. -/
def hexDigit (n : Nat) : Char :=
  if n < 10 then Char.ofNat ('0'.toNat + n) else Char.ofNat ('a'.toNat + (n - 10))

/-- Hexadecimal digits of `n`, most significant first, without leading zeros. -/
def hex (n : Nat) : String :=
  String.ofList (Nat.toDigits 16 n)

/-- `text` with `c` in front, up to `width` characters. -/
def padLeft (width : Nat) (c : Char) (text : String) : String :=
  String.ofList (List.replicate (width - text.length) c) ++ text

/-- `text` with `c` behind, up to `width` characters. -/
def padRight (width : Nat) (c : Char) (text : String) : String :=
  text ++ String.ofList (List.replicate (width - text.length) c)

/-- The two hexadecimal digits of a byte. -/
def hexByte (b : UInt8) : String :=
  String.ofList [hexDigit (b.toNat / 16), hexDigit (b.toNat % 16)]

end CellMachine
