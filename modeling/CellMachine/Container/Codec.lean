import CellMachine.Bytes
import CellMachine.Text.Utf8

/-!
# Codecs

A codec writes values of a type as bytes and reads one back from the front of a byte string,
giving the rest. The codecs here are the pieces of the container format : single bytes,
numbers in groups of seven bits, text and sequences with their length in front, and pairs.
-/

namespace CellMachine

/-- Why bytes cannot be read. -/
inductive CodecError where
  /-- The bytes end too early. -/
  | truncated
  /-- A number has too many groups or does not fit its width. -/
  | badNumber
  /-- A truth value is neither 0 nor 1. -/
  | badBool
  /-- Text is not UTF-8. -/
  | badText
  /-- There is no alternative with this index. -/
  | badChoice
  deriving DecidableEq, Repr

/-- The text of a codec error. -/
def CodecError.message : CodecError → String
  | truncated => "Hit the end of buffer, expected more data"
  | badNumber => "Found a varint that didn't terminate"
  | badBool => "Found a bool that wasn't 0 or 1"
  | badText => "Tried to parse invalid utf-8"
  | badChoice => "Found an index without an alternative"

/-- A way to write the values of a type and to read them back. -/
structure Codec (α : Type) where
  write : α → List UInt8
  /-- Reads a value from the front of a byte string; gives it with the rest. -/
  read : List UInt8 → Except CodecError (α × List UInt8)

namespace Codec

variable {α β : Type}

/-- A single byte. -/
def byte : Codec UInt8 where
  write b := [b]
  read
    | [] => .error .truncated
    | b :: rest => .ok (b, rest)

/-- A truth value, as the byte 0 or 1. -/
def bool : Codec Bool where
  write b := [if b then 1 else 0]
  read
    | [] => .error .truncated
    | 0 :: rest => .ok (false, rest)
    | 1 :: rest => .ok (true, rest)
    | _ => .error .badBool

/-- `n` bytes. -/
def take (n : Nat) (bs : List UInt8) : Except CodecError (List UInt8 × List UInt8) :=
  if n ≤ bs.length then .ok (bs.take n, bs.drop n) else .error .truncated

/-- A number in `n` bytes, least significant first. -/
def fixed (n : Nat) : Codec Nat where
  write x := littleEndian n x
  read bs :=
    match take n bs with
    | .ok (xs, rest) => .ok (ofLittleEndian xs, rest)
    | .error e => .error e

/-- The most groups of seven bits a number of `bits` bits needs. -/
def maxGroups (bits : Nat) : Nat := (bits + 6) / 7

/-- The greatest last group of a number of `bits` bits that needs all its groups. -/
def maxLastGroup (bits : Nat) : Nat := Nat.pow 2 (bits % 7) - 1

/-- A number in at most `n` groups of seven bits, the lowest first. Every group but the last
has the top bit of its byte set. -/
def writeGroups : Nat → Nat → List UInt8
  | 0, _ => []
  | n + 1, x =>
    if x < 128 then [UInt8.ofNat x] else UInt8.ofNat (128 + x % 128) :: writeGroups n (x / 128)

/-- Reads at most `n` groups. Groups that add nothing are allowed, a last possible group above
`last` is not. -/
def readGroups (last : Nat) : Nat → List UInt8 → Except CodecError (Nat × List UInt8)
  | 0, _ => .error .badNumber
  | _ + 1, [] => .error .truncated
  | n + 1, b :: rest =>
    if b.toNat < 128 then
      if n = 0 ∧ last < b.toNat then .error .badNumber else .ok (b.toNat, rest)
    else
      match readGroups last n rest with
      | .ok (x, rest) => .ok (b.toNat % 128 + 128 * x, rest)
      | .error e => .error e

/-- A number of `bits` bits in groups of seven. -/
def varint (bits : Nat) : Codec Nat where
  write x := writeGroups (maxGroups bits) x
  read bs := readGroups (maxLastGroup bits) (maxGroups bits) bs

/-- One value after another. -/
def pair (a : Codec α) (b : Codec β) : Codec (α × β) where
  write p := a.write p.1 ++ b.write p.2
  read bs :=
    match a.read bs with
    | .error e => .error e
    | .ok (x, rest) =>
      match b.read rest with
      | .error e => .error e
      | .ok (y, rest) => .ok ((x, y), rest)

/-- The values of another type in the form of values of this one. -/
def imap (c : Codec α) (f : β → α) (g : α → β) : Codec β where
  write y := c.write (f y)
  read bs :=
    match c.read bs with
    | .error e => .error e
    | .ok (x, rest) => .ok (g x, rest)

/-- The values of another type in the form of some values of this one. For the others there is
an error. -/
def refine (c : Codec α) (f : β → α) (g : α → Option β) (e : CodecError) : Codec β where
  write y := c.write (f y)
  read bs :=
    match c.read bs with
    | .error e => .error e
    | .ok (x, rest) =>
      match g x with
      | none => .error e
      | some y => .ok (y, rest)

/-- Reads `n` values. -/
def readMany (c : Codec α) : Nat → List UInt8 → Except CodecError (List α × List UInt8)
  | 0, bs => .ok ([], bs)
  | n + 1, bs =>
    match c.read bs with
    | .error e => .error e
    | .ok (x, rest) =>
      match readMany c n rest with
      | .error e => .error e
      | .ok (xs, rest) => .ok (x :: xs, rest)

/-- A number of things in memory, or an index of one. -/
def count : Codec Nat := varint 64

/-- A sequence : its length, then its elements. -/
def list (c : Codec α) : Codec (List α) where
  write xs := count.write xs.length ++ xs.flatMap c.write
  read bs :=
    match count.read bs with
    | .error e => .error e
    | .ok (n, rest) => readMany c n rest

/-- Bytes with their number in front. -/
def bytes : Codec (List UInt8) where
  write xs := count.write xs.length ++ xs
  read bs :=
    match count.read bs with
    | .error e => .error e
    | .ok (n, rest) => take n rest

/-- A buffer as bytes. -/
def buffer : Codec Buffer := bytes.imap (·.toList) (·.toArray)

/-- Text in UTF-8. -/
def text : Codec String := bytes.refine Text.toUtf8 Text.ofUtf8? .badText

end Codec

end CellMachine
