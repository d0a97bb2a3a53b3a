/-!
# Text from bytes

Bytes read as UTF-8. `decodeLossy` puts the replacement character in the place of each longest
run of bytes that starts a character but does not finish it, and of each byte that cannot
start one.
-/

namespace CellMachine.Text

/-- The character that stands for bytes that are none. -/
def replacement : Char := '\uFFFD'

/-- Whether a byte goes on a character. -/
def isContinuation (b : UInt8) : Bool := 0x80 ≤ b && b ≤ 0xbf

/-- Whether a byte can follow the first byte of a character. It is narrower than
`isContinuation` where the character could be written shorter, is half of a pair or lies
beyond the last code point. -/
def isSecond (lead b : UInt8) : Bool :=
  if lead == 0xe0 then 0xa0 ≤ b && b ≤ 0xbf
  else if lead == 0xed then 0x80 ≤ b && b ≤ 0x9f
  else if lead == 0xf0 then 0x90 ≤ b && b ≤ 0xbf
  else if lead == 0xf4 then 0x80 ≤ b && b ≤ 0x8f
  else isContinuation b

/-- How many bytes a character has that starts with a given byte, 0 if none does. -/
def sequenceLength (lead : UInt8) : Nat :=
  if lead < 0x80 then 1
  else if 0xc2 ≤ lead && lead ≤ 0xdf then 2
  else if 0xe0 ≤ lead && lead ≤ 0xef then 3
  else if 0xf0 ≤ lead && lead ≤ 0xf4 then 4
  else 0

/-- The six bits that a byte adds to a character. -/
def payload (b : UInt8) : Nat := b.toNat % 64

/-- Reads text, with a replacement character for what is none. -/
def decodeLossy : List UInt8 → List Char
  | [] => []
  | a :: rest =>
    match sequenceLength a with
    | 1 => Char.ofNat a.toNat :: decodeLossy rest
    | 2 =>
      match rest with
      | b :: rest' =>
        if isSecond a b then Char.ofNat (a.toNat % 32 * 64 + payload b) :: decodeLossy rest'
        else replacement :: decodeLossy (b :: rest')
      | [] => [replacement]
    | 3 =>
      match rest with
      | b :: c :: rest' =>
        if isSecond a b then
          if isContinuation c then
            Char.ofNat ((a.toNat % 16 * 64 + payload b) * 64 + payload c) :: decodeLossy rest'
          else replacement :: decodeLossy (c :: rest')
        else replacement :: decodeLossy (b :: c :: rest')
      | [b] => if isSecond a b then [replacement] else replacement :: decodeLossy [b]
      | [] => [replacement]
    | 4 =>
      match rest with
      | b :: c :: d :: rest' =>
        if isSecond a b then
          if isContinuation c then
            if isContinuation d then
              Char.ofNat (((a.toNat % 8 * 64 + payload b) * 64 + payload c) * 64 + payload d) ::
                decodeLossy rest'
            else replacement :: decodeLossy (d :: rest')
          else replacement :: decodeLossy (c :: d :: rest')
        else replacement :: decodeLossy (b :: c :: d :: rest')
      | [b, c] =>
        if isSecond a b then
          if isContinuation c then [replacement] else replacement :: decodeLossy [c]
        else replacement :: decodeLossy [b, c]
      | [b] => if isSecond a b then [replacement] else replacement :: decodeLossy [b]
      | [] => [replacement]
    | _ => replacement :: decodeLossy rest
termination_by bs => bs.length

/-- Text that is replaced where it is not UTF-8. -/
def ofUtf8Lossy (bs : List UInt8) : String := String.ofList (decodeLossy bs)

/-- Text, if the bytes are UTF-8. -/
def ofUtf8? (bs : List UInt8) : Option String := String.fromUTF8? ⟨bs.toArray⟩

/-- The UTF-8 bytes of text. -/
def toUtf8 (s : String) : List UInt8 := s.toUTF8.data.toList

end CellMachine.Text
