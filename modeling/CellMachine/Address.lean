import CellMachine.Bytes

/-!
# Addresses

An address is a 64-bit word : a base in the top three bits and an offset of 61 bits below it.
For code and static data the offset starts with a page of five bits, which names the module,
followed by an intra-page offset of 56 bits. Nothing checks an offset here; only an access to
memory does.
-/

namespace CellMachine

/-- The segments an address can point into. -/
inductive Base where
  | static | stack | frameAdd | frameSub | code | register | heap
  deriving DecidableEq, Repr, Inhabited

namespace Base

/-- Every base, in the order of the codes. -/
def all : List Base := [static, stack, frameAdd, frameSub, code, register, heap]

/-- The three bits of a base. -/
def toBits : Base → UInt64
  | static => 0
  | stack => 1
  | frameAdd => 2
  | frameSub => 3
  | code => 4
  | register => 5
  | heap => 6

/-- The base with given bits; the value 7 is unused. -/
def ofBits? (n : UInt64) : Option Base := all.find? (·.toBits == n)

/-- Whether the offsets of this base start with a page. -/
def isPaged : Base → Bool
  | static | code => true
  | _ => false

/-- The name of a base in the text of an address. -/
def name : Base → String
  | static => "static"
  | stack => "stack"
  | frameAdd => "frame+"
  | frameSub => "frame-"
  | code => "code"
  | register => "reg"
  | heap => "heap"

/-- The base with a given name. -/
def ofName? (s : String) : Option Base := all.find? (·.name == s)

end Base

/-- A virtual address. -/
structure Address where
  /-- The whole word. -/
  bits : UInt64
  deriving DecidableEq, Repr, Inhabited

namespace Address

/-- Where the base starts. -/
def baseShift : UInt64 := 61

/-- Where the page of a paged offset starts. -/
def pageShift : UInt64 := 56

/-- The bits of the offset. -/
def offsetMask : UInt64 := 0x1fffffffffffffff

/-- The bits of a page. -/
def pageMask : UInt64 := 0x1f

/-- The bits of an intra-page offset. -/
def intraMask : UInt64 := 0x00ffffffffffffff

/-- How many pages an address can tell apart. -/
def maxPages : Nat := 32

/-- The address of `offset` in `base`; offset bits above 61 are dropped. -/
def make (base : Base) (offset : UInt64) : Address :=
  ⟨(base.toBits <<< baseShift) ||| (offset &&& offsetMask)⟩

/-- The address of `offset` on `page` of `base`. -/
def paged (base : Base) (page : Nat) (offset : UInt64) : Address :=
  make base (((UInt64.ofNat page &&& pageMask) <<< pageShift) ||| (offset &&& intraMask))

/-- An address in the code of the module on `page`. -/
def code (page : Nat) (offset : UInt64) : Address := paged .code page offset

/-- An address in the static data of the module on `page`. -/
def static (page : Nat) (offset : UInt64) : Address := paged .static page offset

/-- The base of an address, absent for the one unused value. -/
def base? (a : Address) : Option Base := Base.ofBits? (a.bits >>> baseShift)

/-- The 61-bit offset. -/
def offset (a : Address) : UInt64 := a.bits &&& offsetMask

/-- The page of a paged offset. -/
def page (a : Address) : Nat := ((a.offset >>> pageShift) &&& pageMask).toNat

/-- The offset inside the page. -/
def intraOffset (a : Address) : UInt64 := a.offset &&& intraMask

/-- The same place on another page; the address itself where the base has no pages. -/
def withPage (a : Address) (page : Nat) : Address :=
  match a.base? with
  | some b => if b.isPaged then paged b page a.intraOffset else a
  | none => a

/-- Moves an address by a signed number of bytes. Base and page are kept and the offset wraps
around within its field. -/
def add (a : Address) (delta : Int64) : Address :=
  match a.base? with
  | some b =>
    if b.isPaged then paged b a.page (a.intraOffset + delta.toUInt64)
    else make b (a.offset + delta.toUInt64)
  | none => ⟨a.bits + delta.toUInt64⟩

/-- The text of an address, such as `code[1]+0x10` or `stack+0x8`. -/
def text (a : Address) : String :=
  match a.base? with
  | some b =>
    if b.isPaged then
      b.name ++ "[" ++ toString a.page ++ "]+0x" ++ hex a.intraOffset.toNat
    else b.name ++ "+0x" ++ hex a.offset.toNat
  | none => "invalid(0x" ++ hex a.bits.toNat ++ ")"

end Address

end CellMachine
