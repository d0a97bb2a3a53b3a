/-!
# Datatypes

The scalar types that every instruction, symbol and call argument carries. A datatype has a
one-byte code, which fits in four bits, a storage size and a name. `ofCode?_code` and
`ofName?_name` say that code and name identify it.
-/

namespace CellMachine

/-- The widths an integer can have. -/
inductive Width where
  | w8 | w16 | w32 | w64
  deriving DecidableEq, Repr, Inhabited

namespace Width

/-- Storage size in bytes. -/
def bytes : Width → Nat
  | w8 => 1
  | w16 => 2
  | w32 => 4
  | w64 => 8

/-- Size in bits. -/
def bits (w : Width) : Nat := 8 * w.bytes

end Width

/-- The scalar datatypes. `none` stands where an instruction has no datatype. -/
inductive Datatype where
  | int (signed : Bool) (width : Width)
  | f32 | f64 | bool | addr | type | none
  deriving DecidableEq, Repr, Inhabited

namespace Datatype

@[match_pattern] abbrev i8 : Datatype := .int true .w8
@[match_pattern] abbrev i16 : Datatype := .int true .w16
@[match_pattern] abbrev i32 : Datatype := .int true .w32
@[match_pattern] abbrev i64 : Datatype := .int true .w64
@[match_pattern] abbrev u8 : Datatype := .int false .w8
@[match_pattern] abbrev u16 : Datatype := .int false .w16
@[match_pattern] abbrev u32 : Datatype := .int false .w32
@[match_pattern] abbrev u64 : Datatype := .int false .w64

/-- Every datatype a value can have, in the order of the codes. -/
def values : List Datatype :=
  [i8, i16, i32, i64, u8, u16, u32, u64, f32, f64, bool, addr, type]

/-- Every datatype, `none` last. -/
def all : List Datatype := values ++ [none]

/-- The code of a datatype in encoded instructions. -/
def code : Datatype → UInt8
  | i8 => 0
  | i16 => 1
  | i32 => 2
  | i64 => 3
  | u8 => 4
  | u16 => 5
  | u32 => 6
  | u64 => 7
  | f32 => 8
  | f64 => 9
  | bool => 10
  | addr => 11
  | type => 12
  | none => 15

/-- The datatype with a given code. Codes 13, 14 and those above 15 are unused. -/
def ofCode? (c : UInt8) : Option Datatype := all.find? (·.code == c)

/-- Storage size in bytes. -/
def size : Datatype → Nat
  | int _ w => w.bytes
  | f32 => 4
  | f64 => 8
  | bool => 1
  | addr => 8
  | type => 1
  | none => 0

/-- Whether this is a signed integer type. -/
def isSigned : Datatype → Bool
  | int signed _ => signed
  | _ => false

/-- Whether this is an unsigned integer type. -/
def isUnsigned : Datatype → Bool
  | int signed _ => !signed
  | _ => false

/-- Whether this is one of the eight integer types. -/
def isInteger : Datatype → Bool
  | int _ _ => true
  | _ => false

/-- Whether this is one of the two floating-point types. -/
def isFloat : Datatype → Bool
  | f32 | f64 => true
  | _ => false

/-- The datatype a value operand is encoded with : that of its instruction, or `u64` for an
instruction without one. -/
def ofValueOperand : Datatype → Datatype
  | none => u64
  | dt => dt

/-- The name of a datatype in source text. -/
def name : Datatype → String
  | i8 => "i8"
  | i16 => "i16"
  | i32 => "i32"
  | i64 => "i64"
  | u8 => "u8"
  | u16 => "u16"
  | u32 => "u32"
  | u64 => "u64"
  | f32 => "f32"
  | f64 => "f64"
  | bool => "bool"
  | addr => "addr"
  | type => "type"
  | none => "none"

/-- The datatype with a given name. -/
def ofName? (s : String) : Option Datatype := all.find? (·.name == s)

/-- The bytes that values of some datatypes take up one after the other. -/
def totalSize : List Datatype → Nat
  | [] => 0
  | dt :: rest => dt.size + totalSize rest

theorem totalSize_append (xs ys : List Datatype) :
    totalSize (xs ++ ys) = totalSize xs + totalSize ys := by
  induction xs with
  | nil => exact (Nat.zero_add _).symm
  | cons dt rest ih =>
    rw [List.cons_append, totalSize, totalSize, ih, Nat.add_assoc]

theorem ofCode?_code (dt : Datatype) : ofCode? dt.code = some dt := by
  cases dt with
  | int signed w => cases signed <;> cases w <;> rfl
  | _ => rfl

theorem code_of_ofCode? {c : UInt8} {dt : Datatype} (h : ofCode? c = some dt) : dt.code = c := by
  have := List.find?_some h
  simpa using this

theorem size_le (dt : Datatype) : dt.size ≤ 8 := by
  cases dt with
  | int signed w => cases w <;> simp [size, Width.bytes]
  | _ => decide

theorem ofName?_name (dt : Datatype) : ofName? dt.name = some dt := by
  cases dt with
  | int signed w => cases signed <;> cases w <;> decide
  | _ => decide

end Datatype

end CellMachine
