import CellMachine.Container.Codec
import CellMachine.Image

/-!
# The parts of a container

The codecs of values, symbols, references, objects and images : the fields of each in order,
alternatives as an index followed by what belongs to it. Signed integers are folded onto the
natural numbers, 0, -1, 1, -2, … becoming 0, 1, 2, 3, …, so that small ones stay short.
-/

namespace CellMachine

/-! ## Values -/

/-- The place of an integer in the order 0, -1, 1, -2, …. -/
def zigzag (n : Int) : Nat := if 0 ≤ n then 2 * n.toNat else 2 * (-n).toNat - 1

/-- The integer at a place of the order 0, -1, 1, -2, …. -/
def unzigzag (x : Nat) : Int := if x % 2 = 0 then (x / 2 : Nat) else -((x / 2 : Nat) : Int) - 1

namespace Codec

/-- An alternative among those of a list, as its place in it. -/
def choice {α : Type} [DecidableEq α] (xs : List α) : Codec α :=
  (varint 32).refine (fun x => xs.idxOf x) (fun n => xs[n]?) .badChoice

/-- A datatype. -/
def datatype : Codec Datatype := choice Datatype.all

/-- An integer of a given type. One byte stands for itself. -/
def integer (signed : Bool) : (w : Width) → Codec (BitVec w.bits)
  | .w8 => byte.imap (fun v => UInt8.ofNat v.toNat) fun b => BitVec.ofNat _ b.toNat
  | w =>
    if signed then (varint w.bits).imap (fun v => zigzag v.toInt) fun x =>
      BitVec.ofInt _ (unzigzag x)
    else (varint w.bits).imap (·.toNat) fun x => BitVec.ofNat _ x

/-- What follows the index of a value of datatype `dt`. -/
def writePayload : Value → List UInt8
  | .int signed w v => (integer signed w).write v
  | .f32 x => (fixed 4).write x.toNat
  | .f64 x => (fixed 8).write x.toNat
  | .bool b => bool.write b
  | .addr a => (varint 64).write a.bits.toNat
  | .type dt => datatype.write dt

/-- Reads what follows the index of a value of datatype `dt`. -/
def readPayload (dt : Datatype) (bs : List UInt8) :
    Except CodecError (Value × List UInt8) :=
  match dt with
  | .int signed w => ((integer signed w).read bs).map fun (v, rest) => (.int signed w v, rest)
  | .f32 => ((fixed 4).read bs).map fun (x, rest) => (.f32 (UInt32.ofNat x), rest)
  | .f64 => ((fixed 8).read bs).map fun (x, rest) => (.f64 (UInt64.ofNat x), rest)
  | .bool => (bool.read bs).map fun (b, rest) => (.bool b, rest)
  | .addr => ((varint 64).read bs).map fun (x, rest) => (.addr ⟨UInt64.ofNat x⟩, rest)
  | .type => (datatype.read bs).map fun (t, rest) => (.type t, rest)
  | .none => .error .badChoice

/-- A value : the place of its datatype, then the scalar. -/
def value : Codec Value where
  write v := (choice Datatype.values).write v.datatype ++ writePayload v
  read bs :=
    match (choice Datatype.values).read bs with
    | .error e => .error e
    | .ok (dt, rest) => readPayload dt rest

/-! ## Objects and images -/

/-- A map, as a sequence of pairs. Of two pairs with one name the later counts. -/
def nameMap {α : Type} (c : Codec α) : Codec (NameMap α) :=
  (list (pair text c)).imap (·.entries) NameMap.ofList

/-- A set of names, as a sequence. -/
def nameSet : Codec NameSet :=
  (list text).imap (·.keys) NameSet.ofNames

/-- How a symbol was defined. -/
def symbolKind : Codec SymbolKind := choice [.label, .alias, .static, .function]

/-- A symbol. -/
def symbol : Codec Symbol :=
  (pair text (pair symbolKind value)).imap (fun s => (s.name, s.kind, s.value))
    fun (name, kind, v) => ⟨name, kind, v⟩

/-- A reference. -/
def reference : Codec Reference :=
  (pair text (pair count (pair datatype (list text)))).imap
    (fun r => (r.name, r.offset, r.datatype, r.scope))
    fun (name, offset, dt, scope) => ⟨name, offset, dt, scope⟩

/-- An object. -/
def object : Codec Object :=
  (pair text (pair (list text) (pair nameSet (pair nameSet (pair buffer (pair buffer
    (pair (list symbol) (pair (list reference) (list count))))))))).imap
    (fun o => (o.name, o.required, o.mandatory, o.optional, o.code, o.static, o.symbols,
      o.unresolved, o.relocations))
    fun (name, required, mandatory, optional, code, static, symbols, unresolved, relocations) =>
      ⟨name, required, mandatory, optional, code, static, symbols, unresolved, relocations⟩

/-- An image. -/
def image : Codec Image :=
  (pair (list object) (pair (nameMap count) (pair (nameMap symbol) (pair nameSet nameSet)))).imap
    (fun i => (i.objects, i.index, i.symbols, i.mandatory, i.optional))
    fun (objects, index, symbols, mandatory, optional) =>
      ⟨objects, index, symbols, mandatory, optional⟩

end Codec

end CellMachine
