import CellMachine.Container.Frame
import CellMachine.Proofs.Container.Reading
import CellMachine.Proofs.NameMap

/-!
# Containers read back

An object or an image is storable if its sizes and places are 64-bit words. The body of its
container then has the layout given here, field by field, and the container is read back, whatever
follows it (`Container.ofBytes_toBytes_append`). What is cut off is noticed : of every strict
beginning of a container the reader says that the bytes end too early, or that it is no container
where not even the kind is complete (`Container.ofBytes_of_strict_beginning`).
-/

namespace CellMachine

namespace Codec

theorem Lawful.congr {α : Type} {c : Codec α} {P Q : α → Prop} {layout layout' : α → List Piece}
    (h : Lawful c P layout) (heq : ∀ x, Q x → P x ∧ layout' x = layout x) :
    Lawful c Q layout' where
  spelled x hx := by
    rw [(heq x hx).2]
    exact h.spelled x (heq x hx).1
  takes x hx := h.takes x (heq x hx).1
  determined := h.determined

/-! ## Alternatives -/

theorem lawful_choice {α : Type} [DecidableEq α] (xs : List α) (hxs : xs.length ≤ 2 ^ 32) :
    Lawful (choice xs) (· ∈ xs) fun x => [.number (xs.idxOf x)] :=
  (lawful_varint (by decide)).refine fun x hx =>
    ⟨Nat.lt_of_lt_of_le (List.idxOf_lt_length_of_mem hx) hxs, List.getElem?_idxOf hx⟩

end Codec

/-- The place of a datatype among all of them. -/
def Datatype.place : Datatype → Nat
  | i8 => 0
  | i16 => 1
  | i32 => 2
  | i64 => 3
  | u8 => 4
  | u16 => 5
  | u32 => 6
  | u64 => 7
  | f32 => 8
  | f64 => 9
  | bool => 10
  | addr => 11
  | type => 12
  | none => 13

/-- The place of a kind of symbol among all of them. -/
def SymbolKind.place : SymbolKind → Nat
  | .label => 0
  | .alias => 1
  | .static => 2
  | .function => 3

namespace Codec

theorem lawful_datatype : Lawful datatype (fun _ => True) fun dt => [.number dt.place] := by
  refine (lawful_choice Datatype.all (by decide)).congr fun dt _ => ?_
  cases dt with
  | int signed w => cases signed <;> cases w <;> exact ⟨by decide, rfl⟩
  | _ => exact ⟨by decide, rfl⟩

/-- The datatype of a value is written like any datatype. -/
theorem lawful_valueDatatype :
    Lawful (choice Datatype.values) (· ≠ .none) fun dt => [.number dt.place] := by
  refine (lawful_choice Datatype.values (by decide)).congr fun dt hdt => ?_
  cases dt with
  | int signed w => cases signed <;> cases w <;> exact ⟨by decide, rfl⟩
  | none => exact absurd rfl hdt
  | _ => exact ⟨by decide, rfl⟩

theorem lawful_symbolKind :
    Lawful symbolKind (fun _ => True) fun kind => [.number kind.place] := by
  refine (lawful_choice _ (by decide)).congr fun kind _ => ?_
  cases kind <;> exact ⟨by decide, rfl⟩

/-! ## Values -/

theorem unzigzag_zigzag (n : Int) : unzigzag (zigzag n) = n := by
  unfold unzigzag zigzag
  by_cases hn : 0 ≤ n
  · rw [if_pos hn, if_pos (by omega)]
    omega
  · rw [if_neg hn, if_neg (by omega)]
    omega

theorem zigzag_toInt_lt {n : Nat} (hn : 0 < n) (v : BitVec n) : zigzag v.toInt < 2 ^ n := by
  have hpow : 2 ^ n = 2 * 2 ^ (n - 1) := by
    rw [← Nat.pow_succ', Nat.succ_eq_add_one, Nat.sub_add_cancel hn]
  have hcast : ((2 ^ (n - 1) : Nat) : Int) = 2 ^ (n - 1) := by push_cast; rfl
  have hlow := v.le_toInt
  have hhigh := v.toInt_lt
  rw [← hcast] at hlow hhigh
  unfold zigzag
  split <;> omega

/-- How an integer is written : one byte as it is, others as a number, signed ones folded. -/
def integerLayout (signed : Bool) : (w : Width) → BitVec w.bits → List Piece
  | .w8, v => [.raw [UInt8.ofNat v.toNat]]
  | _, v => [.number (if signed then zigzag v.toInt else v.toNat)]

theorem lawful_integerByte (signed : Bool) :
    Lawful (integer signed .w8) (fun _ => True) (integerLayout signed .w8) := by
  refine (lawful_byte.imap fun v => ?_).congr fun _ _ => ⟨trivial, rfl⟩
  have hv : v.toNat < 256 := v.isLt
  rw [UInt8.toNat_ofNat', Nat.mod_eq_of_lt hv, BitVec.ofNat_toNat]
  exact BitVec.setWidth_eq v

theorem lawful_integerGroups {bits : Nat} (signed : Bool) (h : bits % 7 ≠ 0) :
    Lawful (if signed then (varint bits).imap (fun v => zigzag v.toInt) fun x =>
        BitVec.ofInt bits (unzigzag x)
      else (varint bits).imap (·.toNat) fun x => BitVec.ofNat bits x) (fun _ => True)
      fun v => [.number (if signed then zigzag v.toInt else v.toNat)] := by
  cases signed with
  | true =>
    refine ((lawful_varint h).imap fun v => ?_).congr fun v _ =>
      ⟨zigzag_toInt_lt (by omega) v, rfl⟩
    rw [unzigzag_zigzag, BitVec.ofInt_toInt]
  | false =>
    refine ((lawful_varint h).imap fun v => ?_).congr fun v _ => ⟨v.isLt, rfl⟩
    rw [BitVec.ofNat_toNat, BitVec.setWidth_eq]

theorem lawful_integer (signed : Bool) (w : Width) :
    Lawful (integer signed w) (fun _ => True) (integerLayout signed w) := by
  cases w with
  | w8 => exact lawful_integerByte signed
  | w16 => exact lawful_integerGroups signed (by decide)
  | w32 => exact lawful_integerGroups signed (by decide)
  | w64 => exact lawful_integerGroups signed (by decide)

end Codec

/-- How the scalar of a value is written. -/
def Value.payloadLayout : Value → List Codec.Piece
  | .int signed w v => Codec.integerLayout signed w v
  | .f32 x => [.raw (littleEndian 4 x.toNat)]
  | .f64 x => [.raw (littleEndian 8 x.toNat)]
  | .bool b => [.raw [if b then 1 else 0]]
  | .addr a => [.number a.bits.toNat]
  | .type dt => [.number dt.place]

namespace Codec

theorem spelled_writePayload (v : Value) : Spelled v.payloadLayout (writePayload v) := by
  cases v with
  | int signed w v => exact (lawful_integer signed w).spelled v trivial
  | f32 x => exact (lawful_fixed 4).spelled x.toNat x.toNat_lt
  | f64 x => exact (lawful_fixed 8).spelled x.toNat x.toNat_lt
  | bool b => exact lawful_bool.spelled b trivial
  | addr a => exact lawful_count.spelled a.bits.toNat a.bits.toNat_lt
  | type dt => exact lawful_datatype.spelled dt trivial

/-- The reader of the scalars of a datatype. -/
def scalarReader : Datatype → ByteReader Value
  | .int signed w => mapped (integer signed w).read (.int signed w)
  | .f32 => mapped (fixed 4).read fun x => .f32 (UInt32.ofNat x)
  | .f64 => mapped (fixed 8).read fun x => .f64 (UInt64.ofNat x)
  | .bool => mapped bool.read .bool
  | .addr => mapped count.read fun x => .addr ⟨UInt64.ofNat x⟩
  | .type => mapped datatype.read .type
  | .none => fun _ => .error .badChoice

theorem mapped_eq_map {α β : Type} (r : ByteReader α) (f : α → β) :
    mapped r f = fun bs => (r bs).map fun p => (f p.1, p.2) := by
  funext bs
  unfold mapped andThen
  cases r bs with
  | error e => rfl
  | ok p => rfl

theorem readPayload_eq (dt : Datatype) : readPayload dt = scalarReader dt := by
  cases dt <;> simp only [scalarReader, mapped_eq_map] <;> rfl

theorem takes_readPayload (v : Value) : Takes (readPayload v.datatype) (writePayload v) v := by
  rw [readPayload_eq]
  cases v with
  | int signed w v => exact ((lawful_integer signed w).takes v trivial).mapped _
  | f32 x =>
    have h := ((lawful_fixed 4).takes x.toNat x.toNat_lt).mapped fun y => Value.f32 (UInt32.ofNat y)
    rwa [UInt32.ofNat_toNat] at h
  | f64 x =>
    have h := ((lawful_fixed 8).takes x.toNat x.toNat_lt).mapped fun y => Value.f64 (UInt64.ofNat y)
    rwa [UInt64.ofNat_toNat] at h
  | bool b => exact (lawful_bool.takes b trivial).mapped _
  | addr a =>
    have h := (lawful_count.takes a.bits.toNat a.bits.toNat_lt).mapped fun y =>
      Value.addr ⟨UInt64.ofNat y⟩
    rwa [UInt64.ofNat_toNat] at h
  | type dt => exact (lawful_datatype.takes dt trivial).mapped _

theorem determined_readPayload (dt : Datatype) : Determined (readPayload dt) := by
  rw [readPayload_eq]
  cases dt with
  | int signed w => exact (lawful_integer signed w).determined.mapped _
  | f32 => exact (lawful_fixed 4).determined.mapped _
  | f64 => exact (lawful_fixed 8).determined.mapped _
  | bool => exact lawful_bool.determined.mapped _
  | addr => exact lawful_count.determined.mapped _
  | type => exact lawful_datatype.determined.mapped _
  | none => exact determined_error _

end Codec

/-- A value is written as the place of its datatype and its scalar. -/
def Value.layout (v : Value) : List Codec.Piece := .number v.datatype.place :: v.payloadLayout

namespace Codec

theorem read_value : value.read = andThen (choice Datatype.values).read readPayload := by
  funext bs
  cases h : (choice Datatype.values).read bs with
  | error e => simp only [value, andThen, h]
  | ok p => simp only [value, andThen, h]

theorem lawful_value : Lawful value (fun _ => True) Value.layout := by
  have hdatatype : ∀ v : Value, v.datatype ≠ .none := by
    intro v
    cases v <;> exact Datatype.noConfusion
  constructor
  · intro v _
    exact (lawful_valueDatatype.spelled v.datatype (hdatatype v)).append (spelled_writePayload v)
  · intro v _
    rw [read_value]
    exact (lawful_valueDatatype.takes v.datatype (hdatatype v)).andThen (takes_readPayload v)
  · rw [read_value]
    exact lawful_valueDatatype.determined.andThen determined_readPayload

/-! ## Maps and sets -/

theorem Lawful.nameMap {α : Type} {c : Codec α} {P : α → Prop} {layout : α → List Piece}
    (h : Lawful c P layout) :
    Lawful (nameMap c) (fun m => Counted (fun e => TextSized e.1 ∧ P e.2) m.entries)
      fun m => listLayout (fun e => textLayout e.1 ++ layout e.2) m.entries :=
  (lawful_text.pair h).list.imap NameMap.ofList_entries

theorem lawful_nameSet :
    Lawful nameSet (fun s => Counted TextSized s.keys) fun s => listLayout textLayout s.keys :=
  lawful_text.list.imap NameSet.ofNames_keys

end Codec

/-! ## Objects and images -/

open Codec (Counted TextSized textLayout listLayout bytesLayout)

/-- A symbol whose name has a size. -/
def Symbol.Storable (s : Symbol) : Prop := TextSized s.name

instance Symbol.decidableStorable (s : Symbol) : Decidable s.Storable :=
  inferInstanceAs (Decidable (TextSized s.name))

/-- A symbol is written as its name, kind and value. -/
def Symbol.layout (s : Symbol) : List Codec.Piece :=
  textLayout s.name ++ [.number s.kind.place] ++ s.value.layout

/-- A reference whose sizes and place are words. -/
structure Reference.Storable (r : Reference) : Prop where
  name : TextSized r.name
  offset : r.offset < 2 ^ 64
  scope : Counted TextSized r.scope

instance Reference.decidableStorable (r : Reference) : Decidable r.Storable :=
  decidable_of_iff (TextSized r.name ∧ r.offset < 2 ^ 64 ∧ Counted TextSized r.scope)
    ⟨fun h => ⟨h.1, h.2.1, h.2.2⟩, fun h => ⟨h.name, h.offset, h.scope⟩⟩

/-- A reference is written field by field. -/
def Reference.layout (r : Reference) : List Codec.Piece :=
  textLayout r.name ++ [.number r.offset, .number r.datatype.place] ++
    listLayout textLayout r.scope

/-- An object whose sizes and places are words. -/
structure Object.Storable (o : Object) : Prop where
  name : TextSized o.name
  required : Counted TextSized o.required
  mandatory : Counted TextSized o.mandatory.keys
  optional : Counted TextSized o.optional.keys
  code : o.code.size < 2 ^ 64
  static : o.static.size < 2 ^ 64
  symbols : Counted Symbol.Storable o.symbols
  unresolved : Counted Reference.Storable o.unresolved
  relocations : Counted (· < 2 ^ 64) o.relocations

/-- An object is written field by field. -/
def Object.layout (o : Object) : List Codec.Piece :=
  textLayout o.name ++ listLayout textLayout o.required ++
    listLayout textLayout o.mandatory.keys ++ listLayout textLayout o.optional.keys ++
    bytesLayout o.code.toList ++ bytesLayout o.static.toList ++
    listLayout Symbol.layout o.symbols ++ listLayout Reference.layout o.unresolved ++
    listLayout (fun n => [.number n]) o.relocations

/-- An image whose sizes and pages are words. -/
structure Image.Storable (i : Image) : Prop where
  objects : Counted Object.Storable i.objects
  index : Counted (fun e => TextSized e.1 ∧ e.2 < 2 ^ 64) i.index.entries
  symbols : Counted (fun e => TextSized e.1 ∧ e.2.Storable) i.symbols.entries
  mandatory : Counted TextSized i.mandatory.keys
  optional : Counted TextSized i.optional.keys

/-- An image is written field by field. -/
def Image.layout (i : Image) : List Codec.Piece :=
  listLayout Object.layout i.objects ++
    listLayout (fun e => textLayout e.1 ++ [.number e.2]) i.index.entries ++
    listLayout (fun e => textLayout e.1 ++ e.2.layout) i.symbols.entries ++
    listLayout textLayout i.mandatory.keys ++ listLayout textLayout i.optional.keys

namespace Codec

theorem lawful_symbol : Lawful symbol Symbol.Storable Symbol.layout :=
  ((lawful_text.pair (lawful_symbolKind.pair lawful_value)).imap fun _ => rfl).congr fun s hs =>
    ⟨⟨hs, trivial, trivial⟩, by simp only [Symbol.layout, List.append_assoc]⟩

theorem lawful_reference : Lawful reference Reference.Storable Reference.layout :=
  ((lawful_text.pair (lawful_count.pair (lawful_datatype.pair lawful_text.list))).imap
    fun _ => rfl).congr fun r hr => ⟨⟨hr.name, hr.offset, trivial, hr.scope⟩, by
      simp only [Reference.layout, List.append_assoc, List.cons_append, List.nil_append]⟩

theorem lawful_object : Lawful object Object.Storable Object.layout :=
  ((lawful_text.pair (lawful_text.list.pair (lawful_nameSet.pair (lawful_nameSet.pair
    (lawful_buffer.pair (lawful_buffer.pair (lawful_symbol.list.pair (lawful_reference.list.pair
      lawful_count.list)))))))).imap fun _ => rfl).congr fun o ho =>
    ⟨⟨ho.name, ho.required, ho.mandatory, ho.optional, ho.code, ho.static, ho.symbols,
      ho.unresolved, ho.relocations⟩, by simp only [Object.layout, List.append_assoc]⟩

theorem lawful_image : Lawful image Image.Storable Image.layout :=
  ((lawful_object.list.pair (lawful_count.nameMap.pair (lawful_symbol.nameMap.pair
    (lawful_nameSet.pair lawful_nameSet)))).imap fun _ => rfl).congr fun i hi =>
    ⟨⟨hi.objects, hi.index, hi.symbols, hi.mandatory, hi.optional⟩, by
      simp only [Image.layout, List.append_assoc]⟩

end Codec

/-! ## Containers -/

namespace Container

variable {α : Type} {c : Container α} {P : α → Prop} {layout : α → List Codec.Piece}

/-- Behind its kind and the version, a container is its body. -/
theorem ofBytes_magicBytes (c : Container α) (bs : List UInt8) :
    c.ofBytes (c.magicBytes ++ version.1 :: version.2 :: 0 :: bs) =
      ((c.body.read bs).map Prod.fst).mapError .malformed := by
  have hmagic :
      c.magicBytes.isPrefixOf (c.magicBytes ++ version.1 :: version.2 :: 0 :: bs) = true :=
    List.isPrefixOf_iff_prefix.mpr (List.prefix_append _ _)
  have hversion : isNewer version.1 version.2 = false := by decide
  simp only [ofBytes, hmagic, Bool.not_true, Bool.false_eq_true, if_false, List.drop_left, hversion]
  cases c.body.read bs with
  | error e => rfl
  | ok p => rfl

theorem toBytes_eq (c : Container α) (x : α) :
    c.toBytes x = c.magicBytes ++ version.1 :: version.2 :: 0 :: c.body.write x := by
  simp [toBytes]

theorem ofBytes_of_lawful (h : c.body.Lawful P layout) {x : α} (hx : P x) (rest : List UInt8) :
    c.ofBytes (c.toBytes x ++ rest) = .ok x := by
  have hread := h.takes x hx rest
  have hbytes : c.toBytes x ++ rest =
      c.magicBytes ++ version.1 :: version.2 :: 0 :: (c.body.write x ++ rest) := by
    simp [toBytes_eq]
  rw [hbytes, ofBytes_magicBytes, hread]
  rfl

theorem ofBytes_of_short {bs : List UInt8} (h : bs.length < c.magicBytes.length) :
    c.ofBytes bs = .error (.badMagic c.magic) := by
  have hmagic : c.magicBytes.isPrefixOf bs = false := by
    rw [Bool.eq_false_iff]
    intro hprefix
    have hle := (List.isPrefixOf_iff_prefix.mp hprefix).length_le
    omega
  simp only [ofBytes, hmagic, Bool.not_false, if_true]

/-- Without a whole version there is no body. -/
theorem ofBytes_of_noVersion {bs : List UInt8} (h : bs.length < 3) :
    c.ofBytes (c.magicBytes ++ bs) = .error (.malformed .truncated) := by
  have hmagic : c.magicBytes.isPrefixOf (c.magicBytes ++ bs) = true :=
    List.isPrefixOf_iff_prefix.mpr (List.prefix_append _ _)
  simp only [ofBytes, hmagic, Bool.not_true, Bool.false_eq_true, if_false, List.drop_left]
  split
  · simp only [List.length_cons] at h
    omega
  · rfl

theorem ofBytes_of_strict (h : c.body.Lawful P layout) {x : α} (hx : P x) {bs more : List UInt8}
    (hbs : bs ++ more = c.toBytes x) (hmore : more ≠ []) :
    c.ofBytes bs = .error
      (if bs.length < c.magicBytes.length then .badMagic c.magic else .malformed .truncated) := by
  by_cases hshort : bs.length < c.magicBytes.length
  · rw [if_pos hshort, ofBytes_of_short hshort]
  · rw [if_neg hshort]
    rw [toBytes_eq] at hbs
    -- The kind is complete, so what is missing is missing behind it.
    obtain ⟨tail, rfl⟩ : c.magicBytes <+: bs :=
      List.prefix_of_prefix_length_le ⟨_, hbs.symm⟩ ⟨more, rfl⟩ (by omega)
    rw [List.append_assoc, List.append_cancel_left_eq] at hbs
    by_cases hversion : tail.length < 3
    · exact ofBytes_of_noVersion hversion
    · have hall : [version.1, version.2, 0] <+: tail ++ more := ⟨c.body.write x, hbs.symm⟩
      obtain ⟨body, rfl⟩ : [version.1, version.2, 0] <+: tail :=
        List.prefix_of_prefix_length_le hall ⟨more, rfl⟩ (Nat.not_lt.mp hversion)
      have hbody : body ++ more = c.body.write x := by simpa using hbs
      have hread := (hbody ▸ h.takes x hx).truncated h.determined hmore
      change c.ofBytes (c.magicBytes ++ version.1 :: version.2 :: 0 :: body) = _
      rw [ofBytes_magicBytes, hread]
      rfl

/-- Containers are read back, whatever follows them, and are written as kind, version and the
layout of what they hold. -/
theorem ofBytes_toBytes_append :
    (∀ (o : Object) (rest : List UInt8), o.Storable →
      object.ofBytes (object.toBytes o ++ rest) = .ok o ∧
        ∃ body, Codec.Spelled o.layout body ∧
          object.toBytes o = [0x43, 0x4e, 0x44, 0x4f, 0, 1, 0] ++ body) ∧
      ∀ (i : Image) (rest : List UInt8), i.Storable →
        image.ofBytes (image.toBytes i ++ rest) = .ok i ∧
          ∃ body, Codec.Spelled i.layout body ∧
            image.toBytes i = [0x43, 0x4e, 0x44, 0x58, 0, 1, 0] ++ body := by
  refine ⟨fun o rest ho => ⟨ofBytes_of_lawful Codec.lawful_object ho rest, ?_⟩,
    fun i rest hi => ⟨ofBytes_of_lawful Codec.lawful_image hi rest, ?_⟩⟩
  · exact ⟨_, Codec.lawful_object.spelled o ho, rfl⟩
  · exact ⟨_, Codec.lawful_image.spelled i hi, rfl⟩

/-- An object with a number of two groups, text beyond ASCII and a datatype without values. -/
def packedObject : Object where
  name := "mód"
  required := ["lib"]
  mandatory := ∅
  optional := NameSet.ofNames ["net", "console"]
  code := #[1, 2, 3, 4]
  static := #[104, 105, 0]
  symbols := [⟨"far", .alias, .int true .w64 (-300)⟩, ⟨"kind", .static, .type .none⟩]
  unresolved := [⟨"helper", 300, .addr, ["f", "g"]⟩]
  relocations := [128]

theorem storable_packedObject : packedObject.Storable := by
  constructor <;> decide +kernel

/-- An image of that object. -/
def packedImage : Image where
  objects := [packedObject]
  index := NameMap.ofList [("mód", 0)]
  symbols := NameMap.ofList [("far", ⟨"far", .alias, .int true .w64 (-300)⟩)]
  mandatory := ∅
  optional := NameSet.ofNames ["net", "console"]

theorem storable_packedImage : packedImage.Storable where
  objects := ⟨by decide, fun o ho => List.mem_singleton.mp ho ▸ storable_packedObject⟩
  index := by decide +kernel
  symbols := by decide +kernel
  mandatory := by decide +kernel
  optional := by decide +kernel

theorem ofBytes_toBytes_append_packed :
    packedObject.Storable ∧ object.ofBytes (object.toBytes packedObject ++ [7]) = .ok packedObject ∧
      packedImage.Storable ∧ image.ofBytes (image.toBytes packedImage ++ [7]) = .ok packedImage :=
  ⟨storable_packedObject, (ofBytes_toBytes_append.1 packedObject [7] storable_packedObject).1,
    storable_packedImage, (ofBytes_toBytes_append.2 packedImage [7] storable_packedImage).1⟩

/-- Nothing that is missing at the end of a container goes unnoticed. -/
theorem ofBytes_of_strict_beginning :
    (∀ (o : Object) (bs : List UInt8), o.Storable → bs <+: object.toBytes o →
      bs ≠ object.toBytes o → object.ofBytes bs = .error
        (if bs.length < 4 then .badMagic "CNDO" else .malformed .truncated)) ∧
      ∀ (i : Image) (bs : List UInt8), i.Storable → bs <+: image.toBytes i →
        bs ≠ image.toBytes i → image.ofBytes bs = .error
          (if bs.length < 4 then .badMagic "CNDX" else .malformed .truncated) := by
  have hstrict : ∀ {bs more all : List UInt8}, bs ++ more = all → bs ≠ all → more ≠ [] := by
    rintro bs more all rfl hne rfl
    exact hne (List.append_nil bs).symm
  constructor
  · intro o bs ho hprefix hne
    obtain ⟨more, hmore⟩ := hprefix
    exact ofBytes_of_strict Codec.lawful_object ho hmore (hstrict hmore hne)
  · intro i bs hi hprefix hne
    obtain ⟨more, hmore⟩ := hprefix
    exact ofBytes_of_strict Codec.lawful_image hi hmore (hstrict hmore hne)

/-- A cut between the two groups of a number, and one inside the kind. -/
theorem ofBytes_of_strict_beginning_packed :
    object.ofBytes ((object.toBytes packedObject).take 48) = .error (.malformed .truncated) ∧
      image.ofBytes ((image.toBytes packedImage).take 3) = .error (.badMagic "CNDX") := by
  have hobject : ((object.toBytes packedObject).take 48).length = 48 := by cbv
  have himage : ((image.toBytes packedImage).take 3).length = 3 := by cbv
  have hobject' : (object.toBytes packedObject).length = 76 := by cbv
  have himage' : (image.toBytes packedImage).length = 111 := by cbv
  have hcut := ofBytes_of_strict_beginning.1 packedObject _ storable_packedObject
    (List.take_prefix 48 _) fun h => by rw [h] at hobject; omega
  have hcut' := ofBytes_of_strict_beginning.2 packedImage _ storable_packedImage
    (List.take_prefix 3 _) fun h => by rw [h] at himage; omega
  rw [hobject] at hcut
  rw [himage] at hcut'
  exact ⟨hcut, hcut'⟩

end Container

end CellMachine
