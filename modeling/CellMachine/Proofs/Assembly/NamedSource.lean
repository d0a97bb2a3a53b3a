import CellMachine.Proofs.Binding

/-!
# Names that are converted

A number behind the datatype `F` of a conversion to `T` is read as an `F` and converted. A name in
its place is bound to a slot of datatype `T`, and `F` is not looked at : the number that it stands
for has to be in the range of `T` (`Assembler.assembledCode?_named`). So a name stands for its
number exactly where reading the number as an `F` and converting it is the same as reading it as a
`T` (`assembledCode?_convert_name`).
-/

namespace CellMachine

/-! ## Values -/

namespace Value

/-- A number in the range of two types is converted to itself, unless it was rounded. -/
theorem cast?_of_ofInt? {n : Int} {F T : Datatype} {v w : Value} (hv : ofInt? n F = some v)
    (hF : F.isFloat = false) (hw : ofInt? n T = some w) : v.cast? T = some w := by
  have hnumeral := toNumeral_of_ofInt? hv hF
  have hdatatype := datatype_of_ofInt? hv
  by_cases hsame : v.datatype = T
  · rw [← hsame, hdatatype, hv] at hw
    cases hw
    rw [← hsame]
    exact cast?_self v
  · exact cast?_of_toNumeral hnumeral hsame hw

/-- The bytes of a value tell it from all others of its datatype. -/
theorem bytes_injective {v w : Value} (hdatatype : v.datatype = w.datatype)
    (h : v.toCell.bytes v.datatype = w.toCell.bytes w.datatype) : v = w := by
  have hcell : v.toCell = w.toCell := by
    rw [← Cell.ofBytes_bytes v.fits_toCell, h, Cell.ofBytes_bytes w.fits_toCell]
  have hv := v.ofCell?_toCell
  rw [hcell, hdatatype, w.ofCell?_toCell] at hv
  exact (Option.some.inj hv).symm

end Value

/-! ## Code -/

namespace Instruction

theorem encode_conversion (T : Datatype) (dst : Operand) (F : Datatype) (src : Operand) :
    (conversion T dst F src).encode = encodeHeader .convert T (maskOf [dst, .ofDatatype F, src]) ++
      dst.encode ++ (Operand.ofDatatype F).encode ++ src.encode := by
  simp [conversion, encode, encodeDescriptor, encodeOperands]

/-- The source is all that two conversions with the same header may differ in. -/
theorem encode_ofValue_injective {T F : Datatype} {dst : Operand} {v w : Value}
    (hv : v.datatype = T) (hw : w.datatype = T)
    (h : (conversion T dst F (.ofValue v)).encode = (conversion T dst F (.ofValue w)).encode) :
    v = w := by
  rw [encode_conversion, encode_conversion] at h
  exact Value.bytes_injective (hv.trans hw.symm) (List.append_cancel_left h)

end Instruction

/-! ## Modules -/

namespace Assembler

variable {T F : Datatype} {d : OperandText} {dst : Operand} {x name : String} {a : Assembler}

/-- A conversion of a name leaves a slot of its own datatype open. What fills it is the source. -/
theorem exists_opened_conversion (ha : a.Unwritten name) (hT : T ≠ .none) (hdst : d.PlacedAs T dst)
    (hd : ∀ n, d.term ≠ .name n) (hx : Datatype.ofName? x = none) (t₁ t₂ t₃ : Token) :
    ∃ b r, Asm.writeInstruction (.conversion T (d.operand t₁) F t₂
        ((OperandText.ofName x).operand t₃)) a = .ok () b ∧ Opened x a b r ∧ r.datatype = T ∧
      r.offset + T.size ≤ b.object.code.size ∧ ∀ w : Value, w.datatype = T →
        (b.object.code.write r.offset (w.toCell.bytes T)).toList =
          (Instruction.conversion T dst F (.ofValue w)).encode := by
  have hslot : Role.value.encodedDatatype T false = T := by
    cases T with
    | none => exact absurd rfl hT
    | _ => rfl
  let s := a.appendCode (encodeHeader .convert T 0)
  have hstatic : s.object.static = #[] := congrArg Object.static ha.object
  obtain ⟨s₁, hplace⟩ := hdst t₁ s hstatic
  have houtput : s₁ = s.withOutput s₁ :=
    Asm.eq_withOutput_of_ok (fun R hR => Asm.simulates_writeOperand hR hd _ _) hplace
  let u := s₁.appendCode (Operand.ofDatatype F).encode
  have hsource : Asm.writeFixed (some F) ((OperandText.ofName x).operand t₃) .value T u =
      .ok ⟨.value, T, false, .zero⟩ ((u.appendCode (List.replicate T.size 0)).recorded
        ⟨x, u.object.code.size, T, u.path⟩ t₃.position) := by
    have hwrite := Asm.writeOperand_renamed ((OperandText.ofName x).operand t₃) .value T hx u
    rw [show ((OperandText.ofName x).operand t₃).deref = false from rfl, hslot] at hwrite
    exact hwrite
  have hwrites : Asm.WritesConversion T (d.operand t₁) F ((OperandText.ofName x).operand t₃) a dst
      ⟨.value, T, false, .zero⟩ s₁ _ := ⟨hplace, hsource⟩
  refine ⟨_, ⟨x, u.object.code.size, T, u.path⟩,
    Asm.writeInstruction_conversion_iff.mpr ⟨_, _, _, _, hwrites, rfl⟩, ⟨rfl, ?_, t₃.position, ?_⟩,
    rfl, ?_, fun w hw => ?_⟩
  · change s₁.path = a.path
    rw [houtput]
    rfl
  · have hu : u = a.withOutput u :=
      congrArg (Assembler.appendCode · (Operand.ofDatatype F).encode) houtput
    exact congrArg (fun v : Assembler => ((v.appendCode (List.replicate T.size 0)).recorded
      ⟨x, u.object.code.size, T, u.path⟩ t₃.position).overwriteCode (a.object.code.size + 2)
        (littleEndian 2 _)) hu
  · simp [overwriteCode, recorded, appendCode, Buffer.size_write]
  · have hempty : a.object.code = #[] := congrArg Object.code ha.object
    have hcode := hwrites.code
    rw [Instruction.encode_conversion, show a.object.code.toList = [] by rw [hempty],
      List.nil_append] at hcode
    have hoffset : u.object.code.size = (encodeHeader .convert T (maskOf [dst, .ofDatatype F,
        ⟨.value, T, false, .zero⟩]) ++ dst.encode ++ (Operand.ofDatatype F).encode).length := by
      have hs₁ := (Asm.writeOperand_spec (by simp) hplace).adds.size_eq
      have hs : s.object.code.size = headerSize := by
        simp [s, appendCode, hempty, length_encodeHeader]
      have hu : u.object.code.size = s₁.object.code.size + (Operand.ofDatatype F).encode.length := by
        simp [u, appendCode]
      rw [hu, hs₁, hs, List.length_append, List.length_append, length_encodeHeader]
    have hlength : (w.toCell.bytes T).length = (Operand.encode ⟨.value, T, false, .zero⟩).length := by
      simp [Operand.encode]
    rw [← List.append_nil (_ ++ _)] at hcode
    have hfilled := Buffer.toList_write_middle hcode hoffset hlength
    rw [List.append_nil] at hfilled
    subst hw
    rw [hfilled, Instruction.encode_conversion]
    rfl

variable {y : Symbol} {code : List UInt8}

/-- The module has the code of a conversion of the number as it is, if that is in range. -/
theorem exists_finish_named_iff (ha : a.Unwritten name) (hT : T ≠ .none) (hdst : d.PlacedAs T dst)
    (hd : ∀ n, d.term ≠ .name n) (hx : Datatype.ofName? x = none) (t₁ t₂ t₃ : Token) {n : Int}
    (hv : Value.ofInt? n .i64 = some y.value) {f : Assembler → Assembler}
    (hf : ∀ t r, Opened x a t r → Replaceable.Bindable y a.path x t (f t)) :
    (∃ m, (∃ b, Asm.writeInstruction (.conversion T (d.operand t₁) F t₂
        ((OperandText.ofName x).operand t₃)) a = .ok () b ∧ (f b).finish = .ok m) ∧
          m.code.toList = code) ↔
      ∃ w, Value.ofInt? n T = some w ∧ code = (Instruction.conversion T dst F (.ofValue w)).encode := by
  obtain ⟨b, r, hb, hopened, rfl, hinside, hcode⟩ :=
    exists_opened_conversion (F := F) ha hT hdst hd hx t₁ t₂ t₃
  have hfinish (m : Object) := Replaceable.finish_of_opened (o := m) ha hopened hv (hf b r hopened)
  constructor
  · rintro ⟨m, ⟨b', hb', hm⟩, rfl⟩
    cases hb.symm.trans hb'
    obtain ⟨w, hw, -, rfl⟩ := (hfinish m).mp hm
    exact ⟨w, hw, hcode w (Value.datatype_of_ofInt? hw)⟩
  · rintro ⟨w, hw, rfl⟩
    exact ⟨_, ⟨b, hb, (hfinish _).mpr ⟨w, hw, hinside, rfl⟩⟩, hcode w (Value.datatype_of_ofInt? hw)⟩

end Assembler

section

open Assembler

variable {T F : Datatype} {d : OperandText} {dst : Operand} {x name number : String} {l : IntLiteral}
  {tokens literal named : Array Token} {code : List UInt8}

/-- The words of a module with a conversion of a name, and an alias for a number in front of it or
behind it. -/
def AliasedConversion (T : Datatype) (d : OperandText) (F : Datatype) (x number : String)
    (words : Words) : Prop :=
  words = aliasLine x number ++ convertWords T d F (.ofName x) ∨
    words = convertWords T d F (.ofName x) ++ (.newline, "\n") :: aliasLine x number

/-- A name is bound to its number as a `T`. -/
theorem assembledCode?_named_iff (hT : T ≠ .none) (hdst : d.PlacedAs T dst)
    (hd : ∀ n, d.term ≠ .name n) (hx : Datatype.ofName? x = none)
    (hnumber : IntLiteral.ofText? number = some l)
    (hrange : -2 ^ 63 ≤ l.toInt ∧ l.toInt < 2 ^ 63) {words : Words}
    (hwords : AliasedConversion T d F x number words) (htokens : Spelled tokens words) :
    assembledCode? tokens name = some code ↔ ∃ w, Value.ofInt? l.toInt T = some w ∧
      code = (Instruction.conversion T dst F (.ofValue w)).encode := by
  obtain ⟨v, hv⟩ := Value.exists_ofInt?_i64 hrange
  have hempty : (Assembler.empty name).Unwritten name := ⟨rfl, rfl, rfl⟩
  rw [assembledCode?_eq_some_iff]
  obtain ⟨lines, stop, rfl, hlines⟩ := htokens
  rcases hwords with rfl | rfl
  · obtain ⟨line, ts, rfl, hline, hts⟩ := List.map_eq_append_iff.mp hlines
    obtain ⟨t₁, t₂, t₃, hread⟩ := readFrom_of_convertWords hT hts
    let a : Assembler := { (Assembler.empty name).withSymbol ⟨x, .alias, v⟩ with statements := 1 }
    let f (b : Assembler) : Assembler := { b with statements := b.statements + 1 }
    have hassemble (m : Object) :
        assemble (line ++ ts ++ [Token.endOfCode stop]).toArray name = .ok m ↔
          ∃ b, Asm.writeInstruction (.conversion T (d.operand t₁) F t₂
            ((OperandText.ofName x).operand t₃)) a = .ok () b ∧ (f b).finish = .ok m :=
      assemble_eq_ok_iff_of_last hread (leads_aliasLine (a := .empty name) hline hnumber hv rfl)
    simp only [hassemble]
    refine exists_finish_named_iff (y := ⟨x, .alias, v⟩) (a := a) ⟨rfl, rfl, rfl⟩ hT hdst hd hx t₁ t₂
      t₃ hv fun t r hopened => ?_
    obtain ⟨hscopes, hindex, hsymbols⟩ := Replaceable.kept_of_opened hopened
    have hsymbols : t.object.symbols = [⟨x, .alias, v⟩] := hsymbols
    refine ⟨?_, hscopes, rfl, ?_⟩
    · change t.object = _
      rw [← hsymbols]
    · rw [lookup_congr (s := f t) (t := (Assembler.empty name).withSymbol ⟨x, .alias, v⟩) hindex
        hsymbols]
      exact lookup_withSymbol [] [] rfl rfl rfl
  · obtain ⟨ts, back, rfl, hts, hback⟩ := List.map_eq_append_iff.mp hlines
    obtain ⟨e, line, rfl, he, hline⟩ := List.map_eq_cons_iff.mp hback
    obtain ⟨t₁, t₂, t₃, hread⟩ := readFrom_of_convertWords hT hts
    have hkeeps (b : Assembler) (hb : Asm.writeInstruction (.conversion T (d.operand t₁) F t₂
        ((OperandText.ofName x).operand t₃)) (.empty name) = .ok () b) :
        b.scopes = [] ∧ b.index = ∅ :=
      (Asm.relates_writeInstruction Asm.admitsWriting_sameNames _).of_ok hb
    let f (b : Assembler) : Assembler := { b.withSymbol ⟨x, .alias, v⟩ with
      statements := b.statements + 1 + 1 }
    have hassemble (m : Object) :
        assemble ([] ++ (ts ++ [e]) ++ line ++ [Token.endOfCode stop]).toArray name = .ok m ↔
          ∃ b, Asm.writeInstruction (.conversion T (d.operand t₁) F t₂
            ((OperandText.ofName x).operand t₃)) (.empty name) = .ok () b ∧ (f b).finish = .ok m := by
      refine assemble_eq_ok_iff_of_leads hread (congrArg Prod.fst he) (.nil (.empty name))
        fun b hb => ?_
      obtain ⟨hscopes, hindex⟩ := hkeeps b hb
      have hpath : ({ b with statements := b.statements + 1 } : Assembler).path = [] := by
        unfold path
        rw [hscopes]
        rfl
      have hleads := leads_aliasLine (a := { b with statements := b.statements + 1 }) hline hnumber hv
        (by rw [hindex]; rfl)
      rw [hpath] at hleads
      exact hleads
    have hlist : ts ++ e :: line ++ [Token.endOfCode stop] =
        [] ++ (ts ++ [e]) ++ line ++ [Token.endOfCode stop] := by simp
    rw [hlist]
    simp only [hassemble]
    refine exists_finish_named_iff (y := ⟨x, .alias, v⟩) hempty hT hdst hd hx t₁ t₂ t₃ hv
      fun t r hopened => ?_
    obtain ⟨hscopes, hindex, hsymbols⟩ := Replaceable.kept_of_opened hopened
    have hsymbols : t.object.symbols = [] := hsymbols
    refine ⟨?_, hscopes, rfl, lookup_withSymbol (s := t) [] [] hindex hsymbols rfl⟩
    simp [f, withSymbol, hsymbols]

/-- A conversion to `none` is no instruction, whatever else is in the module. -/
theorem assembledCode?_named_none (hnumber : IntLiteral.ofText? number = some l)
    (hrange : -2 ^ 63 ≤ l.toInt ∧ l.toInt < 2 ^ 63) {words : Words}
    (hwords : AliasedConversion .none d F x number words) (htokens : Spelled tokens words) :
    assembledCode? tokens name = none := by
  obtain ⟨v, hv⟩ := Value.exists_ofInt?_i64 hrange
  obtain ⟨lines, stop, rfl, hlines⟩ := htokens
  rcases hwords with rfl | rfl
  · obtain ⟨line, ts, rfl, hline, hts⟩ := List.map_eq_append_iff.mp hlines
    rw [Option.eq_none_iff_forall_ne_some, List.append_assoc]
    intro code hcode
    obtain ⟨m, hm, -⟩ := assembledCode?_eq_some_iff.mp hcode
    exact assemble_convert_none_ne_ok (leads_aliasLine hline hnumber hv rfl) hts hm
  · obtain ⟨ts, back, rfl, hts, -⟩ := List.map_eq_append_iff.mp hlines
    rw [List.append_assoc]
    exact assembledCode?_convert_none hts

theorem assembledCode?_named (hdst : d.PlacedAs T dst) (hd : ∀ n, d.term ≠ .name n)
    (hx : Datatype.ofName? x = none) (hnumber : IntLiteral.ofText? number = some l)
    (hrange : -2 ^ 63 ≤ l.toInt ∧ l.toInt < 2 ^ 63) {words : Words}
    (hwords : AliasedConversion T d F x number words) (htokens : Spelled tokens words) :
    assembledCode? tokens name = (Value.ofInt? l.toInt T).map fun w =>
      (Instruction.conversion T dst F (.ofValue w)).encode := by
  by_cases hT : T = .none
  · subst hT
    rw [assembledCode?_named_none hnumber hrange hwords htokens]
    rfl
  · refine Option.ext fun code => ?_
    rw [assembledCode?_named_iff hT hdst hd hx hnumber hrange hwords htokens, Option.map_eq_some_iff]
    simp only [eq_comm]

/-- A number is read as an `F` and converted. -/
theorem assembledCode?_number (hdst : d.PlacedAs T dst) (hnumber : IntLiteral.ofText? number = some l)
    (htokens : Spelled tokens (convertWords T d F (.ofNumber hnumber))) :
    assembledCode? tokens name = ((Value.ofInt? l.toInt F).bind (·.cast? T)).map fun w =>
      (Instruction.conversion T dst F (.ofValue w)).encode := by
  have hvalue (v : Value) : ((OperandText.ofNumber hnumber).operand (.endOfCode .start)).value? F =
      .ok v ↔ Value.ofInt? l.toInt F = some v := SourceOperand.value?_integer_iff rfl rfl
  by_cases hT : T = .none
  · subst hT
    obtain ⟨lines, stop, rfl, hlines⟩ := htokens
    have hcast : ((Value.ofInt? l.toInt F).bind (·.cast? .none)) = none :=
      Option.bind_eq_none_iff.mpr fun v _ => v.cast?_none
    rw [assembledCode?_convert_none hlines, hcast, Option.map_none]
  · have hliteral : ((OperandText.ofNumber hnumber).operand (.endOfCode .start)).isNumber = true := rfl
    refine Option.ext fun code => ?_
    rw [assembledCode?_convert_iff hT hdst (OperandText.writtenAs_number hT hliteral) htokens,
      Option.map_eq_some_iff]
    simp only [hvalue, Option.bind_eq_some_iff]
    constructor
    · rintro ⟨_, ⟨v, w, hv, hw, rfl⟩, rfl⟩
      exact ⟨w, ⟨v, hv, hw⟩, rfl⟩
    · rintro ⟨w, ⟨v, hv, hw⟩, rfl⟩
      exact ⟨_, ⟨v, w, hv, hw, rfl⟩, rfl⟩

/-- A name makes a module of the same code as its number exactly if the number is the same `T`,
whether it is read as one or read as an `F` and converted. What is not a `T` cannot have a name
here. -/
theorem assembledCode?_convert_name (hplace : d.IsPlace) (hd : ∀ n, d.term ≠ .name n)
    (hx : Datatype.ofName? x = none) (hnumber : IntLiteral.ofText? number = some l)
    (hrange : -2 ^ 63 ≤ l.toInt ∧ l.toInt < 2 ^ 63)
    (hliteral : Spelled literal (convertWords T d F (.ofNumber hnumber))) {words : Words}
    (hwords : AliasedConversion T d F x number words) (hnamed : Spelled named words) :
    (assembledCode? named name).isSome = (Value.ofInt? l.toInt T).isSome ∧
      (assembledCode? named name = assembledCode? literal name ↔
        (Value.ofInt? l.toInt F).bind (·.cast? T) = Value.ofInt? l.toInt T) ∧
      (F.isFloat = false → (Value.ofInt? l.toInt F).isSome → (Value.ofInt? l.toInt T).isSome →
        assembledCode? named name = assembledCode? literal name) := by
  obtain ⟨dst, hdst⟩ := hplace.exists_placedAs T
  rw [assembledCode?_named hdst hd hx hnumber hrange hwords hnamed,
    assembledCode?_number hdst hnumber hliteral]
  refine ⟨by simp, ⟨fun h => ?_, fun h => by rw [h]⟩, fun hF hsome hsome' => ?_⟩
  · -- The bytes of the source tell which value it is.
    cases hw : Value.ofInt? l.toInt T with
    | none =>
      rw [hw, Option.map_none] at h
      exact Option.map_eq_none_iff.mp h.symm
    | some w =>
      rw [hw, Option.map_some] at h
      obtain ⟨w', hw', hcode⟩ := Option.map_eq_some_iff.mp h.symm
      obtain ⟨v, -, hcast⟩ := Option.bind_eq_some_iff.mp hw'
      rw [hw', Instruction.encode_ofValue_injective (Value.datatype_of_cast? hcast)
        (Value.datatype_of_ofInt? hw) hcode]
  · obtain ⟨v, hv⟩ := Option.isSome_iff_exists.mp hsome
    obtain ⟨w, hw⟩ := Option.isSome_iff_exists.mp hsome'
    rw [hv, hw, Option.bind_some, Value.cast?_of_ofInt? hv hF hw]

theorem ofText?_minusFive : IntLiteral.ofText? "-5" = some ⟨true, 5⟩ := by decide

/-- The alias is an `i64`, the number is read as an `i16`, and both are the same `i8`. -/
theorem assembledCode?_convert_name_negative :
    assembledCode? (tokensOf (convertWords .i8 accumulatorText .i16 (.ofName "x") ++
        (.newline, "\n") :: aliasLine "x" "-5")) "m" =
      assembledCode? (tokensOf (convertWords .i8 accumulatorText .i16 (.ofNumber ofText?_minusFive)))
        "m" := by
  have hplace : accumulatorText.IsPlace := ⟨.endOfCode .start, .addr Register.ac.address, rfl⟩
  have hname : ∀ n, accumulatorText.term ≠ .name n := fun n h => by cases h
  exact (assembledCode?_convert_name (x := "x") hplace hname (by decide) ofText?_minusFive (by decide)
    (spelled_tokensOf _) (.inr rfl) (spelled_tokensOf _)).2.2 rfl rfl rfl

/-- As a number 200 is a `u8` and becomes an `i8`. As a name it is no `i8`. -/
theorem assembledCode?_convert_name_overflow :
    assembledCode? (tokensOf (aliasLine "x" "200" ++
        convertWords .i8 accumulatorText .u8 (.ofName "x"))) "main" = none ∧
      assembledCode? (tokensOf (convertWords .i8 accumulatorText .u8 twoHundredText)) "main" =
        some [0x11, 0x00, 0x00, 0x00, 0x20, 0x00, 0x00, 0x00, 0x00, 0x00, 0x00, 0xa0, 0x04, 0xc8] := by
  constructor
  · decide +kernel
  · cbv

end

end CellMachine
