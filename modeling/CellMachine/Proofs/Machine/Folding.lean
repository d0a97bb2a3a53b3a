import CellMachine.Machine.Execution
import CellMachine.Proofs.Assembly.Conversion

/-!
# Numbers that are converted early

The number of a conversion is converted when the instruction is made, and the machine takes it as it
is (`Exec.convert_ofValue`). A number in memory is converted by the machine (`Exec.convert_deref`).
Both store the same (`assemble_convert_number`), and a number can be converted early exactly if the
machine can convert it.
-/

namespace CellMachine

/-- The conversion of the machine is that of values. -/
theorem convertCell_toCell_iff {v : Value} {T : Datatype} {c : Cell} :
    convertCell v.datatype T v.toCell = .ok c ↔ ∃ w, v.cast? T = some w ∧ c = w.toCell := by
  unfold convertCell
  simp only [v.ofCell?_toCell]
  cases v.cast? T with
  | some w => simp [eq_comm]
  | none => simp

theorem Cell.toDatatype?_ofDatatype (dt : Datatype) : (Cell.ofDatatype dt).toDatatype? = some dt := by
  have hcell : (Cell.ofDatatype dt).toDatatype?.map Value.type = some (.type dt) :=
    (Value.type dt).ofCell?_toCell
  obtain ⟨t, ht, htype⟩ := Option.map_eq_some_iff.mp hcell
  cases htype
  exact ht

/-! ## Execution -/

/-- The instruction with another destination, as the linker may leave it. -/
def Instruction.into (i : Instruction) (dst : Operand) : Instruction :=
  { i with fixed := dst :: i.fixed.tail }

/-- The machine with its code pointer behind an instruction at `cp`. -/
def Machine.past (s : Machine) (i : Instruction) (cp : Address) : Machine :=
  s.jump (cp.add (Int64.ofNat i.size))

namespace Exec

/-- Stores bytes at the place that an operand names. -/
def deposit (dst : Operand) (bytes : List UInt8) : Exec Unit := do
  let a ← place dst
  ofMemory (.write a bytes)

variable {T F : Datatype} {dst src : Operand} {s : Machine}

theorem namedType_ofDatatype (dt : Datatype) : namedType (.ofDatatype dt) = pure dt := by
  have hvalue : value (.ofDatatype dt) .type = pure (.ofDatatype dt) := rfl
  unfold namedType
  rw [hvalue, pure_bind, Cell.toDatatype?_ofDatatype]

/-- Reading the memory changes nothing. -/
theorem query_apply {α : Type} (f : Memory → Except Fault α) (s : Machine) :
    query f s = match f s.memory with
      | .ok a => .ok a s
      | .error e => .error e s := by
  obtain ⟨⟨memory, console⟩, registry, config, cache, halted, steps⟩ := s
  unfold query ofMemory MemoryOp.query Machine.memory
  dsimp only
  cases f memory with
  | ok a => rfl
  | error e => rfl

theorem place_cases (dst : Operand) (s : Machine) :
    (∃ a, place dst s = .ok a s) ∨ ∃ f, place dst s = .error f s := by
  unfold place
  split
  · change (∃ a, EStateM.bind (query _) _ s = .ok a s) ∨ ∃ f, EStateM.bind (query _) _ s = .error f s
    unfold EStateM.bind
    rw [query_apply]
    cases s.memory.load dst.cell.toAddress .addr with
    | ok c => exact .inl ⟨_, rfl⟩
    | error f => exact .inr ⟨f, rfl⟩
  · exact .inl ⟨_, rfl⟩

/-- A conversion stores what it makes of its source. -/
theorem convert_of_value {k c : Cell} (hvalue : value src F s = .ok k s)
    (hc : convertCell (if src.deref then F else T) T k = .ok c) :
    convert T dst (.ofDatatype F) src s = deposit dst (c.bytes T) s := by
  unfold convert deposit
  rw [namedType_ofDatatype]
  change EStateM.bind (place dst) _ s = EStateM.bind (place dst) _ s
  unfold EStateM.bind
  rcases place_cases dst s with ⟨a, ha⟩ | ⟨f, hf⟩
  · rw [ha]
    change EStateM.bind (value src F) _ s = _
    unfold EStateM.bind
    rw [hvalue]
    simp only [hc]
    rfl
  · rw [hf]

/-- A number that was converted is stored as it is. -/
theorem convert_ofValue {w : Value} (hw : w.datatype = T) :
    convert T dst (.ofDatatype F) (.ofValue w) s = deposit dst (w.toCell.bytes T) s := by
  refine convert_of_value (k := w.toCell) rfl ?_
  have hself : w.cast? T = some w := by simp [Value.cast?, hw]
  have hcell := convertCell_toCell_iff.mpr ⟨w, hself, rfl⟩
  rwa [hw] at hcell

/-- A number in memory is converted and stored. -/
theorem convert_deref {a : Address} {v : Value} {c : Cell}
    (hread : s.memory.read a v.datatype.size = .ok (v.toCell.bytes v.datatype))
    (hc : convertCell v.datatype T v.toCell = .ok c) :
    convert T dst (.ofDatatype v.datatype) ⟨.value, .u64, true, .ofAddress a⟩ s =
      deposit dst (c.bytes T) s := by
  refine convert_of_value (k := v.toCell) ?_ hc
  change query (fun m => m.load a v.datatype) s = _
  have hload : s.memory.load a v.datatype = .ok v.toCell := by
    unfold Memory.load
    rw [hread]
    exact congrArg Except.ok (Cell.ofBytes_bytes v.fits_toCell)
  rw [query_apply, hload]

theorem execute_conversion (x : Operand) (cp : Address) (s : Machine) :
    execute ((Instruction.conversion T x F src).into dst) cp s = convert T dst (.ofDatatype F) src
      (s.past ((Instruction.conversion T x F src).into dst) cp) := rfl

end Exec

/-! ## Numbers in source text and in memory -/

theorem decode_conversion {T F : Datatype} {dst src : Operand} {code : Buffer}
    (hx : (Instruction.conversion T dst F src).WellFormed)
    (hcode : code.toList = (Instruction.conversion T dst F src).encode) :
    decode code 0 = .ok (.conversion T dst F src) ∧
      (Instruction.conversion T dst F src).size = code.size := by
  have hholds : code.Holds 0 (Instruction.conversion T dst F src).encode :=
    Buffer.holds_iff_exists.mpr ⟨[], [], by simpa using hcode, rfl⟩
  refine ⟨decode_of_holds hx hholds, ?_⟩
  rw [← Instruction.length_encode, ← hcode, Array.length_toList]

/-- A number is converted early as the machine would convert it. What the instruction stores at its
destination, wherever that is, are the bytes that a conversion of the same number in memory stores
there. -/
theorem assemble_convert_number {F T : Datatype} {d o : OperandText} {v : Value} {token : Token}
    {tokens : Array Token} {name : String} (hd : d.IsPlace)
    (ho : (o.operand token).isNumber = true) (hv : (o.operand token).value? F = .ok v)
    (htokens : Spelled tokens (convertWords T d F o)) :
    ((∃ m, assemble tokens name = .ok m) ↔ ∃ c, convertCell F T v.toCell = .ok c) ∧
      ∀ m c, assemble tokens name = .ok m → convertCell F T v.toCell = .ok c →
        ∃ i, decode m.code 0 = .ok i ∧ i.size = m.code.size ∧
          (∀ dst cp s, Exec.execute (i.into dst) cp s =
            Exec.deposit dst (c.bytes T) (s.past (i.into dst) cp)) ∧
          ∀ (p : OperandText) (a : Address) (tokens' : Array Token), p.deref = true →
            (p.operand token).value? .u64 = .ok (.ofUInt64 a.bits) →
            Spelled tokens' (convertWords T d F p) →
            ∃ m' i', assemble tokens' name = .ok m' ∧ decode m'.code 0 = .ok i' ∧
              i'.size = m'.code.size ∧ i'.fixed.head? = i.fixed.head? ∧
              ∀ dst cp s, (s.past (i'.into dst) cp).memory.read a F.size =
                  .ok (v.toCell.bytes F) →
                Exec.execute (i'.into dst) cp s =
                  Exec.deposit dst (c.bytes T) (s.past (i'.into dst) cp) := by
  obtain rfl := SourceOperand.datatype_of_value? hv
  by_cases hT : T = .none
  · subst hT
    obtain ⟨lines, stop, rfl, hlines⟩ := htokens
    have hassemble (m : Object) :
        assemble (lines ++ [Token.endOfCode stop]).toArray name ≠ .ok m := by
      intro hm
      have hcode := assembledCode?_eq_some_iff.mpr ⟨m, hm, rfl⟩
      rw [assembledCode?_convert_none hlines] at hcode
      cases hcode
    have hconvert (c : Cell) : convertCell v.datatype .none v.toCell ≠ .ok c := by
      intro h
      obtain ⟨w, hw, -⟩ := convertCell_toCell_iff.mp h
      rw [v.cast?_none] at hw
      cases hw
    refine ⟨iff_of_false ?_ ?_, fun m c hm _ => absurd hm (hassemble m)⟩
    · rintro ⟨m, hm⟩
      exact hassemble m hm
    · rintro ⟨c, hc⟩
      exact hconvert c hc
  obtain ⟨dst₀, hdst⟩ := hd.exists_placedAs T
  have hsrc := OperandText.writtenAs_number (F := v.datatype) hT ho
  have hsource (m : Object) (hm : assemble tokens name = .ok m) : ∃ w, v.cast? T = some w ∧
      m.code.toList = (Instruction.conversion T dst₀ v.datatype (.ofValue w)).encode := by
    obtain ⟨_, ⟨v', w, hv', hw, rfl⟩, hcode⟩ :=
      (assembledCode?_convert_iff hT hdst hsrc htokens).mp
        (assembledCode?_eq_some_iff.mpr ⟨m, hm, rfl⟩)
    cases hv.symm.trans hv'
    exact ⟨w, hw, hcode⟩
  constructor
  · constructor
    · rintro ⟨m, hm⟩
      obtain ⟨w, hw, -⟩ := hsource m hm
      exact ⟨_, convertCell_toCell_iff.mpr ⟨w, hw, rfl⟩⟩
    · rintro ⟨c, hc⟩
      obtain ⟨w, hw, -⟩ := convertCell_toCell_iff.mp hc
      have hcode : assembledCode? tokens name = some _ :=
        (assembledCode?_convert_iff hT hdst hsrc htokens).mpr ⟨_, ⟨v, w, hv, hw, rfl⟩, rfl⟩
      obtain ⟨m, hm, -⟩ := assembledCode?_eq_some_iff.mp hcode
      exact ⟨m, hm⟩
  intro m c hm hc
  obtain ⟨w, hw, hcode⟩ := hsource m hm
  obtain ⟨w', hw', rfl⟩ := convertCell_toCell_iff.mp hc
  cases hw.symm.trans hw'
  obtain ⟨hdecode, hsize⟩ :=
    decode_conversion (wellFormed_conversion hdst hsrc ⟨v, w, hv, hw, rfl⟩) hcode
  refine ⟨_, hdecode, hsize, fun dst cp s => ?_, ?_⟩
  · rw [Exec.execute_conversion]
    exact Exec.convert_ofValue (Value.datatype_of_cast? hw)
  intro p a tokens' hderef ha htokens'
  have hplain : (p.operand token).isNumber = false := by
    unfold SourceOperand.isNumber OperandText.operand
    cases p.term <;> simp [hderef]
  have hsrc' : p.WrittenAs v.datatype T (· = ⟨.value, .u64, p.deref, .ofAddress a⟩) :=
    OperandText.writtenAs_value (v := .ofUInt64 a.bits) hplain (by rw [hderef]; rfl) ha
  rw [hderef] at hsrc'
  have hcode' : assembledCode? tokens' name = some _ :=
    (assembledCode?_convert_iff hT hdst hsrc' htokens').mpr ⟨_, rfl, rfl⟩
  obtain ⟨m', hm', hcode'⟩ := assembledCode?_eq_some_iff.mp hcode'
  obtain ⟨hdecode', hsize'⟩ := decode_conversion (wellFormed_conversion hdst hsrc' rfl) hcode'
  refine ⟨m', _, hm', hdecode', hsize', rfl, fun dst cp s hread => ?_⟩
  rw [Exec.execute_conversion]
  exact Exec.convert_deref hread hc

/-- `@$lc`. -/
def countedText : OperandText := .ofSpells (.register .lc) true

/-- As an `i8` the number is -56, here and in memory. -/
theorem assemble_convert_number_wraps :
    ∃ m i m' i', assemble (tokensOf (convertWords .i8 accumulatorText .u8 twoHundredText)) "m" =
        .ok m ∧ decode m.code 0 = .ok i ∧
      assemble (tokensOf (convertWords .i8 accumulatorText .u8 countedText)) "m" = .ok m' ∧
      decode m'.code 0 = .ok i' ∧ i'.fixed.head? = i.fixed.head? ∧
      ∀ dst cp s, Exec.execute (i.into dst) cp s =
          Exec.deposit dst [0xc8] (s.past (i.into dst) cp) ∧
        ((s.past (i'.into dst) cp).memory.read Register.lc.address 1 = .ok [0xc8] →
          Exec.execute (i'.into dst) cp s =
            Exec.deposit dst [0xc8] (s.past (i'.into dst) cp)) := by
  have hplace : accumulatorText.IsPlace := ⟨.endOfCode .start, .addr Register.ac.address, rfl⟩
  have hcell : convertCell .u8 .i8 (Value.int false .w8 200).toCell = .ok ⟨0xc8⟩ := by rfl
  have hnumber : (twoHundredText.operand (.endOfCode .start)).isNumber = true := rfl
  have hvalue : (twoHundredText.operand (.endOfCode .start)).value? .u8 = .ok (.int false .w8 200) :=
    rfl
  obtain ⟨hcompiles, hstores⟩ : ((∃ m, assemble (tokensOf (convertWords .i8 accumulatorText .u8
      twoHundredText)) "m" = .ok m) ↔ _) ∧ _ :=
    assemble_convert_number hplace hnumber hvalue (spelled_tokensOf _)
  obtain ⟨m, hm⟩ := hcompiles.mpr ⟨_, hcell⟩
  obtain ⟨i, hi, -, hexecute, hmemory⟩ := hstores m _ hm hcell
  obtain ⟨m', i', hm', hi', -, hhead, hexecute'⟩ := hmemory countedText Register.lc.address _ rfl rfl
    (spelled_tokensOf _)
  exact ⟨m, i, m', i', hm, hi, hm', hi', hhead, fun dst cp s => ⟨hexecute dst cp s,
    hexecute' dst cp s⟩⟩

end CellMachine
