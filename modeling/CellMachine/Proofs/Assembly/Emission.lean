import CellMachine.Proofs.Assembly.Source

/-!
# What a statement writes

`Adds slots bytes s s'` says that an action has added bytes to the code, and references and
relocations at the given slots.
-/

namespace CellMachine

/-- A reference without the scopes it was written in. -/
def Reference.place (r : Reference) : String × Nat × Datatype := (r.name, r.offset, r.datatype)

namespace Assembler

/-- The code has got `bytes` behind it, and `slots` wait for names and pages. -/
structure Adds (slots : List Slot) (bytes : List UInt8) (s s' : Assembler) : Prop where
  code : s'.object.code.toList = s.object.code.toList ++ bytes
  unresolved : s'.object.unresolved.map Reference.place =
    s.object.unresolved.map Reference.place ++ slots.filterMap Slot.reference?
  relocations : s'.object.relocations = s.object.relocations ++ slots.filterMap Slot.relocation?

theorem Adds.refl (s : Assembler) : Adds [] [] s s where
  code := (List.append_nil _).symm
  unresolved := (List.append_nil _).symm
  relocations := (List.append_nil _).symm

variable {s s' : Assembler} {xs : List Slot} {bs : List UInt8}

theorem Adds.trans {ys : List Slot} {cs : List UInt8} {s₁ : Assembler} (h : Adds xs bs s s₁)
    (h' : Adds ys cs s₁ s') : Adds (xs ++ ys) (bs ++ cs) s s' where
  code := by rw [h'.code, h.code, List.append_assoc]
  unresolved := by rw [h'.unresolved, h.unresolved, List.filterMap_append, List.append_assoc]
  relocations := by rw [h'.relocations, h.relocations, List.filterMap_append, List.append_assoc]

theorem Adds.size_eq (h : Adds xs bs s s') :
    s'.object.code.size = s.object.code.size + bs.length := by
  rw [← Array.length_toList, h.code, List.length_append, Array.length_toList]

theorem Adds.of_movedTo {c : Cursor} (h : Adds xs bs (s.movedTo c) s') : Adds xs bs s s' :=
  ⟨h.code, h.unresolved, h.relocations⟩

theorem adds_appendCode (s : Assembler) (bs : List UInt8) : Adds [] bs s (s.appendCode bs) where
  code := by simp [appendCode]
  unresolved := (List.append_nil _).symm
  relocations := (List.append_nil _).symm

theorem cursor_appendCode (s : Assembler) (bs : List UInt8) :
    (s.appendCode bs).cursor = s.cursor := rfl

theorem cursor_overwriteCode (s : Assembler) (start : Nat) (bs : List UInt8) :
    (s.overwriteCode start bs).cursor = s.cursor := rfl

/-- Bytes that were added can be overwritten by as many. -/
theorem Adds.overwriteCode {bs₁ bs₂ bs₃ cs : List UInt8} (h : Adds xs (bs₁ ++ bs₂ ++ bs₃) s s')
    {start : Nat} (hstart : start = s.object.code.size + bs₁.length)
    (hlen : cs.length = bs₂.length) : Adds xs (bs₁ ++ cs ++ bs₃) s (s'.overwriteCode start cs) where
  code := by
    have hsplit : s'.object.code.toList = (s.object.code.toList ++ bs₁) ++ bs₂ ++ bs₃ := by
      simp [h.code]
    have hfront : start = (s.object.code.toList ++ bs₁).length := by simp [hstart]
    have hwrite := Buffer.toList_write_middle hsplit hfront hlen
    simpa [Assembler.overwriteCode] using hwrite
  unresolved := h.unresolved
  relocations := h.relocations

end Assembler

/-! ## Operands -/

theorem SourceOperand.datatype_of_value? {o : SourceOperand} {dt : Datatype} {v : Value}
    (h : o.value? dt = .ok v) : v.datatype = dt := by
  unfold value? at h
  cases hterm : o.term with
  | address a =>
    simp only [hterm] at h
    split at h
    · next hcast =>
      cases h
      split at hcast
      · exact Value.datatype_of_cast? hcast
      · simp at hcast
    · simp at h
  | integer l => grind [IntLiteral.toValue?, Value.datatype_of_ofInt?]
  | float word => grind [Value.datatype_of_cast?]
  | name name => grind [Value.datatype]
  | text t => grind

/-- The value of an address or a literal is what the operand denotes. -/
theorem SourceOperand.denotes_of_value? {o : SourceOperand} {dt : Datatype} {v : Value}
    (h : o.value? dt = .ok v) : o.Denotes none v := by
  have hdt := datatype_of_value? h
  unfold Denotes
  unfold value? at h
  cases hterm : o.term with
  | address a =>
    simp only [hterm] at h ⊢
    split at h
    · next hcast =>
      cases h
      split at hcast
      · next hholds =>
        have hslot : dt = .addr ∨ dt = .u64 := by simpa [Datatype.holdsAddress] using hholds
        rcases hslot with rfl | rfl
        · cases hcast
          rfl
        · cases hcast
          have hlt := a.bits.toNat_lt
          exact congrArg Numeral.integer
            (Value.intOf_ofInt (Int.natCast_nonneg _)
              (by simp [Value.maxInt, Width.bits, Width.bytes]; omega))
      · simp at hcast
    · simp at h
  | integer l =>
    have hvalue : l.toValue? dt = some v := by grind
    rw [hdt]
    exact ⟨hvalue, Value.toNumeral_of_ofInt? hvalue⟩
  | float word => grind
  | name name => grind
  | text t => grind

theorem Role.encodedDatatype_ne_none {role : Role} (h : role ≠ .typed .none) (dt : Datatype)
    (deref : Bool) : role.encodedDatatype dt deref ≠ .none := by
  unfold Role.encodedDatatype
  cases deref with
  | true => simp
  | false =>
    cases role with
    | value => cases dt <;> simp [Datatype.ofValueOperand]
    | typed t => simpa using h
    | _ => simp

namespace Asm

open Assembler (Adds)

variable {s s' : Assembler} {dt : Datatype} {xs : List Operand} {o : SourceOperand} {α : Type}
  {x : Operand} {source : Option Datatype} {op : Opcode} {offset : Nat}

theorem ofParser_eq_ok {p : Parser α} {a : α} :
    (liftM p : Asm α) s = .ok a s' ↔ ∃ c, p s.cursor = .ok a c ∧ s' = s.movedTo c := by
  change ofParser p s = .ok a s' ↔ _
  unfold ofParser Assembler.movedTo
  cases p s.cursor with
  | ok b c => simp [eq_comm, and_assoc]
  | error e c => simp

/-- What goes on behind a parser goes on with the cursor moved. -/
theorem ofParser_bind_eq_ok {β : Type} {p : Parser α} {f : α → Asm β} {b : β} :
    ((liftM p : Asm α) >>= f) s = .ok b s' ↔
      ∃ a c, p s.cursor = .ok a c ∧ f a (s.movedTo c) = .ok b s' := by
  simp only [bind_eq_ok, ofParser_eq_ok]
  constructor
  · rintro ⟨a, _, ⟨c, hp, rfl⟩, hf⟩
    exact ⟨a, c, hp, hf⟩
  · rintro ⟨a, c, hp, hf⟩
    exact ⟨a, _, ⟨c, hp, rfl⟩, hf⟩

/-- A parser that fails always does not succeed. -/
theorem failAt_ne_ok {t : Token} {kind : AssemblyErrorKind} {a : α} :
    (liftM (Parser.failAt t kind : Parser α) : Asm α) s ≠ .ok a s' := by
  intro h
  obtain ⟨c, hc, -⟩ := ofParser_eq_ok.mp h
  cases hc

/-- A name that is free gets its symbol, and any other is refused. -/
theorem define_eq_ok {name : String} {kind : SymbolKind} {value : Value} :
    define name kind value s = .ok () s' ↔ s.index.contains (qualify s.path name) = false ∧
      s' = s.withSymbol ⟨qualify s.path name, kind, value⟩ := by
  unfold define
  rw [get_bind_apply]
  cases hdefined : s.index.contains (qualify s.path name) with
  | true =>
    simp only [if_true]
    constructor
    · intro h
      obtain ⟨c, hc, -⟩ := ofParser_eq_ok.mp h
      cases hc
    · rintro ⟨h, -⟩
      cases h
  | false =>
    simp only [Bool.false_eq_true, if_false]
    exact ⟨fun h => ⟨trivial, (EStateM.Result.ok.inj h).2.symm⟩, fun h => h.2 ▸ rfl⟩

theorem literalValue_eq_ok {v : Value} :
    (liftM (Parser.literalValue o dt) : Asm Value) s = .ok v s' ↔ o.value? dt = .ok v ∧ s' = s := by
  rw [ofParser_eq_ok]
  unfold Parser.literalValue
  cases o.value? dt with
  | ok w =>
    simp only [pure, EStateM.pure, EStateM.Result.ok.injEq, Except.ok.injEq]
    constructor
    · rintro ⟨c, ⟨rfl, rfl⟩, rfl⟩
      exact ⟨rfl, rfl⟩
    · rintro ⟨rfl, rfl⟩
      exact ⟨_, ⟨rfl, rfl⟩, rfl⟩
  | error kind => simp [Parser.failAt, throw, throwThe, MonadExceptOf.throw, EStateM.throw]

theorem adds_refer {name : String} (h : (⟨offset, dt, o⟩ : Slot).name? = some name) :
    Adds [⟨offset, dt, o⟩] [] s (stateAfter (refer o name offset dt s)) where
  code := (List.append_nil _).symm
  unresolved := by
    change (s.object.unresolved ++ [_]).map Reference.place = _
    simp [Reference.place, Slot.reference?, h]
  relocations := by
    have hterm : o.term = .name name := by grind [Slot.name?]
    change s.object.relocations = _
    simp [Slot.relocation?, Slot.isText, hterm]

/-- What the cell of an operand has to be, and what is added for it. -/
def CellSpec (o : SourceOperand) (offset : Nat) (dt : Datatype) (c : Cell) (s s' : Assembler) :
    Prop :=
  s'.cursor = s.cursor ∧ (∃ v : Value, v.datatype = dt ∧ o.Denotes none v ∧ c = v.toCell) ∧
    Adds [⟨offset, dt, o⟩] [] s s'

theorem literalCell_spec {c : Cell} (hname : (⟨offset, dt, o⟩ : Slot).name? = none)
    (htext : (⟨offset, dt, o⟩ : Slot).isText = false)
    (h : (do return (← Parser.literalValue o dt).toCell : Asm Cell) s = .ok c s') :
    CellSpec o offset dt c s s' := by
  obtain ⟨v, s₁, hv, hpure⟩ := bind_eq_ok.mp h
  obtain ⟨hvalue, rfl⟩ := literalValue_eq_ok.mp hv
  cases hpure
  refine ⟨rfl, ⟨v, SourceOperand.datatype_of_value? hvalue, SourceOperand.denotes_of_value? hvalue,
    rfl⟩, (List.append_nil _).symm, ?_, ?_⟩
  · simp [Slot.reference?, hname]
  · simp [Slot.relocation?, htext]

/-- The cell of an operand is that of a value it denotes. -/
theorem operandCell_spec {c : Cell} (hdt : dt ≠ .none) (h : operandCell o offset dt s = .ok c s') :
    CellSpec o offset dt c s s' := by
  unfold operandCell at h
  cases hterm : o.term with
  | name name =>
    simp only [hterm] at h
    by_cases hslot : dt = .type ∧ (Datatype.ofName? name).isSome
    · rw [if_pos hslot] at h
      exact literalCell_spec (by simp [Slot.name?, hterm, hslot]) (by simp [Slot.isText, hterm]) h
    · rw [if_neg hslot] at h
      cases h
      have hname : (⟨offset, dt, o⟩ : Slot).name? = some name := by
        simp only [Slot.name?, hterm, if_neg hslot]
      obtain ⟨v, hv, hzero⟩ := Value.exists_toCell_eq_zero hdt
      refine ⟨rfl, ⟨v, hv, ?_, hzero.symm⟩, adds_refer hname⟩
      simp only [SourceOperand.Denotes, hterm]
      intro htype t ht
      exact absurd ⟨hv.symm.trans htype, by simp [ht]⟩ hslot
  | text text =>
    simp only [hterm] at h
    by_cases hderef : o.deref = true
    · rw [if_pos hderef] at h
      exact absurd h failAt_ne_ok
    · rw [if_neg hderef] at h
      by_cases hholds : (!dt.holdsAddress) = true
      · rw [if_pos hholds] at h
        exact absurd h failAt_ne_ok
      · rw [if_neg hholds] at h
        cases h
        have hholds : dt.holdsAddress = true := by simpa using hholds
        obtain ⟨v, hv, hcell⟩ := Value.exists_toCell_eq_ofAddress hholds s.staticEnd
        refine ⟨rfl, ⟨v, hv, by simpa [SourceOperand.Denotes, hterm, hv] using hholds, hcell.symm⟩,
          (List.append_nil _).symm, ?_, ?_⟩
        · simp [Slot.reference?, Slot.name?, hterm, Assembler.appendStatic]
        · simp [Slot.relocation?, Slot.isText, hterm, Assembler.appendStatic]
  | _ =>
    simp only [hterm] at h
    exact literalCell_spec (by simp [Slot.name?, hterm]) (by simp [Slot.isText, hterm]) h

/-- What an operand of an instruction has to be, and what is added for it. -/
structure OperandSpec (dt : Datatype) (source : Option Datatype) (p : Role × SourceOperand)
    (x : Operand) (s s' : Assembler) : Prop where
  cursor : s'.cursor = s.cursor
  encodes : EncodesOperand dt source p x
  adds : Adds [⟨s.object.code.size, p.1.encodedDatatype dt p.2.deref, p.2⟩] x.encode s s'

theorem writeOperand_spec {role : Role} (hrole : role ≠ .typed .none)
    (h : writeOperand o role dt s = .ok x s') : OperandSpec dt none (role, o) x s s' := by
  obtain ⟨_, _, hget, h⟩ := bind_eq_ok.mp h
  cases hget
  obtain ⟨c, s₁, hcell, h⟩ := bind_eq_ok.mp h
  obtain ⟨hcursor, ⟨v, hv, hdenotes, rfl⟩, hadds⟩ :=
    operandCell_spec (Role.encodedDatatype_ne_none hrole dt o.deref) hcell
  cases h
  exact ⟨hcursor, ⟨v, hv, hdenotes, by rw [hv]⟩, hadds.trans (Assembler.adds_appendCode s₁ _)⟩

theorem writeConverted_spec {source : Datatype} (hnumber : o.isNumber = true)
    (h : writeConverted o source dt s = .ok x s') :
    OperandSpec dt (some source) (.value, o) x s s' := by
  obtain ⟨w, s₁, hread, hwrite⟩ := bind_eq_ok.mp h
  obtain ⟨hvalue, rfl⟩ := literalValue_eq_ok.mp hread
  cases hcast : w.cast? dt.ofValueOperand with
  | none =>
    simp only [hcast] at hwrite
    exact absurd hwrite failAt_ne_ok
  | some v =>
    simp only [hcast] at hwrite
    cases hwrite
    have hdt := Value.datatype_of_cast? hcast
    have hderef : o.deref = false := by grind [SourceOperand.isNumber]
    have hencoded : Role.value.encodedDatatype dt o.deref = dt.ofValueOperand := by
      simp [Role.encodedDatatype, hderef]
    refine ⟨rfl, ⟨v, hdt.trans hencoded.symm, ⟨w, hvalue, by rw [hdt, hcast]⟩,
      by simp [hdt, hderef]⟩, (Assembler.adds_appendCode _ _).code, ?_, ?_⟩
    · have hname : ∀ offset dt', (⟨offset, dt', o⟩ : Slot).name? = none := by
        grind [SourceOperand.isNumber, Slot.name?]
      simp [Slot.reference?, hname, Assembler.appendCode]
    · have htext : ∀ offset dt', (⟨offset, dt', o⟩ : Slot).isText = false := by
        grind [SourceOperand.isNumber, Slot.isText]
      simp [Slot.relocation?, htext, Assembler.appendCode]

theorem writeFixed_spec {role : Role} (hrole : role ≠ .typed .none)
    (h : writeFixed source o role dt s = .ok x s') :
    OperandSpec dt (readAs source (role, o)) (role, o) x s s' := by
  unfold writeFixed at h
  unfold readAs
  cases source with
  | none =>
    rw [ite_self]
    exact writeOperand_spec hrole h
  | some t =>
    by_cases hconvert : role = .value ∧ o.isNumber
    · simp only [if_pos hconvert] at h ⊢
      obtain ⟨rfl, hnumber⟩ := hconvert
      exact writeConverted_spec hnumber h
    · simp only [if_neg hconvert] at h ⊢
      exact writeOperand_spec hrole h

/-! ## Instructions -/

/-- What numbers are read as behind an operand. The type operand of a conversion says so. -/
def sourceAfter (op : Opcode) (source : Option Datatype) (p : Role × SourceOperand) :
    Option Datatype :=
  if op = .convert ∧ p.1 = .datatype then p.2.datatypeName? else source

/-- How the operands of a layout stand one behind the other. -/
inductive EncodesFrom (op : Opcode) (dt : Datatype) :
    Option Datatype → List (Role × SourceOperand) → List Operand → Prop
  | nil {source : Option Datatype} : EncodesFrom op dt source [] []
  | cons {source : Option Datatype} {p : Role × SourceOperand} {ps : List (Role × SourceOperand)}
    {x : Operand} {xs : List Operand} :
    EncodesOperand dt (readAs (sourceAfter op source p) p) p x →
      EncodesFrom op dt (sourceAfter op source p) ps xs →
        EncodesFrom op dt source (p :: ps) (x :: xs)

theorem OperandSpec.size_eq {p : Role × SourceOperand} (h : OperandSpec dt source p x s s') :
    s'.object.code.size = s.object.code.size + (p.1.encodedDatatype dt p.2.deref).size := by
  obtain ⟨v, hv, -, rfl⟩ := h.encodes
  rw [h.adds.size_eq, Operand.length_encode, hv]

theorem fixedOperands_spec {roles : List Role} (hroles : .typed .none ∉ roles)
    (h : fixedOperands op dt source roles s = .ok xs s') :
    ∃ ps, Parser.sourceOperands roles s.cursor = .ok ps s'.cursor ∧ ps.map (·.1) = roles ∧
      EncodesFrom op dt source ps xs ∧
      Adds (operandSlots dt s.object.code.size ps) (encodeOperands xs) s s' := by
  induction roles generalizing source xs s with
  | nil =>
    cases h
    exact ⟨[], rfl, rfl, .nil, Adds.refl _⟩
  | cons role rest ih =>
    simp only [List.mem_cons, not_or] at hroles
    obtain ⟨_, c₁, hcolon, h⟩ := ofParser_bind_eq_ok.mp h
    obtain ⟨o, c₂, hoperand, h⟩ := ofParser_bind_eq_ok.mp h
    obtain ⟨x, s₁, hwrite, h⟩ := bind_eq_ok.mp h
    obtain ⟨os, s₂, hrest, h⟩ := bind_eq_ok.mp h
    cases h
    have hx := writeFixed_spec (Ne.symm hroles.1) hwrite
    obtain ⟨ps, hps, hmap, hencodes, hadds⟩ := ih hroles.2 hrest
    refine ⟨(role, o) :: ps, ?_, by simp [hmap], .cons hx.encodes hencodes, ?_⟩
    · rw [hx.cursor] at hps
      exact bind_eq_ok.mpr ⟨(), c₁, hcolon, bind_eq_ok.mpr ⟨o, c₂, hoperand,
        bind_eq_ok.mpr ⟨ps, _, hps, rfl⟩⟩⟩
    · rw [hx.size_eq] at hadds
      rw [encodeOperands_cons]
      exact hx.adds.of_movedTo.of_movedTo.trans hadds

theorem argumentDatatype_ne_none {c c' : Cursor} {t : Datatype}
    (h : Parser.argumentDatatype c = .ok t c') : t ≠ .none := by
  obtain ⟨token, c₁, -, h⟩ := bind_eq_ok.mp h
  cases hname : Datatype.ofName? token.text with
  | none => simp only [hname] at h; cases h
  | some dt =>
    cases dt <;> simp only [hname] at h <;> cases h <;> simp

theorem cursor_of_take? {kind : TokenKind} {c c' : Cursor}
    (h : Parser.take? kind c = .ok false c') : c' = c := by
  unfold Parser.take? at h
  obtain ⟨b, c₁, hat, h⟩ := bind_eq_ok.mp h
  obtain rfl : c₁ = c := (EStateM.Result.ok.inj hat).2.symm
  cases b with
  | true => cases h
  | false => exact (EStateM.Result.ok.inj h).2.symm

/-- What the typed arguments of a call have to be, and what is added for them. -/
structure ArgumentsSpec (dt : Datatype) (ps : List (Role × SourceOperand)) (xs : List Operand)
    (s s' : Assembler) : Prop where
  encodes : List.Forall₂ (EncodesOperand dt none) ps xs
  roles : ∃ types : List Datatype, ps.map (·.1) = types.map .typed ∧ Datatype.none ∉ types
  adds : Adds (operandSlots dt s.object.code.size ps) (encodeOperands xs) s s'

theorem typedArguments_spec {n : Nat} (h : typedArguments dt n s = .ok xs s') :
    ∃ ps, Parser.sourceArguments n s.cursor = .ok ps s'.cursor ∧ ps.length ≤ n ∧
      ArgumentsSpec dt ps xs s s' := by
  induction n generalizing xs s with
  | zero =>
    obtain ⟨more, c₁, hmore, h⟩ := ofParser_bind_eq_ok.mp h
    cases more with
    | true =>
      obtain ⟨c₂, h, -⟩ := ofParser_eq_ok.mp h
      cases h
    | false =>
      obtain rfl := cursor_of_take? hmore
      cases h
      exact ⟨[], rfl, Nat.le_refl _, .nil, ⟨[], rfl, by simp⟩, Adds.refl _⟩
  | succ n ih =>
    obtain ⟨more, c₁, hmore, h⟩ := ofParser_bind_eq_ok.mp h
    cases more with
    | false =>
      cases h
      refine ⟨[], bind_eq_ok.mpr ⟨false, c₁, hmore, rfl⟩, Nat.zero_le _, .nil, ⟨[], rfl, by simp⟩,
        (Adds.refl _).of_movedTo⟩
    | true =>
      obtain ⟨t, c₂, htype, h⟩ := ofParser_bind_eq_ok.mp h
      obtain ⟨o, c₃, hoperand, h⟩ := ofParser_bind_eq_ok.mp h
      obtain ⟨x, s₁, hwrite, h⟩ := bind_eq_ok.mp h
      obtain ⟨os, s₂, hrest, h⟩ := bind_eq_ok.mp h
      cases h
      have ht := argumentDatatype_ne_none htype
      have hx := writeOperand_spec (by simpa using ht) hwrite
      obtain ⟨ps, hps, hlen, hspec⟩ := ih hrest
      obtain ⟨types, htypes, hnone⟩ := hspec.roles
      refine ⟨(.typed t, o) :: ps, ?_, by simpa using hlen, .cons hx.encodes hspec.encodes,
        ⟨t :: types, by simp [htypes], by simp [hnone, Ne.symm ht]⟩, ?_⟩
      · rw [hx.cursor] at hps
        exact bind_eq_ok.mpr ⟨true, c₁, hmore, bind_eq_ok.mpr ⟨t, c₂, htype,
          bind_eq_ok.mpr ⟨o, c₃, hoperand, bind_eq_ok.mpr ⟨ps, _, hps, rfl⟩⟩⟩⟩
      · have hadds := hspec.adds
        rw [hx.size_eq] at hadds
        rw [encodeOperands_cons]
        exact hx.adds.of_movedTo.of_movedTo.of_movedTo.of_movedTo.trans hadds

/-- The datatypes of typed roles. -/
theorem filterMap_typed {f : α → Role} {xs : List α} {types : List Datatype}
    (h : xs.map f = types.map .typed) :
    (xs.filterMap fun x => match f x with | .typed t => some t | _ => none) = types := by
  induction types generalizing xs with
  | nil => simp [List.map_eq_nil_iff.mp h]
  | cons t rest ih =>
    obtain ⟨x, xs, rfl, hx, hxs⟩ := List.map_eq_cons_iff.mp h
    simp [hx, ih hxs]

/-- All of an operand but its value is known from the source. -/
theorem map_of_encodes {f : Operand → α} {g : Role × SourceOperand → α}
    {source : Role × SourceOperand → Option Datatype} {ps : List (Role × SourceOperand)}
    (h : List.Forall₂ (fun p => EncodesOperand dt (source p) p) ps xs)
    (hfg : ∀ p (c : Cell), f ⟨p.1, p.1.encodedDatatype dt p.2.deref, p.2.deref, c⟩ = g p) :
    xs.map f = ps.map g := by
  induction h with
  | nil => rfl
  | cons hx _ ih =>
    obtain ⟨v, hv, -, rfl⟩ := hx
    rw [List.map_cons, List.map_cons, ih, hv, hfg]

theorem roles_of_encodes {source : Role × SourceOperand → Option Datatype}
    {ps : List (Role × SourceOperand)}
    (h : List.Forall₂ (fun p => EncodesOperand dt (source p) p) ps xs) :
    xs.map (·.role) = ps.map (·.1) :=
  map_of_encodes h fun _ _ => rfl

theorem describedArguments_spec (h : describedArguments dt s = .ok xs s') :
    ∃ ps d types, Parser.sourceArguments Descriptor.maxArgs s.cursor = .ok ps s'.cursor ∧
      ps.length ≤ Descriptor.maxArgs ∧ List.Forall₂ (EncodesOperand dt none) ps xs ∧
      ps.map (·.1) = types.map .typed ∧ Datatype.none ∉ types ∧
      Descriptor.ofTypes? types = some d ∧
      Adds (operandSlots dt (s.object.code.size + Descriptor.size) ps)
        (d.toBytes ++ encodeOperands xs) s s' := by
  obtain ⟨_, _, hget, h⟩ := bind_eq_ok.mp h
  cases hget
  obtain ⟨_, s₁, hemit, h⟩ := bind_eq_ok.mp h
  cases hemit
  obtain ⟨os, s₂, hargs, h⟩ := bind_eq_ok.mp h
  obtain ⟨ps, hps, hlen, hspec⟩ := typedArguments_spec hargs
  obtain ⟨types, htypes, hnone⟩ := hspec.roles
  have hlist : argumentTypes os = types :=
    filterMap_typed ((roles_of_encodes hspec.encodes).trans htypes)
  obtain ⟨_, s₃, hfill, h⟩ := bind_eq_ok.mp h
  cases h
  unfold fillDescriptor at hfill
  rw [hlist] at hfill
  cases hd : Descriptor.ofTypes? types with
  | none =>
    simp only [hd] at hfill
    obtain ⟨c, hc, -⟩ := ofParser_eq_ok.mp hfill
    cases hc
  | some d =>
    simp only [hd] at hfill
    cases hfill
    have hzeros := Assembler.adds_appendCode s (List.replicate Descriptor.size 0)
    have hadds := hspec.adds
    rw [hzeros.size_eq, List.length_replicate] at hadds
    refine ⟨ps, d, types, ?_, hlen, hspec.encodes, htypes, hnone, hd, ?_⟩
    · simpa only [Assembler.cursor_appendCode, Assembler.cursor_overwriteCode] using hps
    have hboth : Adds _ ([] ++ List.replicate Descriptor.size 0 ++ encodeOperands xs) s s₂ :=
      hzeros.trans hadds
    have hlength : d.toBytes.length = (List.replicate Descriptor.size (0 : UInt8)).length := by
      rw [Descriptor.length_toBytes, List.length_replicate]
    have hfilled := hboth.overwriteCode (Nat.add_zero _).symm hlength
    simpa using hfilled

/-- The typed arguments of an instruction with the descriptor in front of them. -/
theorem callArguments_spec (h : callArguments op dt s = .ok xs s') :
    ∃ ps types, Parser.sourceArguments (if op.layout.variadic then Descriptor.maxArgs else 0)
        s.cursor = .ok ps s'.cursor ∧
      ps.length ≤ (if op.layout.variadic then Descriptor.maxArgs else 0) ∧
      List.Forall₂ (EncodesOperand dt none) ps xs ∧
      ps.map (·.1) = types.map .typed ∧ Datatype.none ∉ types ∧
      Adds (operandSlots dt (s.object.code.size +
          if op.layout.variadic then Descriptor.size else 0) ps)
        (Instruction.encodeDescriptor ⟨op, dt, 0, [],
          if op.layout.variadic then Descriptor.ofTypes? types else none, xs⟩ ++
            encodeOperands xs) s s' := by
  unfold callArguments at h
  cases hvariadic : op.layout.variadic with
  | true =>
    rw [hvariadic] at h
    obtain ⟨ps, d, types, hps, hlen, hencodes, htypes, hnone, hd, hadds⟩ :=
      describedArguments_spec h
    refine ⟨ps, types, hps, hlen, hencodes, htypes, hnone, ?_⟩
    simpa [Instruction.encodeDescriptor, hd] using hadds
  | false =>
    rw [hvariadic] at h
    cases h
    exact ⟨[], [], rfl, Nat.le_refl _, .nil, rfl, by simp, Adds.refl _⟩

/-- Only a conversion changes what numbers are read as. -/
theorem EncodesFrom.forall₂ {ps : List (Role × SourceOperand)} (hop : op ≠ .convert)
    (h : EncodesFrom op dt source ps xs) :
    List.Forall₂ (fun p => EncodesOperand dt (readAs source p) p) ps xs := by
  induction h with
  | nil => exact .nil
  | cons hx _ ih =>
    simp only [sourceAfter, hop, false_and, if_false] at hx ih
    exact .cons hx ih

/-- The operands of a conversion. -/
theorem eq_of_convert_roles {ps : List (Role × SourceOperand)}
    (h : ps.map (·.1) = Opcode.convert.fixedRoles dt) :
    ∃ a t n, ps = [(.address, a), (.datatype, t), (.value, n)] := by
  obtain ⟨⟨_, a⟩, ps, rfl, rfl, h₁⟩ := List.map_eq_cons_iff.mp h
  obtain ⟨⟨_, t⟩, ps, rfl, rfl, h₂⟩ := List.map_eq_cons_iff.mp h₁
  obtain ⟨⟨_, n⟩, ps, rfl, rfl, h₃⟩ := List.map_eq_cons_iff.mp h₂
  obtain rfl := List.map_eq_nil_iff.mp h₃
  exact ⟨a, t, n, rfl⟩

/-- The number of a conversion is read as its type operand says. -/
theorem forall₂_of_encodesFrom {i : SourceInstruction}
    (hroles : i.fixed.map (·.1) = i.opcode.fixedRoles i.datatype)
    (h : EncodesFrom i.opcode i.datatype none i.fixed xs) :
    List.Forall₂ (fun p => EncodesOperand i.datatype (readAs i.source? p) p) i.fixed xs := by
  by_cases hop : i.opcode = .convert
  · rw [hop] at hroles h
    obtain ⟨a, t, n, hfixed⟩ := eq_of_convert_roles hroles
    have hsource : i.source? = t.datatypeName? := by
      simp [SourceInstruction.source?, hop, hfixed]
    rw [hfixed] at h ⊢
    obtain _ | ⟨ha, _ | ⟨ht, _ | ⟨hn, h⟩⟩⟩ := h
    cases h
    rw [hsource]
    exact .cons (by simpa [readAs] using ha) (.cons (by simpa [readAs] using ht)
      (.cons (by simpa [sourceAfter] using hn) .nil))
  · have hsource : i.source? = none := by simp [SourceInstruction.source?, hop]
    rw [hsource]
    exact h.forall₂ hop

theorem typed_not_mem_fixedRoles (op : Opcode) (dt t : Datatype) :
    .typed t ∉ op.fixedRoles dt := by
  have hlayout : .typed t ∉ op.layout.roles := by cases op <;> simp [Opcode.layout]
  unfold Opcode.fixedRoles
  split
  · simpa using hlayout
  · exact hlayout

theorem operandsSize_of_encodes {source : Role × SourceOperand → Option Datatype}
    {ps : List (Role × SourceOperand)}
    (h : List.Forall₂ (fun p => EncodesOperand dt (source p) p) ps xs) :
    operandsSize xs = operandsWidth dt ps :=
  congrArg Datatype.totalSize (map_of_encodes h fun _ _ => rfl)

/-- The parts of an instruction make up its encoding once its mask is filled in. -/
theorem adds_encode {x : Instruction} {xs ys : List Slot} {s₁ s₂ s₃ : Assembler}
    (hheader : Adds [] (encodeHeader x.opcode x.datatype 0) s s₁)
    (hfixed : Adds xs (encodeOperands x.fixed) s₁ s₂)
    (hargs : Adds ys (x.encodeDescriptor ++ encodeOperands x.args) s₂ s₃) :
    Adds (xs ++ ys) x.encode s
      (s₃.overwriteCode (s.object.code.size + 2) (littleEndian 2 x.mask.toNat)) := by
  have hall := hheader.trans (hfixed.trans hargs)
  have hparts : encodeHeader x.opcode x.datatype 0 ++
      (encodeOperands x.fixed ++ (x.encodeDescriptor ++ encodeOperands x.args)) =
        [x.opcode.byte, x.datatype.code] ++ littleEndian 2 0 ++
          (encodeOperands x.fixed ++ (x.encodeDescriptor ++ encodeOperands x.args)) := rfl
  rw [hparts] at hall
  have hmask := hall.overwriteCode (Eq.refl (s.object.code.size + 2))
    (show (littleEndian 2 x.mask.toNat).length = (littleEndian 2 0).length by simp)
  simpa [Instruction.encode, encodeHeader] using hmask

/-- An instruction is read from its tokens and encoded behind the code. -/
theorem instruction_spec (h : instruction op s = .ok () s') :
    ∃ i x, Parser.sourceInstruction op s.cursor = .ok i s'.cursor ∧ i.Encodes x ∧
      Adds (i.slots s.object.code.size) x.encode s s' := by
  obtain ⟨t, c₁, ht, h⟩ := ofParser_bind_eq_ok.mp h
  obtain ⟨_, c₂, hnext, h⟩ := ofParser_bind_eq_ok.mp h
  obtain ⟨dt, c₃, hdt, h⟩ := ofParser_bind_eq_ok.mp h
  obtain ⟨_, _, hget, h⟩ := bind_eq_ok.mp h
  cases hget
  obtain ⟨_, s₁, hemit, h⟩ := bind_eq_ok.mp h
  cases hemit
  obtain ⟨fixed, s₂, hfixed, h⟩ := bind_eq_ok.mp h
  obtain ⟨args, s₃, hargs, h⟩ := bind_eq_ok.mp h
  obtain ⟨ps, hps, hroles, hencodes, hadds⟩ :=
    fixedOperands_spec (typed_not_mem_fixedRoles op dt .none) hfixed
  obtain ⟨qs, types, hqs, hlen, hencodes', htypes, hnone, hadds'⟩ := callArguments_spec hargs
  cases h
  have hi : (⟨op, dt, ps, qs⟩ : SourceInstruction).types = types := filterMap_typed htypes
  have hfixed := forall₂_of_encodesFrom (i := ⟨op, dt, ps, qs⟩) hroles hencodes
  refine ⟨⟨op, dt, ps, qs⟩, ⟨op, dt, maskOf (fixed ++ args), fixed,
    if op.layout.variadic then Descriptor.ofTypes? types else none, args⟩, ?_, ?_, ?_⟩
  · simp only [Assembler.cursor_appendCode] at hps
    exact bind_eq_ok.mpr ⟨t, c₁, ht, bind_eq_ok.mpr ⟨(), c₂, hnext, bind_eq_ok.mpr ⟨dt, c₃, hdt,
      bind_eq_ok.mpr ⟨ps, _, hps, bind_eq_ok.mpr ⟨qs, _, hqs, rfl⟩⟩⟩⟩⟩
  · exact ⟨rfl, rfl, rfl, hfixed, hencodes', by rw [hi], hroles, by rw [hi]; exact htypes,
      by rw [hi]; exact hnone, hlen⟩
  · have hheader := Assembler.adds_appendCode (((s.movedTo c₁).movedTo c₂).movedTo c₃)
      (encodeHeader op dt 0)
    have hsize := hadds.size_eq
    rw [hheader.size_eq, length_encodeHeader, length_encodeOperands,
      operandsSize_of_encodes hfixed] at hsize
    rw [hsize] at hadds'
    rw [hheader.size_eq, length_encodeHeader] at hadds
    have hall := adds_encode (x := ⟨op, dt, maskOf (fixed ++ args), fixed,
      if op.layout.variadic then Descriptor.ofTypes? types else none, args⟩) hheader hadds hadds'
    exact hall.of_movedTo.of_movedTo.of_movedTo

end Asm

end CellMachine
