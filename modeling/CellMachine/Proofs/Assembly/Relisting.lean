import CellMachine.Proofs.Assembly.NamedSource

/-!
# Conversions that are listed

A number behind the datatype `F` of a conversion to `T` is stored as a `T`, and is listed as that,
while the listing still has `F` in front of it. Read again the listed number has to be an `F`, and
is converted once more (`Value.reread`). So the listing assembles to the bytes that were listed
exactly if this gives back the stored value (`disassemble_render_convert`).
-/

namespace CellMachine

/-! ## Literals of the source -/

theorem lt_of_readDigits? {base n : Nat} {isDigit : Char → Bool} {digits : List Char}
    (h : readDigits? base isDigit digits = some n) : n < UInt64.size := by
  unfold readDigits? at h
  split at h
  · next hdigits =>
    cases h
    exact of_decide_eq_true (Bool.and_eq_true_iff.mp hdigits).2
  · cases h

theorem IntLiteral.magnitude_lt {text : String} {l : IntLiteral} (h : ofText? text = some l) :
    l.magnitude < UInt64.size := by
  obtain ⟨n, hn, rfl⟩ := Option.map_eq_some_iff.mp h
  unfold magnitude? at hn
  split at hn <;> exact lt_of_readDigits? hn

namespace Parser

variable {c c' : Cursor} {l : IntLiteral}

/-- An integer that was taken has 64 bits. -/
theorem magnitude_lt_of_term (h : term c = .ok (.integer l) c') : l.magnitude < UInt64.size := by
  obtain ⟨t, c₁, -, h⟩ := bind_eq_ok.mp h
  cases hkind : t.kind with
  | integer =>
    rw [hkind] at h
    obtain ⟨_, c₂, -, h⟩ := bind_eq_ok.mp h
    cases hl : IntLiteral.ofText? t.text with
    | none =>
      rw [hl] at h
      cases h
    | some l' =>
      rw [hl] at h
      cases h
      exact IntLiteral.magnitude_lt hl
  | register =>
    rw [hkind] at h
    obtain ⟨_, _, -, h⟩ := bind_eq_ok.mp h
    obtain ⟨t', _, -, h⟩ := bind_eq_ok.mp h
    cases hr : Register.ofName? t'.text <;> simp only [hr] at h <;> cases h
  | frame =>
    rw [hkind] at h
    obtain ⟨_, _, -, h⟩ := bind_eq_ok.mp h
    obtain ⟨t', _, -, h⟩ := bind_eq_ok.mp h
    cases hl : IntLiteral.ofText? t'.text <;> simp only [hl] at h <;> cases h
  | float =>
    rw [hkind] at h
    obtain ⟨_, _, -, h⟩ := bind_eq_ok.mp h
    cases hword : floatLiteral? t.text <;> simp only [hword] at h <;> cases h
  | name =>
    rw [hkind] at h
    obtain ⟨_, _, -, h⟩ := bind_eq_ok.mp h
    cases h
  | _ =>
    rw [hkind] at h
    cases h

theorem magnitude_lt_of_operand {o : SourceOperand} (h : operand c = .ok o c')
    (hl : o.term = .integer l) : l.magnitude < UInt64.size := by
  obtain ⟨deref, _, -, h⟩ := bind_eq_ok.mp h
  obtain ⟨t, c₁, c₂, ht, hterm⟩ : ∃ t c₁ c₂, term c₁ = .ok t c₂ ∧ o.term = t := by
    cases deref with
    | false =>
      obtain ⟨token, _, -, h⟩ := bind_eq_ok.mp h
      obtain ⟨t, _, ht, h⟩ := bind_eq_ok.mp h
      cases h
      exact ⟨t, _, _, ht, rfl⟩
    | true =>
      obtain ⟨_, _, -, h⟩ := bind_eq_ok.mp h
      obtain ⟨token, _, -, h⟩ := bind_eq_ok.mp h
      obtain ⟨t, _, ht, h⟩ := bind_eq_ok.mp h
      cases h
      exact ⟨t, _, _, ht, rfl⟩
  cases hterm.symm.trans hl
  exact magnitude_lt_of_term ht

theorem magnitude_lt_of_sourceOperands {roles : List Role} {ps : List (Role × SourceOperand)}
    (h : sourceOperands roles c = .ok ps c') :
    ∀ p ∈ ps, ∀ l, p.2.term = .integer l → l.magnitude < UInt64.size := by
  induction roles generalizing c ps with
  | nil =>
    cases h
    simp
  | cons role roles ih =>
    obtain ⟨_, _, -, h⟩ := bind_eq_ok.mp h
    obtain ⟨o, _, ho, h⟩ := bind_eq_ok.mp h
    obtain ⟨rest, _, hrest, h⟩ := bind_eq_ok.mp h
    cases h
    exact List.forall_mem_cons.mpr ⟨fun l hl => magnitude_lt_of_operand ho hl, ih hrest⟩

end Parser

theorem SourceInstruction.Taken.magnitude_lt {i : SourceInstruction} (h : i.Taken) :
    ∀ p ∈ i.fixed, ∀ l, p.2.term = .integer l → l.magnitude < UInt64.size := by
  obtain ⟨op, c, c', h⟩ := h
  obtain ⟨_, _, -, h⟩ := bind_eq_ok.mp h
  obtain ⟨_, _, -, h⟩ := bind_eq_ok.mp h
  obtain ⟨dt, _, -, h⟩ := bind_eq_ok.mp h
  obtain ⟨fixed, _, hfixed, h⟩ := bind_eq_ok.mp h
  obtain ⟨args, _, -, h⟩ := bind_eq_ok.mp h
  cases h
  exact Parser.magnitude_lt_of_sourceOperands hfixed

/-! ## Values that are read again -/

/-- What the assembler makes of a listed value, behind the datatype `F` of a conversion. Only
numbers are read as an `F`. -/
def Value.reread (w : Value) (F : Datatype) : Option Value :=
  let o : SourceOperand := ⟨false, w.term, .endOfCode .start⟩
  if o.isNumber then (o.value? F).toOption.bind (·.cast? w.datatype) else some w

namespace Value

variable {w : Value} {F : Datatype} {l : IntLiteral}

theorem datatype_ne_none (w : Value) : w.datatype ≠ .none := by
  cases w <;> simp [datatype]

theorem reread_of_integer (h : w.term = .integer l) :
    w.reread F = (l.toValue? F).bind (·.cast? w.datatype) := by
  unfold reread
  simp only [h, SourceOperand.isNumber, SourceOperand.value?, Bool.not_false, if_true,
    Bool.false_and, Bool.false_eq_true, if_false]
  cases l.toValue? F <;> rfl

theorem reread_of_address {a : Address} (h : w.term = .address a) : w.reread F = some w := by
  unfold reread
  simp [h, SourceOperand.isNumber]

theorem datatype_of_reread {w' : Value} (h : w.reread F = some w') : w'.datatype = w.datatype := by
  unfold reread at h
  dsimp only at h
  split at h
  · obtain ⟨v, -, hv⟩ := Option.bind_eq_some_iff.mp h
    exact datatype_of_cast? hv
  · cases h
    rfl

theorem reread_of_float (hfloat : w.datatype.isFloat = true) (hF : F.isFloat = false) :
    w.reread F = none := by
  obtain ⟨word, hterm⟩ : ∃ word, w.term = .float word := by
    cases w with
    | f32 word => exact ⟨_, rfl⟩
    | f64 word => exact ⟨_, rfl⟩
    | _ => cases hfloat
  unfold reread
  simp only [hterm, SourceOperand.isNumber, SourceOperand.value?, hF, Bool.not_false, if_true,
    Bool.false_eq_true, if_false]
  rfl

/-- A listed integer is read again as what it is exactly if it is in range, unless it is rounded. -/
theorem reread_eq_self_iff (h : w.term = .integer l) (hF : F.isFloat = false) :
    w.reread F = some w ↔ (l.toValue? F).isSome = true := by
  have hfloat : w.datatype.isFloat = false := by
    cases w with
    | f32 word => cases h
    | f64 word => cases h
    | _ => rfl
  have hself : ofInt? l.toInt w.datatype = some w :=
    (SourceOperand.value?_integer_iff h rfl).mp (value?_term hfloat (.endOfCode .start))
  rw [reread_of_integer h]
  constructor
  · intro hw
    obtain ⟨v, hv, -⟩ := Option.bind_eq_some_iff.mp hw
    rw [hv]
    rfl
  · intro hsome
    obtain ⟨v, hv⟩ := Option.isSome_iff_exists.mp hsome
    rw [hv, Option.bind_some]
    exact cast?_of_ofInt? hv hF hself

end Value

namespace OperandText

variable {ls : List Lexeme}

/-- A listed value is written as what is read again. -/
theorem writtenAs_reread {w : Value} (h : Spells ls w.term) (F : Datatype) :
    (ofSpells h false).WrittenAs F w.datatype fun src =>
      ∃ w', w.reread F = some w' ∧ src = .ofValue w' := by
  intro t s s' src
  cases hnumber : ((ofSpells h false).operand (.endOfCode .start)).isNumber with
  | true =>
    rw [writtenAs_number w.datatype_ne_none hnumber t s s' src]
    refine and_congr_left fun _ => ?_
    have hreread : w.reread F = (((ofSpells h false).operand
        (.endOfCode .start)).value? F).toOption.bind (·.cast? w.datatype) := if_pos hnumber
    rw [hreread]
    cases ((ofSpells h false).operand (.endOfCode .start)).value? F with
    | ok v => simp [Except.toOption]
    | error e => simp [Except.toOption]
  | false =>
    have hreread : w.reread F = some w := if_neg (Bool.eq_false_iff.mp hnumber)
    have hfloat : w.datatype.isFloat = false := by
      cases w with
      | f32 word => cases hnumber
      | f64 word => cases hnumber
      | _ => rfl
    have hslot : w.datatype = Role.value.encodedDatatype w.datatype false := by cases w <;> rfl
    rw [writtenAs_value hnumber hslot (Value.value?_term hfloat _) t s s' src, hreread]
    simp [Operand.ofValue, ofSpells]

theorem placedAs_of_spells {v : Value} {t : Term} {T : Datatype} {deref : Bool} (h : Spells ls t)
    (hslot : v.datatype = Role.address.encodedDatatype T deref)
    (hv : ∀ token, (⟨deref, t, token⟩ : SourceOperand).value? v.datatype = .ok v) :
    (ofSpells h deref).PlacedAs T ⟨.address, v.datatype, deref, v.toCell⟩ :=
  fun token s _ => ⟨_, Asm.writeOperand_of_value? hslot (hv token) s⟩

end OperandText

/-! ## Listings -/

theorem spelled_of_spellings {tokens : Array Token} {words : Words}
    (h : tokens.toList.map Token.spelling = words ++ [(.endOfCode, "")]) : Spelled tokens words := by
  obtain ⟨lines, last, htokens, hlines, hlast⟩ := List.map_eq_append_iff.mp h
  obtain ⟨⟨kind, text, position⟩, rfl, hend⟩ := List.map_eq_singleton_iff.mp hlast
  cases hend
  exact ⟨lines, position, Array.toList_inj.mp htokens, hlines⟩

/-- The operands of a conversion as they are listed. -/
def listedConversion (deref : Bool) (v : Value) (F : Datatype) (w : Value) : List ListedOperand :=
  [⟨.address, deref, v⟩, ⟨.datatype, false, .type F⟩, ⟨.value, false, w⟩]

section

variable {T F : Datatype} {v w : Value} {deref : Bool} {code : Buffer} {pos : Nat}

theorem spellings_conversion (hT : T ≠ .none) {ls ms : List Lexeme} {t u : Term} (ht : Spells ls t)
    (hu : Spells ms u) : spellings (mnemonicLexemes .convert T ++ operandLexemes
      [(⟨.address, deref, v⟩, ls), (⟨.datatype, false, .type F⟩, [.word F.name]),
        (⟨.value, false, w⟩, ms)]) =
      convertWords T (.ofSpells ht deref) F (.ofSpells hu false) := by
  have hname : spellings (mnemonicLexemes .convert T) =
      [(.name, "convert"), (.dot, "."), (.name, T.name)] := by
    unfold mnemonicLexemes
    rw [if_neg hT]
    rfl
  rw [spellings_append, hname, spellings_operandLexemes_cons, spellings_operandLexemes_cons,
    spellings_operandLexemes_cons]
  have hend : spellings (operandLexemes []) = [] := rfl
  rw [hend, List.append_nil]
  rfl

/-- What a listed conversion assembles to. -/
theorem assembledCode?_render_conversion {dst : Operand}
    (hdst : dst = ⟨.address, v.datatype, deref, v.toCell⟩)
    (hv : v.datatype = Role.address.encodedDatatype w.datatype deref) (hw : w.isFinite = true)
    (hx : (Instruction.conversion w.datatype dst F (.ofValue w)).WellFormed)
    (hcode : code.Holds pos (Instruction.conversion w.datatype dst F (.ofValue w)).encode) :
    ∃ l ts, disassemble code pos = .ok l ∧ l.operands = listedConversion deref v F w ∧
      l.size = (Instruction.conversion w.datatype dst F (.ofValue w)).size ∧
      tokenize (l.render .empty) = .ok ts ∧ ∀ name, assembledCode? ts name =
        (w.reread F).map fun w' => (Instruction.conversion w.datatype dst F (.ofValue w')).encode := by
  subst hdst
  have hfloat : v.datatype.isFloat = false := by
    rw [hv]
    cases deref <;> rfl
  obtain ⟨ls, hspelled, hchars⟩ := ListedOperand.exists_spelled (o := ⟨.address, deref, v⟩) hv hfloat
  obtain ⟨t, ht, hvalue⟩ := hspelled.term
  obtain ⟨ms, hms, hlisting⟩ := Value.exists_spells hw
  let ps : List Spelling := [(⟨.address, deref, v⟩, ls),
    (⟨.datatype, false, .type F⟩, [.word F.name]), (⟨.value, false, w⟩, ms)]
  have hps : ∀ p ∈ ps, ∃ t, Spells p.2 t := by
    simp only [ps, List.forall_mem_cons]
    exact ⟨⟨t, ht⟩, ⟨_, .datatype F⟩, ⟨_, hms⟩, by simp⟩
  have hrenders : ∀ p ∈ ps, p.lexemes.flatMap Lexeme.chars = (p.1.render .empty).toList := by
    simp only [ps, List.forall_mem_cons]
    exact ⟨hchars, ListedOperand.chars_plain rfl (List.flatMap_singleton _ _),
      ListedOperand.chars_plain rfl hlisting, by simp⟩
  have hdisassemble : disassemble code pos = .ok ⟨pos, .convert, w.datatype,
      listedConversion deref v F w, _⟩ := disassemble_of_operands hx hcode rfl
  obtain ⟨ts, hts, hspellings⟩ := Listed.tokenize_render
    (l := ⟨pos, .convert, w.datatype, listedConversion deref v F w,
      (Instruction.conversion w.datatype ⟨.address, v.datatype, deref, v.toCell⟩ F (.ofValue w)).size⟩)
    hps rfl hrenders
  have htokens := spelled_of_spellings
    (hspellings.trans (congrArg (· ++ _) (spellings_conversion w.datatype_ne_none ht hms)))
  refine ⟨_, ts, hdisassemble, rfl, rfl, hts, fun name => Option.ext fun bytes => ?_⟩
  rw [assembledCode?_convert_iff w.datatype_ne_none (OperandText.placedAs_of_spells ht hv hvalue)
    (OperandText.writtenAs_reread hms F) htokens, Option.map_eq_some_iff]
  constructor
  · rintro ⟨_, ⟨w', hw', rfl⟩, rfl⟩
    exact ⟨w', hw', rfl⟩
  · rintro ⟨w', hw', rfl⟩
    exact ⟨_, ⟨w', hw', rfl⟩, rfl⟩

/-! ## Conversions of the source -/

variable {d src : SourceOperand} {t : Token} {x : Instruction}

/-- A conversion is encoded with the values that its operands denote. -/
theorem SourceInstruction.Encodes.exists_conversion (hT : T ≠ .none) (hderef : src.deref = false)
    (hx : (SourceInstruction.conversion T d F t src).Encodes x) :
    ∃ v w : Value, x = .conversion T ⟨.address, v.datatype, d.deref, v.toCell⟩ F (.ofValue w) ∧
      v.datatype = Role.address.encodedDatatype T d.deref ∧ w.datatype = T ∧
      src.Denotes (readAs (some F) (.value, src)) w := by
  obtain ⟨op, dt, mask, fixed, descriptor, args⟩ := x
  obtain rfl : .convert = op := hx.opcode.symm
  obtain rfl : T = dt := hx.datatype.symm
  obtain rfl : none = descriptor := hx.descriptor.symm
  obtain rfl : [] = args := (List.forall₂_nil_left_iff.mp hx.args).symm
  have hmask : mask = maskOf (fixed ++ []) := hx.mask
  have hfixed := hx.fixed
  rw [SourceInstruction.source?_conversion] at hfixed
  obtain ⟨_, fixed₁, ⟨v, hv, -, rfl⟩, hfixed₁, rfl⟩ := List.forall₂_cons_left_iff.mp hfixed
  obtain ⟨_, fixed₂, ⟨u, hu, hname, rfl⟩, hfixed₂, rfl⟩ := List.forall₂_cons_left_iff.mp hfixed₁
  obtain ⟨_, fixed₃, ⟨w, hw, hdenotes, rfl⟩, hfixed₃, rfl⟩ := List.forall₂_cons_left_iff.mp hfixed₂
  obtain rfl := List.forall₂_nil_left_iff.mp hfixed₃
  obtain rfl : u = .type F := hname hu F (Datatype.ofName?_name F)
  have hw : w.datatype = T := by
    rw [hw]
    change Role.value.encodedDatatype T src.deref = T
    rw [hderef]
    cases T with
    | none => exact absurd rfl hT
    | _ => rfl
  refine ⟨v, w, ?_, hv, hw, hdenotes⟩
  have hsrc : (⟨.value, w.datatype, src.deref, w.toCell⟩ : Operand) = .ofValue w := by
    rw [hderef]
    rfl
  rw [hmask, hsrc]
  rfl

/-- The value of an address or of an integer of 64 bits is finite. -/
theorem SourceOperand.isFinite_of_denotes (hderef : src.deref = false)
    (hsrc : (∃ a, src.term = .address a) ∨
      ∃ n, src.term = .integer n ∧ n.magnitude < UInt64.size)
    (h : src.Denotes (readAs (some F) (.value, src)) w) : w.isFinite = true := by
  rcases hsrc with ⟨a, ha⟩ | ⟨n, hn, hmagnitude⟩
  · have hread : readAs (some F) (.value, src) = none := by simp [readAs, isNumber, ha]
    rw [hread] at h
    simp only [Denotes, ha] at h
    cases w with
    | f32 word => cases h
    | f64 word => cases h
    | _ => rfl
  · have hread : readAs (some F) (.value, src) = some F := by simp [readAs, isNumber, hn, hderef]
    rw [hread] at h
    obtain ⟨v, hv, hw⟩ := h
    have hv := (value?_integer_iff hn hderef).mp hv
    have habs : n.toInt.natAbs = n.magnitude := by
      unfold IntLiteral.toInt
      split <;> simp
    exact Value.isFinite_of_cast? (habs ▸ hmagnitude) hv hw

/-- An instruction that the source asks for is encoded at its place in the code. -/
theorem holds_of_produced {name : String} {es pre post : List Emission} {s : Assembler} {o : Object}
    {i : SourceInstruction} (hs : Assembler.Produced name es s)
    (ho : o = s.object ∨ s.finish = .ok o) (hes : es = pre ++ .written i :: post) :
    ∃ x, i.Encodes x ∧ o.code.Holds (emissionsSize pre) x.encode := by
  have hcarries : o.Carries es := by
    rcases ho with rfl | ho
    · exact hs.emits.carries
    · exact Assembler.carries_of_finish hs ho
  obtain ⟨xs, hxs, hcode⟩ := hcarries.code
  obtain ⟨ys, x, zs, rfl, hys, hx, -⟩ := exists_split_encodes (hes ▸ hxs)
  have hcode : o.code.toList = ys.flatMap Instruction.encode ++ x.encode ++
      zs.flatMap Instruction.encode := by simpa using hcode
  exact ⟨x, hx, length_flatMap_encode hys ▸ Buffer.holds_of_toList hcode⟩

/-- A listed conversion of a register, a frame slot or an integer assembles to the bytes that were
listed exactly if the stored value, read again behind `F` and converted, is itself. Registers and
slots are, and integers that are in the range of `F`, unless `F` is a float. What became a float is
not, unless `F` is one. -/
theorem disassemble_render_convert {name : String} {es pre post : List Emission} {s : Assembler}
    {o : Object} (hs : Assembler.Produced name es s) (ho : o = s.object ∨ s.finish = .ok o)
    (hes : es = pre ++ .written (.conversion T d F t src) :: post) (hderef : src.deref = false)
    (hsrc : (∃ a, src.term = .address a) ∨ ∃ n, src.term = .integer n) (name' : String) :
    ∃ l ts w, disassemble o.code (emissionsSize pre) = .ok l ∧
      l.operands.getLast? = some ⟨.value, false, w⟩ ∧ w.datatype = T ∧
      src.Denotes (readAs (some F) (.value, src)) w ∧ tokenize (l.render .empty) = .ok ts ∧
      (assembledCode? ts name' = some (o.code.read (emissionsSize pre) l.size) ↔
        w.reread F = some w) ∧
      (∀ a, w.term = .address a → w.reread F = some w) ∧
      (F.isFloat = false → ∀ n, w.term = .integer n →
        (w.reread F = some w ↔ (n.toValue? F).isSome = true)) ∧
      (F.isFloat = false → T.isFloat = true → w.reread F = none) := by
  have htaken := hs.taken (i := .conversion T d F t src) (by simp [hes])
  have hT : T ≠ .none := bne_iff_ne.mp htaken.admits
  have hmagnitude : (∃ a, src.term = .address a) ∨
      ∃ n, src.term = .integer n ∧ n.magnitude < UInt64.size :=
    hsrc.imp_right fun h => h.imp fun n hn => ⟨hn, htaken.magnitude_lt (.value, src)
      (by simp [SourceInstruction.conversion]) n hn⟩
  obtain ⟨x, hx, hholds⟩ := holds_of_produced hs ho hes
  obtain ⟨v, w, rfl, hv, rfl, hdenotes⟩ := hx.exists_conversion hT hderef
  obtain ⟨l, ts, hl, hoperands, hsize, hts, hcode⟩ := assembledCode?_render_conversion rfl hv
    (SourceOperand.isFinite_of_denotes hderef hmagnitude hdenotes) hx.wellFormed hholds
  have hbytes := hholds.2
  rw [Instruction.length_encode, ← hsize] at hbytes
  refine ⟨l, ts, w, hl, by rw [hoperands]; rfl, rfl, hdenotes, hts, ?_, ?_, ?_, ?_⟩
  · rw [hcode, hbytes, Option.map_eq_some_iff]
    constructor
    · rintro ⟨w', hw', hsame⟩
      rw [hw', Instruction.encode_ofValue_injective (w.datatype_of_reread hw') rfl hsame]
    · intro hw
      exact ⟨w, hw, rfl⟩
  · intro a ha
    exact w.reread_of_address ha
  · intro hF n hn
    exact Value.reread_eq_self_iff hn hF
  · intro hF hfloat
    exact Value.reread_of_float hfloat hF

theorem ofText?_hundred : IntLiteral.ofText? "100" = some ⟨false, 100⟩ := by decide

/-- `convert.i8 : $ac : u8 : 100`. -/
def hundredTokens : Array Token :=
  tokensOf (convertWords .i8 accumulatorText .u8 (.ofNumber ofText?_hundred))

/-- 100 is a `u8` and an `i8`. -/
theorem disassemble_render_convert_hundred :
    let o := ((Assembler.empty "m").feed hundredTokens).2.object
    ∃ l ts, disassemble o.code 0 = .ok l ∧ tokenize (l.render .empty) = .ok ts ∧
      assembledCode? ts "n" = some (o.code.read 0 l.size) := by
  have hemissions : (Assembler.empty "m").emissions hundredTokens = [] ++ [.written (.conversion .i8
      ⟨false, .address Register.ac.address, ⟨.register, "$", .start⟩⟩ .u8 ⟨.name, "u8", .start⟩
      ⟨false, .integer ⟨false, 100⟩, ⟨.integer, "100", .start⟩⟩)] := by cbv
  have hproduced : Assembler.Produced "m" ([] ++ (Assembler.empty "m").emissions hundredTokens)
      ((Assembler.empty "m").feed hundredTokens).2 := .feed hundredTokens .empty
  rw [hemissions, List.nil_append] at hproduced
  obtain ⟨l, ts, w, hl, -, hdatatype, ⟨v, hv, hw⟩, hts, hcode, -⟩ :=
    disassemble_render_convert hproduced (.inl rfl) rfl rfl (.inr ⟨_, rfl⟩) "n"
  cases hv
  rw [hdatatype] at hw
  cases hw
  exact ⟨l, ts, hl, hts, hcode.mpr rfl⟩

/-- 200 is a `u8` that is stored as the `i8` -56. That is no `u8`. -/
theorem disassemble_render_convert_wrapped :
    ∃ code text, assembledCode? (tokensOf (convertWords .i8 accumulatorText .u8 twoHundredText))
        "main" = some code ∧
      (disassemble code.toArray 0).toOption.map (·.render .empty) = some text ∧
      text = "convert.i8 : $ac : u8 : -56" ∧
      (tokenize text).toOption.map (assembledCode? · "main") = some none := by
  refine ⟨[0x11, 0x00, 0x00, 0x00, 0x20, 0x00, 0x00, 0x00, 0x00, 0x00, 0x00, 0xa0, 0x04, 0xc8], _, ?_,
    ?_, rfl, ?_⟩
  · cbv
  · cbv
  · cbv

end

end CellMachine
