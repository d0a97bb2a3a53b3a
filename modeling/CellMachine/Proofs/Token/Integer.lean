import CellMachine.Proofs.Token.Chunks
import CellMachine.Proofs.Token.Lexing

/-!
# Integers in source text

An integer is spelled with a sign or none, a mark for hexadecimal digits or none, and digits
(`IntegerText`). It stands for a number in positional notation (`IntegerText.toInt`). The scanner
makes no other integers : while it is inside of one, the characters so far are the beginning of such
a spelling (`Lexing.spelled_step`), and so are those of every integer it has completed
(`exists_integerText`). The assembler reads every spelling as its number, up to the largest one of
64 bits (`IntegerText.ofText?_text`).
-/

namespace CellMachine

/-- How the digits of an integer are marked and read. -/
inductive Radix where
  | decimal
  | hexadecimal (upper : Bool)
  deriving DecidableEq, Repr

namespace Radix

def base : Radix → Nat
  | decimal => 10
  | hexadecimal _ => 16

/-- What stands in front of the digits. -/
def mark : Radix → List Char
  | decimal => []
  | hexadecimal false => ['0', 'x']
  | hexadecimal true => ['0', 'X']

def isDigit : Radix → Char → Bool
  | decimal => Text.isDigit
  | hexadecimal _ => Text.isHexDigit

def isHex : Radix → Bool
  | decimal => false
  | hexadecimal _ => true

theorem length_mark (r : Radix) : r.mark.length = if r.isHex then 2 else 0 := by
  rcases r with _ | (_ | _) <;> rfl

theorem isSign_of_mem_mark {r : Radix} {c : Char} (h : c ∈ r.mark) : isSign c = false := by
  rcases r with _ | (_ | _)
  · exact absurd h List.not_mem_nil
  all_goals fin_cases h <;> rfl

theorem isHexDigit_of_isDigit {r : Radix} {c : Char} (h : r.isDigit c = true) :
    Text.isHexDigit c = true := by
  cases r with
  | decimal => exact CellMachine.isHexDigit_of_isDigit h
  | hexadecimal upper => exact h

theorem isDigit_eq (r : Radix) (c : Char) :
    r.isDigit c = (Text.isDigit c || (r.isHex && Text.isHexDigit c)) := by
  cases r with
  | decimal => simp [isDigit, isHex]
  | hexadecimal upper =>
    cases h : Text.isDigit c with
    | true => exact CellMachine.isHexDigit_of_isDigit h
    | false => rfl

end Radix

/-- The beginning of an integer : perhaps a sign, perhaps a mark, and digits so far. -/
structure IntegerPart where
  sign : Option Char
  radix : Radix
  digits : List Char
  signed : ∀ c ∈ sign, isSign c = true
  valid : ∀ c ∈ digits, radix.isDigit c = true

/-- An integer as it is spelled. -/
structure IntegerText extends IntegerPart where
  nonempty : digits ≠ []

/-- The sixteen digits in their order. -/
def sixteenDigits : List Char := "0123456789abcdef".toList

/-- The number of a digit, which is its place among the sixteen. -/
def digitPlace (c : Char) : Nat := sixteenDigits.idxOf c.toLower

namespace IntegerPart

/-- The characters in their order. -/
def chars (x : IntegerPart) : List Char := x.sign.toList ++ (x.radix.mark ++ x.digits)

/-- There is no sign behind the first character. -/
theorem isSign_of_mem (x : IntegerPart) {c : Char} (h : c ∈ x.radix.mark ++ x.digits) :
    isSign c = false := by
  rcases List.mem_append.mp h with h | h
  · exact Radix.isSign_of_mem_mark h
  · exact isSign_of_isHexDigit (Radix.isHexDigit_of_isDigit (x.valid c h))

theorem dropWhile_chars (x : IntegerPart) :
    x.chars.dropWhile isSign = x.radix.mark ++ x.digits := by
  have hrest : (x.radix.mark ++ x.digits).dropWhile isSign = x.radix.mark ++ x.digits := by
    cases hchars : x.radix.mark ++ x.digits with
    | nil => rfl
    | cons c cs =>
      rw [List.dropWhile_cons_of_neg]
      rw [x.isSign_of_mem (hchars ▸ List.mem_cons_self)]
      exact Bool.false_ne_true
  unfold chars
  cases hsign : x.sign with
  | none => exact hrest
  | some c =>
    rw [Option.toList_some, List.singleton_append, List.dropWhile_cons_of_pos (x.signed c hsign),
      hrest]

/-- The next digit of an integer. -/
def snoc (x : IntegerPart) (c : Char) (h : x.radix.isDigit c = true) : IntegerPart where
  sign := x.sign
  radix := x.radix
  digits := x.digits ++ [c]
  signed := x.signed
  valid d hd := by
    rcases List.mem_append.mp hd with hd | hd
    · exact x.valid d hd
    · rwa [List.mem_singleton.mp hd]

end IntegerPart

namespace IntegerText

def text (x : IntegerText) : String := String.ofList x.chars

/-- The number that the digits spell, the last digit counting one. -/
def magnitude (x : IntegerText) : Nat :=
  Nat.ofDigits x.radix.base (x.digits.reverse.map digitPlace)

/-- Whether the sign is a minus. -/
def isNegative (x : IntegerText) : Bool := x.sign == some '-'

/-- The number of a spelling. -/
def toInt (x : IntegerText) : Int := if x.isNegative then -(x.magnitude : Int) else x.magnitude

end IntegerText

/-! ## What the scanner makes -/

/-- If the scanner is inside of an integer, its characters so far are the beginning of one. -/
def Mode.Spelled : Mode → Prop
  | .integer _ text isHex => ∃ x : IntegerPart, text.toList = x.chars ∧ x.radix.isHex = isHex
  | _ => True

namespace Lexing

variable {s s' : Lexing} {c : Char} {start : Position} {text : String} {isHex : Bool}

/-- All integers of the scanner are spelled as such. -/
structure Spelled (s : Lexing) : Prop where
  mode : s.mode.Spelled
  tokens : ∀ t ∈ s.tokens, t.kind = .integer → ∃ x : IntegerText, t.text = x.text

theorem Spelled.advance (h : s.Spelled) {mode : Mode} (hmode : mode.Spelled) (c : Char) :
    (s.advance c mode).Spelled := ⟨hmode, h.tokens⟩

theorem Spelled.emit (h : s.Spelled) {kind : TokenKind} (start : Position)
    (htext : kind = .integer → ∃ x : IntegerText, text = x.text) :
    (s.emit kind text start).Spelled := by
  refine ⟨trivial, fun t ht hkind => ?_⟩
  rcases Array.mem_push.mp ht with ht | rfl
  · exact h.tokens t ht hkind
  · exact htext hkind

theorem Spelled.emit_of_ne (h : s.Spelled) {kind : TokenKind} (hkind : kind ≠ .integer)
    (text : String) (start : Position) : (s.emit kind text start).Spelled :=
  h.emit start fun hinteger => absurd hinteger hkind

/-- A sign alone is the beginning of an integer, and so is a digit. -/
theorem spelled_of_isNumberStart (h : isNumberStart c = true) (start : Position) :
    (Mode.integer start c.toString false).Spelled := by
  rw [isNumberStart, Bool.or_eq_true] at h
  rcases h with hdigit | hsign
  · exact ⟨⟨none, .decimal, [c], by simp, by simpa [Radix.isDigit] using hdigit⟩, by
      simp [IntegerPart.chars, Radix.mark], rfl⟩
  · exact ⟨⟨some c, .decimal, [], by simpa using hsign, by simp⟩, by
      simp [IntegerPart.chars, Radix.mark], rfl⟩

theorem spelled_begin (h : s.Spelled) (hok : s.begin c = .ok s') : s'.Spelled := by
  unfold begin at hok
  repeat' split at hok
  all_goals cases hok
  · exact h.advance (by trivial) c
  · exact h.advance (by trivial) c
  · exact h.advance (by trivial) c
  · next hstart => exact h.advance (spelled_of_isNumberStart hstart _) c
  · exact h.advance (by trivial) c
  · next kind hkind =>
    have hnot : kind ≠ .integer := by
      rintro rfl
      unfold TokenKind.ofChar? at hkind
      grind
    exact (h.emit_of_ne hnot _ _).advance (by trivial) c

/-- One more digit continues an integer. -/
theorem spelled_digit (h : (Mode.integer start text isHex).Spelled)
    (hdigit : (Text.isDigit c || (isHex && Text.isHexDigit c)) = true) :
    (Mode.integer start (text.push c) isHex).Spelled := by
  obtain ⟨x, htext, rfl⟩ := h
  rw [← Radix.isDigit_eq] at hdigit
  exact ⟨x.snoc c hdigit, by simp [htext, IntegerPart.chars, IntegerPart.snoc], rfl⟩

/-- Behind a zero alone, the digits can still become hexadecimal. -/
theorem spelled_mark (h : (Mode.integer start text false).Spelled)
    (hmark : c = 'x' ∨ c = 'X') (hzero : unsignedPart text = ['0']) :
    (Mode.integer start (text.push c) true).Spelled := by
  obtain ⟨x, htext, -⟩ := h
  have hrest : x.radix.mark ++ x.digits = ['0'] := by
    rw [← x.dropWhile_chars, ← htext, ← hzero, unsignedPart]
  have hchars : text.toList = x.sign.toList ++ ['0'] := by rw [htext, IntegerPart.chars, hrest]
  refine ⟨⟨x.sign, .hexadecimal (c == 'X'), [], x.signed, by simp⟩, ?_, rfl⟩
  rcases hmark with rfl | rfl
  all_goals simp [hchars, IntegerPart.chars, Radix.mark]

/-- What is completed as an integer has digits. -/
theorem spelled_emitInteger (h : s.Spelled) (hmode : (Mode.integer start text isHex).Spelled)
    (hok : s.emitInteger start text isHex = .ok s') : s'.Spelled := by
  obtain ⟨x, htext, rfl⟩ := hmode
  have hunsigned : unsignedPart text = x.radix.mark ++ x.digits := by
    rw [unsignedPart, htext, x.dropWhile_chars]
  unfold emitInteger at hok
  rw [hunsigned, ← Radix.length_mark, List.length_append] at hok
  by_cases hlength : x.radix.mark.length < x.radix.mark.length + x.digits.length
  · rw [if_pos hlength] at hok
    cases hok
    have hdigits : x.digits ≠ [] := List.length_pos_iff.mp (by omega)
    refine h.emit start fun _ => ⟨⟨x, hdigits⟩, String.ext ?_⟩
    rw [htext, IntegerText.text, String.toList_ofList]
  · rw [if_neg hlength] at hok
    cases hok

theorem spelled_step (h : s.Spelled) (hok : s.step c = .ok s') : s'.Spelled := by
  have hmode := h.mode
  unfold step at hok
  cases hs : s.mode with
  | between =>
    simp only [hs] at hok
    exact spelled_begin h hok
  | string start text =>
    simp only [hs] at hok
    repeat' split at hok
    all_goals cases hok
    · exact (h.emit_of_ne (by decide) text start).advance (by trivial) c
    · exact h.advance (by trivial) c
  | comment =>
    simp only [hs] at hok
    split at hok
    · have hbetween : Spelled { s with mode := .between } := ⟨trivial, h.tokens⟩
      exact spelled_begin hbetween hok
    · cases hok
      exact h.advance (by trivial) c
  | integer start text isHex =>
    simp only [hs] at hok hmode
    repeat' split at hok
    · next hdigit =>
      cases hok
      exact h.advance (spelled_digit hmode hdigit) c
    · next hmark =>
      cases hok
      simp only [Bool.and_eq_true, Bool.or_eq_true, beq_iff_eq, Bool.not_eq_true'] at hmark
      obtain ⟨⟨hmark, hzero⟩, rfl⟩ := hmark
      exact h.advance (spelled_mark hmode hmark hzero) c
    · cases hok
      exact h.advance (by trivial) c
    · cases hok
    · next hemit => exact spelled_begin (spelled_emitInteger h hmode hemit) hok
    · cases hok
  | float start text =>
    simp only [hs] at hok
    repeat' split at hok
    · cases hok
      exact h.advance (by trivial) c
    · cases hok
    · exact spelled_begin (h.emit_of_ne (by decide) text start) hok
  | name start text =>
    simp only [hs] at hok
    repeat' split at hok
    · cases hok
      exact h.advance (by trivial) c
    · cases hok
    · exact spelled_begin (h.emit_of_ne (by decide) text start) hok

theorem spelled_finish (h : s.Spelled) (hok : s.finish = .ok s') : s'.Spelled := by
  have hmode := h.mode
  unfold finish at hok
  cases hs : s.mode with
  | between | comment =>
    simp only [hs] at hok
    cases hok
    exact ⟨trivial, h.tokens⟩
  | string start text =>
    simp only [hs] at hok
    cases hok
  | integer start text isHex =>
    simp only [hs] at hok hmode
    exact spelled_emitInteger h hmode hok
  | float start text | name start text =>
    simp only [hs] at hok
    cases hok
    exact h.emit_of_ne (by decide) text start

/-- Over a whole text, the scanner makes no other integers than those that are spelled. -/
theorem spelled_run {cs : List Char} (h : s.Spelled) (hok : s.run cs = .ok s') : s'.Spelled := by
  induction cs generalizing s with
  | nil => exact spelled_finish h (run_nil_eq_ok hok)
  | cons c cs ih =>
    obtain ⟨s₁, hstep, hrun⟩ := run_cons_eq_ok hok
    exact ih (spelled_step h hstep) hrun

end Lexing

/-- Every integer among the tokens of a text is spelled with a sign or none, a mark or none, and
digits. -/
theorem exists_integerText {source : String} {tokens : Array Token} {t : Token}
    (h : tokenize source = .ok tokens) (ht : t ∈ tokens) (hkind : t.kind = .integer) :
    ∃ x : IntegerText, t.text = x.text := by
  rw [Scanner.tokenize_eq_result] at h
  cases hrun : Lexing.start.run source.toList with
  | error f =>
    rw [hrun] at h
    cases h
  | ok r =>
    rw [hrun] at h
    cases h
    have hstart : Lexing.start.Spelled := ⟨trivial, by simp [Lexing.start]⟩
    rcases Array.mem_push.mp ht with ht | rfl
    · exact (Lexing.spelled_run hstart hrun).tokens t ht hkind
    · cases hkind

/-! ## What the assembler reads -/

/-- A digit is worth its place among the sixteen. -/
theorem digitValue_eq_digitPlace {c : Char} (h : Text.isHexDigit c = true) :
    digitValue c = digitPlace c := by
  have hall : ∀ n < 103, Text.isHexDigit (Char.ofNat n) = true →
      digitValue (Char.ofNat n) = digitPlace (Char.ofNat n) := by
    decide +kernel
  have hlt : c.toNat < 103 := by
    simp only [Text.isHexDigit, Text.isDigit, Bool.or_eq_true, Bool.and_eq_true,
      decide_eq_true_eq] at h
    rcases h with (⟨-, h⟩ | ⟨-, h⟩) | ⟨-, h⟩
    all_goals exact lt_of_le_of_lt h (by decide)
  have hc := hall c.toNat hlt
  rw [Char.ofNat_toNat] at hc
  exact hc h

theorem digitsValue_eq_ofDigits (base : Nat) (digits : List Char) :
    digitsValue base digits = Nat.ofDigits base (digits.reverse.map digitValue) := by
  rw [digitsValue, Nat.ofDigits_eq_foldr, List.map_reverse, List.foldr_reverse, List.foldl_map]
  simp [add_comm]

namespace IntegerText

theorem digitsValue_digits (x : IntegerText) :
    digitsValue x.radix.base x.digits = x.magnitude := by
  rw [digitsValue_eq_ofDigits, magnitude]
  congr 1
  refine List.map_congr_left fun c hc => ?_
  exact digitValue_eq_digitPlace
    (Radix.isHexDigit_of_isDigit (x.valid c (List.mem_reverse.mp hc)))

theorem readDigits?_digits (x : IntegerText) :
    readDigits? x.radix.base x.radix.isDigit x.digits =
      if x.magnitude < UInt64.size then some x.magnitude else none := by
  have hdigits : x.digits.all x.radix.isDigit = true := List.all_eq_true.mpr x.valid
  have hnonempty : x.digits.isEmpty = false := by simpa using x.nonempty
  simp [readDigits?, x.digitsValue_digits, hdigits, hnonempty]

theorem magnitude?_unsigned (x : IntegerText) :
    IntLiteral.magnitude? (x.radix.mark ++ x.digits) =
      if x.magnitude < UInt64.size then some x.magnitude else none := by
  rw [← x.readDigits?_digits]
  have hvalid := x.valid
  cases hradix : x.radix with
  | decimal =>
    rw [hradix] at hvalid
    exact IntLiteral.magnitude?_of_isDigit hvalid
  | hexadecimal upper => cases upper <;> rfl

theorem splitSign_chars (x : IntegerText) :
    splitSign x.chars = (x.isNegative, x.radix.mark ++ x.digits) := by
  unfold IntegerPart.chars isNegative
  cases hsign : x.sign with
  | none =>
    exact IntLiteral.splitSign_of_isSign_eq_false fun c hc =>
      x.isSign_of_mem (List.mem_of_mem_head? hc)
  | some c =>
    have hc := x.signed c hsign
    simp only [isSign, Bool.or_eq_true, beq_iff_eq] at hc
    rcases hc with rfl | rfl <;> rfl

/-- An integer is read as its number, unless that takes more than 64 bits. -/
theorem ofText?_text (x : IntegerText) :
    IntLiteral.ofText? x.text =
      if x.magnitude < UInt64.size then some ⟨x.isNegative, x.magnitude⟩ else none := by
  rw [IntLiteral.ofText?, text, String.toList_ofList, x.splitSign_chars]
  simp only [x.magnitude?_unsigned]
  split <;> rfl

end IntegerText

end CellMachine
