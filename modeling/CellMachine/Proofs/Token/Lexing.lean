import CellMachine.Assembly.Literal
import CellMachine.Token.Scanner
import Mathlib

/-!
# Scanning what was spelled

A text can be put together from lexemes : blanks, marks, words and numbers. As long as no two of
them run into each other (`Lexeme.Separated`), the scanner takes the text apart again
(`tokenize_of_lexemes`), into one token for every lexeme that is not blank. Of a number the
assembler reads the value that was spelled (`IntLiteral.ofText?_number`).
-/

namespace CellMachine

/-- The kind of a token with its spelling. -/
def Token.spelling (t : Token) : TokenKind × String := (t.kind, t.text)

/-! ## Lexemes -/

/-- A piece of text that the scanner takes as a whole. -/
inductive Lexeme where
  | blank
  | mark (c : Char)
  | word (text : String)
  | number (negative : Bool) (n : Nat)
  | decimal (negative : Bool) (whole fraction : List Char)
  deriving DecidableEq, Repr

namespace Lexeme

/-- The sign in front of a number. -/
def sign (negative : Bool) : List Char := if negative then ['-'] else []

@[simp] theorem sign_true : sign true = ['-'] := rfl

@[simp] theorem sign_false : sign false = [] := rfl

/-- The characters of a lexeme. -/
def chars : Lexeme → List Char
  | blank => [' ']
  | mark c => [c]
  | word text => text.toList
  | number negative n => sign negative ++ Nat.toDigits 10 n
  | decimal negative whole fraction => sign negative ++ (whole ++ '.' :: fraction)

/-- The token of a lexeme, if it has one. -/
def token? : Lexeme → Option (TokenKind × String)
  | blank => none
  | mark c => (TokenKind.ofChar? c).map fun kind => (kind, c.toString)
  | word text => some (.name, text)
  | number negative n => some (.integer, String.ofList (number negative n).chars)
  | decimal negative whole fraction =>
    some (.float, String.ofList (decimal negative whole fraction).chars)

/-- Whether a text is a small letter with more small letters and digits behind it. -/
def isWord (text : String) : Bool :=
  match text.toList with
  | [] => false
  | c :: rest => c.isLower && rest.all fun d => d.isLower || Text.isDigit d

/-- Whether characters are the digits of a number. -/
def isDigits (cs : List Char) : Bool := !cs.isEmpty && cs.all Text.isDigit

theorem isDigits_iff {cs : List Char} :
    isDigits cs = true ↔ cs ≠ [] ∧ ∀ c ∈ cs, Text.isDigit c = true := by
  simp [isDigits]

/-- Whether a lexeme can stand in front of another or of the end. -/
def precedes : Lexeme → Option Lexeme → Bool
  | blank, _ => true
  | mark c, _ => (TokenKind.ofChar? c).isSome
  | word text, none | word text, some blank => isWord text
  | word text, some (mark c) => isWord text && (TokenKind.ofChar? c).isSome
  | word _, _ => false
  | number _ _, none | number _ _, some blank => true
  | number _ _, _ => false
  | decimal _ whole fraction, none | decimal _ whole fraction, some blank =>
    isDigits whole && fraction.all Text.isDigit
  | decimal _ _ _, _ => false

/-- No two lexemes run into each other. -/
def Separated : List Lexeme → Prop
  | [] => True
  | x :: rest => x.precedes rest.head? ∧ Separated rest

end Lexeme

/-! ## Characters -/

variable {c : Char}

theorem toNat_of_isLower (h : c.isLower = true) : 97 ≤ c.toNat ∧ c.toNat ≤ 122 := by
  simp only [Char.isLower, Bool.and_eq_true, decide_eq_true_eq] at h
  exact h

theorem toNat_of_isDigit (h : Text.isDigit c = true) : 48 ≤ c.toNat ∧ c.toNat ≤ 57 := by
  simp only [Text.isDigit, Bool.and_eq_true, decide_eq_true_eq] at h
  exact h

theorem isHexDigit_of_isDigit (h : Text.isDigit c = true) : Text.isHexDigit c = true := by
  simp [Text.isHexDigit, h]

theorem isSign_of_isHexDigit (h : Text.isHexDigit c = true) : isSign c = false := by
  by_contra hsign
  simp only [isSign, Bool.not_eq_false, Bool.or_eq_true, beq_iff_eq] at hsign
  rcases hsign with rfl | rfl <;> exact absurd h (by decide)

theorem isSign_of_isDigit (h : Text.isDigit c = true) : isSign c = false :=
  isSign_of_isHexDigit (isHexDigit_of_isDigit h)

theorem isLetter_of_isLower (h : c.isLower = true) : Text.isLetter c = true := by
  obtain ⟨rest, hrest⟩ : ∃ rest, Text.alphabetic = (0x41, 0x5a) :: (0x61, 0x7a) :: rest := ⟨_, rfl⟩
  have hbounds := toNat_of_isLower h
  simp only [Text.isLetter, hrest, Text.Ranges.contains]
  grind

theorem isWordStart_of_isLower (h : c.isLower = true) : isWordStart c = true := by
  simp [isWordStart, isLetter_of_isLower h]

theorem isWordChar_of_isLower (h : c.isLower = true) : isWordChar c = true := by
  simp [isWordChar, Text.isLetterOrNumeral, isLetter_of_isLower h]

theorem isWordChar_of_isDigit (h : Text.isDigit c = true) : isWordChar c = true := by
  obtain ⟨rest, hrest⟩ : ∃ rest, Text.numeric = (0x30, 0x39) :: rest := ⟨_, rfl⟩
  have hbounds := toNat_of_isDigit h
  simp only [isWordChar, Text.isLetterOrNumeral, hrest, Text.Ranges.contains]
  grind

/-- A mark is one of seven characters. -/
theorem mem_marks (h : (TokenKind.ofChar? c).isSome = true) :
    c ∈ ['.', ':', '\n', '@', '~', '$', '#'] := by
  unfold TokenKind.ofChar? at h
  grind

/-- What can stand behind a word : the end, or a character that ends it. -/
def EndsWord (rest : List Char) : Prop :=
  ∀ c ∈ rest.head?, isWordChar c = false ∧ isDelimiter c = true

theorem endsWord_nil : EndsWord [] := by simp [EndsWord]

theorem endsWord_blank (rest : List Char) : EndsWord (' ' :: rest) := by
  intro c hc
  cases hc
  decide

theorem endsWord_mark (h : (TokenKind.ofChar? c).isSome = true) (rest : List Char) :
    EndsWord (c :: rest) := by
  intro d hd
  cases hd
  have hmem := mem_marks h
  fin_cases hmem <;> decide

namespace Lexing

variable {start p : Position} {text : String} {ts : Array Token} {cs rest : List Char} {c : Char}

theorem run_cons {s s' : Lexing} (h : s.step c = .ok s') (rest : List Char) :
    run s (c :: rest) = run s' rest := by
  rw [run, h]

/-- Characters that a mode adds to its text are put together. -/
theorem run_gathered {mode : String → Mode} {isPart : Char → Bool}
    (hstep : ∀ {c : Char}, isPart c = true → ∀ (p : Position) (text : String),
      step ⟨mode text, p, ts⟩ c = .ok ⟨mode (text.push c), p.advance c, ts⟩)
    (h : ∀ c ∈ cs, isPart c = true) (rest : List Char) (p : Position) (text : String) :
    ∃ p', run ⟨mode text, p, ts⟩ (cs ++ rest) =
      run ⟨mode (text ++ String.ofList cs), p', ts⟩ rest := by
  induction cs generalizing text p with
  | nil => exact ⟨p, by simp⟩
  | cons c cs ih =>
    obtain ⟨hc, hcs⟩ := List.forall_mem_cons.mp h
    obtain ⟨p', hp'⟩ := ih hcs (p.advance c) (text.push c)
    have htext : text ++ String.ofList (c :: cs) = text.push c ++ String.ofList cs :=
      String.ext (by simp)
    exact ⟨p', by rw [List.cons_append, run_cons (hstep hc p text), hp', htext]⟩

/-! ## Words -/

theorem step_wordChar (h : isWordChar c = true) (start p : Position) (text : String)
    (ts : Array Token) :
    step ⟨.name start text, p, ts⟩ c = .ok ⟨.name start (text.push c), p.advance c, ts⟩ := by
  simp only [step, h, if_true]
  rfl

/-- At its end a word becomes a token. -/
theorem run_endWord (h : EndsWord rest) :
    run ⟨.name start text, p, ts⟩ rest = run ⟨.between, p, ts.push ⟨.name, text, start⟩⟩ rest := by
  cases rest with
  | nil => rfl
  | cons c rest =>
    obtain ⟨hword, hdelimiter⟩ := h c rfl
    have hstep : step ⟨.name start text, p, ts⟩ c =
        step ⟨.between, p, ts.push ⟨.name, text, start⟩⟩ c := by
      simp only [step, hword, hdelimiter, Bool.not_true, Bool.false_eq_true, if_false]
      rfl
    rw [run, run, hstep]

/-- A character of one class is none that is outside of it. -/
theorem beq_eq_false_of_class {isPart : Char → Bool} (h : isPart c = true) {d : Char}
    (hd : isPart d = false) : (c == d) = false := by
  rw [beq_eq_false_iff_ne]
  rintro rfl
  exact Bool.false_ne_true (hd.symm.trans h)

theorem begin_of_isLower (h : c.isLower = true) (p : Position) (ts : Array Token) :
    step ⟨.between, p, ts⟩ c = .ok ⟨.name p c.toString, p.advance c, ts⟩ := by
  have hne : ∀ d : Char, d.isLower = false → (c == d) = false :=
    fun d => beq_eq_false_of_class h
  have hnumber : isNumberStart c = false := by
    have hbounds := toNat_of_isLower h
    have hdigit : Text.isDigit c = false := by
      by_contra hdigit
      have := toNat_of_isDigit (Bool.not_eq_false _ ▸ hdigit)
      omega
    simp [isNumberStart, isSign, hdigit, hne '+' rfl, hne '-' rfl]
  simp only [step, begin, hne ' ' rfl, hne '\t' rfl, hne '\r' rfl, hne '"' rfl, hne '/' rfl,
    hnumber, isWordStart_of_isLower h, Bool.or_false, Bool.false_eq_true, if_false, if_true]
  rfl

theorem run_word (hword : Lexeme.isWord text = true) (h : EndsWord rest) (p : Position)
    (ts : Array Token) :
    ∃ p', run ⟨.between, p, ts⟩ (text.toList ++ rest) =
      run ⟨.between, p', ts.push ⟨.name, text, p⟩⟩ rest := by
  unfold Lexeme.isWord at hword
  cases htext : text.toList with
  | nil => simp [htext] at hword
  | cons c cs =>
    simp only [htext, Bool.and_eq_true, List.all_eq_true, Bool.or_eq_true] at hword
    obtain ⟨hc, hcs⟩ := hword
    have hchars : ∀ d ∈ cs, isWordChar d = true := fun d hd =>
      (hcs d hd).elim isWordChar_of_isLower isWordChar_of_isDigit
    obtain ⟨p', hp'⟩ := run_gathered (fun hd q text => step_wordChar hd p q text ts) hchars rest
      (p.advance c) c.toString
    have hsame : c.toString ++ String.ofList cs = text := String.ext (by simp [htext])
    refine ⟨p', ?_⟩
    rw [List.cons_append, run_cons (begin_of_isLower hc p ts), hp', hsame, run_endWord h]

/-! ## Marks and blanks -/

theorem run_mark {kind : TokenKind} (h : TokenKind.ofChar? c = some kind) (p : Position)
    (ts : Array Token) :
    run ⟨.between, p, ts⟩ (c :: rest) =
      run ⟨.between, p.advance c, ts.push ⟨kind, c.toString, p⟩⟩ rest := by
  have hmem := mem_marks (by rw [h]; rfl)
  refine run_cons ?_ rest
  fin_cases hmem
  all_goals
    obtain rfl := Option.some.inj h
    rfl

theorem run_blank (p : Position) (ts : Array Token) :
    run ⟨.between, p, ts⟩ (' ' :: rest) = run ⟨.between, p.advance ' ', ts⟩ rest :=
  run_cons rfl rest

/-! ## Numbers -/

theorem isDigit_of_mem_toDigits {n : Nat} (h : c ∈ Nat.toDigits 10 n) : Text.isDigit c = true := by
  have hdigit := Nat.isDigit_of_mem_toDigits (by decide) (by decide) h
  simp only [Char.isDigit, Bool.and_eq_true, decide_eq_true_eq] at hdigit
  simp only [Text.isDigit, Bool.and_eq_true, decide_eq_true_eq]
  exact hdigit

theorem step_digit (h : Text.isDigit c = true) (start p : Position) (text : String)
    (ts : Array Token) :
    step ⟨.integer start text false, p, ts⟩ c =
      .ok ⟨.integer start (text.push c) false, p.advance c, ts⟩ := by
  simp only [step, h, Bool.true_or, if_true]
  rfl

/-- In front of a blank or the end a number becomes a token. -/
theorem run_endNumber (htext : unsignedPart text ≠ []) (hrest : ∀ c ∈ rest.head?, c = ' ') :
    run ⟨.integer start text false, p, ts⟩ rest =
      run ⟨.between, p, ts.push ⟨.integer, text, start⟩⟩ rest := by
  have hemit : emitInteger ⟨.integer start text false, p, ts⟩ start text false =
      .ok ⟨.between, p, ts.push ⟨.integer, text, start⟩⟩ := by
    simp only [emitInteger, Bool.false_eq_true, if_false, List.length_pos_iff.mpr htext, if_true]
    rfl
  cases rest with
  | nil => simp only [run, finish, hemit]
  | cons c rest =>
    obtain rfl := hrest c rfl
    have hstep : step ⟨.integer start text false, p, ts⟩ ' ' =
        step ⟨.between, p, ts.push ⟨.integer, text, start⟩⟩ ' ' := by
      simp only [step, hemit]
      rfl
    rw [run, run, hstep]

theorem begin_of_isNumberStart (h : isNumberStart c = true) (p : Position) (ts : Array Token) :
    step ⟨.between, p, ts⟩ c = .ok ⟨.integer p c.toString false, p.advance c, ts⟩ := by
  have hne : ∀ d : Char, isNumberStart d = false → (c == d) = false :=
    fun d => beq_eq_false_of_class h
  simp only [step, begin, hne ' ' rfl, hne '\t' rfl, hne '\r' rfl, hne '"' rfl, hne '/' rfl, h,
    Bool.or_false, Bool.false_eq_true, if_false, if_true]
  rfl

/-- Behind a sign and digits the scanner is inside a number. -/
theorem run_signedDigits (negative : Bool) {ds : List Char} (hds : Lexeme.isDigits ds = true)
    (rest : List Char) (p : Position) (ts : Array Token) :
    unsignedPart (String.ofList (Lexeme.sign negative ++ ds)) ≠ [] ∧
      ∃ p', run ⟨.between, p, ts⟩ (Lexeme.sign negative ++ ds ++ rest) =
        run ⟨.integer p (String.ofList (Lexeme.sign negative ++ ds)) false, p', ts⟩ rest := by
  obtain ⟨hne, hdigits⟩ := Lexeme.isDigits_iff.mp hds
  obtain ⟨d, ds, rfl⟩ := List.exists_cons_of_ne_nil hne
  -- The first character is a sign or a digit, and only digits come behind it.
  obtain ⟨c, cs, hchars, hc, hcs⟩ : ∃ c cs, Lexeme.sign negative ++ d :: ds = c :: cs ∧
      isNumberStart c = true ∧ ∀ c ∈ cs, Text.isDigit c = true := by
    cases negative with
    | true => exact ⟨'-', d :: ds, rfl, rfl, hdigits⟩
    | false =>
      obtain ⟨hd, htail⟩ := List.forall_mem_cons.mp hdigits
      exact ⟨d, ds, rfl, by simp [isNumberStart, hd], htail⟩
  constructor
  · rw [unsignedPart, String.toList_ofList, Ne, List.dropWhile_eq_nil_iff]
    intro hsigns
    have hsign := hsigns d (List.mem_append_right _ List.mem_cons_self)
    rw [isSign_of_isDigit (hdigits d List.mem_cons_self)] at hsign
    cases hsign
  · obtain ⟨p', hp'⟩ := run_gathered (fun hd q text => step_digit hd p q text ts) hcs rest
      (p.advance c) c.toString
    have hsame : c.toString ++ String.ofList cs = String.ofList (c :: cs) := String.ext (by simp)
    refine ⟨p', ?_⟩
    rw [hchars, List.cons_append, run_cons (begin_of_isNumberStart hc p ts), hp', hsame]

theorem run_number (negative : Bool) (n : Nat) (hrest : ∀ c ∈ rest.head?, c = ' ') (p : Position)
    (ts : Array Token) :
    ∃ p', run ⟨.between, p, ts⟩ ((Lexeme.number negative n).chars ++ rest) =
      run ⟨.between, p', ts.push ⟨.integer, String.ofList (Lexeme.number negative n).chars, p⟩⟩
        rest := by
  have hdigits : Lexeme.isDigits (Nat.toDigits 10 n) = true :=
    Lexeme.isDigits_iff.mpr ⟨Nat.toDigits_ne_nil, fun c => isDigit_of_mem_toDigits⟩
  obtain ⟨hunsigned, p', hp'⟩ := run_signedDigits negative hdigits rest p ts
  exact ⟨p', hp'.trans (run_endNumber hunsigned hrest)⟩

theorem step_fractionDigit (h : Text.isDigit c = true) (start p : Position) (text : String)
    (ts : Array Token) :
    step ⟨.float start text, p, ts⟩ c = .ok ⟨.float start (text.push c), p.advance c, ts⟩ := by
  simp only [step, h, if_true]
  rfl

/-- In front of a blank or the end a number with a point becomes a token. -/
theorem run_endFraction (hrest : ∀ c ∈ rest.head?, c = ' ') :
    run ⟨.float start text, p, ts⟩ rest =
      run ⟨.between, p, ts.push ⟨.float, text, start⟩⟩ rest := by
  cases rest with
  | nil => rfl
  | cons c rest =>
    obtain rfl := hrest c rfl
    rfl

theorem run_decimal (negative : Bool) {whole fraction : List Char}
    (hwhole : Lexeme.isDigits whole = true) (hfraction : ∀ c ∈ fraction, Text.isDigit c = true)
    (hrest : ∀ c ∈ rest.head?, c = ' ') (p : Position) (ts : Array Token) :
    ∃ p', run ⟨.between, p, ts⟩ ((Lexeme.decimal negative whole fraction).chars ++ rest) =
      run ⟨.between, p', ts.push
        ⟨.float, String.ofList (Lexeme.decimal negative whole fraction).chars, p⟩⟩ rest := by
  obtain ⟨hunsigned, q, hq⟩ := run_signedDigits negative hwhole ('.' :: (fraction ++ rest)) p ts
  have hpoint : step ⟨.integer p (String.ofList (Lexeme.sign negative ++ whole)) false, q, ts⟩ '.' =
      .ok ⟨.float p ((String.ofList (Lexeme.sign negative ++ whole)).push '.'), q.advance '.', ts⟩ := by
    have hne := List.isEmpty_eq_false_iff.mpr hunsigned
    have hdigit : Text.isDigit '.' = false := by decide
    simp only [step, hdigit, hne, Bool.false_and, Bool.or_false, Bool.false_eq_true, if_false,
      Bool.not_false, Bool.and_true, beq_self_eq_true, if_true]
    rfl
  obtain ⟨p', hp'⟩ := run_gathered (fun hd q text => step_fractionDigit hd p q text ts) hfraction
    rest (q.advance '.') ((String.ofList (Lexeme.sign negative ++ whole)).push '.')
  have htext : (String.ofList (Lexeme.sign negative ++ whole)).push '.' ++ String.ofList fraction =
      String.ofList (Lexeme.decimal negative whole fraction).chars :=
    String.ext (by simp [Lexeme.chars])
  have hchars : (Lexeme.decimal negative whole fraction).chars ++ rest =
      Lexeme.sign negative ++ whole ++ '.' :: (fraction ++ rest) := by simp [Lexeme.chars]
  refine ⟨p', ?_⟩
  rw [hchars, hq, run_cons hpoint, hp', htext, run_endFraction hrest]

end Lexing

/-! ## Texts -/

namespace Lexeme

variable {ls : List Lexeme}

/-- What lexemes begin with ends a word, if a word can stand in front of them. -/
theorem endsWord_of_precedes {text : String} (h : (word text).precedes ls.head? = true) :
    isWord text = true ∧ EndsWord (ls.flatMap chars) := by
  match ls, h with
  | [], h => exact ⟨h, endsWord_nil⟩
  | blank :: ls, h => exact ⟨h, endsWord_blank _⟩
  | mark c :: ls, h =>
    obtain ⟨hword, hmark⟩ := Bool.and_eq_true_iff.mp h
    exact ⟨hword, endsWord_mark hmark _⟩

theorem blank_of_precedes {negative : Bool} {n : Nat}
    (h : (number negative n).precedes ls.head? = true) :
    ∀ c ∈ (ls.flatMap chars).head?, c = ' ' := by
  match ls, h with
  | [], _ => simp
  | blank :: ls, _ => simp [chars]

theorem digits_of_precedes {negative : Bool} {whole fraction : List Char}
    (h : (decimal negative whole fraction).precedes ls.head? = true) :
    isDigits whole = true ∧ (∀ c ∈ fraction, Text.isDigit c = true) ∧
      ∀ c ∈ (ls.flatMap chars).head?, c = ' ' := by
  match ls, h with
  | [], h =>
    obtain ⟨hwhole, hfraction⟩ := Bool.and_eq_true_iff.mp h
    exact ⟨hwhole, List.all_eq_true.mp hfraction, by simp⟩
  | blank :: ls, h =>
    obtain ⟨hwhole, hfraction⟩ := Bool.and_eq_true_iff.mp h
    exact ⟨hwhole, List.all_eq_true.mp hfraction, by simp [chars]⟩

end Lexeme

/-- The scanner takes lexemes apart again. -/
theorem Lexing.run_lexemes {ls : List Lexeme} (h : Lexeme.Separated ls) (p : Position)
    (ts : Array Token) :
    ∃ p' ts', run ⟨.between, p, ts⟩ (ls.flatMap Lexeme.chars) = .ok ⟨.between, p', ts'⟩ ∧
      ts'.toList.map Token.spelling =
        ts.toList.map Token.spelling ++ ls.filterMap Lexeme.token? := by
  induction ls generalizing p ts with
  | nil => exact ⟨p, ts, rfl, by simp⟩
  | cons x ls ih =>
    obtain ⟨hx, hls⟩ := h
    rw [List.flatMap_cons]
    cases x with
    | blank =>
      obtain ⟨p', ts', hrun, hts'⟩ := ih hls (p.advance ' ') ts
      exact ⟨p', ts', (run_blank p ts).trans hrun, hts'⟩
    | mark c =>
      obtain ⟨kind, hkind⟩ := Option.isSome_iff_exists.mp hx
      obtain ⟨p', ts', hrun, hts'⟩ := ih hls (p.advance c) (ts.push ⟨kind, c.toString, p⟩)
      refine ⟨p', ts', (run_mark hkind p ts).trans hrun, ?_⟩
      simpa [Token.spelling, Lexeme.token?, hkind] using hts'
    | word text =>
      obtain ⟨hword, hends⟩ := Lexeme.endsWord_of_precedes hx
      obtain ⟨q, hq⟩ := run_word hword hends p ts
      obtain ⟨p', ts', hrun, hts'⟩ := ih hls q (ts.push ⟨.name, text, p⟩)
      refine ⟨p', ts', hq.trans hrun, ?_⟩
      simpa [Token.spelling, Lexeme.token?] using hts'
    | number negative n =>
      obtain ⟨q, hq⟩ := run_number negative n (Lexeme.blank_of_precedes hx) p ts
      obtain ⟨p', ts', hrun, hts'⟩ := ih hls q (ts.push ⟨.integer, _, p⟩)
      refine ⟨p', ts', hq.trans hrun, ?_⟩
      simpa [Token.spelling, Lexeme.token?] using hts'
    | decimal negative whole fraction =>
      obtain ⟨hwhole, hfraction, hblank⟩ := Lexeme.digits_of_precedes hx
      obtain ⟨q, hq⟩ := run_decimal negative hwhole hfraction hblank p ts
      obtain ⟨p', ts', hrun, hts'⟩ := ih hls q (ts.push ⟨.float, _, p⟩)
      refine ⟨p', ts', hq.trans hrun, ?_⟩
      simpa [Token.spelling, Lexeme.token?] using hts'

/-- A text of lexemes has their tokens, with one for the end behind them. -/
theorem tokenize_of_lexemes {text : String} {ls : List Lexeme} (h : Lexeme.Separated ls)
    (htext : text.toList = ls.flatMap Lexeme.chars) :
    ∃ ts, tokenize text = .ok ts ∧
      ts.toList.map Token.spelling = ls.filterMap Lexeme.token? ++ [(.endOfCode, "")] := by
  obtain ⟨p, ts, hrun, hts⟩ := Lexing.run_lexemes h .start #[]
  refine ⟨ts.push (.endOfCode p), ?_, ?_⟩
  · have hpending : (Scanner.empty.push text).pending = ls.flatMap Lexeme.chars := htext
    have hrun : Lexing.run ⟨.between, (Scanner.empty.push text).position,
        withoutEnd (Scanner.empty.push text).tokens⟩ (ls.flatMap Lexeme.chars) = _ := hrun
    unfold tokenize Scanner.scan
    rw [hpending, hrun]
  · simp [hts, Token.spelling, Token.endOfCode]

/-! ## Literals -/

theorem digitsValue_toDigits (n : Nat) : digitsValue 10 (Nat.toDigits 10 n) = n := by
  have hvalues : digitsValue 10 (Nat.toDigits 10 n) =
      Nat.ofDigitChars 10 (Nat.toDigits 10 n) 0 := by
    refine List.foldl_ext _ _ _ fun m c hc => ?_
    rw [digitValue, if_pos (Lexing.isDigit_of_mem_toDigits hc)]
  rw [hvalues, Nat.ofDigitChars_toDigits (by decide) (by decide)]

theorem readDigits?_toDigits {n : Nat} (h : n < UInt64.size) :
    readDigits? 10 Text.isDigit (Nat.toDigits 10 n) = some n := by
  have hdigits : (Nat.toDigits 10 n).all Text.isDigit = true :=
    List.all_eq_true.mpr fun c => Lexing.isDigit_of_mem_toDigits
  have hne : (Nat.toDigits 10 n).isEmpty = false := by
    simp [List.isEmpty_eq_false_iff]
  simp [readDigits?, digitsValue_toDigits, hdigits, hne, h]

namespace IntLiteral

/-- Decimal digits are read as such, since no mark of other digits is among them. -/
theorem magnitude?_of_isDigit {cs : List Char} (h : ∀ c ∈ cs, Text.isDigit c = true) :
    magnitude? cs = readDigits? 10 Text.isDigit cs := by
  unfold magnitude?
  split
  · exact absurd (h 'x' (by simp)) (by decide)
  · exact absurd (h 'X' (by simp)) (by decide)
  · rfl

/-- Without a sign in front there is none to take. -/
theorem splitSign_of_isSign_eq_false {cs : List Char} (h : ∀ c ∈ cs.head?, isSign c = false) :
    splitSign cs = (false, cs) := by
  unfold splitSign
  split
  · exact absurd (h '-' rfl) (by decide)
  · exact absurd (h '+' rfl) (by decide)
  · rfl

/-- A number that was spelled is read with its value. -/
theorem ofText?_number (negative : Bool) {n : Nat} (h : n < UInt64.size) :
    ofText? (String.ofList (Lexeme.number negative n).chars) = some ⟨negative, n⟩ := by
  have hsplit : splitSign (Lexeme.number negative n).chars = (negative, Nat.toDigits 10 n) := by
    cases negative with
    | true => rfl
    | false =>
      exact splitSign_of_isSign_eq_false fun c hc =>
        isSign_of_isDigit (Lexing.isDigit_of_mem_toDigits (List.mem_of_mem_head? hc))
  have hmagnitude : magnitude? (Nat.toDigits 10 n) = some n := by
    rw [magnitude?_of_isDigit fun c => Lexing.isDigit_of_mem_toDigits, readDigits?_toDigits h]
  rw [ofText?, String.toList_ofList, hsplit]
  simp [hmagnitude]

end IntLiteral

end CellMachine
