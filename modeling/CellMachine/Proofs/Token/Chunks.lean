import CellMachine.Proofs.Action
import CellMachine.Token.Scanner

/-!
# Text that arrives in pieces

At the end of a line no token has begun (`Lexing.step_newline`), so that what stands in front of it
and what stands behind it can be scanned one after the other (`Lexing.run_lines`). A scanner that
has taken whole lines (`Scanner.Behind`) finds the tokens of the whole text when more arrives behind
them (`Scanner.Behind.tokenize`), and these start with the tokens of the lines
(`Lexing.extends_run`). So it does not matter into which lines a text is cut
(`Scanner.scanEach_eq_tokenize`).
-/

namespace CellMachine

/-- The last token is the end of a line. -/
def EndsLine (tokens : Array Token) : Prop := ∃ p, tokens.back? = some ⟨.newline, "\n", p⟩

theorem withoutEnd_push (tokens : Array Token) (p : Position) :
    withoutEnd (tokens.push (.endOfCode p)) = tokens := by
  simp [withoutEnd, Token.isEnd, Token.endOfCode]

theorem TokenKind.ne_endOfCode_of_ofChar {c : Char} {kind : TokenKind}
    (h : TokenKind.ofChar? c = some kind) : kind ≠ .endOfCode := by
  unfold TokenKind.ofChar? at h
  repeat' split at h
  all_goals cases h
  all_goals decide

namespace Lexing

/-- Nothing has been scanned. -/
def start : Lexing := ⟨.between, .start, #[]⟩

/-! ## The end of a line -/

variable {s s' : Lexing}

/-- The end of a line completes the integer in front of it. -/
theorem step_newline_integer {p : Position} {text : String} {isHex : Bool}
    (h : s.mode = .integer p text isHex) :
    s.step '\n' = s.emitInteger p text isHex >>= (·.begin '\n') := by
  have hdigit : Text.isDigit '\n' = false := rfl
  have hhex : Text.isHexDigit '\n' = false := rfl
  have hdelimiter : isDelimiter '\n' = true := rfl
  simp only [step, h, hdigit, hhex, hdelimiter, Bool.and_false, Bool.or_false]
  cases s.emitInteger p text isHex with
  | ok t => rfl
  | error e => rfl

/-- Behind the end of a line no token has begun. -/
theorem step_newline (h : s.step '\n' = .ok s') : s'.mode = .between ∧ EndsLine s'.tokens := by
  have hbegin {t : Lexing} (ht : t.begin '\n' = .ok s') :
      s'.mode = .between ∧ EndsLine s'.tokens := by
    cases ht
    exact ⟨rfl, _, Array.back?_push⟩
  cases hmode : s.mode with
  | integer p text isHex =>
    rw [step_newline_integer hmode] at h
    obtain ⟨t, -, ht⟩ := except_bind_eq_ok.mp h
    exact hbegin ht
  | string p text =>
    simp only [step, hmode] at h
    cases h
  | between | comment | float p text | name p text =>
    simp only [step, hmode] at h
    exact hbegin h

/-! ## Tokens are added behind those there are -/

/-- The tokens of `s'` start with those of `s`, and none of the others ends the text. -/
def Extends (s s' : Lexing) : Prop :=
  ∃ more, s'.tokens = s.tokens ++ more ∧ ∀ t ∈ more, t.isEnd = false

theorem Extends.trans {s₁ : Lexing} (h : s.Extends s₁) (h' : s₁.Extends s') : s.Extends s' := by
  obtain ⟨more, hmore, hends⟩ := h
  obtain ⟨more', hmore', hends'⟩ := h'
  refine ⟨more ++ more', by rw [hmore', hmore, Array.append_assoc], fun t ht => ?_⟩
  rcases Array.mem_append.mp ht with ht | ht
  · exact hends t ht
  · exact hends' t ht

theorem extends_of_eq (h : s'.tokens = s.tokens) : s.Extends s' :=
  ⟨#[], by rw [h, Array.append_empty], by simp⟩

theorem extends_emit (s : Lexing) {kind : TokenKind} (text : String) (p : Position)
    (hkind : kind ≠ .endOfCode) : s.Extends (s.emit kind text p) :=
  ⟨#[⟨kind, text, p⟩], rfl, by simpa [Token.isEnd] using hkind⟩

/-- What is known behind a step, or where it fails. -/
def behind : Except Failure Lexing → Lexing
  | .ok s => s
  | .error f => f.2

theorem extends_emitInteger (s : Lexing) (p : Position) (text : String) (isHex : Bool) :
    s.Extends (behind (s.emitInteger p text isHex)) := by
  unfold emitInteger
  dsimp only
  by_cases hdigits : (if isHex then 2 else 0) < (unsignedPart text).length
  · rw [if_pos hdigits]
    exact extends_emit s _ _ (by decide)
  · rw [if_neg hdigits]
    exact extends_of_eq rfl

theorem extends_begin (s : Lexing) (c : Char) : s.Extends (behind (s.begin c)) := by
  unfold begin
  repeat' split
  · exact extends_of_eq rfl
  · exact extends_of_eq rfl
  · exact extends_of_eq rfl
  · exact extends_of_eq rfl
  · exact extends_of_eq rfl
  · next hkind => exact extends_emit s _ _ (TokenKind.ne_endOfCode_of_ofChar hkind)
  · exact extends_of_eq rfl

theorem extends_step (s : Lexing) (c : Char) : s.Extends (behind (s.step c)) := by
  unfold step
  cases s.mode with
  | between => exact extends_begin s c
  | string p text =>
    dsimp only
    repeat' split
    · exact extends_emit s _ _ (by decide)
    · exact extends_of_eq rfl
    · exact extends_of_eq rfl
  | comment =>
    dsimp only
    split
    · have hbegin := extends_begin { s with mode := .between } c
      exact hbegin
    · exact extends_of_eq rfl
  | integer p text isHex =>
    have hemit := extends_emitInteger s p text isHex
    dsimp only
    repeat' split
    · exact extends_of_eq rfl
    · exact extends_of_eq rfl
    · exact extends_of_eq rfl
    · exact extends_of_eq rfl
    -- The character behind the integer can fail when the integer is complete.
    · next hok =>
      rw [hok] at hemit
      exact hemit.trans (extends_begin _ c)
    · next herror =>
      rw [herror] at hemit
      exact hemit
  | float p text =>
    dsimp only
    repeat' split
    · exact extends_of_eq rfl
    · exact extends_of_eq rfl
    · exact (extends_emit s _ _ (by decide)).trans (extends_begin _ c)
  | name p text =>
    dsimp only
    repeat' split
    · exact extends_of_eq rfl
    · exact extends_of_eq rfl
    · exact (extends_emit s _ _ (by decide)).trans (extends_begin _ c)

theorem extends_finish (s : Lexing) : s.Extends (behind s.finish) := by
  unfold finish
  split
  · exact extends_of_eq rfl
  · exact extends_of_eq rfl
  · exact extends_of_eq rfl
  · exact extends_emitInteger s _ _ _
  · exact extends_emit s _ _ (by decide)
  · exact extends_emit s _ _ (by decide)

/-- What is known behind a text, or where scanning it fails. -/
def stop : Except (Failure × List Char) Lexing → Lexing
  | .ok s => s
  | .error f => f.1.2

theorem extends_run (s : Lexing) (text : List Char) : s.Extends (stop (s.run text)) := by
  induction text generalizing s with
  | nil =>
    have hfinish := extends_finish s
    unfold run
    split
    · next hok => rwa [hok] at hfinish
    · next herror => rwa [herror] at hfinish
  | cons c rest ih =>
    have hstep := extends_step s c
    unfold run
    split
    · next hok =>
      rw [hok] at hstep
      exact hstep.trans (ih _)
    · next herror => rwa [herror] at hstep

theorem Extends.of_run {text : List Char} (h : s.run text = .ok s') : s.Extends s' := by
  simpa [h, stop] using extends_run s text

/-! ## Line by line -/

theorem run_nil_eq_ok (h : s.run [] = .ok s') : s.finish = .ok s' := by
  unfold run at h
  split at h
  · next hfinish =>
    cases h
    exact hfinish
  · cases h

theorem run_cons_eq_ok {c : Char} {rest : List Char} (h : s.run (c :: rest) = .ok s') :
    ∃ s₁, s.step c = .ok s₁ ∧ s₁.run rest = .ok s' := by
  unfold run at h
  split at h
  · next hstep => exact ⟨_, hstep, h⟩
  · cases h

/-- Between two tokens nothing is left to complete. -/
theorem finish_of_between (h : s.mode = .between) : s.finish = .ok s := by
  unfold finish
  rw [h]
  dsimp only
  rw [← h]

/-- What has been scanned up to the end of a line can be left behind. -/
theorem run_lines {text : List Char} (h : s.run (text ++ ['\n']) = .ok s') :
    s'.mode = .between ∧ EndsLine s'.tokens ∧
      ∀ rest, s.run (text ++ ['\n'] ++ rest) = s'.run rest := by
  induction text generalizing s with
  | nil =>
    obtain ⟨s₁, hstep, hend⟩ := run_cons_eq_ok h
    obtain ⟨hmode, hline⟩ := step_newline hstep
    obtain rfl : s₁ = s' :=
      Except.ok.inj ((finish_of_between hmode).symm.trans (run_nil_eq_ok hend))
    exact ⟨hmode, hline, fun rest => by simp [run, hstep]⟩
  | cons c text ih =>
    obtain ⟨s₁, hstep, hrest⟩ := run_cons_eq_ok h
    obtain ⟨hmode, hline, hgoes⟩ := ih hrest
    refine ⟨hmode, hline, fun rest => ?_⟩
    simpa [run, hstep] using hgoes rest

/-- What is wrong up to the end of a line stays wrong whatever comes behind it. -/
theorem run_lines_error {f : Failure} {text left : List Char}
    (h : s.run (text ++ ['\n']) = .error (f, left)) (rest : List Char) :
    s.run (text ++ ['\n'] ++ rest) = .error (f, left ++ rest) := by
  induction text generalizing s with
  | nil =>
    cases hstep : s.step '\n' with
    | ok s₁ =>
      have hfinish := finish_of_between (step_newline hstep).1
      simp [run, hstep, hfinish] at h
    | error f' =>
      obtain ⟨rfl, rfl⟩ : f' = f ∧ ['\n'] = left := by simpa [run, hstep] using h
      simp [run, hstep]
  | cons c text ih =>
    cases hstep : s.step c with
    | ok s₁ =>
      have hrest : s₁.run (text ++ ['\n']) = .error (f, left) := by simpa [run, hstep] using h
      simpa [run, hstep] using ih hrest
    | error f' =>
      obtain ⟨rfl, rfl⟩ : f' = f ∧ c :: (text ++ ['\n']) = left := by simpa [run, hstep] using h
      simp [run, hstep]

/-- What a scan gives of what is known behind its text. -/
def result : Except (Failure × List Char) Lexing → Except LexError (Array Token)
  | .ok r => .ok (r.tokens.push (.endOfCode r.position))
  | .error f => .error f.1.1

end Lexing

namespace Scanner

/-- Where a scan goes on. -/
def lexing (s : Scanner) : Lexing := ⟨.between, s.position, withoutEnd s.tokens⟩

theorem scan_fst (s : Scanner) : s.scan.1 = Lexing.result (s.lexing.run s.pending) := by
  unfold scan lexing
  split
  · next hrun =>
    rw [hrun]
    rfl
  · next hrun =>
    rw [hrun]
    rfl

/-- What a scan that succeeds gives. -/
theorem scan_eq_ok {s s' : Scanner} {tokens : Array Token} (h : s.scan = (.ok tokens, s')) :
    ∃ r, s.lexing.run s.pending = .ok r ∧ tokens = r.tokens.push (.endOfCode r.position) ∧
      s'.pos = s'.source.length ∧ s'.position = r.position ∧ s'.tokens = tokens := by
  unfold scan at h
  split at h
  · next r hrun =>
    cases h
    exact ⟨r, hrun, rfl, rfl, rfl, rfl⟩
  · cases h

/-- The scanner has taken the whole of a text that ends between two tokens, and `r` is what is known
behind it. -/
structure Behind (s : Scanner) (text : List Char) (r : Lexing) : Prop where
  pos : s.pos = s.source.length
  position : s.position = r.position
  tokens : withoutEnd s.tokens = r.tokens
  mode : r.mode = .between
  run : ∀ rest, Lexing.start.run (text ++ rest) = r.run rest

theorem behind_empty : empty.Behind [] .start := ⟨rfl, rfl, rfl, rfl, fun _ => rfl⟩

theorem pending_push {s : Scanner} (h : s.pos = s.source.length) (chunk : String) :
    (s.push chunk).pending = chunk.toList := by
  simp [push, pending, h]

theorem tokenize_eq_result (text : String) :
    tokenize text = Lexing.result (Lexing.start.run text.toList) := by
  rw [tokenize, scan_fst, pending_push rfl]
  rfl

namespace Behind

variable {s s' : Scanner} {text : List Char} {r : Lexing} {chunk : String} {tokens : Array Token}

theorem lexing (h : s.Behind text r) : s.lexing = r := by
  rw [Scanner.lexing, h.position, h.tokens, ← h.mode]

/-- A scan of more text gives what one of the whole text gives. -/
theorem tokenize (h : s.Behind text r) (chunk : String) :
    tokenize (String.ofList text ++ chunk) = (s.push chunk).scan.1 := by
  have hlexing : (s.push chunk).lexing = r := h.lexing
  rw [tokenize_eq_result, scan_fst, hlexing, pending_push h.pos, ← h.run]
  simp

/-- More text is scanned from where the text in front of it ends. -/
theorem scan (h : s.Behind text r) (hscan : (s.push chunk).scan = (.ok tokens, s')) :
    ∃ r', r.run chunk.toList = .ok r' ∧ tokens = r'.tokens.push (.endOfCode r'.position) ∧
      s'.pos = s'.source.length ∧ s'.position = r'.position ∧ withoutEnd s'.tokens = r'.tokens := by
  obtain ⟨r', hrun, rfl, hpos, hposition, htokens⟩ := scan_eq_ok hscan
  have hlexing : (s.push chunk).lexing = r := h.lexing
  rw [hlexing, pending_push h.pos] at hrun
  exact ⟨r', hrun, rfl, hpos, hposition, by rw [htokens, withoutEnd_push]⟩

/-- Behind whole lines the scanner is ready for more. -/
theorem lines (h : s.Behind text r) (hscan : (s.push chunk).scan = (.ok tokens, s'))
    (hline : chunk.toList.getLast? = some '\n') :
    ∃ r', s'.Behind (text ++ chunk.toList) r' ∧ r.Extends r' ∧ EndsLine r'.tokens ∧
      tokens = r'.tokens.push (.endOfCode r'.position) := by
  obtain ⟨r', hrun, rfl, hpos, hposition, htokens⟩ := h.scan hscan
  obtain ⟨front, hfront⟩ := List.getLast?_eq_some_iff.mp hline
  rw [hfront] at hrun ⊢
  obtain ⟨hmode, hends, hgoes⟩ := Lexing.run_lines hrun
  refine ⟨r', ⟨hpos, hposition, htokens, hmode, fun rest => ?_⟩, .of_run hrun, hends, rfl⟩
  rw [List.append_assoc, h.run, hgoes]

/-- What is wrong with whole lines is wrong with every text that starts with them. -/
theorem tokenize_of_error (h : s.Behind text r) {e : LexError}
    (hscan : (s.push chunk).scan.1 = .error e) (hline : chunk.toList.getLast? = some '\n')
    (rest : String) : CellMachine.tokenize (String.ofList text ++ chunk ++ rest) = .error e := by
  have hlexing : (s.push chunk).lexing = r := h.lexing
  rw [scan_fst, hlexing, pending_push h.pos] at hscan
  cases hrun : r.run chunk.toList with
  | ok r' =>
    rw [hrun] at hscan
    cases hscan
  | error f =>
    rw [hrun] at hscan
    obtain ⟨front, hfront⟩ := List.getLast?_eq_some_iff.mp hline
    rw [hfront] at hrun
    have hwhole : Lexing.start.run (text ++ (front ++ ['\n'] ++ rest.toList)) =
        .error (f.1, f.2 ++ rest.toList) := by rw [h.run, Lexing.run_lines_error hrun]
    have htext : (String.ofList text ++ chunk ++ rest).toList =
        text ++ (front ++ ['\n'] ++ rest.toList) := by simp [hfront]
    rw [tokenize_eq_result, htext, hwhole]
    exact hscan

end Behind

/-! ## Any number of pieces -/

/-- What the scans give when texts arrive one after the other. -/
def scanEach (s : Scanner) : List String → List (Except LexError (Array Token))
  | [] => []
  | chunk :: rest => (s.push chunk).scan.1 :: (s.push chunk).scan.2.scanEach rest

theorem scanEach_cons_of_ok {s s' : Scanner} {chunk : String} {tokens : Array Token}
    (h : (s.push chunk).scan = (.ok tokens, s')) (rest : List String) :
    s.scanEach (chunk :: rest) = .ok tokens :: s'.scanEach rest := by
  rw [scanEach, h]

variable {s : Scanner} {text : List Char} {r : Lexing} {chunks : List String}

/-- As long as no scan fails, each one gives what a scan of all the text so far gives. -/
theorem Behind.getElem_scanEach (h : s.Behind text r)
    (hlines : ∀ chunk ∈ chunks.dropLast, chunk.toList.getLast? = some '\n') {k : Nat}
    (hk : k < chunks.length) (hok : ∀ x ∈ (s.scanEach chunks).take k, x.isOk = true) :
    (s.scanEach chunks)[k]? =
      some (CellMachine.tokenize (String.ofList text ++ String.join (chunks.take (k + 1)))) := by
  induction chunks generalizing s text r k with
  | nil => exact absurd hk (Nat.not_lt_zero k)
  | cons chunk rest ih =>
    cases k with
    | zero => simp [scanEach, h.tokenize]
    | succ k =>
      have hk' : k < rest.length := by simpa using hk
      have hrest : rest ≠ [] := List.ne_nil_of_length_pos (by omega)
      rw [List.dropLast_cons_of_ne_nil hrest] at hlines
      cases hscan : (s.push chunk).scan with
      | mk x s' =>
        cases x with
        | error e => simp [scanEach, hscan, Except.isOk, Except.toBool] at hok
        | ok tokens =>
          obtain ⟨r', h', -⟩ := h.lines hscan (hlines chunk (List.mem_cons_self ..))
          rw [scanEach_cons_of_ok hscan] at hok ⊢
          have hnext := ih h' (fun c hc => hlines c (List.mem_cons_of_mem _ hc)) hk'
            fun x hx => hok x (by simp [hx])
          simpa [String.append_assoc] using hnext

/-- What is wrong with the whole text is what the first scan that fails finds. -/
theorem Behind.tokenize_eq_error_iff (h : s.Behind text r)
    (hlines : ∀ chunk ∈ chunks.dropLast, chunk.toList.getLast? = some '\n') (e : LexError) :
    CellMachine.tokenize (String.ofList text ++ String.join chunks) = .error e ↔
      (s.scanEach chunks).find? (fun x => !x.isOk) = some (.error e) := by
  induction chunks generalizing s text r with
  | nil =>
    have hend : r.run [] = .ok r := by simp [Lexing.run, Lexing.finish_of_between h.mode]
    have hwhole := h.run []
    rw [hend, List.append_nil] at hwhole
    simp [tokenize_eq_result, hwhole, Lexing.result, scanEach]
  | cons chunk rest ih =>
    cases hscan : (s.push chunk).scan with
    | mk x s' =>
      have hfirst : (s.push chunk).scan.1 = x := by rw [hscan]
      cases hrest : rest with
      | nil =>
        have hwhole := h.tokenize chunk
        rw [hfirst] at hwhole
        cases x with
        | error e' => simp [scanEach, hscan, hwhole, Except.isOk, Except.toBool]
        | ok tokens => simp [scanEach, hscan, hwhole, Except.isOk, Except.toBool]
      | cons next more =>
        rw [hrest, List.dropLast_cons_cons] at hlines
        have hline := hlines chunk (List.mem_cons_self ..)
        cases x with
        | error e' =>
          have hwhole := h.tokenize_of_error hfirst hline (String.join (next :: more))
          rw [String.append_assoc, ← String.join_cons] at hwhole
          rw [hwhole]
          simp [scanEach, hscan, Except.isOk, Except.toBool]
        | ok tokens =>
          obtain ⟨r', h', -⟩ := h.lines hscan hline
          rw [hrest] at ih
          have hnext := ih h' fun c hc => hlines c (List.mem_cons_of_mem _ hc)
          rw [scanEach_cons_of_ok hscan,
            List.find?_cons_of_neg (by simp [Except.isOk, Except.toBool])]
          simpa [String.append_assoc] using hnext

/-- The tokens of a text end with the one token for its end. -/
theorem tokenize_ends {text : String} {tokens : Array Token} (h : tokenize text = .ok tokens) :
    ∃ (front : Array Token) (p : Position), tokens = front.push (.endOfCode p) ∧
      ∀ t ∈ front, t.isEnd = false := by
  rw [tokenize_eq_result] at h
  cases hrun : Lexing.start.run text.toList with
  | error f =>
    rw [hrun] at h
    cases h
  | ok r =>
    rw [hrun] at h
    cases h
    obtain ⟨more, hmore, hends⟩ := Lexing.Extends.of_run hrun
    have hfront : r.tokens = more := by simpa [Lexing.start] using hmore
    exact ⟨r.tokens, r.position, rfl, hfront ▸ hends⟩

/-- Pieces of text, each but the last one of whole lines, are scanned one after the other as the
text is at once : as long as no scan fails, each gives what a scan of all the text so far gives,
tokens that end with the one token for the end of the text, and something is wrong with the whole
text if and only if the first scan that fails finds the same. -/
theorem scanEach_eq_tokenize
    (hlines : ∀ chunk ∈ chunks.dropLast, chunk.toList.getLast? = some '\n') :
    (∀ k < chunks.length, (∀ x ∈ (empty.scanEach chunks).take k, x.isOk = true) →
      (empty.scanEach chunks)[k]? = some (tokenize (String.join (chunks.take (k + 1)))) ∧
        ∀ tokens, (empty.scanEach chunks)[k]? = some (.ok tokens) →
          ∃ (front : Array Token) (p : Position), tokens = front.push (.endOfCode p) ∧
            ∀ t ∈ front, t.isEnd = false) ∧
      ∀ e, tokenize (String.join chunks) = .error e ↔
        (empty.scanEach chunks).find? (fun x => !x.isOk) = some (.error e) := by
  refine ⟨fun k hk hok => ?_, fun e => ?_⟩
  · have hsame := behind_empty.getElem_scanEach hlines hk hok
    simp only [String.ofList_nil, String.empty_append] at hsame
    exact ⟨hsame, fun tokens htokens =>
      tokenize_ends (Option.some.inj (hsame.symm.trans htokens))⟩
  · simpa using behind_empty.tokenize_eq_error_iff hlines e

/-- A comment that ends with its line, a quote that does not, and text behind it. -/
def brokenLines : List String := ["a 1 / b\n", "c\n \"s\n", "\"d"]

theorem scanEach_eq_tokenize_brokenLines :
    (∀ chunk ∈ brokenLines.dropLast, chunk.toList.getLast? = some '\n') ∧
      (empty.scanEach brokenLines)[0]? = some (tokenize "a 1 / b\n") ∧
      (empty.scanEach brokenLines)[1]? = some (.error ⟨.unterminatedString, ⟨3, 2⟩⟩) ∧
      tokenize (String.join brokenLines) = .error ⟨.unterminatedString, ⟨3, 2⟩⟩ := by
  have hlines : ∀ chunk ∈ brokenLines.dropLast, chunk.toList.getLast? = some '\n' := by decide
  obtain ⟨hsame, herror⟩ := scanEach_eq_tokenize hlines
  have hfirst := (hsame 0 (by decide) (by simp)).1
  exact ⟨hlines, hfirst, rfl, (herror _).mpr rfl⟩

end Scanner

end CellMachine
