import CellMachine.Proofs.Token.Chunks

/-!
# The layout of a text

Scanning loses nothing. A text is the spellings of its tokens one behind the other, with gaps
between them, in front of the first and behind the last (`LaidOut`), and a gap is made of blanks and
comments (`IsGap`). A token starts at the place behind the text in front of it, which the ends of
lines there decide (`Position.behind`). `Lexing.accounts_run` says so from any character on, for
what has begun there (`Mode.Begun`), and `tokenize_laidOut` of a whole text.
-/

namespace CellMachine

/-! ## Places -/

/-- The place behind a text : a line for each end of a line in it, and a column for each character
behind the last of these. -/
def Position.behind (front : List Char) : Position :=
  ⟨front.count '\n' + 1, (front.reverse.takeWhile (· != '\n')).length + 1⟩

theorem Position.behind_concat (front : List Char) (c : Char) :
    Position.behind (front ++ [c]) = (Position.behind front).advance c := by
  by_cases hc : c = '\n'
  · simp [behind, advance, hc]
  · simp [behind, advance, hc, List.count_append]

/-! ## Gaps and tokens -/

/-- The characters of a token as they stand in the text. A string stands between quotes. -/
def Token.chars (t : Token) : List Char :=
  if t.kind = .string then '"' :: t.text.toList ++ ['"'] else t.text.toList

/-- What may stand between two tokens : blanks, and comments that reach up to the end of the line or
of the text. `rest` is the text behind the gap. -/
inductive IsGap (rest : List Char) : List Char → Prop where
  | nil : IsGap rest []
  | blank {c : Char} {gap : List Char} :
    c = ' ' ∨ c = '\t' ∨ c = '\r' → IsGap rest gap → IsGap rest (c :: gap)
  | comment {body gap : List Char} :
    '\n' ∉ body → (∀ c ∈ (gap ++ rest).head?, c = '\n') → IsGap rest gap →
      IsGap rest ('/' :: body ++ gap)

/-- The text behind `front` is made of these tokens, with gaps around them, and each token starts
where its first character stands. -/
inductive LaidOut : List Char → List Token → List Char → Prop where
  | last {front gap : List Char} : IsGap [] gap → LaidOut front [] gap
  | token {front gap rest : List Char} {t : Token} {ts : List Token} :
    IsGap (t.chars ++ rest) gap → t.position = .behind (front ++ gap) →
      LaidOut (front ++ gap ++ t.chars) ts rest → LaidOut front (t :: ts) (gap ++ t.chars ++ rest)

namespace LaidOut

variable {front rest : List Char} {ts : List Token}

/-- What can be put in front of every gap there can be put in front of the text. -/
theorem prepend {g : List Char}
    (hg : ∀ gap behind, gap ++ behind = rest → IsGap behind gap → IsGap behind (g ++ gap))
    (h : LaidOut (front ++ g) ts rest) : LaidOut front ts (g ++ rest) := by
  cases h with
  | last hgap => exact .last (hg _ [] (List.append_nil _) hgap)
  | @token _ gap rest t ts hgap hstart hrest =>
    have hgap' := hg gap (t.chars ++ rest) (List.append_assoc ..).symm hgap
    rw [List.append_assoc front] at hstart hrest
    simpa only [List.append_assoc] using token hgap' hstart hrest

theorem blank {c : Char} (hc : c = ' ' ∨ c = '\t' ∨ c = '\r') (h : LaidOut (front ++ [c]) ts rest) :
    LaidOut front ts (c :: rest) :=
  prepend (fun _ _ _ hgap => .blank hc hgap) h

theorem comment {body : List Char} (hbody : '\n' ∉ body) (hrest : ∀ c ∈ rest.head?, c = '\n')
    (h : LaidOut (front ++ '/' :: body) ts rest) : LaidOut front ts ('/' :: body ++ rest) := by
  refine prepend (fun gap behind hsplit hgap => ?_) h
  subst hsplit
  exact .comment hbody hrest hgap

theorem push {t : Token} (hstart : t.position = .behind front)
    (h : LaidOut (front ++ t.chars) ts rest) : LaidOut front (t :: ts) (t.chars ++ rest) := by
  rw [← List.append_nil front] at hstart h
  exact token .nil hstart h

end LaidOut

/-! ## What has begun -/

/-- What has begun at `p`, with its characters so far. -/
inductive Mode.Begun (p : Position) : Mode → List Char → Prop where
  | between : Begun p .between []
  | string (text : String) : Begun p (.string p text) ('"' :: text.toList)
  | comment {body : List Char} : '\n' ∉ body → Begun p .comment ('/' :: body)
  | integer (text : String) (isHex : Bool) : Begun p (.integer p text isHex) text.toList
  | float (text : String) : Begun p (.float p text) text.toList
  | name (text : String) : Begun p (.name p text) text.toList

theorem Token.chars_of_ofChar {c : Char} {kind : TokenKind} (h : TokenKind.ofChar? c = some kind)
    (p : Position) : Token.chars ⟨kind, c.toString, p⟩ = [c] := by
  have hkind : kind ≠ .string := by
    rintro rfl
    unfold TokenKind.ofChar? at h
    repeat' split at h
    all_goals cases h
  rw [chars, if_neg hkind]
  exact String.toList_singleton c

theorem Token.chars_of_ne {kind : TokenKind} (h : kind ≠ .string) (text : String) (p : Position) :
    Token.chars ⟨kind, text, p⟩ = text.toList :=
  if_neg h

namespace Lexing

variable {s s' u : Lexing} {c : Char} {front cs rest : List Char} {p : Position}

/-- What has begun at `p`, with the characters `cs`, is complete in front of a character or of the
end : it was nothing, a comment or a token, and only a token is added. -/
inductive Completes (s : Lexing) (p : Position) (next : Option Char) : List Char → Lexing → Prop where
  | nothing : Completes s p next [] { s with mode := .between }
  | comment {body : List Char} : '\n' ∉ body → (∀ c ∈ next, c = '\n') →
    Completes s p next ('/' :: body) { s with mode := .between }
  | token {t : Token} : t.position = p →
    Completes s p next t.chars { s with mode := .between, tokens := s.tokens.push t }

theorem completes_emit {kind : TokenKind} (h : kind ≠ .string) (text : String)
    (next : Option Char) : s.Completes p next text.toList (s.emit kind text p) := by
  rw [← Token.chars_of_ne h text p]
  exact .token rfl

theorem completes_emitInteger {text : String} {isHex : Bool} (next : Option Char)
    (h : s.emitInteger p text isHex = .ok s') : s.Completes p next text.toList s' := by
  simp only [emitInteger] at h
  by_cases hdigits : (if isHex then 2 else 0) < (unsignedPart text).length
  · rw [if_pos hdigits] at h
    cases h
    exact completes_emit (by decide) text next
  · rw [if_neg hdigits] at h
    cases h

/-- At the end of a text what has begun is complete. -/
theorem completes_finish (hbegun : s.mode.Begun p cs) (h : s.finish = .ok s') :
    s.Completes p none cs s' := by
  unfold finish at h
  generalize hmode : s.mode = mode at hbegun h
  cases hbegun with
  | between =>
    cases h
    exact .nothing
  | string text => cases h
  | comment hbody =>
    cases h
    exact .comment hbody (by simp)
  | integer text isHex => exact completes_emitInteger none h
  | float text | name text =>
    cases h
    exact completes_emit (by decide) text none

/-- A character between two tokens is a blank, starts something, or is a token of its own. -/
theorem begin_eq_ok (h : s.begin c = .ok s') :
    ((c = ' ' ∨ c = '\t' ∨ c = '\r') ∧ s' = s.advance c .between) ∨
      (∃ mode, mode.Begun s.position [c] ∧ s' = s.advance c mode) ∨
      ∃ t : Token, t.position = s.position ∧ t.chars = [c] ∧
        s' = ⟨.between, s.position.advance c, s.tokens.push t⟩ := by
  unfold begin at h
  repeat' split at h
  all_goals cases h
  · next hc => exact Or.inl ⟨by simpa [or_assoc] using hc, rfl⟩
  · next hc =>
    obtain rfl : c = '"' := by simpa using hc
    exact Or.inr (Or.inl ⟨_, .string "", rfl⟩)
  · next hc =>
    obtain rfl : c = '/' := by simpa using hc
    exact Or.inr (Or.inl ⟨_, .comment List.not_mem_nil, rfl⟩)
  · exact Or.inr (Or.inl ⟨_, by simpa using Mode.Begun.integer c.toString false, rfl⟩)
  · exact Or.inr (Or.inl ⟨_, by simpa using Mode.Begun.name c.toString, rfl⟩)
  · next hkind => exact Or.inr (Or.inr ⟨_, rfl, Token.chars_of_ofChar hkind _, rfl⟩)

/-- What has begun goes on with a character, is a token that ends with it, or is complete in front
of it. -/
theorem step_eq_ok (hbegun : s.mode.Begun p cs) (h : s.step c = .ok s') :
    (∃ mode, mode.Begun p (cs ++ [c]) ∧ s' = s.advance c mode) ∨
      (∃ t : Token, t.position = p ∧ t.chars = cs ++ [c] ∧
        s' = ⟨.between, s.position.advance c, s.tokens.push t⟩) ∨
      ∃ u, s.Completes p (some c) cs u ∧ u.begin c = .ok s' := by
  unfold step at h
  generalize hmode : s.mode = mode at hbegun h
  cases hbegun with
  | between =>
    refine Or.inr (Or.inr ⟨_, .nothing, ?_⟩)
    rw [← hmode]
    exact h
  | string text =>
    dsimp only at h
    repeat' split at h
    all_goals cases h
    · next hc =>
      obtain rfl : c = '"' := by simpa using hc
      exact Or.inr (Or.inl ⟨⟨.string, text, p⟩, rfl, by simp [Token.chars], rfl⟩)
    · exact Or.inl ⟨_, by simpa using Mode.Begun.string (text.push c), rfl⟩
  | comment hbody =>
    dsimp only at h
    split at h
    · next hc => exact Or.inr (Or.inr ⟨_, .comment hbody (by simpa using hc), h⟩)
    · next hc =>
      cases h
      refine Or.inl ⟨_, .comment ?_, rfl⟩
      simpa [hbody] using Ne.symm (by simpa using hc)
  | integer text isHex =>
    dsimp only at h
    repeat' split at h
    · cases h
      exact Or.inl ⟨_, by simpa using Mode.Begun.integer (text.push c) isHex, rfl⟩
    · cases h
      exact Or.inl ⟨_, by simpa using Mode.Begun.integer (text.push c) true, rfl⟩
    · cases h
      exact Or.inl ⟨_, by simpa using Mode.Begun.float (text.push c), rfl⟩
    · cases h
    · next hemit => exact Or.inr (Or.inr ⟨_, completes_emitInteger _ hemit, h⟩)
    · cases h
  | float text =>
    dsimp only at h
    repeat' split at h
    · cases h
      exact Or.inl ⟨_, by simpa using Mode.Begun.float (text.push c), rfl⟩
    · cases h
    · exact Or.inr (Or.inr ⟨_, completes_emit (by decide) text _, h⟩)
  | name text =>
    dsimp only at h
    repeat' split at h
    · cases h
      exact Or.inl ⟨_, by simpa using Mode.Begun.name (text.push c), rfl⟩
    · cases h
    · exact Or.inr (Or.inr ⟨_, completes_emit (by decide) text _, h⟩)

/-! ## A whole text -/

/-- The tokens that `s'` has behind those of `s` are laid out in `text`, which stands behind
`front`, and `s'` is at the end of it. -/
def Accounts (s s' : Lexing) (front text : List Char) : Prop :=
  ∃ ts : List Token, s'.tokens = s.tokens ++ ts.toArray ∧ LaidOut front ts text ∧
    s'.position = .behind (front ++ text)

theorem Accounts.of_push {t : Token} (hstart : t.position = .behind front)
    (htokens : u.tokens = s.tokens.push t) (h : u.Accounts s' (front ++ t.chars) rest) :
    s.Accounts s' front (t.chars ++ rest) := by
  obtain ⟨ts, hts, hlaid, hplace⟩ := h
  exact ⟨t :: ts, by simp [hts, htokens], hlaid.push hstart, by simpa using hplace⟩

theorem Completes.accounts (hc : s.Completes (.behind front) rest.head? cs u)
    (h : u.Accounts s' (front ++ cs) rest) : s.Accounts s' front (cs ++ rest) := by
  cases hc with
  | nothing => simpa [Accounts] using h
  | comment hbody hnext =>
    obtain ⟨ts, hts, hlaid, hplace⟩ := h
    exact ⟨ts, hts, hlaid.comment hbody hnext, by simpa using hplace⟩
  | token hstart => exact h.of_push hstart rfl

/-- From wherever something has begun, the rest of a text is laid out in tokens. -/
theorem accounts_run (hbegun : s.mode.Begun (.behind front) cs)
    (hplace : s.position = .behind (front ++ cs)) (h : s.run rest = .ok s') :
    s.Accounts s' front (cs ++ rest) := by
  induction rest generalizing s front cs with
  | nil =>
    have hdone := completes_finish hbegun (run_nil_eq_ok h)
    have hposition : s'.position = s.position := by cases hdone <;> rfl
    have hend : s'.Accounts s' (front ++ cs) [] :=
      ⟨[], by simp, .last .nil, by rw [hposition, hplace, List.append_nil]⟩
    exact hdone.accounts hend
  | cons c rest ih =>
    obtain ⟨s₁, hstep, hrun⟩ := run_cons_eq_ok h
    have hbetween {p : Position} {tokens : Array Token} {front : List Char}
        (hp : p = .behind front) (hrun : run ⟨.between, p, tokens⟩ rest = .ok s') :
        Accounts ⟨.between, p, tokens⟩ s' front rest :=
      ih .between (by rw [List.append_nil, hp]) hrun
    -- A character between two tokens, wherever it stands.
    have hbegin {u : Lexing} {front : List Char} (hu : u.position = .behind front)
        (hok : u.begin c = .ok s₁) : u.Accounts s' front ([c] ++ rest) := by
      have hnext : u.position.advance c = .behind (front ++ [c]) := by
        rw [hu, Position.behind_concat]
      rcases begin_eq_ok hok with ⟨hblank, rfl⟩ | ⟨mode, hmode, rfl⟩ | ⟨t, hstart, hchars, rfl⟩
      · obtain ⟨ts, hts, hlaid, hend⟩ := hbetween hnext hrun
        exact ⟨ts, hts, hlaid.blank hblank, by simpa using hend⟩
      · rw [hu] at hmode
        exact ih (s := u.advance c mode) hmode hnext hrun
      · rw [← hchars] at hnext ⊢
        exact (hbetween hnext hrun).of_push (hstart.trans hu) rfl
    have hnext : s.position.advance c = .behind (front ++ (cs ++ [c])) := by
      rw [hplace, ← List.append_assoc, Position.behind_concat]
    rcases step_eq_ok hbegun hstep with ⟨mode, hmode, rfl⟩ | ⟨t, hstart, hchars, rfl⟩ | ⟨u, hdone, hok⟩
    · rw [List.append_cons]
      exact ih (s := s.advance c mode) hmode hnext hrun
    · rw [← hchars] at hnext
      simpa [hchars] using (hbetween hnext hrun).of_push hstart rfl
    · have hposition : u.position = s.position := by cases hdone <;> rfl
      exact hdone.accounts (hbegin (hposition.trans hplace) hok)

end Lexing

/-- Scanning loses nothing. A text that can be scanned is its tokens, spelled out and with gaps
around them, each at its place, and the one token for the end of the text stands at its end. -/
theorem tokenize_laidOut {text : String} {tokens : Array Token} (h : tokenize text = .ok tokens) :
    ∃ ts, tokens = (ts ++ [.endOfCode (.behind text.toList)]).toArray ∧
      (∀ t ∈ ts, t.isEnd = false) ∧ LaidOut [] ts text.toList := by
  rw [Scanner.tokenize_eq_result] at h
  cases hrun : Lexing.start.run text.toList with
  | error f =>
    rw [hrun] at h
    cases h
  | ok r =>
    rw [hrun] at h
    cases h
    have haccounts : Lexing.start.Accounts r [] ([] ++ text.toList) :=
      Lexing.accounts_run .between rfl hrun
    obtain ⟨ts, hts, hlaid, hplace⟩ := haccounts
    obtain ⟨more, hmore, hends⟩ := Lexing.Extends.of_run hrun
    refine ⟨ts, ?_, fun t ht => hends t ?_, hlaid⟩
    · rw [hts, hplace]
      simp [Lexing.start]
    · have hsame : more = ts.toArray := by simpa [Lexing.start] using hmore.symm.trans hts
      simpa [hsame] using ht

/-- A comment with a quote in it, a string with a slash in it, and blanks in front of a line. -/
def commentedText : String := "u8 /a \"\n \"/b\" : -0x1f\r//c"

def commentedTokens : List Token :=
  [⟨.name, "u8", ⟨1, 1⟩⟩, ⟨.newline, "\n", ⟨1, 8⟩⟩, ⟨.string, "/b", ⟨2, 2⟩⟩, ⟨.colon, ":", ⟨2, 7⟩⟩,
    ⟨.integer, "-0x1f", ⟨2, 9⟩⟩]

theorem tokenize_laidOut_commented : LaidOut [] commentedTokens commentedText.toList := by
  have hscan : tokenize commentedText =
      .ok (commentedTokens ++ [Token.endOfCode ⟨2, 18⟩]).toArray := by cbv
  obtain ⟨ts, htokens, -, hlaid⟩ := tokenize_laidOut hscan
  rwa [List.append_inj_left' (congrArg Array.toList htokens) rfl]

end CellMachine
