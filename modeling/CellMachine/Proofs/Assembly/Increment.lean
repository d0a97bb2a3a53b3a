import CellMachine.Proofs.Assembly.Abreast
import CellMachine.Proofs.Assembly.Statements

/-!
# Source that arrives in pieces

A feed succeeds if and only if its statements can be taken one by one up to the end of the tokens
(`Assembler.feed_eq_ok_iff`). If the tokens end with a line, a run up to there and a run through
what comes behind it make one run (`Assembler.Completes.append`), because none of the statements has
seen the end of the tokens. So a source that arrives in pieces of whole lines makes the same module
as when it is there at once (`Session.finish_eq_assemble`).
-/

namespace CellMachine

namespace Assembler

/-! ## Runs up to the end of the tokens -/

/-- All statements up to the end of the tokens succeed, and `s'` is behind them. -/
inductive Completes : Assembler → Assembler → Prop
  | done {s : Assembler} : s.onLine.cursor.atEnd = true → Completes s s.onLine
  | take {s s₁ s' : Assembler} : s.Takes s₁ → Completes s₁ s' → Completes s s'

theorem Takes.unique {s s₁ s₂ : Assembler} (h₁ : s.Takes s₁) (h₂ : s.Takes s₂) : s₁ = s₂ := by
  obtain ⟨t₁, -, ht₁, rfl⟩ := h₁
  obtain ⟨t₂, -, ht₂, rfl⟩ := h₂
  cases ht₁.symm.trans ht₂
  rfl

theorem Takes.of_onLine_eq {s t s₁ : Assembler} (h : s.Takes s₁) (hline : t.onLine = s.onLine) :
    t.Takes s₁ := by
  obtain ⟨u, hend, hu, rfl⟩ := h
  exact ⟨u, by rwa [hline], by rwa [hline], rfl⟩

/-- A run starts behind the empty lines. -/
theorem Completes.of_onLine_eq {s t s' : Assembler} (h : s.Completes s')
    (hline : t.onLine = s.onLine) : t.Completes s' := by
  cases h with
  | done hend =>
    rw [← hline] at hend ⊢
    exact .done hend
  | take htakes hrest => exact .take (htakes.of_onLine_eq hline) hrest

/-- The bound on the number of statements is never met, since each takes a token. -/
theorem statements_eq_ok_iff {n : Nat} {s s' : Assembler} (hs : s.Settled)
    (hn : s.cursor.remaining < n) :
    Asm.statements (Asm.expansion maxDepth) n s = .ok () s' ↔ s.Completes s' := by
  have hwalk := (hs.consistent.walk (P := fun _ => True)
    (Q := fun s r => s.Settled → (r = .ok () s' ↔ s.Completes s')) (fun _ _ _ => trivial)
    (fun _ _ _ _ _ => trivial) ?_ ?_ ?_).2 n hn hs
  · rwa [onward, hs.depth] at hwalk
  · intro s hend _
    constructor
    · rintro ⟨⟩
      exact .done hend
    · rintro (_ | ⟨⟨-, hnot, -⟩, -⟩)
      · rfl
      · simp [hend] at hnot
  · intro s t r _ hpass _ ih hs
    have htakes := hs.takes_iff.mpr hpass
    refine (ih (htakes.settled hs)).trans ⟨.take htakes, ?_⟩
    rintro (hdone | ⟨htakes', hrest⟩)
    · simp [hpass.1] at hdone
    · rwa [htakes.unique htakes']
  · intro s e t _ hend herror _ hs
    constructor
    · rintro ⟨⟩
    · rintro (hdone | ⟨htakes, -⟩)
      · simp [hend] at hdone
      · exact absurd (hs.takes_iff.mp htakes) (not_passes_of_error herror _)

theorem feed_eq_ok_iff {s s' : Assembler} {tokens : Array Token} (hs : s.Settled) :
    s.feed tokens = (.ok (), s') ↔ (s.fedWith tokens).Completes s' := by
  rw [feed_eq, ← statements_eq_ok_iff (hs.fedWith tokens) (Nat.lt_succ_self _)]
  cases Asm.statements (Asm.expansion maxDepth) ((s.fedWith tokens).cursor.remaining + 1)
      (s.fedWith tokens) with
  | ok _ s₁ => simp
  | error e s₁ => simp

/-! ## Two feeds in a row -/

/-- Lines up to the end of the last one. Behind it the first list ends and the second goes on. -/
def wholeLines (lines : Array Token) (p stop : Position) (more : Array Token) : Passage where
  shared := lines
  ending := #[⟨.newline, "\n", p⟩, .endOfCode stop]
  front := #[]
  behind := #[⟨.newline, "\n", p⟩] ++ more
  ending_pos := Nat.two_pos
  ends t ht := by
    have hcases : t = ⟨.newline, "\n", p⟩ ∨ t = .endOfCode stop := by simpa using ht
    rcases hcases with rfl | rfl
    · exact ⟨rfl, show "\n" ≠ "end" by decide⟩
    · exact ⟨rfl, show "" ≠ "end" by decide⟩
  ends' := ⟨⟨.newline, "\n", p⟩, by simp, rfl⟩

/-- Two assemblers that differ in nothing but their cursors, which stand at one place but for empty
lines. -/
def Aligned (w : Passage) (s s' : Assembler) : Prop :=
  ∃ c', s.cursor.Aligned w c' ∧ s' = s.movedTo c'

variable {w : Passage} {lines more : Array Token} {p stop : Position} {s s' s₁ : Assembler}

theorem first_wholeLines (lines : Array Token) (p stop : Position) (more : Array Token) :
    (wholeLines lines p stop more).first =
      (lines.push ⟨.newline, "\n", p⟩).push (.endOfCode stop) := by
  apply Array.toList_inj.mp
  simp [Passage.first, wholeLines]

theorem second_wholeLines (lines : Array Token) (p stop : Position) (more : Array Token) :
    (wholeLines lines p stop more).second = lines.push ⟨.newline, "\n", p⟩ ++ more := by
  simp [Passage.second, wholeLines]

/-- The end of the last line is passed as an empty line. -/
theorem skipNewlines_of_getElem? {tokens : Array Token} {i : Nat}
    (h : tokens[i]? = some ⟨.newline, "\n", p⟩) :
    (⟨tokens, i⟩ : Cursor).skipNewlines = (⟨tokens, i + 1⟩ : Cursor).skipNewlines := by
  have hcurrent : (⟨tokens, i⟩ : Cursor).current.kind = .newline := by
    simp [Cursor.current, Cursor.tokenAt, h]
  have hsize := (Array.getElem?_eq_some_iff.mp h).1
  rw [Cursor.skipNewlines_of_eq hcurrent]
  simp [Cursor.next, hsize]

theorem skipNewlines_first (lines : Array Token) (p stop : Position) (more : Array Token) :
    (⟨(wholeLines lines p stop more).first, lines.size⟩ : Cursor).skipNewlines =
      ⟨(wholeLines lines p stop more).first, lines.size + 1⟩ := by
  have hline : ((lines.push ⟨.newline, "\n", p⟩).push (.endOfCode stop))[lines.size]? =
      some ⟨.newline, "\n", p⟩ := by simp [Array.getElem_push]
  rw [first_wholeLines, skipNewlines_of_getElem? hline]
  refine Cursor.skipNewlines_of_ne ?_
  simp [Cursor.current, Cursor.tokenAt, Array.getElem_push, Token.endOfCode]

theorem skipNewlines_second (lines : Array Token) (p stop : Position) (more : Array Token) :
    (⟨(wholeLines lines p stop more).second, lines.size⟩ : Cursor).skipNewlines =
      (⟨(wholeLines lines p stop more).second, lines.size + 1⟩ : Cursor).skipNewlines := by
  rw [second_wholeLines]
  exact skipNewlines_of_getElem? (p := p) (by simp [Array.getElem?_append])

/-- A statement ends behind the end of its line. -/
theorem Aligned.takes (h : Aligned w s s') (hs : s.Settled) (htakes : s.Takes s₁) :
    ∃ s₁', s'.Takes s₁' ∧ Aligned w s₁ s₁' := by
  obtain ⟨t, hend, hok, rfl⟩ := htakes
  obtain ⟨c', hc, rfl⟩ := h
  obtain ⟨hline, hlt⟩ := hc.abreast hend
  let course : Course := { w with
    depth := s.depth, depth' := s.depth, count := s.statements, shallower := Nat.le_refl _ }
  have hroom : s.depth + maxDepth = maxDepth := by rw [hs.depth, Nat.zero_add]
  have habreast : Abreast course s.onLine (s.movedTo c').onLine :=
    ⟨c'.skipNewlines, hline, rfl, rfl⟩
  obtain ⟨u, u', ⟨d', hd, hdepth, rfl⟩, rfl, hok'⟩ :=
    Asm.echoed_statement (Asm.echoes_statementBody course hroom hroom) habreast hok
  have hcount : u.statements = s.statements := (extends_of_statement hs.onLine hok).statements
  have hend' : (s.movedTo c').onLine.cursor.atEnd = false := by
    change c'.skipNewlines.current.isEnd = false
    rw [hline.current_eq_of_lt hlt]
    exact hend
  refine ⟨_, ⟨_, hend', hok', rfl⟩, d'.skipNewlines, hd.aligned_skipNewlines, ?_⟩
  change ({ u with
    cursor := d'.skipNewlines, depth := s.depth, statements := s.statements + 1 } : Assembler) =
      { u with cursor := d'.skipNewlines, statements := u.statements + 1 }
  rw [hcount, show u.depth = s.depth from hdepth]

/-- A run up to the end of the lines and one from there on are one run. -/
theorem Completes.append {u v : Assembler} (h : s.Completes u) (hs : s.Settled)
    (haligned : Aligned (wholeLines lines p stop more) s s')
    (hv : (u.fedWith (wholeLines lines p stop more).second).Completes v) : s'.Completes v := by
  induction h generalizing s' with
  | @done s hend =>
    -- The run has skipped the empty lines up to the end, and the second one skips on from there.
    obtain ⟨c', hc, rfl⟩ := haligned
    refine hv.of_onLine_eq ?_
    change Assembler.movedTo _ c'.skipNewlines =
      Assembler.movedTo _ (⟨(wholeLines lines p stop more).second,
        s.cursor.skipNewlines.pos⟩ : Cursor).skipNewlines
    rcases hc.line with ⟨hline, -⟩ | ⟨hline, hline'⟩
    · have hpos : c'.skipNewlines.pos = s.cursor.skipNewlines.pos :=
        hline.pos.trans (Nat.zero_add _)
      rw [← hline.tokens', ← hpos, Cursor.skipNewlines_skipNewlines]
      rfl
    · have hfirst := hline.trans (skipNewlines_first lines p stop more)
      have hsecond : c'.skipNewlines = (⟨(wholeLines lines p stop more).second,
          lines.size⟩ : Cursor).skipNewlines := by simpa [wholeLines] using hline'
      rw [hfirst, hsecond, skipNewlines_second]
      rfl
  | take htakes _ ih =>
    obtain ⟨s₁', htakes', hs₁⟩ := haligned.takes hs htakes
    exact .take htakes' (ih (htakes.settled hs) hs₁ hv)

/-- Tokens that go on behind whole lines can be fed behind those lines or with them. -/
theorem feed_append {u v : Assembler} (hs : s.Settled) (hlines : EndsLine lines)
    (hpos : s.cursor.pos ≤ lines.size)
    (hfirst : s.feed (lines.push (.endOfCode stop)) = (.ok (), u))
    (hsecond : u.feed (lines ++ more) = (.ok (), v)) : s.feed (lines ++ more) = (.ok (), v) := by
  obtain ⟨p, hback⟩ := hlines
  obtain ⟨lines, rfl⟩ := Array.back?_eq_some_iff.mp hback
  have hu : u.Settled := by
    simpa [hfirst] using settled_feed hs ((lines.push ⟨.newline, "\n", p⟩).push (.endOfCode stop))
  rw [feed_eq_ok_iff hs] at hfirst ⊢
  rw [feed_eq_ok_iff hu] at hsecond
  rw [← second_wholeLines lines p stop more] at hsecond ⊢
  rw [← first_wholeLines lines p stop more] at hfirst
  refine hfirst.append (hs.fedWith _) ⟨_, ?_, rfl⟩ hsecond
  -- Right behind the last line both lists are where the end of that line leads.
  change Cursor.Aligned _ ⟨_, s.cursor.pos⟩ ⟨_, s.cursor.pos⟩
  rw [Array.size_push] at hpos
  rcases Nat.lt_or_eq_of_le hpos with hlt | hend
  · exact ⟨⟨_, s.cursor.pos⟩, ⟨_, s.cursor.pos⟩,
      ⟨rfl, rfl, (Nat.zero_add _).symm, Nat.le_of_lt_succ hlt⟩, rfl, rfl⟩
  · rw [hend]
    refine ⟨⟨_, lines.size⟩, ⟨_, lines.size⟩,
      ⟨rfl, rfl, (Nat.zero_add lines.size).symm, Nat.le_refl lines.size⟩, ?_, ?_⟩
    · have hfirst := skipNewlines_first lines p stop more
      rw [← hfirst, Cursor.skipNewlines_skipNewlines]
      rfl
    · exact (skipNewlines_second lines p stop more).symm

end Assembler

/-! ## Text by text -/

/-- A module whose source arrives in pieces. -/
structure Session where
  scanner : Scanner
  assembler : Assembler

namespace Session

/-- Nothing of the source of a module is there. -/
def start (name : String) : Session := ⟨.empty, .empty name⟩

/-- Scans a text behind those that were there and assembles its statements. -/
def take (s : Session) (text : String) : Except (LexError ⊕ AssemblyError) Session :=
  match (s.scanner.push text).scan with
  | (.error e, _) => .error (.inl e)
  | (.ok tokens, scanner) =>
    match s.assembler.feed tokens with
    | (.error e, _) => .error (.inr e)
    | (.ok (), assembler) => .ok ⟨scanner, assembler⟩

theorem take_eq_ok {s s' : Session} {text : String} (h : s.take text = .ok s') :
    ∃ tokens, (s.scanner.push text).scan = (.ok tokens, s'.scanner) ∧
      s.assembler.feed tokens = (.ok (), s'.assembler) := by
  unfold take at h
  split at h
  · cases h
  · next tokens scanner hscan =>
    split at h
    · cases h
    · next assembler hfeed =>
      cases h
      exact ⟨tokens, hscan, hfeed⟩

/-- What comes behind the text so far can as well be fed together with it to an empty assembler. -/
structure Ready (name : String) (s : Session) (text : List Char) (r : Lexing) : Prop where
  behind : s.scanner.Behind text r
  whole : ∀ more v, s.assembler.feed (r.tokens ++ more) = (.ok (), v) →
    (Assembler.empty name).feed (r.tokens ++ more) = (.ok (), v)

theorem ready_start (name : String) : Ready name (start name) [] .start :=
  ⟨Scanner.behind_empty, fun _ _ h => h⟩

variable {name : String} {s s' : Session} {text : List Char} {r : Lexing}

/-- The last text may end anywhere. -/
theorem Ready.last (h : Ready name s text r) {chunk : String} (htake : s.take chunk = .ok s') :
    ∃ tokens, tokenize (String.ofList text ++ chunk) = .ok tokens ∧
      (Assembler.empty name).feed tokens = (.ok (), s'.assembler) := by
  obtain ⟨tokens, hscan, hfeed⟩ := take_eq_ok htake
  obtain ⟨r', hrun, rfl, -⟩ := h.behind.scan hscan
  obtain ⟨more, hmore, -⟩ := Lexing.Extends.of_run hrun
  refine ⟨_, (h.behind.tokenize chunk).trans (congrArg Prod.fst hscan), ?_⟩
  rw [hmore, Array.push_append] at hfeed ⊢
  exact h.whole _ _ hfeed

theorem Ready.lines (h : Ready name s text r) {chunk : String} (htake : s.take chunk = .ok s')
    (hline : chunk.toList.getLast? = some '\n') :
    ∃ r', Ready name s' (text ++ chunk.toList) r' := by
  obtain ⟨tokens, hscan, hfeed⟩ := take_eq_ok htake
  obtain ⟨r', hbehind, ⟨more, hmore, -⟩, hends, rfl⟩ := h.behind.lines hscan hline
  have hwhole : (Assembler.empty name).feed (r'.tokens.push (.endOfCode r'.position)) =
      (.ok (), s'.assembler) := by
    rw [hmore, Array.push_append] at hfeed ⊢
    exact h.whole _ _ hfeed
  exact ⟨r', hbehind, fun _ _ hrest =>
    Assembler.feed_append Assembler.Reachable.empty.settled hends (Nat.zero_le _) hwhole hrest⟩

/-- Line by line a session comes to where the whole text leads. -/
theorem Ready.takes (h : Ready name s text r) {chunks : List String} (hne : chunks ≠ [])
    (hlines : ∀ chunk ∈ chunks.dropLast, chunk.toList.getLast? = some '\n')
    (htake : chunks.foldlM take s = .ok s') :
    ∃ tokens, tokenize (String.ofList text ++ String.join chunks) = .ok tokens ∧
      (Assembler.empty name).feed tokens = (.ok (), s'.assembler) := by
  induction chunks generalizing s text r with
  | nil => exact absurd rfl hne
  | cons chunk rest ih =>
    rw [List.foldlM_cons] at htake
    obtain ⟨s₁, hchunk, hrest⟩ := except_bind_eq_ok.mp htake
    cases rest with
    | nil =>
      cases hrest
      simpa using h.last hchunk
    | cons next rest =>
      rw [List.dropLast_cons_cons] at hlines
      obtain ⟨r₁, h₁⟩ := h.lines hchunk (hlines chunk (List.mem_cons_self ..))
      have hwhole := ih h₁ (by simp) (fun c hc => hlines c (List.mem_cons_of_mem _ hc)) hrest
      simpa [String.append_assoc] using hwhole

theorem assemble_of_feed {tokens : Array Token} {v : Assembler}
    (h : (Assembler.empty name).feed tokens = (.ok (), v)) : assemble tokens name = v.finish := by
  unfold assemble
  rw [h]

/-- Source that arrives in pieces, each but the last one of whole lines, makes the same module as
when it is there at once, or fails to in the same way, and has as many statements. -/
theorem finish_eq_assemble {chunks : List String}
    (hlines : ∀ chunk ∈ chunks.dropLast, chunk.toList.getLast? = some '\n')
    (h : chunks.foldlM take (start name) = .ok s) :
    ∃ tokens whole, tokenize (String.join chunks) = .ok tokens ∧
      (Assembler.empty name).feed tokens = (.ok (), whole) ∧
      s.assembler.finish = assemble tokens name ∧
      s.assembler.statements = whole.statements := by
  by_cases hne : chunks = []
  · subst hne
    cases h
    exact ⟨#[.endOfCode .start], _, rfl, rfl, rfl, rfl⟩
  · obtain ⟨tokens, htokens, hfeed⟩ := (ready_start name).takes hne hlines h
    have htext : String.ofList [] ++ String.join chunks = String.join chunks := by simp
    rw [htext] at htokens
    exact ⟨tokens, s.assembler, htokens, hfeed, (assemble_of_feed hfeed).symm, rfl⟩

/-- A macro that a later piece uses, a scope that stays open from one piece to the next, and a jump
to a label of the last piece. -/
def pieces : List String :=
  ["#macro m\n nop\n#end\n\n", "#scope a\n jmp : z\n", "\nm\n#end\n", "#label z"]

theorem finish_eq_assemble_pieces :
    (∀ chunk ∈ pieces.dropLast, chunk.toList.getLast? = some '\n') ∧
      ∃ s, pieces.foldlM take (start "m") = .ok s ∧ s.assembler.statements = 6 ∧
        ∃ tokens whole, tokenize (String.join pieces) = .ok tokens ∧
          (Assembler.empty "m").feed tokens = (.ok (), whole) ∧
          s.assembler.finish = assemble tokens "m" ∧ whole.statements = 6 := by
  have hlines : ∀ chunk ∈ pieces.dropLast, chunk.toList.getLast? = some '\n' := by decide
  have hcount : (pieces.foldlM take (start "m")).map (·.assembler.statements) = .ok 6 := by cbv
  cases h : pieces.foldlM take (start "m") with
  | error e =>
    rw [h] at hcount
    cases hcount
  | ok s =>
    rw [h] at hcount
    have hstatements : s.assembler.statements = 6 := Except.ok.inj hcount
    obtain ⟨tokens, whole, htokens, hfeed, hfinish, heq⟩ := finish_eq_assemble hlines h
    exact ⟨hlines, s, rfl, hstatements, tokens, whole, htokens, hfeed, hfinish,
      heq.symm.trans hstatements⟩

end Session

end CellMachine
