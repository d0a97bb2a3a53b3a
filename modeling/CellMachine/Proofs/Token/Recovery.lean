import CellMachine.Proofs.Token.Chunks

/-!
# Return to a remembered state

A checkpoint holds sizes, and `Scanner.recover` cuts text and tokens off behind them. This gives
the remembered state back because no call changes what is in front : text is only added to, and a
scan replaces no token but the one for the end of the text. `Scanner.Keeps b s` says that `s` still
starts with what `b` has and remembers its sizes. From any such `s` the way leads back to `b`
(`Scanner.Keeps.recover`), and every call but a new `Scanner.backup` keeps it
(`Scanner.Keeps.after`).
-/

namespace CellMachine

/-! ## The token for the end of the text -/

theorem withoutEnd_append_endToken (tokens : Array Token) :
    withoutEnd tokens ++ (endToken? tokens).toArray = tokens := by
  unfold withoutEnd endToken?
  cases hlast : tokens.back? with
  | none => simp
  | some t =>
    cases hend : t.isEnd with
    | false => simp [Option.filter, hend]
    | true =>
      obtain ⟨front, rfl⟩ := Array.back?_eq_some_iff.mp hlast
      simp [Option.filter, hend]

theorem withoutEnd_eq_self {tokens : Array Token} (h : ∀ t ∈ tokens, t.isEnd = false) :
    withoutEnd tokens = tokens := by
  unfold withoutEnd
  split
  · next t hlast => simp [h t (Array.mem_of_back? hlast)]
  · rfl

namespace Scanner

/-- Only the last token can end the text. -/
def Plain (s : Scanner) : Prop := ∀ t ∈ withoutEnd s.tokens, t.isEnd = false

variable {s : Scanner}

theorem Plain.eq_last (h : s.Plain) {i : Nat} {t : Token} (ht : s.tokens[i]? = some t)
    (hend : t.isEnd = true) : i + 1 = s.tokens.size := by
  have hsplit := withoutEnd_append_endToken s.tokens
  have hfront : (withoutEnd s.tokens).size ≤ i := by
    refine Nat.le_of_not_lt fun hlt => ?_
    rw [← hsplit, Array.getElem?_append_left hlt] at ht
    simp [h t (Array.mem_of_getElem? ht)] at hend
  have hsize : s.tokens.size = (withoutEnd s.tokens).size + (endToken? s.tokens).toArray.size := by
    rw [← Array.size_append, hsplit]
  have hone : (endToken? s.tokens).toArray.size ≤ 1 := by
    cases endToken? s.tokens with
    | none => simp
    | some t => simp
  obtain ⟨hi, -⟩ := Array.getElem?_eq_some_iff.mp ht
  omega

/-- A scan adds tokens behind those there are, in front of the one for the end of the text. -/
theorem withoutEnd_scan (h : s.Plain) :
    ∃ more, withoutEnd s.scan.2.tokens = withoutEnd s.tokens ++ more ∧
      ∀ t ∈ withoutEnd s.tokens ++ more, t.isEnd = false := by
  obtain ⟨more, hmore, hends⟩ := Lexing.extends_run s.lexing s.pending
  have hplain : ∀ t ∈ withoutEnd s.tokens ++ more, t.isEnd = false := fun t ht =>
    (Array.mem_append.mp ht).elim (h t) (hends t)
  refine ⟨more, ?_, hplain⟩
  cases hrun : s.lexing.run s.pending with
  | ok r =>
    have htokens : r.tokens = withoutEnd s.tokens ++ more := by rwa [hrun] at hmore
    change Lexing.run ⟨.between, s.position, withoutEnd s.tokens⟩ s.pending = .ok r at hrun
    simp only [scan, hrun, withoutEnd_push, htokens]
  | error f =>
    have htokens : f.1.2.tokens = withoutEnd s.tokens ++ more := by rwa [hrun] at hmore
    change Lexing.run ⟨.between, s.position, withoutEnd s.tokens⟩ s.pending = .error f at hrun
    -- Without a token for the end of the text all tokens are plain, and none is dropped.
    simp only [scan, hrun, htokens, withoutEnd_eq_self hplain]

theorem scan_source (s : Scanner) : s.scan.2.source = s.source := by
  unfold scan
  split
  · rfl
  · rfl

theorem scan_checkpoint (s : Scanner) : s.scan.2.checkpoint = s.checkpoint := by
  unfold scan
  split
  · rfl
  · rfl

theorem Plain.scan (h : s.Plain) : s.scan.2.Plain := by
  obtain ⟨more, hmore, hplain⟩ := withoutEnd_scan h
  intro t ht
  exact hplain t (hmore ▸ ht)

/-! ## What stays in front -/

/-- `s` remembers the sizes of `b` and has the text and the tokens of `b` in front. -/
structure Keeps (b s : Scanner) : Prop where
  checkpoint : s.checkpoint = b.backup.checkpoint
  source : ∃ more, s.source = b.source ++ more
  tokens : ∃ more, withoutEnd s.tokens = withoutEnd b.tokens ++ more

theorem keeps_backup (b : Scanner) : b.Keeps b.backup :=
  ⟨rfl, ⟨[], (List.append_nil _).symm⟩, ⟨#[], Array.append_empty.symm⟩⟩

namespace Keeps

variable {b s : Scanner}

theorem push (h : b.Keeps s) (text : String) : b.Keeps (s.push text) := by
  obtain ⟨more, hmore⟩ := h.source
  exact ⟨h.checkpoint, ⟨more ++ text.toList, by simp [Scanner.push, hmore]⟩, h.tokens⟩

theorem scan (h : b.Keeps s) (hs : s.Plain) : b.Keeps s.scan.2 := by
  obtain ⟨more, hmore⟩ := h.tokens
  obtain ⟨added, hadded, -⟩ := withoutEnd_scan hs
  refine ⟨s.scan_checkpoint.trans h.checkpoint, s.scan_source ▸ h.source, ⟨more ++ added, ?_⟩⟩
  rw [hadded, hmore, Array.append_assoc]

/-- Cutting off what was added gives the remembered state. -/
theorem recover (h : b.Keeps s) : s.recover = (true, b.backup) := by
  obtain ⟨text, htext⟩ := h.source
  obtain ⟨more, hmore⟩ := h.tokens
  have hsource : s.source.take b.source.length = b.source := by rw [htext, List.take_left]
  have htokens : s.tokens.take (withoutEnd b.tokens).size = withoutEnd b.tokens := by
    rw [← withoutEnd_append_endToken s.tokens, hmore]
    simp
  unfold Scanner.recover
  rw [h.checkpoint]
  simp only [Scanner.backup, hsource, htokens, withoutEnd_append_endToken]

end Keeps

/-! ## Any calls -/

/-- What can be asked of a scanner. -/
inductive Call where
  | push (text : String)
  | scan
  | backup
  | recover
  deriving DecidableEq, Repr

/-- The scanner behind a call. -/
def Call.perform : Call → Scanner → Scanner
  | push text, s => s.push text
  | scan, s => s.scan.2
  | backup, s => s.backup
  | recover, s => s.recover.2

/-- The scanner behind some calls. -/
def after (s : Scanner) (calls : List Call) : Scanner :=
  calls.foldl (fun s call => call.perform s) s

/-- Some calls lead here from the scanner that has seen no text. -/
def Reachable (s : Scanner) : Prop := ∃ calls, empty.after calls = s

/-- Every call but a new backup leaves the way back open. -/
theorem Keeps.perform {b : Scanner} (h : b.Keeps s) (hb : b.Plain) (hs : s.Plain) {call : Call}
    (hcall : call ≠ .backup) : b.Keeps (call.perform s) ∧ (call.perform s).Plain := by
  cases call with
  | push text => exact ⟨h.push text, hs⟩
  | scan => exact ⟨h.scan hs, hs.scan⟩
  | backup => exact absurd rfl hcall
  | recover =>
    simp only [Call.perform, h.recover]
    exact ⟨b.keeps_backup, hb⟩

theorem Keeps.after {b : Scanner} (h : b.Keeps s) (hb : b.Plain) (hs : s.Plain) {calls : List Call}
    (hcalls : .backup ∉ calls) : b.Keeps (s.after calls) := by
  induction calls generalizing s with
  | nil => exact h
  | cons call rest ih =>
    simp only [List.mem_cons, not_or] at hcalls
    obtain ⟨h₁, hs₁⟩ := h.perform hb hs (Ne.symm hcalls.1)
    exact ih h₁ hs₁ hcalls.2

/-- What holds behind any calls : only the last token ends the text, and a checkpoint is that of a
state the scanner still starts with. -/
structure Sound (s : Scanner) : Prop where
  plain : s.Plain
  kept : ∀ c, s.checkpoint = some c → ∃ b : Scanner, b.Plain ∧ b.Keeps s

theorem sound_empty : empty.Sound where
  plain t ht := by simp [empty, withoutEnd] at ht
  kept := by rintro c ⟨⟩

theorem Sound.perform (h : s.Sound) (call : Call) : (call.perform s).Sound := by
  by_cases hcall : call = .backup
  · subst hcall
    exact ⟨h.plain, fun _ _ => ⟨s, h.plain, s.keeps_backup⟩⟩
  cases hcheckpoint : s.checkpoint with
  | some c =>
    obtain ⟨b, hb, hkeeps⟩ := h.kept c hcheckpoint
    obtain ⟨hkeeps₁, hplain₁⟩ := hkeeps.perform hb h.plain hcall
    exact ⟨hplain₁, fun _ _ => ⟨b, hb, hkeeps₁⟩⟩
  | none =>
    cases call with
    | push text =>
      refine ⟨h.plain, fun c hc => ?_⟩
      simp [Call.perform, push, hcheckpoint] at hc
    | scan =>
      refine ⟨h.plain.scan, fun c hc => ?_⟩
      simp [Call.perform, scan_checkpoint, hcheckpoint] at hc
    | backup => exact absurd rfl hcall
    | recover => simpa [Call.perform, recover, hcheckpoint] using h

theorem Sound.after (h : s.Sound) (calls : List Call) : (s.after calls).Sound := by
  induction calls generalizing s with
  | nil => exact h
  | cons call rest ih => exact ih (h.perform call)

theorem Reachable.sound (h : s.Reachable) : s.Sound := by
  obtain ⟨calls, rfl⟩ := h
  exact sound_empty.after calls

/-- From a state that any calls have led to, whatever is added and scanned behind a backup, whether
it fails or not and however often it is taken back, a last recovery succeeds and gives the text, the
place in it and the tokens of that state. And in every such state only the last token can be one for
the end of the text. -/
theorem recover_after_backup {s : Scanner} (hs : s.Reachable) :
    (∀ calls, .backup ∉ calls → (s.backup.after calls).recover =
      (true, { s with checkpoint := s.backup.checkpoint })) ∧
      ∀ i t, s.tokens[i]? = some t → t.isEnd = true → i + 1 = s.tokens.size := by
  have hplain := hs.sound.plain
  exact ⟨fun calls hcalls => (s.keeps_backup.after hplain hplain hcalls).recover,
    fun i t ht hend => hplain.eq_last ht hend⟩

/-- A scan has failed behind three tokens, so that none of them ends the text. -/
def halfScanned : Scanner := empty.after [.push "a\n", .scan, .push "b \"", .scan]

/-- A scan that fails, a recovery, and one that succeeds. -/
def detour : List Call := [.push "c \"d", .scan, .recover, .push " e\n", .scan]

theorem recover_after_backup_detour :
    halfScanned.Reachable ∧ .backup ∉ detour ∧ halfScanned.tokens.size = 3 ∧
      (halfScanned.backup.after detour).tokens.size = 6 ∧
      (halfScanned.backup.after detour).recover =
        (true, { halfScanned with checkpoint := halfScanned.backup.checkpoint }) := by
  have hreachable : halfScanned.Reachable := ⟨_, rfl⟩
  have hcalls : .backup ∉ detour := by decide
  exact ⟨hreachable, hcalls, rfl, rfl, (recover_after_backup hreachable).1 detour hcalls⟩

end Scanner

end CellMachine
