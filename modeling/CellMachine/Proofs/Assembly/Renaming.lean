import CellMachine.Proofs.Assembly.Written

/-!
# A name in place of a number

A number and a name take the same place among the tokens of an instruction. So the instruction is
read the same with a name where a number was, but for that operand
(`SourceInstruction.ReadFrom.renamed`).
-/

namespace CellMachine

/-- A name in the place of a token. -/
def Token.renamed (t : Token) (x : String) : Token := { t with kind := .name, text := x }

/-- An operand that is a name in the place of another one. -/
def SourceOperand.renamed (o : SourceOperand) (x : String) : SourceOperand :=
  ⟨o.deref, .name x, o.token.renamed x⟩

namespace Cursor

/-- The list has a name in the place of its token number `i`. -/
def renamed (c : Cursor) (i : Nat) (x : String) : Cursor :=
  { c with tokens := c.tokens.modify i (·.renamed x) }

/-- The token number `i` of the list is the integer `l`, is not the offset of a frame slot, and is
not the last one. -/
structure NumberAt (c : Cursor) (i : Nat) (l : IntLiteral) : Prop where
  inside : i + 1 < c.tokens.size
  kind : (c.tokenAt i).kind = .integer
  number : IntLiteral.ofText? (c.tokenAt i).text = some l
  front : ∀ j, j + 1 = i → (c.tokenAt j).kind ≠ .frame

variable {c d : Cursor} {i : Nat} {l : IntLiteral} {x : String}

theorem NumberAt.forward (h : c.NumberAt i l) (hd : c.Forward d) : d.NumberAt i l := by
  have htoken (j : Nat) : d.tokenAt j = c.tokenAt j := by
    unfold tokenAt fallback
    rw [hd.tokens]
  exact ⟨hd.tokens ▸ h.inside, htoken i ▸ h.kind, htoken i ▸ h.number,
    fun j hj => htoken j ▸ h.front j hj⟩

theorem NumberAt.tokenAt_renamed (h : c.NumberAt i l) {j : Nat} (hj : j ≠ i) :
    (c.renamed i x).tokenAt j = c.tokenAt j := by
  have hinside := h.inside
  have hback : (c.renamed i x).tokens.back? = c.tokens.back? := by
    simp only [renamed, Array.back?_eq_getElem?, Array.size_modify, Array.getElem?_modify]
    rw [if_neg (by omega)]
  unfold tokenAt fallback
  rw [hback]
  simp only [renamed, Array.getElem?_modify]
  rw [if_neg (Ne.symm hj)]

theorem NumberAt.tokenAt_renamed_self (h : c.NumberAt i l) :
    (c.renamed i x).tokenAt i = (c.tokenAt i).renamed x := by
  have hinside : i < c.tokens.size := Nat.lt_of_succ_lt h.inside
  unfold tokenAt
  simp only [renamed, Array.getElem?_modify, if_true, Array.getElem?_eq_getElem hinside,
    Option.map_some, Option.getD_some]

theorem NumberAt.ne_of_kind (h : c.NumberAt i l) (hkind : c.current.kind ≠ .integer) :
    c.pos ≠ i := by
  rintro rfl
  exact hkind h.kind

theorem NumberAt.current_renamed (h : c.NumberAt i l) (hpos : c.pos ≠ i) :
    (c.renamed i x).current = c.current := h.tokenAt_renamed hpos

theorem next_renamed (c : Cursor) (i : Nat) (x : String) :
    (c.renamed i x).next = c.next.renamed i x := by
  unfold next
  simp only [renamed, Array.size_modify]
  split
  · rfl
  · rfl

end Cursor

/-- Lists of operands that differ in one operand only, the number `l` in one and `x` in the
other. -/
inductive OperandsRenamed (l : IntLiteral) (x : String) :
    List (Role × SourceOperand) → List (Role × SourceOperand) → Prop
  | here {role : Role} {o : SourceOperand} {ps : List (Role × SourceOperand)} :
    o.term = .integer l → OperandsRenamed l x ((role, o) :: ps) ((role, o.renamed x) :: ps)
  | there {p : Role × SourceOperand} {ps qs : List (Role × SourceOperand)} :
    OperandsRenamed l x ps qs → OperandsRenamed l x (p :: ps) (p :: qs)

/-- Instructions that differ in such an operand only. -/
inductive SourceInstruction.Renamed (l : IntLiteral) (x : String) (j : SourceInstruction) :
    SourceInstruction → Prop
  | fixed {qs : List (Role × SourceOperand)} :
    OperandsRenamed l x j.fixed qs → Renamed l x j { j with fixed := qs }
  | args {qs : List (Role × SourceOperand)} :
    OperandsRenamed l x j.args qs → Renamed l x j { j with args := qs }

theorem SourceInstruction.Renamed.opcode {l : IntLiteral} {x : String} {j j' : SourceInstruction}
    (h : j.Renamed l x j') : j'.opcode = j.opcode := by
  cases h with
  | fixed _ => rfl
  | args _ => rfl

namespace Parser

open Cursor (NumberAt)

variable {α β : Type} {c d : Cursor} {i : Nat} {l : IntLiteral} {x : String}

/-- A parser does the same on both lists, without taking the token number `i`. -/
def Skips (i : Nat) (x : String) (p : Parser α) (c : Cursor) : Prop :=
  ∀ ⦃a d⦄, p c = .ok a d → p (c.renamed i x) = .ok a (d.renamed i x) ∧ c.Forward d ∧
    (d.pos ≤ i ∨ i < c.pos)

namespace Skips

theorem pure (a : α) (c : Cursor) : Skips i x (Pure.pure a : Parser α) c := by
  intro _ _ h
  cases h
  exact ⟨rfl, Std.Refl.refl c, Nat.lt_or_ge i c.pos |>.symm⟩

theorem fail (t : Token) (kind : AssemblyErrorKind) (c : Cursor) :
    Skips i x (failAt t kind : Parser α) c := by
  intro _ _ h
  cases h

theorem bind_of_ok {p : Parser α} {f : α → Parser β} (hp : Skips i x p c)
    (hf : ∀ a d, p c = .ok a d → Skips i x (f a) d) : Skips i x (p >>= f) c := by
  intro b d h
  obtain ⟨a, c₁, ha, hb⟩ := bind_eq_ok.mp h
  obtain ⟨ha', hforward₁, hplace₁⟩ := hp ha
  obtain ⟨hb', hforward, hplace⟩ := hf a c₁ ha hb
  refine ⟨bind_eq_ok.mpr ⟨a, _, ha', hb'⟩, Trans.trans hforward₁ hforward, ?_⟩
  have hpos := hforward₁.pos
  omega

theorem bind {p : Parser α} {f : α → Parser β} (hp : Skips i x p c)
    (hf : ∀ a d, c.Forward d → Skips i x (f a) d) : Skips i x (p >>= f) c :=
  hp.bind_of_ok fun a d ha => hf a d (hp ha).2.1

end Skips

theorem skips_next (hpos : c.pos ≠ i) : Skips i x next c := by
  intro _ _ hok
  cases hok
  refine ⟨congrArg (EStateM.Result.ok ()) (Cursor.next_renamed c i x), Cursor.forward_next c, ?_⟩
  unfold Cursor.next
  split
  · change c.pos + 1 ≤ i ∨ i < c.pos
    omega
  · omega

variable {kind : TokenKind} {ps : List (Role × SourceOperand)}

theorem skips_expect_of_ne (expected : String) (h : c.NumberAt i l) (hpos : c.pos ≠ i) :
    Skips i x (expect kind expected) c := by
  intro t d hok
  change (if (c.current.kind == kind) = true then _ else _ : Parser Token) c = _ at hok
  change (if ((c.renamed i x).current.kind == kind) = true then _ else _ : Parser Token) _ = _ ∧ _
  rw [h.current_renamed hpos]
  split at hok
  · next hbeq =>
    rw [if_pos hbeq]
    exact (skips_next hpos).bind (fun _ d _ => .pure c.current d) hok
  · cases hok

theorem skips_expect (hkind : kind ≠ .integer) (expected : String) (h : c.NumberAt i l) :
    Skips i x (expect kind expected) c := by
  by_cases hpos : c.pos = i
  · intro t d hok
    have hother : c.current.kind ≠ kind := by
      unfold Cursor.current
      rw [hpos, h.kind]
      exact Ne.symm hkind
    change (if (c.current.kind == kind) = true then _ else _ : Parser Token) c = _ at hok
    rw [if_neg (by simpa using hother)] at hok
    cases hok
  · exact skips_expect_of_ne expected h hpos

theorem skips_expectColon (h : c.NumberAt i l) : Skips i x expectColon c :=
  (skips_expect (by decide) _ h).bind fun _ d _ => .pure _ d

theorem skips_datatypeSuffix (h : c.NumberAt i l) : Skips i x datatypeSuffix c := by
  refine (skips_expect (by decide) _ h).bind fun _ d hd =>
    (skips_expect (by decide) _ (h.forward hd)).bind fun t d' _ => ?_
  split
  · exact .pure _ _
  · exact .fail _ _ _

theorem skips_argumentDatatype (h : c.NumberAt i l) : Skips i x argumentDatatype c := by
  refine (skips_expect (by decide) _ h).bind fun t d _ => ?_
  split
  · exact .fail _ _ _
  · exact .fail _ _ _
  · exact .pure _ _

/-- Whether a token is of a kind that neither numbers nor names have is the same on both lists. -/
theorem kind_beq_renamed (hinteger : kind ≠ .integer) (hname : kind ≠ .name) (h : c.NumberAt i l) :
    ((c.renamed i x).current.kind == kind) = (c.current.kind == kind) := by
  by_cases hpos : c.pos = i
  · have hkind : c.current.kind = .integer := by
      unfold Cursor.current
      rw [hpos]
      exact h.kind
    have hkind' : (c.renamed i x).current.kind = .name := by
      change ((c.renamed i x).tokenAt c.pos).kind = .name
      rw [hpos, h.tokenAt_renamed_self]
      rfl
    rw [hkind, hkind', beq_eq_false_iff_ne.mpr (Ne.symm hname),
      beq_eq_false_iff_ne.mpr (Ne.symm hinteger)]
  · rw [h.current_renamed hpos]

theorem skips_at?_bind (hinteger : kind ≠ .integer) (hname : kind ≠ .name) {f : Bool → Parser β}
    (h : c.NumberAt i l) (hf : Skips i x (f (c.current.kind == kind)) c) :
    Skips i x (at? kind >>= f) c := by
  intro b d hok
  change f (c.current.kind == kind) c = .ok b d at hok
  change f ((c.renamed i x).current.kind == kind) (c.renamed i x) = _ ∧ _
  rw [kind_beq_renamed hinteger hname h]
  exact hf hok

theorem skips_take? (hinteger : kind ≠ .integer) (hname : kind ≠ .name) (h : c.NumberAt i l) :
    Skips i x (take? kind) c := by
  refine skips_at?_bind hinteger hname h ?_
  split
  · next hkind =>
    have hpos := h.ne_of_kind (by rwa [beq_iff_eq.mp hkind])
    exact (skips_next hpos).bind fun _ d _ => .pure _ d
  · exact .pure _ _

theorem skips_instructionDatatype (op : Opcode) (t : Token) (h : c.NumberAt i l) :
    Skips i x (instructionDatatype op t) c := by
  refine skips_at?_bind (by decide) (by decide) h ?_
  split
  · exact .fail _ _ _
  · exact .fail _ _ _
  · refine (skips_datatypeSuffix h).bind fun dt d _ => ?_
    split
    · exact .fail _ _ _
    · exact .pure _ _
  · exact skips_datatypeSuffix h
  · exact .pure _ _

theorem skips_register (h : c.NumberAt i l) (hpos : c.pos ≠ i) : Skips i x register c := by
  refine (skips_next hpos).bind fun _ d hd =>
    (skips_expect (by decide) _ (h.forward hd)).bind fun t d' _ => ?_
  split
  · exact .pure _ _
  · exact .fail _ _ _

/-- The number behind the mark of a frame slot is another one. -/
theorem skips_frameSlot (h : c.NumberAt i l) (hkind : c.current.kind = .frame) :
    Skips i x frameSlot c := by
  have hpos := h.ne_of_kind (by simp [hkind])
  refine (skips_next hpos).bind_of_ok fun _ d hd => ?_
  obtain ⟨-, hforward, hplace⟩ := skips_next (x := x) hpos hd
  have hother : d.pos ≠ i := by
    cases hd
    rintro rfl
    have hnext : c.next.pos = c.pos + 1 ∨ c.next.pos = c.pos := by
      unfold Cursor.next
      split
      · exact .inl rfl
      · exact .inr rfl
    rcases hnext with hnext | hnext
    · exact h.front c.pos hnext.symm hkind
    · exact hpos hnext.symm
  refine (skips_expect_of_ne _ (h.forward hforward) hother).bind fun t d' _ => ?_
  split
  · exact .pure _ _
  · exact .fail _ _ _

theorem skips_current_bind {f : Token → Parser β} (h : c.NumberAt i l) (hpos : c.pos ≠ i)
    (hf : Skips i x (f c.current) c) : Skips i x (current >>= f) c := by
  intro b d hok
  change f (c.renamed i x).current (c.renamed i x) = _ ∧ _
  rw [h.current_renamed hpos]
  exact hf hok

theorem skips_term (h : c.NumberAt i l) (hpos : c.pos ≠ i) (hname : c.current.kind ≠ .name) :
    Skips i x term c := by
  refine skips_current_bind h hpos ?_
  cases hkind : c.current.kind with
  | register => exact skips_register h hpos
  | frame => exact skips_frameSlot h hkind
  | name => exact absurd hkind hname
  | string => exact (skips_next hpos).bind fun _ d _ => .pure _ d
  | float =>
    refine (skips_next hpos).bind fun _ d _ => ?_
    cases floatLiteral? c.current.text with
    | some a => exact .pure _ d
    | none => exact .fail _ _ d
  | integer =>
    refine (skips_next hpos).bind fun _ d _ => ?_
    cases IntLiteral.ofText? c.current.text with
    | some a => exact .pure _ d
    | none => exact .fail _ _ d
  | _ => exact .fail _ _ c

/-! ## Operands -/

/-- What a parser has done, it does on the list with the name as well, if it has not taken the
number. Otherwise it gives what `R` says there, unless a dot follows that would go on with the
name. -/
inductive Carried (R : α → α → Prop) (i : Nat) (x : String) (p : Parser α) (c : Cursor) (a : α)
    (d : Cursor) : Prop
  | skipped (h : p (c.renamed i x) = .ok a (d.renamed i x) ∧ c.Forward d ∧
      (d.pos ≤ i ∨ i < c.pos))
  | taken (forward : c.Forward d) (front : c.pos ≤ i) (back : i < d.pos)
      (h : d.current.kind ≠ .dot → ∃ b, R a b ∧ p (c.renamed i x) = .ok b (d.renamed i x))

theorem Skips.bind_carried {R : β → β → Prop} {p : Parser α} {f : α → Parser β} {b : β}
    (hp : Skips i x p c) (hf : ∀ a e, c.Forward e → f a e = .ok b d → Carried R i x (f a) e b d)
    (hok : (p >>= f) c = .ok b d) : Carried R i x (p >>= f) c b d := by
  obtain ⟨a, e, ha, hb⟩ := bind_eq_ok.mp hok
  obtain ⟨ha', hforward, hplace⟩ := hp ha
  have hpos := hforward.pos
  rcases hf a e hforward hb with ⟨hb', hforward', hplace'⟩ | ⟨hforward', hfront, hback, hb'⟩
  · exact .skipped ⟨bind_eq_ok.mpr ⟨a, _, ha', hb'⟩, Trans.trans hforward hforward', by omega⟩
  · refine .taken (Trans.trans hforward hforward') (by omega) hback fun hdot => ?_
    obtain ⟨b', hR, hb'⟩ := hb' hdot
    exact ⟨b', hR, bind_eq_ok.mpr ⟨a, _, ha', hb'⟩⟩

theorem Carried.congr {R : α → α → Prop} {p q : Parser α} {a : α} (h : Carried R i x q c a d)
    (heq : p (c.renamed i x) = q (c.renamed i x)) : Carried R i x p c a d := by
  rcases h with h | ⟨hforward, hfront, hback, h⟩
  · exact .skipped (heq ▸ h)
  · exact .taken hforward hfront hback (heq ▸ h)

theorem carried_at?_bind {R : β → β → Prop} (hinteger : kind ≠ .integer) (hname : kind ≠ .name)
    {f : Bool → Parser β} {b : β} (h : c.NumberAt i l)
    (hf : Carried R i x (f (c.current.kind == kind)) c b d) :
    Carried R i x (at? kind >>= f) c b d := by
  refine hf.congr ?_
  change f ((c.renamed i x).current.kind == kind) (c.renamed i x) = _
  rw [kind_beq_renamed hinteger hname h]

/-- A name ends where no dot follows. -/
theorem dottedName_of_kind (hname : c.current.kind = .name) (hdot : c.next.current.kind ≠ .dot) :
    dottedName c = .ok c.current.text c.next := by
  have hexpect : expect .name "a name" c = .ok c.current c.next := by
    refine bind_eq_ok.mpr ⟨_, _, rfl, ?_⟩
    rw [if_pos (beq_iff_eq.mpr hname)]
    rfl
  refine bind_eq_ok.mpr ⟨_, _, bind_eq_ok.mpr ⟨_, _, hexpect, rfl⟩, bind_eq_ok.mpr ⟨_, _, rfl, ?_⟩⟩
  cases c.next.remaining with
  | zero => rfl
  | succ n => rw [dottedRest, dottedRestRound_apply, if_neg (by simp [hdot])]

/-- A name is taken where the number was. -/
theorem term_renamed {a : Term} (h : c.NumberAt i l) (hpos : c.pos = i) (hok : term c = .ok a d) :
    a = .integer l ∧ d = c.next ∧
      (d.current.kind ≠ .dot → term (c.renamed i x) = .ok (.name x) (d.renamed i x)) := by
  have hkind : c.current.kind = .integer := by
    unfold Cursor.current
    rw [hpos, h.kind]
  have hnumber : IntLiteral.ofText? c.current.text = some l := by
    unfold Cursor.current
    rw [hpos, h.number]
  have hcurrent : (c.renamed i x).current = c.current.renamed x := by
    change (c.renamed i x).tokenAt c.pos = (c.tokenAt c.pos).renamed x
    rw [hpos, h.tokenAt_renamed_self]
  obtain ⟨_, _, ht, hok⟩ := bind_eq_ok.mp hok
  cases ht
  rw [hkind] at hok
  obtain ⟨_, _, hnext, hok⟩ := bind_eq_ok.mp hok
  cases hnext
  rw [hnumber] at hok
  cases hok
  refine ⟨rfl, rfl, fun hdot => ?_⟩
  have hbehind : c.next.pos ≠ i := by
    unfold Cursor.next
    have hinside := h.inside
    rw [if_pos (by omega)]
    change c.pos + 1 ≠ i
    omega
  have hdot' : (c.renamed i x).next.current.kind ≠ .dot := by
    rw [Cursor.next_renamed, (h.forward (Cursor.forward_next c)).current_renamed hbehind]
    exact hdot
  refine bind_eq_ok.mpr ⟨_, _, rfl, ?_⟩
  rw [hcurrent]
  refine bind_eq_ok.mpr ⟨_, _, dottedName_of_kind (congrArg Token.kind hcurrent) hdot', ?_⟩
  rw [hcurrent, Cursor.next_renamed]
  rfl

theorem term_of_name {a : Term} (hname : c.current.kind = .name) (hok : term c = .ok a d) :
    ∃ n, a = .name n := by
  obtain ⟨_, _, ht, hok⟩ := bind_eq_ok.mp hok
  cases ht
  rw [hname] at hok
  obtain ⟨n, _, -, hok⟩ := bind_eq_ok.mp hok
  cases hok
  exact ⟨n, rfl⟩

theorem operandBehind_carried {o : SourceOperand} (deref : Bool) (h : c.NumberAt i l)
    (hok : (do
      let token ← current
      return (⟨deref, ← term, token⟩ : SourceOperand)) c = .ok o d)
    (hname : ∀ n, o.term ≠ .name n) :
    Carried (fun o o' => o.term = .integer l ∧ o' = o.renamed x) i x
      (do
        let token ← current
        return (⟨deref, ← term, token⟩ : SourceOperand)) c o d := by
  obtain ⟨_, _, ht, hterm⟩ := bind_eq_ok.mp hok
  cases ht
  obtain ⟨a, _, ha, hpure⟩ := bind_eq_ok.mp hterm
  cases hpure
  by_cases hpos : c.pos = i
  · obtain ⟨rfl, rfl, hrenamed⟩ := term_renamed (x := x) h hpos ha
    have hinside := h.inside
    have hback : i < c.next.pos := by
      unfold Cursor.next
      rw [if_pos (by omega)]
      exact hpos ▸ Nat.lt_succ_self _
    refine .taken (Cursor.forward_next c) (by omega) hback fun hdot => ⟨_, ⟨rfl, rfl⟩, ?_⟩
    refine bind_eq_ok.mpr ⟨_, _, rfl, bind_eq_ok.mpr ⟨_, _, hrenamed hdot, ?_⟩⟩
    have hcurrent : (c.renamed i x).current = c.current.renamed x := by
      change (c.renamed i x).tokenAt c.pos = (c.tokenAt c.pos).renamed x
      rw [hpos, h.tokenAt_renamed_self]
    rw [hcurrent]
    rfl
  · have hkind : c.current.kind ≠ .name := fun hkind =>
      (term_of_name hkind ha).elim hname
    exact .skipped (skips_current_bind h hpos
      ((skips_term h hpos hkind).bind fun _ d _ => .pure _ d) hok)

theorem operand_carried {o : SourceOperand} (h : c.NumberAt i l) (hok : operand c = .ok o d)
    (hname : ∀ n, o.term ≠ .name n) :
    Carried (fun o o' => o.term = .integer l ∧ o' = o.renamed x) i x operand c o d := by
  refine carried_at?_bind (by decide) (by decide) h ?_
  obtain ⟨_, _, hderef, hok⟩ := bind_eq_ok.mp hok
  cases hderef
  cases hkind : c.current.kind == .deref with
  | true =>
    rw [hkind] at hok
    have hpos := h.ne_of_kind (by simp [beq_iff_eq.mp hkind])
    refine (skips_next hpos).bind_carried (fun _ e he hok => ?_) hok
    exact operandBehind_carried true (h.forward he) hok hname
  | false =>
    rw [hkind] at hok
    exact operandBehind_carried false h hok hname

/-- An operand in front of others is carried over with them. -/
theorem operands_carried {more : Parser (List (Role × SourceOperand))} {role : Role}
    (h : c.NumberAt i l)
    (hmore : ∀ c qs, c.NumberAt i l → more c = .ok qs d → (∀ p ∈ qs, ∀ n, p.2.term ≠ .name n) →
      Carried (OperandsRenamed l x) i x more c qs d)
    (hborder : ∀ c qs, more c = .ok qs d → d = c ∨ c.current.kind = .colon)
    (hok : (do let o ← operand return (role, o) :: (← more)) c = .ok ps d)
    (hnames : ∀ p ∈ ps, ∀ n, p.2.term ≠ .name n) :
    Carried (OperandsRenamed l x) i x
      (do
        let o ← operand
        return (role, o) :: (← more)) c ps d := by
  obtain ⟨o, e, ho, hok⟩ := bind_eq_ok.mp hok
  obtain ⟨qs, d, hqs, hpure⟩ := bind_eq_ok.mp hok
  cases hpure
  have hsame (o' : SourceOperand) (qs' : List (Role × SourceOperand))
      (ho' : operand (c.renamed i x) = .ok o' (e.renamed i x))
      (hqs' : more (e.renamed i x) = .ok qs' (d.renamed i x)) :
      (do
        let o ← operand
        return (role, o) :: (← more)) (c.renamed i x) = .ok ((role, o') :: qs') (d.renamed i x) :=
    bind_eq_ok.mpr ⟨o', _, ho', bind_eq_ok.mpr ⟨qs', _, hqs', rfl⟩⟩
  have hcarried := operand_carried (x := x) h ho (hnames (role, o) List.mem_cons_self)
  have hrest (hforward : c.Forward e) := hmore e qs (h.forward hforward) hqs fun p hp =>
    hnames p (List.mem_cons_of_mem _ hp)
  rcases hcarried with ⟨ho', hforward, hplace⟩ | ⟨hforward, hfront, hback, ho'⟩
  · have hpos := hforward.pos
    rcases hrest hforward with ⟨hqs', hforward', hplace'⟩ | ⟨hforward', hfront', hback', hqs'⟩
    · exact .skipped ⟨hsame o qs ho' hqs', Trans.trans hforward hforward', by omega⟩
    · refine .taken (Trans.trans hforward hforward') (by omega) hback' fun hdot => ?_
      obtain ⟨qs', hrenamed, hqs'⟩ := hqs' hdot
      exact ⟨_, .there hrenamed, hsame o qs' ho' hqs'⟩
  · rcases hrest hforward with ⟨hqs', hforward', hplace'⟩ | ⟨hforward', hfront', hback', hqs'⟩
    · have hpos := hforward'.pos
      refine .taken (Trans.trans hforward hforward') hfront (by omega) fun hdot => ?_
      have hdot' : e.current.kind ≠ .dot := by
        rcases hborder e qs hqs with rfl | hcolon
        · exact hdot
        · simp [hcolon]
      obtain ⟨o', ⟨hterm, rfl⟩, ho'⟩ := ho' hdot'
      exact ⟨_, .here hterm, hsame _ qs ho' hqs'⟩
    · omega

theorem sourceOperands_border {roles : List Role} (hok : sourceOperands roles c = .ok ps d) :
    d = c ∨ c.current.kind = .colon := by
  cases roles with
  | nil =>
    cases hok
    exact .inl rfl
  | cons role rest =>
    right
    obtain ⟨_, _, hcolon, -⟩ := bind_eq_ok.mp hok
    obtain ⟨t, _, hcolon, -⟩ := bind_eq_ok.mp hcolon
    change (if (c.current.kind == .colon) = true then _ else _ : Parser Token) c = _ at hcolon
    split at hcolon
    · next hkind => exact beq_iff_eq.mp hkind
    · cases hcolon

theorem sourceArguments_border {n : Nat} (hok : sourceArguments n c = .ok ps d) :
    d = c ∨ c.current.kind = .colon := by
  cases n with
  | zero =>
    cases hok
    exact .inl rfl
  | succ n =>
    rw [sourceArguments, take?_bind_apply] at hok
    split at hok
    · next hkind => exact .inr (beq_iff_eq.mp hkind)
    · cases hok
      exact .inl rfl

theorem sourceOperands_carried {roles : List Role} (h : c.NumberAt i l)
    (hok : sourceOperands roles c = .ok ps d) (hnames : ∀ p ∈ ps, ∀ n, p.2.term ≠ .name n) :
    Carried (OperandsRenamed l x) i x (sourceOperands roles) c ps d := by
  induction roles generalizing c ps with
  | nil => exact .skipped (Skips.pure _ _ hok)
  | cons role rest ih =>
    refine (skips_expectColon h).bind_carried (fun _ e he hok => ?_) hok
    exact operands_carried (h.forward he) (fun _ _ => ih) (fun _ _ => sourceOperands_border) hok hnames

theorem sourceArguments_carried {n : Nat} (h : c.NumberAt i l)
    (hok : sourceArguments n c = .ok ps d) (hnames : ∀ p ∈ ps, ∀ n, p.2.term ≠ .name n) :
    Carried (OperandsRenamed l x) i x (sourceArguments n) c ps d := by
  induction n generalizing c ps with
  | zero => exact .skipped (Skips.pure _ _ hok)
  | succ n ih =>
    refine (skips_take? (by decide) (by decide) h).bind_carried (fun more e he hok => ?_) hok
    cases more with
    | true =>
      refine (skips_argumentDatatype (h.forward he)).bind_carried (fun t e' he' hok => ?_) hok
      exact operands_carried ((h.forward he).forward he') (fun _ _ => ih)
        (fun _ _ => sourceArguments_border) hok hnames
    | false => exact .skipped (Skips.pure _ _ hok)

/-- An instruction whose number is replaced by a name is read with the name as that operand. -/
theorem sourceInstruction_renamed {op : Opcode} {j : SourceInstruction} (h : c.NumberAt i l)
    (hok : sourceInstruction op c = .ok j d) (hnames : ∀ p ∈ j.operands, ∀ n, p.2.term ≠ .name n)
    (hfront : c.pos < i) (hback : i < d.pos) (hdot : c.Forward d → d.current.kind ≠ .dot) :
    ∃ j', j.Renamed l x j' ∧ sourceInstruction op (c.renamed i x) = .ok j' (d.renamed i x) := by
  have hpos : c.pos ≠ i := Nat.ne_of_lt hfront
  obtain ⟨_, _, ht, hok⟩ := bind_eq_ok.mp hok
  cases ht
  obtain ⟨_, c₁, hnext, hok⟩ := bind_eq_ok.mp hok
  obtain ⟨dt, c₂, hdatatype, hok⟩ := bind_eq_ok.mp hok
  obtain ⟨fixed, c₃, hfixed, hok⟩ := bind_eq_ok.mp hok
  obtain ⟨args, c₄, hargs, hok⟩ := bind_eq_ok.mp hok
  cases hok
  obtain ⟨hnext', hforward₁, hplace₁⟩ := skips_next (x := x) hpos hnext
  obtain ⟨hdatatype', hforward₂, hplace₂⟩ :=
    skips_instructionDatatype (x := x) op c.current (h.forward hforward₁) hdatatype
  have h₂ := (h.forward hforward₁).forward hforward₂
  have hpos₁ := hforward₁.pos
  have hpos₂ := hforward₂.pos
  have hforward (h₃ : c₂.Forward c₃) (h₄ : c₃.Forward d) : c.Forward d :=
    Trans.trans (Trans.trans hforward₁ hforward₂) (Trans.trans h₃ h₄)
  have hread (fixed' args' : List (Role × SourceOperand))
      (hfixed' : sourceOperands (op.fixedRoles dt) (c₂.renamed i x) = .ok fixed' (c₃.renamed i x))
      (hargs' : sourceArguments (if op.layout.variadic then Descriptor.maxArgs else 0)
        (c₃.renamed i x) = .ok args' (d.renamed i x)) :
      sourceInstruction op (c.renamed i x) = .ok ⟨op, dt, fixed', args'⟩ (d.renamed i x) := by
    refine bind_eq_ok.mpr ⟨_, _, rfl, bind_eq_ok.mpr ⟨_, _, hnext', ?_⟩⟩
    rw [h.current_renamed hpos]
    exact bind_eq_ok.mpr ⟨dt, _, hdatatype', bind_eq_ok.mpr ⟨_, _, hfixed',
      bind_eq_ok.mpr ⟨_, _, hargs', rfl⟩⟩⟩
  have hfixedNames (p : Role × SourceOperand) (hp : p ∈ fixed) :=
    hnames p (List.mem_append_left args hp)
  have hargsNames (p : Role × SourceOperand) (hp : p ∈ args) :=
    hnames p (List.mem_append_right fixed hp)
  rcases sourceOperands_carried (x := x) h₂ hfixed hfixedNames with
    ⟨hfixed', hforward₃, hplace₃⟩ | ⟨hforward₃, -, hback₃, hfixed'⟩
  · rcases sourceArguments_carried (x := x) (h₂.forward hforward₃) hargs hargsNames with
      ⟨-, hforward₄, hplace₄⟩ | ⟨hforward₄, -, -, hargs'⟩
    · omega
    · obtain ⟨args', hrenamed, hargs'⟩ := hargs' (hdot (hforward hforward₃ hforward₄))
      exact ⟨_, .args hrenamed, hread fixed args' hfixed' hargs'⟩
  · rcases sourceArguments_carried (x := x) (h₂.forward hforward₃) hargs hargsNames with
      ⟨hargs', hforward₄, -⟩ | ⟨-, hfront₄, -, -⟩
    · have hdot₃ : c₃.current.kind ≠ .dot := by
        rcases sourceArguments_border hargs with rfl | hcolon
        · exact hdot (hforward hforward₃ hforward₄)
        · simp [hcolon]
      obtain ⟨fixed', hrenamed, hfixed'⟩ := hfixed' hdot₃
      exact ⟨_, .fixed hrenamed, hread fixed' args hfixed' hargs'⟩
    · omega

end Parser

namespace SourceInstruction

variable {j : SourceInstruction} {front back : List Token} {number : Token} {l : IntLiteral}

/-- A number among the tokens of a statement, which is not the offset of a frame slot. -/
structure NumberBehind (front : List Token) (number : Token) (l : IntLiteral) : Prop where
  kind : number.kind = .integer
  number : IntLiteral.ofText? number.text = some l
  front : ∀ mark ∈ front.getLast?, mark.kind ≠ .frame

theorem NumberBehind.numberAt (h : NumberBehind front number l) (back : List Token) :
    Cursor.NumberAt ⟨(front ++ number :: back).toArray.push (.endOfCode .start), 0⟩
      front.length l := by
  have htoken : Cursor.tokenAt ⟨(front ++ number :: back).toArray.push (.endOfCode .start), 0⟩
      front.length = number := by
    unfold Cursor.tokenAt
    simp
  refine ⟨by simp, by rw [htoken, h.kind], by rw [htoken, h.number], fun k hk => ?_⟩
  obtain ⟨mark, hmark⟩ : ∃ mark, front[k]? = some mark :=
    ⟨_, List.getElem?_eq_getElem (by omega)⟩
  have hlast : front.getLast? = some mark := by
    rw [List.getLast?_eq_getElem?, show front.length - 1 = k by omega, hmark]
  unfold Cursor.tokenAt
  rw [List.push_toArray, List.getElem?_toArray, List.append_assoc,
    List.getElem?_append_left (by omega), hmark]
  exact h.front mark hlast

theorem renamed_append (front back : List Token) (number : Token) (x : String) :
    Cursor.renamed ⟨(front ++ number :: back).toArray.push (.endOfCode .start), 0⟩ front.length x =
      ⟨(front ++ number.renamed x :: back).toArray.push (.endOfCode .start), 0⟩ := by
  unfold Cursor.renamed
  simp only [List.push_toArray, List.append_assoc, List.cons_append, List.modify_toArray]
  congr 2
  induction front with
  | nil => rfl
  | cons t front ih => exact congrArg (t :: ·) ih

/-- A statement is read with a name in the place of a number. -/
theorem ReadFrom.renamed (h : j.ReadFrom (front ++ number :: back))
    (hnumber : NumberBehind front number l) (hnames : ∀ p ∈ j.operands, ∀ n, p.2.term ≠ .name n)
    (x : String) : ∃ j', j.Renamed l x j' ∧ j'.ReadFrom (front ++ number.renamed x :: back) := by
  obtain ⟨t, ht, hname, hop⟩ := h.name
  obtain ⟨d, hreads, hend⟩ := h.reads
  cases front with
  | nil =>
    cases ht
    rw [hnumber.kind] at hname
    cases hname
  | cons t' front =>
    cases ht
    have hdot (hforward : Cursor.Forward
        ⟨(t :: front ++ number :: back).toArray.push (.endOfCode .start), 0⟩ d) :
        d.current.kind ≠ .dot := by
      unfold Cursor.current Cursor.tokenAt
      rw [hforward.tokens, hend]
      simp [Token.endOfCode]
    obtain ⟨j', hrenamed, hreads'⟩ := Parser.sourceInstruction_renamed (x := x)
      (hnumber.numberAt back) hreads hnames (Nat.succ_pos _) (by rw [hend]; simp) hdot
    rw [renamed_append, ← hrenamed.opcode] at hreads'
    refine ⟨j', hrenamed, ⟨t, rfl, hname, hrenamed.opcode ▸ hop⟩, ⟨d.renamed _ x, hreads', ?_⟩⟩
    exact hend.trans (by simp)

end SourceInstruction

end CellMachine
