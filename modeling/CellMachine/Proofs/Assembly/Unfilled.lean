import CellMachine.Proofs.Assembly.Patching
import CellMachine.Proofs.Assembly.Recording
import CellMachine.Proofs.Assembly.Renaming

/-!
# A slot left open

Where an operand is a name, its slot stays zero and a reference waits for it. Everything else that
an instruction writes is the same as with a number there. So what an instruction with a name writes
is what it writes with the number, with that one slot left open (`Asm.writeInstruction_renamed`),
and the number fits wherever the name can be written (`Asm.writeInstruction_of_renamed`).
-/

namespace CellMachine

section

variable {ε ε' σ τ α : Type} {φ : ε → ε'} {R : σ → τ → Prop} {a : α} {s : σ} {t : τ}

theorem Matches.mono {S : σ → τ → Prop} {r : EStateM.Result ε σ α} {r' : EStateM.Result ε' τ α}
    (h : Matches φ R r r') (himp : ∀ s t, R s t → S s t) : Matches φ S r r' := by
  cases h with
  | ok a h => exact .ok a (himp _ _ h)
  | error e h => exact .error e (himp _ _ h)

theorem Matches.of_ok_left {r : EStateM.Result ε' τ α} (h : Matches φ R (.ok a s) r) :
    ∃ t, r = .ok a t ∧ R s t := by
  cases h with
  | ok _ h => exact ⟨_, rfl, h⟩

theorem Matches.of_ok_right {r : EStateM.Result ε σ α} (h : Matches φ R r (.ok a t)) :
    ∃ s, r = .ok a s ∧ R s t := by
  cases h with
  | ok _ h => exact ⟨_, rfl, h⟩

end

namespace Assembler

/-- The assembler with the code, the static data and the relocations of another one, and with its
place in the tokens. -/
def withOutput (t s : Assembler) : Assembler :=
  { t with
    object := { t.object with
      code := s.object.code
      static := s.object.static
      relocations := s.object.relocations }
    cursor := s.cursor }

/-- The assembler with one more reference, written at `p`. -/
def recorded (r : Reference) (p : Position) (s : Assembler) : Assembler :=
  { s with
    object := { s.object with unresolved := s.object.unresolved ++ [r] }
    positions := s.positions ++ [p] }

/-- The assembler with zeros in the slot of a reference that waits for it. -/
def unfilled (r : Reference) (p : Position) (s : Assembler) : Assembler :=
  (s.overwriteCode r.offset (List.replicate r.datatype.size 0)).recorded r p

/-- A relation that writing operands keeps, if they are no names. What was not there in front of
them may be overwritten. -/
structure Unseen (R : Assembler → Assembler → Prop) : Prop where
  cursor : ∀ {s t}, R s t → t.cursor = s.cursor
  code : ∀ {s t}, R s t → t.object.code.size = s.object.code.size
  static : ∀ {s t}, R s t → t.object.static.size = s.object.static.size
  appendCode : ∀ {s t} (bytes : List UInt8), R s t → R (s.appendCode bytes) (t.appendCode bytes)
  overwriteCode : ∀ {s t s' t'} {start : Nat} (bytes : List UInt8), R s t →
    s.object.code.size ≤ start → R s' t' →
    R (s'.overwriteCode start bytes) (t'.overwriteCode start bytes)
  appendStatic : ∀ {s t} (bytes : Buffer), R s t → R (s.appendStatic bytes) (t.appendStatic bytes)
  relocate : ∀ {s t} (offset : Nat), R s t →
    R { s with object := { s.object with relocations := s.object.relocations ++ [offset] } }
      { t with object := { t.object with relocations := t.object.relocations ++ [offset] } }

theorem withOutput_overwriteCode (u s : Assembler) (start : Nat) (bytes : List UInt8) :
    (u.withOutput s).overwriteCode start bytes = u.withOutput (s.overwriteCode start bytes) := rfl

theorem unseen_withOutput (u : Assembler) : Unseen fun s t => t = u.withOutput s where
  cursor := by rintro s _ rfl; rfl
  code := by rintro s _ rfl; rfl
  static := by rintro s _ rfl; rfl
  appendCode := by rintro s _ bytes rfl; rfl
  overwriteCode := by rintro s _ s' _ start bytes rfl - rfl; rfl
  appendStatic := by rintro s _ bytes rfl; rfl
  relocate := by rintro s _ offset rfl; rfl

/-- The second assembler has the code of the first, with a slot left open. -/
def LeavesOpen (u : Assembler) (r : Reference) (p : Position) (bytes : List UInt8)
    (s t : Assembler) : Prop :=
  t = (u.withOutput s).unfilled r p ∧ s.object.code.Holds r.offset bytes

variable {bytes : List UInt8}

theorem LeavesOpen.overwriteCode {u s t : Assembler} {r : Reference} {p : Position}
    {xs : List UInt8} {start : Nat} (h : LeavesOpen u r p bytes s t)
    (hbytes : bytes.length = r.datatype.size)
    (hapart : start + xs.length ≤ r.offset ∨ r.offset + r.datatype.size ≤ start) :
    LeavesOpen u r p bytes (s.overwriteCode start xs) (t.overwriteCode start xs) := by
  obtain ⟨rfl, hholds⟩ := h
  have hzeros : Buffer.Apart (r.offset, List.replicate r.datatype.size 0) (start, xs) := by
    simp only [Buffer.Apart, List.length_replicate]
    omega
  have hheld : Buffer.Apart (r.offset, bytes) (start, xs) := by
    simp only [Buffer.Apart, hbytes]
    omega
  refine ⟨?_, hholds.write_apart hheld⟩
  simp only [unfilled, recorded, Assembler.overwriteCode, withOutput, Buffer.write_comm hzeros]

theorem unseen_leavesOpen {u : Assembler} {r : Reference} {p : Position}
    (hbytes : bytes.length = r.datatype.size) : Unseen (LeavesOpen u r p bytes) where
  cursor := by rintro s _ ⟨rfl, -⟩; rfl
  code := by
    rintro s _ ⟨rfl, -⟩
    exact Buffer.size_write _ _ _
  static := by rintro s _ ⟨rfl, -⟩; rfl
  appendCode := by
    rintro s _ more ⟨rfl, hholds⟩
    have hinside : r.offset + (List.replicate r.datatype.size (0 : UInt8)).length ≤
        s.object.code.size := by
      rw [List.length_replicate, ← hbytes]
      exact hholds.1
    refine ⟨?_, hholds.grown (by simp [appendCode])⟩
    simp only [unfilled, recorded, overwriteCode, withOutput, appendCode, Buffer.write_append hinside]
  overwriteCode := by
    intro s t s' t' start more h hstart h'
    refine h'.overwriteCode hbytes (.inr ?_)
    rw [← hbytes]
    exact h.2.1.trans hstart
  appendStatic := by
    rintro s _ more ⟨rfl, hholds⟩
    exact ⟨rfl, hholds⟩
  relocate := by
    rintro s _ offset ⟨rfl, hholds⟩
    exact ⟨rfl, hholds⟩

/-- A slot is open where zeros were added behind the code, for bytes on the other side. -/
theorem LeavesOpen.of_appendCode (u s : Assembler) (x : String) (p : Position) {dt : Datatype}
    (hbytes : bytes.length = dt.size) :
    LeavesOpen u ⟨x, s.object.code.size, dt, u.path⟩ p bytes (s.appendCode bytes)
      (((u.withOutput s).appendCode (List.replicate dt.size 0)).recorded
        ⟨x, s.object.code.size, dt, u.path⟩ p) := by
  have hcode : (s.appendCode bytes).object.code.toList = s.object.code.toList ++ bytes ++ [] := by
    simp [appendCode]
  refine ⟨?_, Buffer.holds_iff_exists.mpr ⟨_, _, hcode, by simp⟩⟩
  have hwrite : (s.appendCode bytes).object.code.write s.object.code.size
      (List.replicate dt.size 0) = s.object.code ++ (List.replicate dt.size (0 : UInt8)).toArray := by
    apply Array.toList_inj.mp
    rw [Buffer.toList_write_middle hcode (by simp) (by simpa using hbytes.symm)]
    simp
  simp only [unfilled, recorded, Assembler.overwriteCode, withOutput]
  rw [hwrite]
  rfl

end Assembler

namespace Asm

open Assembler (Unseen LeavesOpen unseen_withOutput unseen_leavesOpen)

variable {R : Assembler → Assembler → Prop}

/-! ## Operands that are no names -/

/-- The same operand, which is no name. -/
structure Plain (o o' : SourceOperand) : Prop where
  eq : o' = o
  name : ∀ n, o.term ≠ .name n

theorem forall₂_inRole_plain {ps : List (Role × SourceOperand)}
    (hnames : ∀ p ∈ ps, ∀ n, p.2.term ≠ .name n) : List.Forall₂ (InRole Plain) ps ps :=
  List.forall₂_same.mpr fun p hp => ⟨rfl, rfl, hnames p hp⟩

theorem simulates_literalValue (o : SourceOperand) (dt : Datatype) :
    Simulates id R (liftM (Parser.literalValue o dt) : Asm Value)
      (liftM (Parser.literalValue o dt)) := by
  unfold Parser.literalValue
  cases o.value? dt with
  | ok v => exact fun _ _ h => .ok v h
  | error kind => exact fun _ _ h => .error _ h

theorem simulates_failHere (hR : Unseen R) {α : Type} (kind : AssemblyErrorKind) :
    Simulates id R (liftM (Parser.failHere kind : Parser α) : Asm α)
      (liftM (Parser.failHere kind : Parser α)) := by
  intro s t h
  change Matches id R (.error (⟨kind, s.cursor.current.position⟩ : AssemblyError) s)
    (.error (⟨kind, t.cursor.current.position⟩ : AssemblyError) t)
  rw [hR.cursor h]
  exact .error _ h

theorem simulates_storeText (hR : Unseen R) (text : String) :
    Simulates id R (storeText text) (storeText text) := by
  intro s t h
  have hend : t.staticEnd = s.staticEnd := by
    unfold Assembler.staticEnd
    rw [hR.static h]
  change Matches id R (.ok s.staticEnd _) (.ok t.staticEnd _)
  rw [hend]
  exact .ok _ (hR.appendStatic _ h)

/-- What operands write that are no names is the same whatever else there is. -/
theorem pairsWriting_unseen (hR : Unseen R) :
    PairsWriting R (fun {α} (x y : Asm α) => Simulates id R x y) Plain where
  toRelator := Simulates.relator id R
  term h := by rw [h.eq]
  deref h := by rw [h.eq]
  codeSize _ _ := hR.code
  failAt _ h := h.eq ▸ fun _ _ => .error _
  failHere := simulates_failHere hR
  literalValue dt h := h.eq ▸ simulates_literalValue _ dt
  emit bytes _ _ h := .ok () (hR.appendCode bytes h)
  refer _ _ h hterm := absurd hterm (h.name _)
  storeText := simulates_storeText hR
  relocate offset _ _ h := .ok () (hR.relocate offset h)
  overwriteCode bytes := fun ⟨_, _, hfront, hstart⟩ _ _ h =>
    .ok () (hR.overwriteCode bytes hfront hstart h)

variable {o : SourceOperand} {n : Nat} {op : Opcode}

theorem simulates_writeOperand (hR : Unseen R) (hname : ∀ n, o.term ≠ .name n) (role : Role)
    (dt : Datatype) : Simulates id R (writeOperand o role dt) (writeOperand o role dt) :=
  (pairsWriting_unseen hR).writeOperand ⟨rfl, hname⟩ role dt

theorem simulates_writeOperands (hR : Unseen R) (dt : Datatype) {ps : List (Role × SourceOperand)}
    (hnames : ∀ p ∈ ps, ∀ n, p.2.term ≠ .name n) :
    Simulates id R (writeOperands dt ps) (writeOperands dt ps) :=
  (pairsWriting_unseen hR).writeOperands (forall₂_inRole_plain hnames) dt

theorem writes_of_writeOperands {dt : Datatype} {ps : List (Role × SourceOperand)}
    {xs : List Operand} {s s' : Assembler} (h : writeOperands dt ps s = .ok xs s') :
    Assembler.Writes s s' := by
  have hwrites : Relates Assembler.Writes (writeOperands dt ps) := by
    clear h
    induction ps with
    | nil => exact .pure _
    | cons p rest ih => exact .bind (writes_writeOperand _ _ _) fun _ => .bind ih fun _ => .pure _
  exact hwrites.of_ok h

/-- What does the same whatever else there is changes no more than the output. -/
theorem eq_withOutput_of_ok {α : Type} {x : Asm α} {a : α} {s s' : Assembler}
    (hx : ∀ R, Unseen R → Simulates id R x x) (h : x s = .ok a s') : s' = s.withOutput s' := by
  have hmatches := hx _ (unseen_withOutput s) (show s = s.withOutput s from rfl)
  rw [h] at hmatches
  obtain ⟨_, hok, hsame⟩ := hmatches.of_ok_left
  cases hok
  exact hsame

theorem eq_withOutput_of_fillDescriptor {start : Nat} {args : List Operand} {s s' : Assembler}
    (h : fillDescriptor start args s = .ok () s') : s' = s.withOutput s' := by
  have hoverwrite (d : Descriptor) : Simulates id (fun s₁ t₁ => t₁ = s.withOutput s₁)
      (modify (·.overwriteCode start d.toBytes) : Asm Unit)
      (modify (·.overwriteCode start d.toBytes)) := by
    rintro s₁ _ rfl
    exact .ok () (Assembler.withOutput_overwriteCode s s₁ start d.toBytes)
  have hmatches := (pairsWriting_unseen (unseen_withOutput s)).fillDescriptor args hoverwrite
    (show s = s.withOutput s from rfl)
  rw [h] at hmatches
  obtain ⟨_, hok, hsame⟩ := hmatches.of_ok_left
  cases hok
  exact hsame

/-! ## A number and a name -/

/-- A number fills a slot as a plain integer does, wherever it may stand. -/
theorem value?_eq_ok_iff {l : IntLiteral} {v : Value} (role : Role) (dt : Datatype)
    (hterm : o.term = .integer l) (hzero : l.negative = true → l.magnitude ≠ 0) :
    o.value? (role.encodedDatatype dt o.deref) = .ok v ↔
      Value.ofInt? l.toInt (role.encodedDatatype dt o.deref) = some v := by
  unfold SourceOperand.value?
  simp only [hterm]
  split
  · next hnegative =>
    obtain ⟨hderef, hnegative⟩ : o.deref = true ∧ l.negative = true := by simpa using hnegative
    have hmagnitude := hzero hnegative
    have hout : ¬ (Value.minInt false Width.w64.bits ≤ l.toInt ∧
        l.toInt ≤ Value.maxInt false Width.w64.bits) := by
      rintro ⟨hmin, -⟩
      simp only [Value.minInt, IntLiteral.toInt, hnegative] at hmin
      simp at hmin
      omega
    simp [Role.encodedDatatype, hderef, Value.ofInt?, hout]
  · unfold IntLiteral.toValue?
    cases Value.ofInt? l.toInt (role.encodedDatatype dt o.deref) with
    | some w => simp
    | none => simp

theorem writeOperand_integer_iff {l : IntLiteral} {role : Role} {dt : Datatype} {y : Operand}
    {s s' : Assembler} (hterm : o.term = .integer l) (hzero : l.negative = true → l.magnitude ≠ 0) :
    writeOperand o role dt s = .ok y s' ↔
      ∃ v, Value.ofInt? l.toInt (role.encodedDatatype dt o.deref) = some v ∧
        y = ⟨role, role.encodedDatatype dt o.deref, o.deref, v.toCell⟩ ∧
        s' = s.appendCode (v.toCell.bytes (role.encodedDatatype dt o.deref)) := by
  have hcell (offset : Nat) (c : Cell) (s₁ : Assembler) :
      operandCell o offset (role.encodedDatatype dt o.deref) s = .ok c s₁ ↔
        ∃ v, Value.ofInt? l.toInt (role.encodedDatatype dt o.deref) = some v ∧ c = v.toCell ∧
          s₁ = s := by
    unfold operandCell
    simp only [hterm]
    rw [bind_eq_ok]
    simp only [literalValue_eq_ok, value?_eq_ok_iff role dt hterm hzero]
    constructor
    · rintro ⟨v, _, ⟨hv, rfl⟩, hpure⟩
      cases hpure
      exact ⟨v, hv, rfl, rfl⟩
    · rintro ⟨v, hv, rfl, rfl⟩
      exact ⟨v, _, ⟨hv, rfl⟩, rfl⟩
  unfold writeOperand
  rw [get_bind_apply, bind_eq_ok]
  constructor
  · rintro ⟨c, s₁, hok, hemit⟩
    obtain ⟨v, hv, rfl, rfl⟩ := (hcell _ _ _).mp hok
    cases hemit
    exact ⟨v, hv, rfl, rfl⟩
  · rintro ⟨v, hv, rfl, rfl⟩
    exact ⟨_, _, (hcell _ _ _).mpr ⟨v, hv, rfl, rfl⟩, rfl⟩

/-- A name that is no datatype can stand in every slot. -/
theorem writeOperand_renamed (o : SourceOperand) (role : Role) (dt : Datatype) {x : String}
    (hx : Datatype.ofName? x = none) (t : Assembler) :
    writeOperand (o.renamed x) role dt t =
      .ok ⟨role, role.encodedDatatype dt o.deref, o.deref, Cell.zero⟩
        ((t.appendCode (List.replicate (role.encodedDatatype dt o.deref).size 0)).recorded
          ⟨x, t.object.code.size, role.encodedDatatype dt o.deref, t.path⟩ o.token.position) := by
  have hcell : operandCell (o.renamed x) t.object.code.size (role.encodedDatatype dt o.deref) =
      (do refer (o.renamed x) x t.object.code.size (role.encodedDatatype dt o.deref)
          return Cell.zero) :=
    operandCell_name (by simp [Slot.name?, SourceOperand.renamed, hx])
  unfold writeOperand
  rw [get_bind_apply]
  change (operandCell (o.renamed x) t.object.code.size (role.encodedDatatype dt o.deref) >>= _) t = _
  rw [hcell, ← Cell.bytes_zero]
  rfl

/-- A reference to `x`, from inside `path` and behind the first `n` bytes of the code. -/
structure RefersTo (x : String) (path : List String) (n : Nat) (r : Reference) : Prop where
  name : r.name = x
  scope : r.scope = path
  offset : n ≤ r.offset

theorem RefersTo.mono {x : String} {path : List String} {m : Nat} {r : Reference}
    (h : RefersTo x path n r) (hle : m ≤ n) : RefersTo x path m r :=
  ⟨h.name, h.scope, hle.trans h.offset⟩

/-- What of the operands of an instruction stands in its header and its descriptor. -/
def shapes (xs : List Operand) : List (Role × Bool) := xs.map fun o => (o.role, o.deref)

variable {l : IntLiteral} {x : String} {dt : Datatype} {ps qs : List (Role × SourceOperand)}
  {xs ys : List Operand} {s s' t' : Assembler} {u : Assembler}

/-- The second assembler has left a slot behind the first `n` bytes open for `x`, and the first has
filled it with the number. -/
def Opens (l : IntLiteral) (x : String) (u : Assembler) (n : Nat) (s' t' : Assembler) : Prop :=
  ∃ r p v, RefersTo x u.path n r ∧ Value.ofInt? l.toInt r.datatype = some v ∧
    LeavesOpen u r p (v.toCell.bytes r.datatype) s' t'

/-- Operands with a name leave its slot open, where those with the number fill it. The induction
is on the operands in front of it. -/
theorem writeOperands_renamed (h : OperandsRenamed l x ps qs)
    (hnames : ∀ p ∈ ps, ∀ n, p.2.term ≠ .name n) (hzero : l.negative = true → l.magnitude ≠ 0)
    (hx : Datatype.ofName? x = none) (hs : writeOperands dt ps s = .ok xs s') :
    ∃ ys t', writeOperands dt qs (u.withOutput s) = .ok ys t' ∧
      Opens l x u s.object.code.size s' t' ∧ shapes ys = shapes xs := by
  induction h generalizing s xs with
  | @here role o rest hterm =>
    obtain ⟨y, s₁, hy, hs⟩ := bind_eq_ok.mp hs
    obtain ⟨zs, s₂, hrest, hs⟩ := bind_eq_ok.mp hs
    cases hs
    obtain ⟨v, hv, rfl, rfl⟩ := (writeOperand_integer_iff hterm hzero).mp hy
    have hopen := LeavesOpen.of_appendCode u s x o.token.position
      (v.toCell.length_bytes (role.encodedDatatype dt o.deref))
    obtain ⟨t', ht', hopen'⟩ := Matches.of_ok_left (hrest ▸ simulates_writeOperands
      (unseen_leavesOpen (v.toCell.length_bytes _)) dt
      (fun q hq => hnames q (List.mem_cons_of_mem _ hq)) hopen)
    exact ⟨_, t', bind_eq_ok.mpr ⟨_, _, writeOperand_renamed o role dt hx _,
      bind_eq_ok.mpr ⟨_, _, ht', rfl⟩⟩, ⟨_, _, v, ⟨rfl, rfl, Nat.le_refl _⟩, hv, hopen'⟩, rfl⟩
  | @there q rest rest' hrest ih =>
    obtain ⟨y, s₁, hy, hs⟩ := bind_eq_ok.mp hs
    obtain ⟨zs, s₂, hzs, hs⟩ := bind_eq_ok.mp hs
    cases hs
    have hsame := simulates_writeOperand (unseen_withOutput u) (hnames q List.mem_cons_self) q.1 dt
      (show u.withOutput s = u.withOutput s from rfl)
    obtain ⟨_, hy', rfl⟩ := Matches.of_ok_left (hy ▸ hsame)
    obtain ⟨ys, t', hys, ⟨r, p, v, hr, hv, hopen⟩, hshapes⟩ :=
      ih (fun q hq => hnames q (List.mem_cons_of_mem _ hq)) hzs
    have hle : s.object.code.size ≤ s₁.object.code.size :=
      Assembler.size_le_of_grown ((writes_writeOperand _ _ _).of_ok hy).code
    exact ⟨y :: ys, t', bind_eq_ok.mpr ⟨_, _, hy', bind_eq_ok.mpr ⟨_, _, hys, rfl⟩⟩,
      ⟨r, p, v, hr.mono hle, hv, hopen⟩, by simpa [shapes] using hshapes⟩

/-- A reference to `x` was recorded whose slot has no room for the number. -/
def Misfits (l : IntLiteral) (x : String) (u t' : Assembler) : Prop :=
  ∃ r p, r.name = x ∧ r.scope = u.path ∧ Value.ofInt? l.toInt r.datatype = none ∧
    t' = (u.withOutput t').recorded r p

theorem Misfits.withOutput {t : Assembler} (h : Misfits l x u t) (ht' : t' = t.withOutput t') :
    Misfits l x u t' := by
  obtain ⟨r, p, hname, hscope, hmisfit, ht⟩ := h
  refine ⟨r, p, hname, hscope, hmisfit, ?_⟩
  rw [ht] at ht'
  exact ht'

/-- Where the name can be written, so can the number, unless it does not fit. -/
theorem writeOperands_of_renamed (h : OperandsRenamed l x ps qs)
    (hnames : ∀ p ∈ ps, ∀ n, p.2.term ≠ .name n) (hzero : l.negative = true → l.magnitude ≠ 0)
    (hx : Datatype.ofName? x = none) (ht : writeOperands dt qs (u.withOutput s) = .ok ys t') :
    (∃ xs s', writeOperands dt ps s = .ok xs s') ∨ Misfits l x u t' := by
  induction h generalizing s ys with
  | @here role o rest hterm =>
    have hrestNames : ∀ p ∈ rest, ∀ n, p.2.term ≠ .name n := fun q hq =>
      hnames q (List.mem_cons_of_mem _ hq)
    obtain ⟨y, t₁, hy, ht⟩ := bind_eq_ok.mp ht
    obtain ⟨zs, t₂, hrest, ht⟩ := bind_eq_ok.mp ht
    cases ht
    rw [writeOperand_renamed o role dt hx] at hy
    cases hy
    cases hv : Value.ofInt? l.toInt (role.encodedDatatype dt o.deref) with
    | some v =>
      have hopen := LeavesOpen.of_appendCode u s x o.token.position
        (v.toCell.length_bytes (role.encodedDatatype dt o.deref))
      have hmatches := simulates_writeOperands
        (unseen_leavesOpen (v.toCell.length_bytes _)) dt hrestNames hopen
      obtain ⟨s', hs', -⟩ := Matches.of_ok_right (hrest ▸ hmatches)
      exact .inl ⟨_, s', bind_eq_ok.mpr ⟨_, _, (writeOperand_integer_iff hterm hzero).mpr
        ⟨v, hv, rfl, rfl⟩, bind_eq_ok.mpr ⟨_, _, hs', rfl⟩⟩⟩
    | none =>
      have hmisfits : Misfits l x u
          (((u.withOutput s).appendCode
            (List.replicate (role.encodedDatatype dt o.deref).size 0)).recorded
            ⟨x, s.object.code.size, role.encodedDatatype dt o.deref, u.path⟩ o.token.position) :=
        ⟨_, _, rfl, rfl, hv, rfl⟩
      exact .inr (hmisfits.withOutput (eq_withOutput_of_ok
        (fun R hR => simulates_writeOperands hR dt hrestNames) hrest))
  | @there q rest rest' hrest ih =>
    obtain ⟨y, t₁, hy, ht⟩ := bind_eq_ok.mp ht
    obtain ⟨zs, t₂, hzs, ht⟩ := bind_eq_ok.mp ht
    cases ht
    have hsame := simulates_writeOperand (unseen_withOutput u) (hnames q List.mem_cons_self) q.1 dt
      (show u.withOutput s = u.withOutput s from rfl)
    obtain ⟨s₁, hy', rfl⟩ := Matches.of_ok_right (hy ▸ hsame)
    rcases ih (fun q hq => hnames q (List.mem_cons_of_mem _ hq)) hzs with ⟨xs, s', hs'⟩ | hmisfits
    · exact .inl ⟨_, s', bind_eq_ok.mpr ⟨_, _, hy', bind_eq_ok.mpr ⟨_, _, hs', rfl⟩⟩⟩
    · exact .inr hmisfits

/-! ## Instructions -/

theorem argumentTypes_congr (h : shapes ys = shapes xs) : argumentTypes ys = argumentTypes xs := by
  induction xs generalizing ys with
  | nil => rw [List.map_eq_nil_iff.mp h]
  | cons x xs ih =>
    obtain ⟨y, ys, rfl, hy, hrest⟩ := List.map_eq_cons_iff.mp h
    have hrole : y.role = x.role := congrArg Prod.fst hy
    have ih := ih hrest
    unfold argumentTypes at ih ⊢
    rw [List.filterMap_cons, List.filterMap_cons, hrole, ih]

theorem maskOf_congr (h : shapes ys = shapes xs) : maskOf ys = maskOf xs := by
  have hderef := congrArg (List.map Prod.snd) h
  simp only [shapes, List.map_map] at hderef
  exact congrArg UInt16.ofNat (derefBits_congr hderef)

theorem writeArguments_of_variadic (hvariadic : op.layout.variadic = true) (s : Assembler) :
    writeArguments op dt ps s = (do
      let args ← writeOperands dt ps
      fillDescriptor s.object.code.size args
      return args) (s.appendCode (List.replicate Descriptor.size 0)) := by
  unfold writeArguments
  rw [if_pos hvariadic]
  rfl

/-- Typed arguments that are no names are written the same whatever else there is. -/
theorem simulates_writeArguments (hR : Unseen R) (op : Opcode) (dt : Datatype)
    (hnames : ∀ p ∈ ps, ∀ n, p.2.term ≠ .name n) :
    Simulates id R (writeArguments op dt ps) (writeArguments op dt ps) :=
  (pairsWriting_unseen hR).writeArguments (forall₂_inRole_plain hnames) op dt

/-- The descriptor is in front of the slots of the arguments. -/
theorem Opens.fillDescriptor {s₁ t₁ : Assembler} (h : Opens l x u (n + Descriptor.size) s₁ t₁)
    (args : List Operand) :
    Matches id (Opens l x u n) (fillDescriptor n args s₁) (fillDescriptor n args t₁) := by
  obtain ⟨r, p, v, hr, hv, hopen⟩ := h
  have hbytes := v.toCell.length_bytes r.datatype
  have hfront := hr.offset
  have hmatches := (pairsWriting_unseen (unseen_leavesOpen hbytes)).fillDescriptor args
    (fun d s t h => .ok () (h.overwriteCode hbytes
      (.inl (by rw [Descriptor.length_toBytes]; exact hfront)))) hopen
  refine hmatches.mono fun s t hst => ?_
  exact ⟨r, p, v, hr.mono (Nat.le_add_right _ _), hv, hst⟩

theorem writeArguments_renamed (h : OperandsRenamed l x ps qs)
    (hnames : ∀ p ∈ ps, ∀ n, p.2.term ≠ .name n) (hzero : l.negative = true → l.magnitude ≠ 0)
    (hx : Datatype.ofName? x = none) (hvariadic : op.layout.variadic = true)
    (hs : writeArguments op dt ps s = .ok xs s') :
    ∃ ys t', writeArguments op dt qs (u.withOutput s) = .ok ys t' ∧
      Opens l x u s.object.code.size s' t' ∧ shapes ys = shapes xs := by
  rw [writeArguments_of_variadic hvariadic] at hs
  obtain ⟨os, s₁, hos, hs⟩ := bind_eq_ok.mp hs
  obtain ⟨_, s₂, hfill, hs⟩ := bind_eq_ok.mp hs
  cases hs
  obtain ⟨ys, t₁, hys, hopens, hshapes⟩ := writeOperands_renamed (u := u) h hnames hzero hx hos
  have hsize : (s.appendCode (List.replicate Descriptor.size 0)).object.code.size =
      s.object.code.size + Descriptor.size := by simp [Assembler.appendCode]
  rw [hsize] at hopens
  obtain ⟨t₂, hfill', hopens'⟩ := Matches.of_ok_left (hfill ▸ hopens.fillDescriptor xs)
  refine ⟨ys, t₂, ?_, hopens', hshapes⟩
  rw [writeArguments_of_variadic hvariadic]
  refine bind_eq_ok.mpr ⟨ys, t₁, hys, bind_eq_ok.mpr ⟨(), t₂, ?_, rfl⟩⟩
  unfold fillDescriptor at hfill' ⊢
  rw [argumentTypes_congr hshapes]
  exact hfill'

theorem writeArguments_of_renamed (h : OperandsRenamed l x ps qs)
    (hnames : ∀ p ∈ ps, ∀ n, p.2.term ≠ .name n) (hzero : l.negative = true → l.magnitude ≠ 0)
    (hx : Datatype.ofName? x = none) (hvariadic : op.layout.variadic = true)
    (ht : writeArguments op dt qs (u.withOutput s) = .ok ys t') :
    (∃ xs s', writeArguments op dt ps s = .ok xs s') ∨ Misfits l x u t' := by
  rw [writeArguments_of_variadic hvariadic] at ht
  obtain ⟨os, t₁, hos, ht⟩ := bind_eq_ok.mp ht
  obtain ⟨_, t₂, hfill, ht⟩ := bind_eq_ok.mp ht
  cases ht
  rcases writeOperands_of_renamed (s := s.appendCode (List.replicate Descriptor.size 0)) h hnames
    hzero hx hos with ⟨xs, s₁, hs₁⟩ | hmisfits
  · obtain ⟨_, _, hos', hopens, hshapes⟩ := writeOperands_renamed (u := u) h hnames hzero hx hs₁
    cases hos.symm.trans hos'
    have hsize : (s.appendCode (List.replicate Descriptor.size 0)).object.code.size =
        s.object.code.size + Descriptor.size := by simp [Assembler.appendCode]
    rw [hsize] at hopens
    obtain ⟨s₂, hfill', -⟩ := Matches.of_ok_right (hfill ▸ hopens.fillDescriptor ys)
    refine .inl ⟨xs, s₂, ?_⟩
    rw [writeArguments_of_variadic hvariadic]
    refine bind_eq_ok.mpr ⟨xs, s₁, hs₁, bind_eq_ok.mpr ⟨(), s₂, ?_, rfl⟩⟩
    unfold fillDescriptor at hfill' ⊢
    rw [← argumentTypes_congr hshapes]
    exact hfill'
  · exact .inr (hmisfits.withOutput (eq_withOutput_of_fillDescriptor hfill))

/-- The mask in the header is in front of the slots of the operands. -/
theorem Opens.overwriteMask {s₁ t₁ : Assembler} (h : Opens l x u (n + 4) s₁ t₁) (mask : Nat) :
    Opens l x u n (s₁.overwriteCode (n + 2) (littleEndian 2 mask))
      (t₁.overwriteCode (n + 2) (littleEndian 2 mask)) := by
  obtain ⟨r, p, v, hr, hv, hopen⟩ := h
  refine ⟨r, p, v, hr.mono (Nat.le_add_right _ _), hv,
    hopen.overwriteCode (v.toCell.length_bytes _) (.inl ?_)⟩
  rw [length_littleEndian]
  exact hr.offset

variable {j j' : SourceInstruction}

theorem writeInstruction_eq (j : SourceInstruction) (hop : j.opcode ≠ .convert) (s : Assembler) :
    writeInstruction j s = (do
      let fixed ← writeOperands j.datatype j.fixed
      let args ← writeArguments j.opcode j.datatype j.args
      modify (·.overwriteCode (s.object.code.size + 2)
        (littleEndian 2 (maskOf (fixed ++ args)).toNat)) : Asm Unit)
        (s.appendCode (encodeHeader j.opcode j.datatype 0)) := by
  rw [← writeLayout_of_ne hop]
  rfl

theorem size_appendHeader (op : Opcode) (dt : Datatype) (s : Assembler) :
    (s.appendCode (encodeHeader op dt 0)).object.code.size = s.object.code.size + 4 := by
  simp [Assembler.appendCode, length_encodeHeader, headerSize]

/-- An instruction with a name leaves its slot open, where the one with the number fills it. -/
theorem writeInstruction_renamed (h : j.Renamed l x j') (hop : j.opcode ≠ .convert)
    (hnames : ∀ p ∈ j.operands, ∀ n, p.2.term ≠ .name n)
    (hzero : l.negative = true → l.magnitude ≠ 0) (hx : Datatype.ofName? x = none)
    (hvariadic : j.args ≠ [] → j.opcode.layout.variadic = true)
    (hs : writeInstruction j s = .ok () s') :
    ∃ t', writeInstruction j' s = .ok () t' ∧ Opens l x s s.object.code.size s' t' := by
  have hfixedNames (p : Role × SourceOperand) (hp : p ∈ j.fixed) :=
    hnames p (List.mem_append_left j.args hp)
  have hargsNames (p : Role × SourceOperand) (hp : p ∈ j.args) :=
    hnames p (List.mem_append_right j.fixed hp)
  rw [writeInstruction_eq j hop] at hs
  obtain ⟨fixed, s₁, hfixed, hs⟩ := bind_eq_ok.mp hs
  obtain ⟨args, s₂, hargs, hs⟩ := bind_eq_ok.mp hs
  cases hs
  cases h with
  | @fixed qs hrenamed =>
    obtain ⟨fixed', t₁, hfixed', ⟨r, p, v, hr, hv, hopen⟩, hshapes⟩ :=
      writeOperands_renamed (u := s) hrenamed hfixedNames hzero hx hfixed
    rw [size_appendHeader] at hr
    have hmatches := simulates_writeArguments (unseen_leavesOpen (v.toCell.length_bytes r.datatype))
      j.opcode j.datatype hargsNames hopen
    obtain ⟨t₂, hargs', hopen'⟩ := Matches.of_ok_left (hargs ▸ hmatches)
    have hmask : maskOf (fixed' ++ args) = maskOf (fixed ++ args) :=
      maskOf_congr (by simpa [shapes] using hshapes)
    refine ⟨_, ?_, Opens.overwriteMask ⟨r, p, v, hr, hv, hopen'⟩ _⟩
    rw [writeInstruction_eq { j with fixed := qs } hop, ← hmask]
    exact bind_eq_ok.mpr ⟨fixed', t₁, hfixed', bind_eq_ok.mpr ⟨args, t₂, hargs', rfl⟩⟩
  | @args qs hrenamed =>
    have hsame := eq_withOutput_of_ok
      (fun R hR => simulates_writeOperands hR j.datatype hfixedNames) hfixed
    obtain ⟨args', t₂, hargs', ⟨r, p, v, hr, hv, hopen⟩, hshapes⟩ :=
      writeArguments_renamed (u := s) hrenamed hargsNames hzero hx
        (hvariadic (by rintro hnil; rw [hnil] at hrenamed; cases hrenamed)) hargs
    have hle : s.object.code.size + 4 ≤ s₁.object.code.size := by
      rw [← size_appendHeader j.opcode j.datatype]
      exact Assembler.size_le_of_grown (writes_of_writeOperands hfixed).code
    have hmask : maskOf (fixed ++ args') = maskOf (fixed ++ args) :=
      maskOf_congr (by simpa [shapes] using hshapes)
    refine ⟨_, ?_, Opens.overwriteMask ⟨r, p, v, hr.mono hle, hv, hopen⟩ _⟩
    rw [writeInstruction_eq { j with args := qs } hop, ← hmask]
    refine bind_eq_ok.mpr ⟨fixed, s₁, hfixed, bind_eq_ok.mpr ⟨args', t₂, ?_, rfl⟩⟩
    rw [hsame]
    exact hargs'

/-- Where the instruction with the name can be written, so can the one with the number, unless it
does not fit. -/
theorem writeInstruction_of_renamed (h : j.Renamed l x j') (hop : j.opcode ≠ .convert)
    (hnames : ∀ p ∈ j.operands, ∀ n, p.2.term ≠ .name n)
    (hzero : l.negative = true → l.magnitude ≠ 0) (hx : Datatype.ofName? x = none)
    (hvariadic : j.args ≠ [] → j.opcode.layout.variadic = true)
    (ht : writeInstruction j' s = .ok () t') :
    (∃ s', writeInstruction j s = .ok () s') ∨ Misfits l x s t' := by
  have hfixedNames (p : Role × SourceOperand) (hp : p ∈ j.fixed) :=
    hnames p (List.mem_append_left j.args hp)
  have hargsNames (p : Role × SourceOperand) (hp : p ∈ j.args) :=
    hnames p (List.mem_append_right j.fixed hp)
  rw [writeInstruction_eq j' (h.opcode ▸ hop)] at ht
  obtain ⟨fixed, t₁, hfixed, ht⟩ := bind_eq_ok.mp ht
  obtain ⟨args, t₂, hargs, ht⟩ := bind_eq_ok.mp ht
  cases ht
  cases h with
  | @fixed qs hrenamed =>
    rcases writeOperands_of_renamed (u := s)
      (s := s.appendCode (encodeHeader j.opcode j.datatype 0)) hrenamed hfixedNames hzero hx hfixed
      with ⟨xs, s₁, hs₁⟩ | hmisfits
    · obtain ⟨_, _, hfixed', ⟨r, p, v, -, -, hopen⟩, -⟩ :=
        writeOperands_renamed (u := s) hrenamed hfixedNames hzero hx hs₁
      cases hfixed.symm.trans hfixed'
      have hmatches := simulates_writeArguments
        (unseen_leavesOpen (v.toCell.length_bytes r.datatype)) j.opcode j.datatype hargsNames hopen
      obtain ⟨s₂, hs₂, -⟩ := Matches.of_ok_right (hargs ▸ hmatches)
      exact .inl ⟨_, (writeInstruction_eq j hop s).trans
        (bind_eq_ok.mpr ⟨xs, s₁, hs₁, bind_eq_ok.mpr ⟨args, s₂, hs₂, rfl⟩⟩)⟩
    · have hmisfits' := hmisfits.withOutput (eq_withOutput_of_ok
        (fun R hR => simulates_writeArguments hR j.opcode j.datatype hargsNames) hargs)
      exact .inr (hmisfits'.withOutput rfl)
  | @args qs hrenamed =>
    have hsame := eq_withOutput_of_ok
      (fun R hR => simulates_writeOperands hR j.datatype hfixedNames) hfixed
    have hargs' : writeArguments j.opcode j.datatype qs (s.withOutput t₁) = .ok args t₂ := by
      rw [hsame] at hargs
      exact hargs
    rcases writeArguments_of_renamed (u := s) hrenamed hargsNames hzero hx
      (hvariadic (by rintro hnil; rw [hnil] at hrenamed; cases hrenamed)) hargs'
      with ⟨xs, s₂, hs₂⟩ | hmisfits
    · exact .inl ⟨_, (writeInstruction_eq j hop s).trans
        (bind_eq_ok.mpr ⟨fixed, t₁, hfixed, bind_eq_ok.mpr ⟨xs, s₂, hs₂, rfl⟩⟩)⟩
    · exact .inr (hmisfits.withOutput rfl)

/-- An instruction without names is written the same whatever else there is. -/
theorem writeInstruction_withOutput (hop : j.opcode ≠ .convert)
    (hnames : ∀ p ∈ j.operands, ∀ n, p.2.term ≠ .name n) (u : Assembler)
    (hs : writeInstruction j s = .ok () s') :
    writeInstruction j (u.withOutput s) = .ok () (u.withOutput s') := by
  have hfixedNames (p : Role × SourceOperand) (hp : p ∈ j.fixed) :=
    hnames p (List.mem_append_left j.args hp)
  have hargsNames (p : Role × SourceOperand) (hp : p ∈ j.args) :=
    hnames p (List.mem_append_right j.fixed hp)
  rw [writeInstruction_eq j hop] at hs
  obtain ⟨fixed, s₁, hfixed, hs⟩ := bind_eq_ok.mp hs
  obtain ⟨args, s₂, hargs, hs⟩ := bind_eq_ok.mp hs
  cases hs
  have hfixed' := simulates_writeOperands (unseen_withOutput u) j.datatype hfixedNames
    (show u.withOutput (s.appendCode (encodeHeader j.opcode j.datatype 0)) = u.withOutput _ from rfl)
  obtain ⟨_, hfixed', rfl⟩ := Matches.of_ok_left (hfixed ▸ hfixed')
  have hargs' := simulates_writeArguments (unseen_withOutput u) j.opcode j.datatype hargsNames
    (show u.withOutput s₁ = u.withOutput s₁ from rfl)
  obtain ⟨_, hargs', rfl⟩ := Matches.of_ok_left (hargs ▸ hargs')
  exact (writeInstruction_eq j hop (u.withOutput s)).trans
    (bind_eq_ok.mpr ⟨fixed, _, hfixed', bind_eq_ok.mpr ⟨args, _, hargs', rfl⟩⟩)

/-- It changes no more than the output. -/
theorem eq_withOutput_of_writeInstruction (hop : j.opcode ≠ .convert)
    (hnames : ∀ p ∈ j.operands, ∀ n, p.2.term ≠ .name n)
    (hs : writeInstruction j s = .ok () s') : s' = s.withOutput s' := by
  have hsame : writeInstruction j s = .ok () (s.withOutput s') :=
    writeInstruction_withOutput hop hnames s hs
  exact (EStateM.Result.ok.inj (hs.symm.trans hsame)).2

end Asm

end CellMachine
