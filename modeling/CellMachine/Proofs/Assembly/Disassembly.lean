import CellMachine.Proofs.Assembly.Patching

/-!
# Disassembling what was assembled

The disassembler finds in the code of an assembler the instructions that the source has asked for,
each behind the other from the first byte to the last (`Assembler.disassembleAll_feed`). Opcode,
datatype, roles and dereferences are those of the source, and every operand whose value the
source gives has that value.
-/

namespace CellMachine

/-! ## Well-formed encodings -/

theorem EncodesOperand.wellFormed {dt : Datatype} {source : Option Datatype}
    {p : Role × SourceOperand} {x : Operand} (h : EncodesOperand dt source p x) :
    x.WellFormed dt := by
  obtain ⟨v, hv, -, rfl⟩ := h
  exact ⟨hv, v.fits_toCell⟩

theorem wellFormed_of_encodes {dt : Datatype} {source : Role × SourceOperand → Option Datatype}
    {ps : List (Role × SourceOperand)} {xs : List Operand}
    (h : List.Forall₂ (fun p => EncodesOperand dt (source p) p) ps xs) :
    ∀ x ∈ xs, x.WellFormed dt := by
  induction h with
  | nil => simp
  | cons hx _ ih =>
    intro y hy
    rcases List.mem_cons.mp hy with rfl | hy
    · exact hx.wellFormed
    · exact ih y hy

variable {x : Instruction} {e : Emission} {code : Buffer} {es : List Emission}

theorem SourceInstruction.Encodes.wellFormed {i : SourceInstruction} (h : i.Encodes x) :
    x.WellFormed := by
  have hfixed := h.fixed.length_eq
  have hargs := h.args.length_eq
  have hcount := h.count
  have hroles : i.fixed.length ≤ 3 := by
    rw [← List.length_map (f := (·.1)), h.roles]
    exact Opcode.length_fixedRoles_le _ _
  have htypes := h.length_types
  refine ⟨?_, ?_, ?_, ?_, ?_⟩
  · rw [Asm.roles_of_encodes h.fixed, h.roles, h.opcode, h.datatype]
  · intro o ho
    rw [h.datatype]
    rcases List.mem_append.mp ho with ho | ho
    · exact wellFormed_of_encodes h.fixed o ho
    · exact wellFormed_of_encodes h.args o ho
  · rw [h.mask]
    refine masks_maskOf ?_
    simp only [Instruction.operands, List.length_append, ← hfixed, ← hargs]
    have : (if i.opcode.layout.variadic then Descriptor.maxArgs else 0) ≤ 8 := by split <;> decide
    omega
  · intro hvariadic
    rw [h.opcode] at hvariadic
    rw [if_pos hvariadic] at hcount
    refine ⟨i.types, _, (Asm.roles_of_encodes h.args).trans h.typed, h.types,
      if_pos (by omega), ?_⟩
    rw [h.descriptor, if_pos hvariadic]
    exact if_pos (by omega)
  · intro hplain
    rw [h.opcode] at hplain
    rw [hplain] at hcount
    have hnil : i.args = [] := by simpa using hcount
    refine ⟨by rw [h.descriptor, hplain]; rfl, ?_⟩
    simpa [hnil] using h.args

theorem Emission.Encodes.wellFormed (h : e.Encodes x) : x.WellFormed := by
  cases e with
  | written i => exact SourceInstruction.Encodes.wellFormed h
  | frame =>
    rw [show x = Asm.plainInstruction .pushFrame from h]
    exact ⟨rfl, by simp [Instruction.operands, Asm.plainInstruction], trivial,
      fun hvariadic => (Bool.false_ne_true hvariadic).elim, fun _ => ⟨rfl, rfl⟩⟩
  | growth size =>
    rw [show x = Asm.growStack size from h]
    refine ⟨rfl, ?_, ⟨Nat.zero_testBit 0, trivial⟩,
      fun hvariadic => (Bool.false_ne_true hvariadic).elim, fun _ => ⟨rfl, rfl⟩⟩
    simp only [Instruction.operands, Asm.growStack, List.append_nil, List.mem_singleton, forall_eq]
    exact ⟨rfl, Cell.fits_of_size_eq rfl⟩

/-! ## Listings -/

/-- How an operand of the source is listed. -/
structure SourceInstruction.ListsOperand (i : SourceInstruction) (p : Role × SourceOperand)
    (x : ListedOperand) : Prop where
  role : x.role = p.1
  deref : x.deref = p.2.deref
  datatype : x.value.datatype = p.1.encodedDatatype i.datatype p.2.deref
  denotes : p.2.Denotes (readAs i.source? p) x.value

/-- How an emission is listed. -/
def Emission.Lists : Emission → Listed → Prop
  | .written i, l => l.opcode = i.opcode ∧ l.datatype = i.datatype ∧
      List.Forall₂ i.ListsOperand i.operands l.operands ∧ l.size = i.size
  | .frame, l => l.opcode = .pushFrame ∧ l.datatype = .none ∧ l.operands = [] ∧
      l.size = headerSize
  | .growth size, l => l.opcode = .spAdd ∧ l.datatype = .none ∧
      l.operands = [⟨.value, false, .ofUInt64 (UInt64.ofNat size)⟩] ∧
      l.size = headerSize + Datatype.u64.size

/-- Instructions stand one behind the other from `pos` to `stop`. -/
def Tiles (stop : Nat) : Nat → List Listed → Prop
  | pos, [] => pos = stop
  | pos, l :: rest => l.offset = pos ∧ Tiles stop (pos + l.size) rest

theorem mapM_listed {i : SourceInstruction} {source : Role × SourceOperand → Option Datatype}
    {ps : List (Role × SourceOperand)} {xs : List Operand} (offset : Nat)
    (hsource : ∀ p ∈ ps, source p = readAs i.source? p)
    (h : List.Forall₂ (fun p => EncodesOperand i.datatype (source p) p) ps xs) :
    ∃ ls, xs.mapM (Operand.listed offset) = .ok ls ∧ List.Forall₂ i.ListsOperand ps ls := by
  induction h with
  | nil => exact ⟨[], rfl, .nil⟩
  | @cons p x ps xs hx _ ih =>
    obtain ⟨v, hv, hdenotes, rfl⟩ := hx
    obtain ⟨ls, hls, hlists⟩ := ih fun q hq => hsource q (List.mem_cons_of_mem _ hq)
    refine ⟨⟨p.1, p.2.deref, v⟩ :: ls, ?_, .cons ⟨rfl, rfl, hv, ?_⟩ hlists⟩
    · simp [List.mapM_cons, Operand.listed, v.ofCell?_toCell, hls, bind, Except.bind, pure,
        Except.pure]
    · rw [← hsource p (by simp)]
      exact hdenotes

theorem mapM_append_ok {offset : Nat} {xs ys : List Operand} {ls ms : List ListedOperand}
    (hx : xs.mapM (Operand.listed offset) = .ok ls)
    (hy : ys.mapM (Operand.listed offset) = .ok ms) :
    (xs ++ ys).mapM (Operand.listed offset) = .ok (ls ++ ms) := by
  rw [List.mapM_append, hx, hy]
  rfl

/-- An instruction is listed where its encoding stands. -/
theorem disassemble_of_encodes {pos : Nat} (h : e.Encodes x) (hcode : code.Holds pos x.encode) :
    ∃ l, disassemble code pos = .ok l ∧ e.Lists l ∧ l.offset = pos := by
  have hdecode := decode_of_holds h.wellFormed hcode
  have hsize := h.size_eq
  unfold disassemble
  simp only [hdecode, bind, Except.bind]
  cases e with
  | written i =>
    have htyped : ∀ p ∈ i.args, none = readAs i.source? p := by
      intro p hp
      have hrole : p.1 ∈ i.types.map .typed := h.typed ▸ List.mem_map_of_mem hp
      obtain ⟨t, -, ht⟩ := List.mem_map.mp hrole
      simp [readAs, ← ht]
    obtain ⟨ls, hls, hfixed⟩ := mapM_listed pos (fun _ _ => rfl) h.fixed
    obtain ⟨ms, hms, hargs⟩ := mapM_listed pos htyped h.args
    rw [Instruction.operands, mapM_append_ok hls hms]
    exact ⟨_, rfl, ⟨h.opcode, h.datatype, List.rel_append hfixed hargs, hsize⟩, rfl⟩
  | frame =>
    rw [show x = Asm.plainInstruction .pushFrame from h]
    exact ⟨_, rfl, ⟨rfl, rfl, rfl, rfl⟩, rfl⟩
  | growth size =>
    rw [show x = Asm.growStack size from h]
    exact ⟨_, rfl, ⟨rfl, rfl, by simp; rfl, rfl⟩, rfl⟩

theorem Emission.Lists.size_eq {l : Listed} (h : e.Lists l) : l.size = e.size := by
  cases e with
  | written i => exact h.2.2.2
  | frame => exact h.2.2.2
  | growth size => exact h.2.2.2

/-- Instructions are listed one behind the other, if there are no more than `n`. -/
theorem disassembleFrom_of_encodes {xs : List Instruction} {pre : List UInt8} {n : Nat}
    (h : List.Forall₂ Emission.Encodes es xs)
    (hcode : code.toList = pre ++ xs.flatMap Instruction.encode) (hn : xs.length ≤ n) :
    ∃ ls, disassembleFrom code pre.length n = .ok ls ∧ List.Forall₂ Emission.Lists es ls ∧
      Tiles code.size pre.length ls := by
  -- What has been listed moves to `pre`, so that the rest starts where the next instruction does.
  induction h generalizing pre n with
  | nil =>
    have hsize : pre.length = code.size := by
      rw [← Array.length_toList, hcode]
      simp
    refine ⟨[], ?_, .nil, hsize⟩
    cases n with
    | zero => rfl
    | succ n => simp [disassembleFrom, hsize]
  | @cons e x es xs hx _ ih =>
    simp only [List.length_cons] at hn
    obtain ⟨n, rfl⟩ : ∃ m, n = m + 1 := ⟨n - 1, by omega⟩
    rw [List.flatMap_cons, ← List.append_assoc] at hcode
    obtain ⟨l, hl, hlists, hoffset⟩ := disassemble_of_encodes hx (Buffer.holds_of_toList hcode)
    obtain ⟨ls, hls, hrest, htiles⟩ := ih hcode (Nat.le_of_succ_le_succ hn)
    have hlen : (pre ++ x.encode).length = pre.length + l.size := by
      rw [List.length_append, Instruction.length_encode, hx.size_eq, hlists.size_eq]
    rw [hlen] at hls htiles
    have hinside : pre.length < code.size := by
      have := x.headerSize_le_size
      rw [← Array.length_toList, hcode]
      simp only [List.length_append, Instruction.length_encode]
      unfold headerSize at this
      omega
    refine ⟨l :: ls, ?_, .cons hlists hrest, hoffset, htiles⟩
    simp only [disassembleFrom, if_pos hinside, hl, hls, bind, Except.bind, pure, Except.pure]

theorem length_le_length_flatMap_encode (xs : List Instruction) :
    xs.length ≤ (xs.flatMap Instruction.encode).length := by
  induction xs with
  | nil => simp
  | cons x xs ih =>
    have := x.headerSize_le_size
    unfold headerSize at this
    simp only [List.flatMap_cons, List.length_append, List.length_cons, Instruction.length_encode]
    omega

/-- The disassembler finds in a code buffer what `es` ask for, from its first byte to its last. -/
def ListedAs (es : List Emission) (code : Buffer) : Prop :=
  ∃ ls, disassembleAll code = .ok ls ∧ List.Forall₂ Emission.Lists es ls ∧ Tiles code.size 0 ls

theorem listedAs_of_encodes
    (h : ∃ xs, List.Forall₂ Emission.Encodes es xs ∧ code.toList = xs.flatMap Instruction.encode) :
    ListedAs es code := by
  obtain ⟨xs, hxs, hcode⟩ := h
  have hlen : xs.length ≤ code.size := by
    rw [← Array.length_toList, hcode]
    exact length_le_length_flatMap_encode xs
  have hfrom : code.toList = [] ++ xs.flatMap Instruction.encode := hcode
  exact disassembleFrom_of_encodes hxs hfrom hlen

theorem Object.Carries.listedAs {o : Object} (h : o.Carries es) :
    ListedAs es o.code := listedAs_of_encodes h.code

namespace Assembler

/-- The code of an accepted feed is listed as the source asks for, also once the object is
finished, and every name stands for a slot of its own datatype. -/
theorem disassembleAll_feed {name : String} {es : List Emission} {s s' : Assembler}
    {tokens : Array Token} (hs : Produced name es s) (h : s.feed tokens = (.ok (), s')) :
    ListedAs (es ++ s.emissions tokens) s'.object.code ∧
      s'.object.unresolved.map Reference.place =
        (emissionSlots 0 (es ++ s.emissions tokens)).filterMap Slot.reference? ∧
      ∀ o, s'.finish = .ok o → ListedAs (es ++ s.emissions tokens) o.code := by
  have hs' := hs.feed tokens
  rw [h] at hs'
  obtain ⟨xs, hxs, hadds⟩ := hs'.emits
  exact ⟨hs'.emits.carries.listedAs, hadds.unresolved,
    fun o ho => (carries_of_finish hs' ho).listedAs⟩

/-- A move of a number and a jump to a name. -/
def moveTokens : Array Token :=
  #[⟨.name, "mov", ⟨1, 1⟩⟩, ⟨.dot, ".", ⟨1, 4⟩⟩, ⟨.name, "u8", ⟨1, 5⟩⟩, ⟨.colon, ":", ⟨1, 8⟩⟩,
    ⟨.register, "$", ⟨1, 10⟩⟩, ⟨.name, "ac", ⟨1, 11⟩⟩, ⟨.colon, ":", ⟨1, 14⟩⟩,
    ⟨.integer, "7", ⟨1, 16⟩⟩, ⟨.newline, "\n", ⟨1, 17⟩⟩, ⟨.name, "jmp", ⟨2, 1⟩⟩,
    ⟨.colon, ":", ⟨2, 5⟩⟩, ⟨.name, "next", ⟨2, 7⟩⟩, .endOfCode ⟨2, 11⟩]

theorem disassembleAll_feed_move :
    ((empty "m").emissions moveTokens).length = 2 ∧
      ∃ s', (empty "m").feed moveTokens = (.ok (), s') ∧ s'.object.code.size = 25 ∧
        ListedAs ((empty "m").emissions moveTokens) s'.object.code := by
  have hok : ((empty "m").feed moveTokens).1 = .ok () := by cbv
  have hsize : ((empty "m").feed moveTokens).2.object.code.size = 25 := by cbv
  generalize hfeed : (empty "m").feed moveTokens = r at hok hsize
  obtain ⟨_, s'⟩ := r
  subst hok
  have hlisted := (disassembleAll_feed .empty hfeed).1
  rw [List.nil_append] at hlisted
  exact ⟨by cbv, s', rfl, hsize, hlisted⟩

end Assembler

end CellMachine
