import CellMachine.Proofs.Instruction.Inverse
import CellMachine.Proofs.Machine.CallFrame
import CellMachine.Proofs.Machine.Primitives
import Mathlib

/-!
# Faults that blame a datatype

A byte is read as a datatype at three places : where a conversion reads its type operand, where it
reads the value to convert as a `type`, and where a foreign call reads an argument of that type. All
other actions of an instruction fail for other reasons (`Spares`), and this goes through
sequences (`FailsAs.bind`), so that a fault that blames a datatype comes from one of the three.

The byte that the fault names is the one that was read, with one exception. A conversion names the
byte of its type operand as it stands in the instruction; where that operand is dereferenced this is
the low byte of an address, and it can well be the code of a datatype
(`Machine.step_invalidDatatype_misnamed`). `Machine.step_invalidDatatype` is the main result.
-/

namespace CellMachine

/-- Whether a fault says that a byte is not the code of a datatype. -/
def Fault.blamesDatatype : Fault → Bool
  | .invalidDatatype _ => true
  | _ => false

/-! ## Actions that blame no datatype -/

namespace Memory

variable {m : Memory} {a : Address} {len : Nat} {f : Fault}

theorem spares_resolve (h : m.resolve a len = .error f) : f.blamesDatatype = false := by
  unfold resolve at h
  split at h
  · cases h
    rfl
  · cases h
  · cases h
  · cases h
  all_goals
    split at h <;> cases h
    rfl

theorem spares_locate (h : m.locate a len = .error f) : f.blamesDatatype = false := by
  unfold locate at h
  split at h
  · next hresolve =>
    cases h
    exact spares_resolve hresolve
  · split at h <;> cases h
    rfl

theorem spares_read (h : m.read a len = .error f) : f.blamesDatatype = false := by
  unfold read at h
  split at h
  · cases h
  · next hlocate =>
    cases h
    exact spares_locate hlocate

theorem spares_load {dt : Datatype} (h : m.load a dt = .error f) : f.blamesDatatype = false := by
  unfold load at h
  split at h
  · cases h
  · next hread =>
    cases h
    exact spares_read hread

theorem spares_locateWritable (h : m.locateWritable a len = .error f) :
    f.blamesDatatype = false := by
  unfold locateWritable at h
  split at h
  · cases h
    rfl
  · exact spares_locate h

theorem spares_checkWritable (h : m.checkWritable a len = .error f) :
    f.blamesDatatype = false := by
  unfold checkWritable at h
  split at h
  · cases h
  · next hlocate =>
    cases h
    exact spares_locateWritable hlocate

theorem spares_readText (h : m.readText a = .error f) : f.blamesDatatype = false := by
  unfold readText at h
  split at h
  · next hlocate =>
    cases h
    exact spares_locate hlocate
  · dsimp only at h
    split at h <;> cases h
    rfl

end Memory

/-- An action that may fail, but never because a byte is not the code of a datatype. -/
abbrev Spares {σ α : Type} (x : EStateM Fault σ α) : Prop :=
  FailsAs (fun f => f.blamesDatatype = false) x

theorem Spares.elim {σ α : Type} {x : EStateM Fault σ α} {s s' : σ} {f : Fault} {p : Prop}
    (hx : Spares x) (h : x s = .error f s') (hf : f.blamesDatatype = true) : p :=
  absurd ((hx h).symm.trans hf) Bool.false_ne_true

namespace MemoryOp

variable {α : Type}

theorem spares_query {f : Memory → Except Fault α}
    (h : ∀ m e, f m = .error e → e.blamesDatatype = false) : Spares (query f) := by
  intro m e m' hq
  unfold query at hq
  cases hf : f m with
  | ok a => simp [hf] at hq
  | error e' =>
    simp only [hf] at hq
    cases hq
    exact h m e hf

theorem spares_write (a : Address) (bytes : List UInt8) : Spares (write a bytes) := by
  intro m e m' h
  unfold write at h
  split at h
  · cases h
  · next hlocate =>
    cases h
    exact Memory.spares_locateWritable hlocate

theorem spares_reserve (size : Nat) : Spares (reserve size) := by
  intro m e m' h
  unfold reserve at h
  split at h
  · cases h
  · split at h <;> cases h
    rfl

theorem spares_push (bytes : List UInt8) : Spares (push bytes) :=
  .bind .get fun _ => .bind (spares_reserve _) fun _ => .modify _

theorem spares_pop (len : Nat) : Spares (pop len) :=
  .bind .get fun _ => .ite (.bind (.set _) fun _ => .pure _) (.throw rfl)

theorem spares_popCell (dt : Datatype) : Spares (popCell dt) :=
  .bind (spares_pop _) fun _ => .pure _

theorem spares_stackAdd (n : Nat) : Spares (stackAdd n) :=
  .bind .get fun _ => .bind (spares_reserve _) fun _ => .modify _

theorem spares_stackSub (n : Nat) : Spares (stackSub n) :=
  .bind .get fun _ => .ite (.set _) (.throw rfl)

theorem spares_pushFrame : Spares pushFrame :=
  .bind .get fun _ => .bind (spares_push _) fun _ => .modify _

theorem spares_popFrame : Spares popFrame :=
  .bind (.modify _) fun _ => .bind (spares_popCell _) fun _ => .modify _

theorem spares_alloc (size : Nat) : Spares (alloc size) := by
  intro m e m' h
  unfold alloc at h
  split at h <;> cases h
  rfl

theorem spares_free (a : Address) : Spares (free a) := by
  intro m e m' h
  unfold free at h
  split at h <;> cases h
  rfl

end MemoryOp

namespace Exec

variable {α : Type}

theorem spares_ofMemory {op : MemoryOp α} (h : Spares op) : Spares (ofMemory op) := by
  intro s e s' hop
  obtain ⟨m, hm, -⟩ := ofMemory_eq_error hop
  exact h hm

theorem spares_query {f : Memory → Except Fault α}
    (h : ∀ m e, f m = .error e → e.blamesDatatype = false) : Spares (query f) :=
  spares_ofMemory (MemoryOp.spares_query h)

theorem spares_load (a : Address) (dt : Datatype) : Spares (query (·.load a dt)) :=
  spares_query fun _ _ h => Memory.spares_load h

theorem spares_checkWritable (a : Address) (len : Nat) : Spares (query (·.checkWritable a len)) :=
  spares_query fun _ _ h => Memory.spares_checkWritable h

/-- The errors of foreign functions become faults of their own. -/
theorem spares_ofHost (op : HostOp α) : Spares (ofHost op) := by
  intro s e s' h
  obtain ⟨host, registry, config, cache, halted, steps⟩ := s
  unfold ofHost at h
  dsimp only at h
  cases hop : op host with
  | ok a host' => simp [hop] at h
  | error e' host' =>
    simp only [hop] at h
    cases h
    cases e' <;> rfl

theorem spares_ofExcept {x : Except Fault α} (h : ∀ f, x = .error f → f.blamesDatatype = false) :
    Spares (ofExcept x) := by
  cases x with
  | ok a => exact .pure a
  | error f => exact .throw (h f rfl)

theorem spares_place (o : Operand) : Spares (place o) :=
  .ite (.bind (spares_load _ _) fun _ => .pure _) (.pure _)

theorem spares_value (o : Operand) (dt : Datatype) : Spares (value o dt) :=
  .ite (spares_load _ _) (.pure _)

theorem spares_store (a : Address) (dt : Datatype) (c : Cell) : Spares (store a dt c) :=
  spares_ofMemory (MemoryOp.spares_write _ _)

theorem spares_arguments (os : List Operand) : Spares (arguments os) := by
  induction os with
  | nil => exact .pure _
  | cons o rest ih => exact .bind (spares_value _ _) fun _ => .bind ih fun _ => .pure _

theorem spares_pushArguments (values : List (Datatype × Cell)) : Spares (pushArguments values) := by
  induction values with
  | nil => exact .pure _
  | cons v rest ih => exact .bind (spares_ofMemory (MemoryOp.spares_push _)) fun _ => ih

theorem spares_binary (op : BinaryOp) (dt : Datatype) (dst src : Operand) :
    Spares (binary op dt dst src) := by
  refine .bind (spares_place dst) fun _ => .bind (spares_load _ _) fun x =>
    .bind (spares_value src _) fun y => .bind (spares_ofExcept fun f h => ?_) fun _ =>
      spares_store _ _ _
  unfold BinaryOp.apply at h
  grind [Fault.blamesDatatype]

theorem spares_unary (op : UnaryOp) (dt : Datatype) (dst : Operand) :
    Spares (unary op dt dst) := by
  refine .bind (spares_place dst) fun _ => .bind (spares_load _ _) fun x =>
    .bind (spares_ofExcept fun f h => ?_) fun _ => spares_store _ _ _
  unfold UnaryOp.apply at h
  grind [Fault.blamesDatatype]

theorem spares_compare (op : CompareOp) (dt : Datatype) (dst left right : Operand) :
    Spares (compare op dt dst left right) := by
  refine .bind (spares_place dst) fun _ => .bind (spares_value left _) fun x =>
    .bind (spares_value right _) fun y => .bind (spares_ofExcept fun f h => ?_) fun _ =>
      spares_store _ _ _
  unfold CompareOp.apply at h
  grind [Fault.blamesDatatype]

theorem spares_call (target : Operand) (args : List Operand) (next : Address) :
    Spares (call target args next) :=
  .bind (spares_place target) fun _ => .bind (spares_arguments args) fun _ =>
    .bind (spares_pushArguments _) fun _ =>
      .bind (spares_ofMemory (MemoryOp.spares_push _)) fun _ =>
        .bind (spares_ofMemory (MemoryOp.spares_push _)) fun _ => .modify _

theorem spares_ret : Spares ret :=
  .bind (spares_ofMemory (MemoryOp.spares_popCell _)) fun _ =>
    .bind (spares_ofMemory (MemoryOp.spares_popCell _)) fun _ =>
      .bind (spares_ofMemory (MemoryOp.spares_stackSub _)) fun _ => .modify _

theorem spares_askRegistry (site : CallSite) : Spares (askRegistry site) := by
  refine .bind .get fun s => ?_
  rcases s.registry site.2 with e | _ | f
  · exact .throw (by cases e <;> rfl)
  · exact .throw rfl
  · exact .pure f

theorem spares_findForeign (site : CallSite) : Spares (findForeign site) := by
  have hkept : Spares (kept site) := .bind .get fun _ => .pure _
  refine .bind hkept fun found => ?_
  cases found with
  | some f => exact .pure f
  | none => exact .bind (spares_askRegistry site) fun f => .bind (.modify _) fun _ => .pure f

theorem spares_resultSlot (dt : Datatype) (slot : Option Operand) :
    Spares (resultSlot dt slot) := by
  cases slot with
  | none => exact .pure _
  | some o =>
    exact .bind (spares_place o) fun _ => .bind (spares_checkWritable _ _) fun _ => .pure _

theorem spares_invokeForeign (c : ForeignCall) : Spares (invokeForeign c) := by
  refine .bind (spares_ofHost _) fun result => ?_
  unfold storeResult
  split
  · split
    · exact spares_store _ _ _
    · exact .throw rfl
  · exact .pure _

/-- Only conversions and foreign calls read datatypes. -/
theorem spares_perform {i : Instruction} (cp next : Address) (hconvert : i.opcode ≠ .convert)
    (hforeign : i.opcode ≠ .foreign) : Spares (perform i cp next) := by
  unfold perform
  split
  · exact .bind (spares_place _) fun _ => .bind (spares_value _ _) fun _ => spares_store _ _ _
  · next hop _ => exact absurd hop hconvert
  · exact .bind (spares_place _) fun _ => .bind (spares_place _) fun _ =>
      .bind (spares_value _ _) fun _ =>
        .bind (spares_query fun _ _ h => Memory.spares_read h) fun _ =>
          spares_ofMemory (MemoryOp.spares_write _ _)
  · exact spares_binary _ _ _ _
  · exact spares_unary _ _ _
  · exact spares_compare _ _ _ _ _
  · exact .bind (spares_place _) fun _ => .modify _
  · exact .bind (spares_place _) fun _ => .bind (spares_value _ _) fun _ =>
      .ite (.modify _) (.pure _)
  · exact .bind (spares_place _) fun _ => .bind .get fun _ => .bind (.modify _) fun _ =>
      .ite (.modify _) (.pure _)
  · exact spares_call _ _ _
  · exact spares_ret
  · next hop _ => exact absurd hop hforeign
  · next hop _ => exact absurd hop hforeign
  · exact .bind (spares_value _ _) fun _ => spares_ofMemory (MemoryOp.spares_push _)
  · exact .bind (spares_place _) fun _ =>
      .bind (spares_ofMemory (MemoryOp.spares_popCell _)) fun _ => spares_store _ _ _
  · exact .bind (spares_value _ _) fun _ => spares_ofMemory (MemoryOp.spares_stackAdd _)
  · exact .bind (spares_value _ _) fun _ => spares_ofMemory (MemoryOp.spares_stackSub _)
  · exact spares_ofMemory MemoryOp.spares_pushFrame
  · exact spares_ofMemory MemoryOp.spares_popFrame
  · exact .bind (spares_place _) fun _ => .bind (spares_value _ _) fun _ =>
      .bind (spares_checkWritable _ _) fun _ =>
        .bind (spares_ofMemory (MemoryOp.spares_alloc _)) fun _ => spares_store _ _ _
  · exact .bind (spares_place _) fun _ => spares_ofMemory (MemoryOp.spares_free _)
  all_goals exact .pure _

end Exec

/-! ## Where datatypes are read -/

/-- The byte that an operand gives where it is read as a datatype : its own, or the one at the
address that it holds. -/
def Operand.GivesByte (o : Operand) (m : Memory) (b : UInt8) : Prop :=
  if o.deref then m.read o.cell.toAddress 1 = .ok [b] else o.cell.byte = b

/-- The operands of an instruction that are read as datatypes, given the memory they are read from :
the type operand of a conversion, its value if that is taken for a `type`, and the arguments of a
foreign call that are passed as one. -/
inductive Instruction.ReadsDatatype (i : Instruction) (m : Memory) : Operand → Prop
  | named {dst type src : Operand} (hop : i.opcode = .convert)
    (hfixed : i.fixed = [dst, type, src]) : ReadsDatatype i m type
  | converted {dst type src : Operand} (hop : i.opcode = .convert)
    (hfixed : i.fixed = [dst, type, src])
    (htype : if src.deref then type.GivesByte m Datatype.type.code else i.datatype = .type) :
    ReadsDatatype i m src
  | argument {o : Operand} (hop : i.opcode = .foreign) (ho : o ∈ i.args)
    (htype : Exec.argumentType o = .type) : ReadsDatatype i m o

theorem Memory.length_of_read {m : Memory} {a : Address} {len : Nat} {bytes : List UInt8}
    (h : m.read a len = .ok bytes) : bytes.length = len := by
  unfold read at h
  split at h
  · next r start hlocate =>
    cases h
    exact Buffer.length_read_of_le _ _ _ (locate_eq_ok.mp hlocate).2
  · cases h

theorem Value.ofCell?_eq_none {dt : Datatype} {c : Cell} (h : ofCell? dt c = none) :
    dt = .none ∨ dt = .type ∧ Datatype.ofCode? c.byte = none := by
  cases dt with
  | none => exact Or.inl rfl
  | type => exact Or.inr ⟨rfl, Option.map_eq_none_iff.mp h⟩
  | _ => cases h

namespace Exec

variable {s s' : Machine} {o : Operand} {c : Cell} {f : Fault}

theorem query_eq_ok {α : Type} {q : Memory → Except Fault α} {a : α}
    (h : query q s = .ok a s') : q s.memory = .ok a := by
  obtain ⟨m, hm, -⟩ := ofMemory_eq_ok h
  unfold MemoryOp.query at hm
  cases hq : q s.memory with
  | ok b =>
    simp only [hq] at hm
    cases hm
    rfl
  | error e => simp [hq] at hm

theorem givesByte_of_value (h : value o .type s = .ok c s') : o.GivesByte s.memory c.byte := by
  unfold value at h
  unfold Operand.GivesByte
  split at h
  · next hderef =>
    rw [if_pos hderef]
    have hload := query_eq_ok h
    unfold Memory.load at hload
    split at hload
    · next bytes hread =>
      cases hload
      obtain ⟨b, rfl⟩ := List.length_eq_one_iff.mp (Memory.length_of_read hread)
      have hbyte : (Cell.ofBytes [b]).byte = b := by
        simp [Cell.ofBytes, Cell.byte, Cell.size, ofLittleEndian]
      rw [hbyte]
      exact hread
    · cases hload
  · next hderef =>
    cases h
    rw [if_neg hderef]

/-- The type operand of a conversion is blamed with the byte that stands in the instruction. -/
theorem namedType_blames (h : namedType o s = .error f s') (hf : f.blamesDatatype = true) :
    f = .invalidDatatype o.cell.byte ∧
      ∃ b, o.GivesByte s.memory b ∧ Datatype.ofCode? b = none := by
  rcases bind_eq_error.mp h with h | ⟨c, s₁, hvalue, h⟩
  · exact (spares_value _ _).elim h hf
  · cases hc : c.toDatatype? with
    | some dt =>
      rw [hc] at h
      cases h
    | none =>
      rw [hc] at h
      cases h
      exact ⟨rfl, c.byte, givesByte_of_value hvalue, hc⟩

theorem givesByte_of_namedType {dt : Datatype} (h : namedType o s = .ok dt s') :
    o.GivesByte s.memory dt.code := by
  obtain ⟨c, s₁, hvalue, h⟩ := bind_eq_ok.mp h
  cases hc : c.toDatatype? with
  | none =>
    rw [hc] at h
    cases h
  | some dt' =>
    rw [hc] at h
    cases h
    rw [Datatype.code_of_ofCode? hc]
    exact givesByte_of_value hvalue

theorem convertCell_blames {source target : Datatype} (h : convertCell source target c = .error f)
    (hf : f.blamesDatatype = true) :
    source = .type ∧ f = .invalidDatatype c.byte ∧ Datatype.ofCode? c.byte = none := by
  unfold convertCell at h
  split at h
  · next hcell =>
    split at h
    · next hsource =>
      cases h
      subst hsource
      exact ⟨rfl, rfl, Option.map_eq_none_iff.mp hcell⟩
    · cases h
      cases hf
  · split at h
    · cases h
    · cases h
      cases hf

theorem arguments_mem {os : List Operand} {values : List (Datatype × Cell)}
    (h : arguments os s = .ok values s') :
    ∀ v ∈ values, ∃ o ∈ os, argumentType o = v.1 ∧ value o v.1 s = .ok v.2 s := by
  induction os generalizing values s' with
  | nil =>
    cases h
    simp
  | cons o rest ih =>
    obtain ⟨c, s₁, hvalue, h⟩ := bind_eq_ok.mp h
    obtain rfl : s = s₁ := (relates_value o _).of_ok hvalue
    obtain ⟨values', s₂, hrest, h⟩ := bind_eq_ok.mp h
    cases h
    intro v hv
    rcases List.mem_cons.mp hv with rfl | hv
    · exact ⟨o, List.mem_cons_self, rfl, hvalue⟩
    · obtain ⟨o', ho', htype, hvalue'⟩ := ih hrest v hv
      exact ⟨o', List.mem_cons_of_mem _ ho', htype, hvalue'⟩

theorem taggedArguments_error {values : List (Datatype × Cell)}
    (h : taggedArguments values = .error f) :
    ∃ v ∈ values, Value.ofCell? v.1 v.2 = none ∧ f = .invalidDatatype v.2.byte := by
  induction values with
  | nil => cases h
  | cons v rest ih =>
    unfold taggedArguments at h
    cases hcell : Value.ofCell? v.1 v.2 with
    | none =>
      simp only [hcell] at h
      cases h
      exact ⟨v, List.mem_cons_self, hcell, rfl⟩
    | some x =>
      simp only [hcell] at h
      cases hrest : taggedArguments rest with
      | ok xs =>
        rw [hrest] at h
        cases h
      | error e =>
        rw [hrest] at h
        cases h
        obtain ⟨w, hw, hnone, rfl⟩ := ih hrest
        exact ⟨w, List.mem_cons_of_mem _ hw, hnone, rfl⟩

theorem memory_of_findForeign {site : CallSite} {g : ForeignFunction}
    (h : findForeign site s = .ok g s') : s'.memory = s.memory := by
  obtain ⟨e, herror⟩ | ⟨p, -, hkept⟩ | ⟨g', -, hasked⟩ := Primitives.findForeign_cases site s
  · cases herror.symm.trans h
  · cases hkept.symm.trans h
    rfl
  · cases hasked.symm.trans h
    rfl

variable {i : Instruction} {cp next : Address}

/-- An instruction that blames a datatype has read the byte of one of its operands, and names it
unless the operand is the type operand of a conversion and dereferenced. -/
def Blames (i : Instruction) (m : Memory) (f : Fault) : Prop :=
  ∃ o b, i.ReadsDatatype m o ∧ o.GivesByte m b ∧ Datatype.ofCode? b = none ∧
    f = .invalidDatatype (if o.role = .datatype ∧ o.deref then o.cell.byte else b)

theorem convert_blames {dst type src : Operand} (hop : i.opcode = .convert)
    (hfixed : i.fixed = [dst, type, src])
    (hroles : i.fixed.map (·.role) = i.opcode.fixedRoles i.datatype)
    (h : convert i.datatype dst type src s = .error f s') (hf : f.blamesDatatype = true) :
    Blames i s.memory f := by
  obtain ⟨-, htype, hsrc⟩ :
      dst.role = .address ∧ type.role = .datatype ∧ src.role = .value := by
    simpa [hfixed, hop, Opcode.fixedRoles, Opcode.layout] using hroles
  rcases bind_eq_error.mp h with h | ⟨a, s₁, hplace, h⟩
  · exact (spares_place _).elim h hf
  obtain rfl : s = s₁ := (relates_place dst).of_ok hplace
  rcases bind_eq_error.mp h with h | ⟨source, s₂, hnamed, h⟩
  · obtain ⟨rfl, b, hb, hcode⟩ := namedType_blames h hf
    refine ⟨type, b, .named hop hfixed, hb, hcode, congrArg _ ?_⟩
    unfold Operand.GivesByte at hb
    cases hderef : type.deref with
    | true => simp [htype]
    | false => simpa [hderef] using hb
  obtain rfl : s = s₂ := (relates_namedType type).of_ok hnamed
  rcases bind_eq_error.mp h with h | ⟨c, s₃, hvalue, h⟩
  · exact (spares_value _ _).elim h hf
  obtain rfl : s = s₃ := (relates_value src _).of_ok hvalue
  rcases bind_eq_error.mp h with h | ⟨x, s₄, -, h⟩
  · cases hconvert : convertCell (if src.deref then source else i.datatype) i.datatype c with
    | ok x =>
      rw [hconvert] at h
      cases h
    | error f' =>
      rw [hconvert] at h
      cases h
      obtain ⟨hsource, rfl, hcode⟩ := convertCell_blames hconvert hf
      have hread : value src .type s = .ok c s := by
        cases hderef : src.deref with
        | true =>
          rw [hderef, if_pos rfl] at hsource
          exact hsource ▸ hvalue
        | false => simpa [value, hderef] using hvalue
      refine ⟨src, c.byte, .converted hop hfixed ?_, givesByte_of_value hread, hcode, ?_⟩
      · cases hderef : src.deref with
        | true =>
          rw [hderef, if_pos rfl] at hsource
          rw [if_pos rfl, ← hsource]
          exact givesByte_of_namedType hnamed
        | false => simpa [hderef] using hsource
      · simp [hsrc]
  · exact (spares_store _ _ _).elim h hf

theorem foreignCall_blames {target : Operand} {slot : Option Operand} (hop : i.opcode = .foreign)
    (hi : i.Legible) (h : foreignCall i.datatype target slot i.args cp s = .error f s')
    (hf : f.blamesDatatype = true) : Blames i s.memory f := by
  rcases bind_eq_error.mp h with h | ⟨call, s₁, -, h⟩
  swap
  · exact (spares_invokeForeign _).elim h hf
  rcases bind_eq_error.mp h with h | ⟨a, s₁, hplace, h⟩
  · exact (spares_place _).elim h hf
  obtain rfl : s = s₁ := (relates_place target).of_ok hplace
  rcases bind_eq_error.mp h with h | ⟨name, s₂, hname, h⟩
  · exact (spares_query fun _ _ h => Memory.spares_readText h).elim h hf
  obtain rfl : s = s₂ := (relates_query _).of_ok hname
  rw [get_bind_apply] at h
  split at h
  swap
  · cases h
    cases hf
  rcases bind_eq_error.mp h with h | ⟨g, s₃, hfind, h⟩
  · exact (spares_findForeign _).elim h hf
  have hmemory := memory_of_findForeign hfind
  rcases bind_eq_error.mp h with h | ⟨values, s₄, harguments, h⟩
  · exact (spares_arguments _).elim h hf
  split at h
  swap
  · cases h
    cases hf
  rcases bind_eq_error.mp h with h | ⟨tagged, s₅, -, h⟩
  · cases htagged : taggedArguments values with
    | ok xs =>
      rw [htagged] at h
      cases h
    | error f' =>
      rw [htagged] at h
      cases h
      obtain ⟨v, hv, hcell, rfl⟩ := taggedArguments_error htagged
      obtain ⟨o, ho, htype, hvalue⟩ := arguments_mem harguments v hv
      -- No argument is passed with the datatype `none`, so that the argument is a `type`.
      obtain ⟨types, hroles, -, hstored, -⟩ := hi.exists_types
      obtain ⟨dt, hdt, hrole⟩ : ∃ dt ∈ types, Role.typed dt = o.role :=
        List.mem_map.mp (hroles ▸ List.mem_map_of_mem ho)
      have hargument : argumentType o = dt := by
        unfold argumentType
        rw [← hrole]
      rcases Value.ofCell?_eq_none hcell with hnone | ⟨hv, hcode⟩
      · rw [← htype, hargument] at hnone
        exact absurd (hnone ▸ hdt) hstored
      · rw [hv] at hvalue htype
        refine ⟨o, v.2.byte, .argument hop ho htype, ?_, hcode, by simp [← hrole]⟩
        rw [← hmemory]
        exact givesByte_of_value hvalue
  rcases bind_eq_error.mp h with h | ⟨place, s₆, -, h⟩
  · exact (spares_resultSlot _ _).elim h hf
  · cases h

theorem perform_blames (hi : i.Legible) (h : perform i cp next s = .error f s')
    (hf : f.blamesDatatype = true) : Blames i s.memory f := by
  by_cases hconvert : i.opcode = .convert
  · obtain ⟨dst, type, src, hfixed⟩ : ∃ dst type src, i.fixed = [dst, type, src] := by
      have hlength := congrArg List.length hi.roles
      rw [List.length_map, hconvert] at hlength
      exact List.length_eq_three.mp hlength
    have hperform : perform i cp next = convert i.datatype dst type src := by
      unfold perform
      rw [hconvert, hfixed]
    exact convert_blames hconvert hfixed hi.roles (hperform ▸ h) hf
  by_cases hforeign : i.opcode = .foreign
  · rcases perform_foreign cp next hforeign with hnone | ⟨target, slot, -, hcall⟩
    · rw [hnone] at h
      cases h
    · exact foreignCall_blames hforeign hi (hcall ▸ h) hf
  · exact (spares_perform cp next hconvert hforeign).elim h hf

end Exec

/-! ## Steps -/

namespace Machine

theorem spares_fetch {s : Machine} {cp : Address} {f : Fault} (h : s.fetch cp = .fault f) :
    f.blamesDatatype = false := by
  unfold fetch at h
  split at h
  · cases h
    rfl
  · split at h
    · cases h
    · split at h
      · cases h
        rfl
      · split at h
        · cases h
        · cases h
          rfl

/-- A fault that blames a datatype comes from an operand that was read as one. The byte that was
read is not the code of a datatype, and the fault names it; but of the type operand of a
conversion, if it is dereferenced, it names the low byte of the address. -/
theorem step_invalidDatatype {s s' : Machine} {e : RunError} {b : UInt8}
    (h : s.step = (.error e, s')) (hfault : e.fault = .invalidDatatype b) :
    ∃ i o c, s.fetch (s.memory.pointer .cp) = .instruction i ∧
      i.ReadsDatatype (s.jump (s.behind i)).memory o ∧
      o.GivesByte (s.jump (s.behind i)).memory c ∧ Datatype.ofCode? c = none ∧
      b = if o.role = .datatype ∧ o.deref then o.cell.byte else c := by
  have hblames : e.fault.blamesDatatype = true := by rw [hfault]; rfl
  rcases fault_of_step h with ⟨hfetch, -⟩ | ⟨i, s₁, hfetch, hexecute, -⟩
  · exact absurd hblames (by simp [spares_fetch hfetch])
  have hperform : Exec.perform i (s.memory.pointer .cp) (s.behind i) (s.jump (s.behind i)) =
      .error e.fault s₁ := hexecute
  obtain ⟨code, hdecode⟩ := fetch_eq_instruction hfetch
  obtain ⟨o, c, hreads, hgives, hcode, hnamed⟩ :=
    Exec.perform_blames (decode_eq_ok_iff.mp hdecode).1 hperform hblames
  exact ⟨i, o, c, hfetch, hreads, hgives, hcode,
    Fault.invalidDatatype.inj (hfault.symm.trans hnamed)⟩

/-- `convert.u8 : $ac : type : src` with operands as they are encoded. -/
def toByte (mask : UInt16) (type src : Operand) : Instruction :=
  ⟨.convert, .u8, mask, [⟨.address, .addr, false, .ofAddress Register.ac.address⟩, type, src], none,
    []⟩

/-- A machine in front of an instruction. Its static data are one byte, 99. -/
def before (i : Instruction) : Machine :=
  let config : Config := ⟨0, 64, ∅, none⟩
  ⟨⟨.initial ⟨[⟨"m", [], ∅, ∅, i.encode.toArray, #[99], [], [], []⟩], ∅, ∅, ∅, ∅⟩ config, #[]⟩,
    .none, config, [], none, 0⟩

/-- The static byte is converted as a `type`. -/
def loadedValue : Instruction :=
  toByte 4 ⟨.datatype, .type, false, .ofDatatype .type⟩
    ⟨.value, .u64, true, .ofAddress (.make .static 0)⟩

/-- The static byte says as what 5 is converted. -/
def loadedType : Instruction :=
  toByte 2 ⟨.datatype, .u64, true, .ofAddress (.make .static 0)⟩ ⟨.value, .u8, false, ⟨5⟩⟩

theorem step_invalidDatatype_loadedValue :
    ∃ e s', (before loadedValue).step = (.error e, s') ∧ e.fault = .invalidDatatype 99 ∧
      ∃ i o c, (before loadedValue).fetch ((before loadedValue).memory.pointer .cp) =
          .instruction i ∧
        i.ReadsDatatype ((before loadedValue).jump ((before loadedValue).behind i)).memory o ∧
        o.GivesByte ((before loadedValue).jump ((before loadedValue).behind i)).memory c ∧
        Datatype.ofCode? c = none ∧
        (99 : UInt8) = if o.role = .datatype ∧ o.deref then o.cell.byte else c := by
  have hstep : (before loadedValue).step.1 =
      .error ⟨.invalidDatatype 99, some (.make .code 0), ["convert.u8"]⟩ := by cbv
  exact ⟨_, _, Prod.fst_eq_iff.mp hstep, rfl, step_invalidDatatype (Prod.fst_eq_iff.mp hstep) rfl⟩

/-- The type operand gives 99, and the fault names 0, which is the code of `i8`. -/
theorem step_invalidDatatype_misnamed :
    ∃ e s', (before loadedType).step = (.error e, s') ∧ e.fault = .invalidDatatype 0 ∧
      Datatype.ofCode? 0 = some .i8 ∧
      (before loadedType).fetch ((before loadedType).memory.pointer .cp) =
        .instruction loadedType ∧
      ∃ o ∈ loadedType.fixed, o.role = .datatype ∧ o.GivesByte
        ((before loadedType).jump ((before loadedType).behind loadedType)).memory 99 := by
  have hstep : (before loadedType).step.1 =
      .error ⟨.invalidDatatype 0, some (.make .code 0), ["convert.u8"]⟩ := by cbv
  refine ⟨_, _, Prod.fst_eq_iff.mp hstep, rfl, rfl, by cbv, _,
    List.mem_cons_of_mem _ List.mem_cons_self, rfl, ?_⟩
  unfold Operand.GivesByte
  cbv

end Machine

end CellMachine
