import CellMachine.Machine.Step
import CellMachine.Proofs.Machine.Memory
import Mathlib

/-!
# Faults are atomic

An instruction that faults leaves the machine as it was, but for the stack above its pointer, which
may have been grown and overwritten. Most instructions do nothing before their last action, which
either fails or is done (`FailsWith`); those that move the pointers or push on the way disturb
nothing that cannot be undone (`Machine.Disturbs`), and `Machine.withPointers` undoes the rest. A
foreign function is out of reach : what it has done stays, and only the pointers are put back.

`Machine.step_error` is the main result.
-/

namespace CellMachine

/-! ## What is disturbed -/

namespace Machine

/-- Only the pointers, the stack from `top` on and the cache of foreign functions differ, and the
stack has not shrunk. -/
structure Disturbs (top : Nat) (s s' : Machine) : Prop where
  memory : s.memory.Disturbs top s'.memory
  console : s'.host.console = s.host.console
  config : s'.config = s.config
  halted : s'.halted = s.halted
  steps : s'.steps = s.steps

variable {top : Nat}

theorem Disturbs.refl (s : Machine) : Disturbs top s s := ⟨.refl _, rfl, rfl, rfl, rfl⟩

theorem Disturbs.trans {s s₁ s' : Machine} (h : Disturbs top s s₁) (h' : Disturbs top s₁ s') :
    Disturbs top s s' where
  memory := h.memory.trans h'.memory
  console := h'.console.trans h.console
  config := h'.config.trans h.config
  halted := h'.halted.trans h.halted
  steps := h'.steps.trans h.steps

instance : Std.Refl (Disturbs top) := ⟨Disturbs.refl⟩

instance : Trans (Disturbs top) (Disturbs top) (Disturbs top) := ⟨Disturbs.trans⟩

theorem disturbs_updateMemory {s : Machine} {f : Memory → Memory}
    (h : s.memory.Disturbs top (f s.memory)) : Disturbs top s (s.updateMemory f) :=
  ⟨h, rfl, rfl, rfl, rfl⟩

theorem disturbs_jump (s : Machine) (a : Address) : Disturbs top s (s.jump a) :=
  disturbs_updateMemory (s.memory.disturbs_setRegister (by decide) _)

end Machine

namespace Exec

open Machine

variable {α : Type} {top : Nat} {s s' : Machine} {e : Fault}

theorem ofMemory_eq_ok {op : MemoryOp α} {a : α} (h : ofMemory op s = .ok a s') :
    ∃ m, op s.memory = .ok a m ∧ s' = s.updateMemory fun _ => m := by
  obtain ⟨⟨memory, console⟩, registry, config, cache, halted, steps⟩ := s
  unfold ofMemory at h
  cases hop : op memory with
  | ok b m =>
    simp only [hop] at h
    cases h
    exact ⟨m, hop, rfl⟩
  | error f m => simp [hop] at h

theorem ofMemory_of_ok {op : MemoryOp α} {a : α} {m : Memory} (h : op s.memory = .ok a m) :
    ofMemory op s = .ok a (s.updateMemory fun _ => m) := by
  obtain ⟨⟨memory, console⟩, registry, config, cache, halted, steps⟩ := s
  unfold ofMemory
  have h : op memory = .ok a m := h
  simp only [h]
  rfl

theorem ofMemory_eq_error {op : MemoryOp α} (h : ofMemory op s = .error e s') :
    ∃ m, op s.memory = .error e m ∧ s' = s.updateMemory fun _ => m := by
  obtain ⟨⟨memory, console⟩, registry, config, cache, halted, steps⟩ := s
  unfold ofMemory at h
  cases hop : op memory with
  | ok b m => simp [hop] at h
  | error f m =>
    simp only [hop] at h
    cases h
    exact ⟨m, hop, rfl⟩

theorem ofHost_eq_ok_iff {op : HostOp α} {a : α} :
    ofHost op s = .ok a s' ↔ ∃ host, op s.host = .ok a host ∧ s' = { s with host := host } := by
  obtain ⟨host, registry, config, cache, halted, steps⟩ := s
  cases hop : op host with
  | ok b host' =>
    simp only [ofHost, hop]
    constructor
    · intro h
      cases h
      exact ⟨host', rfl, rfl⟩
    · rintro ⟨_, h, rfl⟩
      cases h
      rfl
  | error e host' => simp [ofHost, hop]

theorem relates_ofMemory {op : MemoryOp α} (h : Relates (Memory.Disturbs top) op) :
    Relates (Disturbs top) (ofMemory op) := by
  intro s
  cases hop : ofMemory op s with
  | ok a s' =>
    obtain ⟨m, hm, rfl⟩ := ofMemory_eq_ok hop
    exact disturbs_updateMemory (f := fun _ => m) (h.of_ok hm)
  | error e s' =>
    obtain ⟨m, hm, rfl⟩ := ofMemory_eq_error hop
    exact disturbs_updateMemory (f := fun _ => m) (h.of_error hm)

theorem failsWith_ofMemory {op : MemoryOp α} (h : FailsWith Eq op) :
    FailsWith (Disturbs top) (ofMemory op) := by
  intro s e s' hop
  obtain ⟨m, hm, rfl⟩ := ofMemory_eq_error hop
  exact disturbs_updateMemory (f := fun _ => m) (h hm ▸ .refl _)

/-! ## Operands -/

section Operands

variable {R : Machine → Machine → Prop} [Std.Refl R]

theorem relates_query (f : Memory → Except Fault α) : Relates R (query f) := by
  intro s
  have hquery := MemoryOp.relates_query (R := Eq) f
  have hsame : stateAfter (query f s) = s := by
    cases hop : query f s with
    | ok a s' =>
      obtain ⟨m, hm, rfl⟩ := ofMemory_eq_ok hop
      exact hquery.of_ok hm ▸ rfl
    | error e s' =>
      obtain ⟨m, hm, rfl⟩ := ofMemory_eq_error hop
      exact hquery.of_error hm ▸ rfl
  rw [hsame]
  exact Std.Refl.refl s

theorem relates_ofExcept (x : Except Fault α) : Relates R (ofExcept x) := by
  cases x with
  | ok a => exact .pure a
  | error f => exact .throw f

theorem relates_value (o : Operand) (dt : Datatype) : Relates R (value o dt) :=
  .ite (relates_query _) (.pure _)

variable [Trans R R R]

theorem relates_place (o : Operand) : Relates R (place o) :=
  .ite (.bind (relates_query _) fun _ => .pure _) (.pure _)

theorem relates_namedType (o : Operand) : Relates R (namedType o) := by
  refine .bind (relates_value o .type) fun c => ?_
  split
  · exact .pure _
  · exact .throw _

theorem relates_arguments (os : List Operand) : Relates R (arguments os) := by
  induction os with
  | nil => exact .pure _
  | cons o rest ih => exact .bind (relates_value o _) fun _ => .bind ih fun _ => .pure _

end Operands

theorem relates_jump (a : Address) : Relates (Disturbs top) (jump a) :=
  .modify fun s => disturbs_jump s a

theorem failsWith_store (a : Address) (dt : Datatype) (c : Cell) :
    FailsWith (Disturbs top) (store a dt c) :=
  failsWith_ofMemory (MemoryOp.failsWith_write a _)

/-! ## Instructions that do one thing -/

theorem failsWith_mov (dt : Datatype) (dst src : Operand) :
    FailsWith (Disturbs top) (mov dt dst src) :=
  .bind (relates_place dst) fun _ => .bind (relates_value src _) fun _ => failsWith_store _ _ _

theorem failsWith_convert (dt : Datatype) (dst type src : Operand) :
    FailsWith (Disturbs top) (convert dt dst type src) :=
  .bind (relates_place dst) fun _ => .bind (relates_namedType type) fun _ =>
    .bind (relates_value src _) fun _ => .bind (relates_ofExcept _) fun _ => failsWith_store _ _ _

theorem failsWith_copy (dt : Datatype) (dst src len : Operand) :
    FailsWith (Disturbs top) (copy dt dst src len) :=
  .bind (relates_place dst) fun _ => .bind (relates_place src) fun _ =>
    .bind (relates_value len _) fun _ => .bind (relates_query _) fun _ =>
      failsWith_ofMemory (MemoryOp.failsWith_write _ _)

theorem failsWith_binary (op : BinaryOp) (dt : Datatype) (dst src : Operand) :
    FailsWith (Disturbs top) (binary op dt dst src) :=
  .bind (relates_place dst) fun _ => .bind (relates_query _) fun _ =>
    .bind (relates_value src _) fun _ => .bind (relates_ofExcept _) fun _ => failsWith_store _ _ _

theorem failsWith_unary (op : UnaryOp) (dt : Datatype) (dst : Operand) :
    FailsWith (Disturbs top) (unary op dt dst) :=
  .bind (relates_place dst) fun _ => .bind (relates_query _) fun _ =>
    .bind (relates_ofExcept _) fun _ => failsWith_store _ _ _

theorem failsWith_compare (op : CompareOp) (dt : Datatype) (dst left right : Operand) :
    FailsWith (Disturbs top) (compare op dt dst left right) :=
  .bind (relates_place dst) fun _ => .bind (relates_value left _) fun _ =>
    .bind (relates_value right _) fun _ => .bind (relates_ofExcept _) fun _ =>
      failsWith_store _ _ _

theorem failsWith_jmp (target : Operand) :
    FailsWith (Disturbs top) (do jump (← place target)) :=
  .of_relates <| .bind (relates_place target) fun _ => relates_jump _

theorem failsWith_branch (onNonzero : Bool) (dt : Datatype) (target condition : Operand) :
    FailsWith (Disturbs top) (branch onNonzero dt target condition) :=
  .of_relates <| .bind (relates_place target) fun _ => .bind (relates_value condition _) fun _ =>
    .ite (relates_jump _) (.pure _)

/-- Only finding the target can fail, before the loop counter is changed. -/
theorem failsWith_loop (target : Operand) : FailsWith (Disturbs top) (loop target) := by
  refine .bind (relates_place target) fun a => .bind .get fun s => ?_
  refine .bind_total (fun _ _ _ h => by cases h) fun _ _ _ _ h => ?_
  split at h <;> cases h

theorem failsWith_push (dt : Datatype) (src : Operand) :
    FailsWith (Disturbs top) (push dt src) :=
  .bind (relates_value src _) fun _ => failsWith_ofMemory (MemoryOp.failsWith_pushCell _ dt)

theorem failsWith_pop (dt : Datatype) (dst : Operand) :
    FailsWith (Disturbs top) (pop dt dst) :=
  .bind (relates_place dst) fun _ => .bind (relates_ofMemory (MemoryOp.relates_popCell dt)) fun _ =>
    failsWith_store _ _ _

theorem failsWith_stackAdd (dt : Datatype) (size : Operand) :
    FailsWith (Disturbs top) (stackAdd dt size) :=
  .bind (relates_value size _) fun _ => failsWith_ofMemory (MemoryOp.failsWith_stackAdd _)

theorem failsWith_stackSub (dt : Datatype) (size : Operand) :
    FailsWith (Disturbs top) (stackSub dt size) :=
  .of_relates <| .bind (relates_value size _) fun _ =>
    relates_ofMemory (MemoryOp.relates_stackSub _)

theorem failsWith_free (target : Operand) : FailsWith (Disturbs top) (free target) :=
  .bind (relates_place target) fun _ => failsWith_ofMemory (MemoryOp.failsWith_free _)

theorem failsWith_ret : FailsWith (Disturbs top) ret :=
  .of_relates <| .bind (relates_ofMemory (MemoryOp.relates_popCell .addr)) fun _ =>
    .bind (relates_ofMemory (MemoryOp.relates_popCell .u64)) fun _ =>
      .bind (relates_ofMemory (MemoryOp.relates_stackSub _)) fun _ => relates_jump _

/-- Once there is a block its address can be stored, since the place was checked before. -/
theorem failsWith_alloc (dt : Datatype) (dst size : Operand) :
    FailsWith (Disturbs top) (alloc dt dst size) := by
  refine .bind (relates_place dst) fun a => .bind (relates_value size _) fun n => ?_
  intro s e s' h
  rcases bind_eq_error.mp h with h | ⟨_, s₁, hcheck, h⟩
  · exact (relates_query _).of_error h
  · rcases bind_eq_error.mp h with h | ⟨block, s₂, halloc, h⟩
    · exact Disturbs.trans ((relates_query _).of_ok hcheck)
        (failsWith_ofMemory (MemoryOp.failsWith_alloc _) h)
    · obtain ⟨m₂, hblock, rfl⟩ := ofMemory_eq_ok halloc
      obtain ⟨m', hstore, -⟩ := ofMemory_eq_error h
      have hwritable : s₁.memory.checkWritable a Datatype.addr.size = .ok () := by
        obtain ⟨m₁, hquery, rfl⟩ := ofMemory_eq_ok hcheck
        unfold MemoryOp.query at hquery
        split at hquery
        · next hok =>
          cases hquery
          exact hok
        · cases hquery
      exact absurd hstore (MemoryOp.store_ne_error_of_alloc (by decide) hwritable hblock)

/-! ## Calls -/

/-- The machine `s` after at most `k` pushes. Either the stack is at or above `top`, and disturbed
only there, or it has been filled to the last offset that an address can have; there the pointer has
wrapped around, and there is room for many more. -/
def Pushed (top k : Nat) (s₀ s : Machine) : Prop :=
  (s₀.Disturbs top s ∧ top ≤ s.memory.stackOffset .sp) ∨
    (2 ^ 61 ≤ s.memory.stack.size ∧ s.memory.stackOffset .sp ≤ 8 * k)

variable {k : Nat} {s₀ : Machine} {values : List (Datatype × Cell)} {i : Instruction}

theorem pushed_pushCell {c : Cell} {dt : Datatype} (hs : Pushed top k s₀ s)
    (h : ofMemory (.pushCell c dt) s = .ok () s') : Pushed top (k + 1) s₀ s' := by
  obtain ⟨m, hm, rfl⟩ := ofMemory_eq_ok h
  obtain ⟨hle, hsp, hdisturbs⟩ := MemoryOp.push_eq_ok hm
  rw [Cell.length_bytes] at hle hsp
  have hsize := dt.size_le
  have hlt := s.memory.stackOffset_lt .sp
  change _ ∨ 2 ^ 61 ≤ m.stack.size ∧ m.stackOffset .sp ≤ 8 * (k + 1)
  rcases hs with ⟨hs, htop⟩ | ⟨hfull, htop⟩
  · by_cases hwrap : s.memory.stackOffset .sp + dt.size < 2 ^ 61
    · left
      rw [Nat.mod_eq_of_lt hwrap] at hsp
      refine ⟨hs.trans (disturbs_updateMemory (f := fun _ => m) (hdisturbs.mono htop)), ?_⟩
      change top ≤ m.stackOffset .sp
      omega
    · -- The pointer wraps only once the stack has been grown up to the end of its addresses.
      right
      omega
  · right
    have := hdisturbs.size
    omega

theorem disturbs_of_pushCell_error {c : Cell} {dt : Datatype} (hs : Pushed top k s₀ s)
    (hk : 8 * (k + 1) ≤ 2 ^ 61) (h : ofMemory (.pushCell c dt) s = .error e s') :
    s₀.Disturbs top s' := by
  rcases hs with ⟨hs, -⟩ | ⟨hfull, htop⟩
  · exact hs.trans (failsWith_ofMemory (MemoryOp.failsWith_pushCell c dt) h)
  · obtain ⟨m, hm, rfl⟩ := ofMemory_eq_error h
    obtain ⟨-, hlt⟩ := MemoryOp.push_eq_error hm
    rw [Cell.length_bytes] at hlt
    have := dt.size_le
    omega

theorem pushed_pushArguments (hs : Pushed top k s₀ s) (h : pushArguments values s = .ok () s') :
    Pushed top (k + values.length) s₀ s' := by
  induction values generalizing k s with
  | nil =>
    cases h
    exact hs
  | cons p rest ih =>
    obtain ⟨_, s₁, hpush, h⟩ := bind_eq_ok.mp h
    have hrest := ih (pushed_pushCell hs hpush) h
    rwa [List.length_cons, Nat.add_comm rest.length, ← Nat.add_assoc]

theorem disturbs_of_pushArguments_error (hs : Pushed top k s₀ s)
    (hk : 8 * (k + values.length) ≤ 2 ^ 61) (h : pushArguments values s = .error e s') :
    s₀.Disturbs top s' := by
  induction values generalizing k s with
  | nil => cases h
  | cons p rest ih =>
    rw [List.length_cons] at hk
    rcases bind_eq_error.mp h with h | ⟨_, s₁, hpush, h⟩
    · exact disturbs_of_pushCell_error hs (by omega) h
    · exact ih (pushed_pushCell hs hpush) (by omega) h

theorem arguments_types {os : List Operand} (h : arguments os s = .ok values s') :
    values.map (·.1) = os.map argumentType := by
  induction os generalizing s values with
  | nil =>
    cases h
    rfl
  | cons o rest ih =>
    obtain ⟨c, s₁, -, h⟩ := bind_eq_ok.mp h
    obtain ⟨values', s₂, hrest, h⟩ := bind_eq_ok.mp h
    cases h
    rw [List.map_cons, List.map_cons, ih hrest]

theorem length_arguments {os : List Operand} (h : arguments os s = .ok values s') :
    values.length = os.length := by
  simpa using congrArg List.length (arguments_types h)

/-- Below where they start, pushes leave the stack as it is. There are too few of them to fill it
a second time. -/
theorem disturbs_of_call_error (target : Operand) {args : List Operand} (next : Address)
    (hargs : args.length ≤ Descriptor.maxArgs) (h : call target args next s = .error e s') :
    s.Disturbs (s.memory.stackOffset .sp) s' := by
  unfold call at h
  rcases bind_eq_error.mp h with h | ⟨a, s₁, hplace, h⟩
  · exact (relates_place target).of_error h
  have hs₁ : s = s₁ := (relates_place target).of_ok hplace
  rcases bind_eq_error.mp h with h | ⟨values, s₂, harguments, h⟩
  · exact hs₁ ▸ (relates_arguments args).of_error h
  have hs₂ : s₁ = s₂ := (relates_arguments args).of_ok harguments
  have hlen : values.length ≤ Descriptor.maxArgs := length_arguments harguments ▸ hargs
  have hstart : Pushed (s.memory.stackOffset .sp) 0 s s₂ := by
    rw [← hs₂, ← hs₁]
    exact Or.inl ⟨.refl s, Nat.le_refl _⟩
  have hmax : Descriptor.maxArgs = 8 := rfl
  rcases bind_eq_error.mp h with h | ⟨_, s₃, hpush, h⟩
  · exact disturbs_of_pushArguments_error hstart (by omega) h
  have hpushed := pushed_pushArguments hstart hpush
  rcases bind_eq_error.mp h with h | ⟨_, s₄, hpush, h⟩
  · exact disturbs_of_pushCell_error hpushed (by omega) h
  have hpushed := pushed_pushCell hpushed hpush
  rcases bind_eq_error.mp h with h | ⟨_, s₅, -, h⟩
  · exact disturbs_of_pushCell_error hpushed (by omega) h
  · cases h

/-! ## Foreign calls -/

theorem relates_askRegistry (site : CallSite) : Relates (Disturbs top) (askRegistry site) := by
  refine .get_bind fun s => ?_
  rcases s.registry site.2 with e | _ | f
  · exact .refl s
  · exact .refl s
  · exact .refl s

theorem relates_findForeign (site : CallSite) : Relates (Disturbs top) (findForeign site) := by
  have hkept : Relates (Disturbs top) (kept site) := .bind .get fun _ => .pure _
  refine .bind hkept fun f => ?_
  cases f with
  | some f => exact .pure f
  | none =>
    exact .bind (relates_askRegistry site) fun f =>
      .bind (.modify fun _ => ⟨.refl _, rfl, rfl, rfl, rfl⟩) fun _ => .pure f

theorem relates_resultSlot (dt : Datatype) (slot : Option Operand) :
    Relates (Disturbs top) (resultSlot dt slot) := by
  cases slot with
  | none => exact .pure _
  | some o => exact .bind (relates_place o) fun _ => .bind (relates_query _) fun _ => .pure _

/-- Until a foreign function is called, the only trace is in the cache. -/
theorem relates_prepareForeign (dt : Datatype) (target : Operand) (slot : Option Operand)
    (args : List Operand) (cp : Address) :
    Relates (Disturbs top) (prepareForeign dt target slot args cp) :=
  .bind (relates_place target) fun _ => .bind (relates_query _) fun _ => .bind .get fun _ =>
    .ite (.bind (relates_findForeign _) fun _ => .bind (relates_arguments args) fun _ =>
      .ite (.bind (relates_ofExcept _) fun _ => .bind (relates_resultSlot dt slot) fun _ => .pure _)
        (.throw _)) (.throw _)

/-- No instruction is counted, and the program has not ended. -/
def SameCount (s s' : Machine) : Prop := s'.halted = s.halted ∧ s'.steps = s.steps

instance : Std.Refl SameCount := ⟨fun _ => ⟨rfl, rfl⟩⟩

instance : Trans SameCount SameCount SameCount :=
  ⟨fun h h' => ⟨h'.1.trans h.1, h'.2.trans h.2⟩⟩

theorem sameCount_ofHost (op : HostOp α) : Relates SameCount (ofHost op) := by
  intro s
  unfold ofHost
  dsimp only
  cases op s.host <;> exact ⟨rfl, rfl⟩

theorem sameCount_ofMemory (op : MemoryOp α) : Relates SameCount (ofMemory op) := by
  intro s
  cases hop : ofMemory op s with
  | ok a s' =>
    obtain ⟨m, -, rfl⟩ := ofMemory_eq_ok hop
    exact ⟨rfl, rfl⟩
  | error e s' =>
    obtain ⟨m, -, rfl⟩ := ofMemory_eq_error hop
    exact ⟨rfl, rfl⟩

theorem sameCount_storeResult (name : String) (dt : Datatype) (slot : Option Address)
    (result : Option Value) : Relates SameCount (storeResult name dt slot result) := by
  unfold storeResult
  split
  · split
    · exact sameCount_ofMemory _
    · exact .throw _
  · exact .pure _

/-- What a foreign function does, it does to the memory and the console. -/
theorem sameCount_invokeForeign (c : ForeignCall) : Relates SameCount (invokeForeign c) :=
  .bind (sameCount_ofHost _) fun _ => sameCount_storeResult _ _ _ _

/-! ## All instructions -/

/-- Whatever can be undone by setting the pointers. -/
def Undoable (s s' : Machine) : Prop := s.Disturbs (s.memory.stackOffset .sp) s'

theorem undoable_of_disturbs {x : Exec α} (h : ∀ top, FailsWith (Disturbs top) x) :
    FailsWith Undoable x := fun _ _ _ hx => h _ hx

theorem failsWith_perform (cp next : Address) (hforeign : i.opcode ≠ .foreign)
    (hargs : i.args.length ≤ Descriptor.maxArgs) : FailsWith Undoable (perform i cp next) := by
  unfold perform
  split
  · exact undoable_of_disturbs fun _ => failsWith_mov _ _ _
  · exact undoable_of_disturbs fun _ => failsWith_convert _ _ _ _
  · exact undoable_of_disturbs fun _ => failsWith_copy _ _ _ _
  · exact undoable_of_disturbs fun _ => failsWith_binary _ _ _ _
  · exact undoable_of_disturbs fun _ => failsWith_unary _ _ _
  · exact undoable_of_disturbs fun _ => failsWith_compare _ _ _ _ _
  · exact undoable_of_disturbs fun _ => failsWith_jmp _
  · exact undoable_of_disturbs fun _ => failsWith_branch _ _ _ _
  · exact undoable_of_disturbs fun _ => failsWith_loop _
  · exact fun _ _ _ h => disturbs_of_call_error _ _ hargs h
  · exact undoable_of_disturbs fun _ => failsWith_ret
  · next hop _ => exact absurd hop hforeign
  · next hop _ => exact absurd hop hforeign
  · exact undoable_of_disturbs fun _ => failsWith_push _ _
  · exact undoable_of_disturbs fun _ => failsWith_pop _ _
  · exact undoable_of_disturbs fun _ => failsWith_stackAdd _ _
  · exact undoable_of_disturbs fun _ => failsWith_stackSub _ _
  · exact undoable_of_disturbs fun _ => failsWith_ofMemory MemoryOp.failsWith_pushFrame
  · exact undoable_of_disturbs fun _ => .of_relates (relates_ofMemory MemoryOp.relates_popFrame)
  · exact undoable_of_disturbs fun _ => failsWith_alloc _ _ _
  · exact undoable_of_disturbs fun _ => failsWith_free _
  all_goals exact undoable_of_disturbs fun _ => .of_relates (.pure _)

/-- A foreign call that is ready, of the instruction at `cp`. -/
def Invokes (i : Instruction) (cp : Address) (s : Machine) (c : ForeignCall) (s₁ : Machine) :
    Prop :=
  i.opcode = .foreign ∧ ∃ target slot, i.fixed = target :: Option.toList slot ∧
    prepareForeign i.datatype target slot i.args cp (s.jump (cp.add (Int64.ofNat i.size))) =
      .ok c s₁

theorem perform_foreign (cp next : Address) (h : i.opcode = .foreign) :
    perform i cp next = pure () ∨ ∃ target slot, i.fixed = target :: Option.toList slot ∧
      perform i cp next = foreignCall i.datatype target slot i.args cp := by
  unfold perform
  rw [h]
  rcases i.fixed with _ | ⟨target, _ | ⟨slot, _ | ⟨o, rest⟩⟩⟩
  · exact Or.inl rfl
  · exact Or.inr ⟨target, none, rfl, rfl⟩
  · exact Or.inr ⟨target, some slot, rfl, rfl⟩
  · exact Or.inl rfl

/-- An instruction that faults can be undone, unless it has called a foreign function. -/
theorem execute_error {cp : Address} (hargs : i.args.length ≤ Descriptor.maxArgs)
    (h : execute i cp s = .error e s') :
    Undoable s s' ∨ SameCount s s' ∧ ∃ c s₁, Invokes i cp s c s₁ := by
  -- The instruction is performed behind a jump to its successor, which leaves the stack pointer.
  have hjump : ∀ top, s.Disturbs top (s.jump (cp.add (Int64.ofNat i.size))) := fun _ =>
    disturbs_jump s _
  have hsp : (s.jump (cp.add (Int64.ofNat i.size))).memory.stackOffset .sp =
      s.memory.stackOffset .sp := Memory.stackOffset_setRegister_of_ne _ _ (by decide)
  have h : perform i cp _ (s.jump (cp.add (Int64.ofNat i.size))) = .error e s' := h
  generalize hs₁ : s.jump (cp.add (Int64.ofNat i.size)) = s₁ at hjump hsp h
  by_cases hforeign : i.opcode = .foreign
  · rcases perform_foreign cp _ hforeign with hnone | ⟨target, slot, hfixed, hcall⟩
    · rw [hnone] at h
      cases h
    · rw [hcall] at h
      rcases bind_eq_error.mp h with h | ⟨c, s₂, hprepare, h⟩
      · exact Or.inl ((hjump _).trans ((relates_prepareForeign _ _ _ _ _).of_error h))
      · refine Or.inr ⟨?_, c, s₂, hforeign, target, slot, hfixed, hs₁ ▸ hprepare⟩
        have hstart : s.Disturbs 0 s₂ :=
          (hjump 0).trans ((relates_prepareForeign _ _ _ _ _).of_ok hprepare)
        have hcount : SameCount s s₂ := ⟨hstart.halted, hstart.steps⟩
        exact Trans.trans hcount ((sameCount_invokeForeign c).of_error h)
  · have hundo : s₁.Disturbs (s₁.memory.stackOffset .sp) s' :=
      failsWith_perform cp _ hforeign hargs h
    rw [hsp] at hundo
    exact Or.inl ((hjump _).trans hundo)

end Exec

/-! ## Steps -/

namespace Machine

/-- What a fault leaves as it was. Only the stack at and above its pointer may differ, and there may
be more of it. -/
structure Unchanged (s s' : Machine) : Prop where
  registers : ∀ r, s'.register r = s.register r
  statics : s'.memory.statics = s.memory.statics
  code : s'.memory.code = s.memory.code
  heap : s'.memory.heap = s.memory.heap
  stack : ∀ i : Nat, i < s.memory.stackOffset .sp → i < s.memory.stack.size →
    s'.memory.stack[i]? = s.memory.stack[i]?
  capacity : s.memory.stack.size ≤ s'.memory.stack.size
  console : s'.host.console = s.host.console
  halted : s'.halted = s.halted
  steps : s'.steps = s.steps

theorem register_withPointers (s : Machine) (cp : Address) (sp fp : Cell) (r : Register) :
    (s.withPointers cp sp fp).register r =
      match r with
      | .cp => .ofAddress cp
      | .sp => sp
      | .fp => fp
      | r => s.register r := by
  change (((s.memory.setRegister .sp sp).setRegister .fp fp).setRegister .cp
    (.ofAddress cp)).register r = _
  cases r with
  | cp => exact Memory.register_setRegister_self _ _ _
  | fp =>
    rw [Memory.register_setRegister_of_ne _ _ (by decide)]
    exact Memory.register_setRegister_self _ _ _
  | sp =>
    rw [Memory.register_setRegister_of_ne _ _ (by decide),
      Memory.register_setRegister_of_ne _ _ (by decide)]
    exact Memory.register_setRegister_self _ _ _
  | _ =>
    rw [Memory.register_setRegister_of_ne _ _ (by decide),
      Memory.register_setRegister_of_ne _ _ (by decide),
      Memory.register_setRegister_of_ne _ _ (by decide)]
    rfl

theorem disturbs_withPointers {top : Nat} (s : Machine) (cp : Address) (sp fp : Cell) :
    Disturbs top s (s.withPointers cp sp fp) :=
  disturbs_updateMemory (((s.memory.disturbs_setRegister (by decide) _).trans
    (Memory.disturbs_setRegister _ (by decide) _)).trans
    (Memory.disturbs_setRegister _ (by decide) _))

variable {s : Machine}

theorem fetch_eq_instruction {cp : Address} {i : Instruction} (h : s.fetch cp = .instruction i) :
    ∃ code, decode code cp.intraOffset.toNat = .ok i := by
  unfold fetch at h
  split at h
  · cases h
  · split at h
    · cases h
    · split at h
      · cases h
      · split at h
        · next hdecode =>
          cases h
          exact ⟨_, hdecode⟩
        · cases h

/-- A step faults where nothing can be fetched, or in an instruction, which is then undone. -/
theorem fault_of_step {s' : Machine} {e : RunError} (h : s.step = (.error e, s')) :
    s.fetch (s.memory.pointer .cp) = .fault e.fault ∧ s' = s ∨
      ∃ i s₁, s.fetch (s.memory.pointer .cp) = .instruction i ∧
        Exec.execute i (s.memory.pointer .cp) s = .error e.fault s₁ ∧
        s' = s₁.withPointers (s.memory.pointer .cp) (s.register .sp) (s.register .fp) := by
  unfold step at h
  cases hhalted : s.halted with
  | some code => simp [hhalted] at h
  | none =>
    simp only [hhalted] at h
    cases hfetch : s.fetch (s.memory.pointer .cp) with
    | fault f =>
      simp only [hfetch] at h
      cases h
      exact Or.inl ⟨rfl, rfl⟩
    | endOfCode => simp [hfetch, halt] at h
    | instruction i =>
      cases hexecute : Exec.execute i (s.memory.pointer .cp) s with
      | error f s₁ =>
        simp only [hfetch, hexecute] at h
        cases h
        exact Or.inr ⟨i, s₁, rfl, hexecute, rfl⟩
      | ok u s₁ =>
        simp only [hfetch, hexecute] at h
        split at h <;> simp [halt] at h

/-- A fault of an instruction is one of its execution, which has been undone. -/
theorem step_eq_error {s' : Machine} {e : RunError} (h : s.step = (.error e, s')) :
    s' = s ∨ ∃ i f s₁, s.fetch (s.memory.pointer .cp) = .instruction i ∧
      Exec.execute i (s.memory.pointer .cp) s = .error f s₁ ∧
      s' = s₁.withPointers (s.memory.pointer .cp) (s.register .sp) (s.register .fp) := by
  rcases fault_of_step h with ⟨-, hsame⟩ | ⟨i, s₁, hfetch, hexecute, hundone⟩
  · exact Or.inl hsame
  · exact Or.inr ⟨i, e.fault, s₁, hfetch, hexecute, hundone⟩

theorem Unchanged.refl (s : Machine) : Unchanged s s :=
  ⟨fun _ => rfl, rfl, rfl, rfl, fun _ _ _ => rfl, Nat.le_refl _, rfl, rfl, rfl⟩

/-- Setting the pointers undoes what can be undone. -/
theorem unchanged_withPointers {s₁ : Machine} (h : Exec.Undoable s s₁) :
    s.Unchanged (s₁.withPointers (s.memory.pointer .cp) (s.register .sp) (s.register .fp)) := by
  have hrest := Disturbs.trans h (disturbs_withPointers s₁ (s.memory.pointer .cp) (s.register .sp)
    (s.register .fp))
  refine ⟨fun r => ?_, hrest.memory.statics, hrest.memory.code, hrest.memory.heap,
    hrest.memory.stack, hrest.memory.size, hrest.console, hrest.halted, hrest.steps⟩
  rw [register_withPointers]
  cases r with
  | cp | sp | fp => rfl
  | _ => exact h.memory.registers _ (by decide)

/-- A step that faults leaves everything as it was, unless it has called a foreign function; it then
still leaves the pointers and the count of steps. -/
theorem step_error {s s' : Machine} {e : RunError} (h : s.step = (.error e, s')) :
    ((∀ i c s₁, s.fetch (s.memory.pointer .cp) = .instruction i →
        ¬ Exec.Invokes i (s.memory.pointer .cp) s c s₁) → s.Unchanged s') ∧
      (∀ r ∈ Memory.pointers, s'.register r = s.register r) ∧
      s'.halted = s.halted ∧ s'.steps = s.steps := by
  rcases step_eq_error h with rfl | ⟨i, f, s₁, hfetch, hexecute, rfl⟩
  · exact ⟨fun _ => .refl s', fun _ _ => rfl, rfl, rfl⟩
  · obtain ⟨code, hdecode⟩ := fetch_eq_instruction hfetch
    rcases Exec.execute_error (length_args_of_decode hdecode) hexecute with
      hundo | ⟨hcount, c, s₂, hinvokes⟩
    · have hsame := unchanged_withPointers hundo
      exact ⟨fun _ => hsame, fun r _ => hsame.registers r, hsame.halted, hsame.steps⟩
    · have hback : s₁.Disturbs 0 (s₁.withPointers _ _ _) := disturbs_withPointers s₁
        (s.memory.pointer .cp) (s.register .sp) (s.register .fp)
      refine ⟨fun hnot => absurd hinvokes (hnot i c s₂ hfetch), fun r hr => ?_,
        hback.halted.trans hcount.1, hback.steps.trans hcount.2⟩
      rw [register_withPointers]
      simp only [Memory.pointers, List.mem_cons, List.not_mem_nil, or_false] at hr
      rcases hr with rfl | rfl | rfl <;> rfl

/-- A call in front of a stack that has room for its argument but not for what comes behind. -/
def crowded : Machine :=
  let code : Buffer :=
    #[84, 15, 0, 0, 25, 0, 0, 0, 0, 0, 0, 128, 1, 7, 0, 0, 0, 1, 0, 0, 0, 0, 0, 0, 0]
  let config : Config := ⟨0, 8, ∅, none⟩
  ⟨⟨.initial ⟨[⟨"m", [], ∅, ∅, code, #[], [], [], []⟩], ∅, ∅, ∅, ∅⟩ config, #[]⟩, .none, config,
    [], none, 0⟩

theorem step_error_crowded :
    crowded.memory.stack.size = 0 ∧ ∃ e s', crowded.step = (.error e, s') ∧
      s'.memory.stack.size = 8 ∧ crowded.Unchanged s' := by
  have hop : (match crowded.fetch (crowded.memory.pointer .cp) with
      | .instruction i => i.opcode
      | _ => .foreign) = .call := by cbv
  have hfails : crowded.step.1.isOk = false := by cbv
  have hsize : crowded.step.2.memory.stack.size = 8 := by cbv
  generalize hstep : crowded.step = r at hfails hsize
  obtain ⟨_ | e, s'⟩ := r
  · next e =>
    refine ⟨by cbv, e, s', rfl, hsize, (step_error hstep).1 fun i c s₁ hfetch hinvokes => ?_⟩
    rw [hfetch] at hop
    exact absurd (hinvokes.1.symm.trans hop) (by decide)
  · cases hfails

end Machine

end CellMachine
