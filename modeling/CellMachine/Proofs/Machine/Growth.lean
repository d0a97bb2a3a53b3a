import CellMachine.Proofs.Machine.Fault
import CellMachine.Proofs.Machine.Primitives
import CellMachine.Proofs.Machine.Routine

/-!
# The size of the stack

The stack of a program is as large as it had to become. `Memory.grown` is the memory with the
stack as large as it may become, zero where it has not been. What succeeds on a memory succeeds on
that one too, with the same result (`Echoes Memory.GrownTo`), and so does a step that does not fault
(`Machine.GrownTo.step`). So runs of a program that start with stacks of different sizes stay the
same but for these sizes as long as neither faults (`Machine.initialStack_unobservable`).
-/

namespace CellMachine

namespace Buffer

theorem read_append {b : Buffer} {start len : Nat} (h : start + len ≤ b.size) (c : Buffer) :
    (b ++ c).read start len = b.read start len := by
  rw [read_eq_take_drop, read_eq_take_drop, Array.toList_append,
    List.drop_append_of_le_length (by simp; omega), List.take_append_of_le_length (by simp; omega)]

theorem read_append_end {b : Buffer} {start : Nat} (h : start ≤ b.size) (c : Buffer) :
    (b ++ c).read start ((b ++ c).size - start) = b.read start (b.size - start) ++ c.toList := by
  rw [read_eq_take_drop, read_eq_take_drop, Array.toList_append,
    List.drop_append_of_le_length (by simpa using h), List.take_of_length_le (by simp; omega),
    List.take_of_length_le (by simp)]

theorem zeros_append (m n : Nat) : zeros m ++ zeros n = zeros (m + n) := by
  simp [zeros]

end Buffer

namespace Memory

/-- The memory with the stack as large as it may become. -/
def grown (m : Memory) : Memory :=
  { m with stack := m.stack ++ Buffer.zeros (m.maxStack - m.stack.size) }

/-- The second memory is the first with the stack as large as it may become. -/
structure GrownTo (m m' : Memory) : Prop where
  bound : m.stack.size ≤ m.maxStack
  eq : m' = m.grown

variable {m m' : Memory}

theorem size_grown (h : m.stack.size ≤ m.maxStack) : m.grown.stack.size = m.maxStack := by
  simp only [grown, Buffer.zeros, Array.size_append, Array.size_replicate]
  omega

/-- Only zeros are added to a region. -/
theorem region_grown (m : Memory) (r : Region) :
    ∃ n, m.grown.region r = m.region r ++ Buffer.zeros n := by
  cases r with
  | stack => exact ⟨_, rfl⟩
  | _ => exact ⟨0, (Array.append_empty).symm⟩

/-! ## Questions -/

section Questions

variable {m : Memory} {a : Address} {len : Nat}

variable {place : Region × Nat}

theorem locate_grown (h : m.locate a len = .ok place) : m.grown.locate a len = .ok place := by
  obtain ⟨r, start⟩ := place
  obtain ⟨hresolve, hle⟩ := locate_eq_ok.mp h
  obtain ⟨n, hregion⟩ := m.region_grown r
  refine locate_eq_ok.mpr ⟨hresolve, ?_⟩
  rw [hregion, Array.size_append]
  exact Nat.le_trans hle (Nat.le_add_right _ _)

theorem read_grown {bytes : List UInt8} (h : m.read a len = .ok bytes) :
    m.grown.read a len = .ok bytes := by
  unfold read at h ⊢
  split at h
  · next r start hlocate =>
    obtain ⟨n, hregion⟩ := m.region_grown r
    rw [locate_grown hlocate]
    dsimp only
    rw [hregion, Buffer.read_append (locate_eq_ok.mp hlocate).2]
    exact h
  · cases h

theorem load_grown {dt : Datatype} {c : Cell} (h : m.load a dt = .ok c) :
    m.grown.load a dt = .ok c := by
  unfold load at h ⊢
  split at h
  · next hread => rwa [read_grown hread]
  · cases h

theorem locate_of_locateWritable (h : m.locateWritable a len = .ok place) :
    m.locate a len = .ok place := by
  unfold locateWritable at h
  split at h
  · cases h
  · exact h

theorem locateWritable_grown (h : m.locateWritable a len = .ok place) :
    m.grown.locateWritable a len = .ok place := by
  have hlocate := locate_of_locateWritable h
  unfold locateWritable at h ⊢
  rw [locate_grown hlocate]
  rwa [hlocate] at h

theorem checkWritable_grown {u : Unit} (h : m.checkWritable a len = .ok u) :
    m.grown.checkWritable a len = .ok u := by
  unfold checkWritable at h ⊢
  split at h
  · next hplace => rw [locateWritable_grown hplace]
  · cases h

theorem takeWhile_append_of_contains {xs : List UInt8} (h : xs.contains 0 = true)
    (ys : List UInt8) : (xs ++ ys).takeWhile (· != 0) = xs.takeWhile (· != 0) := by
  induction xs with
  | nil => cases h
  | cons x xs ih =>
    by_cases hx : x = 0
    · simp [hx]
    · have hrest : xs.contains 0 = true := by simpa [Ne.symm hx] using h
      simpa [hx] using ih hrest

/-- A text that ends in front of the end of the stack does not become longer. -/
theorem readText_grown {text : String} (h : m.readText a = .ok text) :
    m.grown.readText a = .ok text := by
  unfold readText at h ⊢
  split at h
  · cases h
  · next r start hlocate =>
    obtain ⟨n, hregion⟩ := m.region_grown r
    rw [locate_grown hlocate]
    dsimp only at h ⊢
    have hstart : start ≤ (m.region r).size := (locate_eq_ok.mp hlocate).2
    rw [hregion, Buffer.read_append_end hstart]
    split at h
    · next hzero =>
      rw [if_pos (by simp [List.contains_iff_mem.mp hzero]), takeWhile_append_of_contains hzero]
      exact h
    · cases h

end Questions

/-! ## Changes -/

theorem grown_setRegister (m : Memory) (r : Register) (c : Cell) :
    (m.setRegister r c).grown = m.grown.setRegister r c := by
  simp only [setRegister, writeRegisters, grown]

theorem GrownTo.setRegister (h : m.GrownTo m') (r : Register) (c : Cell) :
    (m.setRegister r c).GrownTo (m'.setRegister r c) := by
  refine ⟨?_, by rw [grown_setRegister, h.eq]⟩
  simpa only [Memory.setRegister, writeRegisters] using h.bound

theorem GrownTo.register (h : m.GrownTo m') (r : Register) : m'.register r = m.register r := by
  rw [h.eq]
  rfl

theorem GrownTo.copyRegister (h : m.GrownTo m') (r q : Register) :
    (m.setRegister r (m.register q)).GrownTo (m'.setRegister r (m'.register q)) := by
  rw [h.register]
  exact h.setRegister r _

theorem GrownTo.stackOffset (h : m.GrownTo m') (r : Register) :
    m'.stackOffset r = m.stackOffset r := by
  rw [h.eq]
  rfl

theorem GrownTo.put (h : m.GrownTo m') {r : Region} {start : Nat} {bytes : List UInt8}
    (hle : start + bytes.length ≤ (m.region r).size) :
    (m.put r start bytes).GrownTo (m'.put r start bytes) := by
  obtain ⟨hbound, rfl⟩ := h
  cases r with
  | stack =>
    have hwrite := Buffer.write_append hle (Buffer.zeros (m.maxStack - m.stack.size))
    refine ⟨by simpa [Memory.put] using hbound, ?_⟩
    simp only [Memory.put, grown, Buffer.size_write]
    exact congrArg (fun b => { m with stack := b }) hwrite
  | registers =>
    refine ⟨by simpa only [Memory.put, writeRegisters] using hbound, ?_⟩
    simp only [Memory.put, writeRegisters, grown]
  | static page => exact ⟨hbound, rfl⟩
  | code page => exact ⟨hbound, rfl⟩
  | heap block => exact ⟨hbound, rfl⟩

end Memory

namespace MemoryOp

open Memory

theorem echoes_query {α : Type} {f : Memory → Except Fault α}
    (hf : ∀ {m a}, f m = .ok a → f m.grown = .ok a) : Echoes GrownTo (query f) (query f) := by
  rintro m _ ⟨hbound, rfl⟩
  unfold query
  cases h : f m with
  | ok a =>
    rw [hf h]
    exact .ok a ⟨hbound, rfl⟩
  | error e => exact .error e _ _

theorem echoes_write (a : Address) (bytes : List UInt8) :
    Echoes GrownTo (write a bytes) (write a bytes) := by
  rintro m _ ⟨hbound, rfl⟩
  unfold write
  cases hplace : m.locateWritable a bytes.length with
  | ok place =>
    rw [locateWritable_grown hplace]
    exact .ok () (GrownTo.put ⟨hbound, rfl⟩ (locate_eq_ok.mp (locate_of_locateWritable hplace)).2)
  | error e => exact .error e _ _

/-- Growing the stack has no effect once it is as large as it may become. -/
theorem echoes_reserve (size : Nat) : Echoes GrownTo (reserve size) (reserve size) := by
  rintro m _ ⟨hbound, rfl⟩
  have hgrown : size ≤ m.maxStack → reserve size m.grown = .ok () m.grown := fun hle => by
    unfold reserve
    rw [if_pos (by rwa [size_grown hbound])]
  intro _ m₁ h
  unfold reserve at h
  split at h
  · next hle =>
    cases h
    exact ⟨_, hgrown (by omega), hbound, rfl⟩
  · split at h
    · cases h
    · next hmax =>
      cases h
      refine ⟨_, hgrown (by omega), ?_, ?_⟩
      · simp [Buffer.zeros]
        omega
      · simp only [grown, Array.append_assoc, Buffer.zeros_append]
        congr 3
        simp [Buffer.zeros]
        omega

theorem echoes_push (bytes : List UInt8) : Echoes GrownTo (push bytes) (push bytes) := by
  refine .get_bind fun m m' h => ?_
  rw [h.stackOffset]
  refine (echoes_reserve _ h).bind fun _ m₁ m₁' hreserve h₁ => ?_
  exact .ok _ ((h₁.put (reserve_eq_ok hreserve).1).setRegister _ _)

theorem echoes_pop (len : Nat) : Echoes GrownTo (pop len) (pop len) := by
  refine .get_bind fun m m' h => ?_
  obtain ⟨hbound, rfl⟩ := h
  have htop : m.grown.stackOffset .sp = m.stackOffset .sp := rfl
  rw [htop]
  by_cases hle : len ≤ m.stackOffset .sp ∧ m.stackOffset .sp ≤ m.stack.size
  · have hgrown : m.stackOffset .sp ≤ m.grown.stack.size := by
      rw [size_grown hbound]
      omega
    rw [if_pos hle, if_pos ⟨hle.1, hgrown⟩]
    have hread : m.grown.stack.read (m.stackOffset .sp - len) len =
        m.stack.read (m.stackOffset .sp - len) len := Buffer.read_append (by omega) _
    rw [hread]
    exact .ok _ (GrownTo.setRegister ⟨hbound, rfl⟩ _ _)
  · rw [if_neg hle]
    exact .error _ _ _

theorem echoes_popCell (dt : Datatype) : Echoes GrownTo (popCell dt) (popCell dt) :=
  .bind (echoes_pop _) fun _ => .pure _

theorem echoes_stackAdd (n : Nat) : Echoes GrownTo (stackAdd n) (stackAdd n) := by
  refine .get_bind fun m m' h => ?_
  rw [h.stackOffset]
  exact (echoes_reserve _ h).bind fun _ _ _ _ h₁ => .ok _ (h₁.setRegister _ _)

theorem echoes_stackSub (n : Nat) : Echoes GrownTo (stackSub n) (stackSub n) := by
  refine .get_bind fun m m' h => ?_
  rw [h.stackOffset]
  split
  · exact .ok _ (h.setRegister _ _)
  · exact .error _ _ _

theorem echoes_pushFrame : Echoes GrownTo pushFrame pushFrame := by
  refine .get_bind fun m m' h => ?_
  rw [h.register]
  exact (echoes_push _ h).bind fun _ _ _ _ h₁ => .ok _ (h₁.copyRegister .fp .sp)

theorem echoes_popFrame : Echoes GrownTo popFrame popFrame :=
  .bind (fun _ _ h => .ok _ (h.copyRegister .sp .fp)) fun _ =>
    .bind (echoes_popCell .addr) fun _ _ _ h => .ok _ (h.setRegister _ _)

theorem echoes_alloc (size : Nat) : Echoes GrownTo (alloc size) (alloc size) := by
  rintro m _ ⟨hbound, rfl⟩
  have hheap : m.grown.heap = m.heap := rfl
  unfold alloc
  rw [hheap]
  cases m.heap.alloc? size with
  | some p => exact .ok _ ⟨hbound, rfl⟩
  | none => exact .error _ _ _

theorem echoes_free (a : Address) : Echoes GrownTo (free a) (free a) := by
  rintro m _ ⟨hbound, rfl⟩
  have hheap : m.grown.heap = m.heap := rfl
  unfold free
  rw [hheap]
  cases if a.base? = some .heap then m.heap.free? a.offset.toNat else none with
  | some heap => exact .ok _ ⟨hbound, rfl⟩
  | none => exact .error _ _ _

end MemoryOp

/-- A routine that succeeds finds the same in the memory with the grown stack. -/
theorem Routine.run_grown {α : Type} {r : Routine α} {h h' : Host} {a : α}
    (hbound : h.memory.stack.size ≤ h.memory.maxStack) (hrun : r.run h = some (a, h')) :
    h'.memory.stack.size ≤ h'.memory.maxStack ∧
      r.run ⟨h.memory.grown, h.console⟩ = some (a, ⟨h'.memory.grown, h'.console⟩) := by
  induction r generalizing h with
  | done b =>
    cases hrun
    exact ⟨hbound, rfl⟩
  | fail => cases hrun
  | read b len next ih =>
    simp only [run] at hrun ⊢
    cases hread : h.memory.read b len with
    | ok bytes =>
      rw [hread] at hrun
      rw [Memory.read_grown hread]
      exact ih bytes hbound hrun
    | error e =>
      rw [hread] at hrun
      cases hrun
  | write b bytes next ih =>
    simp only [run] at hrun ⊢
    cases hwrite : MemoryOp.write b bytes h.memory with
    | ok _ m =>
      obtain ⟨_, hgrown, hm, rfl⟩ := MemoryOp.echoes_write b bytes ⟨hbound, rfl⟩ hwrite
      rw [hwrite] at hrun
      rw [hgrown]
      exact ih hm hrun
    | error e m =>
      rw [hwrite] at hrun
      cases hrun
  | readText b next ih =>
    simp only [run] at hrun ⊢
    cases hread : h.memory.readText b with
    | ok text =>
      rw [hread] at hrun
      rw [Memory.readText_grown hread]
      exact ih text hbound hrun
    | error e =>
      rw [hread] at hrun
      cases hrun
  | console change next ih =>
    simp only [run] at hrun ⊢
    exact ih h.console (h := ⟨h.memory, change h.console⟩) hbound hrun

/-! ## Steps -/

namespace Machine

/-- The machine with the stack as large as it may become from the start. -/
def grown (s : Machine) : Machine :=
  { s with
    host := ⟨s.memory.grown, s.host.console⟩
    config := { s.config with initialStack := s.config.maxStack } }

/-- The second machine is the first with the stack as large as it may become, and all functions that
it can call are confined. -/
structure GrownTo (s t : Machine) : Prop where
  bound : s.memory.stack.size ≤ s.memory.maxStack
  eq : t = s.grown
  registry : s.registry.Confined
  cache : ∀ p ∈ s.cache, p.2.Confined

variable {s t : Machine}

theorem GrownTo.memory (h : s.GrownTo t) : s.memory.GrownTo t.memory :=
  ⟨h.bound, by rw [h.eq]; rfl⟩

theorem GrownTo.register (h : s.GrownTo t) (r : Register) : t.register r = s.register r :=
  h.memory.register r

theorem GrownTo.console (h : s.GrownTo t) : t.host.console = s.host.console := by
  rw [h.eq]
  rfl

theorem GrownTo.withHost (h : s.GrownTo t) (host : Host)
    (hbound : host.memory.stack.size ≤ host.memory.maxStack) :
    ({ s with host := host } : Machine).GrownTo
      { t with host := ⟨host.memory.grown, host.console⟩ } := by
  obtain ⟨-, rfl, hregistry, hcache⟩ := h
  exact ⟨hbound, rfl, hregistry, hcache⟩

theorem GrownTo.updateMemory (h : s.GrownTo t) {f g : Memory → Memory}
    (hfg : (f s.memory).GrownTo (g t.memory)) : (s.updateMemory f).GrownTo (t.updateMemory g) := by
  change ({ s with host := ⟨f s.memory, s.host.console⟩ } : Machine).GrownTo
    { t with host := ⟨g t.memory, t.host.console⟩ }
  rw [hfg.eq, h.console]
  exact h.withHost ⟨f s.memory, s.host.console⟩ hfg.bound

/-! ## What operations do -/

theorem echoes_ofMemory {α : Type} {op : MemoryOp α} (hop : Echoes Memory.GrownTo op op) :
    Echoes GrownTo (Exec.ofMemory op) (Exec.ofMemory op) := by
  intro s t h a s' hs
  obtain ⟨m, hm, rfl⟩ := Exec.ofMemory_eq_ok hs
  obtain ⟨m', hm', hgrown⟩ := hop h.memory hm
  exact ⟨_, Exec.ofMemory_of_ok hm', h.updateMemory hgrown⟩

theorem echoes_ofHost {α : Type} {op : HostOp α} (hop : HostOp.Confined op) :
    Echoes GrownTo (Exec.ofHost op) (Exec.ofHost op) := by
  obtain ⟨r, hr⟩ := hop
  intro s t h a s' hs
  obtain ⟨host, hcall, rfl⟩ := Exec.ofHost_eq_ok_iff.mp hs
  have hrun : r.run s.host = some (a, host) := by rw [← hr, hcall]; rfl
  obtain ⟨hbound, hgrown⟩ := Routine.run_grown h.bound hrun
  have hthost : t.host = ⟨s.host.memory.grown, s.host.console⟩ := by rw [h.eq]; rfl
  rw [← hthost, ← hr, success?_eq_some] at hgrown
  exact ⟨_, Exec.ofHost_eq_ok_iff.mpr ⟨_, hgrown, rfl⟩, h.withHost host hbound⟩

theorem echoes_askRegistry (site : CallSite) :
    Echoes GrownTo (Exec.askRegistry site) (Exec.askRegistry site) := by
  refine .get_bind fun s t h => ?_
  have hregistry : t.registry = s.registry := by rw [h.eq]; rfl
  rw [hregistry]
  rcases s.registry site.2 with e | _ | f
  · exact .error _ _ _
  · exact .error _ _ _
  · exact .ok f h

theorem echoes_function (site : CallSite) :
    Echoes GrownTo (Primitives.grantedFunction site) (Primitives.grantedFunction site) := by
  intro s t h
  have hconfig : t.config.isGranted = s.config.isGranted := by rw [h.eq]; rfl
  have hcache : t.cache = s.cache := by rw [h.eq]; rfl
  unfold Primitives.grantedFunction
  rw [get_bind_apply, get_bind_apply, hconfig]
  by_cases hgranted : s.config.isGranted site.2 = true
  · rw [if_pos hgranted]
    cases hfound : s.cache.find? (·.1 == site) with
    | some p =>
      rw [Primitives.findForeign_of_some hfound,
        Primitives.findForeign_of_some (hcache.symm ▸ hfound)]
      exact .ok p.2 h
    | none =>
      rw [Primitives.findForeign_of_none hfound,
        Primitives.findForeign_of_none (hcache.symm ▸ hfound)]
      refine (echoes_askRegistry site h).bind fun f s' t' hs h' => .ok f ⟨h'.bound, ?_, h'.registry, ?_⟩
      · rw [h'.eq]
        rfl
      · obtain ⟨e, hasked⟩ | ⟨g, hg, hasked⟩ := Primitives.askRegistry_cases site s
        · cases hasked.symm.trans hs
        · cases hasked.symm.trans hs
          exact List.forall_mem_cons.mpr ⟨h.registry _ _ hg, h.cache⟩
  · rw [if_neg hgranted]
    exact .error _ _ _

theorem GrownTo.confined {s' : Machine} (h : s.GrownTo t) {site : CallSite} {f : ForeignFunction}
    (hfound : Primitives.grantedFunction site s = .ok f s') : f.Confined := by
  rcases Primitives.grantedFunction_cases site s with ⟨e, hcase⟩ | ⟨p, hp, hcase⟩ | ⟨g, hg, hcase⟩
  · rw [hcase] at hfound
    cases hfound
  · rw [hcase] at hfound
    cases hfound
    exact h.cache p hp
  · rw [hcase] at hfound
    cases hfound
    exact h.registry _ _ hg

/-- What the operations of the machine do with a stack, they do with the grown one. -/
theorem alike_grown : Primitives.Alike GrownTo (Echoes GrownTo)
    Primitives.machine Primitives.machine where
  toRelator := Echoes.relator GrownTo
  fault f := .throw f _
  operand _ _ := .pure _
  fixedOperand _ _ := .pure _
  typed _ := rfl
  arguments _ := .pure _
  sum _ _ := rfl
  addSizes _ := .pure _
  register r := .get_bind fun s t h => by
    rw [h.register]
    exact .ok _ h
  setRegister r c := fun _ _ h => .ok _ (h.updateMemory (h.memory.setRegister r c))
  load _ _ := echoes_ofMemory (MemoryOp.echoes_query Memory.load_grown)
  store _ _ _ := echoes_ofMemory (MemoryOp.echoes_write _ _)
  read _ _ := echoes_ofMemory (MemoryOp.echoes_query Memory.read_grown)
  write _ _ := echoes_ofMemory (MemoryOp.echoes_write _ _)
  readText _ := echoes_ofMemory (MemoryOp.echoes_query Memory.readText_grown)
  checkWritable _ _ := echoes_ofMemory (MemoryOp.echoes_query Memory.checkWritable_grown)
  pushCell _ _ := echoes_ofMemory (MemoryOp.echoes_push _)
  popCell _ := echoes_ofMemory (MemoryOp.echoes_popCell _)
  stackAdd _ := echoes_ofMemory (MemoryOp.echoes_stackAdd _)
  stackSub _ := echoes_ofMemory (MemoryOp.echoes_stackSub _)
  pushFrame := echoes_ofMemory MemoryOp.echoes_pushFrame
  popFrame := echoes_ofMemory MemoryOp.echoes_popFrame
  alloc _ := echoes_ofMemory (MemoryOp.echoes_alloc _)
  free _ := echoes_ofMemory (MemoryOp.echoes_free _)
  function := echoes_function
  invoke h hfound d := echoes_ofHost (h.confined hfound d)

/-! ## What steps do -/

theorem GrownTo.fetch (h : s.GrownTo t) (cp : Address) : t.fetch cp = s.fetch cp := by
  rw [h.eq]
  rfl

theorem GrownTo.halt (h : s.GrownTo t) : t.halt.1 = s.halt.1 ∧ s.halt.2.GrownTo t.halt.2 := by
  unfold Machine.halt
  rw [h.register]
  refine ⟨rfl, h.bound, ?_, h.registry, h.cache⟩
  rw [h.eq]
  rfl

theorem GrownTo.count (h : s.GrownTo t) :
    ({ s with steps := s.steps + 1 } : Machine).GrownTo { t with steps := t.steps + 1 } := by
  refine ⟨h.bound, ?_, h.registry, h.cache⟩
  rw [h.eq]
  rfl

/-- A step that does not fault does the same with the grown stack. -/
theorem GrownTo.step (h : s.GrownTo t) (hok : s.step.1.isOk = true) :
    t.step.1 = s.step.1 ∧ s.step.2.GrownTo t.step.2 := by
  have hhalted : t.halted = s.halted := by rw [h.eq]; rfl
  have hpointer : t.memory.pointer .cp = s.memory.pointer .cp :=
    congrArg Cell.toAddress (h.register .cp)
  unfold Machine.step at hok ⊢
  rw [hhalted, hpointer]
  cases hstopped : s.halted with
  | some code => exact ⟨rfl, h⟩
  | none =>
    rw [hstopped] at hok
    dsimp only at hok ⊢
    rw [h.fetch]
    cases hfetch : s.fetch (s.memory.pointer .cp) with
    | fault f =>
      rw [hfetch] at hok
      cases hok
    | endOfCode => exact ⟨congrArg Except.ok h.halt.1, h.halt.2⟩
    | instruction i =>
      rw [hfetch] at hok
      obtain ⟨code, hdecode⟩ := fetch_eq_instruction hfetch
      have hi := shaped_of_decode hdecode
      have hexecute := alike_grown.execute hi i.size (s.memory.pointer .cp) h
      rw [← Exec.execute_eq hi] at hexecute
      dsimp only at hok ⊢
      cases hs : Exec.execute i (s.memory.pointer .cp) s with
      | error f s₁ =>
        rw [hs] at hok
        cases hok
      | ok u s₁ =>
        obtain ⟨t₁, ht, h₁⟩ := hexecute hs
        rw [ht]
        dsimp only
        by_cases hexit : i.opcode = .exit
        · rw [if_pos hexit, if_pos hexit]
          exact ⟨congrArg Except.ok h₁.count.halt.1, h₁.count.halt.2⟩
        · rw [if_neg hexit, if_neg hexit]
          exact ⟨rfl, h₁.count⟩

theorem GrownTo.run (h : s.GrownTo t) {n : Nat} (hok : ∀ p ∈ s.history n, p.1.isOk = true) :
    (t.history n).map (·.1) = (s.history n).map (·.1) ∧
      (stateBehind Machine.step n s).GrownTo (stateBehind Machine.step n t) := by
  induction n generalizing s t with
  | zero => exact ⟨rfl, h⟩
  | succ n ih =>
    obtain ⟨hfirst, hrest⟩ := List.forall_mem_cons.mp hok
    obtain ⟨hsame, hnext⟩ := h.step hfirst
    obtain ⟨houtcomes, hbehind⟩ := ih hnext hrest
    exact ⟨congrArg₂ List.cons hsame houtcomes, hbehind⟩

/-! ## Two runs -/

/-- Two machines that differ in nothing but how large their stacks have become. The larger stack is
the smaller one with zeros behind it. -/
structure SameButStack (s t : Machine) : Prop where
  registers : s.memory.registers = t.memory.registers
  statics : s.memory.statics = t.memory.statics
  code : s.memory.code = t.memory.code
  heap : s.memory.heap = t.memory.heap
  console : s.host.console = t.host.console
  halted : s.halted = t.halted
  steps : s.steps = t.steps
  stack : ∃ n, s.memory.stack = t.memory.stack ++ Buffer.zeros n ∨
    t.memory.stack = s.memory.stack ++ Buffer.zeros n

/-- Machines that grow to the same one differ in nothing else. -/
theorem GrownTo.sameButStack {u : Machine} (hs : s.GrownTo u) (ht : t.GrownTo u) :
    s.SameButStack t := by
  have hgrown : s.grown = t.grown := hs.eq.symm.trans ht.eq
  have hmemory : s.memory.grown = t.memory.grown := congrArg Machine.memory hgrown
  refine ⟨(congrArg Memory.registers hmemory :), (congrArg Memory.statics hmemory :),
    (congrArg Memory.code hmemory :), (congrArg Memory.heap hmemory :),
    (congrArg (·.host.console) hgrown :), (congrArg Machine.halted hgrown :),
    (congrArg Machine.steps hgrown :), ?_⟩
  have hstack : s.memory.stack ++ Buffer.zeros (s.memory.maxStack - s.memory.stack.size) =
      t.memory.stack ++ Buffer.zeros (t.memory.maxStack - t.memory.stack.size) :=
    congrArg Memory.stack hmemory
  rcases Array.append_eq_append_iff.mp hstack with ⟨more, hmore, hzeros⟩ | ⟨more, hmore, hzeros⟩
  · obtain ⟨-, hzero, -⟩ := Array.replicate_eq_append_iff.mp hzeros
    exact ⟨more.size, .inr (hmore.trans (congrArg (s.memory.stack ++ ·) hzero))⟩
  · obtain ⟨-, hzero, -⟩ := Array.replicate_eq_append_iff.mp hzeros
    exact ⟨more.size, .inl (hmore.trans (congrArg (t.memory.stack ++ ·) hzero))⟩

theorem grown_initial (image : Image) (config : Config) :
    (Memory.initial image config).grown =
      .initial image { config with initialStack := config.maxStack } := by
  have hstack : Buffer.zeros (min config.initialStack config.maxStack) ++
      Buffer.zeros (config.maxStack -
        (Buffer.zeros (min config.initialStack config.maxStack)).size) =
      Buffer.zeros (min config.maxStack config.maxStack) := by
    rw [Buffer.zeros_append]
    congr 1
    simp [Buffer.zeros]
  simp only [Memory.initial, Memory.setPointer, Memory.grown_setRegister]
  simp only [Memory.grown, hstack]

theorem bound_initial (image : Image) (config : Config) :
    (Memory.initial image config).stack.size ≤ (Memory.initial image config).maxStack := by
  simp only [Memory.initial, Memory.setPointer, Memory.setRegister, Memory.writeRegisters,
    Buffer.zeros, Array.size_replicate]
  exact Nat.min_le_right _ _

theorem grownTo_of_ofImage {image : Image} {registry : Registry} {config : Config}
    (hregistry : registry.Confined) (h : ofImage image registry config = .ok s) :
    s.GrownTo ⟨⟨.initial image { config with initialStack := config.maxStack }, #[]⟩, registry,
      { config with initialStack := config.maxStack }, [], none, 0⟩ := by
  obtain rfl := ofImage_eq_ok h
  refine ⟨bound_initial image config, ?_, hregistry, fun _ hp => absurd hp (by simp)⟩
  rw [← grown_initial]
  rfl

/-- The size of the stack at the start cannot be seen : as long as neither of two runs faults that
start with stacks of different sizes, their steps give the same and leave machines that differ in
nothing but how large their stacks have become. -/
theorem initialStack_unobservable {image : Image} {registry : Registry} {config : Config}
    {size : Nat} {s t : Machine} (hregistry : registry.Confined)
    (hs : ofImage image registry config = .ok s)
    (ht : ofImage image registry { config with initialStack := size } = .ok t) {n : Nat}
    (hsok : ∀ p ∈ s.history n, p.1.isOk = true) (htok : ∀ p ∈ t.history n, p.1.isOk = true) :
    (s.history n).map (·.1) = (t.history n).map (·.1) ∧
      (stateBehind step n s).SameButStack (stateBehind step n t) := by
  obtain ⟨hsame, hsgrown⟩ := (grownTo_of_ofImage hregistry hs).run hsok
  obtain ⟨hsame', htgrown⟩ := (grownTo_of_ofImage hregistry ht).run htok
  exact ⟨hsame.symm.trans hsame', hsgrown.sameButStack htgrown⟩

/-- Pushes a word and measures the text that it spells. -/
def measuring : Image :=
  ⟨[⟨"m", [], ∅, ∅, #[96, 7, 0, 0, 72, 0, 0, 0, 0, 0, 0, 0, 86, 7, 0, 0, 0, 0, 0, 0, 0, 0, 0, 0, 32,
    0, 0, 0, 0, 0, 0, 160, 1, 11, 0, 0, 0, 0, 0, 0, 0, 0, 0, 0, 64],
    #[109, 101, 109, 111, 114, 121, 46, 115, 116, 114, 108, 101, 110, 0], [], [], []⟩], ∅, ∅, ∅, ∅⟩

/-- A stack of some size that may become larger, and leave to call the library `memory`. -/
def startingWith (size : Nat) : Config := ⟨size, 64, (∅ : NameSet).insert "memory" (), none⟩

/-- The stack that is smaller at the start becomes the larger one. -/
theorem initialStack_unobservable_measuring :
    ∃ s t, ofImage measuring Native.registry (startingWith 7) = .ok s ∧
      ofImage measuring Native.registry (startingWith 8) = .ok t ∧
      (s.history 2).map (fun p => (p.1.isOk, p.2.host.memory.stack.size)) =
        [(true, 14), (true, 14)] ∧
      (t.history 2).map (fun p => (p.1.isOk, p.2.host.memory.stack.size)) =
        [(true, 8), (true, 8)] ∧
      (stateBehind step 2 s).SameButStack (stateBehind step 2 t) := by
  have hs : ofImage measuring Native.registry (startingWith 7) =
      .ok ⟨⟨.initial measuring (startingWith 7), #[]⟩, Native.registry, startingWith 7, [], none,
        0⟩ := rfl
  have ht : ofImage measuring Native.registry { startingWith 7 with initialStack := 8 } =
      .ok ⟨⟨.initial measuring (startingWith 8), #[]⟩, Native.registry, startingWith 8, [], none,
        0⟩ := rfl
  have hok {u : Machine} {k : Nat} (h : (u.history 2).map
      (fun p => (p.1.isOk, p.2.host.memory.stack.size)) = [(true, k), (true, k)]) :
      ∀ p ∈ u.history 2, p.1.isOk = true := by
    have hall : ∀ q ∈ (u.history 2).map (fun p => (p.1.isOk, p.2.host.memory.stack.size)),
        q.1 = true := by simp [h]
    exact fun p hp => hall _ (List.mem_map_of_mem hp)
  refine ⟨_, _, hs, ht, ?hsizes, ?hsizes', ?_⟩
  · cbv
  · cbv
  · exact (initialStack_unobservable Native.confined_registry hs ht (hok ?hsizes)
      (hok ?hsizes')).2

end Machine

end CellMachine
