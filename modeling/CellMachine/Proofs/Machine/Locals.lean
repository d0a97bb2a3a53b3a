import CellMachine.Proofs.Assembly.Locals
import CellMachine.Proofs.Machine.CallFrame
import CellMachine.Proofs.Machine.Capacity

/-!
# Frames of locals

The locals of a function lie one behind the other in its frame, without overlap and without gaps
(`Local.existsUnique_slot`). The instructions of their declarations raise the stack pointer by the
size of each, so that from a frame that is still empty they lead over all slots
(`Exec.execute_declarations`).

`Assembler.locals_disjoint` puts this together for every function that was assembled.
-/

namespace CellMachine

namespace Local

variable {ls : List Local} {l : Local}

/-! ## Slots -/

theorem totalSize_take_succ {k : Nat} (h : ls[k]? = some l) :
    totalSize (ls.take (k + 1)) = totalSize (ls.take k) + l.datatype.size := by
  rw [List.take_add_one, h]
  exact totalSize_concat _ l

theorem totalSize_take_mono (ls : List Local) {j k : Nat} (h : j ≤ k) :
    totalSize (ls.take j) ≤ totalSize (ls.take k) := by
  obtain ⟨more, hmore⟩ := List.take_prefix_take_left (l := ls) h
  rw [← hmore]
  unfold totalSize
  rw [List.map_append, Datatype.totalSize_append]
  exact Nat.le_add_right _ _

theorem totalSize_take_le (ls : List Local) (k : Nat) :
    totalSize (ls.take k) ≤ totalSize ls := by
  have hmono := totalSize_take_mono ls (Nat.le_max_left k ls.length)
  rwa [List.take_of_length_le (Nat.le_max_right k ls.length)] at hmono

/-- Each byte of a frame belongs to the slot of one local. -/
theorem existsUnique_slot {i : Nat} (h : i < totalSize ls) :
    ∃! k, ∃ l, ls[k]? = some l ∧ totalSize (ls.take k) ≤ i ∧
      i < totalSize (ls.take k) + l.datatype.size := by
  -- It is the first local that ends behind the byte.
  have hend : ∃ k, i < totalSize (ls.take (k + 1)) :=
    ⟨ls.length, by rwa [List.take_of_length_le (Nat.le_succ _)]⟩
  have hlast := Nat.find_spec hend
  have hstart : totalSize (ls.take (Nat.find hend)) ≤ i := by
    cases hfind : Nat.find hend with
    | zero => exact Nat.zero_le i
    | succ k => exact Nat.not_lt.mp (Nat.find_min hend (by omega))
  refine ⟨Nat.find hend, ?_, fun j hj => ?_⟩
  · cases hl : ls[Nat.find hend]? with
    | none =>
      rw [List.take_add_one, hl, Option.toList_none, List.append_nil] at hlast
      omega
    | some l =>
      rw [totalSize_take_succ hl] at hlast
      exact ⟨l, hl, hstart, hlast⟩
  · obtain ⟨l, hl, hstart', hend'⟩ := hj
    rw [← totalSize_take_succ hl] at hend'
    rcases Nat.lt_trichotomy j (Nat.find hend) with hlt | heq | hlt
    · exact absurd hend' (Nat.find_min hend hlt)
    · exact heq
    · have hmono := totalSize_take_mono ls (Nat.succ_le_of_lt hlt)
      exact absurd hlast (Nat.not_lt.mpr (Nat.le_trans hmono hstart'))

end Local

/-! ## Growing the stack -/

namespace Exec

open Memory

variable {m : Machine} {top : Nat}

/-- The stack pointer is raised by the size of a local. -/
theorem stackAdd_of_stackAt {mem : Memory} {size : Nat} (hsp : mem.StackAt .sp top)
    (hroom : top + size ≤ mem.maxStack) (hlt : top + size < 2 ^ 61) :
    ∃ mem', MemoryOp.stackAdd (UInt64.ofNat size).toNat mem = .ok () mem' ∧
      mem'.StackAt .sp (top + size) ∧ mem'.register .fp = mem.register .fp ∧
      mem'.maxStack = mem.maxStack ∧ top + size ≤ mem'.stack.size := by
  have htop : (StackPush.room size).top mem = top + size := by
    unfold StackPush.top StackPush.size
    rw [hsp.offset]
  have hfits : ¬ mem.Overflows ((StackPush.room size).top mem) := by
    unfold Overflows
    omega
  have hpushed := StackPush.pushed_behind hfits
  obtain ⟨registers, stack, hrest⟩ := hpushed.rest
  have hact : MemoryOp.stackAdd size mem = .ok () _ := StackPush.act_of_room hfits
  rw [UInt64.toNat_ofNat', Nat.mod_eq_of_lt (by omega)]
  refine ⟨_, hact, ⟨htop ▸ hpushed.pointer, hlt⟩, hpushed.frame, ?_, ?_⟩
  · rw [hrest]
  · rw [hpushed.capacity, ← htop]
    exact (capacityFor_bounds hfits).1

theorem execute_growStack {size : Nat} (hsp : m.memory.StackAt .sp top)
    (hroom : top + size ≤ m.memory.maxStack) (hlt : top + size < 2 ^ 61) (cp : Address) :
    ∃ m', execute (Asm.growStack size) cp m = .ok () m' ∧
      m'.memory.StackAt .sp (top + size) ∧ m'.register .fp = m.register .fp ∧
      m'.memory.maxStack = m.memory.maxStack ∧ top + size ≤ m'.memory.stack.size := by
  obtain ⟨s, hs⟩ : ∃ s, s = m.jump (cp.add (Int64.ofNat (Asm.growStack size).size)) := ⟨_, rfl⟩
  have hregister : ∀ r, r ≠ .cp → s.memory.register r = m.memory.register r := fun r hr => by
    rw [hs, Machine.memory_jump]
    exact register_setRegister_of_ne _ _ hr
  have hmax : s.memory.maxStack = m.memory.maxStack := by
    rw [hs, Machine.memory_jump]
    unfold Memory.setRegister writeRegisters
    rfl
  have hsp' : s.memory.StackAt .sp top := hsp.of_register_eq (hregister .sp (by decide))
  obtain ⟨mem', hadd, htop, hfp, hlimit, hsize⟩ := stackAdd_of_stackAt hsp' (hmax ▸ hroom) hlt
  refine ⟨s.updateMemory fun _ => mem', ?_, htop, hfp.trans (hregister .fp (by decide)),
    hlimit.trans hmax, hsize⟩
  have hperform : execute (Asm.growStack size) cp m =
      ofMemory (.stackAdd (UInt64.ofNat size).toNat) s := by
    rw [hs]
    rfl
  rw [hperform]
  exact ofMemory_of_ok hadd

/-- Carries out the declarations of locals in turn. -/
def executeDeclarations (place : Local → Address) : List Local → Exec Unit
  | [] => return ()
  | l :: rest => do
    execute (Asm.growStack l.datatype.size) (place l)
    executeDeclarations place rest

/-- Declarations lead over the slots of their locals. -/
theorem execute_declarations {ls : List Local} (place : Local → Address)
    (hsp : m.memory.StackAt .sp top) (hroom : top + Local.totalSize ls ≤ m.memory.maxStack)
    (hlt : top + Local.totalSize ls < 2 ^ 61) :
    ∃ m', executeDeclarations place ls m = .ok () m' ∧
      m'.memory.StackAt .sp (top + Local.totalSize ls) ∧ m'.register .fp = m.register .fp ∧
      (ls ≠ [] → top + Local.totalSize ls ≤ m'.memory.stack.size) := by
  induction ls generalizing m top with
  | nil => exact ⟨m, rfl, hsp, rfl, fun hnil => absurd rfl hnil⟩
  | cons l rest ih =>
    have htotal : top + Local.totalSize (l :: rest) =
        top + l.datatype.size + Local.totalSize rest := (Nat.add_assoc _ _ _).symm
    rw [htotal] at hroom hlt ⊢
    obtain ⟨m₁, hfirst, hsp₁, hfp₁, hmax₁, hsize₁⟩ :=
      execute_growStack hsp (Nat.le_trans (Nat.le_add_right _ _) hroom)
        (Nat.lt_of_le_of_lt (Nat.le_add_right _ _) hlt) (place l)
    obtain ⟨m', hrest, hsp', hfp', hsize'⟩ := ih hsp₁ (hmax₁ ▸ hroom) hlt
    refine ⟨m', bind_eq_ok.mpr ⟨(), m₁, hfirst, hrest⟩, hsp', hfp'.trans hfp₁, fun _ => ?_⟩
    cases rest with
    | nil =>
      cases hrest
      exact hsize₁
    | cons => exact hsize' (List.cons_ne_nil _ _)

end Exec

theorem Memory.locate_placeBehind {m : Memory} {fp len : Nat} {ls : List Local}
    (hfp : m.StackAt .fp fp) (hlt : fp + Local.totalSize ls < 2 ^ 61)
    (hsize : fp + Local.totalSize ls + len ≤ m.stack.size) :
    m.locate (Local.placeBehind ls) len = .ok (.stack, fp + Local.totalSize ls) := by
  rw [locate_eq_ok]
  have hoffset : (Local.placeBehind ls).offset.toNat = Local.totalSize ls :=
    Address.toNat_offset_make (by omega) .frameAdd
  have hbase : (Local.placeBehind ls).base? = some .frameAdd := Address.base?_make _ _
  simp only [resolve, hbase, hoffset, hfp.offset, Memory.region]
  exact ⟨trivial, hsize⟩

theorem Local.Laid.decode {o : Object} {ls : List Local} (h : Local.Laid o ls) {l : Local}
    (hl : l ∈ ls) : CellMachine.decode o.code l.start = .ok (Asm.growStack l.datatype.size) := by
  have hencodes : (Emission.growth l.datatype.size).Encodes (Asm.growStack l.datatype.size) := rfl
  exact decode_of_holds hencodes.wellFormed (h.code l hl)

/-! ## Locals of every function -/

namespace Assembler

/-- Whatever is fed, each local that was declared belongs to one function, and the locals of a
function never overlap : the place of each is behind those in front of it, so that each byte of the
frame belongs to one of them, and from an empty frame their declarations lead over all of them. -/
theorem locals_disjoint {name : String} {ts : List Assembler} {s : Assembler}
    (hs : Carried name ts s) :
    (nesting ts).functions.flatten.Perm (ts.filterMap (·.bracket.local?)) ∧
      ∀ ls ∈ (nesting ts).functions,
        (∀ o, o = s.object ∨ s.finish = .ok o → ∀ k l, ls[k]? = some l →
          ⟨qualify l.path l.name, .alias, .addr (Local.placeBehind (ls.take k))⟩ ∈ o.symbols ∧
            decode o.code l.start = .ok (Asm.growStack l.datatype.size)) ∧
        (∀ i < Local.totalSize ls, ∃! k, ∃ l, ls[k]? = some l ∧
          Local.totalSize (ls.take k) ≤ i ∧
            i < Local.totalSize (ls.take k) + l.datatype.size) ∧
        ∀ (m : Machine) (place : Local → Address) (fp : Nat), m.memory.StackAt .fp fp →
          m.memory.StackAt .sp fp → fp + Local.totalSize ls ≤ m.memory.maxStack →
          fp + Local.totalSize ls < 2 ^ 61 →
          ∃ m', Exec.executeDeclarations place ls m = .ok () m' ∧ m'.memory.StackAt .fp fp ∧
            m'.memory.StackAt .sp (fp + Local.totalSize ls) ∧
            ∀ k l, ls[k]? = some l →
              m'.memory.locate (Local.placeBehind (ls.take k)) l.datatype.size =
                  .ok (.stack, fp + Local.totalSize (ls.take k)) ∧
                Local.totalSize (ls.take k) + l.datatype.size ≤ Local.totalSize ls := by
  obtain ⟨hdescribes, hperm⟩ := hs.describes
  refine ⟨hperm, fun ls hls => ⟨fun o ho k l hl => ?_, fun i hi => Local.existsUnique_slot hi,
    fun m place fp hfp hsp hroom hlt => ?_⟩⟩
  · have hlaid : Local.Laid o ls := by
      rcases ho with rfl | hfinish
      · exact hdescribes.places.laid ls hls
      · exact hs.laid_of_finish hfinish hls
    exact ⟨hlaid.symbols k l hl, hlaid.decode (List.mem_of_getElem? hl)⟩
  · obtain ⟨m', hrun, hsp', hframe, hsize⟩ := Exec.execute_declarations place hsp hroom hlt
    have hfp' : m'.memory.StackAt .fp fp := hfp.of_register_eq hframe
    refine ⟨m', hrun, hfp', hsp', fun k l hl => ?_⟩
    have hinside : Local.totalSize (ls.take k) + l.datatype.size ≤ Local.totalSize ls := by
      rw [← Local.totalSize_take_succ hl]
      exact Local.totalSize_take_le ls (k + 1)
    have hne : ls ≠ [] := List.ne_nil_of_mem (List.mem_of_getElem? hl)
    have hsize := hsize hne
    exact ⟨Memory.locate_placeBehind hfp' (by omega) (by omega), hinside⟩

/-- A function with a local, one more in a scope and two of a macro, and with a function in between.
The name of one declaration is taken, so that it is refused. -/
def nestedTokens : Array Token :=
  let words : List (TokenKind × String) :=
    [(.directive, "#"), (.name, "macro"), (.name, "two"), (.newline, "\n"),
      (.directive, "#"), (.name, "local"), (.name, "p"), (.dot, "."), (.name, "u16"),
      (.newline, "\n"),
      (.directive, "#"), (.name, "local"), (.name, "q"), (.dot, "."), (.name, "u8"),
      (.newline, "\n"), (.directive, "#"), (.name, "end"), (.newline, "\n"),
      (.directive, "#"), (.name, "func"), (.name, "f"), (.newline, "\n"),
      (.directive, "#"), (.name, "local"), (.name, "a"), (.dot, "."), (.name, "u8"),
      (.newline, "\n"), (.directive, "#"), (.name, "scope"), (.name, "s"), (.newline, "\n"),
      (.directive, "#"), (.name, "local"), (.name, "b"), (.dot, "."), (.name, "u32"),
      (.newline, "\n"), (.directive, "#"), (.name, "end"), (.newline, "\n"),
      (.directive, "#"), (.name, "func"), (.name, "g"), (.newline, "\n"),
      (.directive, "#"), (.name, "local"), (.name, "c"), (.dot, "."), (.name, "u64"),
      (.newline, "\n"), (.directive, "#"), (.name, "end"), (.newline, "\n"),
      (.directive, "#"), (.name, "local"), (.name, "a"), (.dot, "."), (.name, "u64"),
      (.newline, "\n"), (.name, "two"), (.newline, "\n"),
      (.directive, "#"), (.name, "end"), (.newline, "\n")]
  (words.map fun w => ⟨w.1, w.2, .start⟩).toArray.push (.endOfCode .start)

/-- The locals of the outer function. -/
def nestedLocals : List Local :=
  [⟨["f"], "a", .u8, 4⟩, ⟨["f", "s"], "b", .u32, 16⟩, ⟨["f"], "p", .u16, 44⟩,
    ⟨["f"], "q", .u8, 56⟩]

/-- A machine with an empty frame. -/
def emptyFrame : Machine :=
  ⟨⟨.initial .empty ⟨0, 64, ∅, none⟩, #[]⟩, .none, ⟨0, 64, ∅, none⟩, [], none, 0⟩

theorem locals_disjoint_nested :
    ((empty "m").feed nestedTokens).1.isOk = false ∧
      ∃ ts s, Carried "m" ts s ∧
        (nesting ts).functions = [[⟨["f", "g"], "c", .u64, 32⟩], nestedLocals] ∧
        ⟨"f.p", .alias, .addr (.make .frameAdd 5)⟩ ∈ s.object.symbols ∧
        decode s.object.code 44 = .ok (Asm.growStack 2) ∧
        ∃ m', Exec.executeDeclarations (fun _ => .make .code 0) nestedLocals emptyFrame =
            .ok () m' ∧
          m'.memory.StackAt .sp 8 ∧
          m'.memory.locate (.make .frameAdd 5) 2 = .ok (.stack, 5) := by
  have hfunctions : (nesting ([] ++ (empty "m").steps nestedTokens ++
      ((empty "m").feed nestedTokens).2.steps nestedTokens)).functions =
        [[⟨["f", "g"], "c", .u64, 32⟩], nestedLocals] := by decide +kernel
  have hempty : Carried "m" [] (empty "m") := .empty
  -- The first feed ends at the declaration that is refused, the second goes on behind it.
  have hcarried := (hempty.feed nestedTokens).feed nestedTokens
  obtain ⟨-, hlocals⟩ := locals_disjoint hcarried
  obtain ⟨hlaid, -, hruns⟩ := hlocals nestedLocals (by rw [hfunctions]; decide)
  obtain ⟨hsymbol, hdecode⟩ := hlaid _ (.inl rfl) 2 ⟨["f"], "p", .u16, 44⟩ rfl
  have hname : qualify ["f"] "p" = "f.p" := by decide +kernel
  rw [hname] at hsymbol
  have hfp : emptyFrame.memory.StackAt .fp 0 := ⟨by decide +kernel, by decide⟩
  have hsp : emptyFrame.memory.StackAt .sp 0 := ⟨by decide +kernel, by decide⟩
  obtain ⟨m', hrun, -, htop, hslots⟩ := hruns emptyFrame (fun _ => .make .code 0) 0 hfp hsp
    (by decide) (by decide)
  exact ⟨by decide +kernel, _, _, hcarried, hfunctions, hsymbol, hdecode, m', hrun, htop,
    (hslots 2 _ rfl).1⟩

end Assembler

end CellMachine
