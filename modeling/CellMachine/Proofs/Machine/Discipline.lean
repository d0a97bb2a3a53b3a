import CellMachine.Proofs.Machine.Stack

/-!
# Stack discipline

A `StackBody` is a sequence of operations on the stack in which everything is taken back : bytes
that are pushed are popped, room that is added is given back, and frames are closed. Only directly
inside a frame may bytes and room be left, since closing the frame drops them.

Each opening operation raises the stack pointer and leaves everything below it
(`MemoryOp.Raises`), and the closing one leads back to where the stack pointer was, whatever settled
body runs in between (`StackBody.settles_bracket`, `StackBody.settles_frame`). By induction every
body settles (`StackBody.settles_run`) : it ends with the frame pointer it began with, what it pops
is what it pushed, and nothing below its beginning has changed.

The stack pointer has an offset of 61 bits. A matched pair cannot pass the last of them, since the
closing operation would fail; what is left inside a frame can, on a stack of that size.
-/

namespace CellMachine

/-- Operations on the stack, each with the one that takes it back. The body of a frame is `framed`
and may also leave bytes and room behind. -/
inductive StackBody : Bool → Type where
  | nil {framed : Bool} : StackBody framed
  | append {framed : Bool} (front back : StackBody framed) : StackBody framed
  | push {framed : Bool} (bytes : List UInt8) (inner : StackBody false) : StackBody framed
  | add {framed : Bool} (n : Nat) (inner : StackBody false) : StackBody framed
  | frame {framed : Bool} (inner : StackBody true) : StackBody framed
  | leaveBytes (bytes : List UInt8) : StackBody true
  | leaveRoom (n : Nat) : StackBody true

namespace StackBody

/-- Carries out the operations of a body. Gives the bytes of every push that is matched by a pop,
each with the bytes of that pop. -/
def run {framed : Bool} : StackBody framed → MemoryOp (List (List UInt8 × List UInt8))
  | nil => return []
  | append front back => do
    let first ← front.run
    let second ← back.run
    return first ++ second
  | push bytes inner => do
    MemoryOp.push bytes
    let pairs ← inner.run
    let popped ← MemoryOp.pop bytes.length
    return pairs ++ [(bytes, popped)]
  | add n inner => do
    MemoryOp.stackAdd n
    let pairs ← inner.run
    MemoryOp.stackSub n
    return pairs
  | frame inner => do
    MemoryOp.pushFrame
    let pairs ← inner.run
    MemoryOp.popFrame
    return pairs
  | leaveBytes bytes => do
    MemoryOp.push bytes
    return []
  | leaveRoom n => do
    MemoryOp.stackAdd n
    return []

/-- Whether some frame in a body is left with bytes or room on the stack. -/
def leaves {framed : Bool} : StackBody framed → Bool
  | nil => false
  | append front back => front.leaves || back.leaves
  | push _ inner | add _ inner => inner.leaves
  | frame inner => inner.leaves
  | leaveBytes _ | leaveRoom _ => true

end StackBody

namespace Memory

variable {m : Memory}

/-- Whatever a register is set to is an address of the stack, as far as there are addresses. -/
theorem stackAt_setStackOffset_mod (m : Memory) (r : Register) (n : Nat) :
    (m.setStackOffset r n).StackAt r (n % 2 ^ 61) := by
  have hbase : ((m.setStackOffset r n).pointer r).base? = some .stack := by
    rw [setStackOffset, pointer_setPointer_self, Address.base?_make]
  rw [← stackOffset_setStackOffset m r n]
  exact stackAt_of_base? hbase

theorem StackAt.register_eq {m' : Memory} {r : Register} {n : Nat} (h : m.StackAt r n)
    (h' : m'.StackAt r n) : m'.register r = m.register r :=
  congrArg Cell.ofAddress (h'.pointer.trans h.pointer.symm)

end Memory

namespace MemoryOp

open Memory

variable {m m' : Memory} {n : Nat} {bytes : List UInt8}

/-! ## What the operations do -/

/-- The stack pointer has gone up by `n`, or around to the other end of the addresses, and the stack
reaches as far. Nothing below has changed. -/
structure Raises (n : Nat) (m m' : Memory) : Prop where
  disturbs : Disturbs (m.stackOffset .sp) m m'
  frame : m'.register .fp = m.register .fp
  room : m.stackOffset .sp + n ≤ m'.stack.size
  top : m'.StackAt .sp ((m.stackOffset .sp + n) % 2 ^ 61)

theorem raises_push (h : push bytes m = .ok () m') : Raises bytes.length m m' := by
  obtain ⟨hroom, -, hdisturbs⟩ := push_eq_ok h
  refine ⟨hdisturbs, (pushes_push h).frame, hroom, ?_⟩
  obtain ⟨_, _, hget, h⟩ := bind_eq_ok.mp h
  cases hget
  obtain ⟨_, m₁, -, h⟩ := bind_eq_ok.mp h
  rw [modify_eq_ok] at h
  rw [h]
  exact stackAt_setStackOffset_mod _ _ _

theorem raises_stackAdd (h : stackAdd n m = .ok () m') : Raises n m m' := by
  obtain ⟨_, _, hget, h⟩ := bind_eq_ok.mp h
  cases hget
  obtain ⟨_, m₁, hreserve, h⟩ := bind_eq_ok.mp h
  obtain ⟨hroom, hgrown⟩ := reserve_eq_ok hreserve
  have hset : Disturbs (m.stackOffset .sp) m₁ m' :=
    modify_eq_ok.mp h ▸ disturbs_setStackOffset m₁ (by decide) _
  refine ⟨(hgrown _).trans hset, ?_, Nat.le_trans hroom hset.size, ?_⟩
  · rw [modify_eq_ok.mp h, setStackOffset, setPointer, register_setRegister_of_ne _ _ (by decide),
      register_of_reserve hreserve]
  · rw [modify_eq_ok.mp h]
    exact stackAt_setStackOffset_mod m₁ _ _

theorem pop_eq_ok {popped : List UInt8} (h : pop n m = .ok popped m') :
    n ≤ m.stackOffset .sp ∧ popped = m.stack.read (m.stackOffset .sp - n) n ∧
      m' = m.setStackOffset .sp (m.stackOffset .sp - n) := by
  obtain ⟨_, _, hget, h⟩ := bind_eq_ok.mp h
  cases hget
  dsimp only at h
  split at h
  · next hle =>
    cases h
    exact ⟨hle.1, rfl, rfl⟩
  · cases h

theorem stackSub_eq_ok (h : stackSub n m = .ok () m') :
    n ≤ m.stackOffset .sp ∧ m' = m.setStackOffset .sp (m.stackOffset .sp - n) := by
  obtain ⟨_, _, hget, h⟩ := bind_eq_ok.mp h
  cases hget
  split at h
  · next hle => exact ⟨hle, (EStateM.Result.ok.inj h).2.symm⟩
  · cases h

/-- Closing a frame takes the saved pointer from below the frame, wherever the stack pointer is. -/
theorem popFrame_eq_ok (h : popFrame m = .ok () m') :
    Cell.size ≤ m.stackOffset .fp ∧
      m' = ((m.setRegister .sp (m.register .fp)).setStackOffset .sp
        (m.stackOffset .fp - Cell.size)).setRegister .fp
          (.ofBytes (m.stack.read (m.stackOffset .fp - Cell.size) Cell.size)) := by
  obtain ⟨_, m₁, hmove, h⟩ := bind_eq_ok.mp h
  rw [modify_eq_ok] at hmove
  obtain ⟨saved, m₂, hpop, h⟩ := bind_eq_ok.mp h
  rw [modify_eq_ok] at h
  obtain ⟨popped, _, hpop, hsaved⟩ := bind_eq_ok.mp hpop
  cases hsaved
  obtain ⟨hle, rfl, rfl⟩ := pop_eq_ok hpop
  have hoffset : m₁.stackOffset .sp = m.stackOffset .fp := by
    rw [hmove]
    unfold stackOffset pointer
    rw [register_setRegister_self]
  rw [hoffset] at hle h
  rw [hmove, stack_setRegister] at h
  exact ⟨hle, h⟩

theorem relates_push (bytes : List UInt8) : Relates (Disturbs 0) (push bytes) :=
  FailsWith.relates (fun _ _ _ h => (push_eq_error h).1.symm) fun _ _ _ h =>
    (raises_push h).disturbs.mono (Nat.zero_le _)

theorem relates_stackAdd (n : Nat) : Relates (Disturbs 0) (stackAdd n) :=
  (failsWith_stackAdd n).relates fun _ _ _ h => (raises_stackAdd h).disturbs.mono (Nat.zero_le _)

theorem relates_pushFrame : Relates (Disturbs 0) pushFrame :=
  .get_bind fun _ => Relates.bind_at (relates_push _ _) fun _ m _ =>
    disturbs_setRegister m (by decide) _

end MemoryOp

namespace StackBody

open Memory MemoryOp

variable {framed : Bool} {m m₁ m₂ m₃ m' : Memory} {n : Nat} {bytes popped : List UInt8}

/-! ## One bracket -/

/-- A body has run : nothing below the stack pointer has changed, nor the frame pointer, and the
stack pointer is back, or above inside a frame. -/
structure Settles (framed : Bool) (m m' : Memory) : Prop where
  disturbs : Disturbs (m.stackOffset .sp) m m'
  frame : m'.register .fp = m.register .fp
  stack : (m'.pointer .sp).base? = some .stack
  above : m.stackOffset .sp ≤ m'.stackOffset .sp
  level : framed = false → m'.stackOffset .sp = m.stackOffset .sp

theorem Settles.of_level (hdisturbs : Disturbs (m.stackOffset .sp) m m')
    (hframe : m'.register .fp = m.register .fp) (hsp : m'.StackAt .sp (m.stackOffset .sp)) :
    Settles framed m m' :=
  ⟨hdisturbs, hframe, hsp.base?, Nat.le_of_eq hsp.offset.symm, fun _ => hsp.offset⟩

theorem Settles.trans (h : Settles framed m m₁) (h' : Settles framed m₁ m') :
    Settles framed m m' where
  disturbs := h.disturbs.trans (h'.disturbs.mono h.above)
  frame := h'.frame.trans h.frame
  stack := h'.stack
  above := Nat.le_trans h.above h'.above
  level hlevel := (h'.level hlevel).trans (h.level hlevel)

/-- Where the stack pointer can be taken back by `n`, it did not go around. -/
theorem offset_of_bracket (hraises : Raises n m m₁) (hinner : Settles false m₁ m₂)
    (hn : n ≤ m₂.stackOffset .sp) : m₁.stackOffset .sp = m.stackOffset .sp + n := by
  have htop := hraises.top.offset
  have hlevel := hinner.level rfl
  have hlt := m.stackOffset_lt .sp
  omega

theorem settles_bracket (hraises : Raises n m m₁) (hinner : Settles false m₁ m₂)
    (hn : n ≤ m₂.stackOffset .sp) :
    Settles framed m (m₂.setStackOffset .sp (m₂.stackOffset .sp - n)) := by
  have hfits := offset_of_bracket hraises hinner hn
  have hback : m₂.stackOffset .sp - n = m.stackOffset .sp := by
    rw [hinner.level rfl, hfits, Nat.add_sub_cancel]
  rw [hback]
  refine .of_level ?_ ?_ (stackAt_setStackOffset m₂ .sp (m.stackOffset_lt .sp))
  · have hbelow := hinner.disturbs.mono (show m.stackOffset .sp ≤ m₁.stackOffset .sp by omega)
    exact (hraises.disturbs.trans hbelow).trans (disturbs_setStackOffset m₂ (by decide) _)
  · rw [setStackOffset, setPointer, register_setRegister_of_ne _ _ (by decide), hinner.frame,
      hraises.frame]

theorem Settles.holds (h : Settles framed m m') {pos : Nat} (hheld : m.stack.Holds pos bytes)
    (hle : pos + bytes.length ≤ m.stackOffset .sp) : m'.stack.Holds pos bytes := by
  have hroom := hheld.1
  exact hheld.of_getElem?_eq (Nat.le_trans hroom h.disturbs.size) fun i hi =>
    h.disturbs.stack i (by omega) (by omega)

/-- What was pushed in front of a body lies there behind it. -/
theorem read_of_bracket (hsp : (m.pointer .sp).base? = some .stack)
    (hpush : MemoryOp.push bytes m = .ok () m₁) (hinner : Settles false m₁ m₂)
    (hn : bytes.length ≤ m₂.stackOffset .sp) :
    m₂.stack.read (m₂.stackOffset .sp - bytes.length) bytes.length = bytes := by
  have hfits := offset_of_bracket (raises_push hpush) hinner hn
  have hlt := m₁.stackOffset_lt .sp
  obtain ⟨-, hheld, -⟩ := (pushes_push hpush).placed _ (stackAt_of_base? hsp) (by omega)
  rw [hinner.level rfl, hfits, Nat.add_sub_cancel]
  exact (hinner.holds hheld (Nat.le_of_eq hfits.symm)).2

/-- A frame goes back to where it was opened, whatever is left inside it. -/
theorem settles_frame (hsp : (m.pointer .sp).base? = some .stack)
    (hpush : MemoryOp.push ((m.register .fp).bytes .addr) m = .ok () m₁)
    (hinner : Settles true (m₁.setRegister .fp (m₁.register .sp)) m₂)
    (hpop : popFrame m₂ = .ok () m₃) : Settles framed m m₃ := by
  have hraises := raises_push hpush
  have hlen : ((m.register .fp).bytes .addr).length = Cell.size := Cell.length_bytes _ _
  obtain ⟨hroom, hm₃⟩ := popFrame_eq_ok hpop
  have hfp : m₂.stackOffset .fp = m₁.stackOffset .sp := by
    unfold stackOffset pointer
    rw [hinner.frame, register_setRegister_self]
  have hstart : (m₁.setRegister .fp (m₁.register .sp)).stackOffset .sp = m₁.stackOffset .sp :=
    stackOffset_setRegister_of_ne m₁ _ (by decide)
  -- The saved pointer could not be taken off at the lower end of the stack.
  have hfits : m₁.stackOffset .sp = m.stackOffset .sp + Cell.size := by
    have htop := hraises.top.offset
    have hlt := m.stackOffset_lt .sp
    rw [hlen] at htop
    rw [hfp] at hroom
    omega
  have hsaved : m₂.stack.read (m.stackOffset .sp) Cell.size = (m.register .fp).bytes .addr := by
    have hlt := m₁.stackOffset_lt .sp
    obtain ⟨-, hheld, -⟩ := (pushes_push hpush).placed _ (stackAt_of_base? hsp) (by omega)
    rw [← stack_setRegister m₁ .fp (m₁.register .sp)] at hheld
    exact hlen ▸ (hinner.holds hheld (by omega)).2
  have hcell : Cell.ofBytes ((m.register .fp).bytes .addr) = m.register .fp :=
    Cell.ofBytes_bytes (Cell.fits_of_size_eq rfl)
  rw [hfp, hfits, Nat.add_sub_cancel, hsaved, hcell] at hm₃
  rw [hm₃]
  refine .of_level ?_ (register_setRegister_self _ _ _) ?_
  · have hopened : Disturbs (m.stackOffset .sp) m₁ m₂ :=
      (disturbs_setRegister m₁ (by decide) _).trans (hinner.disturbs.mono (by omega))
    have hclosed : Disturbs (m.stackOffset .sp) m₂ (m₂.setRegister .sp (m₂.register .fp)) :=
      disturbs_setRegister m₂ (by decide) _
    exact ((hraises.disturbs.trans hopened).trans hclosed).trans
      ((disturbs_setStackOffset _ (by decide) _).trans (disturbs_setRegister _ (by decide) _))
  · exact (stackAt_setStackOffset _ .sp (m.stackOffset_lt .sp)).of_register_eq
      (register_setRegister_of_ne _ _ (by decide))

/-! ## Whole bodies -/

/-- The stack does not shrink, whatever happens. -/
theorem relates_run (b : StackBody framed) : Relates (Disturbs 0) b.run := by
  induction b with
  | nil => exact .pure _
  | append front back ihfront ihback =>
    exact .bind ihfront fun _ => .bind ihback fun _ => .pure _
  | push bytes inner ih =>
    exact .bind (relates_push bytes) fun _ => .bind ih fun _ => .bind (relates_pop _) fun _ => .pure _
  | add n inner ih =>
    exact .bind (relates_stackAdd n) fun _ => .bind ih fun _ => .bind (relates_stackSub n) fun _ =>
      .pure _
  | frame inner ih =>
    exact .bind relates_pushFrame fun _ => .bind ih fun _ => .bind relates_popFrame fun _ => .pure _
  | leaveBytes bytes => exact .bind (relates_push bytes) fun _ => .pure _
  | leaveRoom n => exact .bind (relates_stackAdd n) fun _ => .pure _

theorem settles_refl (hsp : (m.pointer .sp).base? = some .stack) : Settles framed m m :=
  .of_level (.refl m) rfl (stackAt_of_base? hsp)

/-- What is left inside a frame lies above where it started, as far as there are addresses. -/
theorem settles_of_raises (h : Raises n m m') (hsmall : m'.stack.size < 2 ^ 61) :
    Settles true m m' := by
  have hroom := h.room
  have htop := h.top
  rw [Nat.mod_eq_of_lt (by omega)] at htop
  exact ⟨h.disturbs, h.frame, htop.base?, by rw [htop.offset]; omega, fun hframed => by cases hframed⟩

/-- Every body settles, and what it pops is what it pushed. -/
theorem settles_run (b : StackBody framed) {pairs : List (List UInt8 × List UInt8)}
    (hsp : (m.pointer .sp).base? = some .stack)
    (hsmall : b.leaves = true → m'.stack.size < 2 ^ 61) (h : b.run m = .ok pairs m') :
    Settles framed m m' ∧ ∀ p ∈ pairs, p.2 = p.1 := by
  induction b generalizing m m' pairs with
  | nil =>
    cases h
    exact ⟨settles_refl hsp, by simp⟩
  | append front back ihfront ihback =>
    obtain ⟨first, m₁, hfront, h⟩ := bind_eq_ok.mp h
    obtain ⟨second, m₂, hback, h⟩ := bind_eq_ok.mp h
    cases h
    rw [leaves, Bool.or_eq_true] at hsmall
    have hkeeps : Disturbs 0 m₁ m' := back.relates_run.of_ok hback
    obtain ⟨hsettles, hfirst⟩ := ihfront hsp
      (fun hleaves => Nat.lt_of_le_of_lt hkeeps.size (hsmall (Or.inl hleaves))) hfront
    obtain ⟨hsettles', hsecond⟩ := ihback hsettles.stack (fun hleaves => hsmall (Or.inr hleaves)) hback
    refine ⟨hsettles.trans hsettles', fun p hp => ?_⟩
    exact (List.mem_append.mp hp).elim (hfirst p) (hsecond p)
  | push bytes inner ih =>
    obtain ⟨_, m₁, hpush, h⟩ := bind_eq_ok.mp h
    obtain ⟨pairs, m₂, hrun, h⟩ := bind_eq_ok.mp h
    obtain ⟨popped, m₃, hpop, h⟩ := bind_eq_ok.mp h
    cases h
    have hkeeps : Disturbs 0 m₂ m' := (relates_pop _).of_ok hpop
    have hraises := raises_push hpush
    obtain ⟨hsettles, hpairs⟩ := ih hraises.top.base?
      (fun hleaves => Nat.lt_of_le_of_lt hkeeps.size (hsmall hleaves)) hrun
    obtain ⟨hn, rfl, rfl⟩ := pop_eq_ok hpop
    refine ⟨settles_bracket hraises hsettles hn, fun p hp => ?_⟩
    rcases List.mem_append.mp hp with hp | hp
    · exact hpairs p hp
    · rw [List.mem_singleton.mp hp]
      exact read_of_bracket hsp hpush hsettles hn
  | add n inner ih =>
    obtain ⟨_, m₁, hadd, h⟩ := bind_eq_ok.mp h
    obtain ⟨pairs, m₂, hrun, h⟩ := bind_eq_ok.mp h
    obtain ⟨_, m₃, hsub, h⟩ := bind_eq_ok.mp h
    cases h
    have hkeeps : Disturbs 0 m₂ m' := (relates_stackSub n).of_ok hsub
    have hraises := raises_stackAdd hadd
    obtain ⟨hsettles, hpairs⟩ := ih hraises.top.base?
      (fun hleaves => Nat.lt_of_le_of_lt hkeeps.size (hsmall hleaves)) hrun
    obtain ⟨hn, rfl⟩ := stackSub_eq_ok hsub
    exact ⟨settles_bracket hraises hsettles hn, hpairs⟩
  | frame inner ih =>
    obtain ⟨_, m₁, hopen, h⟩ := bind_eq_ok.mp h
    obtain ⟨pairs, m₂, hrun, h⟩ := bind_eq_ok.mp h
    obtain ⟨_, m₃, hclose, h⟩ := bind_eq_ok.mp h
    cases h
    have hkeeps : Disturbs 0 m₂ m' := relates_popFrame.of_ok hclose
    obtain ⟨n, hpush, rfl⟩ := pushFrame_eq_ok hopen
    have hregister : (n.setRegister .fp (n.register .sp)).register .sp = n.register .sp :=
      register_setRegister_of_ne n _ (by decide)
    have hbase := ((raises_push hpush).top.of_register_eq hregister).base?
    obtain ⟨hsettles, hpairs⟩ := ih hbase
      (fun hleaves => Nat.lt_of_le_of_lt hkeeps.size (hsmall hleaves)) hrun
    exact ⟨settles_frame hsp hpush hsettles hclose, hpairs⟩
  | leaveBytes bytes =>
    obtain ⟨_, m₁, hpush, h⟩ := bind_eq_ok.mp h
    cases h
    exact ⟨settles_of_raises (raises_push hpush) (hsmall rfl), by simp⟩
  | leaveRoom n =>
    obtain ⟨_, m₁, hadd, h⟩ := bind_eq_ok.mp h
    cases h
    exact ⟨settles_of_raises (raises_stackAdd hadd) (hsmall rfl), by simp⟩

/-- A body that ran through has put the stack pointer and the frame pointer back, every pop in it
has given the bytes of its push, and the stack below where it began is as it was. The one exception
is a body with something left in a frame, on a stack that is too large for its addresses. -/
theorem run_balanced (b : StackBody false) {pairs : List (List UInt8 × List UInt8)}
    (hsp : (m.pointer .sp).base? = some .stack) (h : b.run m = .ok pairs m') :
    (b.leaves = true ∧ 2 ^ 61 ≤ m'.stack.size) ∨
      m'.register .sp = m.register .sp ∧ m'.register .fp = m.register .fp ∧
        (∀ p ∈ pairs, p.2 = p.1) ∧
        ∀ i : Nat, i < m.stackOffset .sp → i < m.stack.size → m'.stack[i]? = m.stack[i]? := by
  by_cases hlarge : b.leaves = true ∧ 2 ^ 61 ≤ m'.stack.size
  · exact Or.inl hlarge
  · obtain ⟨hsettles, hpairs⟩ := b.settles_run hsp
      (fun hleaves => Nat.lt_of_not_le fun hle => hlarge ⟨hleaves, hle⟩) h
    have hback := stackAt_of_base? hsettles.stack
    rw [hsettles.level rfl] at hback
    exact Or.inr ⟨(stackAt_of_base? hsp).register_eq hback, hsettles.frame, hpairs,
      hsettles.disturbs.stack⟩

/-- A frame in a frame, with bytes and room left in both, between two matched pushes. -/
def nestedFrames : StackBody false :=
  .push [1, 2] (.append
    (.frame (.append (.leaveBytes [3])
      (.append (.frame (.append (.leaveRoom 20) (.push [4] .nil))) (.leaveRoom 2))))
    (.add 5 (.push [6, 7] .nil)))

/-- A memory with one byte on a stack of four. -/
def oneByte : Memory := stateAfter (MemoryOp.push [9] (.initial .empty ⟨4, 64, ∅, none⟩))

theorem run_balanced_nestedFrames :
    ∃ m', nestedFrames.run oneByte = .ok [([4], [4]), ([6, 7], [6, 7]), ([1, 2], [1, 2])] m' ∧
      m'.register .sp = oneByte.register .sp ∧ m'.register .fp = oneByte.register .fp ∧
      m'.stack[0]? = oneByte.stack[0]? := by
  have hsp : (oneByte.pointer .sp).base? = some .stack := by decide +kernel
  have hsize : (stateAfter (nestedFrames.run oneByte)).stack.size = 44 := by decide +kernel
  have hrun : outcome (nestedFrames.run oneByte) =
      .ok [([4], [4]), ([6, 7], [6, 7]), ([1, 2], [1, 2])] := by decide +kernel
  rcases nestedFrames.run_balanced hsp (eq_ok_of_outcome hrun) with
    ⟨-, hlarge⟩ | ⟨hback, hframe, -, hbelow⟩
  · rw [hsize] at hlarge
    exact absurd hlarge (by decide)
  · exact ⟨_, eq_ok_of_outcome hrun, hback, hframe, hbelow 0 (by decide +kernel) (by decide +kernel)⟩

end StackBody

end CellMachine
