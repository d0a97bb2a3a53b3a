import CellMachine.Proofs.Machine.Fault
import CellMachine.Proofs.Machine.Primitives

/-!
# Looking up foreign functions

An `Observed` is a machine with a record of every time its registry was asked and had a function.
`Observed.step` carries out an instruction like `Machine.step`, but looks functions up in a given
way : `Watch.ask` asks the registry at every call, `Watch.askOnce` keeps what it was given for the
place and the name of the call.

The machine does what an observed machine does that asks once (`Observed.simulates_askOnce`), and
what it keeps is what the registry would give again, so that it also does what one does that asks
at every call (`Machine.history_without_cache`). A name is looked up only if it is granted, so that
registries that agree on the granted names cannot be told apart (`Machine.history_eq_of_agree`).
-/

namespace CellMachine

/-! ## Observed machines -/

/-- A machine with the calls for which its registry was asked and had a function, the last one
first. -/
structure Observed where
  machine : Machine
  asked : List CallSite

/-- An action of an observed machine. -/
abbrev Watch := EStateM Fault Observed

namespace Watch

variable {α : Type}

/-- An action of the machine, of which nothing is recorded. -/
def ofExec (x : Exec α) : Watch α := fun o =>
  match x o.machine with
  | .ok a s => .ok a ⟨s, o.asked⟩
  | .error e s => .error e ⟨s, o.asked⟩

/-- Asks the registry, and records that it had a function. -/
def ask (site : CallSite) : Watch ForeignFunction := do
  let f ← ofExec (Exec.askRegistry site)
  modify fun o => ⟨o.machine, site :: o.asked⟩
  return f

/-- Asks the registry, unless it gave a function for this call before. -/
def askOnce : CallSite → Watch ForeignFunction := Exec.findWith ofExec ask

theorem ofExec_of_ok {x : Exec α} {a : α} {o : Observed} {s : Machine}
    (h : x o.machine = .ok a s) : ofExec x o = .ok a ⟨s, o.asked⟩ := by
  unfold ofExec
  rw [h]

theorem ask_of_some {site : CallSite} {o : Observed} {f : ForeignFunction}
    (h : o.machine.registry site.2 = .ok (some f)) :
    ask site o = .ok f ⟨o.machine, site :: o.asked⟩ :=
  bind_of_ok (ofExec_of_ok (Primitives.askRegistry_of_some h)) _

/-- A machine and an observed machine whose registries give the same for a call. -/
theorem ask_cases {site : CallSite} {s : Machine} {o : Observed}
    (h : o.machine.registry site.2 = s.registry site.2) :
    (∃ e, Exec.askRegistry site s = .error e s ∧ ask site o = .error e o) ∨
      ∃ f, s.registry site.2 = .ok (some f) ∧ Exec.askRegistry site s = .ok f s ∧
        ask site o = .ok f ⟨o.machine, site :: o.asked⟩ := by
  unfold ask ofExec Exec.askRegistry
  simp only [bind, EStateM.bind, get, getThe, MonadStateOf.get, EStateM.get, h]
  rcases s.registry site.2 with e | _ | f
  · exact .inl ⟨_, rfl, rfl⟩
  · exact .inl ⟨_, rfl, rfl⟩
  · exact .inr ⟨f, rfl, rfl, rfl⟩

/-- Looks up a function that may be called. -/
def granted (find : CallSite → Watch ForeignFunction) (site : CallSite) :
    Watch ForeignFunction := do
  if (← get).machine.config.isGranted site.2 then find site else throw (.permissionDenied site.2)

/-- The operations of a machine that looks functions up with `find`. -/
def primitives (find : CallSite → Watch ForeignFunction) : Primitives Watch :=
  { Primitives.machine.map ofExec with function := granted find }

end Watch

namespace Observed

/-- Does something to the machine that is observed. -/
def update (f : Machine → Machine) (o : Observed) : Observed := ⟨f o.machine, o.asked⟩

/-- Carries out one instruction. -/
def step (find : CallSite → Watch ForeignFunction) (o : Observed) :
    Except RunError Outcome × Observed :=
  match o.machine.halted with
  | some code => (.ok (.halted code), o)
  | none =>
    let cp := o.machine.memory.pointer .cp
    let sp := o.machine.register .sp
    let fp := o.machine.register .fp
    match o.machine.fetch cp with
    | .fault f => (.error ⟨f, some cp, []⟩, o)
    | .endOfCode => (.ok o.machine.halt.1, o.update (·.halt.2))
    | .instruction i =>
      match (Watch.primitives find).execute i i.size cp o with
      | .error f o =>
        (.error ⟨f, some cp, [mnemonic i.opcode i.datatype]⟩, o.update (·.withPointers cp sp fp))
      | .ok () o =>
        let o := o.update fun s => { s with steps := s.steps + 1 }
        if i.opcode = .exit then (.ok o.machine.halt.1, o.update (·.halt.2)) else (.ok .paused, o)

/-- A relation that says nothing of memory, console and progress but that they are the same. -/
structure Shares (R : Machine → Observed → Prop) : Prop where
  host : ∀ {s o}, R s o → o.machine.host = s.host
  config : ∀ {s o}, R s o → o.machine.config = s.config
  halted : ∀ {s o}, R s o → o.machine.halted = s.halted
  steps : ∀ {s o}, R s o → o.machine.steps = s.steps
  update : ∀ {s o} (host : Host) (halted : Option Int64) (steps : Nat), R s o →
    R { s with host := host, halted := halted, steps := steps }
      ⟨{ o.machine with host := host, halted := halted, steps := steps }, o.asked⟩

namespace Shares

variable {R : Machine → Observed → Prop} {s : Machine} {o : Observed}

theorem withHost (hR : Shares R) (h : R s o) (host : Host) :
    R { s with host := host } ⟨{ o.machine with host := host }, o.asked⟩ := by
  have hupdate := hR.update host s.halted s.steps h
  simpa only [hR.halted h, hR.steps h] using hupdate

theorem updateMemory (hR : Shares R) (h : R s o) (f : Memory → Memory) :
    R (s.updateMemory f) (o.update (·.updateMemory f)) := by
  have hhost := hR.host h
  obtain ⟨⟨memory, console⟩, registry, config, cache, halted, steps⟩ := s
  obtain ⟨⟨host, registry', config', cache', halted', steps'⟩, asked⟩ := o
  obtain rfl : host = ⟨memory, console⟩ := hhost
  exact hR.withHost h ⟨f memory, console⟩

theorem withPointers (hR : Shares R) (h : R s o) (cp : Address) (sp fp : Cell) :
    R (s.withPointers cp sp fp) (o.update (·.withPointers cp sp fp)) :=
  hR.updateMemory h fun m => ((m.setRegister .sp sp).setRegister .fp fp).setPointer .cp cp

theorem ofMemory {α : Type} (hR : Shares R) (op : MemoryOp α) :
    Simulates id R (Exec.ofMemory op) (Watch.ofExec (Exec.ofMemory op)) := by
  intro s o h
  have hhost := hR.host h
  obtain ⟨⟨memory, console⟩, registry, config, cache, halted, steps⟩ := s
  obtain ⟨⟨host, registry', config', cache', halted', steps'⟩, asked⟩ := o
  obtain rfl : host = ⟨memory, console⟩ := hhost
  unfold Watch.ofExec Exec.ofMemory
  dsimp only
  cases op memory with
  | ok a memory => exact .ok a (hR.withHost h ⟨memory, console⟩)
  | error f memory => exact .error f (hR.withHost h ⟨memory, console⟩)

theorem ofHost {α : Type} (hR : Shares R) (op : HostOp α) :
    Simulates id R (Exec.ofHost op) (Watch.ofExec (Exec.ofHost op)) := by
  intro s o h
  have hhost := hR.host h
  obtain ⟨host, registry, config, cache, halted, steps⟩ := s
  obtain ⟨⟨host', registry', config', cache', halted', steps'⟩, asked⟩ := o
  obtain rfl : host' = host := hhost
  unfold Watch.ofExec Exec.ofHost
  dsimp only
  cases op host' with
  | ok a host => exact .ok a (hR.withHost h host)
  | error e host => exact .error _ (hR.withHost h host)

theorem register (hR : Shares R) (r : Register) :
    Simulates id R (Primitives.machine.register r)
      (Watch.ofExec (Primitives.machine.register r)) := by
  intro s o h
  change Matches id R (.ok (s.host.memory.register r) s) (.ok (o.machine.host.memory.register r) o)
  rw [hR.host h]
  exact .ok _ h

/-- Machines that look functions up alike have operations that are alike. -/
theorem alike (hR : Shares R) {find : CallSite → Watch ForeignFunction}
    (hfind : ∀ site, Simulates id R (Primitives.grantedFunction site) (Watch.granted find site)) :
    Primitives.Alike R (Simulates id R) Primitives.machine (Watch.primitives find) where
  toRelator := Simulates.relator id R
  fault f := fun _ _ h => .error f h
  operand _ _ := fun _ _ h => .ok _ h
  fixedOperand _ _ := fun _ _ h => .ok _ h
  typed _ := rfl
  arguments _ := fun _ _ h => .ok _ h
  sum _ _ := rfl
  addSizes _ := fun _ _ h => .ok _ h
  register := hR.register
  setRegister _ _ := fun _ _ h => .ok () (hR.updateMemory h _)
  load _ _ := hR.ofMemory _
  store _ _ _ := hR.ofMemory _
  read _ _ := hR.ofMemory _
  write _ _ := hR.ofMemory _
  readText _ := hR.ofMemory _
  checkWritable _ _ := hR.ofMemory _
  pushCell _ _ := hR.ofMemory _
  popCell _ := hR.ofMemory _
  stackAdd _ := hR.ofMemory _
  stackSub _ := hR.ofMemory _
  pushFrame := hR.ofMemory _
  popFrame := hR.ofMemory _
  alloc _ := hR.ofMemory _
  free _ := hR.ofMemory _
  function := hfind
  invoke _ _ _ := hR.ofHost _

theorem fetch (hR : Shares R) (h : R s o) (cp : Address) : o.machine.fetch cp = s.fetch cp := by
  unfold Machine.fetch Machine.memory
  rw [hR.host h, hR.config h, hR.steps h]

theorem halt (hR : Shares R) (h : R s o) :
    o.machine.halt.1 = s.halt.1 ∧ R s.halt.2 (o.update (·.halt.2)) := by
  have hcode : o.machine.register .ec = s.register .ec := by
    unfold Machine.register Machine.memory
    rw [hR.host h]
  have hupdate := hR.update s.host (some (s.register .ec).bits.toInt64) s.steps h
  refine ⟨by unfold Machine.halt; rw [hcode], ?_⟩
  unfold Observed.update Machine.halt
  dsimp only
  rw [hcode]
  simpa only [← hR.host h, ← hR.steps h] using hupdate

theorem count (hR : Shares R) (h : R s o) :
    R { s with steps := s.steps + 1 } (o.update fun s => { s with steps := s.steps + 1 }) := by
  have hupdate := hR.update s.host s.halted (s.steps + 1) h
  unfold Observed.update
  simpa only [hR.host h, hR.halted h, hR.steps h] using hupdate

/-- Machines that look functions up alike do the same in a step. -/
theorem step (hR : Shares R) {find : CallSite → Watch ForeignFunction}
    (hfind : ∀ site, Simulates id R (Primitives.grantedFunction site) (Watch.granted find site))
    (h : R s o) : s.step.1 = (o.step find).1 ∧ R s.step.2 (o.step find).2 := by
  have hmemory : o.machine.memory = s.memory := congrArg Host.memory (hR.host h)
  unfold Machine.step Observed.step Machine.register
  rw [hR.halted h, hmemory]
  cases s.halted with
  | some code => exact ⟨rfl, h⟩
  | none =>
    dsimp only
    rw [hR.fetch h]
    cases hfetch : s.fetch (s.memory.pointer .cp) with
    | fault f => exact ⟨rfl, h⟩
    | endOfCode => exact ⟨congrArg Except.ok (hR.halt h).1.symm, (hR.halt h).2⟩
    | instruction i =>
      obtain ⟨code, hdecode⟩ := Machine.fetch_eq_instruction hfetch
      have hi := shaped_of_decode hdecode
      have hexecute := (hR.alike hfind).execute hi i.size (s.memory.pointer .cp) h
      rw [← Exec.execute_eq hi] at hexecute
      dsimp only
      obtain ⟨_, s₁, o₁, hs, ho, h₁⟩ | ⟨f, s₁, o₁, hs, ho, h₁⟩ := hexecute.eq_ok_or_eq_error
      · rw [hs, ho]
        have hcount := hR.count h₁
        dsimp only
        by_cases hexit : i.opcode = .exit
        · rw [if_pos hexit, if_pos hexit]
          exact ⟨congrArg Except.ok (hR.halt hcount).1.symm, (hR.halt hcount).2⟩
        · rw [if_neg hexit, if_neg hexit]
          exact ⟨rfl, hcount⟩
      · rw [hs, ho]
        exact ⟨rfl, hR.withPointers h₁ _ _ _⟩

end Shares

/-! ## Asking once -/

/-- An observed machine that asks its registry `r₂` once, beside a machine with a registry `r₁`
that may differ for names that are not granted. What was asked for is what is kept. -/
structure Follows (r₁ r₂ : Registry) (s : Machine) (o : Observed) : Prop where
  registry : s.registry = r₁
  machine : o.machine = { s with registry := r₂ }
  agree : ∀ name, s.config.isGranted name = true → r₁ name = r₂ name
  asked : o.asked = s.cache.map (·.1)
  nodup : o.asked.Nodup

theorem shares_follows (r₁ r₂ : Registry) : Shares (Follows r₁ r₂) where
  host h := by rw [h.machine]
  config h := by rw [h.machine]
  halted h := by rw [h.machine]
  steps h := by rw [h.machine]
  update host halted steps h := by
    refine ⟨h.registry, ?_, h.agree, h.asked, h.nodup⟩
    rw [h.machine]

theorem simulates_granted {R : Machine → Observed → Prop} (hR : Shares R)
    {find : CallSite → Watch ForeignFunction} {site : CallSite}
    (hfind : ∀ ⦃s o⦄, R s o → s.config.isGranted site.2 = true →
      Matches id R (Exec.findForeign site s) (find site o)) :
    Simulates id R (Primitives.grantedFunction site) (Watch.granted find site) := by
  intro s o h
  change Matches id R
    ((if s.config.isGranted site.2 then Exec.findForeign site
      else throw (.permissionDenied site.2)) s)
    ((if o.machine.config.isGranted site.2 then find site
      else throw (.permissionDenied site.2)) o)
  rw [hR.config h]
  by_cases hgranted : s.config.isGranted site.2 = true
  · rw [if_pos hgranted, if_pos hgranted]
    exact hfind h hgranted
  · rw [if_neg hgranted, if_neg hgranted]
    exact .error _ h

theorem simulates_askOnce (r₁ r₂ : Registry) (site : CallSite) :
    Simulates id (Follows r₁ r₂) (Primitives.grantedFunction site)
      (Watch.granted Watch.askOnce site) := by
  refine simulates_granted (shares_follows r₁ r₂) fun s o h hgranted => ?_
  have hcache : o.machine.cache = s.cache := by rw [h.machine]
  have hregistry : o.machine.registry site.2 = s.registry site.2 := by
    rw [h.machine, h.registry, h.agree _ hgranted]
  cases hfound : s.cache.find? (·.1 == site) with
  | some p =>
    have hkept := Watch.ofExec_of_ok (o := o) (Primitives.kept_of_find? (hcache ▸ hfound))
    rw [Primitives.findForeign_of_some hfound, Watch.askOnce, Primitives.findWith_of_some hkept]
    exact .ok p.2 h
  | none =>
    have hkept := Watch.ofExec_of_ok (o := o) (Primitives.kept_of_find? (hcache ▸ hfound))
    rw [Primitives.findForeign_of_none hfound, Watch.askOnce, Primitives.findWith_of_none hkept]
    obtain ⟨e, hs, ho⟩ | ⟨f, -, hs, ho⟩ := Watch.ask_cases hregistry
    · rw [bind_eq_error.mpr (.inl hs), bind_eq_error.mpr (.inl ho)]
      exact .error e h
    · rw [bind_of_ok hs, bind_of_ok ho]
      have hnew : site ∉ s.cache.map (·.1) := by
        intro hmem
        obtain ⟨p, hp, rfl⟩ := List.mem_map.mp hmem
        exact List.find?_eq_none.mp hfound p hp (beq_self_eq_true _)
      refine .ok f ⟨h.registry, ?_, h.agree, ?_, ?_⟩
      · change { o.machine with cache := (site, f) :: o.machine.cache } = _
        rw [h.machine]
      · exact congrArg (site :: ·) h.asked
      · exact List.nodup_cons.mpr ⟨h.asked ▸ hnew, h.nodup⟩

/-! ## Asking at every call -/

/-- An observed machine that keeps nothing, beside a machine that keeps what its registry gives. -/
structure Forgets (s : Machine) (o : Observed) : Prop where
  machine : o.machine = { s with cache := o.machine.cache }
  cached : ∀ p ∈ s.cache, s.registry p.1.2 = .ok (some p.2)

theorem shares_forgets : Shares Forgets where
  host h := by rw [h.machine]
  config h := by rw [h.machine]
  halted h := by rw [h.machine]
  steps h := by rw [h.machine]
  update host halted steps h := by
    refine ⟨?_, h.cached⟩
    rw [h.machine]

theorem simulates_ask (site : CallSite) :
    Simulates id Forgets (Primitives.grantedFunction site) (Watch.granted Watch.ask site) := by
  refine simulates_granted shares_forgets fun s o h _ => ?_
  have hregistry : o.machine.registry site.2 = s.registry site.2 := by rw [h.machine]
  cases hfound : s.cache.find? (·.1 == site) with
  | some p =>
    -- What is kept for a call is what the registry would give once more.
    have hsite : p.1 = site := by simpa using List.find?_some hfound
    have hkept := h.cached p (List.mem_of_find?_eq_some hfound)
    rw [hsite] at hkept
    rw [Primitives.findForeign_of_some hfound, Watch.ask_of_some (hregistry.trans hkept)]
    exact .ok p.2 ⟨h.machine, h.cached⟩
  | none =>
    rw [Primitives.findForeign_of_none hfound]
    obtain ⟨e, hs, ho⟩ | ⟨f, hf, hs, ho⟩ := Watch.ask_cases hregistry
    · rw [bind_eq_error.mpr (.inl hs), ho]
      exact .error e h
    · rw [bind_of_ok hs, ho]
      exact .ok f ⟨h.machine, List.forall_mem_cons.mpr ⟨hf, h.cached⟩⟩

end Observed

/-! ## Histories -/

namespace Observed

/-- What the next `n` steps give if functions are looked up with `find`. -/
def history (find : CallSite → Watch ForeignFunction) (n : Nat) (o : Observed) :
    List (Except RunError Outcome × View) :=
  CellMachine.history (step find) (·.machine.view) n o

variable {R : Machine → Observed → Prop} {s : Machine} {o : Observed}

theorem Shares.history_eq (hR : Shares R) {find : CallSite → Watch ForeignFunction}
    (hfind : ∀ site, Simulates id R (Primitives.grantedFunction site) (Watch.granted find site))
    (h : R s o) (n : Nat) : s.history n = o.history find n := by
  refine history_eq_of_simulates (fun s o h => hR.step hfind h) (fun s o h => ?_) n h
  unfold Machine.view
  rw [hR.host h, hR.halted h, hR.steps h]

theorem Shares.stateBehind (hR : Shares R) {find : CallSite → Watch ForeignFunction}
    (hfind : ∀ site, Simulates id R (Primitives.grantedFunction site) (Watch.granted find site))
    (h : R s o) (n : Nat) :
    R (CellMachine.stateBehind Machine.step n s)
      (CellMachine.stateBehind (Observed.step find) n o) :=
  stateBehind_of_simulates (fun _ _ h => hR.step hfind h) n h

end Observed

namespace Machine

/-- Registries that agree on the names that are granted cannot be told apart by a program. -/
theorem history_eq_of_agree {config : Config} {r₁ r₂ : Registry}
    (hagree : ∀ name, config.isGranted name = true → r₁ name = r₂ name) (image : Image) (n : Nat) :
    (ofImage image r₁ config).map (fun s => (s.view, s.history n)) =
      (ofImage image r₂ config).map (fun s => (s.view, s.history n)) := by
  unfold ofImage
  cases image.missingPermissions config.isGranted with
  | cons name names => rfl
  | nil =>
    -- Both machines do what the second one does if it is observed.
    set s : Registry → Machine := fun r => ⟨⟨.initial image config, #[]⟩, r, config, [], none, 0⟩
    have hfirst : Observed.Follows r₁ r₂ (s r₁) ⟨s r₂, []⟩ := ⟨rfl, rfl, hagree, rfl, .nil⟩
    have hsecond : Observed.Follows r₂ r₂ (s r₂) ⟨s r₂, []⟩ :=
      ⟨rfl, rfl, fun _ _ => rfl, rfl, .nil⟩
    have hhistory : (s r₁).history n = (s r₂).history n :=
      ((Observed.shares_follows _ _).history_eq (Observed.simulates_askOnce _ _) hfirst n).trans
        ((Observed.shares_follows _ _).history_eq (Observed.simulates_askOnce _ _) hsecond n).symm
    exact congrArg (fun h => Except.ok ((s r₂).view, h)) hhistory

/-- A module of its own. -/
def sole (code static : Buffer) : Image :=
  ⟨[⟨"m", [], ∅, ∅, code, static, [], [], []⟩], ∅, ∅, ∅, ∅⟩

/-- Calls `g` and then `f`. -/
def callingBoth : Image :=
  sole #[86, 15, 0, 0, 0, 0, 0, 0, 0, 0, 0, 0, 0, 0, 0, 0, 0,
    86, 15, 0, 0, 2, 0, 0, 0, 0, 0, 0, 0, 0, 0, 0, 0, 0] #[103, 0, 102, 0]

/-- Room for some bytes, and leave to call `g`. -/
def grantingG : Config := ⟨0, 8, (∅ : NameSet).insert "g" (), none⟩

/-- Has every function, which does nothing. -/
def obliging : Registry := fun _ => .ok (some ⟨0, fun _ => pure none⟩)

/-- Has the functions of a registry that are granted, and cannot be asked for others. -/
def restricted (config : Config) (registry : Registry) : Registry := fun name =>
  if config.isGranted name then registry name else .error (.loadFailure name)

theorem history_eq_of_agree_denied :
    (obliging "f").isOk = true ∧ (restricted grantingG obliging "f").isOk = false ∧
      (ofImage callingBoth obliging grantingG).map (fun s => (s.view, s.history 2)) =
        (ofImage callingBoth (restricted grantingG obliging) grantingG).map
          (fun s => (s.view, s.history 2)) ∧
      (ofImage callingBoth obliging grantingG).map (fun s => (s.history 2).map (·.1.isOk)) =
        .ok [true, false] := by
  refine ⟨rfl, by cbv, history_eq_of_agree (fun name hname => ?_) callingBoth 2, by cbv⟩
  unfold restricted
  rw [if_pos hname]

/-- A machine does what it would do if it asked its registry at every foreign call, and its
registry gives it a function once for each place and name that is called. -/
theorem history_without_cache {image : Image} {registry : Registry} {config : Config} {s : Machine}
    (h : ofImage image registry config = .ok s) (n : Nat) :
    s.history n = Observed.history Watch.ask n ⟨s, []⟩ ∧
      s.history n = Observed.history Watch.askOnce n ⟨s, []⟩ ∧
      (stateBehind (Observed.step Watch.askOnce) n ⟨s, []⟩).machine = stateBehind step n s ∧
      (stateBehind (Observed.step Watch.askOnce) n ⟨s, []⟩).asked.Nodup := by
  have hs := ofImage_eq_ok h
  have hforgets : Observed.Forgets s ⟨s, []⟩ := ⟨rfl, by simp [hs]⟩
  have hfollows : Observed.Follows registry registry s ⟨s, []⟩ :=
    ⟨by rw [hs], by rw [hs], fun _ _ => rfl, by simp [hs], .nil⟩
  have hbehind := (Observed.shares_follows _ _).stateBehind
    (Observed.simulates_askOnce _ _) hfollows n
  refine ⟨Observed.shares_forgets.history_eq Observed.simulates_ask hforgets n,
    (Observed.shares_follows _ _).history_eq (Observed.simulates_askOnce _ _) hfollows n, ?_,
    hbehind.nodup⟩
  rw [hbehind.machine, ← hbehind.registry]

/-- Calls `g` again and again. -/
def callingOften : Image :=
  sole #[86, 15, 0, 0, 0, 0, 0, 0, 0, 0, 0, 0, 0, 0, 0, 0, 0,
    83, 15, 0, 0, 0, 0, 0, 0, 0, 0, 0, 128] #[103, 0]

theorem history_without_cache_loop : ∃ s, ofImage callingOften obliging grantingG = .ok s ∧
    s.history 4 = Observed.history Watch.ask 4 ⟨s, []⟩ ∧
    (stateBehind (Observed.step Watch.ask) 4 ⟨s, []⟩).asked.length = 2 ∧
    (stateBehind (Observed.step Watch.askOnce) 4 ⟨s, []⟩).asked.length = 1 ∧
    (stateBehind (Observed.step Watch.askOnce) 4 ⟨s, []⟩).asked.Nodup := by
  have hstart : ofImage callingOften obliging grantingG =
      .ok ⟨⟨.initial callingOften grantingG, #[]⟩, obliging, grantingG, [], none, 0⟩ := rfl
  have hcached := history_without_cache hstart 4
  exact ⟨_, hstart, hcached.1, by cbv, by cbv, hcached.2.2.2⟩

end Machine

end CellMachine
