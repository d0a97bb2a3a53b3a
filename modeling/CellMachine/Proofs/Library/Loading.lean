import CellMachine.Library
import CellMachine.Proofs.Assembly.Naming
import CellMachine.Proofs.Image.Order
import Mathlib.Logic.Relation

/-!
# Loading a program

`Library.Loads` is the search for the modules of a program without any limit : the modules that are
asked for are taken one after the other, those seen before are left out, and what a module requires
is asked for behind the others. In a finite file system this ends, with what `Library.load` gives
(`Library.loadsFrom_iff`) : a module may be had under many names, but its file requires the same
modules under each of them, so that a file has something new to ask for only once. What is loaded
is closed under the requests, has nothing in it that was not asked for, and no two modules of one
name (`Library.Complete`); the linker misses no module in it and finds none twice.
-/

namespace CellMachine

/-! ## Finite file systems -/

/-- There are no more files than the bound says, however many paths lead to them. -/
def Files.IsFinite (fs : Files Id) : Prop :=
  ∃ paths : List Path, paths.length ≤ fs.bound ∧ ∀ p q, fs.file? p = some q → q ∈ paths

namespace FileTree

theorem followOutside_ne_file (segments parts : List String) :
    followOutside segments ≠ .ok (.file parts) := by
  induction segments with
  | nil =>
    intro h
    cases h
  | cons s rest ih =>
    unfold followOutside
    split
    · exact ih
    · intro h
      cases h

theorem contains_of_follow {t : FileTree} {dir segments parts : List String}
    (h : t.follow dir segments = .ok (.file parts)) : t.files.contains (key parts) = true := by
  induction segments generalizing dir with
  | nil => cases h
  | cons s rest ih =>
    unfold follow at h
    split at h
    · exact ih h
    split at h
    · split at h
      · exact absurd h (followOutside_ne_file _ _)
      · exact ih h
    split at h
    · exact ih h
    split at h
    · next hfile =>
      split at h
      · cases h
        exact hfile
      · cases h
    · cases h

theorem contains_of_place {t : FileTree} {p : Path} {parts : List String}
    (h : t.place p = .ok (.file parts)) : t.files.contains (key parts) = true := by
  unfold place followFor at h
  split at h
  · cases h
  split at h
  · cases h
  split at h
  · exact absurd h (followOutside_ne_file _ _)
  · exact contains_of_follow h

theorem isFinite_access (t : FileTree) : t.access.IsFinite := by
  refine ⟨t.files.keys.map Path.mk, ?_, fun p q h => ?_⟩
  · rw [List.length_map, NameMap.keys, List.length_map]
    exact Nat.le_refl _
  · unfold access at h
    dsimp only at h
    split at h
    · next parts hplace =>
      cases h
      exact List.mem_map_of_mem (NameMap.mem_keys.mpr (contains_of_place hplace))
    · cases h

end FileTree

namespace Library

variable {l : Library} {fs : Files Id} {name : String} {seen pending rest : List String}

/-! ## Single modules -/

section Run

variable {ε α β : Type} {x : ExceptT ε Id α} {f : α → ExceptT ε Id β}

theorem run_bind_of_ok {a : α} (h : x.run = .ok a) : (x >>= f).run = (f a).run := by
  change ExceptT.bindCont f x.run = _
  rw [h]
  rfl

theorem run_bind_of_error {e : ε} (h : x.run = .error e) : (x >>= f).run = .error e := by
  change ExceptT.bindCont f x.run = _
  rw [h]
  rfl

theorem run_bind_eq_ok {b : β} (h : (x >>= f).run = .ok b) :
    ∃ a, x.run = .ok a ∧ (f a).run = .ok b := by
  cases hx : x.run with
  | error e =>
    rw [run_bind_of_error hx] at h
    cases h
  | ok a => exact ⟨a, rfl, run_bind_of_ok hx ▸ h⟩

theorem run_bind_pure (g : α → β) : (do return g (← x) : ExceptT ε Id β).run = x.run.map g := by
  cases hx : x.run with
  | error e => rw [run_bind_of_error hx]; rfl
  | ok a => rw [run_bind_of_ok hx]; rfl

end Run

/-- The module of a name, from its file. -/
def objectOf (l : Library) (fs : Files Id) (name : String) : Except LibraryError Object :=
  (do readObject fs (← l.locate fs name) name : ExceptT LibraryError Id Object).run

variable {object : Object}

theorem objectOf_eq_ok (h : l.objectOf fs name = .ok object) :
    ∃ path, (l.locate fs name).run = .ok path ∧ (readObject fs path name).run = .ok object :=
  run_bind_eq_ok h

theorem objectOf_eq_error {e : LibraryError} (h : l.objectOf fs name = .error e) :
    (l.locate fs name).run = .error e ∨
      ∃ path, (l.locate fs name).run = .ok path ∧ (readObject fs path name).run = .error e := by
  unfold objectOf at h
  cases hlocate : (l.locate fs name).run with
  | error e' =>
    rw [run_bind_of_error hlocate] at h
    cases h
    exact .inl rfl
  | ok path =>
    rw [run_bind_of_ok hlocate] at h
    exact .inr ⟨path, rfl, h⟩

theorem readObject_eq_ok {path : Path} (h : (readObject fs path name).run = .ok object) :
    ∃ tokens, (readTokens fs path).run = .ok tokens ∧ assemble tokens name = .ok object := by
  obtain ⟨tokens, htokens, h⟩ := run_bind_eq_ok h
  refine ⟨tokens, htokens, ?_⟩
  cases hassemble : assemble tokens name with
  | error e =>
    rw [hassemble] at h
    cases h
  | ok o =>
    rw [hassemble] at h
    cases h
    rfl

/-- A module is known by the name under which it was asked for. -/
theorem name_of_readObject {path : Path} (h : (readObject fs path name).run = .ok object) :
    object.name = name := by
  obtain ⟨tokens, -, hassemble⟩ := readObject_eq_ok h
  have hrenamed := assemble_renamed tokens name name
  rw [hassemble] at hrenamed
  exact congrArg Object.name (Except.ok.inj hrenamed)

/-- A file requires the same modules, whatever its name. -/
theorem required_of_readObject {path : Path} {name' : String} {object' : Object}
    (h : (readObject fs path name).run = .ok object)
    (h' : (readObject fs path name').run = .ok object') : object'.required = object.required := by
  obtain ⟨tokens, htokens, hassemble⟩ := readObject_eq_ok h
  obtain ⟨tokens', htokens', hassemble'⟩ := readObject_eq_ok h'
  rw [htokens] at htokens'
  cases htokens'
  rw [assemble_renamed tokens name name', hassemble] at hassemble'
  cases hassemble'
  rfl

theorem candidates_subset {relative : Path} {found dirs : List Path} {paths : List Path}
    (hpaths : ∀ p q, fs.file? p = some q → q ∈ paths) (hfound : found ⊆ paths) :
    Id.run (candidates fs relative found dirs) ⊆ paths := by
  induction dirs generalizing found with
  | nil => exact hfound
  | cons dir rest ih =>
    unfold candidates
    cases hfile : fs.file? (dir.join relative) with
    | none => exact ih hfound
    | some path =>
      change Id.run (if path ∈ found then _ else _) ⊆ paths
      split
      · exact ih hfound
      · refine ih fun q hq => ?_
        rcases List.mem_append.mp hq with hq | hq
        · exact hfound hq
        · rw [List.mem_singleton.mp hq]
          exact hpaths _ _ hfile

theorem mem_of_locate {path : Path} {paths : List Path}
    (hpaths : ∀ p q, fs.file? p = some q → q ∈ paths) (h : (l.locate fs name).run = .ok path) :
    path ∈ paths := by
  have hsubset : Id.run (candidates fs (l.relativePath name) [] l.dirs) ⊆ paths :=
    candidates_subset hpaths (List.nil_subset paths)
  obtain ⟨found, hfound, h⟩ := run_bind_eq_ok h
  have hfound : candidates fs (l.relativePath name) [] l.dirs = found := Except.ok.inj hfound
  rw [hfound] at hsubset
  split at h
  · cases h
  · cases h
    exact hsubset List.mem_cons_self
  · cases h

/-! ## The search without a limit -/

/-- The modules that are asked for, one after the other, and what they require in turn. A module
that was seen before is left out, and the first error ends the search. -/
inductive Loads (l : Library) (fs : Files Id) :
    List String → List String → Except LibraryError (List Object) → Prop
  | nothing {seen : List String} : Loads l fs seen [] (.ok [])
  | again {seen rest : List String} {name : String} {result : Except LibraryError (List Object)} :
    name ∈ seen → Loads l fs seen rest result → Loads l fs seen (name :: rest) result
  | fails {seen rest : List String} {name : String} {e : LibraryError} :
    name ∉ seen → l.objectOf fs name = .error e → Loads l fs seen (name :: rest) (.error e)
  | next {seen rest : List String} {name : String} {object : Object}
      {result : Except LibraryError (List Object)} :
    name ∉ seen → l.objectOf fs name = .ok object →
      Loads l fs (name :: seen) (rest ++ object.required) result →
      Loads l fs seen (name :: rest) (result.map (object :: ·))

/-- The search has one result at most. -/
theorem Loads.unique {result result' : Except LibraryError (List Object)}
    (h : Loads l fs seen pending result) (h' : Loads l fs seen pending result') :
    result' = result := by
  induction h generalizing result' with
  | nothing =>
    cases h'
    rfl
  | again hseen _ ih =>
    cases h' with
    | again _ hrest => exact ih hrest
    | fails hnew _ => exact absurd hseen hnew
    | next hnew _ _ => exact absurd hseen hnew
  | fails hnew herror =>
    cases h' with
    | again hseen _ => exact absurd hseen hnew
    | fails _ herror' =>
      rw [herror] at herror'
      cases herror'
      rfl
    | next _ hobject _ =>
      rw [herror] at hobject
      cases hobject
  | next hnew hobject _ ih =>
    cases h' with
    | again hseen _ => exact absurd hseen hnew
    | fails _ herror =>
      rw [hobject] at herror
      cases herror
    | next _ hobject' hrest =>
      rw [hobject] at hobject'
      cases hobject'
      rw [ih hrest]

/-- A pending module that was seen before is in sight without being pending. -/
theorem mem_of_again {x : String} (hseen : name ∈ seen) (h : x ∈ seen ∨ x ∈ name :: rest) :
    x ∈ seen ∨ x ∈ rest := by
  rcases h with h | h
  · exact .inl h
  · rcases List.mem_cons.mp h with rfl | h
    · exact .inl hseen
    · exact .inr h

/-- What is taken from the pending modules stays in sight. -/
theorem mem_of_taken {x : String} (h : x ∈ seen ∨ x ∈ name :: rest) :
    x ∈ name :: seen ∨ x ∈ rest :=
  mem_of_again List.mem_cons_self (h.imp_left (List.mem_cons_of_mem name))

theorem Loads.of_seen {result : Except LibraryError (List Object)}
    (h : Loads l fs seen pending result) {names : List String} (hnames : ∀ x ∈ names, x ∈ seen) :
    Loads l fs seen (names ++ pending) result := by
  induction names with
  | nil => exact h
  | cons x names ih =>
    obtain ⟨hx, hrest⟩ := List.forall_mem_cons.mp hnames
    exact .again hx (ih hrest)

/-- Asking again for what was seen, or is asked for before, changes nothing. -/
theorem Loads.insert {result : Except LibraryError (List Object)} {front back names : List String}
    (h : Loads l fs seen (front ++ back) result) (hnames : ∀ x ∈ names, x ∈ seen ∨ x ∈ front) :
    Loads l fs seen (front ++ (names ++ back)) result := by
  induction front generalizing seen back result with
  | nil => exact h.of_seen fun x hx => (hnames x hx).resolve_right List.not_mem_nil
  | cons name front ih =>
    rw [List.cons_append] at h ⊢
    cases h with
    | again hseen hrest =>
      exact .again hseen (ih hrest fun x hx => mem_of_again hseen (hnames x hx))
    | fails hnew herror => exact .fails hnew herror
    | next hnew hobject hrest =>
      refine .next hnew hobject ?_
      rw [List.append_assoc] at hrest
      rw [List.append_assoc, List.append_assoc]
      exact ih hrest fun x hx => mem_of_taken (hnames x hx)

/-! ## The search ends -/

theorem loadPending_of_mem (n : Nat) (h : name ∈ seen) :
    l.loadPending fs n seen (name :: rest) = l.loadPending fs n seen rest := by
  rw [loadPending, if_pos h]

/-- What a module requires is in sight : it was seen before or is asked for. -/
def InSight (seen pending : List String) (object : Object) : Prop :=
  ∀ r ∈ object.required, r ∈ seen ∨ r ∈ pending

theorem all_required_iff :
    (object.required.all fun r => r ∈ seen ∨ r ∈ pending) = true ↔ InSight seen pending object := by
  simp only [List.all_eq_true, decide_eq_true_eq]
  rfl

theorem loadPending_of_error {e : LibraryError} (n : Nat) (h : name ∉ seen)
    (herror : l.objectOf fs name = .error e) :
    (l.loadPending fs n seen (name :: rest)).run = .error e := by
  rw [loadPending, if_neg h]
  rcases objectOf_eq_error herror with hlocate | ⟨path, hlocate, hread⟩
  · rw [run_bind_of_error hlocate]
  · rw [run_bind_of_ok hlocate, run_bind_of_error hread]

theorem loadPending_of_inSight (n : Nat) (h : name ∉ seen)
    (hobject : l.objectOf fs name = .ok object) (hsight : InSight (name :: seen) rest object) :
    (l.loadPending fs n seen (name :: rest)).run =
      (l.loadPending fs n (name :: seen) rest).run.map (object :: ·) := by
  obtain ⟨path, hlocate, hread⟩ := objectOf_eq_ok hobject
  rw [loadPending, if_neg h, run_bind_of_ok hlocate, run_bind_of_ok hread,
    if_pos (all_required_iff.mpr hsight), run_bind_pure]

theorem loadPending_of_not_inSight (n : Nat) (h : name ∉ seen)
    (hobject : l.objectOf fs name = .ok object) (hsight : ¬InSight (name :: seen) rest object) :
    (l.loadPending fs (n + 1) seen (name :: rest)).run =
      (l.loadPending fs n (name :: seen) (rest ++ object.required)).run.map (object :: ·) := by
  obtain ⟨path, hlocate, hread⟩ := objectOf_eq_ok hobject
  rw [loadPending, if_neg h, run_bind_of_ok hlocate, run_bind_of_ok hread,
    if_neg (mt all_required_iff.mp hsight), run_bind_pure]

/-- Files that have been read, with all that they require in sight. -/
structure Explored (fs : Files Id) (paths : List Path) (seen pending : List String)
    (visited : List Path) : Prop where
  inside : visited ⊆ paths
  distinct : visited.Nodup
  inSight : ∀ path ∈ visited, ∀ name object, (readObject fs path name).run = .ok object →
    InSight seen pending object

namespace Explored

variable {paths visited : List Path}

theorem mono {seen' pending' : List String} (h : Explored fs paths seen pending visited)
    (hnames : ∀ x, x ∈ seen ∨ x ∈ pending → x ∈ seen' ∨ x ∈ pending') :
    Explored fs paths seen' pending' visited where
  inside := h.inside
  distinct := h.distinct
  inSight path hpath name object hobject r hr :=
    hnames r (h.inSight path hpath name object hobject r hr)

/-- A file with something new was not read before. -/
theorem cons {path : Path} {object : Object} (h : Explored fs paths seen (name :: rest) visited)
    (hpath : path ∈ paths) (hread : (readObject fs path name).run = .ok object)
    (hsight : ¬InSight (name :: seen) rest object) :
    Explored fs paths (name :: seen) (rest ++ object.required) (path :: visited) := by
  have hnew : path ∉ visited := fun hvisited =>
    hsight fun r hr => mem_of_taken (h.inSight path hvisited name object hread r hr)
  refine ⟨List.cons_subset.mpr ⟨hpath, h.inside⟩, List.nodup_cons.mpr ⟨hnew, h.distinct⟩, ?_⟩
  intro q hq name' object' hobject' r hr
  rcases List.mem_cons.mp hq with rfl | hq
  · rw [required_of_readObject hread hobject'] at hr
    exact .inr (List.mem_append_right rest hr)
  · exact (mem_of_taken (h.inSight q hq name' object' hobject' r hr)).imp_right
      (List.mem_append_left _)

theorem length_le (h : Explored fs paths seen pending visited) : visited.length ≤ paths.length :=
  (List.subperm_of_subset h.distinct h.inside).length_le

end Explored

/-- The search ends before more than `n` files with something new are met, where there are no more
than that many. -/
theorem loads_loadPending {paths visited : List Path} {n : Nat}
    (hpaths : ∀ p q, fs.file? p = some q → q ∈ paths)
    (h : Explored fs paths seen pending visited) (hn : paths.length ≤ n + visited.length) :
    Loads l fs seen pending (l.loadPending fs n seen pending).run := by
  -- The search goes on with fewer new files or, if nothing new is met, with fewer pending modules.
  induction n using Nat.strong_induction_on generalizing seen pending visited with
  | _ n ihn =>
  induction pending generalizing seen visited with
  | nil =>
    rw [loadPending]
    exact .nothing
  | cons name rest ih =>
    by_cases hseen : name ∈ seen
    · rw [loadPending_of_mem n hseen]
      exact .again hseen (ih (h.mono fun _ => mem_of_again hseen) hn)
    cases hobject : l.objectOf fs name with
    | error e =>
      rw [loadPending_of_error n hseen hobject]
      exact .fails hseen hobject
    | ok object =>
      by_cases hsight : InSight (name :: seen) rest object
      · rw [loadPending_of_inSight n hseen hobject hsight]
        have hrest : Loads l fs (name :: seen) (rest ++ [])
            (l.loadPending fs n (name :: seen) rest).run := by
          rw [List.append_nil]
          exact ih (h.mono fun _ => mem_of_taken) hn
        have hagain := hrest.insert hsight
        rw [List.append_nil] at hagain
        exact .next hseen hobject hagain
      · obtain ⟨path, hlocate, hread⟩ := objectOf_eq_ok hobject
        have hexplored := h.cons (mem_of_locate hpaths hlocate) hread hsight
        have hlength := hexplored.length_le
        rw [List.length_cons] at hlength
        obtain ⟨n, rfl⟩ : ∃ k, n = k + 1 := ⟨n - 1, by omega⟩
        rw [loadPending_of_not_inSight n hseen hobject hsight]
        refine .next hseen hobject (ihn n (Nat.lt_succ_self n) hexplored ?_)
        rw [List.length_cons]
        omega

/-- The name of the module in the file that a program starts with. -/
def rootName (root : Path) : String := root.stem?.getD "main"

/-- The search for a program : its file is read first, and then the modules that it requires. -/
inductive LoadsFrom (l : Library) (fs : Files Id) (root : Path) :
    Except LibraryError (List Object) → Prop
  | fails {e : LibraryError} : (readObject fs root (rootName root)).run = .error e →
    LoadsFrom l fs root (.error e)
  | next {object : Object} {result : Except LibraryError (List Object)} :
    (readObject fs root (rootName root)).run = .ok object →
    Loads l fs [rootName root] object.required result →
    LoadsFrom l fs root (result.map (object :: ·))

theorem loadsFrom_load (hfs : fs.IsFinite) (root : Path) :
    l.LoadsFrom fs root (l.load fs root).run := by
  obtain ⟨paths, hbound, hpaths⟩ := hfs
  change l.LoadsFrom fs root (readObject fs root (rootName root) >>= fun object =>
    l.loadPending fs fs.bound [rootName root] object.required >>= fun os =>
      pure (object :: os)).run
  cases hread : (readObject fs root (rootName root)).run with
  | error e =>
    rw [run_bind_of_error hread]
    exact .fails hread
  | ok object =>
    have hnothing : Explored fs paths [rootName root] object.required [] :=
      ⟨List.nil_subset paths, List.nodup_nil, fun _ hpath => absurd hpath List.not_mem_nil⟩
    rw [run_bind_of_ok hread, run_bind_pure]
    exact .next hread (loads_loadPending hpaths hnothing hbound)

theorem LoadsFrom.unique {root : Path} {result result' : Except LibraryError (List Object)}
    (h : l.LoadsFrom fs root result) (h' : l.LoadsFrom fs root result') : result' = result := by
  cases h with
  | fails hread =>
    cases h' with
    | fails hread' =>
      rw [hread] at hread'
      cases hread'
      rfl
    | next hread' _ =>
      rw [hread] at hread'
      cases hread'
  | next hread hrest =>
    cases h' with
    | fails hread' =>
      rw [hread] at hread'
      cases hread'
    | next hread' hrest' =>
      rw [hread] at hread'
      cases hread'
      rw [hrest.unique hrest']

/-- In a finite file system the search ends, with what the library loads. -/
theorem loadsFrom_iff (hfs : fs.IsFinite) (root : Path)
    (result : Except LibraryError (List Object)) :
    l.LoadsFrom fs root result ↔ result = (l.load fs root).run :=
  ⟨fun h => (loadsFrom_load hfs root).unique h, fun h => h ▸ loadsFrom_load hfs root⟩

/-! ## What is loaded -/

/-- The module `a` requires the module `b`. -/
def Requires (ms : List Object) (a b : String) : Prop := ∃ o ∈ ms, o.name = a ∧ b ∈ o.required

theorem Requires.cons {ms : List Object} {a b : String} (o : Object) (h : Requires ms a b) :
    Requires (o :: ms) a b := by
  obtain ⟨o', ho', hname⟩ := h
  exact ⟨o', List.mem_cons_of_mem o ho', hname⟩

/-- The modules that a search finds. -/
structure Gathers (l : Library) (fs : Files Id) (seen pending : List String) (ms : List Object) :
    Prop where
  found : ∀ o ∈ ms, l.objectOf fs o.name = .ok o
  fresh : ∀ o ∈ ms, o.name ∉ seen
  distinct : (ms.map (·.name)).Nodup
  asked : ∀ x ∈ pending, x ∈ seen ∨ x ∈ ms.map (·.name)
  closed : ∀ o ∈ ms, ∀ x ∈ o.required, x ∈ seen ∨ x ∈ ms.map (·.name)
  reachable : ∀ o ∈ ms, ∃ x ∈ pending, Relation.ReflTransGen (Requires ms) x o.name

/-- One more module in front of what the search finds behind it. -/
theorem Gathers.cons {ms : List Object} (hnew : object.name ∉ seen)
    (hobject : l.objectOf fs object.name = .ok object)
    (h : Gathers l fs (object.name :: seen) (rest ++ object.required) ms) :
    Gathers l fs seen (object.name :: rest) (object :: ms) := by
  have hnames : ∀ x, x ∈ object.name :: seen ∨ x ∈ ms.map (·.name) →
      x ∈ seen ∨ x ∈ (object :: ms).map (·.name) := by
    intro x hx
    simp only [List.map_cons, List.mem_cons] at hx ⊢
    tauto
  constructor
  · exact List.forall_mem_cons.mpr ⟨hobject, h.found⟩
  · exact List.forall_mem_cons.mpr ⟨hnew, fun o ho hseen =>
      h.fresh o ho (List.mem_cons_of_mem _ hseen)⟩
  · refine List.nodup_cons.mpr ⟨fun hmem => ?_, h.distinct⟩
    obtain ⟨o, ho, hname⟩ := List.mem_map.mp hmem
    exact h.fresh o ho (hname ▸ List.mem_cons_self)
  · refine List.forall_mem_cons.mpr ⟨.inr List.mem_cons_self, fun x hx => ?_⟩
    exact hnames x (h.asked x (List.mem_append_left _ hx))
  · refine List.forall_mem_cons.mpr ⟨fun x hx => ?_, fun o ho x hx => ?_⟩
    · exact hnames x (h.asked x (List.mem_append_right _ hx))
    · exact hnames x (h.closed o ho x hx)
  · refine List.forall_mem_cons.mpr ⟨⟨_, List.mem_cons_self, .refl⟩, fun o ho => ?_⟩
    obtain ⟨x, hx, hpath⟩ := h.reachable o ho
    have hpath : Relation.ReflTransGen (Requires (object :: ms)) x o.name :=
      hpath.lift id fun _ _ => Requires.cons object
    rcases List.mem_append.mp hx with hx | hx
    · exact ⟨x, List.mem_cons_of_mem _ hx, hpath⟩
    · exact ⟨object.name, List.mem_cons_self,
        .head ⟨object, List.mem_cons_self, rfl, hx⟩ hpath⟩

theorem Loads.gathers {result : Except LibraryError (List Object)} {ms : List Object}
    (h : Loads l fs seen pending result) (hms : result = .ok ms) :
    Gathers l fs seen pending ms := by
  induction h generalizing ms with
  | nothing =>
    cases hms
    constructor <;> simp
  | again hseen _ ih =>
    have hrest := ih hms
    refine { hrest with
      asked := List.forall_mem_cons.mpr ⟨.inl hseen, hrest.asked⟩
      reachable := fun o ho => ?_ }
    obtain ⟨x, hx, hpath⟩ := hrest.reachable o ho
    exact ⟨x, List.mem_cons_of_mem _ hx, hpath⟩
  | fails _ _ => cases hms
  | @next seen rest name object result hnew hobject _ ih =>
    obtain ⟨path, -, hread⟩ := objectOf_eq_ok hobject
    obtain rfl := name_of_readObject hread
    obtain ⟨os, rfl, rfl⟩ := except_map_eq_ok.mp hms
    exact .cons hnew hobject (ih rfl)

/-- The modules of a program, the one of its file first : each once, with all that are required and
none that is not. -/
structure Complete (l : Library) (fs : Files Id) (root : Path) (ms : List Object) : Prop where
  first : ∃ object rest, ms = object :: rest ∧ object.name = rootName root ∧
    (readObject fs root (rootName root)).run = .ok object ∧
      ∀ o ∈ rest, l.objectOf fs o.name = .ok o
  distinct : (ms.map (·.name)).Nodup
  closed : ∀ o ∈ ms, ∀ x ∈ o.required, x ∈ ms.map (·.name)
  reachable : ∀ o ∈ ms, Relation.ReflTransGen (Requires ms) (rootName root) o.name

theorem LoadsFrom.complete {root : Path} {result : Except LibraryError (List Object)}
    {ms : List Object} (h : l.LoadsFrom fs root result) (hms : result = .ok ms) :
    l.Complete fs root ms := by
  cases h with
  | fails _ => cases hms
  | @next object result hread hrest =>
    have hname := name_of_readObject hread
    obtain ⟨os, rfl, rfl⟩ := except_map_eq_ok.mp hms
    have hos := hrest.gathers rfl
    have hnames : ∀ x, x ∈ [rootName root] ∨ x ∈ os.map (·.name) →
        x ∈ (object :: os).map (·.name) := by
      intro x hx
      rw [List.map_cons, List.mem_cons, hname]
      simpa only [List.mem_singleton] using hx
    constructor
    · exact ⟨object, os, rfl, hname, hread, hos.found⟩
    · refine List.nodup_cons.mpr ⟨fun hmem => ?_, hos.distinct⟩
      obtain ⟨o, ho, heq⟩ := List.mem_map.mp hmem
      exact hos.fresh o ho (List.mem_singleton.mpr (heq.trans hname))
    · refine List.forall_mem_cons.mpr ⟨fun x hx => ?_, fun o ho x hx => ?_⟩
      · exact hnames x (hos.asked x hx)
      · exact hnames x (hos.closed o ho x hx)
    · refine List.forall_mem_cons.mpr ⟨hname ▸ .refl, fun o ho => ?_⟩
      obtain ⟨x, hx, hpath⟩ := hos.reachable o ho
      exact .head ⟨object, List.mem_cons_self, hname, hx⟩
        (hpath.lift id fun _ _ => Requires.cons object)

end Library

/-! ## Linking what is loaded -/

/-- An error that lies in the choice of the modules : one is there twice, or one is not there. -/
def LinkError.isChoice : LinkError → Bool
  | duplicateModule _ | missingModules _ => true
  | _ => false

theorem Linker.SlotError.not_isChoice {symbols : NameMap Symbol} {o : Object} {e : LinkError}
    (h : SlotError symbols o e) : e.isChoice = false := by
  cases h with
  | relocation => rfl
  | reference => rfl
  | misfit =>
    unfold Linker.misfit
    split <;> rfl

/-- Objects of different names, with all that are required, are no wrong choice. -/
theorem Image.not_isChoice_of_ofObjects {objects : List Object} {e : LinkError}
    (hown : ∀ o ∈ objects, (o.symbols.map (·.name)).Nodup)
    (hnames : (objects.map (·.name)).Nodup)
    (hrequired : ∀ o ∈ objects, ∀ x ∈ o.required, x ∈ objects.map (·.name))
    (h : Image.ofObjects objects = .error e) : e.isChoice = false := by
  obtain hadd | ⟨l, hadd, hlink⟩ := except_bind_eq_error.mp h
  · obtain ⟨front, o, back, l, rfl, hfront, hobjection⟩ := Linker.addAll_eq_error hadd
    obtain ⟨hl, hobjects⟩ := Linker.consistent_empty.addAll
      (fun d hd => hown d (List.mem_append_left _ hd)) hfront
    change l.image.objects = front at hobjects
    obtain ⟨htaken, -⟩ | rfl | ⟨_, -, rfl⟩ := Linker.objection?_eq_some hobjection
    · obtain ⟨d, hd, heq⟩ := (Linker.contains_index hl.index o.name).mp htaken
      rw [List.map_append, List.map_cons] at hnames
      exact absurd heq ((List.nodup_append.mp hnames).2.2 d.name
        (List.mem_map_of_mem (hobjects ▸ hd)) o.name List.mem_cons_self)
    · rfl
    · rfl
  · obtain ⟨hl, hobjects⟩ := Linker.consistent_empty.addAll hown hadd
    change l.image.objects = objects at hobjects
    subst hobjects
    obtain ⟨hmissing, -⟩ | ⟨_, rfl⟩ | ⟨_, -, hcause⟩ := Linker.link_eq_error hlink
    · exact absurd (hl.missing_eq_nil.mpr fun o ho x hx => List.mem_map.mp (hrequired o ho x hx))
        hmissing
    · rfl
    · exact hcause.not_isChoice

namespace Library

variable {l : Library} {fs : Files Id} {root : Path} {ms : List Object}

theorem Complete.assembled (h : l.Complete fs root ms) :
    ∀ o ∈ ms, ∃ tokens name, assemble tokens name = .ok o := by
  obtain ⟨object, rest, rfl, -, hread, hfound⟩ := h.first
  refine List.forall_mem_cons.mpr ⟨?_, fun o ho => ?_⟩
  · obtain ⟨tokens, -, hassemble⟩ := readObject_eq_ok hread
    exact ⟨tokens, _, hassemble⟩
  · obtain ⟨path, -, hread⟩ := objectOf_eq_ok (hfound o ho)
    obtain ⟨tokens, -, hassemble⟩ := readObject_eq_ok hread
    exact ⟨tokens, _, hassemble⟩

theorem Complete.not_isChoice (h : l.Complete fs root ms) {e : LinkError}
    (he : Image.ofObjects ms = .error e) : e.isChoice = false :=
  Image.not_isChoice_of_ofObjects (nodup_symbols_of_assembled h.assembled) h.distinct h.closed he

/-- In a finite file system the search for the modules of a program ends, with what the library
loads : the module of its file first, all that are required, each once and no other. The linker
finds none of them twice and misses none. -/
theorem complete_load (l : Library) {fs : Files Id} (hfs : fs.IsFinite) (root : Path) :
    (∀ result, l.LoadsFrom fs root result ↔ result = (l.load fs root).run) ∧
      ∀ ms, (l.load fs root).run = .ok ms → l.Complete fs root ms ∧
        (∀ name, Image.ofObjects ms ≠ .error (.duplicateModule name)) ∧
        ∀ names, Image.ofObjects ms ≠ .error (.missingModules names) := by
  refine ⟨loadsFrom_iff hfs root, fun ms hms => ?_⟩
  have hcomplete := (loadsFrom_load hfs root).complete hms
  refine ⟨hcomplete, fun name h => ?_, fun names h => ?_⟩
  · cases hcomplete.not_isChoice h
  · cases hcomplete.not_isChoice h

/-- Three files that require one another, themselves and the file of the program. -/
def entwined : FileTree := .ofList [
  ("main.cin", Text.toUtf8 "#request left\n#request right\n"),
  ("left.cin", Text.toUtf8 "#request right\n#request main\n"),
  ("right.cin", Text.toUtf8 "#request left\n#request right\n")]

/-- The modules of the top directory. -/
def topLevel : Library := ⟨[⟨"."⟩], sourceExtension⟩

theorem complete_load_entwined :
    entwined.access.IsFinite ∧ ∃ main left right,
      (topLevel.load entwined.access ⟨"main.cin"⟩).run = .ok [main, left, right] ∧
      main.required = ["left", "right"] ∧ left.required = ["right", "main"] ∧
      right.required = ["left", "right"] ∧
      topLevel.Complete entwined.access ⟨"main.cin"⟩ [main, left, right] ∧
      (∀ name, Image.ofObjects [main, left, right] ≠ .error (.duplicateModule name)) ∧
      ∀ names, Image.ofObjects [main, left, right] ≠ .error (.missingModules names) := by
  have hfinite := entwined.isFinite_access
  have hmain : ((readObject entwined.access ⟨"main.cin"⟩ "main").run.map (·.required)) =
      .ok ["left", "right"] := by decide +kernel
  have hleft : (topLevel.objectOf entwined.access "left").map (·.required) =
      .ok ["right", "main"] := by decide +kernel
  have hright : (topLevel.objectOf entwined.access "right").map (·.required) =
      .ok ["left", "right"] := by decide +kernel
  obtain ⟨main, hmain, hrequired⟩ := except_map_eq_ok.mp hmain
  obtain ⟨left, hleft, hrequired'⟩ := except_map_eq_ok.mp hleft
  obtain ⟨right, hright, hrequired''⟩ := except_map_eq_ok.mp hright
  have hlast : Loads topLevel entwined.access ["right", "left", "main"]
      (["right", "main"] ++ right.required) (.ok []) := by
    rw [hrequired'', ← List.append_nil (_ ++ _)]
    exact Loads.nothing.of_seen (by decide)
  have hnext : Loads topLevel entwined.access ["left", "main"] (["right"] ++ left.required)
      (.ok [right]) := by
    rw [hrequired']
    exact .next (by decide) hright hlast
  have hpending : Loads topLevel entwined.access ["main"] main.required (.ok [left, right]) := by
    rw [hrequired]
    exact .next (by decide) hleft hnext
  obtain ⟨hload, hcomplete⟩ := complete_load topLevel hfinite ⟨"main.cin"⟩
  have hname : rootName ⟨"main.cin"⟩ = "main" := by decide +kernel
  have hloaded := (hload _).mp (.next (hname ▸ hmain) (hname ▸ hpending))
  exact ⟨hfinite, main, left, right, hloaded.symm, hrequired, hrequired', hrequired'',
    hcomplete _ hloaded.symm⟩

end Library

end CellMachine
