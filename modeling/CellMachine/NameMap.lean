/-!
# Maps with names as keys

A `NameMap` keeps its entries in the order of their keys, each key once, so two maps with the
same entries are equal. `get?_insert` and `get?_erase` say what an insertion and a removal do to
every key.
-/

namespace CellMachine

/-- A finite map from names, sorted by name. -/
structure NameMap (α : Type) where
  /-- The entries, in the order of their names. -/
  entries : List (String × α)
  sorted : entries.Pairwise fun a b => a.1 < b.1
  deriving DecidableEq

namespace NameMap

variable {α : Type}

/-- The map without entries. -/
def empty : NameMap α := ⟨[], List.Pairwise.nil⟩

instance : Inhabited (NameMap α) := ⟨empty⟩

instance : EmptyCollection (NameMap α) := ⟨empty⟩

/-- Puts an entry in its place, instead of one with the same name if there is one. -/
def insertEntry (k : String) (v : α) : List (String × α) → List (String × α)
  | [] => [(k, v)]
  | e :: rest =>
    if k < e.1 then (k, v) :: e :: rest
    else if e.1 < k then e :: insertEntry k v rest
    else (k, v) :: rest

theorem mem_insertEntry {k : String} {v : α} {l : List (String × α)} {e : String × α}
    (h : e ∈ insertEntry k v l) : e = (k, v) ∨ e ∈ l := by
  induction l with
  | nil => simpa [insertEntry] using h
  | cons a rest ih =>
    unfold insertEntry at h
    split at h
    · simpa using h
    · split at h
      · rcases List.mem_cons.mp h with h | h
        · exact Or.inr (by simp [h])
        · rcases ih h with h | h
          · exact Or.inl h
          · exact Or.inr (List.mem_cons_of_mem _ h)
      · rcases List.mem_cons.mp h with h | h
        · exact Or.inl h
        · exact Or.inr (List.mem_cons_of_mem _ h)

theorem sorted_insertEntry (k : String) (v : α) {l : List (String × α)}
    (h : l.Pairwise fun a b => a.1 < b.1) : (insertEntry k v l).Pairwise fun a b => a.1 < b.1 := by
  induction l with
  | nil => simp [insertEntry]
  | cons a rest ih =>
    have ha := List.pairwise_cons.mp h
    unfold insertEntry
    split
    · next hk =>
      refine List.pairwise_cons.mpr ⟨fun e he => ?_, h⟩
      rcases List.mem_cons.mp he with rfl | he
      · exact hk
      · exact String.lt_trans hk (ha.1 e he)
    · next hk =>
      split
      · next hk' =>
        refine List.pairwise_cons.mpr ⟨fun e he => ?_, ih ha.2⟩
        rcases mem_insertEntry he with rfl | he
        · exact hk'
        · exact ha.1 e he
      · next hk' =>
        have heq : k = a.1 :=
          String.le_antisymm (String.not_lt.mp hk') (String.not_lt.mp hk)
        refine List.pairwise_cons.mpr ⟨fun e he => ?_, ha.2⟩
        rw [heq]
        exact ha.1 e he

/-- Adds an entry. A later entry with the same name replaces an earlier one. -/
def insert (m : NameMap α) (k : String) (v : α) : NameMap α :=
  ⟨insertEntry k v m.entries, sorted_insertEntry k v m.sorted⟩

/-- Removes the entry of a name, if there is one. -/
def erase (m : NameMap α) (k : String) : NameMap α :=
  ⟨m.entries.filter (·.1 != k), m.sorted.filter _⟩

/-- The value of a name. -/
def get? (m : NameMap α) (k : String) : Option α :=
  (m.entries.find? (·.1 == k)).map (·.2)

/-- Whether a name has an entry. -/
def contains (m : NameMap α) (k : String) : Bool := (m.get? k).isSome

/-- The names, in order. -/
def keys (m : NameMap α) : List String := m.entries.map (·.1)

/-- The values, in the order of their names. -/
def values (m : NameMap α) : List α := m.entries.map (·.2)

/-- Whether there are no entries. -/
def isEmpty (m : NameMap α) : Bool := m.entries.isEmpty

/-- The map of a list of entries, later ones replacing earlier ones. -/
def ofList (l : List (String × α)) : NameMap α := l.foldl (fun m e => m.insert e.1 e.2) empty

theorem find?_insertEntry (k : String) (v : α) {l : List (String × α)}
    (h : l.Pairwise fun a b => a.1 < b.1) (k' : String) :
    ((insertEntry k v l).find? (·.1 == k')).map (·.2) =
      if k' = k then some v else (l.find? (·.1 == k')).map (·.2) := by
  induction l with
  | nil =>
    by_cases hk : k' = k
    · simp [insertEntry, hk]
    · simp [insertEntry, hk, Ne.symm hk]
  | cons a rest ih =>
    have ha := List.pairwise_cons.mp h
    unfold insertEntry
    split
    · next hlt =>
      by_cases hk : k' = k
      · simp [hk]
      · simp [hk, Ne.symm hk, List.find?_cons]
    · next hlt =>
      split
      · next hlt' =>
        by_cases hka : a.1 = k'
        · have hk : k' ≠ k := by
            rintro rfl
            rw [hka] at hlt'
            exact String.lt_irrefl _ hlt'
          simp [hka, hk]
        · have hbeq : (a.1 == k') = false := by simpa using hka
          simp only [List.find?_cons, hbeq]
          exact ih ha.2
      · next hlt' =>
        have heq : k = a.1 :=
          String.le_antisymm (String.not_lt.mp hlt') (String.not_lt.mp hlt)
        by_cases hk : k' = k
        · simp [hk]
        · have hbeq : (a.1 == k') = false := by simpa [heq] using Ne.symm hk
          have hbeq' : (k == k') = false := by simpa using Ne.symm hk
          simp [hbeq, hbeq', hk]

/-- An insertion changes the value of its own name and no other. -/
theorem get?_insert (m : NameMap α) (k : String) (v : α) (k' : String) :
    (m.insert k v).get? k' = if k' = k then some v else m.get? k' :=
  find?_insertEntry k v m.sorted k'

/-- Removing an entry takes the value of its own name and no other. -/
theorem get?_erase (m : NameMap α) (k k' : String) :
    (m.erase k).get? k' = if k' = k then none else m.get? k' := by
  unfold erase get?
  rw [List.find?_filter]
  by_cases h : k' = k
  · rw [if_pos h, Option.map_eq_none_iff, List.find?_eq_none]
    intro e _
    simp [h]
  · rw [if_neg h]
    congr 2
    funext e
    by_cases he : e.1 = k'
    · simp [he, h]
    · simp [he]

theorem find?_eq_none_of_lt {l : List (String × α)} {k : String} (h : ∀ e ∈ l, k < e.1) :
    l.find? (·.1 == k) = none := by
  rw [List.find?_eq_none]
  intro e he hk
  have hlt := h e he
  rw [← eq_of_beq hk] at hlt
  exact String.lt_irrefl _ hlt

theorem entries_eq_of_find?_eq {l l' : List (String × α)} (h : l.Pairwise fun a b => a.1 < b.1)
    (h' : l'.Pairwise fun a b => a.1 < b.1)
    (hfind : ∀ k, (l.find? (·.1 == k)).map (·.2) = (l'.find? (·.1 == k)).map (·.2)) : l = l' := by
  induction l generalizing l' with
  | nil =>
    cases l' with
    | nil => rfl
    | cons b rest' => simpa using hfind b.1
  | cons a rest ih =>
    cases l' with
    | nil => simpa using hfind a.1
    | cons b rest' =>
      obtain ⟨ha, hrest⟩ := List.pairwise_cons.mp h
      obtain ⟨hb, hrest'⟩ := List.pairwise_cons.mp h'
      -- a name in front of both lists has no entry in them, so the first names are equal
      have hab : ¬a.1 < b.1 := fun hlt => by
        have hnone : (b :: rest').find? (·.1 == a.1) = none := find?_eq_none_of_lt fun e he => by
          rcases List.mem_cons.mp he with rfl | he
          · exact hlt
          · exact String.lt_trans hlt (hb e he)
        simpa [hnone] using hfind a.1
      have hba : ¬b.1 < a.1 := fun hlt => by
        have hnone : (a :: rest).find? (·.1 == b.1) = none := find?_eq_none_of_lt fun e he => by
          rcases List.mem_cons.mp he with rfl | he
          · exact hlt
          · exact String.lt_trans hlt (ha e he)
        simpa [hnone] using hfind b.1
      have hkey : a.1 = b.1 := String.le_antisymm (String.not_lt.mp hba) (String.not_lt.mp hab)
      have hvalue : a.2 = b.2 := by simpa [hkey] using hfind a.1
      obtain rfl : a = b := Prod.ext hkey hvalue
      congr 1
      refine ih hrest hrest' fun k => ?_
      by_cases hk : a.1 = k
      · subst hk
        rw [find?_eq_none_of_lt ha, find?_eq_none_of_lt hb]
      · have hbeq : (a.1 == k) = false := by simpa using hk
        simpa [hbeq] using hfind k

/-- Two maps with the same values are the same. -/
theorem ext_get? {m m' : NameMap α} (h : ∀ k, m.get? k = m'.get? k) : m = m' := by
  cases m with
  | mk l hl =>
    cases m' with
    | mk l' hl' =>
      obtain rfl : l = l' := entries_eq_of_find?_eq hl hl' h
      rfl

end NameMap

/-- A finite set of names, sorted. -/
abbrev NameSet := NameMap Unit

namespace NameSet

/-- Adds a name. -/
def add (s : NameSet) (name : String) : NameSet := s.insert name ()

/-- Adds every name of a list. -/
def addAll (s : NameSet) (names : List String) : NameSet := names.foldl add s

/-- The set of the names of a list. -/
def ofNames (names : List String) : NameSet := addAll ∅ names

end NameSet

end CellMachine
