import CellMachine.NameMap

/-!
# Maps and sets of names

A map is the map of its own entries (`NameMap.ofList_entries`), a set that of its own names
(`NameSet.ofNames_keys`). The names of a map are those with a value (`NameMap.mem_keys`), and adding
names to a set adds just them (`NameSet.mem_keys_addAll`).
-/

namespace CellMachine

namespace NameMap

variable {α : Type}

/-! ## Entries -/

theorem insertEntry_of_lt {k : String} {l : List (String × α)} (v : α)
    (h : ∀ e ∈ l, e.1 < k) : insertEntry k v l = l ++ [(k, v)] := by
  induction l with
  | nil => rfl
  | cons a rest ih =>
    have ha := h a List.mem_cons_self
    have hrest := ih fun e he => h e (List.mem_cons_of_mem a he)
    rw [insertEntry, if_neg (String.lt_asymm ha), if_pos ha, hrest, List.cons_append]

/-- Entries that come behind those of a map, in order, are added to its end. -/
theorem entries_foldl_insert {l : List (String × α)} {m : NameMap α}
    (h : (m.entries ++ l).Pairwise fun a b => a.1 < b.1) :
    (l.foldl (fun m e => m.insert e.1 e.2) m).entries = m.entries ++ l := by
  induction l generalizing m with
  | nil => simp
  | cons e rest ih =>
    have hlast : ∀ a ∈ m.entries, a.1 < e.1 := fun a ha =>
      (List.pairwise_append.mp h).2.2 a ha e List.mem_cons_self
    have hentries : (m.insert e.1 e.2).entries = m.entries ++ [e] := insertEntry_of_lt e.2 hlast
    rw [List.foldl_cons, ih (by rw [hentries, List.append_assoc]; exact h), hentries,
      List.append_assoc, List.singleton_append]

/-- A map is the map of its entries. -/
theorem ofList_entries (m : NameMap α) : ofList m.entries = m := by
  have h := entries_foldl_insert (m := empty) (l := m.entries) m.sorted
  cases m with
  | mk l hl =>
    unfold ofList
    generalize hm : List.foldl (fun m e => m.insert e.1 e.2) empty l = m' at h
    cases m' with
    | mk l' hl' =>
      obtain rfl : l' = l := h
      rfl

/-! ## Names -/

theorem get?_empty (k : String) : (∅ : NameMap α).get? k = none := rfl

theorem mem_keys {m : NameMap α} {k : String} : k ∈ m.keys ↔ (m.get? k).isSome = true := by
  unfold keys get?
  rw [Option.isSome_map, List.find?_isSome, List.mem_map]
  simp only [beq_iff_eq]

theorem mem_keys_insert {m : NameMap α} {k k' : String} {v : α} :
    k' ∈ (m.insert k v).keys ↔ k' = k ∨ k' ∈ m.keys := by
  rw [mem_keys, mem_keys, get?_insert]
  by_cases h : k' = k
  · simp [h]
  · simp [h]

end NameMap

namespace NameSet

/-- A set is the set of its names. -/
theorem ofNames_keys (s : NameSet) : ofNames s.keys = s := by
  have h := NameMap.ofList_entries s
  unfold NameMap.ofList at h
  unfold ofNames addAll NameMap.keys
  rw [List.foldl_map]
  exact h

/-- Two sets with the same names are the same. -/
theorem ext_keys {s s' : NameSet} (h : ∀ k, k ∈ s.keys ↔ k ∈ s'.keys) : s = s' := by
  refine NameMap.ext_get? fun k => ?_
  have hk := h k
  rw [NameMap.mem_keys, NameMap.mem_keys] at hk
  cases hs : s.get? k <;> cases hs' : s'.get? k
  · rfl
  · simp [hs, hs'] at hk
  · simp [hs, hs'] at hk
  · rfl

theorem mem_keys_addAll {s : NameSet} {names : List String} {k : String} :
    k ∈ (addAll s names).keys ↔ k ∈ s.keys ∨ k ∈ names := by
  induction names generalizing s with
  | nil => simp [addAll]
  | cons name rest ih =>
    have hadd : k ∈ (s.add name).keys ↔ k = name ∨ k ∈ s.keys := NameMap.mem_keys_insert
    rw [addAll, List.foldl_cons, ← addAll, ih, hadd, List.mem_cons, or_assoc, or_left_comm]

theorem mem_keys_ofNames {names : List String} {k : String} :
    k ∈ (ofNames names).keys ↔ k ∈ names := by
  have hempty : k ∉ (∅ : NameSet).keys := by
    rw [NameMap.mem_keys, NameMap.get?_empty]
    simp
  rw [ofNames, mem_keys_addAll]
  exact or_iff_right hempty

end NameSet

end CellMachine
