import Courseware.Dictionary

/-!
# Lookups in dictionaries

What is found after an insertion, what the entries say about it, and how a
dictionary is rebuilt from its entries.
-/

namespace Courseware

universe u

variable {α : Type u}

/-! ## Lists of entries -/

theorem findEntry_insertEntry_self (key : String) (value : α)
    (entries : List (String × α)) :
    findEntry key (insertEntry key value entries) = some value := by
  induction entries with
  | nil => simp [insertEntry, findEntry]
  | cons e rest ih =>
    rw [insertEntry]
    split
    · simp [findEntry]
    · split
      · simp [findEntry]
      · rename_i hne
        rw [findEntry, if_neg hne, ih]

theorem findEntry_insertEntry_of_ne {key other : String} (h : other ≠ key) (value : α)
    (entries : List (String × α)) :
    findEntry other (insertEntry key value entries) = findEntry other entries := by
  induction entries with
  | nil => simp [insertEntry, findEntry, h]
  | cons e rest ih =>
    rw [insertEntry]
    split
    · rw [findEntry, if_neg h]
    · split
      · rename_i heq
        subst heq
        rw [findEntry, if_neg h, findEntry, if_neg h]
      · rw [findEntry, findEntry, ih]

theorem mem_of_findEntry {key : String} {value : α} {entries : List (String × α)}
    (h : findEntry key entries = some value) : (key, value) ∈ entries := by
  induction entries with
  | nil => simp [findEntry] at h
  | cons e rest ih =>
    rw [findEntry] at h
    split at h
    · rename_i heq
      subst heq
      rw [← Option.some.inj h]
      exact List.mem_cons_self
    · exact List.mem_cons_of_mem _ (ih h)

theorem findEntry_eq_none_iff {key : String} {entries : List (String × α)} :
    findEntry key entries = none ↔ ∀ e ∈ entries, e.1 ≠ key := by
  induction entries with
  | nil => simp [findEntry]
  | cons e rest ih =>
    rw [findEntry]
    by_cases h : key = e.1
    · simp [h]
    · simp [h, ih, Ne.symm h]

/-- In an ordered list every entry is found by its key. -/
theorem findEntry_of_mem {entries : List (String × α)}
    (hordered : entries.Pairwise fun a b => a.1 < b.1) {e : String × α} (he : e ∈ entries) :
    findEntry e.1 entries = some e.2 := by
  induction entries with
  | nil => cases he
  | cons head rest ih =>
    obtain ⟨hhead, hrest⟩ := List.pairwise_cons.mp hordered
    rw [findEntry]
    rcases List.mem_cons.mp he with rfl | he
    · rw [if_pos rfl]
    · have hne : e.1 ≠ head.1 := fun heq =>
        String.lt_irrefl head.1 (by have hlt := hhead e he; rwa [heq] at hlt)
      rw [if_neg hne, ih hrest he]

/-- An entry with a key behind all others is put at the end. -/
theorem insertEntry_of_forall_lt {key : String} {entries : List (String × α)}
    (h : ∀ e ∈ entries, e.1 < key) (value : α) :
    insertEntry key value entries = entries ++ [(key, value)] := by
  induction entries with
  | nil => rfl
  | cons e rest ih =>
    have hlt : e.1 < key := h e List.mem_cons_self
    have hnot : ¬ key < e.1 := fun hback =>
      String.lt_irrefl _ (String.lt_trans hlt hback)
    have hne : key ≠ e.1 := fun heq => String.lt_irrefl key (by rw [← heq] at hlt; exact hlt)
    rw [insertEntry, if_neg hnot, if_neg hne,
      ih fun e he => h e (List.mem_cons_of_mem _ he), List.cons_append]

namespace Dictionary

@[simp] theorem entries_empty : (∅ : Dictionary α).entries = [] := rfl

@[simp] theorem find?_empty (key : String) : (∅ : Dictionary α).find? key = none := rfl

theorem eq_of_entries {d d' : Dictionary α} (h : d.entries = d'.entries) : d = d' := by
  cases d
  cases d'
  simpa using h

@[simp] theorem find?_insert_self (d : Dictionary α) (key : String) (value : α) :
    (d.insert key value).find? key = some value :=
  findEntry_insertEntry_self key value d.entries

theorem find?_insert_of_ne (d : Dictionary α) {key other : String} (h : other ≠ key)
    (value : α) : (d.insert key value).find? other = d.find? other :=
  findEntry_insertEntry_of_ne h value d.entries

theorem contains_iff_mem_keys {d : Dictionary α} {key : String} :
    d.contains key = true ↔ key ∈ d.keys := by
  rw [contains, find?, Option.isSome_iff_ne_none, Ne, findEntry_eq_none_iff, keys,
    List.mem_map]
  constructor
  · intro h
    exact Decidable.byContradiction fun hn => h fun e he heq => hn ⟨e, he, heq⟩
  · rintro ⟨e, he, heq⟩ h
    exact h e he heq

theorem nodup_keys (d : Dictionary α) : d.keys.Nodup := by
  rw [keys, List.Nodup, List.pairwise_map]
  refine d.ordered.imp ?_
  intro a b hlt heq
  rw [heq] at hlt
  exact String.lt_irrefl _ hlt

theorem mem_entries_iff {d : Dictionary α} {e : String × α} :
    e ∈ d.entries ↔ d.find? e.1 = some e.2 :=
  ⟨findEntry_of_mem d.ordered, mem_of_findEntry⟩

/-- A dictionary is determined by what is found in it. -/
theorem eq_of_find? {d d' : Dictionary α} (h : ∀ key, d.find? key = d'.find? key) : d = d' := by
  have hnodup : ∀ d : Dictionary α, d.entries.Nodup := by
    intro d
    refine d.ordered.imp ?_
    intro a b hlt heq
    rw [heq] at hlt
    exact String.lt_irrefl _ hlt
  have hperm : d.entries.Perm d'.entries :=
    (List.perm_ext_iff_of_nodup (hnodup d) (hnodup d')).mpr fun e => by
      rw [mem_entries_iff, mem_entries_iff, h]
  refine eq_of_entries (hperm.eq_of_pairwise ?_ d.ordered d'.ordered)
  intro a b _ _ hab hba
  exact absurd (String.lt_trans hab hba) (String.lt_irrefl _)

/-- Entries in the order of their keys are kept as they are. -/
theorem entries_foldl_insert {entries : List (String × α)} {d : Dictionary α}
    (h : (d.entries ++ entries).Pairwise fun a b => a.1 < b.1) :
    (entries.foldl (fun d e => d.insert e.1 e.2) d).entries = d.entries ++ entries := by
  induction entries generalizing d with
  | nil => simp
  | cons e rest ih =>
    have hlast : (d.insert e.1 e.2).entries = d.entries ++ [e] := by
      refine insertEntry_of_forall_lt ?_ e.2
      intro e' he'
      exact (List.pairwise_append.mp h).2.2 e' he' e List.mem_cons_self
    have hnext : ((d.insert e.1 e.2).entries ++ rest).Pairwise fun a b => a.1 < b.1 := by
      rw [hlast, List.append_assoc]
      exact h
    rw [List.foldl_cons, ih hnext, hlast, List.append_assoc, List.singleton_append]

/-- A dictionary is made of its entries. -/
theorem foldl_insert_entries (d : Dictionary α) :
    d.entries.foldl (fun d e => d.insert e.1 e.2) ∅ = d :=
  eq_of_entries (entries_foldl_insert d.ordered)

/-- The entry with the greatest key is the last one. -/
theorem entries_eq_concat {d : Dictionary α} {key : String} (hkey : key ∈ d.keys)
    (hmax : ∀ other ∈ d.keys, ¬ key < other) :
    ∃ front value, d.entries = front ++ [(key, value)] := by
  obtain ⟨e, he, rfl⟩ := List.mem_map.mp hkey
  obtain ⟨front, back, hsplit⟩ := List.append_of_mem he
  cases back with
  | nil => exact ⟨front, e.2, hsplit⟩
  | cons e' back =>
    have hordered := d.ordered
    rw [hsplit] at hordered
    have hlt : e.1 < e'.1 :=
      (List.pairwise_cons.mp (List.pairwise_append.mp hordered).2.1).1 e' List.mem_cons_self
    have hmem : e'.1 ∈ d.keys := by
      rw [keys, hsplit]
      simp
    exact absurd hlt (hmax e'.1 hmem)

end Dictionary

end Courseware
