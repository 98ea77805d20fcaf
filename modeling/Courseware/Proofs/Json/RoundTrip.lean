import Courseware.Proofs.Dictionary
import Courseware.Proofs.Json.Printing

/-!
# Values survive printing and reading

A printed value is read back with the members of its objects in the order of their
names.
-/

namespace Courseware.Json

/-! ## Sorted members -/

mutual

/-- A value whose objects have their members in the order of their names. -/
def sorted : Json → Json
  | array vs => array (sortedItems vs)
  | object ms => object (sortedMembers [] ms)
  | v => v

/-- Items whose objects have their members in order. -/
def sortedItems : List Json → List Json
  | [] => []
  | v :: vs => v.sorted :: sortedItems vs

/-- Members that are put in order among those that stand before them. -/
def sortedMembers (before : List (String × Json)) :
    List (String × Json) → List (String × Json)
  | [] => before
  | m :: ms => sortedMembers (insertEntry m.1 m.2.sorted before) ms

end

theorem sortedItems_eq (vs : List Json) : sortedItems vs = vs.map sorted := by
  induction vs with
  | nil => rfl
  | cons v vs ih => rw [sortedItems, ih, List.map_cons]

@[simp] theorem sorted_string (s : String) : (string s).sorted = string s := rfl

@[simp] theorem items_sorted_array (vs : List Json) :
    (array vs).sorted.items = vs.map sorted :=
  sortedItems_eq vs

/-- Names that occur once have their own values. -/
theorem findEntry_sortedMembers (name : String) {before ms : List (String × Json)}
    (hnodup : (ms.map Prod.fst).Nodup) :
    findEntry name (sortedMembers before ms) =
      ((findEntry name ms).map sorted).or (findEntry name before) := by
  induction ms generalizing before with
  | nil => rfl
  | cons m ms ih =>
    obtain ⟨hfresh, hrest⟩ := List.nodup_cons.mp (List.map_cons ▸ hnodup)
    rw [sortedMembers, ih hrest, findEntry]
    by_cases hname : name = m.1
    · have hnone : findEntry name ms = none := by
        apply findEntry_eq_none_iff.mpr
        rintro e he rfl
        exact hfresh (hname ▸ List.mem_map.mpr ⟨e, he, rfl⟩)
      rw [if_pos hname, hnone, hname, findEntry_insertEntry_self]
      rfl
    · rw [if_neg hname, findEntry_insertEntry_of_ne hname]

def member? (v : Json) (name : String) : Option Json := findEntry name v.members

/-- Members are found by their names. -/
theorem member?_sorted_object {ms : List (String × Json)} (hnodup : (ms.map Prod.fst).Nodup)
    (name : String) :
    (object ms).sorted.member? name = ((object ms).member? name).map sorted := by
  rw [member?, member?, sorted, members, members, findEntry_sortedMembers name hnodup]
  exact Option.or_none

theorem get_sorted_object {ms : List (String × Json)} (hnodup : (ms.map Prod.fst).Nodup)
    (name : String) : (object ms).sorted.get name = ((object ms).get name).sorted := by
  have hmember := member?_sorted_object hnodup name
  rw [member?, member?] at hmember
  rw [get, get, hmember]
  cases findEntry name (object ms).members <;> rfl

/-! ## Decoding -/

open Decoder (value valueItems valueMembers)

theorem membersDepth_le_iff {ms : List (String × Json)} {n : Nat} :
    membersDepth ms ≤ n ↔ ∀ m ∈ ms, m.2.depth ≤ n := by
  induction ms with
  | nil => simp [membersDepth]
  | cons m ms ih => rw [membersDepth, Nat.max_le, ih, List.forall_mem_cons]

theorem itemsDepth_le_iff {vs : List Json} {n : Nat} :
    itemsDepth vs ≤ n ↔ ∀ v ∈ vs, v.depth ≤ n := by
  induction vs with
  | nil => simp [itemsDepth]
  | cons v vs ih => rw [itemsDepth, Nat.max_le, ih, List.forall_mem_cons]

theorem depth_array_le {α : Type} {f : α → Json} {as : List α} {n : Nat}
    (h : ∀ a ∈ as, (f a).depth ≤ n) : (array (as.map f)).depth ≤ n + 1 := by
  rw [depth, Nat.succ_le_succ_iff, itemsDepth_le_iff]
  exact List.forall_mem_map.mpr h

theorem depth_object_le {ms : List (String × Json)} {n : Nat}
    (h : ∀ m ∈ ms, m.2.depth ≤ n) : (object ms).depth ≤ n + 1 := by
  rw [depth, Nat.succ_le_succ_iff, membersDepth_le_iff]
  exact h

theorem valueItems_itemDrafts {room : Nat} {vs : List Json}
    (h : ∀ v ∈ vs, value room v.toDraft = .ok v.sorted) :
    valueItems room (itemDrafts vs) = .ok (sortedItems vs) := by
  induction vs with
  | nil => rfl
  | cons v vs ih =>
    obtain ⟨hv, hvs⟩ := List.forall_mem_cons.mp h
    rw [itemDrafts, valueItems, hv, ih hvs]
    rfl

theorem valueMembers_memberDrafts {room : Nat} {ms : List (String × Json)}
    (before : List (String × Json))
    (h : ∀ m ∈ ms, value room m.2.toDraft = .ok m.2.sorted) :
    valueMembers room before (memberDrafts ms) = .ok (sortedMembers before ms) := by
  induction ms generalizing before with
  | nil => rfl
  | cons m ms ih =>
    obtain ⟨hm, hms⟩ := List.forall_mem_cons.mp h
    rw [memberDrafts, valueMembers, hm, sortedMembers]
    exact ih _ hms

/-- The draft of a value is understood as the value. -/
theorem value_toDraft {v : Json} {room : Nat} (h : v.depth ≤ room) :
    value room v.toDraft = .ok v.sorted := by
  induction v using Json.induct generalizing room with
  | hnull => rfl
  | hbool b => rfl
  | hnumber n => rfl
  | hstring s => rfl
  | harray vs ih =>
    obtain ⟨room, rfl⟩ : ∃ n, room = n + 1 := ⟨room - 1, by rw [depth] at h; omega⟩
    rw [depth] at h
    have hitems := valueItems_itemDrafts fun v hv =>
      ih v hv (itemsDepth_le_iff.mp (Nat.le_of_succ_le_succ h) v hv)
    rw [toDraft, value]
    simp only [hitems]
    rfl
  | hobject ms ih =>
    obtain ⟨room, rfl⟩ : ∃ n, room = n + 1 := ⟨room - 1, by rw [depth] at h; omega⟩
    rw [depth] at h
    have hmembers := valueMembers_memberDrafts [] fun m hm =>
      ih m hm (membersDepth_le_iff.mp (Nat.le_of_succ_le_succ h) m hm)
    rw [toDraft, value]
    simp only [hmembers]
    rfl

/-! ## Documents -/

/-- A text that stands for a draft is read as the draft, and nothing is left over. -/
theorem draft_ofText {s : String} {d : Draft} (hread : Reads s.toList d) :
    Draft.ofText s = (d, false) := by
  have hvalue := hread.read (2 * s.toList.length + 2) [] (by omega) ends_nil
  rw [List.append_nil] at hvalue
  rw [Draft.ofText, hvalue]
  rfl

/-- A text that stands for a value is read as the value. -/
theorem ofText_eq {s : String} {v : Json} (hread : Reads s.toList v.toDraft)
    (hdepth : v.depth ≤ Decoder.nestingLimit) : ofText s = .ok v.sorted := by
  rw [ofText, Decoder.ofText, draft_ofText hread]
  simp only [value_toDraft hdepth]
  rfl

/-- Inside a script element every value is read as what it is read as on its own. -/
theorem ofText_inlined_eq (v : Json) : ofText (Script.inlined v) = ofText v.compact := by
  have hinlined : Reads (Script.inlined v).toList v.readDraft := by
    rw [Script.inlined, String.toList_ofList]
    exact reads_rewritten rewrites_keepOpen v
  have hcompact : Reads v.compact.toList v.readDraft := reads_rewritten rewrites_id v
  rw [ofText, ofText, Decoder.ofText, Decoder.ofText, draft_ofText hinlined,
    draft_ofText hcompact]

/-- A value survives printing over several lines. -/
theorem ofText_pretty {v : Json} (h : v.Legible)
    (hdepth : v.depth ≤ Decoder.nestingLimit) : ofText v.pretty = .ok v.sorted :=
  ofText_eq (reads_pretty h) hdepth

/-- A value survives being written inside a script element. -/
theorem ofText_inlined {v : Json} (h : v.Legible)
    (hdepth : v.depth ≤ Decoder.nestingLimit) : ofText (Script.inlined v) = .ok v.sorted :=
  ofText_eq (reads_inlined h) hdepth

end Courseware.Json
