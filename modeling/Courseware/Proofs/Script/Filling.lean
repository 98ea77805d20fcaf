import Courseware.Proofs.Json.Exact
import Courseware.Proofs.Script.Slot

/-!
# What a template is filled with

Two slots never overlap, so the first cut through a text finds them all. A template with one
slot keeps the text on both sides of it, and the configuration in between is recovered whatever
it holds, slots and ends of scripts included. A template with no slot or with several is refused.
-/

namespace Courseware.Script

/-! ## Places of a pattern -/

/-- At how many places of a text a pattern stands. -/
def occurrences (pattern cs : List Char) : Nat := cs.tails.countP pattern.isPrefixOf

/-- Whether no end of a pattern is a start of it too, but for the whole pattern. -/
def Unbordered (pattern : List Char) : Prop :=
  ∀ w ∈ pattern.tails, w <+: pattern → w = [] ∨ w = pattern

section Places

variable {pattern cs before after w : List Char}

theorem occurrences_cons (pattern : List Char) (c : Char) (cs : List Char) :
    occurrences pattern (c :: cs) =
      occurrences pattern cs + if pattern.isPrefixOf (c :: cs) then 1 else 0 := by
  rw [occurrences, List.tails_cons, List.countP_cons]
  rfl

theorem occurrences_le_append (pattern w cs : List Char) :
    occurrences pattern cs ≤ occurrences pattern (w ++ cs) := by
  induction w with
  | nil => exact Nat.le_refl _
  | cons c w ih =>
    rw [List.cons_append, occurrences_cons]
    exact ih.trans (Nat.le_add_right _ _)

/-- In a pattern behind its start no other one starts. -/
theorem Unbordered.occurrences_append (h : Unbordered pattern) (hw : w <:+ pattern)
    (hne : w ≠ pattern) (cs : List Char) :
    occurrences pattern (w ++ cs) = occurrences pattern cs := by
  induction w with
  | nil => rfl
  | cons c w ih =>
    have hinner : w <:+ pattern := (List.suffix_cons c w).trans hw
    have hshort : w ≠ pattern := by
      rintro rfl
      have hlength := hw.length_le
      rw [List.length_cons] at hlength
      omega
    have hprefix : pattern.isPrefixOf (c :: w ++ cs) = false := by
      rw [Bool.eq_false_iff]
      intro hfound
      have hstart : (c :: w) <+: pattern :=
        List.prefix_of_prefix_length_le (List.prefix_append _ cs)
          (List.isPrefixOf_iff_prefix.mp hfound) hw.length_le
      -- An occurrence would be a suffix of the pattern that is also its prefix.
      rcases h _ ((List.mem_tails _ _).mpr hw) hstart with hnil | hwhole
      · cases hnil
      · exact hne hwhole
    rw [List.cons_append] at hprefix ⊢
    rw [occurrences_cons, hprefix, ih hinner hshort]
    rfl

/-- A pattern at the start of a text is counted with those behind it. -/
theorem Unbordered.occurrences_pattern (h : Unbordered pattern) (hne : pattern ≠ [])
    (cs : List Char) : occurrences pattern (pattern ++ cs) = occurrences pattern cs + 1 := by
  obtain ⟨c, w, hpattern⟩ := List.exists_cons_of_ne_nil hne
  have hw : w <:+ pattern := hpattern ▸ List.suffix_cons c w
  have hshort : w ≠ pattern := by
    rw [hpattern]
    exact (List.cons_ne_self c w).symm
  have hfound : pattern.isPrefixOf (c :: (w ++ cs)) = true := by
    rw [List.isPrefixOf_iff_prefix, ← List.cons_append, ← hpattern]
    exact List.prefix_append _ _
  have hsplit : pattern ++ cs = c :: (w ++ cs) := by rw [hpattern, List.cons_append]
  rw [hsplit, occurrences_cons, hfound, h.occurrences_append hw hshort, if_pos rfl]

/-- What is not found stands nowhere. -/
theorem occurrences_of_cut?_eq_none (h : cut? pattern cs = none) : occurrences pattern cs = 0 := by
  induction cs with
  | nil =>
    rw [cut?] at h
    split at h
    · cases h
    · rename_i hnil
      simpa [occurrences] using hnil
  | cons c cs ih =>
    rw [cut?] at h
    split at h
    · cases h
    · rename_i hprefix
      rw [occurrences_cons, if_neg hprefix, ih (Option.map_eq_none_iff.mp h)]

/-- What is found stands there, and else only behind. -/
theorem Unbordered.occurrences_of_cut? (h : Unbordered pattern) (hne : pattern ≠ [])
    (hcut : cut? pattern cs = some (before, after)) :
    occurrences pattern cs = occurrences pattern after + 1 := by
  induction cs generalizing before with
  | nil =>
    rw [cut?, if_neg (by simpa using hne)] at hcut
    cases hcut
  | cons c cs ih =>
    rw [cut?] at hcut
    split at hcut
    · rename_i hprefix
      obtain ⟨-, rfl⟩ := Prod.mk.inj (Option.some.inj hcut)
      have hsplit := List.prefix_iff_eq_append.mp (List.isPrefixOf_iff_prefix.mp hprefix)
      rw [← h.occurrences_pattern hne, hsplit]
    · rename_i hprefix
      obtain ⟨⟨b, a⟩, hinner, heq⟩ := Option.map_eq_some_iff.mp hcut
      obtain ⟨-, rfl⟩ := Prod.mk.inj heq
      rw [occurrences_cons, if_neg hprefix, ih hinner, Nat.add_zero]

/-- A pattern with one place has one text before it and one behind it. -/
theorem Unbordered.sides_unique (h : Unbordered pattern) (hne : pattern ≠ [])
    {b a : List Char} (hone : occurrences pattern cs = 1)
    (hcs : cs = before ++ (pattern ++ after)) (hcs' : cs = b ++ (pattern ++ a)) :
    b = before ∧ a = after := by
  -- two different places make two occurrences
  have htwo {u v x : List Char} {c : Char} (hx : pattern ++ u = c :: (x ++ (pattern ++ v)))
      (hle : occurrences pattern (pattern ++ u) ≤ 1) : False := by
    have hbehind := occurrences_le_append pattern x (pattern ++ v)
    have hfound : pattern.isPrefixOf (c :: (x ++ (pattern ++ v))) = true := by
      rw [← hx, List.isPrefixOf_iff_prefix]
      exact List.prefix_append _ _
    rw [h.occurrences_pattern hne v] at hbehind
    rw [hx, occurrences_cons, if_pos hfound] at hle
    omega
  have hbound : occurrences pattern (pattern ++ after) ≤ 1 := by
    rw [← hone, hcs]
    exact occurrences_le_append _ _ _
  have hbound' : occurrences pattern (pattern ++ a) ≤ 1 := by
    rw [← hone, hcs']
    exact occurrences_le_append _ _ _
  rcases List.append_eq_append_iff.mp (hcs.symm.trans hcs') with ⟨x, rfl, hx⟩ | ⟨x, rfl, hx⟩
  · cases x with
    | nil => simpa using hx.symm
    | cons c x => exact (htwo hx hbound).elim
  · cases x with
    | nil => simpa using hx
    | cons c x => exact (htwo hx hbound').elim

end Places

/-! ## Slots -/

theorem unbordered_slot : Unbordered slot.toList := by
  unfold Unbordered
  decide

theorem toList_slot_ne_nil : slot.toList ≠ [] := by decide

namespace Template

variable {t : Template}

/-- How many slots a template has. -/
def slotCount (t : Template) : Nat := occurrences slot.toList t.source.toList

/-- A template has two sides exactly when it has one slot. -/
theorem slotCount_eq_one_iff :
    t.slotCount = 1 ↔ ∃ before after, t.sides? = some (before, after) := by
  rw [slotCount, sides?]
  cases hcut : cut? slot.toList t.source.toList with
  | none => simp [occurrences_of_cut?_eq_none hcut]
  | some sides =>
    obtain ⟨before, after⟩ := sides
    rw [unbordered_slot.occurrences_of_cut? toList_slot_ne_nil hcut]
    dsimp only
    cases hbehind : cut? slot.toList after with
    | none => simp [occurrences_of_cut?_eq_none hbehind]
    | some sides =>
      obtain ⟨b, a⟩ := sides
      simp [unbordered_slot.occurrences_of_cut? toList_slot_ne_nil hbehind]

theorem slotCount_of_hasSlot (h : HasSlot t.source) : t.slotCount = 1 :=
  slotCount_eq_one_iff.mpr h.exists_sides

/-- The texts on both sides of an only slot are the only ones with a slot between them. -/
theorem source_eq_iff_of_sides? {before after : List Char} (hone : t.slotCount = 1)
    (hsides : t.sides? = some (before, after)) (b a : String) :
    t.source = b ++ slot ++ a ↔ b = .ofList before ∧ a = .ofList after := by
  have hsource : t.source = String.ofList before ++ slot ++ String.ofList after :=
    source_eq_of_sides? hsides
  constructor
  · intro heq
    have hunique : b.toList = before ∧ a.toList = after :=
      unbordered_slot.sides_unique toList_slot_ne_nil hone (by simp [hsource]) (by simp [heq])
    exact ⟨by simp [← hunique.1], by simp [← hunique.2]⟩
  · rintro ⟨rfl, rfl⟩
    exact hsource

/-- Every script has one slot. -/
theorem slotCount_scripts :
    ∀ t ∈ [scormApi, xapiWrapper, cmi5Unit, navigation], t.slotCount = 1 := by
  simp only [List.forall_mem_cons, List.not_mem_nil, false_imp_iff, implies_true, and_true]
  exact ⟨slotCount_of_hasSlot hasSlot_scormApi, slotCount_of_hasSlot hasSlot_xapiWrapper,
    slotCount_of_hasSlot hasSlot_cmi5Unit, slotCount_of_hasSlot hasSlot_navigation⟩

/-- A template with one slot is filled between the two sides of the slot, of which there are
no others, and the configuration is recovered from its place. Every other template is
refused. -/
theorem fill_of_slotCount (t : Template) :
    (t.slotCount = 1 → ∃ before after : String,
      (∀ b a : String, t.source = b ++ slot ++ a ↔ b = before ∧ a = after) ∧
      ∀ config : Json,
        t.fill config = .ok (before ++ config.pretty ++ after) ∧
        (config.Canonical → Json.parse? config.pretty = some config)) ∧
    (t.slotCount ≠ 1 → ∀ config : Json,
      t.fill config = .error (.missing ("configuration slot in " ++ t.name))) := by
  refine ⟨fun hone => ?_, fun hother config => ?_⟩
  · obtain ⟨before, after, hsides⟩ := slotCount_eq_one_iff.mp hone
    refine ⟨.ofList before, .ofList after, source_eq_iff_of_sides? hone hsides, fun config => ?_⟩
    have hfill : t.fill config = .ok (.ofList before ++ config.pretty ++ .ofList after) := by
      rw [fill, hsides]
    exact ⟨hfill, Json.parse?_pretty⟩
  · have hnone : t.sides? = none := by
      rw [Option.eq_none_iff_forall_ne_some]
      rintro ⟨before, after⟩ hsides
      exact hother (slotCount_eq_one_iff.mpr ⟨before, after, hsides⟩)
    rw [fill, hnone]

/-- A configuration with slots and an end of a script in its texts. -/
def hostileConfig : Json := .object [
  ("storageKey", .string (slot ++ "\\\"")),
  (slot, .strings ["</script><!--", "*/null;/*", ""]),
  ("offset", .number (.decimal (.zero true))),
  ("lessons", .array [])]

/-- A template with a slot too many. -/
def twice : Template := ⟨"twice.js", "var a = " ++ slot ++ ", b = " ++ slot ++ ";"⟩

theorem fill_of_slotCount_hostileConfig :
    navigation.slotCount = 1 ∧ hostileConfig.Canonical ∧
    occurrences slot.toList hostileConfig.pretty.toList = 2 ∧
    (∃ before after : String, navigation.source = before ++ slot ++ after ∧
      navigation.fill hostileConfig = .ok (before ++ hostileConfig.pretty ++ after)) ∧
    Json.parse? hostileConfig.pretty = some hostileConfig ∧
    twice.slotCount ≠ 1 ∧
    twice.fill hostileConfig = .error (.missing "configuration slot in twice.js") := by
  have hone : navigation.slotCount = 1 := slotCount_of_hasSlot hasSlot_navigation
  have hcanonical : hostileConfig.Canonical := by
    simp [hostileConfig, Json.Canonical, Json.numbers, Json.memberNumbers, Json.itemNumbers,
      Json.strings, Json.Number.Canonical, Decimal.Binary64.canonical_zero]
  have hslots : occurrences slot.toList hostileConfig.pretty.toList = 2 := by decide +kernel
  have htwo : twice.slotCount ≠ 1 := by decide
  obtain ⟨before, after, hsides, hfill⟩ := (fill_of_slotCount navigation).1 hone
  exact ⟨hone, hcanonical, hslots, ⟨before, after, (hsides before after).mpr ⟨rfl, rfl⟩,
    (hfill hostileConfig).1⟩, (hfill hostileConfig).2 hcanonical, htwo,
    (fill_of_slotCount twice).2 htwo hostileConfig⟩

end Template

end Courseware.Script
