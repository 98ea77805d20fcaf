import Courseware.Script.Config
import Mathlib.Data.List.Infix

/-!
# Every script has one slot

The slot of a script stands in its first part. An at sign marks it, and no other
part has one.
-/

namespace Courseware.Script

/-! ## Where a slot stands -/

/-- A pattern is not found in a text that lacks one of its characters. -/
theorem cut?_eq_none {pattern cs : List Char} {c : Char} (hc : c ∈ pattern)
    (hcs : c ∉ cs) : cut? pattern cs = none := by
  induction cs with
  | nil =>
    have hne : pattern ≠ [] := List.ne_nil_of_mem hc
    simp [cut?, hne]
  | cons x xs ih =>
    have hprefix : pattern.isPrefixOf (x :: xs) = false := by
      rw [Bool.eq_false_iff]
      intro h
      exact hcs ((List.isPrefixOf_iff_prefix.mp h).subset hc)
    rw [cut?, hprefix, ih fun hmem => hcs (List.mem_cons_of_mem _ hmem)]
    rfl

/-- Where a pattern is found does not depend on what comes behind. -/
theorem cut?_append {pattern cs before after : List Char}
    (h : cut? pattern cs = some (before, after)) (rest : List Char) :
    cut? pattern (cs ++ rest) = some (before, after ++ rest) := by
  -- A pattern that is found is not longer than the text, so no test looks behind the text.
  have hlength : pattern.length ≤ cs.length := by
    rw [eq_append_of_cut? h]
    simp only [List.length_append]
    omega
  induction cs generalizing before with
  | nil =>
    obtain rfl := List.eq_nil_of_length_eq_zero (Nat.le_zero.mp hlength)
    obtain ⟨rfl, rfl⟩ := Prod.mk.inj (Option.some.inj h)
    cases rest with
    | nil => rfl
    | cons c cs => simp [cut?]
  | cons c cs ih =>
    have hprefix : pattern.isPrefixOf (c :: cs ++ rest) = pattern.isPrefixOf (c :: cs) := by
      rw [Bool.eq_iff_iff, List.isPrefixOf_iff_prefix, List.isPrefixOf_iff_prefix]
      exact ⟨fun h => List.prefix_of_prefix_length_le h (List.prefix_append _ _) hlength,
        fun h => h.trans (List.prefix_append _ _)⟩
    rw [cut?] at h
    rw [List.cons_append] at hprefix ⊢
    rw [cut?, hprefix]
    split
    · rename_i hfound
      rw [if_pos hfound] at h
      obtain ⟨rfl, rfl⟩ := Prod.mk.inj (Option.some.inj h)
      rw [← List.cons_append, List.drop_append_of_le_length hlength]
    · rename_i hfound
      rw [if_neg hfound] at h
      obtain ⟨⟨x, y⟩, hcut, heq⟩ := Option.map_eq_some_iff.mp h
      obtain ⟨rfl, rfl⟩ := Prod.mk.inj heq
      have hinside : pattern.length ≤ cs.length := by
        rw [eq_append_of_cut? hcut]
        simp only [List.length_append]
        omega
      rw [ih hcut hinside]
      rfl

/-! ## Texts with a slot -/

/-- Whether a text holds no part of a slot. -/
def IsPlain (s : String) : Prop := '@' ∉ s.toList

/-- Whether a text holds a slot and nothing of another one behind it. -/
def HasSlot (s : String) : Prop :=
  ∃ before after, cut? slot.toList s.toList = some (before, after) ∧ '@' ∉ after

/-- What stands behind the first slot of a text. -/
def behindSlot? (cs : List Char) : Option (List Char) :=
  (cut? slot.toList cs).map Prod.snd

/-- A test for characters that can be run on long texts. -/
theorem not_mem_of_all {c : Char} {cs : List Char} (h : cs.all (· != c) = true) : c ∉ cs :=
  fun hmem => by simpa using List.all_eq_true.mp h c hmem

theorem isPlain_ofList {cs : List Char} (h : cs.all (· != '@') = true) :
    IsPlain (String.ofList cs) := by
  rw [IsPlain, String.toList_ofList]
  exact not_mem_of_all h

theorem hasSlot_ofList {cs : List Char}
    (h : ∃ after ∈ behindSlot? cs, after.all (· != '@') = true) :
    HasSlot (String.ofList cs) := by
  obtain ⟨after, hafter, hplain⟩ := h
  obtain ⟨⟨before, _⟩, hcut, rfl⟩ := Option.map_eq_some_iff.mp hafter
  exact ⟨before, _, by rw [String.toList_ofList, hcut], not_mem_of_all hplain⟩

theorem HasSlot.append {s t : String} (hs : HasSlot s) (ht : IsPlain t) :
    HasSlot (s ++ t) := by
  obtain ⟨before, after, hcut, hafter⟩ := hs
  refine ⟨before, after ++ t.toList, ?_, ?_⟩
  · rw [String.toList_append, cut?_append hcut]
  · rw [List.mem_append, not_or]
    exact ⟨hafter, ht⟩

/-- A template whose text has a slot can be filled. -/
theorem HasSlot.exists_sides {t : Template} (h : HasSlot t.source) :
    ∃ before after, t.sides? = some (before, after) := by
  obtain ⟨before, after, hcut, hafter⟩ := h
  have hslot : '@' ∈ slot.toList := by decide
  refine ⟨before, after, ?_⟩
  rw [Template.sides?, hcut]
  dsimp only
  rw [cut?_eq_none hslot hafter]

theorem HasSlot.exists_fill {t : Template} (h : HasSlot t.source) (config : Json) :
    ∃ script, t.fill config = .ok script := by
  obtain ⟨before, after, hsides⟩ := h.exists_sides
  exact ⟨_, by rw [Template.fill, hsides]⟩

/-- The sides of a template have the slot between them. -/
theorem source_eq_of_sides? {t : Template} {before after : List Char}
    (h : t.sides? = some (before, after)) :
    t.source = String.ofList before ++ slot ++ String.ofList after := by
  rw [Template.sides?] at h
  split at h
  · cases h
  · rename_i hcut
    split at h
    · obtain ⟨rfl, rfl⟩ := Prod.mk.inj (Option.some.inj h)
      rw [← String.toList_inj, eq_append_of_cut? hcut]
      simp
    · cases h

/-- A filled template is not longer than the template and its configuration. -/
theorem utf8ByteSize_fill_le {t : Template} {config : Json} {script : String}
    (h : t.fill config = .ok script) :
    script.utf8ByteSize ≤ t.source.utf8ByteSize + config.pretty.utf8ByteSize := by
  rw [Template.fill] at h
  split at h
  · rename_i hsides
    rw [← Except.ok.inj h, source_eq_of_sides? hsides]
    simp only [String.utf8ByteSize_append]
    omega
  · cases h

/-! ## The scripts -/

section Scripts

-- The parts are read character by character.
set_option maxRecDepth 10000

theorem isPlain_answerChecks : IsPlain answerChecks := isPlain_ofList (by rfl)

theorem isPlain_answerFeedback : IsPlain answerFeedback :=
  isPlain_ofList (by rfl)

theorem hasSlot_navigation : HasSlot navigation.source := by
  have hhead : HasSlot Navigation.head := hasSlot_ofList ⟨_, rfl, by rfl⟩
  have hprogress : IsPlain Navigation.progress := isPlain_ofList (by rfl)
  have hwiring : IsPlain Navigation.wiring := isPlain_ofList (by rfl)
  exact ((hhead.append hprogress).append isPlain_answerChecks).append hwiring

theorem hasSlot_scormApi : HasSlot scormApi.source := by
  have hhead : HasSlot ScormApi.head := hasSlot_ofList ⟨_, rfl, by rfl⟩
  have hnames : IsPlain ScormApi.names := isPlain_ofList (by rfl)
  have hdiscovery : IsPlain ScormApi.discovery := isPlain_ofList (by rfl)
  have htimes : IsPlain ScormApi.times := isPlain_ofList (by rfl)
  have hsession : IsPlain ScormApi.session := isPlain_ofList (by rfl)
  have hscores : IsPlain ScormApi.scores := isPlain_ofList (by rfl)
  have hcompletion : IsPlain ScormApi.completion := isPlain_ofList (by rfl)
  have hwiring : IsPlain ScormApi.wiring := isPlain_ofList (by rfl)
  exact ((((((((hhead.append hnames).append hdiscovery).append
    isPlain_answerChecks).append isPlain_answerFeedback).append htimes).append
    hsession).append hscores).append hcompletion).append hwiring

theorem hasSlot_cmi5Unit : HasSlot cmi5Unit.source := by
  have hhead : HasSlot Cmi5Unit.head := hasSlot_ofList ⟨_, rfl, by rfl⟩
  have hsupport : IsPlain Cmi5Unit.support := isPlain_ofList (by rfl)
  have hstart : IsPlain Cmi5Unit.start := isPlain_ofList (by rfl)
  have hlaunchData : IsPlain Cmi5Unit.launchData := isPlain_ofList (by rfl)
  have hstatements : IsPlain Cmi5Unit.statements := isPlain_ofList (by rfl)
  have hscores : IsPlain Cmi5Unit.scores := isPlain_ofList (by rfl)
  have hcompletion : IsPlain Cmi5Unit.completion := isPlain_ofList (by rfl)
  have hwiring : IsPlain Cmi5Unit.wiring := isPlain_ofList (by rfl)
  exact ((((((((hhead.append hsupport).append hstart).append hlaunchData).append
    hstatements).append hscores).append hcompletion).append isPlain_answerChecks).append
    isPlain_answerFeedback).append hwiring

theorem hasSlot_xapiWrapper : HasSlot xapiWrapper.source := by
  have hhead : HasSlot XapiWrapper.head := hasSlot_ofList ⟨_, rfl, by rfl⟩
  have hsupport : IsPlain XapiWrapper.support := isPlain_ofList (by rfl)
  have hstorage : IsPlain XapiWrapper.storage := isPlain_ofList (by rfl)
  have hlinks : IsPlain XapiWrapper.links := isPlain_ofList (by rfl)
  have hstart : IsPlain XapiWrapper.start := isPlain_ofList (by rfl)
  have hstatements : IsPlain XapiWrapper.statements := isPlain_ofList (by rfl)
  have hdelivery : IsPlain XapiWrapper.delivery := isPlain_ofList (by rfl)
  have htracking : IsPlain XapiWrapper.tracking := isPlain_ofList (by rfl)
  have hwiring : IsPlain XapiWrapper.wiring := isPlain_ofList (by rfl)
  exact (((((((((hhead.append hsupport).append hstorage).append hlinks).append
    hstart).append hstatements).append hdelivery).append htracking).append
    isPlain_answerChecks).append isPlain_answerFeedback).append hwiring

end Scripts

theorem exists_scormScript (version : ScormVersion) :
    ∃ script, scormScript version = .ok script := by
  rw [scormScript]
  exact hasSlot_scormApi.exists_fill _

theorem exists_xapiScript (s : XapiSettings) (ids : ActivityIds) (language : String) :
    ∃ script, xapiScript s ids language = .ok script := by
  rw [xapiScript]
  exact hasSlot_xapiWrapper.exists_fill _

theorem exists_cmi5Script (s : XapiSettings) (language : String) :
    ∃ script, cmi5Script s language = .ok script := by
  rw [cmi5Script]
  exact hasSlot_cmi5Unit.exists_fill _

theorem exists_navigationScript (courseId : String) (lessonIds : List String) :
    ∃ script, navigationScript courseId lessonIds = .ok script := by
  rw [navigationScript]
  exact hasSlot_navigation.exists_fill _

end Courseware.Script
