import Courseware.Proofs.Json.Numerals
import Courseware.Proofs.Json.RoundTrip
import Courseware.Proofs.Script.Slot

/-!
# The data in scripts

Scripts carry data as values of variables. A reader finds the configuration that a template
was filled with, and the values of a script that declares one variable after another.
-/

namespace Courseware.Script

open Json (Reads Ends)

/-! ## Values -/

/-- The value that a text starts with, and what stands behind it. -/
def value? (cs : List Char) : Option (Json × List Char) :=
  let (d, rest) := Json.readValue (2 * cs.length) cs
  match Json.Decoder.value Json.Decoder.nestingLimit d with
  | .ok v => some (v, rest)
  | .error _ => none

theorem value?_append {cs rest : List Char} {v : Json} (hread : Reads cs v.toDraft)
    (hdepth : v.depth ≤ Json.Decoder.nestingLimit) (hrest : Ends rest) :
    value? (cs ++ rest) = some (v.sorted, rest) := by
  have hvalue := hread.read (2 * (cs ++ rest).length) rest
    (by rw [List.length_append]; omega) hrest
  simp only [value?, hvalue, Json.value_toDraft hdepth]

theorem dropPrefix?_append (cs rest : List Char) :
    (cs ++ rest).dropPrefix? cs = some rest := by
  induction cs with
  | nil => simp
  | cons c cs ih => simp [List.dropPrefix?, ih]

/-! ## Declarations -/

/-- The values of the variables with some names, which a text declares one after another. -/
def declarations? : List String → List Char → Option (List Json)
  | [], cs => if cs.isEmpty then some [] else none
  | name :: names, cs => do
    let cs ← cs.dropPrefix? ("var " ++ name ++ " = ").toList
    let (v, cs) ← value? cs
    let cs ← cs.dropPrefix? ";\n".toList
    let vs ← declarations? names cs
    return v :: vs

theorem declarations?_flatMap_declare {ms : List (String × Json)}
    (h : ∀ m ∈ ms, m.2.Legible ∧ m.2.depth ≤ Json.Decoder.nestingLimit) :
    declarations? (ms.map Prod.fst) (ms.flatMap fun m => (declare m.1 m.2).toList) =
      some (ms.map fun m => m.2.sorted) := by
  induction ms with
  | nil => rfl
  | cons m ms ih =>
    obtain ⟨⟨hlegible, hdepth⟩, hrest⟩ := List.forall_mem_cons.mp h
    have hsplit : (declare m.1 m.2).toList = ("var " ++ m.1 ++ " = ").toList ++
        (m.2.pretty.toList ++ ";\n".toList) := by
      simp [declare]
    have hends (cs : List Char) : Ends (";\n".toList ++ cs) := Json.ends_cons (by decide) _
    simp only [List.map_cons, List.flatMap_cons, declarations?, hsplit, List.append_assoc,
      dropPrefix?_append, value?_append (Json.reads_pretty hlegible) hdepth (hends _), ih hrest,
      Option.bind_eq_bind, Option.bind_some]
    rfl

/-! ## Configurations -/

/-- What stands before the configuration of a script. -/
def configStart : String := "var CONFIG = "

/-- The configuration of a script: the value of the first variable with that name. -/
def config? (script : String) : Option Json := do
  let (_, cs) ← cut? configStart.toList script.toList
  let (v, cs) ← value? cs
  if cs.head? = some ';' then some v else none

/-- Whether one pattern is found in a text before a semicolon, and another one is found right
before it. -/
def holdsBoth (pattern start cs : List Char) : Bool :=
  match cut? pattern cs with
  | some (before, ';' :: _) =>
    match cut? start before with
    | some (_, []) => true
    | _ => false
  | _ => false

/-- Whether the slot in a text is the value of the first variable of a configuration. -/
def HasConfig (s : String) : Prop :=
  ∃ before after front, cut? slot.toList s.toList = some (before, ';' :: after) ∧
    cut? configStart.toList before = some (front, [])

theorem hasConfig_ofList {pattern start cs : List Char} (hpattern : slot = String.ofList pattern)
    (hstart : configStart = String.ofList start) (h : holdsBoth pattern start cs = true) :
    HasConfig (String.ofList cs) := by
  rw [HasConfig, hpattern, hstart, String.toList_ofList, String.toList_ofList,
    String.toList_ofList]
  rw [holdsBoth] at h
  split at h
  · rename_i before after hcut
    split at h
    · rename_i front hfront
      exact ⟨before, after, front, hcut, hfront⟩
    · cases h
  · cases h

theorem HasConfig.append {s : String} (h : HasConfig s) (t : String) : HasConfig (s ++ t) := by
  obtain ⟨before, after, front, hcut, hfront⟩ := h
  refine ⟨before, after ++ t.toList, front, ?_, hfront⟩
  rw [String.toList_append, cut?_append hcut, List.cons_append]

/-- A filled template is read back as its configuration. -/
theorem HasConfig.config?_eq {t : Template} (h : HasConfig t.source) {config : Json}
    (hlegible : config.Legible) (hdepth : config.depth ≤ Json.Decoder.nestingLimit)
    {script : String} (hfill : t.fill config = .ok script) :
    config? script = some config.sorted := by
  obtain ⟨before, after, front, hcut, hfront⟩ := h
  have hscript : script.toList = before ++ (config.pretty.toList ++ ';' :: after) := by
    rw [Template.fill, Template.sides?, hcut] at hfill
    dsimp only at hfill
    split at hfill
    · rename_i sides hsides
      split at hsides
      · obtain ⟨rfl, rfl⟩ := Prod.mk.inj (Option.some.inj hsides)
        rw [← Except.ok.inj hfill]
        simp
      · cases hsides
    · cases hfill
  have hvalue := value?_append (Json.reads_pretty hlegible) hdepth
    (Json.ends_cons (c := ';') (by decide) after)
  rw [config?, hscript, cut?_append hfront, List.nil_append]
  simp only [Option.bind_eq_bind, Option.bind_some, hvalue]
  rfl

theorem sorted_strings (texts : List String) : (Json.strings texts).sorted = .strings texts := by
  rw [Json.strings, Json.sorted, Json.sortedItems_eq, List.map_map]
  rfl

theorem legible_strings (texts : List String) : (Json.strings texts).Legible := by
  simp [Json.strings, Json.legible_array]

theorem depth_strings (texts : List String) : (Json.strings texts).depth ≤ 1 :=
  Json.depth_array_le fun s _ => by simp [Json.depth]

theorem Vocabulary.legible_json (v : Vocabulary) : v.json.Legible := by
  refine Json.legible_object.mpr (List.forall_mem_map.mpr fun e _ => ?_)
  exact Json.legible_string e.2

theorem Vocabulary.depth_json (v : Vocabulary) : v.json.depth ≤ 1 := by
  refine Json.depth_object_le (List.forall_mem_map.mpr fun e _ => ?_)
  simp [Json.depth]

section Scripts

-- The start of a template is read character by character.
set_option maxRecDepth 10000

theorem hasConfig_navigation : HasConfig navigation.source := by
  have hhead : HasConfig Navigation.head := hasConfig_ofList rfl rfl (by rfl)
  exact ((hhead.append _).append _).append _

theorem hasConfig_xapiWrapper : HasConfig xapiWrapper.source := by
  have hhead : HasConfig XapiWrapper.head := hasConfig_ofList rfl rfl (by rfl)
  exact (((((((((hhead.append _).append _).append _).append _).append _).append _).append
    _).append _).append _).append _

end Scripts

/-- The script that keeps progress knows the lessons. -/
theorem lessons_navigationScript {courseId : String} {lessonIds : List String} {script : String}
    (h : navigationScript courseId lessonIds = .ok script) :
    (config? script).map (·.get "lessons") = some (.strings lessonIds) := by
  have hlegible := legible_strings lessonIds
  have hdepth := depth_strings lessonIds
  rw [hasConfig_navigation.config?_eq (by simp [Json.legible_object, hlegible])
    (Nat.le_trans (Json.depth_object_le (n := 1) (by simp [Json.depth, hdepth])) (by decide)) h,
    Option.map_some, Json.get_sorted_object (by simp)]
  exact congrArg some (sorted_strings lessonIds)

/-- The script that sends statements knows the course. -/
theorem course_xapiScript {s : XapiSettings} {ids : ActivityIds} {language script : String}
    (h : xapiScript s ids language = .ok script) :
    (config? script).map (·.get "courseActivityId") = some (.string ids.course) := by
  have hendpoint : (Json.stringOrNull s.endpoint).Legible ∧
      (Json.stringOrNull s.endpoint).depth ≤ 1 := by
    cases s.endpoint <;> exact ⟨trivial, Nat.zero_le 1⟩
  have hverbs := Vocabulary.depth_json xapiVerbs
  have htypes := Vocabulary.depth_json activityTypes
  rw [hasConfig_xapiWrapper.config?_eq
    (by simp [Json.legible_object, hendpoint.1, Vocabulary.legible_json])
    (Nat.le_trans (Json.depth_object_le (n := 1)
      (by simp [Json.depth, hendpoint.2, hverbs, htypes])) (by decide)) h,
    Option.map_some, Json.get_sorted_object (by simp)]
  rfl

/-! ## Statement templates -/

/-- The first line of the statement templates. -/
def templatesBanner : String := "/* coursepack xAPI statement templates. Generated file. */\n"

/-- What a script of statement templates declares about the course and the lessons. -/
def templates? (script : String) : Option (Json × Json) := do
  let cs ← script.toList.dropPrefix? templatesBanner.toList
  match ← declarations? ["XAPI_VERBS", "ACTIVITY_TYPES", "COURSE_ACTIVITY", "LESSON_ACTIVITIES"]
    cs with
  | [_, _, course, lessons] => some (course, lessons)
  | _ => none

/-- What is told of a lesson in a value. -/
def lessonActivity? (v : Json) : Option LessonActivity := do
  let id ← (v.get "id").string?
  let lessonId ← (v.get "lessonId").string?
  let moduleId ← (v.get "moduleId").string?
  let name ← (v.get "name").string?
  let href ← (v.get "href").string?
  return ⟨id, lessonId, moduleId, name, href⟩

variable (ids : ActivityIds) (title : String) (lessons : List LessonActivity)

def courseJson : Json :=
  .object [("id", .string ids.course), ("name", .string title),
    ("type", .string ActivityType.course.iri)]

/-- The variables that the statement templates declare. -/
def templateValues : List (String × Json) :=
  [("XAPI_VERBS", xapiVerbs.json), ("ACTIVITY_TYPES", activityTypes.json),
    ("COURSE_ACTIVITY", courseJson ids title),
    ("LESSON_ACTIVITIES", .array (lessons.map LessonActivity.json))]

theorem toList_statementTemplates :
    (statementTemplates ids title lessons).toList = templatesBanner.toList ++
      (templateValues ids title lessons).flatMap fun m => (declare m.1 m.2).toList := by
  unfold statementTemplates templateValues
  simp only [String.toList_append, List.flatMap_cons, List.flatMap_nil, List.append_nil,
    List.append_assoc]
  rfl

theorem legible_templateValues : ∀ m ∈ templateValues ids title lessons,
    m.2.Legible ∧ m.2.depth ≤ Json.Decoder.nestingLimit := by
  have hlesson (a : LessonActivity) : a.json.Legible ∧ a.json.depth ≤ 1 :=
    ⟨by simp [LessonActivity.json, Json.legible_object],
      Json.depth_object_le (by simp [Json.depth])⟩
  have hlessons : (Json.array (lessons.map LessonActivity.json)).Legible ∧
      (Json.array (lessons.map LessonActivity.json)).depth ≤ 2 :=
    ⟨Json.legible_array.mpr (List.forall_mem_map.mpr fun a _ => (hlesson a).1),
      Json.depth_array_le fun a _ => (hlesson a).2⟩
  have hcourse : (courseJson ids title).Legible ∧ (courseJson ids title).depth ≤ 1 :=
    ⟨by simp [courseJson, Json.legible_object], Json.depth_object_le (by simp [Json.depth])⟩
  have hvocabulary (v : Vocabulary) : v.json.Legible ∧ v.json.depth ≤ Json.Decoder.nestingLimit :=
    ⟨v.legible_json, v.depth_json.trans (by decide)⟩
  simp only [templateValues, List.forall_mem_cons, List.not_mem_nil, false_imp_iff,
    implies_true, and_true]
  exact ⟨hvocabulary _, hvocabulary _, ⟨hcourse.1, hcourse.2.trans (by decide)⟩,
    hlessons.1, hlessons.2.trans (by decide)⟩

theorem templates?_statementTemplates :
    templates? (statementTemplates ids title lessons) =
      some ((courseJson ids title).sorted,
        (Json.array (lessons.map LessonActivity.json)).sorted) := by
  have hread := declarations?_flatMap_declare (legible_templateValues ids title lessons)
  have hnames : (templateValues ids title lessons).map Prod.fst =
      ["XAPI_VERBS", "ACTIVITY_TYPES", "COURSE_ACTIVITY", "LESSON_ACTIVITIES"] := rfl
  rw [hnames] at hread
  rw [templates?, toList_statementTemplates, dropPrefix?_append, Option.bind_eq_bind,
    Option.bind_some, hread]
  rfl

theorem lessonActivity?_json (a : LessonActivity) : lessonActivity? a.json.sorted = some a := by
  have hget (name : String) : a.json.sorted.get name = (a.json.get name).sorted :=
    Json.get_sorted_object (by simp) name
  simp only [lessonActivity?, hget]
  rfl

/-! ## Launch records -/

/-- What stands before a launch record. -/
def launchStart : String := "\n" ++ "window.COURSEPACK_LAUNCH = "

/-- The launch record in the code of a page. -/
def launchRecord? (code : String) : Option Json := do
  let cs ← code.toList.dropPrefix? launchStart.toList
  let (v, cs) ← value? cs
  if cs = [';', '\n'] then some v else none

theorem launchRecord?_launchCode {record : Json} (hlegible : record.Legible)
    (hdepth : record.depth ≤ Json.Decoder.nestingLimit) :
    launchRecord? ("\n" ++ launchCode record ++ "\n") = some record.sorted := by
  have hsplit : ("\n" ++ launchCode record ++ "\n").toList =
      launchStart.toList ++ ((inlined record).toList ++ [';', '\n']) := by
    have hend : ";".toList ++ "\n".toList = [';', '\n'] := by decide
    unfold launchCode launchStart
    simp only [String.toList_append, List.append_assoc, hend]
  have hvalue := value?_append (Json.reads_inlined hlegible) hdepth
    (Json.ends_cons (c := ';') (by decide) ['\n'])
  rw [launchRecord?, hsplit, dropPrefix?_append]
  simp only [Option.bind_eq_bind, Option.bind_some, hvalue, if_true]

section Records

variable (activityId lessonId title content : String)

theorem legible_cmi5Launch {mastery : Option Decimal.Binary64}
    (h : ∀ x ∈ mastery, (Json.Number.decimal x).Legible) :
    (cmi5Launch activityId lessonId mastery).Legible := by
  rw [cmi5Launch, Json.legible_object, List.forall_mem_append]
  refine ⟨by simp, ?_⟩
  cases mastery with
  | none => exact fun _ hm => absurd hm List.not_mem_nil
  | some x => exact List.forall_mem_singleton.mpr (h x rfl)

theorem depth_cmi5Launch (mastery : Option Decimal.Binary64) :
    (cmi5Launch activityId lessonId mastery).depth ≤ 1 := by
  refine Json.depth_object_le ?_
  cases mastery <;> simp [optional, Json.depth]

/-- The record of a unit is read back. -/
theorem launchRecord?_cmi5Launch {mastery : Option Decimal.Binary64}
    (h : ∀ x ∈ mastery, (Json.Number.decimal x).Legible) :
    launchRecord? ("\n" ++ launchCode (cmi5Launch activityId lessonId mastery) ++ "\n") =
      some (cmi5Launch activityId lessonId mastery).sorted :=
  launchRecord?_launchCode (legible_cmi5Launch activityId lessonId h)
    ((depth_cmi5Launch activityId lessonId mastery).trans (by decide))

/-- The members of a unit's record are found by their names. -/
theorem member?_cmi5Launch (mastery : Option Decimal.Binary64) (name : String) :
    (cmi5Launch activityId lessonId mastery).sorted.member? name =
      ((cmi5Launch activityId lessonId mastery).member? name).map Json.sorted := by
  refine Json.member?_sorted_object ?_ name
  cases mastery <;> simp [optional]

theorem legible_scormLaunch {s : ScormSettings}
    (h : ∀ m ∈ s.timeLimit, m * 60 < Json.wholeLimit) :
    (scormLaunch lessonId title content s).Legible := by
  have hscore : (Json.nat s.masteryPercent).Legible :=
    Json.legible_nat ((Nat.min_le_right _ _).trans_lt (by decide))
  rw [scormLaunch, Json.legible_object, List.forall_mem_append, List.forall_mem_append]
  refine ⟨⟨by simp [hscore], ?_⟩, by simp⟩
  cases htime : s.timeLimit with
  | none => exact fun _ hm => absurd hm List.not_mem_nil
  | some m => exact List.forall_mem_singleton.mpr (Json.legible_nat (h m htime))

theorem depth_scormLaunch (s : ScormSettings) :
    (scormLaunch lessonId title content s).depth ≤ 1 := by
  refine Json.depth_object_le ?_
  cases s.timeLimit <;> simp [optional, Json.nat, Json.depth]

/-- The record of a launcher is read back. -/
theorem launchRecord?_scormLaunch {s : ScormSettings}
    (h : ∀ m ∈ s.timeLimit, m * 60 < Json.wholeLimit) :
    launchRecord? ("\n" ++ launchCode (scormLaunch lessonId title content s) ++ "\n") =
      some (scormLaunch lessonId title content s).sorted :=
  launchRecord?_launchCode (legible_scormLaunch lessonId title content h)
    ((depth_scormLaunch lessonId title content s).trans (by decide))

/-- The members of a launcher's record are found by their names. -/
theorem member?_scormLaunch (s : ScormSettings) (name : String) :
    (scormLaunch lessonId title content s).sorted.member? name =
      ((scormLaunch lessonId title content s).member? name).map Json.sorted := by
  refine Json.member?_sorted_object ?_ name
  cases s.timeLimit <;> simp [optional]

end Records

end Courseware.Script
