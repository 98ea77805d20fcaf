import Courseware.Proofs.Descriptor.ScormLimits
import Courseware.Proofs.Package.Statements

/-!
# What a lesson asks of its learners

A package says twice which score a lesson is passed with and how long it may take: its
descriptor tells the host, and the page of the lesson tells its own script. They say the
same.
-/

namespace Courseware.Package

open Markup (Node root?)

variable {p : Plan} {ctx : ExportContext} {files : FileTree} {l : PlannedLesson}

/-! ## SCORM -/

namespace Scorm

/-- Whether the element of a lesson and the record in the launcher that the element leads to
tell the same score, in percent, and the same time limit, in seconds. -/
structure LimitsAgree (files : FileTree) (version : ScormVersion) (s : ScormSettings)
    (root : Node) (l : PlannedLesson) (n : Node) : Prop where
  page : Descriptor.Scorm.page? root n = some (launcherPath l)
  passingScore : Descriptor.Scorm.passingScore? version n = some (some (s.masteryPercent : ℚ))
  timeLimit : Descriptor.Scorm.timeLimit? version n = some (s.timeLimit.map (· * 60))
  record : ∃ record, recordAt? files (launcherPath l) = some record ∧
    record.member? "passingScore" = some (.nat s.masteryPercent) ∧
    record.member? "timeLimitSeconds" = s.timeLimit.map fun m => .nat (m * 60)

/-- The record of a lesson is read from its launcher. -/
theorem recordAt?_launcher {version : ScormVersion}
    (hfiles : (Exporter.ofFormat (.scorm version)).planFiles p ctx = .ok files)
    (hl : l ∈ p.lessons)
    (htime : ∀ m ∈ ctx.settings.scorm.timeLimit, m * 60 < Json.wholeLimit) :
    recordAt? files (launcherPath l) = some (launchRecord ctx l).sorted := by
  have hpage : pageAt? files (launcherPath l) = some (launcherParts ctx l) :=
    pageAt?_eq (.scorm version) hfiles (List.mem_flatMap.mpr ⟨l, hl, List.mem_cons_self⟩)
  exact recordAt?_eq hpage rfl (Script.launchRecord?_scormLaunch _ _ _ htime)

/-- The record of a lesson tells the limits in the settings. -/
theorem limits_launchRecord :
    (launchRecord ctx l).sorted.member? "passingScore" =
        some (.nat ctx.settings.scorm.masteryPercent) ∧
      (launchRecord ctx l).sorted.member? "timeLimitSeconds" =
        ctx.settings.scorm.timeLimit.map fun m => .nat (m * 60) := by
  have hmember := Script.member?_scormLaunch l.lesson.id l.lesson.title "content.html"
    ctx.settings.scorm
  refine ⟨hmember _, (hmember _).trans ?_⟩
  rw [Script.scormLaunch]
  cases ctx.settings.scorm.timeLimit <;> rfl

/-- The elements of the lessons agree with the launchers of the lessons. -/
theorem exists_limitsAgree (version : ScormVersion) (hp : Plan.ofCourse ctx.course = .ok p)
    (hfiles : (Exporter.ofFormat (.scorm version)).planFiles p ctx = .ok files)
    (htime : ∀ m ∈ ctx.settings.scorm.timeLimit, m * 60 < Json.wholeLimit) :
    ∃ text root, textAt? files manifestPath = some text ∧ root? .xml text = some root ∧
      List.Forall₂ (LimitsAgree files version ctx.settings.scorm root) p.lessons
        (Descriptor.Scorm.lessonNodes root) := by
  obtain ⟨script, hholds⟩ := exists_holds hfiles
  obtain ⟨root, hroot, htells⟩ := @Descriptor.Scorm.exists_lessonNodes version ctx.metadata _
    { masteryScore := some ctx.settings.scorm.masteryPercent
      timeLimitMinutes := ctx.settings.scorm.timeLimit
      sharedFiles := [scriptPath, stylesPath] } (nodup_lessonSegments hp)
  refine ⟨_, root, textAt?_eq (hholds.get?_eq List.mem_cons_self), hroot, ?_⟩
  rw [p.lessons_outline, List.forall₂_map_left_iff] at htells
  refine Descriptor.forall₂_imp_of_mem htells fun l hl n hn => ?_
  -- The settings cut the score off at the full one, and so does the descriptor.
  have hfull : min ctx.settings.scorm.masteryPercent 100 = ctx.settings.scorm.masteryPercent :=
    Nat.min_eq_left (Nat.min_le_right _ _)
  have hscore := hn.passingScore
  rw [Option.map_some, hfull] at hscore
  exact ⟨hn.page, hscore, hn.timeLimit, _, recordAt?_launcher hfiles hl htime,
    limits_launchRecord⟩

end Scorm

/-! ## cmi5 -/

namespace Cmi5

/-- Whether the element of a unit and the record in the unit's page tell the same score, as a
part of one, and both tell one only when there is one to reach. -/
structure ScoresAgree (s : ScormSettings) (n : Node) (record : Json) : Prop where
  element_eq_none_iff : n.attribute? "masteryScore" = none ↔ s.passingScore = 0
  record_eq_none_iff : record.member? "masteryScore" = none ↔ s.passingScore = 0
  moveOn_iff :
    n.attribute? "moveOn" = some "CompletedOrPassed" ↔ n.attribute? "masteryScore" ≠ none
  score : ∀ text, n.attribute? "masteryScore" = some text →
    Decimal.value? text = some (s.masteryPercent / 100 : ℚ) ∧
      ∃ x, record.member? "masteryScore" = some (.number (.decimal x)) ∧
        Decimal.value? (Decimal.dataText x) = some (s.masteryPercent / 100 : ℚ) ∧
        Decimal.Binary64.nearest? (s.masteryPercent / 100 : ℚ) = some x

/-- Whether the element of a unit leads to the page of a lesson, and the record in the page
agrees with the element. -/
structure MasteryAgrees (files : FileTree) (s : ScormSettings) (l : PlannedLesson) (n : Node) :
    Prop where
  page : (Descriptor.Cmi5.unit? n).bind (·.launch) = some (unitPath l)
  record : ∃ record, recordAt? files (unitPath l) = some record ∧ ScoresAgree s n record

theorem masteryScore_launchRecord :
    (launchRecord ctx l).sorted.member? "masteryScore" =
      (mastery ctx.settings).map fun x => .number (.decimal x) := by
  refine (Script.member?_cmi5Launch _ l.lesson.id _ _).trans ?_
  rw [Script.cmi5Launch]
  cases mastery ctx.settings <;> rfl

/-- A score is told in the element, in the record, and by what has to happen before the learner
may move on. -/
theorem scoresAgree {u : Descriptor.Cmi5.AssignableUnit} {n : Node} {record : Json} {s : Settings}
    (hn : Descriptor.Cmi5.IsUnit u n) (hscore : u.masteryScore = mastery s)
    (hmoveOn : u.moveOn = Descriptor.Cmi5.moveOnFor (mastery s))
    (hrecord : record.member? "masteryScore" =
      (mastery s).map fun x => .number (.decimal x)) : ScoresAgree s.scorm n record := by
  have helement := hn.masteryScore
  have hafter := hn.moveOn
  rw [hscore] at helement
  rw [hmoveOn] at hafter
  have hpercent : s.scorm.masteryPercent ≤ 100 := Nat.min_le_right _ _
  by_cases hpositive : 0 < s.scorm.passingScore
  · have hmastery : mastery s = some (.ofPercent s.scorm.masteryPercent) := if_pos hpositive
    rw [hmastery] at helement hafter hrecord
    refine ⟨by simp [helement, hpositive.ne'], by simp [hrecord, hpositive.ne'],
      by simp [helement, hafter, Descriptor.Cmi5.moveOnFor], fun text htext => ?_⟩
    obtain rfl := Option.some.inj (helement.symm.trans htext)
    exact ⟨Decimal.value?_plainText hpercent, _, hrecord, Decimal.value?_dataText hpercent,
      Decimal.nearest?_percent hpercent⟩
  · have hmastery : mastery s = none := if_neg hpositive
    have hzero : s.scorm.passingScore = 0 := Nat.eq_zero_of_not_pos hpositive
    rw [hmastery] at helement hafter hrecord
    exact ⟨by simp [helement, hzero], by simp [hrecord, hzero],
      by simp [helement, hafter, Descriptor.Cmi5.moveOnFor], by simp [helement]⟩

/-- The elements of the units agree with the pages of the units. -/
theorem exists_masteryAgrees (hfiles : (Exporter.ofFormat .cmi5).planFiles p ctx = .ok files) :
    ∃ text root, textAt? files structurePath = some text ∧ root? .xml text = some root ∧
      List.Forall₂ (MasteryAgrees files ctx.settings.scorm) p.lessons
        (Descriptor.Cmi5.unitNodes root) := by
  obtain ⟨script, hholds⟩ := exists_holds hfiles
  obtain ⟨root, hroot, hunits⟩ := Descriptor.Cmi5.exists_unitNodes
    (s := courseStructure p ctx) fun _ => isPlainValue_moveOn
  refine ⟨_, root, textAt?_eq (hholds.get?_eq List.mem_cons_self), hroot, ?_⟩
  have hlessons : (courseStructure p ctx).blocks.flatMap (·.units) =
      p.lessons.map fun l => .ofLesson ctx.activityIds (mastery ctx.settings)
        (PlannedLesson.outline unitPath (fun _ => []) l) := by
    rw [courseStructure, Descriptor.Cmi5.CourseStructure.ofOutline, List.flatMap_map]
    simp only [Descriptor.Cmi5.UnitBlock.ofModule]
    rw [← List.map_flatMap, p.lessons_outline, List.map_map]
    rfl
  rw [hlessons, List.forall₂_map_left_iff] at hunits
  refine Descriptor.forall₂_imp_of_mem hunits fun l hl n hn => ?_
  refine ⟨?_, _, recordAt?_unit hfiles hl, scoresAgree hn rfl rfl masteryScore_launchRecord⟩
  rw [hn.listed]
  rfl

end Cmi5

/-! ## Packages -/

/-- In the packages of an accepted course, the descriptor and the pages of the lessons tell the
same limits. In a SCORM package these are a score, which is at most the full one, and a time
limit if there is one. In a cmi5 package it is a score unless every score passes. -/
theorem limits_buildFiles (hp : Plan.ofCourse ctx.course = .ok p)
    (htime : ∀ m ∈ ctx.settings.scorm.timeLimit, m < 2 ^ 32) :
    (∀ version, ∃ files text root,
      (Exporter.ofFormat (.scorm version)).buildFiles ctx = .ok files ∧
      textAt? files Scorm.manifestPath = some text ∧ root? .xml text = some root ∧
      List.Forall₂ (Scorm.LimitsAgree files version ctx.settings.scorm root) p.lessons
        (Descriptor.Scorm.lessonNodes root)) ∧
    ∃ files text root, (Exporter.ofFormat .cmi5).buildFiles ctx = .ok files ∧
      textAt? files Cmi5.structurePath = some text ∧ root? .xml text = some root ∧
      List.Forall₂ (Cmi5.MasteryAgrees files ctx.settings.scorm) p.lessons
        (Descriptor.Cmi5.unitNodes root) := by
  have hseconds : ∀ m ∈ ctx.settings.scorm.timeLimit, m * 60 < Json.wholeLimit := by
    intro m hm
    have hm' := htime m hm
    rw [Json.wholeLimit]
    omega
  refine ⟨fun version => ?_, ?_⟩
  · obtain ⟨files, hfiles⟩ := Exporter.exists_planFiles (.scorm version) hp
    obtain ⟨text, root, htext, hroot, hagree⟩ :=
      Scorm.exists_limitsAgree version hp hfiles hseconds
    exact ⟨files, text, root, by rw [Exporter.buildFiles_eq hp, hfiles], htext, hroot, hagree⟩
  · obtain ⟨files, hfiles⟩ := Exporter.exists_planFiles .cmi5 hp
    obtain ⟨text, root, htext, hroot, hagree⟩ := Cmi5.exists_masteryAgrees hfiles
    exact ⟨files, text, root, by rw [Exporter.buildFiles_eq hp, hfiles], htext, hroot, hagree⟩

/-- An export that asks for more than the full score, within the longest time limit. -/
def strictContext : ExportContext :=
  { dottedContext with
    settings := { scorm := { passingScore := 140, timeLimit := some 4294967295 } } }

theorem limits_buildFiles_strict :
    (∃ files text root, (Exporter.ofFormat (.scorm .v2004)).buildFiles strictContext = .ok files ∧
      textAt? files "imsmanifest.xml" = some text ∧ root? .xml text = some root ∧
      (Descriptor.Scorm.lessonNodes root).map (Descriptor.Scorm.passingScore? .v2004) =
        [some (some 100), some (some 100), some (some 100)] ∧
      (Descriptor.Scorm.lessonNodes root).map (Descriptor.Scorm.timeLimit? .v2004) =
        [some (some 257698037700), some (some 257698037700), some (some 257698037700)] ∧
      ∃ record, recordAt? files "content/end/index.html" = some record ∧
        record.member? "passingScore" = some (.nat 100) ∧
        record.member? "timeLimitSeconds" = some (.nat 257698037700)) ∧
    ∃ files text root, (Exporter.ofFormat .cmi5).buildFiles strictContext = .ok files ∧
      textAt? files "cmi5.xml" = some text ∧ root? .xml text = some root ∧
      (Descriptor.Cmi5.unitNodes root).map (·.attribute? "moveOn") =
        [some "CompletedOrPassed", some "CompletedOrPassed", some "CompletedOrPassed"] := by
  have hplan : Plan.ofCourse strictContext.course = .ok dottedPlan := ofCourse_dottedCourse
  have htime : ∀ m ∈ strictContext.settings.scorm.timeLimit, m < 2 ^ 32 := by
    rintro m ⟨⟩
    decide
  have hlessons : dottedPlan.lessons = dottedEntries ++ [lastEntry] := rfl
  obtain ⟨hscorm, files, text, root, hfiles, htext, hroot, hunits⟩ :=
    limits_buildFiles hplan htime
  refine ⟨?_, files, text, root, hfiles, htext, hroot, ?_⟩
  · obtain ⟨files, text, root, hfiles, htext, hroot, hnodes⟩ := hscorm .v2004
    refine ⟨files, text, root, hfiles, htext, hroot, ?_⟩
    rw [hlessons, dottedEntries] at hnodes
    generalize Descriptor.Scorm.lessonNodes root = nodes at hnodes
    obtain _ | ⟨ha, _ | ⟨hb, _ | ⟨hc, ⟨⟩⟩⟩⟩ := hnodes
    obtain ⟨record, hrecord, hscore, hseconds⟩ := hc.record
    have hpercent : strictContext.settings.scorm.masteryPercent = 100 := by decide
    have hlimit : strictContext.settings.scorm.timeLimit.map (· * 60) = some 257698037700 := by
      decide
    have hpath : Scorm.launcherPath lastEntry = "content/end/index.html" := by decide
    rw [hpercent] at hscore
    rw [hpath] at hrecord
    refine ⟨?_, ?_, record, hrecord, hscore, hseconds⟩
    · simp [ha.passingScore, hb.passingScore, hc.passingScore, hpercent]
    · simp [ha.timeLimit, hb.timeLimit, hc.timeLimit, hlimit]
  · rw [hlessons, dottedEntries] at hunits
    generalize Descriptor.Cmi5.unitNodes root = nodes at hunits
    obtain _ | ⟨ha, _ | ⟨hb, _ | ⟨hc, ⟨⟩⟩⟩⟩ := hunits
    have hmoveOn {l : PlannedLesson} {n : Node}
        (h : Cmi5.MasteryAgrees files strictContext.settings.scorm l n) :
        n.attribute? "moveOn" = some "CompletedOrPassed" := by
      obtain ⟨record, -, hscores⟩ := h.record
      exact hscores.moveOn_iff.mpr (hscores.element_eq_none_iff.not.mpr (by decide))
    simp [hmoveOn ha, hmoveOn hb, hmoveOn hc]

end Courseware.Package
