import Courseware.Descriptor.Outline
import Courseware.Failure

/-!
The plan of a package: the modules and lessons of a course in the order in which they are shown, each
lesson with its place, its path segment, its blocks in order and the resources that can be linked. A
course has a plan only if its modules and its lessons have different identifiers, also after these are
reduced to path segments; what is left out of a package is worth a warning.
-/

namespace Courseware

structure PlannedLesson where
  /-- The place among all lessons. -/
  index : Nat
  container : Module
  lesson : Lesson
  /-- The lesson's identifier as a part of paths. -/
  segment : String
  /-- The blocks in the order in which they are shown. -/
  blocks : List Block
  /-- The resources that say where they are. -/
  resources : List Resource
  deriving Repr

structure PlannedModule where
  source : Module
  /-- The place of its first lesson among all lessons. -/
  start : Nat
  lessons : List PlannedLesson
  deriving Repr

/-- A course with its modules and lessons in order. -/
structure Plan where
  course : Course
  modules : List PlannedModule
  deriving Repr

/-! ## Unique identifiers -/

/-- Whether an identifier is new among others, also as a path segment. The kinds and the noun say how a
clash is reported. -/
def checkUnique (kind pathKind : UniqueId) (noun : String) (seen : List String) (id : String) :
    Except Failure Unit :=
  if seen.contains id then .error (.duplicate kind id)
  else
    let segment := Text.pathSegment id
    match seen.find? fun other => Text.pathSegment other == segment with
    | some other =>
      .error (.duplicate pathKind
        (segment ++ " (" ++ noun ++ " \"" ++ other ++ "\" and \"" ++ id ++ "\")"))
    | none => .ok ()

/-- Checks lessons after those that have been seen, and returns all that have been seen then. -/
def checkLessons (seen : List String) : List Lesson → Except Failure (List String)
  | [] => .ok seen
  | l :: ls => do
    checkUnique .lessonId .lessonPath "lessons" seen l.id
    checkLessons (l.id :: seen) ls

/-- Checks modules and their lessons after those that have been seen. -/
def checkModules (seenModules seenLessons : List String) : List Module → Except Failure Unit
  | [] => .ok ()
  | m :: ms => do
    checkUnique .moduleId .modulePath "modules" seenModules m.id
    let seenLessons ← checkLessons seenLessons m.orderedLessons
    checkModules (m.id :: seenModules) seenLessons ms

/-! ## Plans -/

def PlannedLesson.ofLesson (m : Module) (index : Nat) (l : Lesson) : PlannedLesson where
  index
  container := m
  lesson := l
  segment := Text.pathSegment l.id
  blocks := l.orderedBlocks
  resources := l.resources.filter Resource.isPresent

/-- A module whose first lesson has the given place. -/
def PlannedModule.ofModule (start : Nat) (m : Module) : PlannedModule where
  source := m
  start
  lessons := m.orderedLessons.mapIdx fun i l => .ofLesson m (start + i) l

/-- The place after that of the last lesson. -/
def PlannedModule.stop (m : PlannedModule) : Nat := m.start + m.lessons.length

/-- Modules in order, the first lesson of all at the given place. -/
def planModules (start : Nat) : List Module → List PlannedModule
  | [] => []
  | m :: ms =>
    let planned := PlannedModule.ofModule start m
    planned :: planModules planned.stop ms

namespace Plan

/-- The plan of a course. -/
def ofCourse (c : Course) : Except Failure Plan := do
  checkModules [] [] c.orderedModules
  return ⟨c, planModules 0 c.orderedModules⟩

def lessons (p : Plan) : List PlannedLesson :=
  p.modules.flatMap (·.lessons)

def previous? (p : Plan) (l : PlannedLesson) : Option PlannedLesson :=
  if l.index = 0 then none else p.lessons[l.index - 1]?

def next? (p : Plan) (l : PlannedLesson) : Option PlannedLesson :=
  p.lessons[l.index + 1]?

def lessonIds (p : Plan) : List String :=
  p.lessons.map (·.lesson.id)

def filledModules (p : Plan) : List PlannedModule :=
  p.modules.filter fun m => !m.lessons.isEmpty

end Plan

/-- A lesson in the outline of a plan, with the paths of its launch page and its other files. -/
def PlannedLesson.outline (launch : PlannedLesson → String) (files : PlannedLesson → List String)
    (l : PlannedLesson) : Descriptor.OutlineLesson where
  id := l.lesson.id
  title := l.lesson.title
  description := l.lesson.description
  launch := launch l
  files := files l
  resources := l.resources
  durationMinutes := l.lesson.duration

/-- The outline of a plan, with the paths of each lesson's launch page and other files. -/
def Plan.outline (p : Plan) (launch : PlannedLesson → String)
    (files : PlannedLesson → List String) : Descriptor.Outline :=
  p.modules.map fun m =>
    { id := m.source.id
      title := m.source.title
      description := m.source.description
      lessons := m.lessons.map (PlannedLesson.outline launch files) }

/-! ## Warnings -/

/-- What a package leaves out. Modules and lessons are named by their titles. -/
inductive Warning
  | emptyModule (title : String)
  | emptyLesson (title : String)
  | unknownBlock (lesson tag : String)
  | absentResource (lesson resource : String)
  deriving DecidableEq, Repr

def Warning.message : Warning → String
  | emptyModule title => "Module \"" ++ title ++ "\" has no lessons and was skipped"
  | emptyLesson title => "Lesson \"" ++ title ++ "\" has no content blocks"
  | unknownBlock lesson tag =>
    "Lesson \"" ++ lesson ++ "\": unsupported block type \"" ++ tag ++
      "\" rendered as a placeholder"
  | absentResource lesson resource =>
    "Lesson \"" ++ lesson ++ "\": resource \"" ++ resource ++
      "\" has no file name or URL and was skipped"

/-- The warnings on a lesson: no blocks, each unknown tag once, each resource that is left out. -/
def PlannedLesson.warnings (l : PlannedLesson) : List Warning :=
  (if l.blocks.isEmpty then [.emptyLesson l.lesson.title] else []) ++
    ((l.blocks.filterMap fun b => b.content.unknownTag?).eraseDups.map
      (.unknownBlock l.lesson.title)) ++
    ((l.lesson.resources.filter fun r => !r.isPresent).map fun r =>
      .absentResource l.lesson.title r.id)

def PlannedModule.warnings (m : PlannedModule) : List Warning :=
  (if m.source.lessons.isEmpty then [.emptyModule m.source.title] else []) ++
    m.lessons.flatMap PlannedLesson.warnings

def Plan.warnings (p : Plan) : List Warning :=
  p.modules.flatMap PlannedModule.warnings

end Courseware
