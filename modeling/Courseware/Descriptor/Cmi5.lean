import Courseware.Decimal.Shortest
import Courseware.Descriptor.Outline
import Courseware.Markup.Xml

/-!
The cmi5 descriptor `cmi5.xml`: modules are blocks, lessons are assignable units, each launched from a
page of its own.
-/

namespace Courseware.Descriptor.Cmi5

open Markup Markup.Xml

/-- A lesson as it is assigned to learners. -/
structure AssignableUnit where
  id : String
  title : String
  description : String
  url : String
  /-- The score to pass with, between zero and one. -/
  masteryScore : Option Decimal.Binary64
  /-- What has to happen before the learner may move on. -/
  moveOn : String
  deriving Repr

/-- A group of units. -/
structure UnitBlock where
  id : String
  title : String
  description : String
  units : List AssignableUnit
  deriving Repr

/-- What a descriptor says. -/
structure CourseStructure where
  courseId : String
  title : String
  description : String
  language : String
  blocks : List UnitBlock
  deriving Repr

/-- A unit that is scored may also be passed; any other has to be completed. -/
def moveOnFor (masteryScore : Option Decimal.Binary64) : String :=
  if masteryScore.isSome then "CompletedOrPassed" else "Completed"

/-- The unit of a lesson. -/
def AssignableUnit.ofLesson (ids : ActivityIds) (masteryScore : Option Decimal.Binary64)
    (l : OutlineLesson) : AssignableUnit where
  id := ids.forLesson l.id
  title := l.title
  description := l.description.getD ""
  url := l.launch
  masteryScore
  moveOn := moveOnFor masteryScore

/-- The block of a module. -/
def UnitBlock.ofModule (ids : ActivityIds) (masteryScore : Option Decimal.Binary64)
    (m : OutlineModule) : UnitBlock where
  id := ids.forModule m.id
  title := m.title
  description := m.description.getD ""
  units := m.lessons.map (.ofLesson ids masteryScore)

/-- The structure of an outline, without modules that have no lessons. -/
def CourseStructure.ofOutline (info : Metadata) (outline : Outline) (ids : ActivityIds)
    (masteryScore : Option Decimal.Binary64) : CourseStructure where
  courseId := ids.course
  title := info.title
  description := info.description
  language := info.language
  blocks := outline.launchable.map (.ofModule ids masteryScore)

def langString (language s : String) : List Token :=
  element "langstring" [attr "lang" language] [text s]

/-- The title and the description of something, at the given level. -/
def naming (level : Nat) (language title description : String) : List Token :=
  elementLine level "title" [] (langString language title) ++
    elementLine level "description" [] (langString language description)

def unitTokens (language : String) (u : AssignableUnit) : List Token :=
  blockElement 2 "au"
    ([attr "id" u.id, fixed "moveOn" u.moveOn, fixed "launchMethod" "AnyWindow",
      fixed "activityType" ActivityType.lesson.iri] ++
      whenSome u.masteryScore fun x => [fixed "masteryScore" (Decimal.plainText x)])
    (naming 3 language u.title u.description ++ elementLine 3 "url" [] [text u.url])

def blockTokens (language : String) (b : UnitBlock) : List Token :=
  blockElement 1 "block" [attr "id" b.id]
    (naming 2 language b.title b.description ++ b.units.flatMap (unitTokens language))

def CourseStructure.tokens (s : CourseStructure) : List Token :=
  declaration "<?xml version=\"1.0\" encoding=\"utf-8\"?>" ++
    blockElement 0 "courseStructure"
      [fixed "xmlns" "https://w3id.org/xapi/profiles/cmi5/v1/CourseStructure.xsd"]
      (blockElement 1 "course" [attr "id" s.courseId]
          (naming 2 s.language s.title s.description) ++
        s.blocks.flatMap (blockTokens s.language))

def CourseStructure.document (s : CourseStructure) : String := render s.tokens

end Courseware.Descriptor.Cmi5
