import Courseware.Script.Cmi5Unit
import Courseware.Script.Navigation
import Courseware.Script.ScormApi
import Courseware.Script.Vocabulary
import Courseware.Script.XapiWrapper
import Courseware.Settings

/-!
The configurations of the scripts, and the scripts with their configuration in place.
-/

namespace Courseware.Script

/-- How far a page has to be scrolled before its lesson counts as completed. -/
def completionScroll : Decimal.Binary64 := (Decimal.Binary64.ofRatio? false 9 10).getD (.zero false)

def scormScript (version : ScormVersion) : Except Failure String :=
  scormApi.fill (.object [("version", .string version.label)])

def xapiScript (s : XapiSettings) (ids : ActivityIds) (language : String) :
    Except Failure String :=
  xapiWrapper.fill <| .object [
    ("courseActivityId", .string ids.course),
    ("language", .string language),
    ("verbose", .bool s.verboseTracking),
    ("endpoint", .stringOrNull s.endpoint),
    ("verbs", xapiVerbs.json),
    ("activityTypes", activityTypes.json)]

def cmi5Script (s : XapiSettings) (language : String) : Except Failure String :=
  cmi5Unit.fill <| .object [
    ("language", .string language),
    ("verbose", .bool s.verboseTracking),
    ("verbs", cmi5Verbs.json),
    ("activityTypes", activityTypes.json),
    ("categorized", .strings categorizedVerbs),
    ("categories", .object [("cmi5", .string cmi5Category), ("moveOn", .string moveOnCategory)]),
    ("extensions", .object [("sessionId", .string sessionIdExtension)])]

/-- The name under which a browser keeps the progress in a course. -/
def progressKey (courseId : String) : String := "coursepack-progress:" ++ courseId

/-- The script that keeps progress in a course with the given lessons. -/
def navigationScript (courseId : String) (lessonIds : List String) : Except Failure String :=
  navigation.fill <| .object [
    ("storageKey", .string (progressKey courseId)),
    ("trackProgress", .bool true),
    ("lessons", .strings lessonIds)]

/-! ## Statement templates -/

/-- What page scripts know of a lesson. -/
structure LessonActivity where
  /-- The identifier of the activity. -/
  id : String
  lessonId : String
  moduleId : String
  name : String
  href : String
  deriving Repr

/-- What page scripts know of a lesson, as a value. -/
def LessonActivity.json (a : LessonActivity) : Json :=
  .object [("id", .string a.id), ("lessonId", .string a.lessonId),
    ("moduleId", .string a.moduleId), ("name", .string a.name), ("href", .string a.href)]

/-- The declaration of a global variable. -/
def declare (name : String) (value : Json) : String :=
  "var " ++ name ++ " = " ++ value.pretty ++ ";\n"

/-- The script that declares verbs, kinds of activities, the course and its lessons. -/
def statementTemplates (ids : ActivityIds) (title : String) (lessons : List LessonActivity) :
    String :=
  "/* coursepack xAPI statement templates. Generated file. */\n" ++
    declare "XAPI_VERBS" xapiVerbs.json ++
    declare "ACTIVITY_TYPES" activityTypes.json ++
    declare "COURSE_ACTIVITY" (.object [
      ("id", .string ids.course), ("name", .string title),
      ("type", .string ActivityType.course.iri)]) ++
    declare "LESSON_ACTIVITIES" (.array (lessons.map LessonActivity.json))

/-! ## Launch records -/

/-- A member of an object that is there only sometimes. -/
def optional (name : String) (value : Option Json) : List (String × Json) :=
  match value with
  | some v => [(name, v)]
  | none => []

/-- What a SCORM launcher page tells its script. -/
def scormLaunch (lessonId title content : String) (s : ScormSettings) : Json :=
  .object <|
    [("lessonId", .string lessonId), ("title", .string title), ("content", .string content),
      ("passingScore", .nat s.masteryPercent)] ++
    optional "timeLimitSeconds" (s.timeLimit.map fun m => .nat (m * 60)) ++
    [("allowReview", .bool s.allowReview), ("credit", .string s.credit.name)]

/-- What the page of a cmi5 unit tells its script. -/
def cmi5Launch (activityId lessonId : String) (mastery : Option Decimal.Binary64) : Json :=
  .object <|
    [("activityId", .string activityId), ("lessonId", .string lessonId)] ++
    optional "masteryScore" (mastery.map fun x => .number (.decimal x))

/-- The code that hands a launch record to the script of the page. -/
def launchCode (record : Json) : String :=
  "window.COURSEPACK_LAUNCH = " ++ inlined record ++ ";"

end Courseware.Script
