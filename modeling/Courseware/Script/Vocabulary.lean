import Courseware.Descriptor.Outline
import Courseware.Dictionary

/-!
The verbs and kinds of activities that scripts make statements with.
-/

namespace Courseware.Script

/-- Names and the addresses that stand for them. -/
abbrev Vocabulary := List (String × String)

/-- A vocabulary as an object, in the order of its names. -/
def Vocabulary.json (v : Vocabulary) : Json :=
  .object ((Dictionary.ofList v).entries.map fun e => (e.1, .string e.2))

def xapiVerbs : Vocabulary := [
  ("initialized", "http://adlnet.gov/expapi/verbs/initialized"),
  ("launched", "http://adlnet.gov/expapi/verbs/launched"),
  ("experienced", "http://adlnet.gov/expapi/verbs/experienced"),
  ("progressed", "http://adlnet.gov/expapi/verbs/progressed"),
  ("answered", "http://adlnet.gov/expapi/verbs/answered"),
  ("completed", "http://adlnet.gov/expapi/verbs/completed"),
  ("passed", "http://adlnet.gov/expapi/verbs/passed"),
  ("failed", "http://adlnet.gov/expapi/verbs/failed"),
  ("terminated", "http://adlnet.gov/expapi/verbs/terminated")]

def cmi5Verbs : Vocabulary := [
  ("launched", "http://adlnet.gov/expapi/verbs/launched"),
  ("initialized", "http://adlnet.gov/expapi/verbs/initialized"),
  ("answered", "http://adlnet.gov/expapi/verbs/answered"),
  ("completed", "http://adlnet.gov/expapi/verbs/completed"),
  ("passed", "http://adlnet.gov/expapi/verbs/passed"),
  ("failed", "http://adlnet.gov/expapi/verbs/failed"),
  ("abandoned", "https://w3id.org/xapi/adl/verbs/abandoned"),
  ("waived", "https://w3id.org/xapi/adl/verbs/waived"),
  ("satisfied", "https://w3id.org/xapi/adl/verbs/satisfied"),
  ("terminated", "http://adlnet.gov/expapi/verbs/terminated")]

/-- The verbs whose statements carry the category of cmi5. -/
def categorizedVerbs : List String :=
  ["initialized", "completed", "passed", "failed", "terminated"]

def activityTypes : Vocabulary := [
  ("course", ActivityType.course.iri),
  ("module", ActivityType.courseModule.iri),
  ("lesson", ActivityType.lesson.iri),
  ("interaction", ActivityType.interaction.iri),
  ("question", ActivityType.question.iri)]

/-- The category of statements that cmi5 defines. -/
def cmi5Category : String := "https://w3id.org/xapi/cmi5/context/categories/cmi5"

/-- The category of statements that let the learner move on. -/
def moveOnCategory : String := "https://w3id.org/xapi/cmi5/context/categories/moveon"

/-- The extension that holds the identifier of a session. -/
def sessionIdExtension : String := "https://w3id.org/xapi/cmi5/context/extensions/sessionid"

end Courseware.Script
