import Courseware.Course.Basic
import Courseware.Text.Href
import Courseware.Time.Calendar

/-!
What descriptors describe: the course as a whole, its outline of modules and lessons with the files that
they are made of, and the identifiers of its activities.
-/

namespace Courseware

/-- The name that packages give for what made them. -/
def generator : String := "coursepack 0.2.0"

namespace Descriptor

/-- What a descriptor says about the course. -/
structure Metadata where
  identifier : String := ""
  title : String := ""
  description : String := ""
  language : String := ""
  version : String := ""
  author : Option String := none
  copyright : Option String := none
  keywords : List String := []
  /-- When the package was made, in RFC 3339 form. -/
  generatedAt : String := ""
  deriving Repr

def Metadata.ofCourse (c : Course) (made : Time.Instant) : Metadata where
  identifier := c.id
  title := c.title
  description := c.description
  language := c.languageOrDefault
  version := c.versionOrDefault
  author := c.metadata.author
  copyright := c.metadata.copyright
  keywords := c.metadata.keywords
  generatedAt := made.text

/-- A lesson in an outline. -/
structure OutlineLesson where
  id : String := ""
  title : String := ""
  description : Option String := none
  /-- The path of the page that the lesson starts with. -/
  launch : String := ""
  /-- The paths of its other files. -/
  files : List String := []
  resources : List Resource := []
  durationMinutes : Nat := 0
  deriving Repr

/-- A module in an outline. -/
structure OutlineModule where
  id : String := ""
  title : String := ""
  description : Option String := none
  lessons : List OutlineLesson := []
  deriving Repr

/-- The modules of a package in order. -/
abbrev Outline := List OutlineModule

/-- The modules that can be launched because they have lessons. -/
def Outline.launchable (o : Outline) : Outline :=
  o.filter fun m => !m.lessons.isEmpty

/-- A resource as descriptors and answers give it. -/
def resourceJson (r : Resource) : Json :=
  .object <|
    [("id", .string r.id), ("type", .string r.kind), ("url", .string r.url),
      ("mimeType", .string r.mimeType), ("filename", .string r.filename)] ++
    (match r.size with
      | some n => [("size", .nat n)]
      | none => [])

end Descriptor

/-- The start of all activity identifiers of a course: that of the course itself. -/
structure ActivityIds where
  course : String
  deriving DecidableEq, Repr

namespace ActivityIds

/-- The identifiers of a course, below the given address. -/
def ofCourse (start courseId : String) : ActivityIds :=
  ⟨Text.trimEndOf '/' start ++ "/" ++ Text.encodeHref courseId⟩

/-- The identifier of a module. -/
def forModule (ids : ActivityIds) (moduleId : String) : String :=
  ids.course ++ "/modules/" ++ Text.encodeHref moduleId

/-- The identifier of a lesson. -/
def forLesson (ids : ActivityIds) (lessonId : String) : String :=
  ids.course ++ "/lessons/" ++ Text.encodeHref lessonId

end ActivityIds

/-- The kinds of activities. -/
inductive ActivityType
  | course
  | courseModule
  | lesson
  | interaction
  | question
  deriving DecidableEq, Repr

/-- The address that stands for a kind of activity. -/
def ActivityType.iri : ActivityType → String
  | course => "http://adlnet.gov/expapi/activities/course"
  | courseModule => "http://adlnet.gov/expapi/activities/module"
  | lesson => "http://adlnet.gov/expapi/activities/lesson"
  | interaction => "http://adlnet.gov/expapi/activities/cmi.interaction"
  | question => "http://adlnet.gov/expapi/activities/question"

end Courseware
