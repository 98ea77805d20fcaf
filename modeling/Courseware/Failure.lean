import Courseware.Json.Draft

/-!
Why a package cannot be made or read, and the messages that say so.
-/

namespace Courseware

/-- The identifiers that must not occur twice in a course. -/
inductive UniqueId
  | moduleId
  /-- The path segment that a module's identifier is reduced to. -/
  | modulePath
  | lessonId
  /-- The path segment that a lesson's identifier is reduced to. -/
  | lessonPath
  deriving DecidableEq, Repr

/-- What an identifier identifies, as messages name it. -/
def UniqueId.name : UniqueId → String
  | moduleId => "module"
  | modulePath => "module path"
  | lessonId => "lesson"
  | lessonPath => "lesson path"

/-- Why an operation on a package failed. -/
inductive Failure
  /-- Bytes could not be read, or do not match their checksum. -/
  | io (reason : String)
  /-- An archive cannot be understood. -/
  | zip (reason : String)
  /-- An XML document cannot be understood. -/
  | xml (reason : String)
  /-- A JSON document cannot be understood. -/
  | json (fault : Json.Fault)
  /-- A course lacks what a package needs. -/
  | invalid (problems : List String)
  | unknownFormat (name : String)
  | duplicate (kind : UniqueId) (id : String)
  | missing (element : String)
  | packaging (reason : String)
  /-- Bytes that should be text are not. -/
  | utf8
  deriving DecidableEq, Repr

def Json.Fault.message : Json.Fault → String
  | malformed => "the text is not JSON"
  | truncated => "the text ends too early"
  | mistyped => "a value has the wrong type"

namespace Failure

/-- The name of a failure to understand an XML document, without the reason. -/
def xmlLabel : String := "XML parsing error"

/-- The name of a failure to understand a JSON document, without the reason. -/
def jsonLabel : String := "JSON error"

def message : Failure → String
  | io reason => "I/O error: " ++ reason
  | zip reason => "ZIP error: " ++ reason
  | xml reason => xmlLabel ++ ": " ++ reason
  | json fault => jsonLabel ++ ": " ++ fault.message
  | invalid problems => "Validation failed: " ++ "; ".intercalate problems
  | unknownFormat name => "Unsupported format: " ++ name
  | duplicate kind id => "Duplicate " ++ kind.name ++ " id: " ++ id
  | missing element => "Missing required element: " ++ element
  | packaging reason => "Packaging failed: " ++ reason
  | utf8 => "UTF-8 decoding error: invalid utf-8 sequence"

end Failure

end Courseware
