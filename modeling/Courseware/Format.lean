import Courseware.Failure
import Courseware.Text.Blank
import Courseware.Text.Slug

/-!
The five package formats, their names, and how a name that a user gives is understood.
-/

namespace Courseware

/-- The two versions of the SCORM schema. -/
inductive ScormVersion
  | v12
  | v2004
  deriving DecidableEq, Repr

namespace ScormVersion

/-- The value of the descriptor's element `schemaversion`. -/
def schemaVersion : ScormVersion → String
  | v12 => "1.2"
  | v2004 => "2004 4th Edition"

def label : ScormVersion → String
  | v12 => "1.2"
  | v2004 => "2004"

end ScormVersion

inductive Format
  | scorm (version : ScormVersion)
  | xapi
  | cmi5
  | html5
  deriving DecidableEq, Repr

namespace Format

/-- Every format, in the order in which formats are listed. -/
def all : List Format :=
  [scorm .v12, scorm .v2004, xapi, cmi5, html5]

/-- The canonical name of the format, which also marks the archives of this format. -/
def id : Format → String
  | scorm .v12 => "scorm12"
  | scorm .v2004 => "scorm2004"
  | xapi => "xapi"
  | cmi5 => "cmi5"
  | html5 => "html5"

def displayName : Format → String
  | scorm .v12 => "SCORM 1.2"
  | scorm .v2004 => "SCORM 2004 (4th Edition)"
  | xapi => "xAPI (Tin Can)"
  | cmi5 => "cmi5"
  | html5 => "HTML5 (standalone)"

/-- The media type of a package; every format ships as a zip archive. -/
def mimeType (_ : Format) : String := "application/zip"

/-- The file name extension of a package. -/
def extension (_ : Format) : String := "zip"

/-- The code of an export that fails while the package is generated. -/
def errorCode : Format → String
  | scorm _ => "SCORM_EXPORT_ERROR"
  | xapi => "XAPI_EXPORT_ERROR"
  | cmi5 => "CMI5_EXPORT_ERROR"
  | html5 => "HTML5_EXPORT_ERROR"

/-- The global function that questions call to record an answer. -/
def answerHook : Format → String
  | scorm _ => "recordInteraction"
  | xapi => "trackAnswer"
  | cmi5 => "cmi5RecordAnswer"
  | html5 => "checkAnswer"

def scormVersion? : Format → Option ScormVersion
  | scorm version => some version
  | _ => none

/-- The spellings that are accepted, once separators are gone and capitals are lowered. -/
def ofPlainName? : String → Option Format
  | "scorm12" => some (scorm .v12)
  | "scorm2004" => some (scorm .v2004)
  | "xapi" => some xapi
  | "tincan" => some xapi
  | "cmi5" => some cmi5
  | "html5" => some html5
  | "html" => some html5
  | _ => none

/-- The characters that separate the parts of a format name. -/
def isSeparator (c : Char) : Bool :=
  c == '-' || c == '_' || c == '.' || c == ' '

/-- The lower-case form of a character, as far as ASCII letters go. Two characters outside ASCII have
such a letter in their lower-case form, the dotted capital I and the Kelvin sign; all others stay. -/
def lowerForm (c : Char) : List Char :=
  if c = '\u0130' then ['i', '\u0307']
  else if c = '\u212A' then ['k']
  else [Text.lowerChar c]

/-- A name without outer white space and separators, in lower case. -/
def plainName (name : String) : String :=
  String.ofList (((Text.trim name).toList.filter fun c => !isSeparator c).flatMap lowerForm)

/-- The format that a name stands for. -/
def ofName? (name : String) : Option Format :=
  ofPlainName? (plainName name)

/-- The format that a name stands for; the failure to find one tells the name as it was given. -/
def ofName (name : String) : Except Failure Format :=
  match ofName? name with
  | some format => .ok format
  | none => .error (.unknownFormat name)

end Format

end Courseware
