import Courseware.Descriptor.Outline
import Courseware.Json.Printer

/-!
The descriptor of a package for the open web, `manifest.json`.
-/

namespace Courseware.Descriptor.Web

def lessonJson (l : OutlineLesson) : Json :=
  .object [
    ("id", .string l.id),
    ("title", .string l.title),
    ("href", .string l.launch),
    ("durationMinutes", .nat l.durationMinutes),
    ("resources", .array (l.resources.map resourceJson))]

def moduleJson (m : OutlineModule) : Json :=
  .object [
    ("id", .string m.id),
    ("title", .string m.title),
    ("lessons", .array (m.lessons.map lessonJson))]

def manifest (info : Metadata) (outline : Outline) (startUrl : String) : Json :=
  .object <|
    [("id", .string info.identifier),
      ("name", .string info.title),
      ("description", .string info.description),
      ("version", .string info.version),
      ("language", .string info.language)] ++
    (match info.author with
      | some author => [("author", .string author)]
      | none => []) ++
    [("generator", .string generator),
      ("generatedAt", .string info.generatedAt),
      ("startUrl", .string startUrl),
      ("modules", .array (outline.map moduleJson))]

def document (info : Metadata) (outline : Outline) (startUrl : String) : String :=
  (manifest info outline startUrl).pretty

end Courseware.Descriptor.Web
