import Courseware.Descriptor.Scorm
import Courseware.Package.Readme
import Courseware.Page.Lesson
import Courseware.Page.Shell
import Courseware.Page.Stylesheet
import Courseware.Script.Config

/-!
SCORM packages. Each lesson has two pages: a launcher, which keeps the session with the host, and the
content in the launcher's frame.
-/

namespace Courseware.Package.Scorm

open Markup Markup.Html

def manifestPath : String := "imsmanifest.xml"

def scriptPath : String := "shared/scripts/scorm-api.js"

def stylesPath : String := "shared/css/styles.css"

def catalogPath : String := "shared/schemas/catalog.xml"

/-- How a page of a lesson leads back to the root of the package. -/
def root : String := "../../"

def launcherPath (l : PlannedLesson) : String := "content/" ++ l.segment ++ "/index.html"

def contentPath (l : PlannedLesson) : String := "content/" ++ l.segment ++ "/content.html"

/-- A course must have an identifier. -/
def problems (c : Course) : List String :=
  if Text.blank c.id then ["Course id is required for SCORM export"] else []

/-- The settings may ask for another version. -/
def notes (version : ScormVersion) (s : Settings) : List String :=
  match s.scorm.version with
  | some asked =>
    if asked = version then []
    else ["Settings request SCORM " ++ asked.label ++ " but the package is SCORM " ++ version.label]
  | none => []

def manifest (version : ScormVersion) (p : Plan) (ctx : ExportContext) :
    Descriptor.Scorm.Manifest :=
  .ofOutline ctx.metadata (p.outline launcherPath fun l => [contentPath l]) version
    { masteryScore := some ctx.settings.scorm.masteryPercent
      timeLimitMinutes := ctx.settings.scorm.timeLimit
      sharedFiles := [scriptPath, stylesPath] }

/-- What to do with the package. -/
def steps : String :=
  "Upload this zip file to your LMS as a SCORM package. Do not unzip it first;\n" ++
    "the LMS reads imsmanifest.xml from the root of the archive."

def packageFiles (version : ScormVersion) (p : Plan) (ctx : ExportContext) :
    Except Failure (List TextFile) := do
  let script ← Script.scormScript version
  return [
    (manifestPath, (manifest version p ctx).document),
    (scriptPath, script),
    (stylesPath, Page.stylesheet),
    (catalogPath, Descriptor.Scorm.catalog version),
    ("README.txt", readme p ctx (.scorm version) steps)]

/-- What every page of a lesson has around its body. -/
def shell (ctx : ExportContext) (l : PlannedLesson) : Page.Shell where
  title := l.lesson.title
  language := ctx.language
  stylesheet := some (root ++ stylesPath)
  bodyAttributes := [("data-lesson-id", l.lesson.id)]

def launcherPage (ctx : ExportContext) (l : PlannedLesson) : String :=
  let record := Script.scormLaunch l.lesson.id l.lesson.title "content.html" ctx.settings.scorm
  { shell ctx l with
    inlineScripts := [Script.launchCode record]
    headScripts := [root ++ scriptPath]
    bodyClass := some "launcher" : Page.Shell }.document
    (line (element "iframe"
      [fixed "class" "lesson-frame", fixed "src" "content.html", attr "title" l.lesson.title] []))

def contentPage (version : ScormVersion) (ctx : ExportContext) (l : PlannedLesson) : String :=
  { shell ctx l with scripts := [root ++ scriptPath] : Page.Shell }.document
    (Page.lessonBody (.scorm version) l)

def exporter (version : ScormVersion) : Exporter where
  format := .scorm version
  problems := problems
  notes := notes version
  packageFiles := packageFiles version
  lessonFiles _ l ctx :=
    .ok [(launcherPath l, launcherPage ctx l), (contentPath l, contentPage version ctx l)]

end Courseware.Package.Scorm
