import Courseware.Descriptor.TinCan
import Courseware.Descriptor.Web
import Courseware.Package.Exporter
import Courseware.Page.Lesson
import Courseware.Page.Shell
import Courseware.Page.Stylesheet
import Courseware.Script.Config

/-!
Packages with a course index and one page a lesson: those that send xAPI statements, and those for the
open web, which keep progress in the browser.
-/

namespace Courseware.Package.Bundle

open Markup Markup.Html

def indexPath : String := "index.html"

/-- The path of the script that keeps progress. -/
def navigationPath : String := "js/navigation.js"

/-- The path of the script that sends statements. -/
def wrapperPath : String := "js/xapi-wrapper.js"

/-- The path of the script that declares what statements are made of. -/
def templatesPath : String := "js/statement-templates.js"

def stylesPath : String := "css/styles.css"

def tincanPath : String := "tincan.xml"

/-- The path of the descriptor of packages for the open web. -/
def manifestPath : String := "manifest.json"

/-- How the page of a lesson leads back to the root of the package. -/
def root : String := "../"

def pageName (l : PlannedLesson) : String := l.segment ++ ".html"

def lessonPath (l : PlannedLesson) : String := "lessons/" ++ pageName l

def outline (p : Plan) : Descriptor.Outline := p.outline lessonPath fun _ => []

/-- The index of a course, which loads some scripts and ends in a footer. -/
def indexPage (p : Plan) (ctx : ExportContext) (scripts : List String) (footer : List Token) :
    String :=
  { title := ctx.course.title
    language := ctx.language
    stylesheet := some stylesPath
    scripts : Page.Shell }.document (Page.courseIndex p lessonPath footer)

/-- The page of a lesson, which loads some scripts and has something between its content and its links. -/
def lessonPage (format : Format) (p : Plan) (l : PlannedLesson) (ctx : ExportContext)
    (scripts : List String) (between : List Token) : String :=
  { title := l.lesson.title
    language := ctx.language
    stylesheet := some (root ++ stylesPath)
    scripts := scripts.map (root ++ ·)
    bodyAttributes := [("data-lesson-id", l.lesson.id)] : Page.Shell }.document
    (Page.lessonBody format l ++ between ++
      Page.lessonLinks p l (root ++ indexPath) pageName)

/-- The script that keeps progress. -/
def navigationScript (p : Plan) (ctx : ExportContext) : Except Failure String :=
  Script.navigationScript ctx.course.id p.lessonIds

/-! ## xAPI -/

/-- What page scripts know of a lesson. -/
def lessonActivity (ids : ActivityIds) (l : PlannedLesson) : Script.LessonActivity where
  id := ids.forLesson l.lesson.id
  lessonId := l.lesson.id
  moduleId := l.container.id
  name := l.lesson.title
  href := lessonPath l

def activityList (p : Plan) (ctx : ExportContext) : Descriptor.TinCan.ActivityList :=
  .ofOutline ctx.metadata (outline p) ctx.activityIds indexPath

def finishButton : List Token :=
  line (element "p" []
    (element "button"
      [fixed "type" "button", fixed "class" "button finish", fixed "onclick" "finishCourse()"]
      [text "Finish course"]))

def completeButton (lessonId : String) : List Token :=
  line (element "p" [fixed "class" "lesson-complete"]
    (element "button"
      [fixed "type" "button", fixed "class" "button",
        attr "onclick" ("markLessonComplete(" ++ Json.quote lessonId ++ ")")]
      [text "Mark lesson complete"]))

/-- The files that there are once in an xAPI package. -/
def xapiPackageFiles (p : Plan) (ctx : ExportContext) : Except Failure (List TextFile) := do
  let ids := ctx.activityIds
  let wrapper ← Script.xapiScript ctx.settings.xapi ids ctx.language
  let navigation ← navigationScript p ctx
  return [
    (tincanPath, (activityList p ctx).document),
    (wrapperPath, wrapper),
    (templatesPath,
      Script.statementTemplates ids ctx.course.title (p.lessons.map (lessonActivity ids))),
    (navigationPath, navigation),
    (stylesPath, Page.stylesheet),
    (indexPath, indexPage p ctx [templatesPath, navigationPath, wrapperPath] finishButton)]

def xapi : Exporter where
  format := .xapi
  problems _ := []
  notes _ := []
  packageFiles := xapiPackageFiles
  lessonFiles p l ctx :=
    .ok [(lessonPath l,
      lessonPage .xapi p l ctx [templatesPath, navigationPath, wrapperPath]
        (completeButton l.lesson.id))]

/-! ## The open web -/

/-- The files that there are once in a package for the open web. -/
def html5PackageFiles (p : Plan) (ctx : ExportContext) : Except Failure (List TextFile) := do
  let navigation ← navigationScript p ctx
  return [
    (manifestPath, Descriptor.Web.document ctx.metadata (outline p) indexPath),
    (navigationPath, navigation),
    (stylesPath, Page.stylesheet),
    (indexPath, indexPage p ctx [navigationPath] [])]

def html5 : Exporter where
  format := .html5
  problems _ := []
  notes _ := []
  packageFiles := html5PackageFiles
  lessonFiles p l ctx := .ok [(lessonPath l, lessonPage .html5 p l ctx [navigationPath] [])]

end Courseware.Package.Bundle
