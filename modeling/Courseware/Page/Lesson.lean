import Courseware.Page.Block
import Courseware.Plan

/-!
The parts of lesson pages and the index of a course.
-/

namespace Courseware.Page

open Markup Markup.Html

/-- A paragraph with a description, when there is one that is not blank. -/
def description (level : Nat) (attributes : List Attribute) (s : String) : List Token :=
  if Text.blank s then [] else indented level (element "p" attributes [text s])

/-- Where the link of a resource leads. -/
def resourceTarget (r : Resource) : String :=
  if Text.blank r.url then Text.encodeHref (Text.trim r.filename) else Text.trim r.url

/-- What the link of a resource says. -/
def resourceLabel (r : Resource) : String :=
  if Text.blank r.filename then Text.trim r.url else Text.trim r.filename

def resourceList (resources : List Resource) : List Token :=
  if resources.isEmpty then []
  else
    elementLine "section" [fixed "class" "resources"] <|
      .newline :: elementLine "h2" [] [text "Resources"] ++
        elementLine "ul" []
          (.newline :: resources.flatMap fun r =>
            indented 1 (element "li" [] (element "a"
              [attr "href" (resourceTarget r), fixed "target" "_blank", fixed "rel" "noopener"]
              [text (resourceLabel r)])))

/-- The titles and the description of a lesson. -/
def lessonHeader (l : PlannedLesson) : List Token :=
  elementLine "header" [fixed "class" "lesson-header"] <|
    .newline :: elementLine "p" [fixed "class" "module-title"] [text l.container.title] ++
      elementLine "h1" [fixed "class" "lesson-title"] [text l.lesson.title] ++
      whenSome l.lesson.description (description 0 [fixed "class" "lesson-description"])

/-- What a lesson shows: its header, its blocks and its resources. -/
def lessonBody (format : Format) (l : PlannedLesson) : List Token :=
  lessonHeader l ++
    elementLine "main" [fixed "class" "lesson-content", attr "id" ("lesson-" ++ l.segment)]
      (.newline :: blocks format l.blocks ++ .newline :: resourceList l.resources)

/-- Room that is kept where there is no link. -/
def noLink : List Token := indented 1 (element "span" [] [])

/-- Links to the lessons before and after a lesson and to the index. -/
def lessonLinks (p : Plan) (l : PlannedLesson) (index : String)
    (href : PlannedLesson → String) : List Token :=
  elementLine "nav" [fixed "class" "lesson-nav", fixed "aria-label" "Lesson navigation"] <|
    .newline ::
      (match p.previous? l with
        | some q =>
          indented 1 (element "a"
            [fixed "class" "button prev", fixed "rel" "prev", attr "href" (href q)]
            [.text "&larr; ", text q.lesson.title])
        | none => noLink) ++
      indented 1 (element "a" [fixed "class" "button home", attr "href" index]
        [text "Course overview"]) ++
      match p.next? l with
      | some q =>
        indented 1 (element "a"
          [fixed "class" "button next", fixed "rel" "next", attr "href" (href q)]
          [text q.lesson.title, .text " &rarr;"])
      | none => noLink

def indexLesson (href : PlannedLesson → String) (l : PlannedLesson) : List Token :=
  indented 3 (element "li" [] <|
    element "a" [attr "href" (href l), attr "data-lesson-id" l.lesson.id]
        [text l.lesson.title] ++
      if 0 < l.lesson.duration then
        .text " " :: element "span" [fixed "class" "duration"]
          [text ("(" ++ toString l.lesson.duration ++ " min)")]
      else [])

def indexModule (href : PlannedLesson → String) (m : PlannedModule) : List Token :=
  indented 1 (element "li" [fixed "class" "module", attr "data-module-id" m.source.id] <|
    .newline :: indented 2 (element "h2" [] [text m.source.title]) ++
      whenSome m.source.description (description 2 []) ++
      blockElement 2 "ol" [fixed "class" "lesson-list"] (m.lessons.flatMap (indexLesson href)) ++
      indentation 1)

/-- The bar that shows how much of a course has been done. -/
def progressBar : List Token :=
  elementLine "div"
    [fixed "class" "progress", fixed "role" "progressbar", fixed "aria-valuemin" "0",
      fixed "aria-valuemax" "100"]
    (element "div" [fixed "class" "progress-bar", .flag "data-progress"] [])

/-- The index of a course: its modules that have lessons, with a link to each lesson, and what stands
below them. -/
def courseIndex (p : Plan) (href : PlannedLesson → String) (footer : List Token) : List Token :=
  elementLine "header" [fixed "class" "course-header"]
      (.newline :: elementLine "h1" [fixed "class" "course-title"] [text p.course.title] ++
        description 0 [fixed "class" "course-description"] p.course.description ++
        progressBar) ++
    elementLine "main" []
      (.newline ::
        elementLine "ol" [fixed "class" "course-outline"]
          (.newline :: p.filledModules.flatMap (indexModule href)) ++
        footer)

end Courseware.Page
