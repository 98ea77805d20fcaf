import Courseware.Course.Block

/-!
Courses: modules of lessons, which hold blocks and resources. Lists keep the order of the document;
the order in which things are shown follows their `order`, and among equals the document.
-/

namespace Courseware

/-- A file that belongs to a lesson. -/
structure Resource where
  id : String := ""
  kind : String := ""
  url : String := ""
  mimeType : String := ""
  size : Option Nat := none
  filename : String := ""
  deriving Repr

/-- What is launched at once. -/
structure Lesson where
  id : String := ""
  title : String := ""
  description : Option String := none
  order : Int := 0
  /-- The time that the lesson takes, in minutes. -/
  duration : Nat := 0
  contentType : String := ""
  blocks : List Block := []
  resources : List Resource := []
  deriving Repr

/-- A group of lessons. -/
structure Module where
  id : String := ""
  title : String := ""
  description : Option String := none
  order : Int := 0
  lessons : List Lesson := []
  deriving Repr

/-- What describes a course. -/
structure CourseMetadata where
  author : Option String := none
  copyright : Option String := none
  organization : Option String := none
  license : Option String := none
  keywords : List String := []
  deriving Repr

/-- A course. -/
structure Course where
  id : String := ""
  title : String := ""
  description : String := ""
  version : String := ""
  language : String := ""
  metadata : CourseMetadata := {}
  /-- The time that the course takes, in minutes. -/
  totalDuration : Nat := 0
  modules : List Module := []
  createdAt : Option String := none
  updatedAt : Option String := none
  deriving Repr

/-- Whether a resource says where it is. -/
def Resource.isPresent (r : Resource) : Bool :=
  !Text.blank r.filename || !Text.blank r.url

def Lesson.orderedBlocks (l : Lesson) : List Block :=
  l.blocks.mergeSort fun a b => a.order ≤ b.order

def Module.orderedLessons (m : Module) : List Lesson :=
  m.lessons.mergeSort fun a b => a.order ≤ b.order

namespace Course

def orderedModules (c : Course) : List Module :=
  c.modules.mergeSort fun a b => a.order ≤ b.order

def lessonCount (c : Course) : Nat :=
  (c.modules.flatMap fun m => m.lessons).length

/-- The language, which is English unless the course says otherwise. -/
def languageOrDefault (c : Course) : String :=
  if Text.blank c.language then "en" else c.language

/-- The version, which is `1.0` unless the course says otherwise. -/
def versionOrDefault (c : Course) : String :=
  if Text.blank c.version then "1.0" else c.version

end Course

/-! ## Documents -/

open Json in
def Resource.decoder : Decoder Resource :=
  .record {} [
    .of "id" .text fun r t => { r with id := t },
    .of "type" .text fun r t => { r with kind := t },
    .of "url" .text fun r t => { r with url := t },
    .of "mimeType" .text fun r t => { r with mimeType := t },
    .of "size" (.option (.natural 64)) fun r n => { r with size := n },
    .of "filename" .text fun r t => { r with filename := t }]

open Json in
def Lesson.decoder : Decoder Lesson :=
  .record {} [
    .of "id" .text fun l t => { l with id := t },
    .of "title" .text fun l t => { l with title := t },
    .of "description" (.option .text) fun l t => { l with description := t },
    .of "order" .signed fun l n => { l with order := n },
    .of "duration" (.natural 32) fun l n => { l with duration := n },
    .of "contentType" .text fun l t => { l with contentType := t },
    .of "blocks" (.list Block.decoder) fun l bs => { l with blocks := bs },
    .of "resources" (.list Resource.decoder) fun l rs => { l with resources := rs }]

open Json in
def Module.decoder : Decoder Module :=
  .record {} [
    .of "id" .text fun m t => { m with id := t },
    .of "title" .text fun m t => { m with title := t },
    .of "description" (.option .text) fun m t => { m with description := t },
    .of "order" .signed fun m n => { m with order := n },
    .of "lessons" (.list Lesson.decoder) fun m ls => { m with lessons := ls }]

open Json in
def CourseMetadata.decoder : Decoder CourseMetadata :=
  .record {} [
    .of "author" (.option .text) fun m t => { m with author := t },
    .of "copyright" (.option .text) fun m t => { m with copyright := t },
    .of "organization" (.option .text) fun m t => { m with organization := t },
    .of "license" (.option .text) fun m t => { m with license := t },
    .of "keywords" (.list .text) fun m ts => { m with keywords := ts }]

open Json in
def Course.decoder : Decoder Course :=
  .record {} [
    .of "id" .text fun c t => { c with id := t },
    .of "title" .text fun c t => { c with title := t },
    .of "description" .text fun c t => { c with description := t },
    .of "version" .text fun c t => { c with version := t },
    .of "language" .text fun c t => { c with language := t },
    .of "metadata" CourseMetadata.decoder fun c m => { c with metadata := m },
    .of "totalDuration" (.natural 32) fun c n => { c with totalDuration := n },
    .of "modules" (.list Module.decoder) fun c ms => { c with modules := ms },
    .of "createdAt" (.option .text) fun c t => { c with createdAt := t },
    .of "updatedAt" (.option .text) fun c t => { c with updatedAt := t }]

end Courseware
