import Courseware.Descriptor.Outline
import Courseware.Markup.Xml

/-!
The xAPI descriptor `tincan.xml`: the activities of a package, first the course, then each module followed
by its lessons.
-/

namespace Courseware.Descriptor.TinCan

open Markup Markup.Xml

structure Activity where
  id : String
  type : ActivityType
  name : String
  description : String
  /-- Where the activity starts; only the course can be launched. -/
  launch : Option String
  deriving Repr

/-- What a descriptor says. -/
structure ActivityList where
  language : String
  activities : List Activity
  deriving Repr

def moduleActivities (ids : ActivityIds) (m : OutlineModule) : List Activity :=
  ⟨ids.forModule m.id, .courseModule, m.title, m.description.getD "", none⟩ ::
    m.lessons.map fun l =>
      ⟨ids.forLesson l.id, .lesson, l.title, l.description.getD "", none⟩

def ActivityList.ofOutline (info : Metadata) (outline : Outline) (ids : ActivityIds)
    (launch : String) : ActivityList where
  language := info.language
  activities :=
    ⟨ids.course, .course, info.title, info.description, some launch⟩ ::
      outline.flatMap (moduleActivities ids)

def langText (name language s : String) : List Token :=
  elementLine 3 name [attr "lang" language] [text s]

def activityTokens (language : String) (a : Activity) : List Token :=
  blockElement 2 "activity" [attr "id" a.id, fixed "type" a.type.iri]
    (langText "name" language a.name ++ langText "description" language a.description ++
      whenSome a.launch fun l => langText "launch" language l)

def ActivityList.tokens (l : ActivityList) : List Token :=
  declaration "<?xml version=\"1.0\" encoding=\"utf-8\" ?>" ++
    blockElement 0 "tincan" [fixed "xmlns" "http://projecttincan.com/tincan.xsd"]
      (blockElement 1 "activities" [] (l.activities.flatMap (activityTokens l.language)))

def ActivityList.document (l : ActivityList) : String := render l.tokens

end Courseware.Descriptor.TinCan
