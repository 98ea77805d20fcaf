import Courseware.Markup.Event
import Courseware.Package.Bundle
import Courseware.Package.Cmi5
import Courseware.Package.Contents
import Courseware.Package.Scorm

/-!
What is wrong with a package. A package needs some files, and its descriptor must be readable and refer to
content that is there.
-/

namespace Courseware.Package

open Markup (Event)

/-- Something that is wrong with a package. -/
inductive Problem
  /-- A file that the format needs is not there. -/
  | missing (path : String)
  /-- An item or a resource refers to a resource that the descriptor does not have. -/
  | unknownResource (identifier : String)
  /-- The descriptor says that a schema is in the package, but it is not. -/
  | missingSchema (path : String)
  | wrongVersion (declared expected : String)
  /-- The descriptor cannot be understood. -/
  | unreadable (descriptor : String) (cause : Failure)
  | nothingToLaunch (descriptor : String)
  /-- The descriptor refers to a file that is not there. -/
  | missingContent (descriptor path : String)
  deriving DecidableEq, Repr

def Problem.message : Problem → String
  | missing path => "missing " ++ path
  | unknownResource identifier =>
    Scorm.manifestPath ++ " references unknown resource " ++ identifier
  | missingSchema path =>
    Scorm.manifestPath ++ " schema location " ++ path ++ " is not in the package"
  | wrongVersion declared expected =>
    Scorm.manifestPath ++ " declares schema version \"" ++ declared ++ "\", expected \"" ++
      expected ++ "\""
  | unreadable descriptor cause => descriptor ++ " could not be parsed: " ++ cause.message
  | nothingToLaunch descriptor => descriptor ++ " references no launchable content"
  | missingContent descriptor path => descriptor ++ " references missing file " ++ path

/-! ## What a package needs -/

def descriptorPath : Format → String
  | .scorm _ => Scorm.manifestPath
  | .xapi => Bundle.tincanPath
  | .cmi5 => Cmi5.structurePath
  | .html5 => Bundle.manifestPath

/-- The paths of the other files that a format needs. -/
def requiredPaths : Format → List String
  | .scorm _ => [Scorm.scriptPath, Scorm.stylesPath]
  | .xapi =>
    [Bundle.indexPath, Bundle.wrapperPath, Bundle.templatesPath, Bundle.navigationPath,
      Bundle.stylesPath]
  | .cmi5 => [Cmi5.scriptPath, Cmi5.stylesPath]
  | .html5 => [Bundle.indexPath, Bundle.navigationPath, Bundle.stylesPath]

/-- Whether a path of a descriptor leads to something: a file of the package or a place outside. -/
def isReachable (p : PackageContents) (path : String) : Bool :=
  Text.isExternal path || p.contains path

/-! ## What a descriptor refers to -/

/-- The values of an attribute on the elements with some local names, in order. -/
def attributeValues (elements : List String) (name : String) (events : List Event) :
    List String :=
  events.flatMap fun e =>
    match e.opening? with
    | some (element, attributes) =>
      if elements.contains (Event.localName element) then
        (attributes.filter fun a => a.1 == name).map Prod.snd
      else []
    | none => []

/-- The texts of the elements with a local name, in the order in which the elements end. An inner element of
that name takes the place of the outer one; `current` is the text read so far when such an element is
open. -/
def elementTexts (element : String) (current : Option String) : List Event → List String
  | [] => []
  | .start name _ :: rest =>
    elementTexts element (if Event.localName name = element then some "" else current) rest
  | .stop name :: rest =>
    if Event.localName name = element then
      match current with
      | some text => Text.trim text :: elementTexts element none rest
      | none => elementTexts element none rest
    else elementTexts element current rest
  | e :: rest => elementTexts element (current.map (· ++ e.content)) rest

/-- The name of the element that declares the version of a descriptor's schema. -/
def versionElement : String := "schemaversion"

/-- The texts in elements that declare a version, without references and up to the first tag in the element;
`inside` tells that such an element was opened last. -/
def declaredVersion (inside : Bool) : List Event → String
  | [] => ""
  | .text written :: rest =>
    (if inside then written else "") ++ declaredVersion inside rest
  | .stop _ :: rest => declaredVersion false rest
  | e :: rest =>
    match e.opening? with
    | some (name, _) => declaredVersion (Event.localName name = versionElement) rest
    | none => declaredVersion inside rest

/-- Every other element of a list, the second first. -/
def everySecond {α : Type} : List α → List α
  | _ :: b :: rest => b :: everySecond rest
  | _ => []

/-- The paths of schemas in a list of pairs of a namespace and a place. -/
def schemaPaths (events : List Event) : List String :=
  (attributeValues ["manifest"] "xsi:schemaLocation" events).flatMap fun v =>
    everySecond (Text.words v)

/-- Texts in their order, each once. -/
def sorted (texts : List String) : List String :=
  (Dictionary.ofList (texts.map fun t => (t, ()))).keys

/-- The paths that a SCORM descriptor refers to. -/
def scormPaths (events : List Event) : List String :=
  sorted (attributeValues ["resource", "file"] "href" events)

/-- What is wrong with a SCORM descriptor apart from the paths that it refers to. -/
def scormProblems (version : ScormVersion) (p : PackageContents) (events : List Event) :
    List Problem :=
  let known := attributeValues ["resource"] "identifier" events
  let declared := Text.trim (declaredVersion false events)
  ((attributeValues ["item", "dependency"] "identifierref" events).filter
      fun r => !known.contains r).map .unknownResource ++
    ((schemaPaths events).filter fun path => !isReachable p path).map .missingSchema ++
    if declared = version.schemaVersion then [] else [.wrongVersion declared version.schemaVersion]

/-- The paths that a descriptor for the open web refers to. -/
def webPaths (v : Json) : List String :=
  (v.get "startUrl").string?.toList ++
    (v.get "modules").items.flatMap fun m =>
      (m.get "lessons").items.filterMap fun l => (l.get "href").string?

/-- The paths that the text of a descriptor refers to, and what is wrong with it apart from them. -/
def references (format : Format) (p : PackageContents) (text : String) :
    Except Failure (List Problem × List String) :=
  match format with
  | .scorm version => do
    let events ← Event.ofDocument text
    return (scormProblems version p events, scormPaths events)
  | .xapi => do return ([], elementTexts "launch" none (← Event.ofDocument text))
  | .cmi5 => do return ([], elementTexts "url" none (← Event.ofDocument text))
  | .html5 => do return ([], webPaths (← (Json.ofText text).mapError .json))

/-! ## Problems -/

/-- What is wrong with the paths that a descriptor refers to. -/
def pathProblems (descriptor : String) (p : PackageContents) (paths : List String) :
    List Problem :=
  if paths.isEmpty then [.nothingToLaunch descriptor]
  else (paths.filter fun path => !isReachable p path).map (.missingContent descriptor)

def descriptorProblems (format : Format) (p : PackageContents) : List Problem :=
  let descriptor := descriptorPath format
  match p.text descriptor with
  | .error _ => [.missing descriptor]
  | .ok text =>
    match references format p text with
    | .ok (problems, paths) => problems ++ pathProblems descriptor p paths
    | .error cause => [.unreadable descriptor cause]

def problems (format : Format) (p : PackageContents) : List Problem :=
  ((requiredPaths format).filter fun path => !p.contains path).map .missing ++
    descriptorProblems format p

/-- What is wrong with the package in an archive. -/
def verify (archive : Bytes) (format : Format) : Except Failure (List Problem) := do
  return problems format (← PackageContents.ofArchive archive)

end Courseware.Package
