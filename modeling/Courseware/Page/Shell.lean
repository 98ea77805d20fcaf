import Courseware.Markup.Html

/-!
The frame of a page: its head, and the scripts after its body.
-/

namespace Courseware.Page

open Markup Markup.Html

/-- What a page has around its body. -/
structure Shell where
  title : String
  language : String
  stylesheet : Option String := none
  /-- Code in the head, before any script that is loaded. It is written as it is. -/
  inlineScripts : List String := []
  /-- Scripts that are loaded before the page is shown. -/
  headScripts : List String := []
  /-- Scripts that are loaded at the end of the body. -/
  scripts : List String := []
  bodyClass : Option String := none
  bodyAttributes : List (String × String) := []

def scriptTokens (src : String) : List Token :=
  line (element "script" [attr "src" src] [])

def inlineScriptTokens (code : String) : List Token :=
  line (element "script" [] [.raw ("\n" ++ code ++ "\n")])

def Shell.headTokens (s : Shell) : List Token :=
  line (element "head" [] <|
    .newline :: line [.start "meta" [fixed "charset" "utf-8"]] ++
      line [.start "meta"
        [fixed "name" "viewport", fixed "content" "width=device-width, initial-scale=1"]] ++
      line (element "title" [] [text s.title]) ++
      whenSome s.stylesheet (fun href =>
        line [.start "link" [fixed "rel" "stylesheet", attr "href" href]]) ++
      s.inlineScripts.flatMap inlineScriptTokens ++
      s.headScripts.flatMap scriptTokens)

def Shell.bodyAttributeList (s : Shell) : List Attribute :=
  whenSome s.bodyClass (fun c => [fixed "class" c]) ++
    s.bodyAttributes.map fun a => attr a.1 a.2

def Shell.tokens (s : Shell) (body : List Token) : List Token :=
  line [.raw "<!DOCTYPE html>"] ++
    line (element "html" [attr "lang" s.language] <|
      .newline :: s.headTokens ++
        line (element "body" s.bodyAttributeList <|
          .newline :: body ++ s.scripts.flatMap scriptTokens))

def Shell.document (s : Shell) (body : List Token) : String :=
  render (s.tokens body)

end Courseware.Page
