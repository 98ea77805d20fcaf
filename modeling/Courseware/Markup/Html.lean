import Courseware.Markup.Token

/-!
Markup in HTML: texts, attributes and the texts of several lines that pages are made of.
-/

namespace Courseware.Markup.Html

open Text (Dialect)

/-- Any text between tags. -/
def text (s : String) : Token := .ofText .html s

def attr (name s : String) : Attribute := .ofText .html name s

/-- An attribute with a value that is written as it is. -/
def fixed (name written : String) : Attribute := .literal name written

def truth (name : String) (b : Bool) : Attribute :=
  .literal name (if b then "true" else "false")

/-- The lines of a text, where `line` holds the characters of the line being read. -/
def linesFrom (line : List Char) : List Char → List (List Char)
  | [] => [line]
  | c :: cs => if c = '\n' then line :: linesFrom [] cs else linesFrom (line ++ [c]) cs

/-- The lines of a text; there is always one more than there are line breaks. -/
def lines (s : String) : List String :=
  (linesFrom [] s.toList).map String.ofList

/-- A text that keeps its line breaks. -/
def multiline (s : String) : List Token :=
  match lines s with
  | [] => []
  | first :: rest =>
    text first :: rest.flatMap fun l => [.start "br" [], .text "\n", text l]

end Courseware.Markup.Html
