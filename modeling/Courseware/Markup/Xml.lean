import Courseware.Markup.Token

/-!
Markup in XML: texts and attributes that descriptors are made of.
-/

namespace Courseware.Markup.Xml

open Text (Dialect)

def text (s : String) : Token := .ofText .xml s

def attr (name s : String) : Attribute := .ofText .xml name s

/-- An attribute with a value that is written as it is. -/
def fixed (name written : String) : Attribute := .literal name written

/-- The line that a document starts with. -/
def declaration (written : String) : List Token :=
  line [.raw written]

/-- An element on a line of its own at the given level. -/
def elementLine (level : Nat) (name : String) (attributes : List Attribute)
    (content : List Token) : List Token :=
  indented level (element name attributes content)

end Courseware.Markup.Xml
