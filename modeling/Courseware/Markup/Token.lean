import Courseware.Text.Entity

/-!
Markup as a list of tokens. Pages and descriptors are made as tokens, which keep what is text apart from
what is a tag, and are written by `render`. Texts and attribute values stand in a token as they are
written, so a text that has to be escaped enters through `Token.ofText` and `Attribute.ofText`.
-/

namespace Courseware.Markup

open Text (Dialect)

/-- An attribute of a tag. -/
structure Attribute where
  /-- The white space before the name. -/
  gap : String
  name : String
  /-- The value as it is written between the quotes; none when the name stands alone. -/
  value : Option String
  deriving DecidableEq, Repr

namespace Attribute

/-- An attribute whose value is written as it is. -/
def literal (name written : String) : Attribute := ⟨" ", name, some written⟩

/-- An attribute without value. -/
def flag (name : String) : Attribute := ⟨" ", name, none⟩

def ofText (d : Dialect) (name s : String) : Attribute := literal name (d.escape s)

def onLine (name written : String) : Attribute := ⟨"\n  ", name, some written⟩

def render (a : Attribute) : String :=
  match a.value with
  | some v => a.gap ++ a.name ++ "=\"" ++ v ++ "\""
  | none => a.gap ++ a.name

end Attribute

/-- A piece of markup. -/
inductive Token
  /-- Text between tags as it is written. -/
  | text (written : String)
  | start (name : String) (attributes : List Attribute)
  /-- A tag that opens and closes an element. -/
  | empty (name : String) (attributes : List Attribute)
  | stop (name : String)
  /-- A piece in which other rules than those of text hold: a declaration or the code of a script. -/
  | raw (written : String)
  deriving DecidableEq, Repr

namespace Token

def ofText (d : Dialect) (s : String) : Token := text (d.escape s)

def newline : Token := text "\n"

def render : Token → String
  | text s => s
  | start name attributes => "<" ++ name ++ String.join (attributes.map Attribute.render) ++ ">"
  | empty name attributes => "<" ++ name ++ String.join (attributes.map Attribute.render) ++ "/>"
  | stop name => "</" ++ name ++ ">"
  | raw s => s

end Token

def render (tokens : List Token) : String :=
  String.join (tokens.map Token.render)

def element (name : String) (attributes : List Attribute) (content : List Token) : List Token :=
  .start name attributes :: content ++ [.stop name]

/-- Tokens and a line break after them. -/
def line (tokens : List Token) : List Token :=
  tokens ++ [.newline]

/-- The space at the start of a line, two characters a level. -/
def indentation (level : Nat) : List Token :=
  if level = 0 then [] else [.text (String.ofList (List.replicate (2 * level) ' '))]

/-- Tokens on a line that is indented to the given level. -/
def indented (level : Nat) (tokens : List Token) : List Token :=
  indentation level ++ line tokens

/-- An element whose start and end tags stand on lines of their own at the given level. -/
def blockElement (level : Nat) (name : String) (attributes : List Attribute)
    (content : List Token) : List Token :=
  indented level [.start name attributes] ++ content ++ indented level [.stop name]

/-- A value that is there only sometimes. -/
def whenSome {α β : Type} (value : Option α) (f : α → List β) : List β :=
  match value with
  | some a => f a
  | none => []

end Courseware.Markup
