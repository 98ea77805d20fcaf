import Courseware.Markup.Piece
import Courseware.Text.Entity

/-!
# A plain reader of markup

A document is read character by character into a tree. The reader knows tags,
attributes in double quotes and named references, and takes every other character
as it is; it repairs nothing, and end tags must match. Pages differ from other
documents in the elements that have no end tag and in scripts, whose text ends
with the first end tag.
-/

namespace Courseware.Markup

open Text (Dialect)

/-- What a document is made of. -/
inductive Node
  | character (c : Char)
  | element (name : String) (attributes : List (String × String)) (children : List Node)
  deriving Repr, Inhabited

namespace Reader

/-! ## Trees -/

/-- An element whose end tag has not been read. -/
structure Opened where
  name : String
  attributes : List (String × String)
  /-- What stands before the element in the element around it, the last first. -/
  before : List Node

/-- A tree that is being read. -/
structure Builder where
  /-- The elements that are open, the innermost first. -/
  opened : List Opened
  /-- What has been read of the innermost one, the last first. -/
  done : List Node

namespace Builder

def push (b : Builder) (nodes : List Node) : Builder :=
  { b with done := nodes.reverse ++ b.done }

def start (b : Builder) (name : String) (attributes : List (String × String)) : Builder where
  opened := ⟨name, attributes, b.done⟩ :: b.opened
  done := []

/-- Closes the innermost element if it has the given name. -/
def stop? (b : Builder) (name : String) : Option Builder :=
  match b.opened with
  | [] => none
  | o :: os =>
    if o.name = name then some ⟨os, .element o.name o.attributes b.done.reverse :: o.before⟩
    else none

end Builder

/-! ## Names and references -/

/-- Whether a name may hold a character. -/
def isNameChar (c : Char) : Bool :=
  !isSpace c && !(['=', '/', '<', '>', '"', '\'', '&', '!', '?'].contains c)

/-- The named references of a dialect. -/
def references : Dialect → List (String × Char)
  | .xml => [("amp", '&'), ("lt", '<'), ("gt", '>'), ("quot", '"'), ("apos", '\'')]
  | .html =>
    [("amp", '&'), ("lt", '<'), ("gt", '>'), ("quot", '"'), ("apos", '\''), ("#39", '\''),
      ("larr", '←'), ("rarr", '→')]

/-- What a reference stands for, by its name in reverse. -/
def reference? (d : Dialect) (written : List Char) : Option Char :=
  (references d).lookup (String.ofList written.reverse)

/-- The elements of pages that have no end tag. -/
def voidElements : List String :=
  ["area", "base", "br", "col", "embed", "hr", "img", "input", "link", "meta", "source",
    "track", "wbr"]

/-! ## States -/

/-- A tag that is being read. -/
structure Tag where
  name : String
  /-- The attributes in order. -/
  attributes : List (String × String)

def Tag.add (t : Tag) (name value : String) : Tag :=
  { t with attributes := t.attributes ++ [(name, value)] }

/-- Where the reader is. What it has read of a word is held in reverse. -/
inductive Mode
  /-- Between tags. -/
  | content
  | reference (written : List Char)
  /-- Behind the bracket that opens a tag. -/
  | bracket
  /-- In a declaration or an instruction. -/
  | declaration
  | stopName (written : List Char)
  | startName (written : List Char)
  /-- In white space before an attribute. -/
  | gap (tag : Tag)
  | attributeName (tag : Tag) (written : List Char)
  /-- Behind the equals sign of an attribute. -/
  | equals (tag : Tag) (name : String)
  | value (tag : Tag) (name : String) (read : List Char)
  | valueReference (tag : Tag) (name : String) (read written : List Char)
  /-- Behind an attribute. -/
  | attributeEnd (tag : Tag)
  /-- Behind the slash of a tag without content. -/
  | slash (tag : Tag)
  /-- In the text of a script. -/
  | script (read : List Char)

/-- What has been read. -/
structure State where
  mode : Mode
  builder : Builder

/-! ## Steps -/

/-- The end of a start tag. -/
def startTag (d : Dialect) (b : Builder) (t : Tag) : State :=
  if d = .html ∧ t.name ∈ voidElements then
    ⟨.content, b.push [.element t.name t.attributes []]⟩
  else
    ⟨if d = .html ∧ t.name = "script" then .script [] else .content,
      b.start t.name t.attributes⟩

/-- A character that ends a name or a value in a tag. -/
def delimiter (d : Dialect) (b : Builder) (t : Tag) (c : Char) : Option State :=
  if isSpace c then some ⟨.gap t, b⟩
  else if c = '/' then some ⟨.slash t, b⟩
  else if c = '>' then some (startTag d b t)
  else none

/-- The end of a script, in reverse and without its last character. -/
def scriptEnd : List Char := "</script".toList.reverse

def scriptStep (b : Builder) (read : List Char) : State :=
  if scriptEnd.isPrefixOf (read.map Text.lowerChar) then
    ⟨.stopName (read.take 6), b.push ((read.drop scriptEnd.length).reverse.map .character)⟩
  else ⟨.script read, b⟩

def step (d : Dialect) (s : State) (c : Char) : Option State :=
  match s.mode with
  | .content =>
    if c = '<' then some ⟨.bracket, s.builder⟩
    else if c = '&' then some ⟨.reference [], s.builder⟩
    else some ⟨.content, s.builder.push [.character c]⟩
  | .reference written =>
    if c = ';' then
      (reference? d written).map fun x => ⟨.content, s.builder.push [.character x]⟩
    else some ⟨.reference (c :: written), s.builder⟩
  | .bracket =>
    if c = '/' then some ⟨.stopName [], s.builder⟩
    else if c = '!' ∨ c = '?' then some ⟨.declaration, s.builder⟩
    else if isNameChar c then some ⟨.startName [c], s.builder⟩
    else none
  | .declaration =>
    if c = '>' then some ⟨.content, s.builder⟩
    else if c = '<' then none
    else some s
  | .stopName written =>
    if c = '>' then
      (s.builder.stop? (String.ofList written.reverse)).map fun b => ⟨.content, b⟩
    else if isNameChar c then some ⟨.stopName (c :: written), s.builder⟩
    else none
  | .startName written =>
    if isNameChar c then some ⟨.startName (c :: written), s.builder⟩
    else delimiter d s.builder ⟨String.ofList written.reverse, []⟩ c
  | .gap t =>
    if isNameChar c then some ⟨.attributeName t [c], s.builder⟩
    else delimiter d s.builder t c
  | .attributeName t written =>
    let name := String.ofList written.reverse
    if isNameChar c then some ⟨.attributeName t (c :: written), s.builder⟩
    else if c = '=' then some ⟨.equals t name, s.builder⟩
    else if d = .html then delimiter d s.builder (t.add name "") c
    else none
  | .equals t name => if c = '"' then some ⟨.value t name [], s.builder⟩ else none
  | .value t name read =>
    if c = '"' then some ⟨.attributeEnd (t.add name (String.ofList read.reverse)), s.builder⟩
    else if c = '&' then some ⟨.valueReference t name read [], s.builder⟩
    else if c = '<' then none
    else some ⟨.value t name (c :: read), s.builder⟩
  | .valueReference t name read written =>
    if c = ';' then
      (reference? d written).map fun x => ⟨.value t name (x :: read), s.builder⟩
    else some ⟨.valueReference t name read (c :: written), s.builder⟩
  | .attributeEnd t => delimiter d s.builder t c
  | .slash t =>
    if c = '>' then some ⟨.content, s.builder.push [.element t.name t.attributes []]⟩ else none
  | .script read => some (scriptStep s.builder (c :: read))

def read (d : Dialect) (cs : List Char) (s : State) : Option State :=
  cs.foldlM (step d) s

/-- Before the first character. -/
def initial : State := ⟨.content, ⟨[], []⟩⟩

/-- What a document holds, in which all elements must be closed. -/
def nodes? (d : Dialect) (s : String) : Option (List Node) :=
  match read d s.toList initial with
  | some ⟨.content, ⟨[], done⟩⟩ => some done.reverse
  | _ => none

end Reader

namespace Node

/-! ## Views -/

def isElement : Node → Bool
  | element _ _ _ => true
  | character _ => false

def isSpace : Node → Bool
  | character c => Markup.isSpace c
  | element _ _ _ => false

def ofText (s : String) : List Node := s.toList.map character

/-- The character that a node is. -/
def character? : Node → Option Char
  | character c => some c
  | element _ _ _ => none

def text (nodes : List Node) : String :=
  String.ofList (nodes.filterMap character?)

end Node

/-- The element that a document consists of, apart from white space around it. -/
def root? (d : Dialect) (s : String) : Option Node := do
  let nodes ← Reader.nodes? d s
  if nodes.all fun n => n.isElement || n.isSpace then
    match nodes.filter Node.isElement with
    | [n] => some n
    | _ => none
  else none

end Courseware.Markup
