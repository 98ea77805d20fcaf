import Courseware.Failure
import Courseware.Markup.Piece

/-!
Reading XML. A document is read as events: texts, references and tags. Each end tag must name the
element that was opened last; elements that stay open at the end are tolerated. In a tag whose
attributes are malformed, those that can be understood count.
-/

namespace Courseware.Markup

/-- What a reader of a document is told. -/
inductive Event
  | text (written : String)
  /-- A reference, by its name. -/
  | reference (name : String)
  /-- A start tag, with the decoded values of its attributes. -/
  | start (name : String) (attributes : List (String × String))
  /-- A tag that opens and closes an element. -/
  | empty (name : String) (attributes : List (String × String))
  | stop (name : String)
  deriving DecidableEq, Repr

namespace Event

/-! ## Attributes -/

/-- Whether the name of an attribute ends before a character. -/
def endsName (c : Char) : Bool := c == '=' || isSpace c

/-- The attributes that can be understood in what is written in a tag after its name, in order; `seen` are the
names before. A name without a value is passed over. A value without quotes is passed over up to the next
white space, and so is what follows the name of an attribute that has stood before, even where the white space
is in quotes. The fuel bounds the number of attributes. -/
def writtenAttributes (seen : List (List Char)) :
    (fuel : Nat) → List Char → List (List Char × List Char)
  | 0, _ => []
  | fuel + 1, cs =>
    match cs.dropWhile isSpace with
    | [] => []
    | c :: rest =>
      let name := c :: rest.takeWhile fun d => !endsName d
      match (rest.dropWhile fun d => !endsName d).dropWhile isSpace with
      | '=' :: rest =>
        if seen.contains name then
          writtenAttributes seen fuel (rest.dropWhile fun d => !isSpace d)
        else
          let seen := name :: seen
          match rest.dropWhile isSpace with
          | [] => []
          | q :: rest =>
            if q = '"' || q = '\'' then
              let value := rest.takeWhile (· != q)
              if (rest.drop value.length).isEmpty then []
              else (name, value) :: writtenAttributes seen fuel (rest.drop (value.length + 1))
            else writtenAttributes seen fuel (rest.dropWhile fun d => !isSpace d)
      | rest => writtenAttributes seen fuel rest

/-- The attributes in what is written in a tag after its name, with their decoded values. -/
def attributesOf (cs : List Char) : List (String × String) :=
  (writtenAttributes [] cs.length cs).map fun a =>
    (String.ofList a.1, String.ofList (Text.Dialect.xml.unescapeList a.2))

/-! ## Tags -/

def tagName (content : List Char) : String :=
  String.ofList (content.takeWhile fun c => !isSpace c)

def tagAttributes (content : List Char) : List (String × String) :=
  attributesOf (content.dropWhile fun c => !isSpace c)

/-- The name in an end tag, which white space may follow. -/
def stopName (content : List Char) : String :=
  let name := (content.reverse.dropWhile isSpace).reverse
  String.ofList (if name.isEmpty then content else name)

/-- The event of a tag that does not start with a slash. -/
def ofTag (content : List Char) : Event :=
  match content.getLast? with
  | some '/' => empty (tagName content.dropLast) (tagAttributes content.dropLast)
  | _ => start (tagName content) (tagAttributes content)

/-! ## Documents -/

/-- The events of some pieces, where the elements `opened` are open, the last one first. -/
def ofPieces? (opened : List String) : List Piece → Option (List Event)
  | [] => some []
  | .text written :: rest => (ofPieces? opened rest).map (text (String.ofList written) :: ·)
  | .reference name :: rest => (ofPieces? opened rest).map (reference (String.ofList name) :: ·)
  | .other :: rest => ofPieces? opened rest
  | .tag ('/' :: content) :: rest =>
    match opened with
    | [] => none
    | name :: opened =>
      if stopName content = name then (ofPieces? opened rest).map (stop name :: ·) else none
  | .tag content :: rest =>
    match ofTag content with
    | start name attributes =>
      (ofPieces? (name :: opened) rest).map (start name attributes :: ·)
    | event => (ofPieces? opened rest).map (event :: ·)

def ofDocument (s : String) : Except Failure (List Event) :=
  match (Piece.all? s.toList).bind (ofPieces? []) with
  | some events => .ok events
  | none => .error (.xml "the document is malformed")

/-! ## Views -/

/-- The part of a name after its first colon; the whole name when it has none. -/
def localName (name : String) : String :=
  match name.toList.dropWhile (· != ':') with
  | [] => name
  | _ :: rest => String.ofList rest

/-- The name and the attributes of a tag that opens an element. -/
def opening? : Event → Option (String × List (String × String))
  | start name attributes => some (name, attributes)
  | empty name attributes => some (name, attributes)
  | _ => none

/-- The text that an event adds to the element it stands in. A reference that is not known adds itself. -/
def content : Event → String
  | text written => written
  | reference name => Text.Dialect.xml.unescape ("&" ++ name ++ ";")
  | _ => ""

end Event

end Courseware.Markup
