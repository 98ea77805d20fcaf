import Courseware.Json.Decoder
import Courseware.Json.Printer
import Courseware.Text.Slug
import Courseware.Text.Blank

/-!
Content blocks. A block arrives as a type tag and a loose payload and is understood once: fields may
go by several names, a missing text is empty, what should be a list and is not has no items, and a tag
that is not known is kept together with its payload.
-/

namespace Courseware

/-- A titled panel of an accordion or a set of tabs. -/
structure Section where
  title : String
  content : String
  deriving Repr

/-- A possible answer of a multiple-choice question. -/
structure Choice where
  text : String
  correct : Bool
  deriving DecidableEq, Repr

/-- A question with given answers. -/
structure MultipleChoice where
  question : String
  choices : List Choice
  explanation : Option String
  allowMultiple : Bool
  deriving Repr

/-- A question whose answer is typed. -/
structure FillInBlank where
  prompt : String
  answers : List String
  caseSensitive : Bool
  explanation : Option String
  deriving Repr

/-- A JSON object as a payload, its members in the order of their names. -/
abbrev Payload := List (String × Json)

/-- What a block shows. -/
inductive Content
  | paragraph (text : String)
  | heading (level : Nat) (text : String)
  | image (src alt : String) (caption : Option String)
  | video (src : String) (title caption poster : Option String)
  | quote (text : String) (citation : Option String)
  | list (ordered : Bool) (items : List String)
  | divider
  | accordion (sections : List Section)
  | tabs (tabs : List Section)
  | multipleChoice (question : MultipleChoice)
  | fillInBlank (question : FillInBlank)
  /-- A tag without a known meaning. -/
  | unknown (tag : String) (payload : Payload)
  deriving Repr

/-- A block of a lesson. -/
structure Block where
  id : String
  /-- Blocks are shown in this order. -/
  order : Int
  content : Content
  deriving Repr

/-! ## Fields of a payload -/

namespace Payload

/-- A value as text: what has no text of its own is empty. -/
def textOf : Json → String
  | .string s => s
  | .number n => n.text
  | .bool b => if b then "true" else "false"
  | _ => ""

/-- The values that stand under the given names, in the order of the names. -/
def values (p : Payload) (names : List String) : List Json :=
  names.filterMap fun name => findEntry name p

/-- The first text under the given names that is not empty. -/
def text? (p : Payload) (names : List String) : Option String :=
  ((p.values names).map textOf).find? fun s => !s.isEmpty

/-- The first text under the given names, or the empty one. -/
def text (p : Payload) (names : List String) : String :=
  (p.text? names).getD ""

/-- Whether a value says yes. -/
def affirms : Json → Bool
  | .bool b => b
  | .string s => s == "true"
  | _ => false

/-- Whether a value under one of the given names says yes. -/
def flag (p : Payload) (names : List String) : Bool :=
  (p.values names).any affirms

def items? : Json → Option (List Json)
  | .array vs => some vs
  | _ => none

/-- The items of the first array under the given names. -/
def list (p : Payload) (names : List String) : List Json :=
  ((p.values names).findSome? items?).getD []

/-- A payload as it arrives: a text stands for an object with the member `text`, and what is no object
has no members. -/
def ofJson : Json → Payload
  | .object ms => ms
  | .string s => [("text", .string s)]
  | _ => []

end Payload

/-! ## Tags -/

/-- Writes a tag in lower case with hyphens, where `first` tells that no character stands before and
`hyphen` that the last one written is a hyphen. -/
def plainTagFrom : (first hyphen : Bool) → List Char → List Char
  | _, _, [] => []
  | first, hyphen, c :: cs =>
    if c = '_' ∨ c = ' ' then '-' :: plainTagFrom false true cs
    else if 'A' ≤ c ∧ c ≤ 'Z' then
      (if first || hyphen then [Text.lowerChar c] else ['-', Text.lowerChar c]) ++
        plainTagFrom false false cs
    else c :: plainTagFrom false (c == '-') cs

/-- A tag in lower case, with hyphens for `_` and spaces and before capitals inside. -/
def plainTag (tag : String) : String :=
  String.ofList (plainTagFrom true false (Text.trimList Text.isBlank tag.toList))

/-! ## Kinds of content -/

/-- The decimal digits of a number that fits 64 bits, with an optional plus sign. -/
def naturalOfText? (cs : List Char) : Option Nat :=
  let digits := match cs with
    | '+' :: ds => ds
    | ds => ds
  if digits.isEmpty || !digits.all Json.isDigit then none
  else
    let n := Json.digitsValue digits
    if n < Json.wholeLimit then some n else none

/-- The level of a heading, from one to six: a number, or text such as `h3`; two if it is neither. -/
def headingLevel (p : Payload) : Nat :=
  let level :=
    match findEntry "level" p with
    | some (.number n) => ((Json.number n).nat?).getD 2
    | some (.string s) => (naturalOfText? (s.toList.dropWhile fun c => c = 'h' || c = 'H')).getD 2
    | _ => 2
  max 1 (min level 6)

/-- An item of a list as text. -/
def listItem : Json → String
  | .object ms => Payload.text ms ["text", "content"]
  | v => Payload.textOf v

/-- The panels among some values. -/
def sectionsOf (values : List Json) : List Section :=
  values.filterMap fun
    | .object ms =>
      some ⟨Payload.text ms ["title", "label", "heading"],
        Payload.text ms ["content", "text", "body"]⟩
    | _ => none

/-- A choice as it is given, with its own mark. -/
def Choice.ofJson : Json → Choice
  | .object ms =>
    ⟨Payload.text ms ["text", "label", "content"], Payload.flag ms ["correct", "isCorrect"]⟩
  | v => ⟨Payload.textOf v, false⟩

/-- The positions that a value names: a whole number or several of them. -/
def positions : Json → List Nat
  | .array vs => vs.filterMap Json.nat?
  | v => v.nat?.toList

/-- Understands a multiple-choice question. A choice is correct by its own mark or because its
position is named. -/
def MultipleChoice.ofPayload (p : Payload) : MultipleChoice :=
  let named := (p.values ["correctAnswer", "correctIndex", "correctAnswers"]).flatMap positions
  let choices := (p.list ["options", "choices", "answers"]).mapIdx fun i v =>
    let c := Choice.ofJson v
    { c with correct := c.correct || named.contains i }
  { question := p.text ["question", "text", "prompt"]
    choices
    explanation := p.text? ["explanation", "feedback"]
    allowMultiple :=
      p.flag ["allowMultiple", "multiple"] || decide (1 < choices.countP (·.correct)) }

/-- Understands a question whose answer is typed. -/
def FillInBlank.ofPayload (p : Payload) : FillInBlank :=
  let listed := ((p.list ["answers", "correctAnswers", "blanks"]).map Payload.textOf).filter
    fun s => !s.isEmpty
  { prompt := p.text ["question", "text", "prompt", "sentence"]
    answers :=
      if listed.isEmpty then (p.text? ["answer", "correctAnswer"]).toList else listed
    caseSensitive := p.flag ["caseSensitive"]
    explanation := p.text? ["explanation", "feedback"] }

namespace Content

/-- Understands a payload by its tag. -/
def ofPayload (tag : String) (p : Payload) : Content :=
  match plainTag tag with
  | "paragraph" | "text" => paragraph (p.text ["text", "content", "html"])
  | "heading" | "title" => heading (headingLevel p) (p.text ["text", "content", "title"])
  | "image" =>
    image (p.text ["src", "url"]) (p.text ["alt", "altText", "caption"]) (p.text? ["caption"])
  | "video" =>
    video (p.text ["src", "url"]) (p.text? ["title"]) (p.text? ["caption"])
      (p.text? ["poster", "thumbnail"])
  | "quote" | "blockquote" =>
    quote (p.text ["text", "quote", "content"]) (p.text? ["author", "citation", "source"])
  | "list" | "bullet-list" | "numbered-list" =>
    list
      (plainTag tag == "numbered-list" || p.flag ["ordered", "numbered"] ||
        p.text ["style", "listType"] == "ordered")
      ((p.list ["items"]).map listItem)
  | "divider" | "separator" => divider
  | "accordion" => accordion (sectionsOf (p.list ["sections", "items", "panels"]))
  | "tabs" => tabs (sectionsOf (p.list ["tabs", "items"]))
  | "multiple-choice-question" | "multiple-choice" | "mcq" => multipleChoice (.ofPayload p)
  | "fill-in-blank-question" | "fill-in-blank" | "fill-in-the-blank" => fillInBlank (.ofPayload p)
  | _ => unknown tag p

/-- The canonical tag of the content; an unknown tag is its own. -/
def tag : Content → String
  | paragraph _ => "paragraph"
  | heading _ _ => "heading"
  | image _ _ _ => "image"
  | video _ _ _ _ => "video"
  | quote _ _ => "quote"
  | list _ _ => "list"
  | divider => "divider"
  | accordion _ => "accordion"
  | tabs _ => "tabs"
  | multipleChoice _ => "multiple-choice-question"
  | fillInBlank _ => "fill-in-blank-question"
  | unknown tag _ => tag

/-- Whether the content records answers. -/
def interactive : Content → Bool
  | multipleChoice _ => true
  | fillInBlank _ => true
  | _ => false

/-- The tag of content without a known meaning. -/
def unknownTag? : Content → Option String
  | unknown tag _ => some tag
  | _ => none

end Content

namespace Block

/-- A block from its tag and its payload as they arrive. -/
def ofParts (id : String) (order : Int) (tag : String) (payload : Json) : Block :=
  ⟨id, order, .ofPayload tag (.ofJson payload)⟩

/-- A block with a paragraph. -/
def paragraph (id : String) (order : Int) (text : String) : Block :=
  ⟨id, order, .paragraph text⟩

/-- A block with a heading, whose level is brought between one and six. -/
def heading (id : String) (order : Int) (level : Nat) (text : String) : Block :=
  ⟨id, order, .heading (max 1 (min level 6)) text⟩

/-- The canonical tag of the block. -/
def tag (b : Block) : String := b.content.tag

end Block

/-- A block as it arrives. -/
structure Block.Source where
  id : String := ""
  tag : String := ""
  order : Int := 0
  content : Json := .null

open Json in
def Block.Source.decoder : Decoder Block.Source :=
  .record {} [
    .of "id" .text fun s t => { s with id := t },
    .of "type" .text fun s t => { s with tag := t },
    .of "order" .signed fun s n => { s with order := n },
    .of "content" .value fun s v => { s with content := v }]

open Json in
def Block.decoder : Decoder Block := fun room d => do
  let s ← Block.Source.decoder room d
  return .ofParts s.id s.order s.tag s.content

end Courseware
