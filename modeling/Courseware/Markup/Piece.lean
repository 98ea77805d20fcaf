import Courseware.Markup.Token
import Courseware.Text.Blank
import Courseware.Text.Slug

/-!
The pieces of an XML document: texts, references and tags as they are written. Comments, character data,
instructions and the document type are passed over as one piece each. A text is read without the white space
at its ends.
-/

namespace Courseware.Markup

/-- The characters that separate the parts of a tag. -/
def isSpace (c : Char) : Bool :=
  c == ' ' || c == '\t' || c == '\r' || c == '\n'

/-- A piece of a document. -/
inductive Piece
  /-- A text without references. -/
  | text (written : List Char)
  /-- A reference, by what stands between the ampersand and the semicolon. -/
  | reference (name : List Char)
  /-- A tag, by what stands between the angle brackets. -/
  | tag (content : List Char)
  /-- A piece that holds neither text nor tags. -/
  | other
  deriving DecidableEq, Repr

namespace Piece

def endsText (c : Char) : Bool := c == '<' || c == '&'

/-- The number of characters before the first place where a pattern stands. -/
def distance? (pattern : List Char) : List Char → Option Nat
  | [] => if pattern.isEmpty then some 0 else none
  | c :: cs =>
    if pattern.isPrefixOf (c :: cs) then some 0 else (distance? pattern cs).map (· + 1)

/-- The length of a piece that ends with the first `stop` after `start`, both included. -/
def span? (start stop cs : List Char) : Option Nat :=
  if start.isPrefixOf cs then
    (distance? stop (cs.drop start.length)).map (start.length + · + stop.length)
  else none

/-- The number of characters before the first `>` outside quotes, where `quote` is the quote that is
open. -/
def tagLength? (quote : Option Char) : List Char → Option Nat
  | [] => none
  | c :: cs =>
    match quote with
    | some q => (tagLength? (if c = q then none else some q) cs).map (· + 1)
    | none =>
      if c = '>' then some 0
      else (tagLength? (if c = '\'' || c = '"' then some c else none) cs).map (· + 1)

/-! ## The document type -/

/-- Where a reader is in a document type. -/
inductive DoctypeState
  /-- Before the declarations in brackets. -/
  | before
  /-- Among the declarations. -/
  | inside
  /-- After the declarations. -/
  | after
  /-- In a declaration, which may hold quoted texts or not. -/
  | declaration (quotes : Bool)
  /-- In quotes, after which the reader is in another state. -/
  | quoted (quote : Char) (next : DoctypeState)
  /-- In a comment or an instruction, which ends with the given characters. -/
  | skipped (stop : List Char)
  deriving Repr

/-- What the declarations start with in which quoted texts may stand: of entities, of attributes and of
notations. -/
def quotingStarts : List (List Char) :=
  ["<!ENTITY".toList, "<!ATTLIST".toList, "<!NOTATION".toList]

/-- The number of characters before the `>` that ends a document type, where the first `skip` characters
have been dealt with. -/
def doctypeLength? : (skip : Nat) → DoctypeState → List Char → Option Nat
  | _, _, [] => none
  | skip + 1, state, _ :: cs => (doctypeLength? skip state cs).map (· + 1)
  | 0, .before, c :: cs =>
    if c = '>' then some 0
    else if c = '[' then (doctypeLength? 0 .inside cs).map (· + 1)
    else if c = '\'' || c = '"' then (doctypeLength? 0 (.quoted c .before) cs).map (· + 1)
    else (doctypeLength? 0 .before cs).map (· + 1)
  | 0, .inside, c :: cs =>
    if c = ']' then (doctypeLength? 0 .after cs).map (· + 1)
    else if "<!--".toList.isPrefixOf (c :: cs) then
      (doctypeLength? 3 (.skipped "-->".toList) cs).map (· + 1)
    else if "<?".toList.isPrefixOf (c :: cs) then
      (doctypeLength? 1 (.skipped "?>".toList) cs).map (· + 1)
    else if c = '<' then
      let quotes := quotingStarts.any fun start => start.isPrefixOf (c :: cs)
      (doctypeLength? 0 (.declaration quotes) cs).map (· + 1)
    else (doctypeLength? 0 .inside cs).map (· + 1)
  | 0, .after, c :: cs =>
    if c = '>' then some 0 else (doctypeLength? 0 .after cs).map (· + 1)
  | 0, .declaration quotes, c :: cs =>
    if c = '>' then (doctypeLength? 0 .inside cs).map (· + 1)
    else if quotes && (c = '\'' || c = '"') then
      (doctypeLength? 0 (.quoted c (.declaration quotes)) cs).map (· + 1)
    else (doctypeLength? 0 (.declaration quotes) cs).map (· + 1)
  | 0, .quoted q next, c :: cs =>
    (doctypeLength? 0 (if c = q then next else .quoted q next) cs).map (· + 1)
  | 0, .skipped stop, c :: cs =>
    if stop.isPrefixOf (c :: cs) then (doctypeLength? (stop.length - 1) .inside cs).map (· + 1)
    else (doctypeLength? 0 (.skipped stop) cs).map (· + 1)

/-- What a document type starts with, in lower case. -/
def doctypeStart : List Char := "<!doctype".toList

/-- The length of a document type, which must say something about the document. -/
def doctype? (cs : List Char) : Option Nat :=
  if (cs.take doctypeStart.length).map Text.lowerChar = doctypeStart then do
    let rest := cs.drop doctypeStart.length
    let length ← doctypeLength? 0 .before rest
    if (rest.take length).all isSpace then none
    else some (doctypeStart.length + length + 1)
  else none

/-! ## Pieces -/

/-- The piece that starts at an angle bracket, and its length. -/
def markup? (cs : List Char) : Option (Piece × Nat) :=
  match cs with
  | '<' :: '!' :: '-' :: _ => (span? "<!--".toList "-->".toList cs).map (.other, ·)
  | '<' :: '!' :: '[' :: _ => (span? "<![CDATA[".toList "]]>".toList cs).map (.other, ·)
  | '<' :: '!' :: _ => (doctype? cs).map (.other, ·)
  | '<' :: '?' :: '>' :: _ => none
  | '<' :: '?' :: _ => (span? "<?".toList "?>".toList cs).map (.other, ·)
  | _ :: rest => (tagLength? none rest).map fun n => (.tag (rest.take n), n + 2)
  | [] => none

/-- The reference that starts at an ampersand, and its length. -/
def reference? (cs : List Char) : Option (Piece × Nat) :=
  let name := (cs.drop 1).takeWhile fun c => c != ';' && !endsText c
  if (cs.drop (name.length + 1)).head? = some ';' then
    some (.reference name, name.length + 2)
  else none

/-- The first piece of a text that is not empty, and the number of characters that it takes. -/
def first? (cs : List Char) : Option (Piece × Nat) :=
  match cs.head? with
  | some '<' => markup? cs
  | some '&' => reference? cs
  | _ =>
    let written := cs.takeWhile fun c => !endsText c
    some (.text (Text.trimList isSpace written), written.length)

/-- The pieces of a text whose first `skip` characters have been read. -/
def allFrom : (skip : Nat) → List Char → Option (List Piece)
  | _, [] => some []
  | skip + 1, _ :: cs => allFrom skip cs
  | 0, c :: cs => do
    let (piece, length) ← first? (c :: cs)
    let pieces ← allFrom (length - 1) cs
    return piece :: pieces

/-- The mark that a document may start with. -/
def byteOrderMark : Char := '\ufeff'

/-- The pieces of a document, unless it is malformed. -/
def all? : List Char → Option (List Piece)
  | [] => some []
  | c :: cs => if c = byteOrderMark then allFrom 0 cs else allFrom 0 (c :: cs)

end Piece

end Courseware.Markup
