/-!
Character entities. HTML pages and XML documents escape the same five characters and differ only in
the apostrophe. Decoding makes one pass from left to right, so what a decoded entity spells is not
decoded again, and an ampersand that starts no known entity stands for itself.
-/

namespace Courseware.Text

/-- The two dialects of markup that text is escaped for. -/
inductive Dialect
  | html
  | xml
  deriving DecidableEq, Repr

namespace Dialect

/-- The entity that spells a character, for the five characters that are never written as such. -/
def entity? (d : Dialect) : Char → Option String
  | '&' => some "&amp;"
  | '<' => some "&lt;"
  | '>' => some "&gt;"
  | '"' => some "&quot;"
  | '\'' => some (match d with | html => "&#39;" | xml => "&apos;")
  | _ => none

/-- The entities that decoding knows, in the order in which they are tried. -/
def entities : Dialect → List (List Char × Char)
  | html =>
    [("&amp;".toList, '&'), ("&lt;".toList, '<'), ("&gt;".toList, '>'),
      ("&quot;".toList, '"'), ("&#39;".toList, '\''), ("&#x27;".toList, '\''),
      ("&apos;".toList, '\'')]
  | xml =>
    [("&amp;".toList, '&'), ("&lt;".toList, '<'), ("&gt;".toList, '>'),
      ("&quot;".toList, '"'), ("&apos;".toList, '\'')]

/-- One character as it is written in this dialect. -/
def escapeChar (d : Dialect) (c : Char) : List Char :=
  match d.entity? c with
  | some e => e.toList
  | none => [c]

def escapeList (d : Dialect) (cs : List Char) : List Char :=
  cs.flatMap d.escapeChar

/-- What starts at an ampersand: the character that a known entity spells and the number of
characters of the entity after the ampersand. -/
def lookup (table : List (List Char × Char)) (cs : List Char) : Option (Char × Nat) :=
  (table.find? fun e => e.1.isPrefixOf cs).map fun e => (e.2, e.1.length - 1)

/-- Decodes a list after skipping its first `skip` characters, which belong to an entity that has
been decoded. -/
def unescapeFrom (table : List (List Char × Char)) : Nat → List Char → List Char
  | _, [] => []
  | skip + 1, _ :: cs => unescapeFrom table skip cs
  | 0, c :: cs =>
    if c == '&' then
      match lookup table (c :: cs) with
      | some (d, n) => d :: unescapeFrom table n cs
      | none => c :: unescapeFrom table 0 cs
    else c :: unescapeFrom table 0 cs

/-- A character list with the entities of this dialect decoded. -/
def unescapeList (d : Dialect) (cs : List Char) : List Char :=
  unescapeFrom d.entities 0 cs

/-- A text as it is written in this dialect, between tags or inside a quoted attribute value. -/
def escape (d : Dialect) (s : String) : String :=
  String.ofList (d.escapeList s.toList)

/-- A text with the entities of this dialect decoded. -/
def unescape (d : Dialect) (s : String) : String :=
  String.ofList (d.unescapeList s.toList)

end Dialect

end Courseware.Text
