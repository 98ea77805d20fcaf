import Courseware.Json.Basic
import Courseware.Decimal.Shortest

/-!
Writing JSON, on one line or indented by two spaces a level. In a string the quote, the backslash and
the control characters below U+0020 are escaped and all else is written as it is.
-/

namespace Courseware.Json

/-- The lower-case hexadecimal digit of a number below sixteen. -/
def lowerHexDigit (n : Nat) : Char :=
  if n < 10 then Char.ofNat (48 + n) else Char.ofNat (87 + n)

/-- A character inside a string. -/
def escapeChar (c : Char) : List Char :=
  if c = '"' then ['\\', '"']
  else if c = '\\' then ['\\', '\\']
  else if c = '\n' then ['\\', 'n']
  else if c = '\r' then ['\\', 'r']
  else if c = '\t' then ['\\', 't']
  else if c = '\x08' then ['\\', 'b']
  else if c = '\x0c' then ['\\', 'f']
  else if c.toNat < 32 then
    ['\\', 'u', '0', '0', lowerHexDigit (c.toNat / 16), lowerHexDigit (c.toNat % 16)]
  else [c]

/-- A text as a string literal. -/
def quote (s : String) : String :=
  String.ofList ('"' :: s.toList.flatMap escapeChar ++ ['"'])

def Number.text : Number → String
  | integer n => toString n
  | decimal x => Decimal.dataText x

mutual

/-- A value on one line without spaces. -/
def compact : Json → String
  | null => "null"
  | bool b => if b then "true" else "false"
  | number n => n.text
  | string s => quote s
  | array vs => "[" ++ compactItems vs ++ "]"
  | object ms => "\x7b" ++ compactMembers ms ++ "\x7d"

/-- Items with commas between them. -/
def compactItems : List Json → String
  | [] => ""
  | [v] => v.compact
  | v :: vs => v.compact ++ "," ++ compactItems vs

/-- Members with commas between them. -/
def compactMembers : List (String × Json) → String
  | [] => ""
  | [m] => quote m.1 ++ ":" ++ m.2.compact
  | m :: ms => quote m.1 ++ ":" ++ m.2.compact ++ "," ++ compactMembers ms

end

/-- The start of a line at the given level. -/
def newline (level : Nat) : String :=
  String.ofList ('\n' :: List.replicate (2 * level) ' ')

mutual

/-- A value over several lines, whose first line stands at the given level. Empty arrays and objects
stay on one line. -/
def prettyAt (level : Nat) : Json → String
  | null => "null"
  | bool b => if b then "true" else "false"
  | number n => n.text
  | string s => quote s
  | array vs =>
    if vs.isEmpty then "[]"
    else "[" ++ prettyItems (level + 1) vs ++ newline level ++ "]"
  | object ms =>
    if ms.isEmpty then "\x7b\x7d"
    else "\x7b" ++ prettyMembers (level + 1) ms ++ newline level ++ "\x7d"

/-- Items, each on a line of its own. -/
def prettyItems (level : Nat) : List Json → String
  | [] => ""
  | [v] => newline level ++ prettyAt level v
  | v :: vs => newline level ++ prettyAt level v ++ "," ++ prettyItems level vs

/-- Members, each on a line of its own. -/
def prettyMembers (level : Nat) : List (String × Json) → String
  | [] => ""
  | [m] => newline level ++ quote m.1 ++ ": " ++ prettyAt level m.2
  | m :: ms =>
    newline level ++ quote m.1 ++ ": " ++ prettyAt level m.2 ++ "," ++ prettyMembers level ms

end

/-- A value over several lines. -/
def pretty (v : Json) : String := prettyAt 0 v

end Courseware.Json
