/-!
Slugs: the part of a file name that is made from a title. A slug keeps the ASCII letters and digits
of the title in lower case and puts one hyphen wherever anything else separated two of them.
-/

namespace Courseware.Text

/-- The ASCII letters and digits. -/
def isAlnum (c : Char) : Bool :=
  ('a' ≤ c && c ≤ 'z') || ('A' ≤ c && c ≤ 'Z') || ('0' ≤ c && c ≤ '9')

/-- The lower-case form of an ASCII capital; other characters stay as they are. -/
def lowerChar (c : Char) : Char :=
  if 'A' ≤ c && c ≤ 'Z' then Char.ofNat (c.toNat + 32) else c

/-- A text with its ASCII capitals in lower case. -/
def lower (s : String) : String :=
  String.ofList (s.toList.map lowerChar)

/-- The most characters that a slug has. -/
def slugLimit : Nat := 50

/-- The uncut slug of a character list. The flag `started` tells that a character has been kept and
`pending` that something has been skipped since the last one. -/
def slugChars : (started pending : Bool) → List Char → List Char
  | _, _, [] => []
  | started, pending, c :: cs =>
    if isAlnum c then
      (if started && pending then ['-', lowerChar c] else [lowerChar c]) ++
        slugChars true false cs
    else slugChars started true cs

/-- The slug of a title, cut at `slugLimit` characters. -/
def slug (title : String) : String :=
  String.ofList ((slugChars false false title.toList).take slugLimit)

end Courseware.Text
