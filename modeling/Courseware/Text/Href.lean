import Courseware.Text.Blank
import Courseware.Text.Slug

/-!
Paths and links. An identifier becomes a single safe path segment by replacing every other character
than ASCII letters, digits, `-`, `_` and `.`. A relative path becomes a link by percent-encoding
the UTF-8 bytes of each of its segments.
-/

namespace Courseware.Text

/-- The characters that a path segment of an archive may hold. -/
def isSegmentChar (c : Char) : Bool :=
  isAlnum c || c == '-' || c == '_' || c == '.'

/-- An identifier reduced to one path segment. Nothing, and dots alone, become `_`, since they do
not name a file. -/
def pathSegment (id : String) : String :=
  let cs := id.toList.map fun c => if isSegmentChar c then c else '_'
  if cs.all (· == '.') then "_" else String.ofList cs

/-- The upper-case hexadecimal digit of a number below sixteen. -/
def upperHexDigit (n : Nat) : Char :=
  if n < 10 then Char.ofNat (48 + n) else Char.ofNat (55 + n)

/-- The characters that a link may hold unencoded. -/
def isUnreserved (c : Char) : Bool :=
  isAlnum c || c == '-' || c == '_' || c == '.' || c == '~'

/-- A byte as `%` and two upper-case hexadecimal digits. -/
def percentByte (b : UInt8) : List Char :=
  ['%', upperHexDigit (b.toNat / 16), upperHexDigit (b.toNat % 16)]

/-- A character of a link: the slash separates segments and stays, an unreserved character stays,
and any other is written byte by byte. -/
def percentChar (c : Char) : List Char :=
  if c == '/' || isUnreserved c then [c]
  else (String.utf8EncodeChar c).flatMap percentByte

/-- A relative path as a link. -/
def encodeHref (path : String) : String :=
  String.ofList (path.toList.flatMap percentChar)

/-- How a link that leaves the package starts, in lower case. -/
def externalStarts : List String :=
  ["http://", "https://", "//", "data:", "mailto:"]

/-- Whether a link points outside the package. -/
def isExternal (url : String) : Bool :=
  let cs := (url.toList.dropWhile isBlank).map lowerChar
  externalStarts.any fun start => start.toList.isPrefixOf cs

end Courseware.Text
