import Courseware.Text.Utf8

/-!
The names of archive entries: UTF-8 in which what is malformed is replaced, or the 256 characters of
code page 437.
-/

namespace Courseware.Zip

/-- The upper half of code page 437. -/
def upperHalf : List Char :=
  ("ÇüéâäàåçêëèïîìÄÅÉæÆôöòûùÿÖÜ¢£¥₧ƒáíóúñÑªº¿⌐¬½¼¡«»░▒▓│┤╡╢╖╕╣║╗╝╜╛┐└┴┬├─┼╞╟╚╔╩╦╠═╬╧╨╤╥╙╘╒╓╫╪┘┌█▄▌▐▀" ++
    "αßΓπΣσµτΦΘΩδ∞φε∩≡±≥≤⌠⌡÷≈°∙·√ⁿ²■\u00a0").toList

def codePageChar (b : UInt8) : Char :=
  if b.toNat < 128 then Char.ofNat b.toNat else upperHalf.getD (b.toNat - 128) '?'

def codePageText (bytes : Bytes) : String :=
  String.ofList (bytes.map codePageChar)

/-- What is put in the place of malformed bytes. -/
def replacement : Char := '\ufffd'

/-- Whether a byte continues a character. -/
def isContinuation (b : UInt8) : Bool := 0x80 ≤ b && b ≤ 0xBF

/-- The number of bytes that follow a leading byte and the range of the first of them; none if no
character starts with the byte. -/
def following? (b : UInt8) : Option (Nat × UInt8 × UInt8) :=
  if b < 0x80 then some (0, 0, 0)
  else if b < 0xC2 then none
  else if b < 0xE0 then some (1, 0x80, 0xBF)
  else if b = 0xE0 then some (2, 0xA0, 0xBF)
  else if b = 0xED then some (2, 0x80, 0x9F)
  else if b < 0xF0 then some (2, 0x80, 0xBF)
  else if b = 0xF0 then some (3, 0x90, 0xBF)
  else if b < 0xF4 then some (3, 0x80, 0xBF)
  else if b = 0xF4 then some (3, 0x80, 0x8F)
  else none

/-- The bits of a leading byte that belong to its character. -/
def leadingBits (b : UInt8) (count : Nat) : Nat :=
  match count with
  | 0 => b.toNat
  | 1 => b.toNat % 32
  | 2 => b.toNat % 16
  | _ => b.toNat % 8

/-- The first bytes that continue a character, at most `count` of which the first lies in a range. -/
def continuation (low high : UInt8) : (count : Nat) → Bytes → Bytes
  | count + 1, b :: bs =>
    if low ≤ b && b ≤ high then b :: continuation 0x80 0xBF count bs else []
  | _, _ => []

/-- A name in UTF-8, after skipping its first `skip` bytes. Each longest start of a character that is
broken off, and each byte that starts none, is replaced. -/
def lossyChars : (skip : Nat) → Bytes → List Char
  | _, [] => []
  | skip + 1, _ :: bs => lossyChars skip bs
  | 0, b :: bs =>
    match following? b with
    | none => replacement :: lossyChars 0 bs
    | some (count, low, high) =>
      let more := continuation low high count bs
      if more.length = count then
        Char.ofNat (more.foldl (fun n c => n * 64 + c.toNat % 64) (leadingBits b count)) ::
          lossyChars count bs
      else replacement :: lossyChars more.length bs

/-- A name in UTF-8. -/
def lossyText (bytes : Bytes) : String :=
  String.ofList (lossyChars 0 bytes)

end Courseware.Zip
