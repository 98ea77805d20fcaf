import Courseware.Zip.Bits
import Courseware.Zip.Crc32
import Courseware.Zip.Name
import Courseware.Zip.Record

/-!
Entries. What a central header says of an entry is amended by the extra fields after its name: wide sizes
and offsets, names and comments in UTF-8, and the cipher of the data. Times are read for their form alone, and
a field that is not known is passed over. Every field must be there as long as it says.
-/

namespace Courseware.Zip

/-- An entry as a directory describes it. -/
structure Entry where
  header : Header
  /-- Where the local header stands. -/
  offset : Nat
  name : String
  /-- The name as it is written. -/
  writtenName : Bytes
  comment : String
  /-- Whether the data need the key of a cipher. -/
  enciphered : Bool
  deriving Repr

/-- The number of the method that stands for a cipher, the true method of which is in an extra field. -/
def cipherMethod : Nat := 99

/-- The vendor of the only cipher that is known. -/
def cipherVendor : Nat := 0x4541

/-- What all numbers of eight bytes are below. -/
def word64Limit : Nat := 18446744073709551616

/-- Passes over bytes. -/
def skip (length : Nat) : FieldReader Unit := do
  let _ ← block length
  return ()

/-- A name or a comment as text. -/
def writtenText (unicode : Bool) (bytes : Bytes) : String :=
  if unicode then lossyText bytes else codePageText bytes

namespace Entry

/-! ## Extra fields -/

/-- Reads a number of eight bytes in the place of one that is not given elsewhere. -/
def wideNumber (wide : Nat → Bool) (n : Nat) : FieldReader Nat :=
  if wide n then word64 else return n

/-- Applies wide sizes and a wide offset. A field that has room for all of them has all of them, and a
shorter one has those that did not fit into the header. -/
def applyWide (e : Entry) (length : Nat) : FieldReader Entry := do
  let wide (n : Nat) : Bool := 24 ≤ length || n == beyond32
  let given := 8 * [e.header.size, e.header.compressedSize, e.offset].countP wide
  if length < given then failure
  else
    let size ← wideNumber wide e.header.size
    let compressedSize ← wideNumber wide e.header.compressedSize
    let offset ← wideNumber wide e.offset
    skip (length - given)
    return { e with offset, header := { e.header with size, compressedSize } }

/-- Reads a text in UTF-8 that replaces one with a given form in bytes, of which it holds the checksum. -/
def unicodeText (replaced : Bytes) (length : Nat) : FieldReader (Bytes × String) := do
  let _ ← byte
  let crc ← word32
  if length < 5 then failure
  else
    let written ← block (length - 5)
    match Text.ofUtf8? written with
    | some s => if (crc32 replaced).toNat = crc then return (written, s) else failure
    | none => failure

def applyName (e : Entry) (length : Nat) : FieldReader Entry := do
  let (writtenName, name) ← unicodeText e.writtenName length
  return { e with writtenName, name }

def applyComment (e : Entry) (length : Nat) : FieldReader Entry := do
  let (_, comment) ← unicodeText (Text.utf8 e.comment) length
  return { e with comment }

/-- Applies the cipher of the data, which comes in two versions and three strengths. -/
def applyCipher (e : Entry) (length : Nat) : FieldReader Entry := do
  let version ← word16
  let vendor ← word16
  let strength ← byte
  let method ← word16
  if length = 7 ∧ vendor = cipherVendor ∧ [1, 2].contains version ∧ [1, 2, 3].contains strength then
    return { e with enciphered := true, header := { e.header with method } }
  else failure

/-- Reads times in seconds, each of four bytes and announced by one of eight flags. A field of five bytes holds
one time, whatever its flags say. -/
def secondTimes (length : Nat) : FieldReader Unit := do
  let flags ← byte
  if length = 5 ∨ length = 1 + 4 * (bitsOfNat 8 flags).count true then skip (length - 1)
  else failure

/-- Reads times in steps of a tenth of a microsecond, which stand in the only attribute that is known. -/
def tickTimes (length : Nat) : FieldReader Unit := do
  let _ ← word32
  let tag ← word16
  let size ← word16
  if length = 32 ∧ tag = 1 ∧ size = 24 then skip 24 else failure

/-- Applies the next extra field. -/
def applyField (e : Entry) : FieldReader Entry := do
  let kind ← word16
  let length ← word16
  match kind with
  | 0x0001 => e.applyWide length
  | 0x000A => do
    tickTimes length
    return e
  | 0x5455 => do
    secondTimes length
    return e
  | 0x6375 => e.applyComment length
  | 0x7075 => e.applyName length
  | 0x9901 => e.applyCipher length
  | _ => do
    skip length
    return e

/-- Applies all extra fields. A single byte after the last one is ignored. The fuel bounds their number. -/
def applyFields (e : Entry) (extra : Bytes) : (fuel : Nat) → Option Entry
  | 0 => some e
  | fuel + 1 =>
    if extra.length < 2 then some e
    else do
      let (e, rest) ← e.applyField extra
      e.applyFields rest fuel

/-! ## Central headers -/

/-- The entry of a central header without regard to its extra fields. -/
def plain (h : CentralHeader) : Entry :=
  let unicode := h.header.has unicodeFlag
  { header := h.header
    offset := h.offset
    name := writtenText unicode h.name
    writtenName := h.name
    comment := writtenText unicode h.comment
    enciphered := false }

/-- The entry of a central header, where all offsets are moved by `shift`. -/
def ofHeader? (shift : Nat) (h : CentralHeader) : Option Entry := do
  let e ← (plain h).applyFields h.extra h.extra.length
  if e.header.method = cipherMethod ∧ !e.enciphered then none
  else if word64Limit ≤ e.offset + shift then none
  else return { e with offset := e.offset + shift }

def isDirectory (e : Entry) : Bool :=
  match e.name.toList.getLast? with
  | some c => c == '/' || c == '\\'
  | none => false

/-- Whether the data cannot be read without a key. -/
def locked (e : Entry) : Bool := e.header.has encryptedFlag || e.enciphered

end Entry

end Courseware.Zip
