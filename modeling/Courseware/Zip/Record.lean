import Courseware.Zip.DosTime
import Courseware.Zip.Field

/-!
The records of an archive. Each entry has a local header in front of its data and a central one in the
directory after all data; an end record says where the directory is. Where its numbers are too narrow, it is
preceded by a wide end record and a locator of that.
-/

namespace Courseware.Zip

/-- What the local and the central header of an entry both say. -/
structure Header where
  versionNeeded : Nat
  flags : Nat
  method : Nat
  timeField : Nat
  dateField : Nat
  crc : Nat
  compressedSize : Nat
  size : Nat
  nameLength : Nat
  extraLength : Nat
  deriving DecidableEq, Repr

/-- The number of the method that leaves data as they are. -/
def storedMethod : Nat := 0

/-- The number of the method that compresses data. -/
def deflatedMethod : Nat := 8

/-- The flag of an entry that cannot be read without a password. -/
def encryptedFlag : Nat := 0x0001

/-- The flag of an entry whose name is written in UTF-8. -/
def unicodeFlag : Nat := 0x0800

namespace Header

/-- Whether a flag, given as a power of two, is set. -/
def has (h : Header) (flag : Nat) : Bool := h.flags / flag % 2 == 1

def bytes (h : Header) : Bytes :=
  le16 h.versionNeeded ++ le16 h.flags ++ le16 h.method ++ le16 h.timeField ++
    le16 h.dateField ++ le32 h.crc ++ le32 h.compressedSize ++ le32 h.size ++
    le16 h.nameLength ++ le16 h.extraLength

def reader : FieldReader Header := do
  let versionNeeded ← word16
  let flags ← word16
  let method ← word16
  let timeField ← word16
  let dateField ← word16
  let crc ← word32
  let compressedSize ← word32
  let size ← word32
  let nameLength ← word16
  let extraLength ← word16
  return { versionNeeded, flags, method, timeField, dateField, crc, compressedSize, size,
           nameLength, extraLength }

end Header

/-- Fails unless the next bytes are the given ones. -/
def expect (signature : Bytes) : FieldReader Unit := do
  let found ← block signature.length
  if found = signature then return () else failure

/-! ## Local headers -/

def localSignature : Bytes := [0x50, 0x4B, 0x03, 0x04]

/-- The local header of an entry without extra fields. -/
def localHeader (h : Header) (name : Bytes) : Bytes :=
  localSignature ++ h.bytes ++ name

/-- The length of a local header without name and extra fields. -/
def localHeaderLength : Nat := 30

/-- Reads a local header up to its name. -/
def localHeaderReader : FieldReader Header := do
  expect localSignature
  Header.reader

/-! ## The directory -/

def centralSignature : Bytes := [0x50, 0x4B, 0x01, 0x02]

/-- The system and version that archives are made by. -/
def madeBy : Nat := 0x030A

/-- The permissions of a regular file that its owner may write. -/
def filePermissions : Nat := 0x81A40000

/-- The central header of an entry whose local header stands at an offset. -/
def centralHeader (h : Header) (name : Bytes) (offset : Nat) : Bytes :=
  centralSignature ++ le16 madeBy ++ h.bytes ++ le16 0 ++ le16 0 ++ le16 0 ++
    le32 filePermissions ++ le32 offset ++ name

/-- A central header. -/
structure CentralHeader where
  header : Header
  offset : Nat
  name : Bytes
  extra : Bytes
  comment : Bytes
  deriving Repr

def CentralHeader.reader : FieldReader CentralHeader := do
  expect centralSignature
  let _ ← word16
  let header ← Header.reader
  let commentLength ← word16
  let _ ← word16
  let _ ← word16
  let _ ← word32
  let offset ← word32
  let name ← block header.nameLength
  let extra ← block header.extraLength
  let comment ← block commentLength
  return { header, offset, name, extra, comment }

/-- The length of a central header without name, extra fields and comment. -/
def centralHeaderLength : Nat := 46

/-! ## The end record -/

def endSignature : Bytes := [0x50, 0x4B, 0x05, 0x06]

def endRecordLength : Nat := 22

/-- The end record of an archive on one disk. -/
def endRecord (count size offset : Nat) : Bytes :=
  endSignature ++ le16 0 ++ le16 0 ++ le16 count ++ le16 count ++ le32 size ++ le32 offset ++
    le16 0

/-- An end record. -/
structure EndRecord where
  disk : Nat
  directoryDisk : Nat
  /-- The number of entries on this disk. -/
  here : Nat
  count : Nat
  offset : Nat
  commentLength : Nat
  deriving Repr

def EndRecord.reader : FieldReader EndRecord := do
  expect endSignature
  let disk ← word16
  let directoryDisk ← word16
  let here ← word16
  let count ← word16
  let _ ← word32
  let offset ← word32
  let commentLength ← word16
  return { disk, directoryDisk, here, count, offset, commentLength }

/-! ## Wide end records -/

/-- The greatest number of two bytes, which stands for one that does not fit. -/
def beyond16 : Nat := 65535

/-- The greatest number of four bytes, which stands for one that does not fit. -/
def beyond32 : Nat := 4294967295

/-- Whether a wide end record may hold what an end record cannot. -/
def EndRecord.mayBeWide (e : EndRecord) : Bool := e.count == beyond16 || e.offset == beyond32

def locatorSignature : Bytes := [0x50, 0x4B, 0x06, 0x07]

def locatorLength : Nat := 20

/-- The locator of a wide end record. -/
structure Locator where
  directoryDisk : Nat
  offset : Nat
  /-- The number of disks. -/
  disks : Nat
  deriving Repr

def Locator.reader : FieldReader Locator := do
  expect locatorSignature
  let directoryDisk ← word32
  let offset ← word64
  let disks ← word32
  return { directoryDisk, offset, disks }

def wideEndSignature : Bytes := [0x50, 0x4B, 0x06, 0x06]

/-- A wide end record. -/
structure WideEndRecord where
  /-- The number of bytes after this number. -/
  size : Nat
  disk : Nat
  directoryDisk : Nat
  /-- The number of entries on this disk. -/
  here : Nat
  count : Nat
  offset : Nat
  deriving Repr

/-- The number of bytes of a wide end record up to its size, the size included. -/
def wideEndPrelude : Nat := 12

def leastWideEndSize : Nat := 44

/-- Reads a wide end record up to the fields that it need not have. -/
def WideEndRecord.reader : FieldReader WideEndRecord := do
  expect wideEndSignature
  let size ← word64
  let _ ← word16
  let _ ← word16
  let disk ← word32
  let directoryDisk ← word32
  let here ← word64
  let count ← word64
  let _ ← word64
  let offset ← word64
  return { size, disk, directoryDisk, here, count, offset }

end Courseware.Zip
