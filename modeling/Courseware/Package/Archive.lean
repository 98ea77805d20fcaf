import Courseware.Package.FileTree
import Courseware.Settings
import Courseware.Zip.Crc32
import Courseware.Zip.Deflate
import Courseware.Zip.Record

/-!
Packing files into an archive. Entries stand in the order of their paths and all have the same time, so
that equal files make equal archives.
-/

namespace Courseware.Package

open Zip

/-- A file as it is put into an archive. -/
structure PackedFile where
  name : Bytes
  header : Header
  /-- The contents as they are stored. -/
  data : Bytes

/-- The longest name of an entry in bytes. -/
def longestName : Nat := 65535

/-- The flags of an entry: a name that is not ASCII is marked as UTF-8. -/
def nameFlags (path : String) : Nat :=
  if path.toList.all fun c => c.toNat < 128 then 0 else unicodeFlag

/-- A file as its entry holds it. -/
def PackedFile.ofFile (packaging : PackagingSettings) (time : DosTime) (path : String)
    (contents : Bytes) : PackedFile :=
  let name := Text.utf8 path
  let data := if packaging.stored then contents else deflate packaging.level contents
  { name
    header :=
      { versionNeeded := if packaging.stored then 10 else 20
        flags := nameFlags path
        method := if packaging.stored then storedMethod else deflatedMethod
        timeField := time.timeField
        dateField := time.dateField
        crc := (crc32 contents).toNat
        compressedSize := data.length
        size := contents.length
        nameLength := name.length
        extraLength := 0 }
    data }

/-- The local part of an entry: its header and its data. -/
def PackedFile.localRecord (e : PackedFile) : Bytes :=
  localHeader e.header e.name ++ e.data

/-- The directory of some entries, the first of which starts at an offset. -/
def directory (offset : Nat) : List PackedFile → Bytes
  | [] => []
  | e :: es =>
    centralHeader e.header e.name offset ++ directory (offset + e.localRecord.length) es

def archiveOf (entries : List PackedFile) : Bytes :=
  let records := entries.flatMap PackedFile.localRecord
  let central := directory 0 entries
  records ++ central ++ endRecord entries.length central.length records.length

def pack (files : FileTree) (packaging : PackagingSettings) (made : Time.Instant) :
    Except Failure Bytes :=
  let entries := files.toList.map fun f => PackedFile.ofFile packaging (.ofInstant made) f.1 f.2
  if entries.any fun e => longestName < e.name.length then
    .error (.zip "a file name is too long")
  else .ok (archiveOf entries)

end Courseware.Package
