import Courseware.Dictionary
import Courseware.Failure
import Courseware.Zip.Directory
import Courseware.Zip.Inflate

/-!
Reading a package: the files in an archive and their contents.
-/

namespace Courseware.Package

open Zip

def readDirectory (bytes : Bytes) : Except Failure (List Entry) :=
  match readEntries? bytes with
  | some entries => .ok entries
  | none => .error (.zip "no directory was found")

/-- The stored data of an entry, as far as the bytes go. -/
def entryData (bytes : Bytes) (e : Entry) : Except Failure Bytes :=
  match localHeaderReader (bytes.drop e.offset) with
  | none => .error (.zip "an entry has no local header")
  | some (h, _) =>
    if e.locked then .error (.zip "an entry is encrypted")
    else if e.header.method ≠ storedMethod ∧ e.header.method ≠ deflatedMethod then
      .error (.zip "an entry is compressed by an unknown method")
    else
      let start := e.offset + localHeaderLength + h.nameLength + h.extraLength
      .ok ((bytes.drop start).take e.header.compressedSize)

def entryContents (e : Entry) (data : Bytes) : Except Failure Bytes :=
  let contents := if e.header.method = storedMethod then some data else inflate? data
  match contents with
  | none => .error (.io "corrupt deflate stream")
  | some contents =>
    if (crc32 contents).toNat = e.header.crc then .ok contents
    else .error (.io "Invalid checksum")

/-- Adds the contents of an entry to those of other entries, unless it is a directory. -/
def readEntry (bytes : Bytes) (found : Dictionary Bytes) (e : Entry) :
    Except Failure (Dictionary Bytes) := do
  let data ← entryData bytes e
  if e.isDirectory then return found
  else
    let contents ← entryContents e data
    return found.insert e.name contents

end Courseware.Package

namespace Courseware

/-- The files that were read from an archive, in the order of their paths. -/
structure PackageContents where
  files : Dictionary Bytes

namespace PackageContents

def empty : PackageContents := ⟨∅⟩

def ofArchive (bytes : Bytes) : Except Failure PackageContents := do
  let entries ← Package.readDirectory bytes
  let files ← (Zip.distinctEntries entries).foldlM (Package.readEntry bytes) ∅
  return ⟨files⟩

def get? (p : PackageContents) (path : String) : Option Bytes := p.files.find? path

def contains (p : PackageContents) (path : String) : Bool := p.files.contains path

def text (p : PackageContents) (path : String) : Except Failure String :=
  match p.get? path with
  | none => .error (.missing path)
  | some bytes =>
    match Text.ofUtf8? bytes with
    | some s => .ok s
    | none => .error .utf8

def size (p : PackageContents) : Nat := p.files.size

/-- The paths in order. -/
def paths (p : PackageContents) : List String := p.files.keys

end PackageContents

end Courseware
