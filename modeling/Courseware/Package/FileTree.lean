import Courseware.Dictionary
import Courseware.Failure
import Courseware.Text.Utf8

/-!
The files of a package, in the order of their paths. A path is used once.
-/

namespace Courseware

/-- The files of a package. -/
structure FileTree where
  files : Dictionary Bytes

namespace FileTree

def empty : FileTree := ⟨∅⟩

instance : EmptyCollection FileTree := ⟨empty⟩

/-- Adds a file under a path that is not in use. -/
def insert (t : FileTree) (path : String) (contents : Bytes) : Except Failure FileTree :=
  if t.files.contains path then .error (.packaging ("duplicate archive path: " ++ path))
  else .ok ⟨t.files.insert path contents⟩

/-- Adds files one after the other. -/
def insertAll (t : FileTree) (files : List (String × Bytes)) : Except Failure FileTree :=
  files.foldlM (fun t f => t.insert f.1 f.2) t

def get? (t : FileTree) (path : String) : Option Bytes := t.files.find? path

def contains (t : FileTree) (path : String) : Bool := t.files.contains path

def size (t : FileTree) : Nat := t.files.size

/-- The number of bytes in all files. -/
def totalSize (t : FileTree) : Nat :=
  (t.files.entries.flatMap fun e => e.2).length

/-- The paths in order. -/
def paths (t : FileTree) : List String := t.files.keys

/-- The files with their paths in order. -/
def toList (t : FileTree) : List (String × Bytes) := t.files.entries

end FileTree

end Courseware
