import Courseware.Dictionary
import Courseware.Text.Blank
import Courseware.Text.Utf8
import Courseware.Time.Calendar

/-!
What a command finds around it: files and a clock. `Environment m` says how they are used in `m`, and
`Folder` is a folder that is kept in memory. Paths may lead out of the folder, to directories that hold nothing
but what is put there.
-/

namespace Courseware.Command

/-- Why a file cannot be used. -/
inductive FileFault
  | absent
  | notDirectory
  | isDirectory
  | nameTooLong
  | other (reason : String)
  deriving DecidableEq, Repr

def FileFault.message : FileFault → String
  | absent => "No such file or directory (os error 2)"
  | notDirectory => "Not a directory (os error 20)"
  | isDirectory => "Is a directory (os error 21)"
  | nameTooLong => "File name too long (os error 36)"
  | other reason => reason

/-- How files and the clock are used. -/
structure Environment (m : Type → Type) where
  read : String → m (Except FileFault Bytes)
  write : String → Bytes → m (Except FileFault Unit)
  isDirectory : String → m Bool
  now : m Time.Instant
  /-- A number of milliseconds that grows with time. -/
  milliseconds : m Nat

/-- A folder in memory: the file or directory under each path. A directory has no contents of its own. The
paths of what is around the folder start with `../` or `/`. -/
structure Folder where
  nodes : Dictionary (Option Bytes)

namespace Folder

def empty : Folder := ⟨∅⟩

instance : EmptyCollection Folder := ⟨empty⟩

/-- The parts of a path between its slashes, where `part` holds the characters of the part being read. -/
def partsFrom (part : List Char) : List Char → List String
  | [] => [String.ofList part]
  | c :: cs =>
    if c = '/' then String.ofList part :: partsFrom [] cs else partsFrom (part ++ [c]) cs

def parts (path : String) : List String := partsFrom [] path.toList

def key (place : List String) : String := "/".intercalate place

/-- The place where a path starts: the folder itself, which is the place without parts, or the root. -/
def start (path : String) : List String :=
  if path.toList.head? = some '/' then ["/"] else []

/-- The place that holds a place. The root holds itself. -/
def holder (place : List String) : List String :=
  match place.getLast? with
  | none => [".."]
  | some ".." => place ++ [".."]
  | some "/" => place
  | some _ => place.dropLast

/-- Whether a place is the folder itself or holds it. -/
def isAround (place : List String) : Bool := place.all fun part => part == ".." || part == "/"

def node? (f : Folder) (place : List String) : Option (Option Bytes) :=
  if isAround place then some none else f.nodes.find? (key place)

/-- Fails unless there is a directory at a place. -/
def requireDirectory (f : Folder) (place : List String) : Except FileFault Unit :=
  match f.node? place with
  | some none => .ok ()
  | some (some _) => .error .notDirectory
  | none => .error .absent

/-- The greatest number of bytes in the name of a file. -/
def nameLimit : Nat := 255

/-- The greatest number of bytes in a path. -/
def pathLimit : Nat := 4095

/-- Fails if a text has more bytes than it may have. -/
def requireSize (limit : Nat) (text : String) : Except FileFault Unit :=
  if text.utf8ByteSize ≤ limit then .ok () else .error .nameTooLong

/-- The place that some parts of a path lead to. All but the last must be directories. -/
def walk (f : Folder) (place : List String) : List String → Except FileFault (List String)
  | [] => .ok place
  | part :: rest => do
    f.requireDirectory place
    if part = "" ∨ part = "." then walk f place rest
    else if part = ".." then walk f (holder place) rest
    else do
      requireSize nameLimit part
      walk f (place ++ [part]) rest

def read (f : Folder) (path : String) : Except FileFault Bytes := do
  requireSize pathLimit path
  match f.node? (← f.walk (start path) (parts path)) with
  | some (some contents) => .ok contents
  | some none => .error .isDirectory
  | none => .error .absent

/-- Puts a file at a path. A path that ends in a slash is that of a directory, even if there is nothing. -/
def write (f : Folder) (path : String) (contents : Bytes) : Except FileFault Folder := do
  requireSize pathLimit path
  let slash := path.toList.getLast? = some '/'
  let ps := parts (Text.trimEndOf '/' path)
  let parent ← f.walk (start path) ps.dropLast
  f.requireDirectory parent
  match ps.getLast? with
  | some name =>
    if slash ∨ name = "" ∨ name = "." ∨ name = ".." then .error .isDirectory
    else do
      requireSize nameLimit name
      let place := parent ++ [name]
      match f.node? place with
      | some none => .error .isDirectory
      | _ => .ok ⟨f.nodes.insert (key place) (some contents)⟩
  | none => .error .absent

def isDirectory (f : Folder) (path : String) : Bool :=
  match requireSize pathLimit path, (f.walk (start path) (parts path)).toOption.bind f.node? with
  | .ok _, some none => true
  | _, _ => false

/-- Adds directories, each inside the one before it. -/
def addDirectories (f : Folder) (place : List String) : List String → Folder
  | [] => f
  | part :: rest =>
    let place := place ++ [part]
    addDirectories ⟨f.nodes.insert (key place) none⟩ place rest

/-- Adds a directory and those around it. -/
def addDirectory (f : Folder) (path : String) : Folder :=
  f.addDirectories [] ((parts path).filter fun part => part ≠ "" ∧ part ≠ ".")

/-- Whether a path that is in use belongs to the folder. -/
def isWithin (path : String) : Bool :=
  !"/".toList.isPrefixOf path.toList && !"../".toList.isPrefixOf path.toList

/-- The paths of all files and directories of the folder in order; those of directories end in a slash. -/
def listing (f : Folder) : List String :=
  (Dictionary.ofList ((f.nodes.entries.filter fun e => isWithin e.1).map fun e =>
    (match e.2 with | some _ => e.1 | none => e.1 ++ "/", ()))).keys

/-- The environment in which a folder is the state and the clock stands still. -/
def environment (made : Time.Instant) : Environment (StateM Folder) where
  read path := do return (← get).read path
  write path contents := do
    match (← get).write path contents with
    | .ok f => set f; return .ok ()
    | .error fault => return .error fault
  isDirectory path := do return (← get).isDirectory path
  now := return made
  milliseconds := return 0

end Folder

end Courseware.Command
