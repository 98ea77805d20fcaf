import Courseware.Zip.Entry

/-!
The directory of an archive. The end record is looked for from the end of the bytes, and bytes before the
first entry are tolerated: the first header after the place that a record names, or the wide end record after
the place that its locator names, tells how far all offsets are moved. Of an end record that does not lead to
a directory, an earlier one takes the place.
-/

namespace Courseware.Zip

/-- Where a directory is. -/
structure Directory where
  /-- Where the first header stands. -/
  start : Nat
  /-- The number of headers. -/
  count : Nat
  /-- How far all offsets are moved. -/
  shift : Nat
  deriving DecidableEq, Repr

/-- The places where some bytes occur, the last one first; `place` is where the given bytes start, and
`found` are the places before. -/
def placesOf (pattern : Bytes) (place : Nat) (found : List Nat) : Bytes → List Nat
  | [] => found
  | b :: bs =>
    placesOf pattern (place + 1)
      (if pattern.isPrefixOf (b :: bs) then place :: found else found) bs

/-- The places from `start` on where some bytes occur before `stop`, the first one first. -/
def placesBetween (pattern : Bytes) (start stop : Nat) (bytes : Bytes) : List Nat :=
  (placesOf pattern start [] ((bytes.take stop).drop start)).reverse

/-! ## Wide end records -/

/-- The locator in front of an end record at a place, if a wide end record may belong to it. -/
def EndRecord.locator? (bytes : Bytes) (place : Nat) (e : EndRecord) : Option Locator :=
  if e.mayBeWide && locatorLength ≤ place then
    (Locator.reader (bytes.drop (place - locatorLength))).map Prod.fst
  else none

/-- Whether a wide end record at a place agrees with its locator, which follows it at once: it fills the bytes
up to there, and the directory has room before it. -/
def WideEndRecord.agrees (r : WideEndRecord) (place : Nat) (l : Locator) (locatorPlace : Nat) : Bool :=
  leastWideEndSize ≤ r.size && place + wideEndPrelude + r.size == locatorPlace &&
    r.directoryDisk == l.directoryDisk && r.offset + r.count * centralHeaderLength ≤ place

/-- The wide end record of a locator at a place, and how far it is moved. -/
def Locator.record? (bytes : Bytes) (locatorPlace : Nat) (l : Locator) : Option (WideEndRecord × Nat) :=
  if locatorPlace ≤ l.offset ∨ 1 < l.disks then none
  else
    (placesBetween wideEndSignature l.offset locatorPlace bytes).findSome? fun place =>
      match WideEndRecord.reader (bytes.drop place) with
      | some (r, _) => if r.agrees place l locatorPlace then some (r, place - l.offset) else none
      | none => none

/-- The directory of a wide end record. All of it must be on one disk. -/
def WideEndRecord.directory? (r : WideEndRecord) (shift : Nat) : Option Directory :=
  if r.count < r.here ∨ r.disk ≠ r.directoryDisk then none
  else some ⟨r.offset + shift, r.count, shift⟩

/-! ## Directories -/

/-- The directory of an end record at a place that no wide one belongs to. Without entries, the directory is
taken to end there. -/
def EndRecord.directory? (bytes : Bytes) (place : Nat) (e : EndRecord) : Option Directory := do
  let shift ←
    if e.count = 0 then some (place - e.offset)
    else if place ≤ e.offset then none
    else (placesBetween centralSignature e.offset place bytes).head?.map (· - e.offset)
  if e.disk = e.directoryDisk then return ⟨e.offset + shift, e.here, shift⟩ else none

/-- The directory that an end record at a place leads to. -/
def directoryAt? (bytes : Bytes) (place : Nat) : Option Directory := do
  let (e, _) ← EndRecord.reader (bytes.drop place)
  if bytes.length < place + endRecordLength + e.commentLength then none
  else
    match e.locator? bytes place with
    | some l => do
      let (r, shift) ← l.record? bytes (place - locatorLength)
      r.directory? shift
    | none => e.directory? bytes place

def readHeaders (shift : Nat) (bytes : Bytes) : (count : Nat) → Option (List Entry)
  | 0 => some []
  | count + 1 => do
    let (h, rest) ← CentralHeader.reader bytes
    let e ← Entry.ofHeader? shift h
    let entries ← readHeaders shift rest count
    return e :: entries

def Directory.entries? (bytes : Bytes) (d : Directory) : Option (List Entry) :=
  readHeaders d.shift (bytes.drop d.start) d.count

/-- The entries of an archive, in the order of its directory. -/
def readEntries? (bytes : Bytes) : Option (List Entry) :=
  (placesOf endSignature 0 [] bytes).findSome? fun place =>
    (directoryAt? bytes place).bind (Directory.entries? bytes)

/-- The entries of a directory that count: of those with one name the last, in the place of the first. -/
def distinctEntries (entries : List Entry) : List Entry :=
  (entries.map (·.name)).eraseDups.filterMap fun name =>
    entries.reverse.find? fun e => e.name == name

end Courseware.Zip
