import Courseware.Json.Draft

/-!
Decoders: what a document has to look like to be a value of a domain type. A decoder runs along a
draft and stops at the first fault that its own rules meet. `Decoder.ofText` and `Decoder.ofValue`
apply one to a text and to a value.
-/

namespace Courseware.Json

/-- How a draft is understood, where `room` more brackets may be opened. -/
abbrev Decoder (α : Type) := (room : Nat) → Draft → Except Fault α

namespace Decoder

/-- The most brackets that may be open at one place of a text. -/
def nestingLimit : Nat := 127

/-- Goes on unless there is a fault. -/
def unlessFault {α : Type} (close : Option Fault) (value : α) : Except Fault α :=
  match close with
  | some f => .error f
  | none => .ok value

def nested {α : Type} (room : Nat) (inside : Nat → Except Fault α) : Except Fault α :=
  match room with
  | 0 => .error .malformed
  | room + 1 => inside room

/-! ## Simple values -/

def text : Decoder String
  | _, .string (.ok s) => .ok s
  | _, d => .error d.refuse

def bool : Decoder Bool
  | _, .bool b => .ok b
  | _, d => .error d.refuse

/-- A whole number from `low` to `high`. -/
def integer (low high : Int) : Decoder Int
  | _, .number (.ok (.integer n)) => if low ≤ n ∧ n ≤ high then .ok n else .error .mistyped
  | _, d => .error d.refuse

/-- A whole number below `2 ^ bits`. -/
def natural (bits : Nat) : Decoder Nat := fun room d =>
  (integer 0 ((Nat.pow 2 bits : Nat) - 1) room d).map Int.toNat

/-- A whole number of 64 bits with a sign. -/
def signed : Decoder Int := integer (-negativeLimit) (negativeLimit - 1)

/-- A value or `null`, which is also meant where the text breaks off inside that word. -/
def option {α : Type} (d : Decoder α) : Decoder (Option α)
  | _, .null => .ok none
  | _, .broken .null f _ => .error f
  | room, x => (d room x).map some

/-- An array whose items are all read by one decoder. -/
def list {α : Type} (d : Decoder α) : Decoder (List α)
  | room, .array items close =>
    nested room fun room => do
      let values ← items.mapM (d room)
      unlessFault close values
  | _, x => .error x.refuse

/-! ## Any value -/

mutual

/-- Passes over a value that nobody asks for. -/
def skip : Draft → Except Fault Unit
  | .broken _ _ f => .error f
  | .array items close => do skipItems items; unlessFault close ()
  | .object members close => do skipMembers members; unlessFault close ()
  | _ => .ok ()

def skipItems : List Draft → Except Fault Unit
  | [] => .ok ()
  | d :: ds => do skip d; skipItems ds

def skipMembers : List (Draft × Draft) → Except Fault Unit
  | [] => .ok ()
  | m :: ms => do skip m.1; skip m.2; skipMembers ms

end

mutual

def value : Decoder Json
  | _, .broken _ f _ => .error f
  | _, .null => .ok .null
  | _, .bool b => .ok (.bool b)
  | _, .number n => n.map .number
  | _, .string s => s.map .string
  | room, .array items close =>
    match room with
    | 0 => .error .malformed
    | room + 1 => do
      let vs ← valueItems room items
      unlessFault close (.array vs)
  | room, .object members close =>
    match room with
    | 0 => .error .malformed
    | room + 1 => do
      let ms ← valueMembers room [] members
      unlessFault close (.object ms)

def valueItems (room : Nat) : List Draft → Except Fault (List Json)
  | [] => .ok []
  | d :: ds => do
    let v ← value room d
    let vs ← valueItems room ds
    return v :: vs

/-- The members of an object, added in turn to those that stand before them; of two members with one
name the last counts. -/
def valueMembers (room : Nat) (before : List (String × Json)) :
    List (Draft × Draft) → Except Fault (List (String × Json))
  | [] => .ok before
  | m :: ms => do
    let name ← text room m.1
    let v ← value room m.2
    valueMembers room (insertEntry name v before) ms

end

/-! ## Choices -/

/-- A choice among named values, written as its name or as an object with the name as its only key and
the value `null`. Words and numerals are not read at all in its place. -/
def choice {α : Type} (ofName? : String → Option α) : Decoder α
  | _, .string (.ok name) => named name
  | _, .string (.error f) => .error f
  | _, .broken .other f _ => .error f
  | room, .object members close =>
    nested room fun _ =>
      match members with
      | [] => .error (close.getD .malformed)
      | (key, x) :: rest => do
        let name ←
          match key with
          | .string name => name
          | other => .error other.refuse
        let chosen ← named name
        match x with
        | .null => if rest.isEmpty then unlessFault close chosen else .error .malformed
        | other => .error other.refuse
  | _, _ => .error .malformed
where
  /-- The value with the given name. -/
  named (name : String) : Except Fault α :=
    match ofName? name with
    | some a => .ok a
    | none => .error .mistyped

/-! ## Records -/

/-- A field of a record: its name and what its value changes in the record. -/
structure Field (σ : Type) where
  name : String
  read : Decoder (σ → σ)

/-- A field whose value is stored by `set`. -/
def Field.of {σ α : Type} (name : String) (d : Decoder α) (set : σ → α → σ) : Field σ :=
  ⟨name, fun room x => (d room x).map fun a s => set s a⟩

/-- Reads members into a record. A field that has been read may not come again; members with other
names are passed over. -/
def readNamed {σ : Type} (fields : List (Field σ)) (room : Nat) (read : List String) (record : σ) :
    List (Draft × Draft) → Except Fault σ
  | [] => .ok record
  | (key, x) :: rest => do
    let name ← text room key
    match fields.find? (·.name == name) with
    | none =>
      skip x
      readNamed fields room read record rest
    | some f =>
      if read.contains name then .error .mistyped
      else
        let change ← f.read room x
        readNamed fields room (name :: read) (change record) rest

/-- Reads items into the fields of a record in their order. Items beyond the fields are refused. -/
def readListed {σ : Type} (room : Nat) (record : σ) :
    List (Field σ) → List Draft → Except Fault σ
  | _, [] => .ok record
  | [], _ :: _ => .error .malformed
  | f :: fields, x :: rest => do
    let change ← f.read room x
    readListed room (change record) fields rest

/-- A record, written as an object or as an array of its fields. Fields that are missing keep their
value in `start`. -/
def record {σ : Type} (start : σ) (fields : List (Field σ)) : Decoder σ
  | room, .object members close =>
    nested room fun room => do
      let r ← readNamed fields room [] start members
      unlessFault close r
  | room, .array items close =>
    nested room fun room => do
      let r ← readListed room start fields items
      unlessFault close r
  | _, d => .error d.refuse

/-! ## Documents -/

/-- Decodes a whole text. Nothing but white space may follow the value. -/
def ofText {α : Type} (d : Decoder α) (s : String) : Except Fault α := do
  let (draft, trailing) := Draft.ofText s
  let a ← d nestingLimit draft
  if trailing then .error .malformed else .ok a

/-- Decodes a value. A value is always well formed, so every fault is one of type. -/
def ofValue {α : Type} (d : Decoder α) (v : Json) : Except Fault α :=
  (d v.depth v.toDraft).mapError fun _ => .mistyped

end Decoder

def ofText (s : String) : Except Fault Json := Decoder.value.ofText s

end Courseware.Json
