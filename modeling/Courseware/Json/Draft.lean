import Courseware.Json.Basic

/-!
Reading JSON text into a draft: the tree of the text as far as it can be read, with each fault in its
place. Who uses a draft meets its faults in the order of the text, so that of two faults the earlier
one counts, and a part that nobody asks for is held to weaker rules: a numeral may be of any size
and an escaped surrogate may stand alone.
-/

namespace Courseware.Json

/-- Why a text is not what was asked for. -/
inductive Fault
  /-- The text breaks the grammar, or a numeral is too large. -/
  | malformed
  /-- The text ends too early. -/
  | truncated
  /-- The text is well formed but of the wrong type or range. -/
  | mistyped
  deriving DecidableEq, Repr

/-- What starts where a text cannot be read. -/
inductive Start
  /-- The word `null`. -/
  | null
  /-- Another word or a numeral. -/
  | token
  /-- Something else, such as a string. -/
  | other
  deriving DecidableEq, Repr

/-- A text read as far as possible. -/
inductive Draft
  /-- Nothing more can be read. The fault depends on whether a value is asked for here or nothing. -/
  | broken (start : Start) (asValue skipped : Fault)
  | null
  | bool (value : Bool)
  | number (value : Except Fault Number)
  | string (value : Except Fault String)
  /-- The items before the closing bracket or the fault in its place. -/
  | array (items : List Draft) (close : Option Fault)
  /-- The members before the closing brace or the fault in its place. -/
  | object (members : List (Draft × Draft)) (close : Option Fault)
  deriving Inhabited

/-! ## Numerals -/

/-- The ASCII digits. -/
def isDigit (c : Char) : Bool := '0' ≤ c && c ≤ '9'

def digitValue (c : Char) : Nat := c.toNat - 48

/-- A numeral as it is written. -/
structure Numeral where
  negative : Bool
  whole : List Char
  fraction : List Char
  /-- The sign of the exponent, true for a negative one, and its digits. -/
  exponent : Option (Bool × List Char)
  deriving Repr

/-- What the magnitude of every whole number is below, `2^64`. -/
def wholeLimit : Nat := 18446744073709551616

/-- The magnitude of the least whole number, `2^63`. -/
def negativeLimit : Nat := 9223372036854775808

/-- Reads digits into a number as long as it stays below the limit; the rest is left over. -/
def takeDigits (value : Nat) : List Char → Nat × List Char
  | [] => (value, [])
  | c :: cs =>
    if value * 10 + digitValue c < wholeLimit then takeDigits (value * 10 + digitValue c) cs
    else (value, c :: cs)

def digitsValue (cs : List Char) : Nat :=
  cs.foldl (fun n c => n * 10 + digitValue c) 0

/-- The number `x · 10^e`, computed in steps that each round: a power of ten up to `10^308` is rounded
first and then multiplied or divided by. -/
def scale? (x : Decimal.Binary64) (e : Int) : (fuel : Nat) → Option Decimal.Binary64
  | 0 => some (Decimal.Binary64.zero x.negative)
  | fuel + 1 =>
    if x.isZero then some x
    else if 308 < e then none
    else if 0 ≤ e then x.mulNat? (Nat.pow 10 e.toNat)
    else if -308 ≤ e then x.divNat? (Nat.pow 10 (-e).toNat)
    else (x.divNat? (Nat.pow 10 308)).bind fun y => scale? y (e + 308) fuel

/-- The number that a numeral stands for. Without fraction and exponent it is a whole number if 64
bits can hold it, and `-0` is not whole. Otherwise it is a floating-point number, made from the leading
digits that 64 bits can hold. -/
def Numeral.value (n : Numeral) : Except Fault Number :=
  let (significand, beyond) := takeDigits 0 n.whole
  let float (significand : Nat) (e : Int) : Except Fault Number :=
    match Decimal.Binary64.ofRatio? n.negative significand 1 with
    | none => .error .malformed
    | some x =>
      match scale? x e 4 with
      | some y => .ok (.decimal y)
      | none => .error .malformed
  if n.fraction.isEmpty && n.exponent.isNone then
    if !beyond.isEmpty then float significand beyond.length
    else if !n.negative then .ok (.integer significand)
    else if significand = 0 ∨ negativeLimit < significand then float significand 0
    else .ok (.integer (-(significand : Int)))
  else
    let (significand, rest) := takeDigits significand n.fraction
    let e : Int := (beyond.length : Int) - (n.fraction.length - rest.length : Nat)
    match n.exponent with
    | none => float significand e
    | some (negative, digits) =>
      let size := digitsValue digits
      float significand (if negative then e - size else e + size)

/-- A numeral that stops short of a digit. -/
def noDigit (rest : List Char) : Draft × List Char :=
  (.broken .token (if rest.isEmpty then .truncated else .malformed) .malformed, [])

/-- Reads the exponent of a numeral, if one starts here. -/
def readExponent (negative : Bool) (whole fraction : List Char) :
    List Char → Draft × List Char
  | [] => (.number (Numeral.value ⟨negative, whole, fraction, none⟩), [])
  | c :: cs =>
    if c = 'e' || c = 'E' then
      let (minus, ds) := match cs with
        | '+' :: ds => (false, ds)
        | '-' :: ds => (true, ds)
        | ds => (false, ds)
      let (digits, rest) := ds.span isDigit
      if digits.isEmpty then noDigit rest
      else (.number (Numeral.value ⟨negative, whole, fraction, some (minus, digits)⟩), rest)
    else (.number (Numeral.value ⟨negative, whole, fraction, none⟩), c :: cs)

/-- Reads the fraction of a numeral, if one starts here, and what follows it. -/
def readFraction (negative : Bool) (whole : List Char) : List Char → Draft × List Char
  | '.' :: cs =>
    let (digits, rest) := cs.span isDigit
    if digits.isEmpty then noDigit rest else readExponent negative whole digits rest
  | cs => readExponent negative whole [] cs

/-- Reads a numeral after its sign. A zero is not followed by another digit. -/
def readNumber (negative : Bool) : List Char → Draft × List Char
  | '0' :: cs =>
    match cs with
    | c :: _ => if isDigit c then noDigit cs else readFraction negative ['0'] cs
    | [] => readFraction negative ['0'] []
  | cs =>
    let (digits, rest) := cs.span isDigit
    if digits.isEmpty then noDigit rest else readFraction negative digits rest

/-! ## Strings -/

def hexValue? (c : Char) : Option Nat :=
  if isDigit c then some (c.toNat - 48)
  else if 'a' ≤ c && c ≤ 'f' then some (c.toNat - 87)
  else if 'A' ≤ c && c ≤ 'F' then some (c.toNat - 55)
  else none

/-- The value of four hexadecimal digits. -/
def hexValue4? (a b c d : Char) : Option Nat := do
  let a ← hexValue? a
  let b ← hexValue? b
  let c ← hexValue? c
  let d ← hexValue? d
  return ((a * 16 + b) * 16 + c) * 16 + d

/-- The character of a one-letter escape. -/
def shortEscape? : Char → Option Char
  | '"' => some '"'
  | '\\' => some '\\'
  | '/' => some '/'
  | 'b' => some '\x08'
  | 'f' => some '\x0c'
  | 'n' => some '\n'
  | 'r' => some '\r'
  | 't' => some '\t'
  | _ => none

/-- Whether less than four bytes are left, too few for the digits of an escape. -/
def shortOfFour (cs : List Char) : Bool :=
  (cs.take 4).foldl (fun n c => n + c.utf8Size) 0 < 4

/-- A string being read: its characters in reverse, the leading surrogate that waits for its other
half, and the first fault. -/
structure Partial where
  chars : List Char
  leading : Option Nat
  fault : Option Fault

namespace Partial

/-- The string without characters. -/
def empty : Partial := ⟨[], none, none⟩

/-- Notes a fault unless there is an earlier one. -/
def blame (p : Partial) (f : Fault) : Partial :=
  ⟨p.chars, none, some (p.fault.getD f)⟩

/-- A leading surrogate without its other half is a fault. -/
def settle (p : Partial) : Partial :=
  if p.leading.isSome then p.blame .malformed else p

def push (p : Partial) (c : Char) : Partial :=
  let p := p.settle
  ⟨c :: p.chars, none, p.fault⟩

/-- Adds a code unit that was written as an escape. -/
def pushUnit (p : Partial) (n : Nat) : Partial :=
  if 0xDC00 ≤ n ∧ n ≤ 0xDFFF then
    match p.leading with
    | some l => ⟨Char.ofNat (0x10000 + (l - 0xD800) * 0x400 + (n - 0xDC00)) :: p.chars, none, p.fault⟩
    | none => p.blame .malformed
  else if 0xD800 ≤ n ∧ n ≤ 0xDBFF then
    let p := p.settle
    ⟨p.chars, some n, p.fault⟩
  else p.push (Char.ofNat n)

/-- The string cannot be read to its end. -/
def stop (p : Partial) (f : Fault) : Draft × List Char :=
  (.broken .other (p.fault.getD f) f, [])

def finish (p : Partial) : Draft :=
  let p := p.settle
  .string (match p.fault with
    | some f => .error f
    | none => .ok (String.ofList p.chars.reverse))

end Partial

/-- Reads a string after its opening quote. -/
def readString (p : Partial) : List Char → Draft × List Char
  | [] => p.stop .truncated
  | '"' :: rest => (p.finish, rest)
  | ['\\'] => p.stop .truncated
  | '\\' :: 'u' :: rest =>
    if shortOfFour rest then p.stop .truncated
    else
      match rest with
      | a :: b :: c :: d :: rest =>
        match hexValue4? a b c d with
        | some n => readString (p.pushUnit n) rest
        | none => p.stop .malformed
      | _ => p.stop .malformed
  | '\\' :: e :: rest =>
    match shortEscape? e with
    | some c => readString (p.push c) rest
    | none => p.settle.stop .malformed
  | c :: rest =>
    if c.toNat < 32 then p.settle.stop .malformed else readString (p.push c) rest

/-! ## Values -/

/-- The fault when a draft is not of the type that was asked for. -/
def Draft.refuse : Draft → Fault
  | .broken _ f _ => f
  | .number (.error f) => f
  | .string (.error f) => f
  | _ => .mistyped

/-- A draft that holds the same fault whatever is asked for. -/
def Draft.fault (f : Fault) : Draft := .broken .other f f

/-- The fault in front of some text where something else was expected. -/
def unexpected (rest : List Char) : Fault :=
  if rest.isEmpty then .truncated else .malformed

/-- Skips the white space of the grammar. -/
def skipSpace (cs : List Char) : List Char :=
  cs.dropWhile fun c => c = ' ' || c = '\n' || c = '\t' || c = '\r'

/-- Reads the letters of a word, which stands for the given draft. -/
def readWord (start : Start) (meaning : Draft) : List Char → List Char → Draft × List Char
  | [], cs => (meaning, cs)
  | _ :: _, [] => (.broken start .truncated .truncated, [])
  | w :: ws, c :: cs =>
    if c = w then readWord start meaning ws cs else (.broken start .malformed .malformed, [])

mutual

/-- Reads a value and returns it with the text after it. The fuel bounds the number of steps. -/
def readValue : (fuel : Nat) → List Char → Draft × List Char
  | 0, _ => (.fault .malformed, [])
  | fuel + 1, cs =>
    match skipSpace cs with
    | [] => (.fault .truncated, [])
    | c :: rest =>
      if c = '"' then readString .empty rest
      else if c = '[' then
        match skipSpace rest with
        | ']' :: rest => (.array [] none, rest)
        | rest =>
          let (items, close, rest) := readItems fuel rest
          (.array items close, rest)
      else if c = '\x7b' then
        match skipSpace rest with
        | '\x7d' :: rest => (.object [] none, rest)
        | rest =>
          let (members, close, rest) := readMembers fuel rest
          (.object members close, rest)
      else if c = '-' then readNumber true rest
      else if isDigit c then readNumber false (c :: rest)
      else if c = 'n' then readWord .null .null "ull".toList rest
      else if c = 't' then readWord .token (.bool true) "rue".toList rest
      else if c = 'f' then readWord .token (.bool false) "alse".toList rest
      else (.fault .malformed, [])

/-- Reads the items of an array up to its closing bracket. -/
def readItems : (fuel : Nat) → List Char → List Draft × Option Fault × List Char
  | 0, _ => ([], some .malformed, [])
  | fuel + 1, cs =>
    let (item, rest) := readValue fuel cs
    match skipSpace rest with
    | ']' :: rest => ([item], none, rest)
    | ',' :: rest =>
      let (items, close, rest) := readItems fuel rest
      (item :: items, close, rest)
    | rest => ([item], some (unexpected rest), [])

/-- Reads the members of an object up to its closing brace. -/
def readMembers : (fuel : Nat) → List Char → List (Draft × Draft) × Option Fault × List Char
  | 0, _ => ([], some .malformed, [])
  | fuel + 1, cs =>
    match skipSpace cs with
    | '"' :: rest =>
      let (key, rest) := readString .empty rest
      match skipSpace rest with
      | ':' :: rest =>
        let (value, rest) := readValue fuel rest
        match skipSpace rest with
        | '\x7d' :: rest => ([(key, value)], none, rest)
        | ',' :: rest =>
          let (members, close, rest) := readMembers fuel rest
          ((key, value) :: members, close, rest)
        | rest => ([(key, value)], some (unexpected rest), [])
      | rest => ([(key, .fault (unexpected rest))], none, [])
    | rest => ([(.fault (unexpected rest), .fault (unexpected rest))], none, [])

end

/-- The draft of a text, and whether anything but white space follows the value. -/
def Draft.ofText (text : String) : Draft × Bool :=
  let cs := text.toList
  let (d, rest) := readValue (2 * cs.length + 2) cs
  (d, !(skipSpace rest).isEmpty)

mutual

/-- The draft of a value, which holds no fault. -/
def toDraft : Json → Draft
  | null => .null
  | bool b => .bool b
  | number n => .number (.ok n)
  | string s => .string (.ok s)
  | array vs => .array (itemDrafts vs) none
  | object ms => .object (memberDrafts ms) none

def itemDrafts : List Json → List Draft
  | [] => []
  | v :: vs => v.toDraft :: itemDrafts vs

def memberDrafts : List (String × Json) → List (Draft × Draft)
  | [] => []
  | m :: ms => (.string (.ok m.1), m.2.toDraft) :: memberDrafts ms

end

end Courseware.Json
