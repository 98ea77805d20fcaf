import Courseware.Dictionary
import Courseware.Decimal.Binary64

/-!
JSON values. A number is a whole number of 64 bits, signed or unsigned, or a floating-point number.
The members of an object that was read stand in the order of their names, each name once; an object
that is built to be written keeps the order in which its members are given.
-/

namespace Courseware

/-- A JSON number. -/
inductive Json.Number
  | integer (value : Int)
  | decimal (value : Decimal.Binary64)
  deriving DecidableEq, Repr

/-- A JSON value. -/
inductive Json
  | null
  | bool (value : Bool)
  | number (value : Json.Number)
  | string (value : String)
  | array (items : List Json)
  | object (members : List (String × Json))
  deriving Repr, Inhabited

namespace Json

def nat (n : Nat) : Json := number (.integer n)

/-- A text that may be absent. -/
def stringOrNull : Option String → Json
  | some s => string s
  | none => null

def strings (texts : List String) : Json := array (texts.map string)

/-- The members of an object; other values have none. -/
def members : Json → List (String × Json)
  | object ms => ms
  | _ => []

/-- The member with the given name, `null` when there is none. -/
def get (v : Json) (name : String) : Json :=
  (findEntry name v.members).getD null

/-- The items of an array; other values have none. -/
def items : Json → List Json
  | array vs => vs
  | _ => []

def string? : Json → Option String
  | string s => some s
  | _ => none

/-- The value of a whole number that is not negative. -/
def nat? : Json → Option Nat
  | number (.integer n) => if 0 ≤ n then some n.toNat else none
  | _ => none

mutual

/-- The number of brackets that are open at the deepest place of a value. -/
def depth : Json → Nat
  | array vs => itemsDepth vs + 1
  | object ms => membersDepth ms + 1
  | _ => 0

def itemsDepth : List Json → Nat
  | [] => 0
  | v :: vs => max v.depth (itemsDepth vs)

def membersDepth : List (String × Json) → Nat
  | [] => 0
  | m :: ms => max m.2.depth (membersDepth ms)

end

end Json

end Courseware
