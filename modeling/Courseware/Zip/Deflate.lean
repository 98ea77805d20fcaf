import Courseware.Zip.Bits
import Std.Data.HashMap

/-!
Compression. Bytes are factored into literal bytes and copies of earlier bytes, and these symbols are
written with the fixed prefix code of the format in a single block.
-/

namespace Courseware.Zip

/-- A piece of a factored text. -/
inductive Symbol
  | literal (byte : UInt8)
  /-- Repeats some bytes that were written the given distance before. -/
  | copy (length distance : Nat)
  deriving DecidableEq, Repr

/-- Appends bytes that stand the given distance before the end, one after the other, so that a copy may
reach into itself; none if the distance is too great. -/
def copyBytes (distance : Nat) (out : Array UInt8) : (length : Nat) → Option (Array UInt8)
  | 0 => some out
  | length + 1 =>
    if distance = 0 ∨ out.size < distance then none
    else
      match out[out.size - distance]? with
      | some b => copyBytes distance (out.push b) length
      | none => none

/-- Appends what a symbol stands for. -/
def Symbol.expand (out : Array UInt8) : Symbol → Option (Array UInt8)
  | literal b => some (out.push b)
  | copy length distance => copyBytes distance out length

/-- The bytes that symbols stand for. -/
def expand (symbols : List Symbol) : Option (Array UInt8) :=
  symbols.foldlM Symbol.expand #[]

/-! ## Factoring -/

def longestCopy : Nat := 258

def farthestCopy : Nat := 32768

/-- The number of equal bytes from two places on, at most `limit`. -/
def commonLength (data : Array UInt8) (i j : Nat) : (limit : Nat) → Nat
  | 0 => 0
  | limit + 1 =>
    match data[i]?, data[j]? with
    | some a, some b => if a = b then commonLength data (i + 1) (j + 1) limit + 1 else 0
    | _, _ => 0

/-- The three bytes from a place on as one number. -/
def trigram? (data : Array UInt8) (i : Nat) : Option Nat :=
  match data[i]?, data[i + 1]?, data[i + 2]? with
  | some a, some b, some c => some (a.toNat * 65536 + b.toNat * 256 + c.toNat)
  | _, _, _ => none

/-- The places where trigrams stand, the last ones first. -/
abbrev Places := Std.HashMap Nat (List Nat)

/-- Notes the places from `i` on, keeping the last `effort` of each trigram. -/
def notePlaces (effort : Nat) (data : Array UInt8) (places : Places) (i : Nat) :
    (count : Nat) → Places
  | 0 => places
  | count + 1 =>
    match trigram? data i with
    | some t =>
      let places := places.insert t ((i :: places.getD t []).take effort)
      notePlaces effort data places (i + 1) count
    | none => places

/-- The longest copy of what stands at `i` from one of some earlier places: its length and distance. -/
def bestCopy (data : Array UInt8) (i : Nat) (earlier : List Nat) : Nat × Nat :=
  earlier.foldl (fun best j =>
    if j < i ∧ i - j ≤ farthestCopy then
      let length := commonLength data i j longestCopy
      if best.1 < length then (length, i - j) else best
    else best) (0, 0)

/-- The symbols for the bytes from `i` on. The fuel bounds the number of symbols. -/
def factorFrom (effort : Nat) (data : Array UInt8) (places : Places) (i : Nat) :
    (fuel : Nat) → List Symbol
  | 0 => []
  | fuel + 1 =>
    match data[i]? with
    | none => []
    | some b =>
      let earlier := match trigram? data i with
        | some t => places.getD t []
        | none => []
      let (length, distance) := bestCopy data i earlier
      if 3 ≤ length then
        .copy length distance ::
          factorFrom effort data (notePlaces effort data places i length) (i + length) fuel
      else
        .literal b :: factorFrom effort data (notePlaces effort data places i 1) (i + 1) fuel

/-- The symbols for some bytes; `effort` places are tried for every copy. -/
def factor (effort : Nat) (data : Array UInt8) : List Symbol :=
  factorFrom effort data ∅ 0 data.size

/-! ## The fixed code -/

/-- The least value and the number of extra bits of each length code, from 257 on. -/
def lengthCodes : List (Nat × Nat) :=
  [(3, 0), (4, 0), (5, 0), (6, 0), (7, 0), (8, 0), (9, 0), (10, 0), (11, 1), (13, 1), (15, 1),
    (17, 1), (19, 2), (23, 2), (27, 2), (31, 2), (35, 3), (43, 3), (51, 3), (59, 3), (67, 4),
    (83, 4), (99, 4), (115, 4), (131, 5), (163, 5), (195, 5), (227, 5), (258, 0)]

/-- The least value and the number of extra bits of each distance code. -/
def distanceCodes : List (Nat × Nat) :=
  [(1, 0), (2, 0), (3, 0), (4, 0), (5, 1), (7, 1), (9, 2), (13, 2), (17, 3), (25, 3), (33, 4),
    (49, 4), (65, 5), (97, 5), (129, 6), (193, 6), (257, 7), (385, 7), (513, 8), (769, 8),
    (1025, 9), (1537, 9), (2049, 10), (3073, 10), (4097, 11), (6145, 11), (8193, 12), (12289, 12),
    (16385, 13), (24577, 13)]

/-- The last code whose least value does not exceed a value: its place, least value and extra bits. -/
def codeFor (codes : List (Nat × Nat)) (value : Nat) : Nat × Nat × Nat :=
  codes.zipIdx.foldl (fun best e => if e.1.1 ≤ value then (e.2, e.1) else best) (0, 0, 0)

/-- A code word of the given width: a number with its highest bit first. -/
def codeWord (width n : Nat) : List Bool := (bitsOfNat width n).reverse

/-- The code word of a literal, the end of a block, or a length, in the fixed code. -/
def fixedWord (symbol : Nat) : List Bool :=
  if symbol < 144 then codeWord 8 (48 + symbol)
  else if symbol < 256 then codeWord 9 (256 + symbol)
  else if symbol < 280 then codeWord 7 (symbol - 256)
  else codeWord 8 (symbol - 88)

/-- The symbol that ends a block. -/
def endOfBlock : Nat := 256

def Symbol.bits : Symbol → List Bool
  | literal b => fixedWord b.toNat
  | copy length distance =>
    let (l, lengthBase, lengthExtra) := codeFor lengthCodes length
    let (d, distanceBase, distanceExtra) := codeFor distanceCodes distance
    fixedWord (257 + l) ++ bitsOfNat lengthExtra (length - lengthBase) ++
      codeWord 5 d ++ bitsOfNat distanceExtra (distance - distanceBase)

/-- A single, last block in the fixed code. -/
def blockBits (symbols : List Symbol) : List Bool :=
  true :: bitsOfNat 2 1 ++ symbols.flatMap Symbol.bits ++ fixedWord endOfBlock

/-- Some bytes in compressed form. -/
def deflate (effort : Nat) (bytes : Bytes) : Bytes :=
  bytesOfBits (blockBits (factor effort bytes.toArray))

end Courseware.Zip
