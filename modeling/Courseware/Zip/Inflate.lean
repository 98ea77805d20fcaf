import Courseware.Zip.Deflate
import Courseware.Zip.PrefixCode

/-!
Decompression. A stream is a sequence of blocks, which hold bytes as they are or symbols in the fixed code
or in a code of their own. A stream that ends before its last block does, or breaks the format, has no
result; what follows the last block is ignored.
-/

namespace Courseware.Zip

/-- Reads a number of the given width. -/
def takeBits (width : Nat) (bits : List Bool) : Option (Nat × List Bool) :=
  let taken := bits.take width
  if taken.length = width then some (natOfBits taken, bits.drop width) else none

/-! ## Symbols -/

/-- Reads the rest of a length or a distance with the given code. -/
def readValue (codes : List (Nat × Nat)) (code : Nat) (bits : List Bool) :
    Option (Nat × List Bool) := do
  let (base, extra) ← codes[code]?
  let (n, bits) ← takeBits extra bits
  return (base + n, bits)

/-- Reads a symbol; its absence stands for the end of the block. -/
def readSymbol (lengths distances : PrefixCode) (bits : List Bool) :
    Option (Option Symbol × List Bool) := do
  let (code, bits) ← lengths.read bits
  if code < endOfBlock then return (some (.literal (UInt8.ofNat code)), bits)
  else if code = endOfBlock then return (none, bits)
  else
    let (length, bits) ← readValue lengthCodes (code - 257) bits
    let (code, bits) ← distances.read bits
    let (distance, bits) ← readValue distanceCodes code bits
    return (some (.copy length distance), bits)

/-- Reads symbols up to the end of the block and expands them after what the stream has held so far. The
fuel bounds their number. -/
def inflateSymbols (lengths distances : PrefixCode) (out : Array UInt8) (bits : List Bool) :
    (fuel : Nat) → Option (Array UInt8 × List Bool)
  | 0 => none
  | fuel + 1 =>
    match readSymbol lengths distances bits with
    | none => none
    | some (none, bits) => some (out, bits)
    | some (some s, bits) =>
      match s.expand out with
      | some out => inflateSymbols lengths distances out bits fuel
      | none => none

/-! ## Codes -/

def fixedLengths : PrefixCode :=
  .ofLengths (List.replicate 144 8 ++ List.replicate 112 9 ++ List.replicate 24 7 ++
    List.replicate 8 8)

/-- The lengths of the fixed code words of distances. -/
def fixedDistances : PrefixCode := .ofLengths (List.replicate 32 5)

/-- The order in which the lengths of the code for lengths are given. -/
def lengthOrder : List Nat :=
  [16, 17, 18, 0, 8, 7, 9, 6, 10, 5, 11, 4, 12, 3, 13, 2, 14, 1, 15]

/-- Reads some numbers of three bits. -/
def readTriples (bits : List Bool) : (count : Nat) → Option (List Nat × List Bool)
  | 0 => some ([], bits)
  | count + 1 => do
    let (n, bits) ← takeBits 3 bits
    let (ns, bits) ← readTriples bits count
    return (n :: ns, bits)

/-- Reads the lengths of code words, the last ones first, until there are `total` of them. The fuel
bounds the number of steps. -/
def readLengths (code : PrefixCode) (total : Nat) (lengths : List Nat) (bits : List Bool) :
    (fuel : Nat) → Option (List Nat × List Bool)
  | 0 => none
  | fuel + 1 =>
    if lengths.length = total then some (lengths, bits)
    else if total < lengths.length then none
    else do
      let (s, bits) ← code.read bits
      if s < 16 then readLengths code total (s :: lengths) bits fuel
      else if s = 16 then
        let last ← lengths.head?
        let (n, bits) ← takeBits 2 bits
        readLengths code total (List.replicate (n + 3) last ++ lengths) bits fuel
      else
        let (n, bits) ← if s = 17 then takeBits 3 bits else takeBits 7 bits
        let count := if s = 17 then n + 3 else n + 11
        readLengths code total (List.replicate count 0 ++ lengths) bits fuel

/-- Reads the codes of a block that has its own. -/
def readCodes (bits : List Bool) : Option (PrefixCode × PrefixCode × List Bool) := do
  let (literals, bits) ← takeBits 5 bits
  let (distances, bits) ← takeBits 5 bits
  let (given, bits) ← takeBits 4 bits
  let literals := literals + 257
  let distances := distances + 1
  if 286 < literals ∨ 30 < distances then none
  else
    let (triples, bits) ← readTriples bits (given + 4)
    let code := PrefixCode.ofLengths
      ((List.range 19).map fun s =>
        (((lengthOrder.zip triples).find? fun e => e.1 == s).map Prod.snd).getD 0)
    if !code.complete then none
    else
      let total := literals + distances
      let (reversed, bits) ← readLengths code total [] bits (total + 1)
      let lengths := reversed.reverse
      let first := PrefixCode.ofLengths (lengths.take literals)
      let second := PrefixCode.ofLengths (lengths.drop literals)
      if lengths[endOfBlock]? = some 0 ∨ !first.usable ∨ !second.usable then none
      else return (first, second, bits)

/-! ## Blocks -/

/-- Reads a block of bytes that are given as they are, which starts with a full byte. -/
def inflateStored (out : Array UInt8) (bits : List Bool) : Option (Array UInt8 × List Bool) := do
  let bits := bits.drop (bits.length % 8)
  let (length, bits) ← takeBits 16 bits
  let (check, bits) ← takeBits 16 bits
  let taken := bits.take (8 * length)
  if length + check = 65535 ∧ taken.length = 8 * length then
    return (out ++ (bytesOfBits taken).toArray, bits.drop (8 * length))
  else none

/-- Reads the content of a block of the given kind. -/
def inflateBlock (kind : Nat) (out : Array UInt8) (bits : List Bool) :
    Option (Array UInt8 × List Bool) :=
  match kind with
  | 0 => inflateStored out bits
  | 1 => inflateSymbols fixedLengths fixedDistances out bits (bits.length + 1)
  | 2 => do
    let (lengths, distances, bits) ← readCodes bits
    inflateSymbols lengths distances out bits (bits.length + 1)
  | _ => none

/-- Reads blocks up to the last one. The fuel bounds their number. -/
def inflateBlocks (out : Array UInt8) (bits : List Bool) : (fuel : Nat) → Option (Array UInt8)
  | 0 => none
  | fuel + 1 => do
    let (last, bits) ← takeBits 1 bits
    let (kind, bits) ← takeBits 2 bits
    let (out, bits) ← inflateBlock kind out bits
    if last = 1 then return out else inflateBlocks out bits fuel

/-- The bytes that a compressed stream holds. -/
def inflate? (bytes : Bytes) : Option Bytes :=
  let bits := bitsOfBytes bytes
  (inflateBlocks #[] bits (bits.length + 1)).map (·.toList)

end Courseware.Zip
