import Courseware.Zip.Bits

/-!
Prefix codes. A code is given by the length of each symbol's code word: words of one length are
consecutive numbers in the order of their symbols, and shorter words come first.
-/

namespace Courseware.Zip

def longestWord : Nat := 15

/-- A prefix code. -/
structure PrefixCode where
  /-- The number of code words of each length, from one on. -/
  counts : List Nat
  /-- The symbols in the order of their code words. -/
  symbols : Array Nat

namespace PrefixCode

/-- The code with the given lengths of code words, where a symbol of length zero has none. -/
def ofLengths (lengths : List Nat) : PrefixCode :=
  let sizes := List.range' 1 longestWord
  { counts := sizes.map fun n => lengths.count n
    symbols :=
      (sizes.flatMap fun n =>
        lengths.zipIdx.filterMap fun e => if e.1 = n then some e.2 else none).toArray }

/-- How many more words of the greatest length could follow those of the given counts, when `room` words
of the length before the first are still free; none if there are too many words. -/
def spare? (room : Nat) : List Nat → Option Nat
  | [] => some room
  | count :: counts => if 2 * room < count then none else spare? (2 * room - count) counts

/-- Whether every sequence of bits starts with a code word. -/
def complete (c : PrefixCode) : Bool := spare? 1 c.counts == some 0

/-- Whether the code can be used: it is complete, or has at most one word of one bit. -/
def usable (c : PrefixCode) : Bool :=
  match spare? 1 c.counts with
  | none => false
  | some room => room == 0 || (c.counts.drop 1).all (· == 0)

/-- Reads a code word bit by bit. The words of the length before are the numbers from `first` on, `word` is
what has been read, and `index` counts the symbols with shorter words. -/
def readWord (symbols : Array Nat) (word first index : Nat) :
    List Nat → List Bool → Option (Nat × List Bool)
  | count :: counts, b :: bits =>
    let word := 2 * word + b.toNat
    let first := 2 * first
    if word < first + count then (symbols[index + (word - first)]?).map (·, bits)
    else readWord symbols word (first + count) (index + count) counts bits
  | _, _ => none

def read (c : PrefixCode) (bits : List Bool) : Option (Nat × List Bool) :=
  readWord c.symbols 0 0 0 c.counts bits

end PrefixCode

end Courseware.Zip
