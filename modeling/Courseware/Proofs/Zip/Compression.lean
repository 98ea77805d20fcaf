import Courseware.Proofs.Zip.Factoring

/-!
# Compression

Decompression inverts compression for all bytes and every effort.
-/

namespace Courseware.Zip

theorem Symbol.bits_ne_nil (s : Symbol) : s.bits ≠ [] := by
  cases s with
  | literal b =>
    intro h
    have hlen := congrArg List.length h
    simp only [Symbol.bits, fixedWord] at hlen
    split at hlen
    · simp [codeWord] at hlen
    · split at hlen
      · simp [codeWord] at hlen
      · split at hlen <;> simp [codeWord] at hlen
  | copy length distance =>
    intro h
    have hlen := congrArg List.length h
    simp [Symbol.bits, codeWord] at hlen

/-- There are at least as many bits as symbols. -/
theorem length_le_length_flatMap_bits (symbols : List Symbol) :
    symbols.length ≤ (symbols.flatMap Symbol.bits).length := by
  induction symbols with
  | nil => simp
  | cons s symbols ih =>
    have hpos := List.length_pos_iff.mpr s.bits_ne_nil
    simp only [List.flatMap_cons, List.length_append, List.length_cons]
    omega

/-- Symbols are read and expanded up to the end of their block. -/
theorem inflateSymbols_flatMap_bits {symbols : List Symbol} {out result : Array UInt8}
    {fuel : Nat} (rest : List Bool) (hwritable : ∀ s ∈ symbols, s.Writable)
    (hexpand : symbols.foldlM Symbol.expand out = some result)
    (hfuel : symbols.length < fuel) :
    inflateSymbols fixedLengths fixedDistances out
        (symbols.flatMap Symbol.bits ++ (fixedWord endOfBlock ++ rest)) fuel =
      some (result, rest) := by
  induction symbols generalizing out fuel with
  | nil =>
    obtain ⟨fuel, rfl⟩ : ∃ k, fuel = k + 1 := ⟨fuel - 1, by simp at hfuel; omega⟩
    have hout : out = result := by simpa using hexpand
    simp [inflateSymbols, readSymbol_endOfBlock, hout]
  | cons s symbols ih =>
    obtain ⟨fuel, rfl⟩ : ∃ k, fuel = k + 1 := ⟨fuel - 1, by simp at hfuel; omega⟩
    obtain ⟨next, hnext, hrest⟩ := Option.bind_eq_some_iff.mp
      (show (s.expand out).bind (fun next => symbols.foldlM Symbol.expand next) =
        some result from hexpand)
    have hlater : ∀ t ∈ symbols, t.Writable := fun t ht =>
      hwritable t (List.mem_cons_of_mem _ ht)
    rw [List.flatMap_cons, List.append_assoc, inflateSymbols,
      readSymbol_bits (hwritable s List.mem_cons_self)]
    simp only [hnext]
    exact ih hlater hrest (by simp only [List.length_cons] at hfuel; omega)

/-- A single block is read whatever follows it. -/
theorem inflateBlocks_blockBits {symbols : List Symbol} {result : Array UInt8}
    (fuel : Nat) (rest : List Bool) (hwritable : ∀ s ∈ symbols, s.Writable)
    (hexpand : expand symbols = some result) :
    inflateBlocks #[] (blockBits symbols ++ rest) (fuel + 1) = some result := by
  have hbits : blockBits symbols ++ rest =
      bitsOfNat 1 1 ++ (bitsOfNat 2 1 ++
        (symbols.flatMap Symbol.bits ++ (fixedWord endOfBlock ++ rest))) := by
    simp [blockBits, bitsOfNat]
  have hcount := length_le_length_flatMap_bits symbols
  rw [hbits, inflateBlocks, takeBits_bitsOfNat (by decide)]
  simp only [bind, Option.bind]
  rw [takeBits_bitsOfNat (by decide)]
  simp only [inflateBlock]
  rw [inflateSymbols_flatMap_bits rest hwritable hexpand
    (by simp only [List.length_append]; omega)]
  rfl

/-- Compressed bytes are decompressed to the bytes that they were made of. -/
theorem inflate?_deflate (effort : Nat) (bytes : Bytes) :
    inflate? (deflate effort bytes) = some bytes := by
  obtain ⟨padding, hbits⟩ :=
    bitsOfBytes_bytesOfBits (blockBits (factor effort bytes.toArray))
  have hread := fun fuel => inflateBlocks_blockBits fuel padding
    (fun s hs => writable_of_mem_factor hs) (expand_factor effort bytes.toArray)
  simp only [inflate?, deflate, hbits, hread, Option.map_some]

end Courseware.Zip
