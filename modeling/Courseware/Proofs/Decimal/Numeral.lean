import Courseware.Decimal.Shortest

/-!
# The characters of numbers

Numbers are written with digits, signs, points and the mark of an exponent, and with
nothing else.
-/

namespace Courseware.Decimal

/-- The characters that a number is written with. -/
def isNumeralChar (c : Char) : Bool :=
  c.isDigit || ['-', '+', '.', 'e'].contains c

/-- Whether a text looks like a number. -/
def IsNumeral (cs : List Char) : Prop := ∀ c ∈ cs, isNumeralChar c = true

theorem isNumeral_digits (n : Nat) : IsNumeral (Nat.toDigits 10 n) := by
  intro c hc
  rw [isNumeralChar, Nat.isDigit_of_mem_toDigits (by decide) (by decide) hc, Bool.true_or]

theorem isNumeral_zeros (n : Nat) : IsNumeral (List.replicate n '0') := by
  intro c hc
  rw [List.eq_of_mem_replicate hc]
  decide

theorem isNumeral_sign (d : Scientific) : IsNumeral d.sign.toList := by
  rw [Scientific.sign, IsNumeral]
  split
  · simp [isNumeralChar]
  · simp

theorem isNumeral_append {cs ds : List Char} (hcs : IsNumeral cs) (hds : IsNumeral ds) :
    IsNumeral (cs ++ ds) :=
  List.forall_mem_append.mpr ⟨hcs, hds⟩

theorem isNumeral_toString (n : Int) : IsNumeral (toString n).toList := by
  cases n with
  | ofNat n =>
    have hnat : (toString (Int.ofNat n)).toList = Nat.toDigits 10 n := by
      change (toString n).toList = _
      rw [Nat.toString_eq_ofList_toDigits, String.toList_ofList]
    rw [hnat]
    exact isNumeral_digits n
  | negSucc n =>
    have hneg : (toString (Int.negSucc n)).toList = ['-'] ++ Nat.toDigits 10 (n + 1) := by
      change ("-" ++ toString (n + 1)).toList = _
      simp only [String.toList_append, Nat.toString_eq_ofList_toDigits, String.toList_ofList]
      rfl
    rw [hneg]
    exact isNumeral_append (List.forall_mem_singleton.mpr (by decide)) (isNumeral_digits _)

theorem isNumeral_positional (d : Scientific) {whole : String}
    (hwhole : IsNumeral whole.toList) : IsNumeral (d.positional whole).toList := by
  have hdigits := isNumeral_digits d.digits
  have hpoint : IsNumeral ['.'] := List.forall_mem_singleton.mpr (by decide)
  have hzero : IsNumeral ['0', '.'] := by simp [IsNumeral, isNumeralChar]
  rw [Scientific.positional]
  dsimp only
  split
  · simp only [String.toList_append, String.toList_ofList]
    exact isNumeral_append (isNumeral_append (isNumeral_append (isNumeral_sign d) hdigits)
      (isNumeral_zeros _)) hwhole
  · split
    · simp only [String.toList_append, String.toList_ofList]
      exact isNumeral_append (isNumeral_append (isNumeral_append (isNumeral_sign d)
        fun c hc => hdigits c (List.mem_of_mem_take hc)) hpoint)
        fun c hc => hdigits c (List.mem_of_mem_drop hc)
    · simp only [String.toList_append, String.toList_ofList]
      exact isNumeral_append (isNumeral_append (isNumeral_append (isNumeral_sign d) hzero)
        (isNumeral_zeros _)) hdigits

theorem isNumeral_exponential (d : Scientific) : IsNumeral d.exponential.toList := by
  have hdigits := isNumeral_digits d.digits
  rw [Scientific.exponential]
  simp only [String.toList_append, String.toList_ofList]
  refine isNumeral_append (isNumeral_append (isNumeral_append (isNumeral_append
    (isNumeral_sign d) fun c hc => hdigits c (List.mem_of_mem_take hc)) ?_) ?_) ?_
  · split
    · simp [IsNumeral]
    · have hrest : IsNumeral ((Nat.toDigits 10 d.digits).drop 1) :=
        fun c hc => hdigits c (List.mem_of_mem_drop hc)
      simp only [String.toList_append, String.toList_ofList]
      exact isNumeral_append (List.forall_mem_singleton.mpr (by decide)) hrest
  · split <;> simp [IsNumeral, isNumeralChar]
  · rw [Nat.toString_eq_ofList_toDigits, String.toList_ofList]
    exact isNumeral_digits _

theorem isNumeral_plainText (x : Binary64) : IsNumeral (plainText x).toList :=
  isNumeral_positional _ (by simp [IsNumeral])

theorem isNumeral_dataText (x : Binary64) : IsNumeral (dataText x).toList := by
  have hwhole : IsNumeral ".0".toList := by simp [IsNumeral, isNumeralChar]
  rw [dataText]
  split
  · exact isNumeral_positional _ hwhole
  · split
    · exact isNumeral_positional _ hwhole
    · exact isNumeral_exponential _

end Courseware.Decimal
