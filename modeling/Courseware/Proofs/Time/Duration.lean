import Courseware.Time.Duration
import Mathlib.Data.Option.Basic

/-!
# Durations are read back

The two forms of durations, and readers of them and of the numbers in them. Each length of time is
written in its form and read back, so different lengths of time are written differently.
-/

namespace Courseware.Time

/-! ## Numbers -/

def number? (digits : List Char) : Option Nat :=
  if digits ≠ [] ∧ digits.all Char.isDigit then some (Nat.ofDigitChars 10 digits 0) else none

theorem all_isDigit_toDigits (n : Nat) : (Nat.toDigits 10 n).all Char.isDigit = true := by
  rw [List.all_eq_true]
  intro c hc
  exact Nat.isDigit_of_mem_toDigits (by decide) (by decide) hc

theorem toList_toString (n : Nat) : (toString n).toList = Nat.toDigits 10 n := by
  rw [Nat.toString_eq_ofList_toDigits, String.toList_ofList]

theorem number?_toDigits (n : Nat) : number? (Nat.toDigits 10 n) = some n := by
  rw [number?, if_pos ⟨Nat.toDigits_ne_nil, all_isDigit_toDigits n⟩,
    Nat.ofDigitChars_ten_toDigits]

theorem number?_twoDigits (n : Nat) : number? (twoDigits n).toList = some n := by
  rw [twoDigits]
  split
  · have hall : ('0' :: Nat.toDigits 10 n).all Char.isDigit = true := by
      rw [List.all_cons, all_isDigit_toDigits]
      rfl
    have hvalue : Nat.ofDigitChars 10 ('0' :: Nat.toDigits 10 n) 0 = n := by
      rw [Nat.ofDigitChars_cons]
      exact Nat.ofDigitChars_ten_toDigits
    rw [String.toList_append, toList_toString]
    change number? ('0' :: Nat.toDigits 10 n) = some n
    rw [number?, if_pos ⟨List.cons_ne_nil _ _, hall⟩, hvalue]
  · rw [toList_toString, number?_toDigits]

theorem length_twoDigits_eq_max (n : Nat) :
    (twoDigits n).toList.length = max 2 (Nat.toDigits 10 n).length := by
  have hpos : 0 < (Nat.toDigits 10 n).length := Nat.length_toDigits_pos
  have hone := Nat.length_toDigits_le_iff (b := 10) (n := n) (k := 1) (by decide) (by decide)
  rw [twoDigits]
  split
  · rw [String.toList_append, List.length_append, toList_toString]
    change 1 + (Nat.toDigits 10 n).length = _
    omega
  · rw [toList_toString]
    omega

theorem length_twoDigits {n : Nat} (h : n < 100) : (twoDigits n).toList.length = 2 := by
  have htwo := Nat.length_toDigits_le_iff (b := 10) (n := n) (k := 2) (by decide) (by decide)
  rw [length_twoDigits_eq_max]
  omega

theorem Clock.ofSeconds_lt (total : Nat) :
    (Clock.ofSeconds total).minutes < 60 ∧ (Clock.ofSeconds total).seconds < 60 := by
  simp only [Clock.ofSeconds]
  omega

/-! ## Time spans -/

/-- What stands before and after the first place of a character. -/
def cutAt (mark : Char) (cs : List Char) : List Char × List Char :=
  (cs.takeWhile (· != mark), (cs.dropWhile (· != mark)).drop 1)

theorem cutAt_append {mark : Char} {before : List Char} (h : ∀ c ∈ before, c ≠ mark)
    (after : List Char) : cutAt mark (before ++ mark :: after) = (before, after) := by
  have hall : ∀ c ∈ before, (c != mark) = true := fun c hc => by simpa using h c hc
  rw [cutAt, List.takeWhile_append_of_pos hall, List.dropWhile_append_of_pos hall]
  simp

theorem cutAt_of_forall_ne {mark : Char} {cs : List Char} (h : ∀ c ∈ cs, c ≠ mark) :
    cutAt mark cs = (cs, []) := by
  induction cs with
  | nil => rfl
  | cons c cs ih =>
    obtain ⟨hc, hcs⟩ := List.forall_mem_cons.mp h
    obtain ⟨hbefore, hafter⟩ := Prod.mk.inj (ih hcs)
    simp only [cutAt, List.takeWhile_cons, List.dropWhile_cons, bne_iff_ne.mpr hc, if_true,
      hbefore, hafter]

/-- The number of seconds that a time span tells. -/
def secondsOfTimespan? (s : String) : Option Nat := do
  let (hours, rest) := cutAt ':' s.toList
  let (minutes, seconds) := cutAt ':' rest
  let hours ← number? hours
  let minutes ← number? minutes
  let seconds ← number? seconds
  return (Clock.mk hours minutes seconds).toSeconds

theorem isDigit_of_mem_twoDigits {n : Nat} {c : Char} (hc : c ∈ (twoDigits n).toList) :
    c.isDigit = true := by
  have hdigits := number?_twoDigits n
  rw [number?] at hdigits
  split at hdigits
  · rename_i h
    exact List.all_eq_true.mp h.2 c hc
  · simp at hdigits

theorem toList_timespan (total : Nat) :
    (timespan total).toList =
      (twoDigits (Clock.ofSeconds total).hours).toList ++ ':' ::
        ((twoDigits (Clock.ofSeconds total).minutes).toList ++ ':' ::
          (twoDigits (Clock.ofSeconds total).seconds).toList) := by
  simp [timespan]

theorem secondsOfTimespan?_timespan (total : Nat) :
    secondsOfTimespan? (timespan total) = some total := by
  have hcolon : ∀ n, ∀ c ∈ (twoDigits n).toList, c ≠ ':' := by
    rintro n c hc rfl
    exact absurd (isDigit_of_mem_twoDigits hc) (by decide)
  rw [secondsOfTimespan?, toList_timespan]
  simp only [cutAt_append (hcolon _), number?_twoDigits, bind, Option.bind]
  exact congrArg some (Clock.toSeconds_ofSeconds total)

/-- Whether a text shows a clock as hours of two digits or more, minutes and seconds of two digits
each, with colons between them. -/
def SpellsTimespan (clock : Clock) (text : String) : Prop :=
  ∃ hours minutes seconds, text.toList = hours ++ ':' :: (minutes ++ ':' :: seconds) ∧
    2 ≤ hours.length ∧ minutes.length = 2 ∧ seconds.length = 2 ∧
    number? hours = some clock.hours ∧ number? minutes = some clock.minutes ∧
    number? seconds = some clock.seconds

theorem spellsTimespan_timespan (total : Nat) :
    SpellsTimespan (Clock.ofSeconds total) (timespan total) := by
  obtain ⟨hminutes, hseconds⟩ := Clock.ofSeconds_lt total
  refine ⟨_, _, _, toList_timespan total, ?_, length_twoDigits (by omega),
    length_twoDigits (by omega), number?_twoDigits _, number?_twoDigits _, number?_twoDigits _⟩
  rw [length_twoDigits_eq_max]
  exact Nat.le_max_left 2 _

theorem timespan_injective : Function.Injective timespan := by
  have hread : secondsOfTimespan? ∘ timespan = some := funext secondsOfTimespan?_timespan
  exact .of_comp (hread ▸ Option.some_injective Nat)

/-! ## ISO 8601 -/

/-- The number of seconds that the components of a duration tell together with the given total,
where `n` is the number read so far of the next component. -/
def componentsFrom (total n : Nat) : List Char → Option Nat
  | [] => some total
  | 'H' :: cs => componentsFrom (total + n * 3600) 0 cs
  | 'M' :: cs => componentsFrom (total + n * 60) 0 cs
  | 'S' :: cs => componentsFrom (total + n) 0 cs
  | c :: cs =>
    if c.isDigit then componentsFrom total (10 * n + (c.toNat - '0'.toNat)) cs else none

/-- The number of seconds of a duration. -/
def secondsOfIso8601? (s : String) : Option Nat :=
  match s.toList with
  | 'P' :: 'T' :: cs => componentsFrom 0 0 cs
  | _ => none

theorem componentsFrom_digits {digits : List Char} (h : digits.all Char.isDigit = true)
    (total n : Nat) (rest : List Char) :
    componentsFrom total n (digits ++ rest) =
      componentsFrom total (Nat.ofDigitChars 10 digits n) rest := by
  induction digits generalizing n with
  | nil => rw [List.nil_append, Nat.ofDigitChars_nil]
  | cons c digits ih =>
    obtain ⟨hc, hdigits⟩ := Bool.and_eq_true_iff.mp (List.all_cons ▸ h)
    have hmarks : c ≠ 'H' ∧ c ≠ 'M' ∧ c ≠ 'S' := by
      refine ⟨?_, ?_, ?_⟩
      · rintro rfl
        exact absurd hc (by decide)
      · rintro rfl
        exact absurd hc (by decide)
      · rintro rfl
        exact absurd hc (by decide)
    rw [List.cons_append, componentsFrom, if_pos hc, ih hdigits, Nat.ofDigitChars_cons]
    · exact hmarks.1
    · exact hmarks.2.1
    · exact hmarks.2.2

/-- A component is read as its number, also when it is left out. -/
theorem componentsFrom_component (c : Char) (unit total n : Nat) {mark : String}
    (hmark : mark.toList = [c])
    (hstep : ∀ total n rest, componentsFrom total n (c :: rest) =
      componentsFrom (total + n * unit) 0 rest) (rest : List Char) :
    componentsFrom total 0 ((component n mark).toList ++ rest) =
      componentsFrom (total + n * unit) 0 rest := by
  rw [component]
  split
  · rename_i hzero
    simp [hzero]
  · rw [String.toList_append, hmark, toList_toString, List.append_assoc,
      componentsFrom_digits (all_isDigit_toDigits n), Nat.ofDigitChars_ten_toDigits,
      List.singleton_append, hstep]

theorem toList_iso8601 {total : Nat} (h : total ≠ 0) :
    (iso8601 total).toList = 'P' :: 'T' ::
      ((component (Clock.ofSeconds total).hours "H").toList ++
        ((component (Clock.ofSeconds total).minutes "M").toList ++
          (component (Clock.ofSeconds total).seconds "S").toList)) := by
  rw [iso8601, if_neg h]
  simp

theorem secondsOfIso8601?_iso8601 (total : Nat) :
    secondsOfIso8601? (iso8601 total) = some total := by
  by_cases hzero : total = 0
  · subst hzero
    rfl
  · have hsplit := toList_iso8601 hzero
    rw [← List.append_nil (component _ "S").toList] at hsplit
    simp only [secondsOfIso8601?, hsplit]
    rw [componentsFrom_component 'H' 3600 0 _ (by decide) (fun _ _ _ => rfl),
      componentsFrom_component 'M' 60 _ _ (by decide) (fun _ _ _ => rfl),
      componentsFrom_component 'S' 1 _ _ (by decide)
        (fun total n _ => by rw [componentsFrom, Nat.mul_one])]
    have htotal := Clock.toSeconds_ofSeconds total
    simp only [Clock.toSeconds] at htotal
    rw [componentsFrom]
    exact congrArg some (by omega)

theorem iso8601_injective : Function.Injective iso8601 := by
  have hread : secondsOfIso8601? ∘ iso8601 = some := funext secondsOfIso8601?_iso8601
  exact .of_comp (hread ▸ Option.some_injective Nat)

/-- A component of a duration that may be left out. -/
def componentChars (mark : Char) : Option Nat → List Char
  | none => []
  | some n => Nat.toDigits 10 n ++ [mark]

/-- Whether a text is hours, minutes and seconds, of which some are left out but not all. -/
structure WritesComponents (hours minutes seconds : Option Nat) (text : String) : Prop where
  chars : text.toList = 'P' :: 'T' :: (componentChars 'H' hours ++
    (componentChars 'M' minutes ++ componentChars 'S' seconds))
  written : hours.isSome ∨ minutes.isSome ∨ seconds.isSome
  minutes_lt : ∀ m ∈ minutes, m < 60
  seconds_lt : ∀ s ∈ seconds, s < 60

/-- Whether a text is a duration of some seconds, without zero components unless there are no
seconds at all. -/
def SpellsDuration (total : Nat) (text : String) : Prop :=
  ∃ hours minutes seconds, WritesComponents hours minutes seconds text ∧
    (Clock.mk (hours.getD 0) (minutes.getD 0) (seconds.getD 0)).toSeconds = total ∧
    (hours ≠ some 0 ∧ minutes ≠ some 0 ∧ seconds ≠ some 0 ∨ total = 0 ∧ text = "PT0S")

/-- A number unless it is zero. -/
def nonzero? (n : Nat) : Option Nat := if n = 0 then none else some n

theorem getD_nonzero? (n : Nat) : (nonzero? n).getD 0 = n := by
  by_cases hzero : n = 0 <;> simp [nonzero?, hzero]

theorem nonzero?_ne_zero (n : Nat) : nonzero? n ≠ some 0 := by
  by_cases hzero : n = 0 <;> simp [nonzero?, hzero]

theorem isSome_nonzero? {n : Nat} : (nonzero? n).isSome ↔ n ≠ 0 := by
  by_cases hzero : n = 0 <;> simp [nonzero?, hzero]

theorem eq_of_mem_nonzero? {n m : Nat} (h : m ∈ nonzero? n) : m = n := by
  rw [← getD_nonzero? n, Option.mem_def.mp h]
  rfl

theorem toList_component {mark : String} {c : Char} (hmark : mark.toList = [c]) (n : Nat) :
    (component n mark).toList = componentChars c (nonzero? n) := by
  rw [component, nonzero?]
  split
  · rfl
  · rw [String.toList_append, toList_toString, hmark]
    rfl

theorem writesComponents_iso8601 {total : Nat} (h : total ≠ 0) :
    WritesComponents (nonzero? (Clock.ofSeconds total).hours)
      (nonzero? (Clock.ofSeconds total).minutes) (nonzero? (Clock.ofSeconds total).seconds)
      (iso8601 total) where
  chars := by
    rw [toList_iso8601 h, toList_component (c := 'H') (by decide),
      toList_component (c := 'M') (by decide), toList_component (c := 'S') (by decide)]
  written := by
    have htotal := Clock.toSeconds_ofSeconds total
    simp only [Clock.toSeconds] at htotal
    simp only [isSome_nonzero?]
    omega
  minutes_lt _ hm := eq_of_mem_nonzero? hm ▸ (Clock.ofSeconds_lt total).1
  seconds_lt _ hs := eq_of_mem_nonzero? hs ▸ (Clock.ofSeconds_lt total).2

theorem spellsDuration_iso8601 (total : Nat) : SpellsDuration total (iso8601 total) := by
  by_cases hzero : total = 0
  · subst hzero
    refine ⟨none, none, some 0, ⟨by decide, .inr (.inr rfl), ?_, ?_⟩, rfl, .inr ⟨rfl, rfl⟩⟩
    · simp
    · simp
  · refine ⟨_, _, _, writesComponents_iso8601 hzero, ?_,
      .inl ⟨nonzero?_ne_zero _, nonzero?_ne_zero _, nonzero?_ne_zero _⟩⟩
    rw [getD_nonzero?, getD_nonzero?, getD_nonzero?]
    exact Clock.toSeconds_ofSeconds total

/-! ## Minutes -/

/-- Minutes of 32 bits are seconds of 64 bits. -/
theorem toNat_mul_sixty (m : UInt32) : (m.toUInt64 * 60).toNat = m.toNat * 60 := by
  have hlt := m.toNat_lt
  rw [UInt64.toNat_mul, UInt32.toNat_toUInt64]
  exact Nat.mod_eq_of_lt (by change m.toNat * 60 < 2 ^ 64; omega)

theorem secondsOfIso8601?_iso8601OfMinutes (minutes : Nat) :
    secondsOfIso8601? (iso8601OfMinutes minutes) = some (60 * minutes) := by
  rw [iso8601OfMinutes, secondsOfIso8601?_iso8601, Nat.mul_comm]

theorem iso8601OfMinutes_injective : Function.Injective iso8601OfMinutes :=
  iso8601_injective.comp fun _ _ h => Nat.eq_of_mul_eq_mul_right (by decide) h

/-! ## All durations -/

/-- A duration is hours, minutes and seconds without those that are zero, a time span is hours of
two digits or more, minutes and seconds, and both are read back as the seconds that they were made
of. Minutes are durations of sixty times as many seconds, for which 64 bits are enough. So different
lengths of time are written differently. -/
theorem durations_recovered :
    (∀ n, SpellsDuration n (iso8601 n) ∧ secondsOfIso8601? (iso8601 n) = some n) ∧
      (∀ n, SpellsTimespan (Clock.ofSeconds n) (timespan n) ∧
        (Clock.ofSeconds n).minutes < 60 ∧ (Clock.ofSeconds n).seconds < 60 ∧
        (Clock.ofSeconds n).toSeconds = n ∧ secondsOfTimespan? (timespan n) = some n) ∧
      (∀ m : UInt32, iso8601OfMinutes m.toNat = iso8601 (m.toUInt64 * 60).toNat ∧
        secondsOfIso8601? (iso8601OfMinutes m.toNat) = some (60 * m.toNat)) ∧
      Function.Injective iso8601 ∧ Function.Injective timespan ∧
      Function.Injective iso8601OfMinutes := by
  refine ⟨fun n => ⟨spellsDuration_iso8601 n, secondsOfIso8601?_iso8601 n⟩, fun n => ?_,
    fun m => ⟨?_, secondsOfIso8601?_iso8601OfMinutes m.toNat⟩, iso8601_injective,
    timespan_injective, iso8601OfMinutes_injective⟩
  · obtain ⟨hminutes, hseconds⟩ := Clock.ofSeconds_lt n
    exact ⟨spellsTimespan_timespan n, hminutes, hseconds, Clock.toSeconds_ofSeconds n,
      secondsOfTimespan?_timespan n⟩
  · rw [iso8601OfMinutes, toNat_mul_sixty]

end Courseware.Time
