import Courseware.Package.Registry
import Mathlib.Data.List.Nodup

/-!
# Names of formats

A name stands for a format if one of the format's own names is left when white space around it,
separators and the case of letters are disregarded. Of all characters outside ASCII only the Kelvin
sign is an ASCII letter in lower case, and no name of a format has that letter, so the letters that
count are those of ASCII. A registry finds the last exporter for the format that a name stands for.
-/

namespace Courseware

open Text (lowerChar)

namespace Format

/-! ## Names -/

/-- The names of a format, in lower case and without separators. -/
def names : Format → List String
  | scorm .v12 => ["scorm12"]
  | scorm .v2004 => ["scorm2004"]
  | xapi => ["xapi", "tincan"]
  | cmi5 => ["cmi5"]
  | html5 => ["html5", "html"]

/-- A name without white space around it and without separators. -/
def bareName (name : String) : String :=
  String.ofList ((Text.trim name).toList.filter fun c => !isSeparator c)

/-- What Unicode says of lower-case forms as far as ASCII goes: ASCII characters have the forms of
ASCII, the Kelvin sign becomes a `k`, and the form of any other character has a character outside
ASCII. -/
structure LowersCase (lower : Char → List Char) : Prop where
  ascii : ∀ c, c.toNat < 128 → lower c = [lowerChar c]
  kelvin : lower '\u212A' = ['k']
  other : ∀ c, 128 ≤ c.toNat → c ≠ '\u212A' → ∃ x ∈ lower c, 128 ≤ x.toNat

/-- Outside ASCII there are no ASCII capitals. -/
theorem lowerChar_of_not_ascii {c : Char} (h : 128 ≤ c.toNat) : lowerChar c = c := by
  rw [lowerChar, if_neg]
  rw [Bool.and_eq_true, decide_eq_true_eq, decide_eq_true_eq]
  rintro ⟨-, hlast⟩
  have : c.toNat ≤ 90 := hlast
  omega

theorem lowersCase_lowerForm : LowersCase lowerForm where
  ascii c hc := by
    rw [lowerForm, if_neg, if_neg]
    · rintro rfl
      exact absurd hc (by decide)
    · rintro rfl
      exact absurd hc (by decide)
  kelvin := by decide
  other c hc hkelvin := by
    rw [lowerForm]
    split
    · exact ⟨'\u0307', by decide, by decide⟩
    · refine ⟨lowerChar c, List.mem_singleton_self _, ?_⟩
      rwa [lowerChar_of_not_ascii hc]

theorem ofPlainName?_eq_some_iff {plain : String} {format : Format} :
    ofPlainName? plain = some format ↔ plain ∈ format.names := by
  constructor
  · intro h
    unfold ofPlainName? at h
    split at h
    all_goals cases h
    all_goals decide
  · intro h
    cases format with
    | scorm version =>
      cases version
      all_goals (rw [names, List.mem_singleton] at h; rw [h]; rfl)
    | cmi5 =>
      rw [names, List.mem_singleton] at h
      rw [h]
      rfl
    | xapi =>
      rw [names, List.mem_cons, List.mem_singleton] at h
      rcases h with rfl | rfl <;> rfl
    | html5 =>
      rw [names, List.mem_cons, List.mem_singleton] at h
      rcases h with rfl | rfl <;> rfl

theorem mem_all (format : Format) : format ∈ all := by
  cases format with
  | scorm version => cases version <;> decide
  | _ => decide

/-- The names of formats are ASCII texts without the letter that the Kelvin sign becomes. -/
theorem ascii_of_mem_names {format : Format} {plain : String} (h : plain ∈ format.names) :
    ∀ c ∈ plain.toList, c.toNat < 128 ∧ c ≠ 'k' := by
  have hall : ∀ f ∈ all, ∀ s ∈ f.names, ∀ c ∈ s.toList, c.toNat < 128 ∧ c ≠ 'k' := by
    decide +kernel
  exact hall format (mem_all format) plain h

/-! ## Lower case -/

variable {lower : Char → List Char}

theorem LowersCase.flatMap_eq (hlower : LowersCase lower) {cs : List Char}
    (h : ∀ c ∈ cs, c.toNat < 128) : cs.flatMap lower = cs.map lowerChar := by
  induction cs with
  | nil => rfl
  | cons c cs ih =>
    obtain ⟨hc, hcs⟩ := List.forall_mem_cons.mp h
    rw [List.flatMap_cons, hlower.ascii c hc, ih hcs]
    rfl

/-- An ASCII text without `k` is the lower-case form of ASCII texts only. -/
theorem LowersCase.flatMap_eq_iff (hlower : LowersCase lower) {cs target : List Char}
    (htarget : ∀ c ∈ target, c.toNat < 128 ∧ c ≠ 'k') :
    cs.flatMap lower = target ↔ cs.map lowerChar = target := by
  have hforward (h : cs.flatMap lower = target) : ∀ c ∈ cs, c.toNat < 128 := by
    intro c hc
    by_contra hlarge
    -- Outside ASCII only the Kelvin sign is lowered to a letter, which is the excluded one.
    by_cases hkelvin : c = '\u212A'
    · have hmem : 'k' ∈ target := by
        rw [← h, List.mem_flatMap]
        exact ⟨c, hc, by rw [hkelvin, hlower.kelvin]; exact List.mem_singleton_self _⟩
      exact (htarget 'k' hmem).2 rfl
    · obtain ⟨x, hx, hxlarge⟩ := hlower.other c (Nat.le_of_not_lt hlarge) hkelvin
      have hmem : x ∈ target := h ▸ List.mem_flatMap.mpr ⟨c, hc, hx⟩
      exact absurd (htarget x hmem).1 (Nat.not_lt.mpr hxlarge)
  have hbackward (h : cs.map lowerChar = target) : ∀ c ∈ cs, c.toNat < 128 := by
    intro c hc
    by_contra hlarge
    have hmem : c ∈ target := by
      rw [← h, List.mem_map]
      exact ⟨c, hc, lowerChar_of_not_ascii (Nat.le_of_not_lt hlarge)⟩
    exact hlarge (htarget c hmem).1
  constructor
  · intro h
    rw [← hlower.flatMap_eq (hforward h), h]
  · intro h
    rw [hlower.flatMap_eq (hbackward h), h]

/-- However the characters outside ASCII are lowered, a name stands for a format exactly if
one of its names is left of it. -/
theorem LowersCase.ofPlainName?_eq_some_iff (hlower : LowersCase lower) {name : String}
    {format : Format} :
    ofPlainName? (String.ofList ((bareName name).toList.flatMap lower)) = some format ↔
      Text.lower (bareName name) ∈ format.names := by
  rw [Format.ofPlainName?_eq_some_iff, Text.lower]
  constructor
  · intro h
    have htarget := ascii_of_mem_names h
    rw [String.toList_ofList] at htarget
    rwa [← (hlower.flatMap_eq_iff htarget).mp rfl] at h
  · intro h
    have htarget := ascii_of_mem_names h
    rw [String.toList_ofList] at htarget
    rwa [← (hlower.flatMap_eq_iff htarget).mpr rfl] at h

theorem ofName?_eq (name : String) :
    ofName? name = ofPlainName? (String.ofList ((bareName name).toList.flatMap lowerForm)) := by
  rw [ofName?, plainName, bareName, String.toList_ofList]

theorem ofName?_eq_some_iff {name : String} {format : Format} :
    ofName? name = some format ↔ Text.lower (bareName name) ∈ format.names := by
  rw [ofName?_eq, lowersCase_lowerForm.ofPlainName?_eq_some_iff]

theorem ofName_eq_ok_iff {name : String} {format : Format} :
    ofName name = .ok format ↔ ofName? name = some format := by
  rw [ofName]
  cases ofName? name <;> simp

theorem ofName_eq_error_iff {name : String} {cause : Failure} :
    ofName name = .error cause ↔ ofName? name = none ∧ cause = .unknownFormat name := by
  rw [ofName]
  cases ofName? name <;> simp [eq_comm]

theorem ofName?_id (format : Format) : ofName? format.id = some format := by
  cases format with
  | scorm version => cases version <;> decide +kernel
  | _ => decide +kernel

end Format

namespace Registry

/-- Whether an exporter is the last one for its format. -/
def IsLast (exporters : List Exporter) (e : Exporter) : Prop :=
  ∃ before after, exporters = before ++ e :: after ∧ ∀ x ∈ after, x.format ≠ e.format

variable {exporters : List Exporter}

theorem exporter?_eq_some_iff {format : Format} {e : Exporter} :
    (ofExporters exporters).exporter? format = some e ↔
      e.format = format ∧ IsLast exporters e := by
  simp only [ofExporters, IsLast]
  rw [List.find?_eq_some_iff_append, beq_iff_eq]
  constructor
  · rintro ⟨rfl, after, before, hsplit, hafter⟩
    refine ⟨rfl, before.reverse, after.reverse, ?_, fun x hx => ?_⟩
    · rw [← List.reverse_inj, hsplit]
      simp
    · simpa using hafter x (List.mem_reverse.mp hx)
  · rintro ⟨rfl, before, after, rfl, hafter⟩
    refine ⟨rfl, after.reverse, before.reverse, by simp, fun x hx => ?_⟩
    simpa using hafter x (List.mem_reverse.mp hx)

theorem isSome_exporter?_iff {format : Format} :
    ((ofExporters exporters).exporter? format).isSome ↔
      format ∈ exporters.map Exporter.format := by
  simp [ofExporters, List.find?_isSome]

theorem mem_formats_iff {format : Format} :
    format ∈ (ofExporters exporters).formats ↔ format ∈ exporters.map Exporter.format := by
  rw [formats, List.mem_filter, isSome_exporter?_iff]
  exact and_iff_right (Format.mem_all format)

theorem resolve?_eq_some_iff {name : String} {e : Exporter} :
    (ofExporters exporters).resolve? name = some e ↔
      Format.ofName name = .ok e.format ∧ IsLast exporters e := by
  rw [resolve?, Option.bind_eq_some_iff, Format.ofName_eq_ok_iff]
  simp only [exporter?_eq_some_iff]
  constructor
  · rintro ⟨format, hname, rfl, hlast⟩
    exact ⟨hname, hlast⟩
  · rintro ⟨hname, hlast⟩
    exact ⟨e.format, hname, rfl, hlast⟩

theorem isSome_resolve?_iff {name : String} :
    ((ofExporters exporters).resolve? name).isSome ↔
      ∃ format ∈ exporters.map Exporter.format, Format.ofName name = .ok format := by
  simp only [resolve?, Format.ofName_eq_ok_iff]
  cases Format.ofName? name with
  | none => simp
  | some format => simp [isSome_exporter?_iff]

theorem nodup_formats (r : Registry) : r.formats.Nodup :=
  List.Nodup.sublist List.filter_sublist (by decide : Format.all.Nodup)

/-- A name stands for a format exactly if one of the names of the format is left when white space
around it, separators and the case of ASCII letters are disregarded, whatever the lower-case forms
of other characters are, and any other name is told as it was given. A registry resolves the names
of the formats that it has exporters for, each to the last exporter for its format, and it lists
these formats in their order, each once and with a name that is resolved. -/
theorem resolve?_named {lower : Char → List Char} (hlower : Format.LowersCase lower)
    (exporters : List Exporter) :
    (∀ name (format : Format), Format.ofName name = .ok format ↔
        Text.lower (Format.bareName name) ∈ format.names) ∧
      (∀ name, Format.ofName name = .error (.unknownFormat name) ↔
        ∀ format : Format, Text.lower (Format.bareName name) ∉ format.names) ∧
      (∀ name, Format.ofPlainName?
        (String.ofList ((Format.bareName name).toList.flatMap lower)) = Format.ofName? name) ∧
      (∀ name e, (ofExporters exporters).resolve? name = some e ↔
        Format.ofName name = .ok e.format ∧ IsLast exporters e) ∧
      (∀ name, ((ofExporters exporters).resolve? name).isSome ↔
        ∃ format ∈ exporters.map Exporter.format, Format.ofName name = .ok format) ∧
      (ofExporters exporters).formats.Sublist Format.all ∧
      (ofExporters exporters).formats.Nodup ∧
      (∀ format, format ∈ (ofExporters exporters).formats ↔
        format ∈ exporters.map Exporter.format) ∧
      ∀ format ∈ (ofExporters exporters).formats, ∃ e,
        (ofExporters exporters).exporter? format = some e ∧ e.format = format ∧
        (ofExporters exporters).resolve? format.id = some e := by
  refine ⟨fun name format => ?_, fun name => ?_, fun name => ?_, fun name e => resolve?_eq_some_iff,
    fun name => isSome_resolve?_iff, List.filter_sublist, nodup_formats _,
    fun format => mem_formats_iff, fun format hformat => ?_⟩
  · rw [Format.ofName_eq_ok_iff, Format.ofName?_eq_some_iff]
  · rw [Format.ofName_eq_error_iff, and_iff_left rfl, Option.eq_none_iff_forall_ne_some]
    simp only [ne_eq, Format.ofName?_eq_some_iff]
  · refine Option.ext fun format => ?_
    rw [hlower.ofPlainName?_eq_some_iff, Format.ofName?_eq_some_iff]
  · obtain ⟨e, he⟩ := Option.isSome_iff_exists.mp
      (isSome_exporter?_iff.mpr (mem_formats_iff.mp hformat))
    obtain ⟨hsame, hlast⟩ := exporter?_eq_some_iff.mp he
    refine ⟨e, he, hsame, ?_⟩
    rw [resolve?, Format.ofName?_id, Option.bind_some, he]

/-- Exporters for two formats, with a second one for the first of these. -/
def pickedExporters : List Exporter :=
  [.ofFormat .html5, .ofFormat .xapi, { Exporter.ofFormat .html5 with notes := fun _ => ["Draft"] }]

theorem resolve?_named_picked :
    Format.LowersCase Format.lowerForm ∧ Format.ofName " Tin-Can\t" = .ok .xapi ∧
      Format.ofName "cm\u01305" = .error (.unknownFormat "cm\u01305") ∧
      (ofExporters pickedExporters).resolve? " Tin-Can\t" = some (.ofFormat .xapi) ∧
      Format.html5 ∈ (ofExporters pickedExporters).formats ∧
      ∃ e, (ofExporters pickedExporters).resolve? "html5" = some e ∧ e.notes {} = ["Draft"] := by
  have hlower := Format.lowersCase_lowerForm
  obtain ⟨hname, hunknown, -, hresolve, -, -, -, hlisted, -⟩ :=
    resolve?_named hlower pickedExporters
  have hxapi : Format.ofName " Tin-Can\t" = .ok .xapi :=
    (hname _ _).mpr (by decide +kernel)
  have hhtml5 : Format.ofName "html5" = .ok .html5 := (hname _ _).mpr (by decide +kernel)
  refine ⟨hlower, hxapi, (hunknown _).mpr fun format => ?_,
    (hresolve _ _).mpr ⟨hxapi, [.ofFormat .html5], _, rfl, ?_⟩, (hlisted _).mpr ?_,
    _, (hresolve _ _).mpr ⟨hhtml5, [.ofFormat .html5, .ofFormat .xapi], [], rfl, ?_⟩, rfl⟩
  · have hnone : ∀ f ∈ Format.all, Text.lower (Format.bareName "cm\u01305") ∉ f.names := by
      decide +kernel
    exact hnone format (Format.mem_all format)
  · intro x hx
    rw [List.mem_singleton.mp hx]
    exact fun h => nomatch h
  · exact List.mem_cons_self
  · exact fun x hx => nomatch hx

end Registry

end Courseware
