import Courseware.Failure
import Courseware.Json.Printer

/-!
Scripts with a slot for their configuration. A template is filled only if it has exactly one slot, so that
what is filled in can never be taken for a slot.
-/

namespace Courseware.Script

/-- What marks the slot of a template. A browser that runs the template as it is reads `null`. -/
def slot : String := "/*@coursepack-config@*/null"

/-- What stands before and after the first place where a pattern stands. -/
def cut? (pattern : List Char) : List Char → Option (List Char × List Char)
  | [] => if pattern.isEmpty then some ([], []) else none
  | c :: cs =>
    if pattern.isPrefixOf (c :: cs) then some ([], (c :: cs).drop pattern.length)
    else (cut? pattern cs).map fun p => (c :: p.1, p.2)

/-- What `cut?` returns are the two sides of the pattern. -/
theorem eq_append_of_cut? {pattern s before after : List Char}
    (h : cut? pattern s = some (before, after)) : s = before ++ pattern ++ after := by
  induction s generalizing before with
  | nil =>
    simp only [cut?] at h
    split at h
    · simp_all
    · simp at h
  | cons c cs ih =>
    simp only [cut?] at h
    split at h
    · rename_i hp
      obtain ⟨rest, hrest⟩ := List.isPrefixOf_iff_prefix.mp hp
      simp only [Option.some.injEq, Prod.mk.injEq] at h
      obtain ⟨rfl, rfl⟩ := h
      rw [← hrest]
      simp
    · obtain ⟨⟨b, a⟩, hb, heq⟩ := Option.map_eq_some_iff.mp h
      simp only [Prod.mk.injEq] at heq
      obtain ⟨rfl, rfl⟩ := heq
      rw [ih hb]
      simp

/-- A script with a slot. -/
structure Template where
  name : String
  source : String

/-- The two sides of the slot, when there is exactly one. -/
def Template.sides? (t : Template) : Option (List Char × List Char) :=
  match cut? slot.toList t.source.toList with
  | none => none
  | some (before, after) =>
    match cut? slot.toList after with
    | none => some (before, after)
    | some _ => none

/-- The script with a configuration in its slot. -/
def Template.fill (t : Template) (config : Json) : Except Failure String :=
  match t.sides? with
  | some (before, after) =>
    .ok (String.ofList before ++ config.pretty ++ String.ofList after)
  | none => .error (.missing ("configuration slot in " ++ t.name))

/-- Keeps a script element open: `</` is written as `<\/`, which means the same in a string. -/
def keepOpen : List Char → List Char
  | '<' :: '/' :: cs => '<' :: '\\' :: '/' :: keepOpen cs
  | c :: cs => c :: keepOpen cs
  | [] => []

/-- A value as it is written inside a script element. -/
def inlined (v : Json) : String :=
  String.ofList (keepOpen v.compact.toList)

end Courseware.Script
