import Courseware.Proofs.Markup.Spelling
import Courseware.Proofs.Text.Words

/-!
# Scripts as trees

The code in a script is read as it is, as long as it holds nothing that could start an
end tag.
-/

namespace Courseware.Markup.Reader

/-- The end of a script holds a bracket and a slash in a row. -/
theorem not_isPrefixOf_scriptEnd {read : List Char} (h : ¬ ['<', '/'] <:+: read.reverse) :
    scriptEnd.isPrefixOf (read.map Text.lowerChar) = false := by
  rw [← Bool.not_eq_true, List.isPrefixOf_iff_prefix]
  rintro ⟨rest, hrest⟩
  have hend : scriptEnd = ['t', 'p', 'i', 'r', 'c', 's'] ++ ['/', '<'] := rfl
  rw [hend, List.append_assoc] at hrest
  obtain ⟨name, before, hsplit, -, hbefore⟩ := List.map_eq_append_iff.mp hrest.symm
  obtain ⟨mark, before, rfl, hmark, -⟩ := List.map_eq_append_iff.mp hbefore
  obtain ⟨x, y, rfl⟩ := List.length_eq_two.mp (by simpa using congrArg List.length hmark)
  simp only [List.map_cons, List.map_nil, List.cons.injEq, and_true] at hmark
  obtain rfl := Text.eq_of_lowerChar_eq (by decide) hmark.1
  obtain rfl := Text.eq_of_lowerChar_eq (by decide) hmark.2
  apply h
  rw [hsplit]
  exact ⟨before.reverse, name.reverse, by simp⟩

/-- In a script no end is found as long as no bracket and slash stand in a row. -/
theorem read_script {cs before : List Char} {b : Builder}
    (h : ¬ ['<', '/'] <:+: before.reverse ++ cs) :
    read .html cs ⟨.script before, b⟩ = some ⟨.script (cs.reverse ++ before), b⟩ := by
  induction cs generalizing before with
  | nil => rfl
  | cons c cs ih =>
    have hstart : (c :: before).reverse <+: before.reverse ++ c :: cs := ⟨cs, by simp⟩
    have hnone := not_isPrefixOf_scriptEnd fun hinside => h (hinside.trans hstart.isInfix)
    have hstep : step .html ⟨.script before, b⟩ c = some ⟨.script (c :: before), b⟩ := by
      simp only [step, scriptStep, hnone]
      rfl
    rw [read_cons, hstep, Option.bind_some, ih (by simpa using h)]
    simp

theorem read_scriptEnd (before : List Char) (b : Builder) :
    read .html "</script".toList ⟨.script before, b⟩ =
      some ⟨.stopName "script".toList.reverse, b.push (before.reverse.map .character)⟩ := by
  simp [step, scriptStep, scriptEnd, Text.lowerChar]

/-- What stands in a script is read up to the end tag behind it. -/
theorem Spells.script {attributes : List Attribute} {pairs : List (String × String)}
    (hattributes : List.Forall₂ (SpellsAttribute .html) attributes pairs)
    {content : List Token} {code : String} (hcontent : render content = code)
    (h : ¬ ['<', '/'] <:+: code.toList) :
    Spells .html (Markup.element "script" attributes content)
      [.element "script" pairs (Node.ofText code)] := by
  intro b
  have hname : IsName "script" := isName_ofList (by decide)
  have htail : (render [Token.stop "script"]).toList = "</script".toList ++ ['>'] := by decide
  have htag : startTag .html b ⟨"script", pairs⟩ = ⟨.script [], b.start "script" pairs⟩ := rfl
  have hbody : read .html code.toList ⟨.script [], b.start "script" pairs⟩ =
      some ⟨.script code.toList.reverse, b.start "script" pairs⟩ := by
    rw [read_script (by simpa using h), List.append_nil]
  have hstop := Builder.stop?_start b "script" pairs (Node.ofText code)
  rw [Markup.element, List.cons_append, toList_render_cons,
    read_append_of_eq (read_start hname hattributes b), htag, toList_render_append, hcontent,
    read_append_of_eq hbody, htail, read_append_of_eq (read_scriptEnd _ _),
    List.reverse_reverse, read_cons, step]
  simp only [if_true, List.reverse_reverse, String.ofList_toList]
  rw [Node.ofText] at hstop
  rw [hstop]
  rfl

end Courseware.Markup.Reader
