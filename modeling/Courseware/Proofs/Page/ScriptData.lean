import Courseware.Page.Shell
import Courseware.Proofs.Json.Inlined
import Courseware.Script.Config
import Mathlib.Data.List.Basic

/-!
# Where a script element ends

How a browser reads the content of a script element: an end tag closes it, unless a
comment has been opened in it and, in the comment, another script. Launch code never
closes its element itself, and it leaves its element to the end tag behind it as long as
it opens no comment.
-/

namespace Courseware.Page

open Script (inlined keepOpen launchCode)
open Markup (Token)

/-! ## Reading script data -/

/-- Where a browser stands in the content of a script element. Names that are being read
are kept in lower case. -/
inductive ScriptState
  | data
  | lessThan
  | endTagOpen
  | endTagName (name : List Char)
  | escapeStart
  | escapeStartDash
  /-- Behind the start of a comment. -/
  | escaped
  | escapedDash
  | escapedDashDash
  | escapedLessThan
  | escapedEndTagOpen
  | escapedEndTagName (name : List Char)
  | doubleEscapeStart (name : List Char)
  /-- Behind the start of a script in a comment. -/
  | doubleEscaped
  | doubleEscapedDash
  | doubleEscapedDashDash
  | doubleEscapedLessThan
  | doubleEscapeEnd (name : List Char)
  /-- Behind the name of the element's end tag. -/
  | closed
  deriving DecidableEq

namespace ScriptState

/-- What ends the name of a tag. -/
def isDelimiter (c : Char) : Bool :=
  c ∈ ['\t', '\n', '\x0c', ' ', '/', '>']

/-- The name of the elements. -/
def scriptName : List Char := ['s', 'c', 'r', 'i', 'p', 't']

/-- The next character in plain content. -/
def stepData (c : Char) : ScriptState :=
  if c = '<' then lessThan else data

/-- The next character in a comment. -/
def stepEscaped (c : Char) : ScriptState :=
  if c = '-' then escapedDash else if c = '<' then escapedLessThan else escaped

/-- The next character in a script in a comment. -/
def stepDoubleEscaped (c : Char) : ScriptState :=
  if c = '-' then doubleEscapedDash
  else if c = '<' then doubleEscapedLessThan
  else doubleEscaped

/-- The next character of a name: what follows a delimiter, another letter or anything
else. -/
def stepName (name : List Char) (c : Char) (delimited : ScriptState)
    (letter : List Char → ScriptState) (other : ScriptState) : ScriptState :=
  if isDelimiter c then delimited
  else if c.isAlpha then letter (name ++ [c.toLower])
  else other

def step : ScriptState → Char → ScriptState
  | data, c => stepData c
  | lessThan, c =>
    if c = '/' then endTagOpen else if c = '!' then escapeStart else stepData c
  | endTagOpen, c => if c.isAlpha then endTagName [c.toLower] else stepData c
  | endTagName name, c =>
    stepName name c (if name = scriptName then closed else stepData c) endTagName (stepData c)
  | escapeStart, c => if c = '-' then escapeStartDash else stepData c
  | escapeStartDash, c => if c = '-' then escapedDashDash else stepData c
  | escaped, c => stepEscaped c
  | escapedDash, c => if c = '-' then escapedDashDash else stepEscaped c
  | escapedDashDash, c =>
    if c = '-' then escapedDashDash else if c = '>' then data else stepEscaped c
  | escapedLessThan, c =>
    if c = '/' then escapedEndTagOpen
    else if c.isAlpha then doubleEscapeStart [c.toLower]
    else stepEscaped c
  | escapedEndTagOpen, c => if c.isAlpha then escapedEndTagName [c.toLower] else stepEscaped c
  | escapedEndTagName name, c =>
    stepName name c (if name = scriptName then closed else stepEscaped c) escapedEndTagName
      (stepEscaped c)
  | doubleEscapeStart name, c =>
    stepName name c (if name = scriptName then doubleEscaped else escaped) doubleEscapeStart
      (stepEscaped c)
  | doubleEscaped, c => stepDoubleEscaped c
  | doubleEscapedDash, c => if c = '-' then doubleEscapedDashDash else stepDoubleEscaped c
  | doubleEscapedDashDash, c =>
    if c = '-' then doubleEscapedDashDash else if c = '>' then data else stepDoubleEscaped c
  | doubleEscapedLessThan, c => if c = '/' then doubleEscapeEnd [] else stepDoubleEscaped c
  | doubleEscapeEnd name, c =>
    stepName name c (if name = scriptName then escaped else doubleEscaped) doubleEscapeEnd
      (stepDoubleEscaped c)
  | closed, _ => closed

def run (s : ScriptState) (cs : List Char) : ScriptState := cs.foldl step s

/-- What stands behind the name of the end tag and the character after it, when the
element is closed. -/
def closing? (s : ScriptState) : List Char → Option (List Char)
  | [] => none
  | c :: cs => if s.step c = closed then some cs else (s.step c).closing? cs

@[simp] theorem run_nil (s : ScriptState) : s.run [] = s := rfl

@[simp] theorem run_cons (s : ScriptState) (c : Char) (cs : List Char) :
    s.run (c :: cs) = (s.step c).run cs := rfl

@[simp] theorem run_append (s : ScriptState) (cs ds : List Char) :
    s.run (cs ++ ds) = (s.run cs).run ds :=
  List.foldl_append

theorem run_closed (cs : List Char) : closed.run cs = closed := by
  induction cs with
  | nil => rfl
  | cons c cs ih => exact ih

/-- Where nothing closes the element, what follows is read on. -/
theorem closing?_append {s : ScriptState} {cs : List Char} (h : s.run cs ≠ closed)
    (ds : List Char) : s.closing? (cs ++ ds) = (s.run cs).closing? ds := by
  induction cs generalizing s with
  | nil => rfl
  | cons c cs ih =>
    have hstep : s.step c ≠ closed := by
      intro hclosed
      rw [run_cons, hclosed, run_closed] at h
      exact h rfl
    rw [List.cons_append, closing?, if_neg hstep, ih h, run_cons]

theorem closing?_eq_none {s : ScriptState} {cs : List Char} (h : s.run cs ≠ closed) :
    s.closing? cs = none := by
  have hall := closing?_append h []
  rwa [List.append_nil, closing?] at hall

/-- In plain content an end tag closes the element. -/
theorem closing?_data (rest : List Char) :
    data.closing? ("</script>".toList ++ rest) = some rest := by
  have hname : data.run "</script".toList = endTagName scriptName := by decide
  have hsplit : "</script>".toList ++ rest = "</script".toList ++ '>' :: rest := rfl
  rw [hsplit, closing?_append (by rw [hname]; decide), hname, closing?, if_pos (by decide)]

/-! ## Content without end tags -/

/-- Whether no end tag is being read. -/
def isOutside : ScriptState → Bool
  | endTagOpen | endTagName _ | escapedEndTagOpen | escapedEndTagName _ | doubleEscapeEnd _
  | closed => false
  | _ => true

/-- Whether the last character was a bracket. -/
def isAfterBracket : ScriptState → Bool
  | lessThan | escapedLessThan | doubleEscapedLessThan => true
  | _ => false

/-- What can follow a character when no end tag starts with it. -/
def Follows (c : Char) (s : ScriptState) : Prop :=
  s.isOutside = true ∧ (s.isAfterBracket = true → c = '<')

theorem follows_of_eq_false {s : ScriptState} (hs : s.isOutside = true)
    (hbracket : s.isAfterBracket = false) (c : Char) : Follows c s :=
  ⟨hs, fun h => by rw [hbracket] at h; cases h⟩

theorem follows_ite {p : Prop} [Decidable p] {c : Char} {s t : ScriptState}
    (hs : p → Follows c s) (ht : ¬ p → Follows c t) : Follows c (if p then s else t) := by
  split_ifs with hp
  · exact hs hp
  · exact ht hp

theorem follows_stepData (c : Char) : Follows c (stepData c) :=
  follows_ite (fun hc => ⟨rfl, fun _ => hc⟩) fun _ => follows_of_eq_false rfl rfl c

theorem follows_stepEscaped (c : Char) : Follows c (stepEscaped c) :=
  follows_ite (fun _ => follows_of_eq_false rfl rfl c) fun _ =>
    follows_ite (fun hc => ⟨rfl, fun _ => hc⟩) fun _ => follows_of_eq_false rfl rfl c

theorem follows_stepDoubleEscaped (c : Char) : Follows c (stepDoubleEscaped c) :=
  follows_ite (fun _ => follows_of_eq_false rfl rfl c) fun _ =>
    follows_ite (fun hc => ⟨rfl, fun _ => hc⟩) fun _ => follows_of_eq_false rfl rfl c

/-- Outside end tags, an end tag is entered only by a slash behind a bracket. -/
theorem follows_step {s : ScriptState} (hs : s.isOutside = true) {c : Char}
    (hslash : s.isAfterBracket = true → c ≠ '/') : Follows c (s.step c) := by
  cases s with
  | data => exact follows_stepData c
  | lessThan =>
    exact follows_ite (fun hc => absurd hc (hslash rfl)) fun _ =>
      follows_ite (fun _ => follows_of_eq_false rfl rfl c) fun _ => follows_stepData c
  | escapeStart =>
    exact follows_ite (fun _ => follows_of_eq_false rfl rfl c) fun _ => follows_stepData c
  | escapeStartDash =>
    exact follows_ite (fun _ => follows_of_eq_false rfl rfl c) fun _ => follows_stepData c
  | escaped => exact follows_stepEscaped c
  | escapedDash =>
    exact follows_ite (fun _ => follows_of_eq_false rfl rfl c) fun _ => follows_stepEscaped c
  | escapedDashDash =>
    exact follows_ite (fun _ => follows_of_eq_false rfl rfl c) fun _ =>
      follows_ite (fun _ => follows_of_eq_false rfl rfl c) fun _ => follows_stepEscaped c
  | escapedLessThan =>
    exact follows_ite (fun hc => absurd hc (hslash rfl)) fun _ =>
      follows_ite (fun _ => follows_of_eq_false rfl rfl c) fun _ => follows_stepEscaped c
  | doubleEscapeStart name =>
    exact follows_ite
      (fun _ => follows_ite (fun _ => follows_of_eq_false rfl rfl c) fun _ =>
        follows_of_eq_false rfl rfl c)
      fun _ => follows_ite (fun _ => follows_of_eq_false rfl rfl c) fun _ =>
        follows_stepEscaped c
  | doubleEscaped => exact follows_stepDoubleEscaped c
  | doubleEscapedDash =>
    exact follows_ite (fun _ => follows_of_eq_false rfl rfl c) fun _ =>
      follows_stepDoubleEscaped c
  | doubleEscapedDashDash =>
    exact follows_ite (fun _ => follows_of_eq_false rfl rfl c) fun _ =>
      follows_ite (fun _ => follows_of_eq_false rfl rfl c) fun _ => follows_stepDoubleEscaped c
  | doubleEscapedLessThan =>
    exact follows_ite (fun hc => absurd hc (hslash rfl)) fun _ => follows_stepDoubleEscaped c
  | endTagOpen => cases hs
  | endTagName name => cases hs
  | escapedEndTagOpen => cases hs
  | escapedEndTagName name => cases hs
  | doubleEscapeEnd name => cases hs
  | closed => cases hs

/-- Without a bracket and a slash in a row no end tag is read. -/
theorem isOutside_run {s : ScriptState} {cs : List Char} (hs : s.isOutside = true)
    (hslash : s.isAfterBracket = true → cs.head? ≠ some '/') (h : ¬ ['<', '/'] <:+: cs) :
    (s.run cs).isOutside = true := by
  induction cs generalizing s with
  | nil => exact hs
  | cons c cs ih =>
    obtain ⟨hnext, hbracket⟩ := follows_step hs fun hafter heq =>
      hslash hafter (congrArg some heq)
    refine ih hnext ?_ fun hinfix => h (List.infix_cons hinfix)
    intro hafter hhead
    obtain ⟨ds, rfl⟩ := List.head?_eq_some_iff.mp hhead
    exact h ⟨[], ds, by rw [hbracket hafter]; rfl⟩

/-! ## Content without comments -/

/-- What of the start of a comment has been read in plain content; none elsewhere. -/
def opening? : ScriptState → Option (List Char)
  | data => some []
  | lessThan => some ['<']
  | escapeStart => some ['<', '!']
  | escapeStartDash => some ['<', '!', '-']
  | _ => none

theorem opening?_step {s : ScriptState} {opened : List Char} (hs : s.opening? = some opened)
    {c : Char} (hslash : ¬ ['<', '/'] <:+ opened ++ [c])
    (hcomment : ¬ ['<', '!', '-', '-'] <:+ opened ++ [c]) :
    ∃ next, (s.step c).opening? = some next ∧ next <:+ opened ++ [c] := by
  cases s <;> simp only [opening?, Option.some.injEq, reduceCtorEq] at hs <;> subst hs
  case data =>
    rw [step, stepData]
    split_ifs with hc
    · exact ⟨['<'], rfl, by simp [hc]⟩
    · exact ⟨[], rfl, List.nil_suffix⟩
  case lessThan =>
    rw [step, stepData]
    split_ifs with hc hbang hless
    · exact absurd (by rw [hc]; exact List.suffix_refl _) hslash
    · exact ⟨['<', '!'], rfl, by rw [hbang]; exact List.suffix_refl _⟩
    · exact ⟨['<'], rfl, by rw [hless]; exact ⟨['<'], rfl⟩⟩
    · exact ⟨[], rfl, List.nil_suffix⟩
  case escapeStart =>
    rw [step, stepData]
    split_ifs with hdash hless
    · exact ⟨['<', '!', '-'], rfl, by rw [hdash]; exact List.suffix_refl _⟩
    · exact ⟨['<'], rfl, by rw [hless]; exact ⟨['<', '!'], rfl⟩⟩
    · exact ⟨[], rfl, List.nil_suffix⟩
  case escapeStartDash =>
    rw [step, stepData]
    split_ifs with hdash hless
    · exact absurd (by rw [hdash]; exact List.suffix_refl _) hcomment
    · exact ⟨['<'], rfl, by rw [hless]; exact ⟨['<', '!', '-'], rfl⟩⟩
    · exact ⟨[], rfl, List.nil_suffix⟩

/-- Without end tags and comments the content stays plain. -/
theorem opening?_run {s : ScriptState} {opened cs : List Char} (hs : s.opening? = some opened)
    (hslash : ¬ ['<', '/'] <:+: opened ++ cs)
    (hcomment : ¬ ['<', '!', '-', '-'] <:+: opened ++ cs) :
    ∃ next, (s.run cs).opening? = some next := by
  induction cs generalizing s opened with
  | nil => exact ⟨opened, hs⟩
  | cons c cs ih =>
    have hsplit : opened ++ c :: cs = (opened ++ [c]) ++ cs := by simp
    rw [hsplit] at hslash hcomment
    obtain ⟨next, hnext, ds, hds⟩ := opening?_step hs
      (fun hsuffix => hslash (hsuffix.isInfix.trans (List.prefix_append _ _).isInfix))
      (fun hsuffix => hcomment (hsuffix.isInfix.trans (List.prefix_append _ _).isInfix))
    have hinfix : next ++ cs <:+: (opened ++ [c]) ++ cs :=
      List.IsSuffix.isInfix ⟨ds, by rw [← hds, List.append_assoc]⟩
    exact ih hnext (fun h => hslash (h.trans hinfix)) fun h => hcomment (h.trans hinfix)

/-- A character that is neither a bracket nor part of the start of a comment leads back
to plain content. -/
theorem step_of_opening? {s : ScriptState} {opened : List Char}
    (hs : s.opening? = some opened) : s.step ';' = data := by
  cases s <;> simp only [opening?, reduceCtorEq] at hs <;> rfl

end ScriptState

/-! ## Launch code -/

open ScriptState

/-- What stands in the element of launch code. -/
def launchText (record : Json) : List Char :=
  ("\n" ++ launchCode record ++ "\n").toList

theorem run_launchText (record : Json) :
    data.run (launchText record) = ((data.run (inlined record).toList).step ';').step '\n' := by
  have hstart : data.run ("\n".toList ++ "window.COURSEPACK_LAUNCH = ".toList) = data := by
    decide
  have hstop : ∀ s : ScriptState, (s.run ";".toList).run "\n".toList =
      (s.step ';').step '\n' := fun _ => rfl
  unfold launchText launchCode
  simp only [String.toList_append]
  rw [← List.append_assoc, ← List.append_assoc, run_append, run_append, run_append, hstart,
    hstop]

theorem not_infix_inlined (record : Json) : ¬ ['<', '/'] <:+: (inlined record).toList := by
  rw [inlined, String.toList_ofList]
  exact Json.not_infix_keepOpen record.compact.toList

/-- Launch code never closes its element. -/
theorem run_launchText_ne_closed (record : Json) : data.run (launchText record) ≠ closed := by
  have hinlined : (data.run (inlined record).toList).isOutside = true :=
    isOutside_run rfl nofun (not_infix_inlined record)
  have hsemicolon := follows_step hinlined (c := ';') fun _ => by decide
  have hnewline := follows_step hsemicolon.1 (c := '\n') fun _ => by decide
  rw [run_launchText]
  intro hclosed
  rw [hclosed] at hnewline
  cases hnewline.1

/-- Behind launch code that opens no comment the content is plain. -/
theorem run_launchText_eq_data {record : Json}
    (h : ¬ "<!--".toList <:+: (inlined record).toList) :
    data.run (launchText record) = data := by
  have hslash := not_infix_inlined record
  rw [run_launchText]
  generalize (inlined record).toList = cs at h hslash
  obtain ⟨opened, hopened⟩ := opening?_run (s := data) rfl hslash h
  rw [step_of_opening? hopened]
  rfl

theorem infix_line (ts : List Token) : ts <:+: Markup.line ts :=
  (List.prefix_append ts [.newline]).isInfix

theorem infix_element (name : String) (attributes : List Markup.Attribute)
    (content : List Token) : content <:+: Markup.element name attributes content :=
  List.infix_append [Token.start name attributes] content [Token.stop name]

/-- The code in a page is part of it. -/
theorem infix_tokens (s : Shell) (body : List Token) {code : String}
    (h : code ∈ s.inlineScripts) : inlineScriptTokens code <:+: s.tokens body := by
  have hscripts : inlineScriptTokens code <:+: s.inlineScripts.flatMap inlineScriptTokens := by
    rw [List.flatMap_def]
    exact List.infix_of_mem_flatten (List.mem_map_of_mem h)
  have hhead : s.inlineScripts.flatMap inlineScriptTokens <:+: s.headTokens := by
    refine List.IsInfix.trans ?_ ((infix_element "head" [] _).trans (infix_line _))
    exact List.infix_append _ _ (s.headScripts.flatMap scriptTokens)
  have hpage : s.headTokens <:+: s.tokens body := by
    refine List.IsInfix.trans ?_ (((infix_element "html" [Markup.Html.attr "lang" s.language]
      _).trans (infix_line _)).trans (List.suffix_append _ _).isInfix)
    exact List.infix_append [Token.newline] s.headTokens _
  exact (hscripts.trans hhead).trans hpage

theorem render_inlineScriptTokens (code : String) :
    (Markup.render (inlineScriptTokens code)).toList =
      "<script>".toList ++ ("\n" ++ code ++ "\n").toList ++ "</script>".toList ++ ['\n'] := by
  simp [Markup.render, inlineScriptTokens, Markup.line, Markup.element, Token.render,
    Token.newline]

/-- Launch code in a page never closes its element itself. When its record opens no
comment, the end tag behind it does. -/
theorem launch_closed_by_end_tag (s : Shell) (body : List Token) (record : Json) :
    ∃ before after,
      ({ s with inlineScripts := [launchCode record] : Shell }.document body).toList =
        before ++ "<script>".toList ++ launchText record ++ "</script>".toList ++ after ∧
      data.closing? (launchText record) = none ∧
      (¬ "<!--".toList <:+: (inlined record).toList →
        data.closing? (launchText record ++ "</script>".toList ++ after) = some after) := by
  obtain ⟨ts, us, htokens⟩ := infix_tokens { s with inlineScripts := [launchCode record] } body
    List.mem_cons_self
  refine ⟨(Markup.render ts).toList, '\n' :: (Markup.render us).toList, ?_,
    closing?_eq_none (run_launchText_ne_closed record), ?_⟩
  · have hsplit : (Markup.render (ts ++ inlineScriptTokens (launchCode record) ++ us)).toList =
        (Markup.render ts).toList ++
          (Markup.render (inlineScriptTokens (launchCode record))).toList ++
          (Markup.render us).toList := by
      simp [Markup.render]
    rw [Shell.document, ← htokens, hsplit, render_inlineScriptTokens]
    simp only [List.append_assoc, launchText, List.singleton_append]
  · intro hcomment
    rw [List.append_assoc, closing?_append (run_launchText_ne_closed record),
      run_launchText_eq_data hcomment, closing?_data]

/-- The record of a lesson whose title opens a comment and, in it, a script. -/
def commentRecord : Json := Script.scormLaunch "l" "<!--<script>" "content.html" {}

/-- The end tag behind this record is taken for the end of the script in the comment. -/
theorem commentRecord_not_closed :
    data.closing? (launchText commentRecord ++ "</script>".toList) = none := by
  have hopen : (data.run (inlined commentRecord).toList).step ';' = doubleEscaped := by
    decide +kernel
  rw [closing?_append (run_launchText_ne_closed commentRecord), run_launchText, hopen]
  decide

end Courseware.Page
