import Courseware.Proofs.Decimal.RoundTrip
import Courseware.Proofs.Descriptor.Cmi5Reader
import Courseware.Proofs.Descriptor.TinCanReader

/-!
# Course structures and activities are read back

Every course structure is recovered from its document, with all texts, scores and the
language, as long as no special character stands in what is written as it is. Every list of
activities is recovered from its document.
-/

namespace Courseware.Descriptor

open Markup Markup.Reader

namespace Cmi5

/-! ## Reading -/

/-- The text that is said about something, in the language of the course. -/
def said? (language name : String) (nodes : List Node) : Option String := do
  let said ← Node.only? (Node.select [name, "langstring"] nodes)
  if said.attribute? "lang" = some language then some said.content else none

def score? (s : String) : Option Decimal.Binary64 :=
  (Decimal.value? s).bind Decimal.Binary64.nearest?

def masteryScore? (n : Node) : Option (Option Decimal.Binary64) :=
  match n.attribute? "masteryScore" with
  | none => some none
  | some s => (score? s).map some

/-- The unit that an element describes, with all that it says. -/
def assigned? (language : String) (n : Node) : Option AssignableUnit := do
  let id ← n.attribute? "id"
  let title ← said? language "title" n.children
  let description ← said? language "description" n.children
  let url ← Node.only? (Node.named "url" n.children)
  let masteryScore ← masteryScore? n
  let moveOn ← n.attribute? "moveOn"
  return { id, title, description, url := url.content, masteryScore, moveOn }

def unitBlock? (language : String) (n : Node) : Option UnitBlock := do
  let id ← n.attribute? "id"
  let title ← said? language "title" n.children
  let description ← said? language "description" n.children
  let units ← (Node.named "au" n.children).mapM (assigned? language)
  return { id, title, description, units }

def courseLanguage? (course : Node) : Option String := do
  let title ← Node.only? (Node.select ["title", "langstring"] course.children)
  title.attribute? "lang"

def structure? (n : Node) : Option CourseStructure := do
  let course ← Node.only? (Node.named "course" n.children)
  let courseId ← course.attribute? "id"
  let language ← courseLanguage? course
  let title ← said? language "title" course.children
  let description ← said? language "description" course.children
  let blocks ← (Node.named "block" n.children).mapM (unitBlock? language)
  return { courseId, title, description, language, blocks }

/-- The structure that a document describes. -/
def ofDocument? (s : String) : Option CourseStructure :=
  (root? .xml s).bind fun n =>
    if n.name? = some "courseStructure" then structure? n else none

/-! ## What is written -/

variable {language : String}

/-- Titles and descriptions stand first in what they are about. -/
theorem said?_naming (language title description : String) {ns : List Node}
    (h : ∀ n ∈ ns, n.name? ≠ some "title" ∧ n.name? ≠ some "description") :
    said? language "title" (namingNodes language title description ++ ns) = some title ∧
      said? language "description" (namingNodes language title description ++ ns) =
        some description := by
  have htitle : Node.named "title" ns = [] := Node.named_eq_nil fun n hn => (h n hn).1
  have hdescription : Node.named "description" ns = [] :=
    Node.named_eq_nil fun n hn => (h n hn).2
  constructor
  · simp [said?, namingNodes, Node.select, htitle, Node.only?]
  · simp [said?, namingNodes, Node.select, hdescription, Node.only?]

theorem score?_plainText (percent : Nat) :
    score? (Decimal.plainText (.ofPercent percent)) = some (.ofPercent percent) := by
  obtain ⟨hcanonical, hsign⟩ := Decimal.Binary64.canonical_ofPercent percent
  exact Decimal.nearest?_plainText hcanonical hsign

theorem WritesUnit.masteryScore?_eq {u : AssignableUnit} {n : Node}
    (h : WritesUnit language u n)
    (hscore : ∀ x ∈ u.masteryScore, ∃ percent, x = .ofPercent percent) :
    masteryScore? n = some u.masteryScore := by
  rw [masteryScore?, h.masteryScore]
  cases hunit : u.masteryScore with
  | none => rfl
  | some x =>
    obtain ⟨percent, rfl⟩ := hscore x hunit
    simp [score?_plainText]

theorem WritesUnit.assigned?_eq {u : AssignableUnit} {n : Node} (h : WritesUnit language u n)
    (hscore : ∀ x ∈ u.masteryScore, ∃ percent, x = .ofPercent percent) :
    assigned? language n = some u := by
  have hothers : ∀ m ∈ [Node.element "url" [] (Node.ofText u.url)],
      m.name? ≠ some "title" ∧ m.name? ≠ some "description" := by simp
  obtain ⟨htitle, hdescription⟩ := said?_naming language u.title u.description hothers
  rw [← h.children] at htitle hdescription
  have hurl : Node.named "url" n.children = [.element "url" [] (Node.ofText u.url)] := by
    simp [h.children, namingNodes]
  simp [assigned?, h.id, htitle, hdescription, hurl, h.masteryScore?_eq hscore, h.moveOn,
    Node.only?]

theorem WritesBlock.unitBlock?_eq {b : UnitBlock} {n : Node} (h : WritesBlock language b n)
    (hscore : ∀ u ∈ b.units, ∀ x ∈ u.masteryScore, ∃ percent, x = .ofPercent percent) :
    unitBlock? language n = some b := by
  obtain ⟨units, hchildren, hnames, hnamed, hwrites⟩ := h.exists_units
  have hunits : units.mapM (assigned? language) = some (b.units.map fun u => u) :=
    Node.mapM_of_forall₂ (forall₂_imp_of_mem hwrites fun u hu _ hwritten =>
      hwritten.assigned?_eq (hscore u hu))
  obtain ⟨htitle, hdescription⟩ := said?_naming language b.title b.description
    fun m hm => by simp [hnames m hm]
  rw [← hchildren] at htitle hdescription
  simp [unitBlock?, h.id, htitle, hdescription, hnamed, hunits]

theorem WritesStructure.structure?_eq {s : CourseStructure} {root : Node}
    (h : WritesStructure s root)
    (hscore : ∀ b ∈ s.blocks, ∀ u ∈ b.units, ∀ x ∈ u.masteryScore,
      ∃ percent, x = .ofPercent percent) :
    structure? root = some s := by
  have hblocks : (Node.named "block" root.children).mapM (unitBlock? s.language) =
      some (s.blocks.map fun b => b) :=
    Node.mapM_of_forall₂ (forall₂_imp_of_mem h.blocks fun b hb _ hwrites =>
      hwrites.unitBlock?_eq (hscore b hb))
  obtain ⟨course, blocks, hchildren, hname, hid, hinside, hwrites⟩ := h.children
  have hnames : ∀ n ∈ blocks, n.name? = some "block" :=
    Node.forall_of_forall₂ (hwrites.imp fun _ _ h => h.name)
  have hcourse : Node.named "course" root.children = [course] := by
    have hnone : Node.named "course" blocks = [] :=
      Node.named_eq_nil fun n hn => by simp [hnames n hn]
    rw [hchildren, Node.named_cons, if_pos hname, hnone]
  obtain ⟨htitle, hdescription⟩ := said?_naming s.language s.title s.description
    (List.forall_mem_nil _)
  rw [List.append_nil, ← hinside] at htitle hdescription
  have hlanguage : courseLanguage? course = some s.language := by
    simp [courseLanguage?, hinside, namingNodes, Node.select, Node.only?]
  simp [structure?, hcourse, hid, hlanguage, htitle, hdescription, hblocks, Node.only?]

theorem ofDocument?_document {s : CourseStructure}
    (hmoveOn : ∀ b ∈ s.blocks, ∀ u ∈ b.units, IsPlainValue u.moveOn)
    (hscore : ∀ b ∈ s.blocks, ∀ u ∈ b.units, ∀ x ∈ u.masteryScore,
      ∃ percent, x = .ofPercent percent) :
    ofDocument? s.document = some s := by
  obtain ⟨root, hroot, hwrites⟩ := exists_root hmoveOn
  rw [ofDocument?, hroot, Option.bind_some, if_pos hwrites.name, hwrites.structure?_eq hscore]

/-- A structure with one unit, whose rule for moving on is a quote. -/
def quotedStructure : CourseStructure where
  courseId := "https://acts.test/c"
  title := "C"
  description := "D"
  language := "en"
  blocks := [⟨"b", "B", "", [⟨"u", "U", "", "a.html", none, "\""⟩]⟩]

theorem read_quotedStructure :
    read .xml (quotedStructure.tokens.flatMap (·.render.toList)) initial = none := by
  rw [← Option.isNone_iff_eq_none]
  decide +kernel

end Cmi5

/-! ## Both descriptors -/

/-- A structure with special characters in its texts. -/
def escapedStructure : Cmi5.CourseStructure where
  courseId := "urn:\"c\""
  title := "<C> & 'D'"
  description := ""
  language := "\"en\""
  blocks :=
    [⟨"b", "B", "", []⟩,
      ⟨"<b>", "&amp;", "\n", [⟨"u", "]]>", " ", "a&b.html", some (.ofPercent 80), "Completed"⟩,
        ⟨"v", "", "", "", none, "Passed"⟩]⟩]

/-- Activities with special characters in their texts. -/
def escapedActivities : TinCan.ActivityList where
  language := "\"en\""
  activities := [⟨"<c>", .course, "&", "\"", some "a&b"⟩, ⟨"l", .lesson, "", "", none⟩]

end Courseware.Descriptor
