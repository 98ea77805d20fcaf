import Courseware.Proofs.Descriptor.Cmi5
import Courseware.Proofs.Descriptor.Listing
import Courseware.Proofs.Markup.Layout

/-!
# A reader of cmi5 descriptors

The reader lists the blocks of a course structure, each with the units in it.
-/

namespace Courseware.Descriptor.Cmi5

open Markup Markup.Reader Markup.Xml

/-! ## Reading -/

/-- The title among the elements of a block or a unit. -/
def title? (nodes : List Node) : Option String :=
  (Node.only? (Node.select ["title", "langstring"] nodes)).map (·.content)

/-- The unit that an element describes. -/
def unit? (n : Node) : Option ListedLesson := do
  let name ← n.attribute? "id"
  let title ← title? n.children
  let url ← Node.only? (Node.named "url" n.children)
  return ⟨name, title, some url.content⟩

/-- The block that an element describes. -/
def block? (n : Node) : Option ListedModule := do
  let name ← n.attribute? "id"
  let title ← title? n.children
  let units ← (Node.named "au" n.children).mapM unit?
  return ⟨name, title, units⟩

/-- What a document lists. -/
def listing? (s : String) : Option Listing :=
  (root? .xml s).bind fun n =>
    if n.name? = some "courseStructure" then (Node.named "block" n.children).mapM block?
    else none

/-! ## Writing -/

def AssignableUnit.listed (u : AssignableUnit) : ListedLesson := ⟨u.id, u.title, some u.url⟩

def UnitBlock.listed (b : UnitBlock) : ListedModule :=
  ⟨b.id, b.title, b.units.map AssignableUnit.listed⟩

def saidNode (language name s : String) : Node :=
  .element name [] [.element "langstring" [("lang", language)] (Node.ofText s)]

@[simp] theorem name?_saidNode (language name s : String) :
    (saidNode language name s).name? = some name := rfl

@[simp] theorem children_saidNode (language name s : String) :
    (saidNode language name s).children =
      [.element "langstring" [("lang", language)] (Node.ofText s)] := rfl

def namingNodes (language title description : String) : List Node :=
  [saidNode language "title" title, saidNode language "description" description]

theorem lays_naming (level : Nat) (language title description : String) :
    Lays .xml (naming level language title description)
      (namingNodes language title description) := by
  have hsaid : ∀ s, Spells .xml (langString language s)
      [.element "langstring" [("lang", language)] (Node.ofText s)] := fun s =>
    Spells.element (isName_ofList (by decide)) (isContainer_xml _)
      (.cons (spellsAttribute_ofText (isName_ofList (by decide)) language) .nil)
      (Spells.ofText s)
  exact (Lays.elementLine (isName_ofList (by decide)) .nil (hsaid title) level).append
    (Lays.elementLine (isName_ofList (by decide)) .nil (hsaid description) level)

/-- The title stands first in a block and in a unit. -/
theorem title?_naming {language title description : String} {ns : List Node}
    (h : ∀ n ∈ ns, n.name? ≠ some "title") :
    title? (namingNodes language title description ++ ns) = some title := by
  have hnone : Node.named "title" ns = [] := Node.named_eq_nil h
  simp [title?, namingNodes, Node.select, hnone, Node.only?]

/-- Whether an element is that of a unit. -/
structure WritesUnit (language : String) (u : AssignableUnit) (n : Node) : Prop where
  name : n.name? = some "au"
  id : n.attribute? "id" = some u.id
  moveOn : n.attribute? "moveOn" = some u.moveOn
  masteryScore : n.attribute? "masteryScore" = u.masteryScore.map Decimal.plainText
  children : n.children = namingNodes language u.title u.description ++
    [.element "url" [] (Node.ofText u.url)]

/-- Whether an element is that of a block, with the elements of its units in it. -/
structure WritesBlock (language : String) (b : UnitBlock) (n : Node) : Prop where
  name : n.name? = some "block"
  id : n.attribute? "id" = some b.id
  children : ∃ units, n.children = namingNodes language b.title b.description ++ units ∧
    List.Forall₂ (WritesUnit language) b.units units

/-- Whether an element is that of a structure, with the elements of its blocks in it. -/
structure WritesStructure (s : CourseStructure) (n : Node) : Prop where
  name : n.name? = some "courseStructure"
  children : ∃ course blocks, n.children = course :: blocks ∧ course.name? = some "course" ∧
    course.attribute? "id" = some s.courseId ∧
    course.children = namingNodes s.language s.title s.description ∧
    List.Forall₂ (WritesBlock s.language) s.blocks blocks

theorem exists_unit (language : String) {u : AssignableUnit} (h : IsPlainValue u.moveOn) :
    ∃ n, Lays .xml (unitTokens language u) [n] ∧ WritesUnit language u n := by
  obtain ⟨score, hscore, hlookup⟩ : ∃ score, List.Forall₂ (SpellsAttribute .xml)
      (whenSome u.masteryScore fun x => [fixed "masteryScore" (Decimal.plainText x)]) score ∧
      score.lookup "masteryScore" = u.masteryScore.map Decimal.plainText := by
    cases u.masteryScore with
    | none => exact ⟨[], .nil, rfl⟩
    | some x =>
      exact ⟨_, .cons (spellsAttribute_literal (isName_ofList (by decide))
        (Decimal.isPlainValue_plainText x)) .nil, List.lookup_cons_self⟩
  have hattributes : List.Forall₂ (SpellsAttribute .xml)
      ([attr "id" u.id, fixed "moveOn" u.moveOn, fixed "launchMethod" "AnyWindow",
        fixed "activityType" ActivityType.lesson.iri] ++
        whenSome u.masteryScore fun x => [fixed "masteryScore" (Decimal.plainText x)])
      (("id", u.id) :: ("moveOn", u.moveOn) :: ("launchMethod", "AnyWindow") ::
        ("activityType", ActivityType.lesson.iri) :: score) :=
    .cons (spellsAttribute_ofText (isName_ofList (by decide)) u.id)
      (.cons (spellsAttribute_literal (isName_ofList (by decide)) h)
        (.cons (spellsAttribute_literal (isName_ofList (by decide))
          (isPlainValue_ofList (by decide)))
          (.cons (spellsAttribute_literal (isName_ofList (by decide))
            (isPlainValue_ofList (by decide))) hscore)))
  have hurl := Lays.leaf (isName_ofList (by decide) : IsName "url") .nil 3 u.url
  obtain ⟨nodes, hlays, hnodes⟩ := Lays.exists_blockElement
    (isName_ofList (by decide) : IsName "au") (isContainer_xml _) hattributes
    ((lays_naming 3 language u.title u.description).append hurl) 2
  exact ⟨_, hlays, rfl, rfl, by simp [List.lookup_cons], by simp [List.lookup_cons, hlookup],
    hnodes⟩

theorem exists_block (language : String) {b : UnitBlock}
    (h : ∀ u ∈ b.units, IsPlainValue u.moveOn) :
    ∃ n, Lays .xml (blockTokens language b) [n] ∧ WritesBlock language b n := by
  obtain ⟨units, hunits, hwrites⟩ := Lays.exists_flatMap
    fun u hu => exists_unit language (h u hu)
  obtain ⟨nodes, hlays, hnodes⟩ := Lays.exists_blockElement
    (isName_ofList (by decide) : IsName "block") (isContainer_xml _)
    (.cons (spellsAttribute_ofText (isName_ofList (by decide) : IsName "id") b.id) .nil)
    ((lays_naming 2 language b.title b.description).append hunits) 1
  exact ⟨_, hlays, rfl, rfl, units, hnodes, hwrites⟩

/-- The document of a structure has one element. -/
theorem exists_root {s : CourseStructure}
    (h : ∀ b ∈ s.blocks, ∀ u ∈ b.units, IsPlainValue u.moveOn) :
    ∃ root, root? .xml s.document = some root ∧ WritesStructure s root := by
  obtain ⟨course, hcourse, hinside⟩ := Lays.exists_blockElement
    (isName_ofList (by decide) : IsName "course") (isContainer_xml _)
    (.cons (spellsAttribute_ofText (isName_ofList (by decide) : IsName "id") s.courseId) .nil)
    (lays_naming 2 s.language s.title s.description) 1
  obtain ⟨blocks, hblocks, hwrites⟩ := Lays.exists_flatMap
    fun b hb => exists_block s.language (h b hb)
  obtain ⟨nodes, hlays, hnodes⟩ := Lays.exists_blockElement
    (isName_ofList (by decide) : IsName "courseStructure") (isContainer_xml _)
    (.cons (spellsAttribute_literal (isName_ofList (by decide) : IsName "xmlns")
      (isPlainValue_ofList (by decide) :
        IsPlainValue "https://w3id.org/xapi/profiles/cmi5/v1/CourseStructure.xsd")) .nil)
    (hcourse.append hblocks) 0
  have hdeclaration : Lays .xml
      (declaration "<?xml version=\"1.0\" encoding=\"utf-8\"?>") [] :=
    Lays.declaration (by decide)
  exact ⟨_, (hdeclaration.append hlays).root?_eq, rfl, _, blocks, hnodes, rfl, rfl, hinside,
    hwrites⟩

/-! ## Blocks and units that are found -/

/-- Whether an element tells a unit. -/
structure IsUnit (u : AssignableUnit) (n : Node) : Prop where
  name : n.name? = some "au"
  listed : unit? n = some u.listed
  moveOn : n.attribute? "moveOn" = some u.moveOn
  masteryScore : n.attribute? "masteryScore" = u.masteryScore.map Decimal.plainText

/-- Whether an element tells a block, and the elements in it the units of the block. -/
structure IsBlock (b : UnitBlock) (n : Node) : Prop where
  name : n.name? = some "block"
  listed : block? n = some b.listed
  units : List.Forall₂ IsUnit b.units (Node.named "au" n.children)

variable {language : String}

theorem WritesUnit.isUnit {u : AssignableUnit} {n : Node} (h : WritesUnit language u n) :
    IsUnit u n := by
  have htitle : title? n.children = some u.title := by
    rw [h.children]
    exact title?_naming (by simp)
  have hurl : Node.named "url" n.children = [.element "url" [] (Node.ofText u.url)] := by
    simp [h.children, namingNodes]
  refine ⟨h.name, ?_, h.moveOn, h.masteryScore⟩
  simp [unit?, h.id, htitle, hurl, Node.only?, AssignableUnit.listed]

/-- The units of a block stand behind its title and description, and are the only elements
of their name in it. -/
theorem WritesBlock.exists_units {b : UnitBlock} {n : Node} (h : WritesBlock language b n) :
    ∃ units, n.children = namingNodes language b.title b.description ++ units ∧
      (∀ m ∈ units, m.name? = some "au") ∧ Node.named "au" n.children = units ∧
      List.Forall₂ (WritesUnit language) b.units units := by
  obtain ⟨units, hchildren, hunits⟩ := h.children
  have hnames : ∀ m ∈ units, m.name? = some "au" :=
    Node.forall_of_forall₂ (hunits.imp fun _ _ h => h.name)
  have hnamed : Node.named "au" n.children = units := by
    rw [hchildren, Node.named_append, Node.named_eq_self hnames]
    simp [namingNodes]
  exact ⟨units, hchildren, hnames, hnamed, hunits⟩

theorem WritesBlock.isBlock {b : UnitBlock} {n : Node} (h : WritesBlock language b n) :
    IsBlock b n := by
  obtain ⟨units, hchildren, hnames, hnamed, hwrites⟩ := h.exists_units
  have hunits := hwrites.imp fun _ _ h => h.isUnit
  have hlisted : units.mapM unit? = some (b.units.map AssignableUnit.listed) :=
    Node.mapM_of_forall₂ (hunits.imp fun _ _ h => h.listed)
  have htitle : title? n.children = some b.title := by
    rw [hchildren]
    exact title?_naming fun m hm => by simp [hnames m hm]
  refine ⟨h.name, ?_, hnamed ▸ hunits⟩
  simp [block?, h.id, htitle, hnamed, hlisted, UnitBlock.listed]

/-- The blocks of a structure are the only elements of their name in it. -/
theorem WritesStructure.blocks {s : CourseStructure} {root : Node}
    (h : WritesStructure s root) :
    List.Forall₂ (WritesBlock s.language) s.blocks (Node.named "block" root.children) := by
  obtain ⟨course, blocks, hchildren, hname, -, -, hblocks⟩ := h.children
  have hnames : ∀ n ∈ blocks, n.name? = some "block" :=
    Node.forall_of_forall₂ (hblocks.imp fun _ _ h => h.name)
  rw [hchildren, Node.named_cons, hname, if_neg (by decide), Node.named_eq_self hnames]
  exact hblocks

/-- A document lists the blocks of its structure. -/
theorem listing?_document {s : CourseStructure}
    (h : ∀ b ∈ s.blocks, ∀ u ∈ b.units, IsPlainValue u.moveOn) :
    listing? s.document = some (s.blocks.map UnitBlock.listed) := by
  obtain ⟨root, hroot, hwrites⟩ := exists_root h
  rw [listing?, hroot, Option.bind_some, if_pos hwrites.name]
  exact Node.mapM_of_forall₂ (hwrites.blocks.imp fun _ _ h => h.isBlock.listed)

/-- The elements of the units in a document. -/
def unitNodes (root : Node) : List Node :=
  Node.select ["block", "au"] root.children

/-- The elements of the units tell the units of all blocks. -/
theorem exists_unitNodes {s : CourseStructure}
    (h : ∀ b ∈ s.blocks, ∀ u ∈ b.units, IsPlainValue u.moveOn) :
    ∃ root, root? .xml s.document = some root ∧
      List.Forall₂ IsUnit (s.blocks.flatMap (·.units)) (unitNodes root) := by
  obtain ⟨root, hroot, hwrites⟩ := exists_root h
  have hunits : unitNodes root =
      (Node.named "block" root.children).flatMap fun n => Node.named "au" n.children :=
    List.filter_flatMap ..
  refine ⟨root, hroot, ?_⟩
  rw [hunits]
  exact List.rel_flatMap hwrites.blocks fun _ _ h => h.isBlock.units

end Courseware.Descriptor.Cmi5
