import Courseware.Proofs.Descriptor.ScormReader

/-!
# SCORM descriptors are read back

Every manifest is recovered from its document: whatever the texts are, however deep
the items are nested, and in both versions of the schema.
-/

namespace Courseware.Descriptor.Scorm

open Markup Markup.Reader Markup.Xml

/-! ## Limits -/

theorem minutes?_mul_sixty (minutes : Nat) : minutes? (minutes * 60) = some minutes := by
  rw [minutes?, if_pos (by omega), Nat.mul_div_cancel _ (by decide)]

/-- The decimal of a percentage is read as the percentage. -/
theorem percent?_plainText {percent : Nat} (h : percent ≤ 100) :
    percent? (Decimal.plainText (.ofPercent percent)) = some percent := by
  have hall : ∀ n < 101, percent? (Decimal.plainText (.ofPercent n)) = some n := by
    decide +kernel
  exact hall percent (Nat.lt_succ_of_le h)

/-- Whether an element is the title of an item or an item in it. -/
def IsTitleOrItem (n : Node) : Prop := n.name? = some "title" ∨ n.name? = some "item"

theorem named_eq_nil_of_isTitleOrItem (name : String) (htitle : name ≠ "title")
    (hitem : name ≠ "item") {nodes : List Node} (h : ∀ n ∈ nodes, IsTitleOrItem n) :
    Node.named name nodes = [] := by
  apply Node.named_eq_nil
  intro n hn hname
  rcases h n hn with heq | heq
  · exact htitle (Option.some.inj (hname.symm.trans heq))
  · exact hitem (Option.some.inj (hname.symm.trans heq))

/-- The limits of an item are not looked for in its title and its items. -/
theorem limits?_append (version : ScormVersion) {others : List Node}
    (h : ∀ n ∈ others, IsTitleOrItem n) (limits : List Node) :
    limits? version (others ++ limits) = limits? version limits := by
  cases version with
  | v12 =>
    simp [limits?, Node.select,
      named_eq_nil_of_isTitleOrItem "adlcp:masteryscore" (by decide) (by decide) h,
      named_eq_nil_of_isTitleOrItem "adlcp:maxtimeallowed" (by decide) (by decide) h]
  | v2004 =>
    simp [limits?, Node.select,
      named_eq_nil_of_isTitleOrItem "imsss:sequencing" (by decide) (by decide) h]

/-- Whether elements are laid out for the limits of an item from which these are
read. -/
def TellsLimits (version : ScormVersion) (tokens : List Token)
    (masteryScore timeLimitMinutes : Option Nat) : Prop :=
  ∃ ns, Lays .xml tokens ns ∧ (∀ n ∈ ns, ¬ IsTitleOrItem n) ∧
    limits? version ns = some (masteryScore.map (min · 100), timeLimitMinutes)

theorem tellsLimits12 (level : Nat) (masteryScore timeLimitMinutes : Option Nat) :
    TellsLimits .v12 (limits12 level masteryScore timeLimitMinutes) masteryScore
      timeLimitMinutes := by
  have hscore : ∀ score, Lays .xml
      (elementLine level "adlcp:masteryscore" [] [text (toString (min score 100))])
      [.element "adlcp:masteryscore" [] (Node.ofText (toString (min score 100)))] :=
    fun score => Lays.leaf (isName_ofList (by decide)) .nil level _
  have htime : ∀ minutes, Lays .xml
      (elementLine level "adlcp:maxtimeallowed" [] [text (Time.timespan (minutes * 60))] ++
        elementLine level "adlcp:timelimitaction" [] [text "exit,message"])
      [.element "adlcp:maxtimeallowed" [] (Node.ofText (Time.timespan (minutes * 60))),
        .element "adlcp:timelimitaction" [] (Node.ofText "exit,message")] :=
    fun minutes => (Lays.leaf (isName_ofList (by decide)) .nil level _).append
      (Lays.leaf (isName_ofList (by decide)) .nil level _)
  cases masteryScore with
  | none =>
    cases timeLimitMinutes with
    | none => exact ⟨_, Lays.nil, by simp, rfl⟩
    | some minutes =>
      refine ⟨_, (htime minutes).append Lays.nil, by simp [IsTitleOrItem], ?_⟩
      simp [limits?, Node.select, Node.optional?, Time.secondsOfTimespan?_timespan,
        minutes?_mul_sixty]
  | some score =>
    cases timeLimitMinutes with
    | none =>
      refine ⟨_, Lays.nil.append (hscore score), by simp [IsTitleOrItem], ?_⟩
      simp [limits?, Node.select, Node.optional?, Time.number?_toDigits]
    | some minutes =>
      refine ⟨_, (htime minutes).append (hscore score), by simp [IsTitleOrItem], ?_⟩
      simp [limits?, Node.select, Node.optional?, Time.number?_toDigits,
        Time.secondsOfTimespan?_timespan, minutes?_mul_sixty]

/-- The limit of time is laid out as one element without content. -/
theorem lays_limitConditions (level minutes : Nat) :
    Lays .xml
      (indented level [.empty "imsss:limitConditions"
        [attr "attemptAbsoluteDurationLimit" (Time.iso8601OfMinutes minutes)]])
      [.element "imsss:limitConditions"
        [("attemptAbsoluteDurationLimit", Time.iso8601OfMinutes minutes)] []] := by
  refine Lays.indented (Lays.of_element (Spells.empty (isName_ofList (by decide)) ?_)) _
  exact .cons (spellsAttribute_ofText (isName_ofList (by decide)) _) .nil

/-- The score to reach is laid out in the primary objective. -/
theorem exists_objectives (level : Nat) (identifier : String) (score : Nat) :
    ∃ n, Lays .xml
        (blockElement level "imsss:objectives" []
          (blockElement (level + 1) "imsss:primaryObjective"
            [attr "objectiveID" ("PRIMARYOBJ-" ++ identifier),
              fixed "satisfiedByMeasure" "true"]
            (elementLine (level + 2) "imsss:minNormalizedMeasure" []
              [text (Decimal.plainText (.ofPercent score))]))) [n] ∧
      n.name? = some "imsss:objectives" ∧
      Node.select ["imsss:primaryObjective", "imsss:minNormalizedMeasure"] n.children =
        [.element "imsss:minNormalizedMeasure" []
          (Node.ofText (Decimal.plainText (.ofPercent score)))] := by
  have hmeasure := Lays.leaf
    (isName_ofList (by decide) : IsName "imsss:minNormalizedMeasure") .nil (level + 2)
    (Decimal.plainText (.ofPercent score))
  obtain ⟨inner, hinner, hmeasures⟩ := Lays.exists_blockElement
    (isName_ofList (by decide) : IsName "imsss:primaryObjective") (isContainer_xml _)
    (.cons (spellsAttribute_ofText (isName_ofList (by decide) : IsName "objectiveID")
        ("PRIMARYOBJ-" ++ identifier))
      (.cons (spellsAttribute_literal (isName_ofList (by decide) : IsName "satisfiedByMeasure")
        (isPlainValue_ofList (by decide) : IsPlainValue "true")) .nil)) hmeasure (level + 1)
  obtain ⟨outer, houter, hobjectives⟩ := Lays.exists_blockElement
    (isName_ofList (by decide) : IsName "imsss:objectives") (isContainer_xml _) .nil hinner
    level
  refine ⟨_, houter, rfl, ?_⟩
  simp [Node.select, hobjectives, hmeasures]

theorem tellsLimits2004 (level : Nat) (identifier : String)
    (masteryScore timeLimitMinutes : Option Nat) :
    TellsLimits .v2004 (limits2004 level identifier masteryScore timeLimitMinutes)
      masteryScore timeLimitMinutes := by
  have hblock : ∀ {content ns}, Lays .xml content ns → ∃ children,
      Lays .xml (blockElement level "imsss:sequencing" [] content)
        [.element "imsss:sequencing" [] children] ∧ Node.elements children = ns :=
    fun h => Lays.exists_blockElement (isName_ofList (by decide)) (isContainer_xml _) .nil h level
  have htime := lays_limitConditions (level + 1)
  cases masteryScore with
  | none =>
    cases timeLimitMinutes with
    | none => exact ⟨_, Lays.nil, by simp, rfl⟩
    | some minutes =>
      obtain ⟨children, hlays, hchildren⟩ := hblock ((htime minutes).append Lays.nil)
      refine ⟨_, hlays, by simp [IsTitleOrItem], ?_⟩
      simp [limits?, Node.select, hchildren, Node.optional?,
        Time.iso8601OfMinutes, Time.secondsOfIso8601?_iso8601, minutes?_mul_sixty]
  | some score =>
    obtain ⟨n, hn, hname, hmeasure⟩ := exists_objectives (level + 1) identifier (min score 100)
    have hpercent := percent?_plainText (Nat.min_le_right score 100)
    simp only [Node.select] at hmeasure
    cases timeLimitMinutes with
    | none =>
      obtain ⟨children, hlays, hchildren⟩ := hblock (Lays.nil.append hn)
      refine ⟨_, hlays, by simp [IsTitleOrItem], ?_⟩
      simp [limits?, Node.select, hchildren, hname, hmeasure, Node.optional?, hpercent]
    | some minutes =>
      obtain ⟨children, hlays, hchildren⟩ := hblock ((htime minutes).append hn)
      refine ⟨_, hlays, by simp [IsTitleOrItem], ?_⟩
      simp [limits?, Node.select, hchildren, hname, hmeasure, Node.optional?, hpercent,
        Time.iso8601OfMinutes, Time.secondsOfIso8601?_iso8601,
        minutes?_mul_sixty]

/-! ## Items -/

theorem items?_elements (version : ScormVersion) (nodes : List Node) :
    items? version (Node.elements nodes) = items? version nodes := by
  induction nodes with
  | nil => rfl
  | cons n ns ih =>
    cases n with
    | character c =>
      have hskip : items? version (.character c :: ns) = items? version ns := by
        rw [items?, if_neg (by simp [Node.name?])]
      rw [hskip, ← ih]
      rfl
    | element name attributes nodes =>
      change items? version (.element name attributes nodes :: Node.elements ns) = _
      rw [items?, items?, ih]

/-- Elements that are no items add no items. -/
theorem items?_append {version : ScormVersion} {others : List Node}
    (h : ∀ n ∈ others, n.name? ≠ some "item") (nodes : List Node) :
    items? version (nodes ++ others) = items? version nodes := by
  have hothers : items? version others = some [] := by
    induction others with
    | nil => rfl
    | cons n ns ih =>
      rw [items?, if_neg (h n List.mem_cons_self),
        ih fun m hm => h m (List.mem_cons_of_mem _ hm)]
  induction nodes with
  | nil => exact hothers
  | cons n ns ih => rw [List.cons_append, items?, items?, ih]

/-- Behind a title, items are read as they are, and what follows them is neither a title
nor an item. -/
theorem title_and_items {version : ScormVersion} {title : String} {is : List Item}
    {items others nodes : List Node} (hnames : ∀ n ∈ items, n.name? = some "item")
    (hothers : ∀ n ∈ others, ¬ IsTitleOrItem n)
    (hread : items? version items = some (toldItems is))
    (hnodes : Node.elements nodes =
      [.element "title" [] (Node.ofText title)] ++ items ++ others) :
    Node.named "title" (Node.elements nodes) =
        [.element "title" [] (Node.ofText title)] ∧
      items? version nodes = some (toldItems is) := by
  have hnone : Node.named "title" items = [] :=
    Node.named_eq_nil fun n hn => by simp [hnames n hn]
  have hnone' : Node.named "title" others = [] :=
    Node.named_eq_nil fun n hn heq => hothers n hn (Or.inl heq)
  refine ⟨by simp [hnodes, hnone, hnone'], ?_⟩
  rw [← items?_elements, hnodes, items?_append fun n hn heq => hothers n hn (Or.inr heq),
    List.singleton_append, items?, if_neg (by simp), hread]

theorem limits?_of_tellsLimits {version : ScormVersion} (level : Nat) (identifier : String)
    (masteryScore timeLimitMinutes : Option Nat) :
    TellsLimits version
      (match version with
        | .v12 => limits12 level masteryScore timeLimitMinutes
        | .v2004 => limits2004 level identifier masteryScore timeLimitMinutes)
      masteryScore timeLimitMinutes := by
  cases version with
  | v12 => exact tellsLimits12 level masteryScore timeLimitMinutes
  | v2004 => exact tellsLimits2004 level identifier masteryScore timeLimitMinutes

/-- The attributes of an item. -/
theorem spells_itemAttributes (identifier : String) (resourceRef : Option String) :
    List.Forall₂ (SpellsAttribute .xml)
      (attr "identifier" identifier :: whenSome resourceRef fun r => [attr "identifierref" r])
      (("identifier", identifier) ::
        resourceRef.toList.map fun r => ("identifierref", r)) := by
  have hidentifier := spellsAttribute_ofText (d := .xml)
    (isName_ofList (by decide) : IsName "identifier") identifier
  cases resourceRef with
  | none => exact .cons hidentifier .nil
  | some r =>
    exact .cons hidentifier
      (.cons (spellsAttribute_ofText (isName_ofList (by decide) : IsName "identifierref") r) .nil)

mutual

/-- An item is laid out as an element from which it is read. -/
theorem exists_item (version : ScormVersion) (level : Nat) : (i : Item) →
    ∃ n, Lays .xml (itemTokens version level i) [n] ∧ n.name? = some "item" ∧
      item? version n = some i.told
  | .node identifier title resourceRef masteryScore timeLimitMinutes children => by
    obtain ⟨ns, hitems, hnames, hread⟩ := exists_items version (level + 1) children
    obtain ⟨ls, hlimits, hothers, htold⟩ :=
      limits?_of_tellsLimits (level + 1) identifier masteryScore timeLimitMinutes
    have htitle := Lays.leaf (isName_ofList (by decide) : IsName "title") .nil (level + 1) title
    obtain ⟨nodes, hlays, hnodes⟩ := Lays.exists_blockElement
      (isName_ofList (by decide) : IsName "item") (isContainer_xml _)
      (spells_itemAttributes identifier resourceRef)
      ((htitle.append hitems).append hlimits) level
    rw [itemTokens.eq_def]
    refine ⟨_, hlays, rfl, ?_⟩
    have hkinds : ∀ n ∈ [Node.element "title" [] (Node.ofText title)] ++ ns,
        IsTitleOrItem n := by
      intro n hn
      rcases List.mem_append.mp hn with hn | hn
      · exact Or.inl (by rw [List.mem_singleton.mp hn]; rfl)
      · exact Or.inr (hnames n hn)
    obtain ⟨htitles, hitem⟩ := title_and_items hnames hothers hread hnodes
    have hlimit : limits? version (Node.elements nodes) =
        some (masteryScore.map (min · 100), timeLimitMinutes) := by
      rw [hnodes, limits?_append version hkinds, htold]
    have hid : (("identifier", identifier) ::
        resourceRef.toList.map fun r => ("identifierref", r)).lookup "identifier" =
          some identifier :=
      List.lookup_cons_self
    have href : (("identifier", identifier) ::
        resourceRef.toList.map fun r => ("identifierref", r)).lookup "identifierref" =
          resourceRef := by
      cases resourceRef <;> rfl
    -- Each part of the item is found among its elements under names that no other part has.
    rw [item?, if_neg (by simp)]
    simp only [hlimit, htitles, hitem, hid, href, Node.only?, bind, Option.bind,
      Node.content_ofText, Item.told]
    rfl

/-- Items are laid out as elements from which they are read. -/
theorem exists_items (version : ScormVersion) (level : Nat) : (is : List Item) →
    ∃ ns, Lays .xml (itemsTokens version level is) ns ∧
      (∀ n ∈ ns, n.name? = some "item") ∧ items? version ns = some (toldItems is)
  | [] => by
    rw [itemsTokens]
    exact ⟨[], Lays.nil, by simp, rfl⟩
  | i :: is => by
    obtain ⟨n, hitem, hname, hread⟩ := exists_item version level i
    obtain ⟨ns, hitems, hnames, hreads⟩ := exists_items version level is
    rw [itemsTokens]
    refine ⟨n :: ns, hitem.append hitems, ?_, ?_⟩
    · intro m hm
      rcases List.mem_cons.mp hm with rfl | hm
      · exact hname
      · exact hnames m hm
    · rw [items?, if_pos hname, hread, hreads]
      rfl

end

/-! ## Resources -/

def FileGroup.pairs (version : ScormVersion) (r : FileGroup) : List (String × String) :=
  [("identifier", r.identifier), ("type", "webcontent"),
    ((profile version).kindAttribute, r.kind.name)] ++ r.href.toList.map fun h => ("href", h)

theorem spells_resourceAttributes (version : ScormVersion) (r : FileGroup) :
    List.Forall₂ (SpellsAttribute .xml)
      ([attr "identifier" r.identifier, fixed "type" "webcontent",
        fixed (profile version).kindAttribute r.kind.name] ++
        whenSome r.href fun h => [attr "href" h])
      (r.pairs version) := by
  have hkind : SpellsAttribute .xml (fixed (profile version).kindAttribute r.kind.name)
      ((profile version).kindAttribute, r.kind.name) := by
    refine spellsAttribute_literal ?_ ?_
    · cases version <;> exact isName_ofList (by decide)
    · cases r.kind <;> exact isPlainValue_ofList (by decide)
  have hhref : List.Forall₂ (SpellsAttribute .xml)
      (whenSome r.href fun h => [attr "href" h])
      (r.href.toList.map fun h => ("href", h)) := by
    cases r.href with
    | none => exact .nil
    | some h =>
      exact .cons
        (spellsAttribute_ofText (isName_ofList (by decide) : IsName "href") h) .nil
  exact .cons
    (spellsAttribute_ofText (isName_ofList (by decide) : IsName "identifier") r.identifier)
    (.cons (spellsAttribute_literal (isName_ofList (by decide) : IsName "type")
      (isPlainValue_ofList (by decide) : IsPlainValue "webcontent")) (.cons hkind hhref))

/-- What a tag with one attribute is laid out as. -/
theorem lays_reference {name key : String} (hname : IsName name) (hkey : IsName key)
    (level : Nat) (s : String) :
    Lays .xml (indented level [.empty name [attr key s]]) [.element name [(key, s)] []] :=
  (Lays.of_element (Spells.empty hname (.cons (spellsAttribute_ofText hkey s) .nil))).indented
    level

/-- What tags with one attribute refer to. -/
theorem mapM_attribute?_references (name key : String) (texts : List String) :
    (texts.map fun f => Node.element name [(key, f)] []).mapM (·.attribute? key) =
      some texts := by
  have hall : List.Forall₂ (fun f n => n.attribute? key = some f) texts
      (texts.map fun f => Node.element name [(key, f)] []) := by
    induction texts with
    | nil => exact .nil
    | cons f fs ih => exact .cons (by simp) ih
  simpa using Node.mapM_of_forall₂ (g := id) hall

theorem exists_fileGroup (version : ScormVersion) (r : FileGroup) :
    ∃ n, Lays .xml (resourceTokens version r) [n] ∧ n.name? = some "resource" ∧
      fileGroup? version n = some r := by
  have hfiles := Lays.flatMap
    (fun f => lays_reference (isName_ofList (by decide) : IsName "file")
      (isName_ofList (by decide) : IsName "href") 3 f) r.files
  have hdependencies := Lays.flatMap
    (fun f => lays_reference (isName_ofList (by decide) : IsName "dependency")
      (isName_ofList (by decide) : IsName "identifierref") 3 f) r.dependencies
  obtain ⟨nodes, hlays, hnodes⟩ := Lays.exists_blockElement
    (isName_ofList (by decide) : IsName "resource") (isContainer_xml _)
    (spells_resourceAttributes version r) (hfiles.append hdependencies) 2
  refine ⟨_, hlays, rfl, ?_⟩
  have hfile := Node.named_map (fun f => Node.name?_element "file" [("href", f)] [])
  have hdependency := Node.named_map
    (fun f => Node.name?_element "dependency" [("identifierref", f)] [])
  have hkind : (ResourceKind.ofName? r.kind.name) = some r.kind := by
    cases r.kind <;> decide
  have hid : (r.pairs version).lookup "identifier" = some r.identifier :=
    List.lookup_cons_self
  have hkey : (r.pairs version).lookup (profile version).kindAttribute = some r.kind.name := by
    cases version <;> simp [FileGroup.pairs, profile, profile12, profile2004, List.lookup_cons]
  have href : (r.pairs version).lookup "href" = r.href := by
    cases version <;> cases hopt : r.href <;>
      simp [FileGroup.pairs, profile, profile12, profile2004, List.lookup_cons, List.lookup_nil,
        hopt]
  simp only [fileGroup?, Node.attribute?_element, Node.children_element, hnodes,
    Node.named_append, hfile, hdependency, hid, hkey, href, hkind, bind, Option.bind]
  simp [-List.mapM_map, mapM_attribute?_references]

/-! ## Metadata -/

/-- The attribute that tells the language of a text of the course's metadata. -/
def languageKey : ScormVersion → String
  | .v12 => "xml:lang"
  | .v2004 => "language"

/-- An element around a text with its language. -/
def saidNode (version : ScormVersion) (language name s : String) : Node :=
  .element name []
    [.element (langStringName version) [(languageKey version, language)] (Node.ofText s)]

@[simp] theorem name?_saidNode (version : ScormVersion) (language name s : String) :
    (saidNode version language name s).name? = some name := rfl

@[simp] theorem children_saidNode (version : ScormVersion) (language name s : String) :
    (saidNode version language name s).children =
      [.element (langStringName version) [(languageKey version, language)]
        (Node.ofText s)] := rfl

theorem lays_said {name : String} (hname : IsName name) (version : ScormVersion)
    (language s : String) (level : Nat) :
    Lays .xml (elementLine level name [] (langString version language s))
      [saidNode version language name s] := by
  have hspells : Spells .xml (langString version language s)
      [.element (langStringName version) [(languageKey version, language)]
        (Node.ofText s)] := by
    cases version with
    | v12 =>
      exact Spells.element (isName_ofList (by decide)) (isContainer_xml _)
        (.cons
          (spellsAttribute_ofText (isName_ofList (by decide) : IsName "xml:lang") language) .nil)
        (Spells.ofText s)
    | v2004 =>
      exact Spells.element (isName_ofList (by decide)) (isContainer_xml _)
        (.cons
          (spellsAttribute_ofText (isName_ofList (by decide) : IsName "language") language) .nil)
        (Spells.ofText s)
  exact Lays.elementLine hname .nil hspells level

/-- The description of a course, which is left out when it is empty. -/
def descriptionNodes (version : ScormVersion) (info : Metadata) : List Node :=
  if info.description.isEmpty then []
  else [saidNode version info.language "description" info.description]

theorem lays_description (version : ScormVersion) (info : Metadata) :
    Lays .xml
      (if info.description.isEmpty then []
        else elementLine 4 "description" []
          (langString version info.language info.description))
      (descriptionNodes version info) := by
  rw [descriptionNodes]
  split
  · exact Lays.nil
  · exact lays_said (isName_ofList (by decide)) version _ _ 4

/-- The elements of the general part of the metadata. -/
def generalNodes (version : ScormVersion) (info : Metadata) : List Node :=
  [saidNode version info.language "title" info.title] ++
    [.element "language" [] (Node.ofText info.language)] ++
    descriptionNodes version info ++
    info.keywords.map (saidNode version info.language "keyword")

/-- The element around the general part of the metadata. -/
theorem exists_general (version : ScormVersion) (info : Metadata) :
    ∃ children, Lays .xml
        (blockElement 3 "general" []
          (elementLine 4 "title" [] (langString version info.language info.title) ++
            elementLine 4 "language" [] [text info.language] ++
            (if info.description.isEmpty then []
              else elementLine 4 "description" []
                (langString version info.language info.description)) ++
            info.keywords.flatMap fun k =>
              elementLine 4 "keyword" [] (langString version info.language k)))
        [.element "general" [] children] ∧
      Node.elements children = generalNodes version info :=
  Lays.exists_blockElement (isName_ofList (by decide)) (isContainer_xml _) .nil
    ((((lays_said (isName_ofList (by decide)) version _ _ 4).append
        (Lays.leaf (isName_ofList (by decide)) .nil 4 _)).append
      (lays_description version info)).append
      (Lays.flatMap (fun k =>
        lays_said (isName_ofList (by decide)) version info.language k 4) _)) 3

/-- The element around the rights in the metadata, when there are any. -/
theorem exists_rights (version : ScormVersion) (info : Metadata) :
    ∃ rs, Lays .xml
        (whenSome info.copyright fun c =>
          blockElement 3 "rights" []
            (elementLine 4 "description" [] (langString version info.language c))) rs ∧
      Node.named "general" rs = [] ∧
      (Node.named "rights" rs).flatMap Node.children =
        info.copyright.toList.map (saidNode version info.language "description") := by
  cases info.copyright with
  | none => exact ⟨[], Lays.nil, rfl, rfl⟩
  | some c =>
    obtain ⟨children, hlays, hchildren⟩ := Lays.exists_blockElement
      (isName_ofList (by decide) : IsName "rights") (isContainer_xml _) .nil
      (lays_said (isName_ofList (by decide) : IsName "description") version info.language c 4) 3
    exact ⟨_, hlays, by simp, by simp [hchildren]⟩

/-- The texts of elements in which a text stands with its language. -/
theorem select_said (version : ScormVersion) (language name : String) (texts : List String) :
    Node.named (langStringName version)
        ((texts.map (saidNode version language name)).flatMap Node.children) =
      texts.map fun s => .element (langStringName version)
        [(languageKey version, language)] (Node.ofText s) := by
  induction texts with
  | nil => rfl
  | cons s texts ih => simp [ih]

theorem named_descriptionNodes (version : ScormVersion) (info : Metadata) (name : String) :
    Node.named name (descriptionNodes version info) =
      if name = "description" then descriptionNodes version info else [] := by
  rw [descriptionNodes]
  by_cases hempty : info.description.isEmpty = true
  · simp [hempty]
  · by_cases hname : name = "description"
    · simp [hempty, hname]
    · simp [hempty, hname, Ne.symm hname]

theorem named_said (version : ScormVersion) (language name other : String)
    (texts : List String) :
    Node.named name (texts.map (saidNode version language other)) =
      if other = name then texts.map (saidNode version language other) else [] :=
  Node.named_map (name?_saidNode version language other) name texts

/-- The parts of the metadata are found in the general part under their names. -/
theorem select_generalNodes (version : ScormVersion) (info : Metadata) :
    Node.select ["title", langStringName version] (generalNodes version info) =
        [.element (langStringName version) [(languageKey version, info.language)]
          (Node.ofText info.title)] ∧
      Node.select ["language"] (generalNodes version info) =
        [.element "language" [] (Node.ofText info.language)] ∧
      Node.optional? (fun n => some n.content)
          (Node.select ["description", langStringName version] (generalNodes version info)) =
        some (if info.description.isEmpty then none else some info.description) ∧
      (Node.select ["keyword", langStringName version] (generalNodes version info)).map
        (·.content) = info.keywords := by
  refine ⟨?_, ?_, ?_, ?_⟩
  · simp [generalNodes, Node.select, named_descriptionNodes, named_said]
  · simp [generalNodes, Node.select, named_descriptionNodes, named_said]
  · by_cases hempty : info.description.isEmpty = true <;>
      simp [generalNodes, Node.select, named_said, descriptionNodes, hempty, Node.optional?]
  · have hkeyword : Node.named "keyword" (generalNodes version info) =
        info.keywords.map (saidNode version info.language "keyword") := by
      simp [generalNodes, named_descriptionNodes, named_said]
    rw [Node.select, Node.select, hkeyword, select_said]
    · simp [Function.comp_def]
    · simp

/-- The one text of rights is found under its names, if there is one. -/
theorem optional?_rights {version : ScormVersion} {language : String} {copyright : Option String}
    {rights : List Node}
    (h : (Node.named "rights" rights).flatMap Node.children =
      copyright.toList.map (saidNode version language "description")) :
    Node.optional? (fun n => some n.content)
        (Node.select ["rights", "description", langStringName version] rights) =
      some copyright := by
  rw [Node.select, Node.select, Node.select, h, named_said, if_pos rfl, select_said]
  · cases copyright <;> simp [Node.optional?]
  · simp
  · simp

/-- The metadata are laid out as an element from which the version of the schema and
the metadata are read. -/
theorem exists_metadata (version : ScormVersion) (info : Metadata) :
    ∃ n, Lays .xml (metadataTokens version info) [n] ∧ n.name? = some "metadata" ∧
      ∀ nodes, Node.named "metadata" nodes = [n] →
        version? nodes = some version ∧
        metadata? version nodes = some { info with
          identifier := "", version := "", author := none, generatedAt := "" } := by
  obtain ⟨general, hgeneral, hparts⟩ := exists_general version info
  obtain ⟨rights, hrights, hnogeneral, hcopyright⟩ := exists_rights version info
  have hspace : IsPlainValue (profile version).lom := by
    cases version <;> exact isPlainValue_ofList (by decide)
  obtain ⟨lom, hlom, hlomParts⟩ := Lays.exists_blockElement
    (isName_ofList (by decide) : IsName "lom") (isContainer_xml _)
    (.cons (spellsAttribute_literal (isName_ofList (by decide) : IsName "xmlns") hspace) .nil)
    (hgeneral.append hrights) 2
  have hschema := Lays.leaf (isName_ofList (by decide) : IsName "schema") .nil 2 "ADL SCORM"
  have hversion := Lays.leaf (isName_ofList (by decide) : IsName "schemaversion") .nil 2
    version.schemaVersion
  obtain ⟨children, hlays, hchildren⟩ := Lays.exists_blockElement
    (isName_ofList (by decide) : IsName "metadata") (isContainer_xml _) .nil
    ((hschema.append hversion).append hlom) 1
  refine ⟨_, hlays, rfl, ?_⟩
  intro nodes hnodes
  have hdeclared : Node.select ["metadata", "schemaversion"] nodes =
      [.element "schemaversion" [] (Node.ofText version.schemaVersion)] := by
    simp [Node.select, hnodes, hchildren]
  have hfound : ([ScormVersion.v12, .v2004].find? fun v =>
      v.schemaVersion == version.schemaVersion) = some version := by
    cases version <;> decide
  refine ⟨?_, ?_⟩
  · rw [version?, hdeclared]
    simp only [Node.only?, Node.content_ofText, bind, Option.bind, hfound]
  -- Both parts stand in `lom`, and neither has elements with a name of the other.
  · have hgeneralPart : ∀ name path,
        Node.select (["metadata", "lom", "general"] ++ name :: path) nodes =
          Node.select (name :: path) (generalNodes version info) := by
      intro name path
      simp [Node.select, hnodes, hchildren, hlomParts, hnogeneral, hparts]
    obtain ⟨htitle, hlanguage, hdescription, hkeywords⟩ := select_generalNodes version info
    have hrightsPart : Node.select
        ["metadata", "lom", "rights", "description", langStringName version] nodes =
          Node.select ["rights", "description", langStringName version] rights := by
      simp [Node.select, hnodes, hchildren, hlomParts]
    have hempty : (if info.description.isEmpty then none
        else some info.description).getD "" = info.description := by
      split
      · rename_i h
        exact (String.isEmpty_iff.mp h).symm
      · rfl
    simp only [metadata?, hgeneralPart, htitle, hlanguage, hdescription, hkeywords,
      hrightsPart, optional?_rights hcopyright, hempty, Node.only?, Node.content_ofText, bind,
      Option.bind]
    rfl

/-! ## Manifests -/

/-- The organization is laid out as an element from which it is read. -/
theorem exists_organization (version : ScormVersion) (o : Organization) :
    ∃ n, Lays .xml
        (blockElement 2 "organization" [attr "identifier" o.identifier]
          (elementLine 3 "title" [] [text o.title] ++ itemsTokens version 3 o.items ++
            sequencing version)) [n] ∧
      n.name? = some "organization" ∧
      organization? version n = some { o with items := toldItems o.items } := by
  obtain ⟨ns, hitems, hnames, hread⟩ := exists_items version 3 o.items
  have htitle := Lays.leaf (isName_ofList (by decide) : IsName "title") .nil 3 o.title
  obtain ⟨qs, hsequencing, hothers⟩ : ∃ qs, Lays .xml (sequencing version) qs ∧
      ∀ n ∈ qs, ¬ IsTitleOrItem n := by
    cases version with
    | v12 => exact ⟨[], Lays.nil, by simp⟩
    | v2004 =>
      have hmode : Lays .xml
          (indented 4 [.empty "imsss:controlMode" [fixed "choice" "true", fixed "flow" "true"]])
          [.element "imsss:controlMode" [("choice", "true"), ("flow", "true")] []] :=
        (Lays.of_element (Spells.empty (isName_ofList (by decide)) <|
          .cons (spellsAttribute_literal (isName_ofList (by decide))
            (isPlainValue_ofList (by decide))) <|
          .cons (spellsAttribute_literal (isName_ofList (by decide))
            (isPlainValue_ofList (by decide))) .nil)).indented 4
      obtain ⟨children, hlays, -⟩ := Lays.exists_blockElement
        (isName_ofList (by decide) : IsName "imsss:sequencing") (isContainer_xml _) .nil hmode 3
      exact ⟨_, hlays, by simp [IsTitleOrItem]⟩
  obtain ⟨nodes, hlays, hnodes⟩ := Lays.exists_blockElement
    (isName_ofList (by decide) : IsName "organization") (isContainer_xml _)
    (.cons (spellsAttribute_ofText (isName_ofList (by decide) : IsName "identifier")
      o.identifier) .nil)
    ((htitle.append hitems).append hsequencing) 2
  refine ⟨_, hlays, rfl, ?_⟩
  obtain ⟨htitles, hitem⟩ := title_and_items hnames hothers hread hnodes
  simp [organization?, htitles, hitem, Node.only?]

def namespacePairs (p : Profile) : List (String × String) :=
  [("xmlns", p.space), ("xmlns:adlcp", p.adlcp)] ++
    (p.more.map fun e => ("xmlns:" ++ e.1, e.2)) ++
    [("xmlns:xsi", "http://www.w3.org/2001/XMLSchema-instance"),
      ("xsi:schemaLocation",
        " ".intercalate (p.schemas.map fun s => s.space ++ " " ++ s.location))]

theorem isPlainValue_intercalate {separator : String} (hseparator : IsPlainValue separator)
    {texts : List String} (h : ∀ s ∈ texts, IsPlainValue s) :
    IsPlainValue (separator.intercalate texts) := by
  induction texts with
  | nil =>
    intro c hc
    simp at hc
  | cons s texts ih =>
    cases texts with
    | nil => simpa using h s List.mem_cons_self
    | cons t texts =>
      rw [String.intercalate_cons_cons]
      exact ((h s List.mem_cons_self).append hseparator).append
        (ih fun x hx => h x (List.mem_cons_of_mem _ hx))

/-- Names and addresses of schemas are written as they are. -/
theorem profile_plain (version : ScormVersion) :
    (IsPlainValue (profile version).space ∧ IsPlainValue (profile version).adlcp) ∧
      (∀ e ∈ (profile version).more, IsName ("xmlns:" ++ e.1) ∧ IsPlainValue e.2) ∧
      ∀ s ∈ (profile version).schemas, IsPlainValue s.space ∧ IsPlainValue s.location := by
  cases version with
  | v12 =>
    simp only [profile, profile12, List.forall_mem_cons, List.not_mem_nil, false_imp_iff,
      implies_true, and_true, true_and]
    refine ⟨⟨?_, ?_⟩, ⟨?_, ?_⟩, ⟨?_, ?_⟩, ?_, ?_⟩ <;> exact isPlainValue_ofList (by decide)
  | v2004 =>
    simp only [profile, profile2004, List.forall_mem_cons, List.not_mem_nil, false_imp_iff,
      implies_true, and_true]
    refine ⟨⟨?_, ?_⟩, ⟨⟨?_, ?_⟩, ⟨?_, ?_⟩, ?_, ?_⟩, ⟨?_, ?_⟩, ⟨?_, ?_⟩, ⟨?_, ?_⟩, ⟨?_, ?_⟩,
      ⟨?_, ?_⟩, ?_, ?_⟩ <;>
      first
      | exact isPlainValue_ofList (by decide)
      | exact (isName_ofList (by decide)).append (isName_ofList (by decide))

theorem namespacePairs_plain (version : ScormVersion) :
    ∀ e ∈ namespacePairs (profile version), IsName e.1 ∧ IsPlainValue e.2 := by
  obtain ⟨⟨hspace, hadlcp⟩, hmore, hschemas⟩ := profile_plain version
  intro e he
  simp only [namespacePairs, List.mem_append, List.mem_cons, List.mem_map, List.not_mem_nil,
    or_false] at he
  rcases he with ((rfl | rfl) | ⟨x, hx, rfl⟩) | rfl | rfl
  · exact ⟨isName_ofList (by decide), hspace⟩
  · exact ⟨isName_ofList (by decide), hadlcp⟩
  · exact hmore x hx
  · exact ⟨isName_ofList (by decide), isPlainValue_ofList (by decide)⟩
  · refine ⟨isName_ofList (by decide), isPlainValue_intercalate
      (isPlainValue_ofList (by decide)) ?_⟩
    intro t ht
    obtain ⟨s, hs, rfl⟩ := List.mem_map.mp ht
    obtain ⟨hschema, hlocation⟩ := hschemas s hs
    exact (hschema.append (isPlainValue_ofList (by decide))).append hlocation

theorem spells_lines {pairs : List (String × String)}
    (h : ∀ e ∈ pairs, IsName e.1 ∧ IsPlainValue e.2) :
    List.Forall₂ (SpellsAttribute .xml) (pairs.map fun e => .onLine e.1 e.2) pairs := by
  induction pairs with
  | nil => exact .nil
  | cons e es ih =>
    obtain ⟨hname, hplain⟩ := h e List.mem_cons_self
    exact .cons (spellsAttribute_onLine hname hplain)
      (ih fun x hx => h x (List.mem_cons_of_mem _ hx))

theorem spells_manifestAttributes (m : Manifest) :
    List.Forall₂ (SpellsAttribute .xml) (manifestAttributes m)
      (("identifier", m.identifier) :: ("version", m.metadata.version) ::
        namespacePairs (profile m.version)) := by
  have hattributes : manifestAttributes m =
      attr "identifier" m.identifier :: attr "version" m.metadata.version ::
        (namespacePairs (profile m.version)).map fun e => .onLine e.1 e.2 := by
    simp [manifestAttributes, namespacePairs, Function.comp_def]
  rw [hattributes]
  exact .cons (spellsAttribute_ofText (isName_ofList (by decide)) _)
    (.cons (spellsAttribute_ofText (isName_ofList (by decide)) _)
      (spells_lines (namespacePairs_plain _)))

/-- The document of a manifest lays out one element, from which the manifest is
read. -/
theorem exists_root (m : Manifest) :
    ∃ n, Lays .xml m.tokens [n] ∧ n.name? = some "manifest" ∧ manifest? n = some m.told := by
  obtain ⟨metadata, hmetadata, hmetadataName, hmetadataRead⟩ :=
    exists_metadata m.version m.metadata
  obtain ⟨organization, horganization, horganizationName, horganizationRead⟩ :=
    exists_organization m.version m.organization
  obtain ⟨os, horganizations, hos⟩ := Lays.exists_blockElement
    (isName_ofList (by decide) : IsName "organizations") (isContainer_xml _)
    (.cons (spellsAttribute_ofText (isName_ofList (by decide) : IsName "default")
      m.organization.identifier) .nil) horganization 1
  obtain ⟨groups, hgroups, hreads⟩ := Lays.exists_flatMap
    (fun r (_ : r ∈ m.resources) => exists_fileGroup m.version r)
  obtain ⟨rs, hresources, hrs⟩ := Lays.exists_blockElement
    (isName_ofList (by decide) : IsName "resources") (isContainer_xml _) .nil hgroups 1
  obtain ⟨children, hlays, hchildren⟩ := Lays.exists_blockElement
    (isName_ofList (by decide) : IsName "manifest") (isContainer_xml _)
    (spells_manifestAttributes m) ((hmetadata.append horganizations).append hresources) 0
  have hdeclaration : Lays .xml
      (declaration "<?xml version=\"1.0\" encoding=\"UTF-8\"?>") [] :=
    Lays.declaration (by decide)
  refine ⟨_, hdeclaration.append hlays, rfl, ?_⟩
  have hmetadataOnly : Node.named "metadata" (Node.elements children) = [metadata] := by
    simp [hchildren, hmetadataName]
  obtain ⟨hversion, htold⟩ := hmetadataRead _ hmetadataOnly
  have horganizationOnly : Node.select ["organizations", "organization"]
      (Node.elements children) = [organization] := by
    simp [Node.select, hchildren, hmetadataName, hos, horganizationName]
  have hnames : ∀ n ∈ groups, n.name? = some "resource" :=
    Node.forall_of_forall₂ (hreads.imp fun _ _ h => h.1)
  have hgroupsOnly : Node.select ["resources", "resource"] (Node.elements children) =
      groups := by
    simp [Node.select, hchildren, hmetadataName, hrs, Node.named_eq_self hnames]
  have hread : groups.mapM (fileGroup? m.version) = some m.resources := by
    have hall : List.Forall₂ (fun r n => fileGroup? m.version n = some (id r)) m.resources
        groups := hreads.imp fun _ _ h => h.2
    rw [Node.mapM_of_forall₂ hall, List.map_id]
  simp only [manifest?, Node.children_element, hversion, Node.attribute?_element,
    List.lookup_cons_self, htold, horganizationOnly, horganizationRead, hgroupsOnly, hread,
    Node.only?, bind, Option.bind]
  simp [List.lookup_cons, Manifest.told]

/-- A manifest is recovered from its document. -/
theorem ofDocument?_document (m : Manifest) : ofDocument? m.document = some m.told := by
  obtain ⟨n, hlays, hname, hread⟩ := exists_root m
  rw [ofDocument?, Manifest.document, hlays.root?_eq, Option.bind_some, if_pos hname, hread]

/-- A document tells its manifest, and manifests that differ in what documents tell
have different documents. -/
theorem document_faithful (m other : Manifest) :
    ofDocument? m.document = some m.told ∧
      (m.told ≠ other.told → m.document ≠ other.document) := by
  refine ⟨ofDocument?_document m, ?_⟩
  intro hdiffer hsame
  have hread := ofDocument?_document other
  rw [← hsame, ofDocument?_document m] at hread
  exact hdiffer (Option.some.inj hread)

/-- A small manifest, with an item in an item. -/
def smallManifest (title : String) : Manifest where
  identifier := "M"
  version := .v12
  metadata := { title }
  organization :=
    ⟨"O", title, [.node "I" "<&>" none none none [.node "J" "" (some "R") (some 120) (some 90) []]]⟩
  resources := [⟨"R", some "a.html", .sco, ["a.html"], []⟩]

theorem document_faithful_smallManifest :
    ((smallManifest "a").told ≠ (smallManifest "b").told) ∧
      ofDocument? (smallManifest "a").document = some (smallManifest "a").told ∧
      (smallManifest "a").document ≠ (smallManifest "b").document := by
  have hdiffer : (smallManifest "a").told ≠ (smallManifest "b").told := by
    intro h
    have htitle := congrArg (fun m : Manifest => m.metadata.title) h
    exact absurd htitle (by decide)
  obtain ⟨hread, himplies⟩ := document_faithful (smallManifest "a") (smallManifest "b")
  exact ⟨hdiffer, hread, himplies hdiffer⟩

end Courseware.Descriptor.Scorm
