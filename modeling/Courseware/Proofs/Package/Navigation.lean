import Courseware.Proofs.Package.Layout
import Courseware.Proofs.Package.PageParts

/-!
# The links between the pages of a package

Every link that is written around the content of lessons leads to a file of the package.
The pages of the lessons of a bundle are linked in a row, in the order of the plan.
-/

namespace Courseware.Package

open Page (Part stylesheetPart scriptPart codePart indexPart lessonLinkParts)
open Text (pathSegment isSegmentChar)

/-! ## Where a link leads -/

def above : List Char := ['.', '.']

/-- One step from a folder, which is given by the folders around it. There is nothing above
the root of a package. -/
def enter? (folders : List (List Char)) (part : List Char) : Option (List (List Char)) :=
  if part = above then if folders = [] then none else some folders.dropLast
  else if part = [] ∨ part = ['.'] then some folders
  else some (folders ++ [part])

/-- The path that a relative link in a page leads to. An empty link, one that starts with a
slash and one with other characters than those of paths lead to none. -/
def target? (page link : String) : Option String :=
  let parts := link.toList.splitOn '/'
  if parts.head? ≠ some [] ∧ ∀ part ∈ parts, ∀ c ∈ part, isSegmentChar c = true then
    (parts.foldlM enter? (page.toList.splitOn '/').dropLast).map fun steps =>
      String.ofList (['/'].intercalate steps)
  else none

theorem foldlM_enter?_of_safe {parts : List (List Char)} (h : ∀ part ∈ parts, IsSafePart part)
    (folders : List (List Char)) : parts.foldlM enter? folders = some (folders ++ parts) := by
  induction parts generalizing folders with
  | nil => simp
  | cons part parts ih =>
    obtain ⟨hne, hdot, habove, -⟩ := h part List.mem_cons_self
    have hstep : enter? folders part = some (folders ++ [part]) := by
      simp [enter?, above, hne, hdot, habove]
    rw [List.foldlM_cons, hstep, Option.bind_eq_bind, Option.bind_some,
      ih (fun x hx => h x (List.mem_cons_of_mem _ hx)), List.append_assoc, List.singleton_append]

/-- As many steps up as there are inner folders lead to the outer ones. -/
theorem foldlM_enter?_above (outer inner : List (List Char)) :
    (List.replicate inner.length above).foldlM enter? (outer ++ inner) = some outer := by
  induction inner using List.reverseRecOn with
  | nil => simp
  | append_singleton inner folder ih =>
    have hstep : enter? (outer ++ (inner ++ [folder])) above = some (outer ++ inner) := by
      rw [enter?, if_pos rfl, if_neg (by simp), ← List.append_assoc, List.dropLast_concat]
    rw [List.length_append, List.length_singleton, List.replicate_succ, List.foldlM_cons, hstep]
    exact ih

/-- A path that is spelled by its parts. -/
def Spelled (path : String) (parts : List (List Char)) : Prop :=
  path.toList = ['/'].intercalate parts

theorem Spelled.splitOn_eq {path : String} {parts : List (List Char)} (h : Spelled path parts)
    (hne : parts ≠ []) (hslash : ∀ part ∈ parts, '/' ∉ part) :
    path.toList.splitOn '/' = parts := by
  rw [h, List.splitOn_intercalate '/' hslash hne]

theorem isSegmentChar_of_mem_above : ∀ c ∈ above, isSegmentChar c = true := by decide

/-- A link that goes up from the inner folders of its page and then down again. -/
theorem target?_eq {page link target : String} (outer inner parts : List (List Char))
    (name : List Char) (hpage : Spelled page (outer ++ inner ++ [name]))
    (hlink : Spelled link (List.replicate inner.length above ++ parts))
    (htarget : Spelled target (outer ++ parts))
    (hfolders : ∀ part ∈ outer ++ inner ++ [name], IsSafePart part)
    (hparts : ∀ part ∈ parts, IsSafePart part) (hne : parts ≠ []) :
    target? page link = some target := by
  have hchars : ∀ part ∈ List.replicate inner.length above ++ parts,
      part ≠ [] ∧ ∀ c ∈ part, isSegmentChar c = true := by
    intro part hpart
    rcases List.mem_append.mp hpart with hpart | hpart
    · rw [List.eq_of_mem_replicate hpart]
      exact ⟨by decide, isSegmentChar_of_mem_above⟩
    · exact ⟨(hparts part hpart).1, (hparts part hpart).2.2.2⟩
  have hslash : ∀ part ∈ List.replicate inner.length above ++ parts, '/' ∉ part :=
    fun part hpart hmem => absurd ((hchars part hpart).2 '/' hmem) (by decide)
  have hhead : (List.replicate inner.length above ++ parts).head? ≠ some [] :=
    fun heq => (hchars _ (List.mem_of_mem_head? heq)).1 rfl
  have hwalk : (List.replicate inner.length above ++ parts).foldlM enter? (outer ++ inner) =
      some (outer ++ parts) := by
    rw [List.foldlM_append, foldlM_enter?_above]
    exact foldlM_enter?_of_safe hparts outer
  rw [target?, hlink.splitOn_eq (by simp [hne]) hslash,
    hpage.splitOn_eq (by simp) fun part hpart => (hfolders part hpart).slash_notMem,
    if_pos ⟨hhead, fun part hpart => (hchars part hpart).2⟩, List.dropLast_concat, hwalk,
    Option.map_some, ← htarget, String.ofList_toList]

theorem spelled_splitOn (path : String) : Spelled path (path.toList.splitOn '/') :=
  (List.intercalate_splitOn '/').symm

theorem length_splitOn (cs : List Char) :
    (cs.splitOn '/').length = cs.count '/' + 1 := by
  induction cs with
  | nil => rfl
  | cons c cs ih =>
    rw [List.splitOn] at ih ⊢
    rw [List.splitOnP_cons_eq_if_modifyHead, List.count_cons]
    split <;> simp [*]

/-- Steps up, each with its slash, before a path. -/
theorem Spelled.up {path : String} {parts : List (List Char)} (h : Spelled path parts)
    (hne : parts ≠ []) (n : Nat) :
    Spelled (String.ofList (List.replicate n ['.', '.', '/']).flatten ++ path)
      (List.replicate n above ++ parts) := by
  induction n with
  | zero => simpa [Spelled] using h
  | succ n ih =>
    rw [Spelled, List.replicate_succ (a := above), List.cons_append,
      List.intercalate_cons_of_ne_nil (by simp [hne]), ← ih]
    simp [List.replicate_succ, above]

/-- A link from a page to the root of the package and down to a file. -/
theorem target?_up {page path : String} (up : String) (hpage : IsSafePath page)
    (hup : up.toList = (List.replicate (page.toList.count '/') ['.', '.', '/']).flatten)
    (hpath : IsSafePath path) : target? page (up ++ path) = some path := by
  have hne := List.splitOn_ne_nil '/' page.toList
  have hdepth : (page.toList.splitOn '/').dropLast.length = page.toList.count '/' := by
    rw [List.length_dropLast, length_splitOn, Nat.add_sub_cancel]
  have hsplit : (page.toList.splitOn '/').dropLast ++ [(page.toList.splitOn '/').getLast hne] =
      page.toList.splitOn '/' := List.dropLast_concat_getLast hne
  refine target?_eq [] (page.toList.splitOn '/').dropLast (path.toList.splitOn '/')
    ((page.toList.splitOn '/').getLast hne) ?_ ?_ (spelled_splitOn path) ?_ hpath
    (List.splitOn_ne_nil _ _)
  · rw [List.nil_append, hsplit]
    exact spelled_splitOn page
  · rw [hdepth, ← String.ofList_toList (s := up), hup]
    exact (spelled_splitOn path).up (List.splitOn_ne_nil _ _) _
  · rw [List.nil_append, hsplit]
    exact hpage

/-- A link from a page to a file in the same folder. -/
theorem target?_beside {page link target : String} (folders : List (List Char)) (name : List Char)
    (hpage : Spelled page (folders ++ [name])) (htarget : Spelled target (folders ++ [link.toList]))
    (hfolders : ∀ part ∈ folders, IsSafePart part) (hname : IsSafePart name)
    (hlink : IsSafePart link.toList) : target? page link = some target := by
  refine target?_eq folders [] [link.toList] name ?_ ?_ htarget ?_ ?_ (List.cons_ne_nil _ _)
  · rwa [List.append_nil]
  · simp [Spelled]
  · rw [List.append_nil]
    exact List.forall_mem_append.mpr ⟨hfolders, List.forall_mem_singleton.mpr hname⟩
  · exact List.forall_mem_singleton.mpr hlink

/-! ## The links of a page -/

def linksOf (part : Part) : List String :=
  (part.attributes.filter fun a => ["href", "src"].contains a.1).map Prod.snd

/-- Whether all links of a page lead to files. -/
def LinksLead (isFile : String → Prop) (page : String) (parts : List Part) : Prop :=
  ∀ link ∈ parts.flatMap linksOf, ∃ target, isFile target ∧ target? page link = some target

namespace LinksLead

variable {isFile : String → Prop} {page : String} {part : Part} {ps qs : List Part}

theorem nil : LinksLead isFile page [] := fun _ h => absurd h List.not_mem_nil

theorem append (hp : LinksLead isFile page ps) (hq : LinksLead isFile page qs) :
    LinksLead isFile page (ps ++ qs) := by
  intro link hlink
  rw [List.flatMap_append] at hlink
  exact (List.mem_append.mp hlink).elim (hp link) (hq link)

/-- An element without links. -/
theorem skip (hpart : linksOf part = []) (h : LinksLead isFile page ps) :
    LinksLead isFile page (part :: ps) := by
  rw [LinksLead, List.flatMap_cons, hpart]
  exact h

/-- An element with one link. -/
theorem cons {link target : String} (hpart : linksOf part = [link]) (hfile : isFile target)
    (htarget : target? page link = some target) (h : LinksLead isFile page ps) :
    LinksLead isFile page (part :: ps) := by
  rw [LinksLead, List.flatMap_cons, hpart]
  exact List.forall_mem_cons.mpr ⟨⟨target, hfile, htarget⟩, h⟩

theorem map {α : Type} {f : α → Part} {as : List α}
    (h : ∀ a ∈ as, LinksLead isFile page [f a]) : LinksLead isFile page (as.map f) := by
  induction as with
  | nil => exact nil
  | cons a as ih =>
    exact (h a List.mem_cons_self).append (ih fun x hx => h x (List.mem_cons_of_mem _ hx))

end LinksLead

/-! ## Each format -/

variable {p : Plan} {ctx : ExportContext} {files : FileTree} {l : PlannedLesson}

/-- Whether a path is one of those that packages of a plan have in a format. -/
def IsFile (f : Format) (p : Plan) (path : String) : Prop :=
  path ∈ fixedPaths f ∨ ∃ l ∈ p.lessons, path ∈ lessonPaths f (pathSegment l.lesson.id)

theorem IsFile.isSafePath {f : Format} {path : String} (h : IsFile f p path) :
    IsSafePath path := by
  rcases h with hfixed | ⟨l, -, hlesson⟩
  · exact isSafePath_of_mem_fixedPaths f path hfixed
  · exact isSafePath_of_mem_lessonPaths f l.lesson.id path hlesson

/-- An element whose link goes up to the root of the package. -/
theorem LinksLead.cons_up {f : Format} {page up path : String} {part : Part} {ps : List Part}
    (hpart : linksOf part = [up ++ path]) (hpage : IsFile f p page)
    (hup : up.toList = (List.replicate (page.toList.count '/') ['.', '.', '/']).flatten)
    (hfile : IsFile f p path) (h : LinksLead (IsFile f p) page ps) :
    LinksLead (IsFile f p) page (part :: ps) :=
  .cons hpart hfile (target?_up up hpage.isSafePath hup hfile.isSafePath) h

/-- A segment has no slash. -/
theorem count_slash_segmentPath (start id stop : String) :
    (start ++ pathSegment id ++ stop).toList.count '/' =
      start.toList.count '/' + stop.toList.count '/' := by
  have hsegment : (pathSegment id).toList.count '/' = 0 :=
    List.count_eq_zero.mpr (isSafePart_pathSegment id).slash_notMem
  rw [String.toList_append, String.toList_append, List.count_append, List.count_append, hsegment,
    Nat.add_zero]

namespace Scorm

theorem isFile_launcherPath (version : ScormVersion) (hp : Plan.ofCourse ctx.course = .ok p)
    (hl : l ∈ p.lessons) : IsFile (.scorm version) p (launcherPath l) := by
  rw [launcherPath_eq hp hl]
  exact Or.inr ⟨l, hl, List.mem_cons_self⟩

theorem isFile_contentPath (version : ScormVersion) (hp : Plan.ofCourse ctx.course = .ok p)
    (hl : l ∈ p.lessons) : IsFile (.scorm version) p (contentPath l) := by
  rw [contentPath_eq hp hl]
  exact Or.inr ⟨l, hl, List.mem_cons_of_mem _ List.mem_cons_self⟩

theorem linksLead_pages (version : ScormVersion) (hp : Plan.ofCourse ctx.course = .ok p) :
    ∀ g ∈ pages p ctx (.scorm version), LinksLead (IsFile (.scorm version) p) g.1 g.2 := by
  have hstyles : IsFile (.scorm version) p stylesPath :=
    Or.inl (by rw [fixedPaths]; decide)
  have hscript : IsFile (.scorm version) p scriptPath :=
    Or.inl (by rw [fixedPaths]; decide)
  intro g hg
  obtain ⟨l, hl, hg⟩ := List.mem_flatMap.mp hg
  have hlauncher := isFile_launcherPath version hp hl
  have hcontent := isFile_contentPath version hp hl
  have hroot {stop : String} (hstop : stop.toList.count '/' = 1) : root.toList =
      (List.replicate (("content/" ++ l.segment ++ stop).toList.count '/')
        ['.', '.', '/']).flatten := by
    rw [Plan.segment_eq hp hl, count_slash_segmentPath, hstop]
    rfl
  have hframe : target? (launcherPath l) "content.html" = some (contentPath l) := by
    refine target?_beside ["content".toList, l.segment.toList] "index.html".toList ?_ ?_ ?_
      (by decide) (by decide)
    · simp [Spelled, launcherPath, List.intercalate]
    · simp [Spelled, contentPath, List.intercalate]
    · rw [Plan.segment_eq hp hl]
      exact List.forall_mem_cons.mpr
        ⟨by decide, List.forall_mem_singleton.mpr (isSafePart_pathSegment _)⟩
  simp only [List.mem_cons, List.not_mem_nil, or_false] at hg
  rcases hg with rfl | rfl
  · exact .cons_up rfl hlauncher (hroot (by decide)) hstyles <| .skip rfl <|
      .cons_up rfl hlauncher (hroot (by decide)) hscript <| .skip rfl <|
      .cons rfl hcontent hframe .nil
  · exact .cons_up rfl hcontent (hroot (by decide)) hstyles <| .skip rfl <|
      .cons_up rfl hcontent (hroot (by decide)) hscript .nil

end Scorm

namespace Cmi5

theorem linksLead_pages (hp : Plan.ofCourse ctx.course = .ok p) :
    ∀ g ∈ pages p ctx .cmi5, LinksLead (IsFile .cmi5 p) g.1 g.2 := by
  have hstyles : IsFile .cmi5 p stylesPath := Or.inl (by decide)
  have hscript : IsFile .cmi5 p scriptPath := Or.inl (by decide)
  intro g hg
  obtain ⟨l, hl, hg⟩ := List.mem_flatMap.mp hg
  obtain rfl := List.mem_singleton.mp hg
  have hunit : IsFile .cmi5 p (unitPath l) := by
    rw [unitPath_eq hp hl]
    exact Or.inr ⟨l, hl, List.mem_cons_self⟩
  have hroot : root.toList =
      (List.replicate ((unitPath l).toList.count '/') ['.', '.', '/']).flatten := by
    rw [unitPath_eq hp hl, segmentPath, count_slash_segmentPath]
    rfl
  exact .cons_up rfl hunit hroot hstyles <| .skip rfl <| .skip rfl <|
    .cons_up rfl hunit hroot hscript .nil

end Cmi5

namespace Bundle

theorem mem_lessons_of_previous? {q : PlannedLesson} (h : q ∈ p.previous? l) :
    q ∈ p.lessons := by
  rw [Plan.previous?] at h
  split at h
  · cases h
  · exact List.mem_of_getElem? h

theorem target?_lesson (hp : Plan.ofCourse ctx.course = .ok p) (hl : l ∈ p.lessons)
    {q : PlannedLesson} (hq : q ∈ p.lessons) :
    target? (lessonPath l) (pageName q) = some (lessonPath q) := by
  have hspelled (q : PlannedLesson) :
      Spelled (lessonPath q) ["lessons".toList, (pageName q).toList] := by
    simp [Spelled, lessonPath, List.intercalate]
  have hsafe {q : PlannedLesson} (hq : q ∈ p.lessons) : IsSafePart (pageName q).toList := by
    rw [pageName, Plan.segment_eq hp hq, String.toList_append]
    exact isSafePart_pathSegment_append _ (by decide)
  exact target?_beside _ _ (hspelled l) (hspelled q) (List.forall_mem_singleton.mpr (by decide))
    (hsafe hl) (hsafe hq)

/-- The links of the index and of the pages of the lessons, which load some scripts. -/
theorem linksLead_pages {f : Format} {scripts : List String}
    (hp : Plan.ofCourse ctx.course = .ok p)
    (hfixed : ∀ path ∈ indexPath :: stylesPath :: scripts, path ∈ fixedPaths f)
    (hlessonPaths : ∀ segment, lessonPaths f segment = ["lessons/" ++ segment ++ ".html"]) :
    ∀ g ∈ (indexPath, indexParts scripts p) ::
        p.lessons.flatMap fun l => [(lessonPath l, lessonParts scripts p l)],
      LinksLead (IsFile f p) g.1 g.2 := by
  obtain ⟨hindex, hstyles, hscripts⟩ : IsFile f p indexPath ∧ IsFile f p stylesPath ∧
      ∀ src ∈ scripts, IsFile f p src := by
    simpa [IsFile] using fun path hpath => (Or.inl (hfixed path hpath) : IsFile f p path)
  have hlessons {l : PlannedLesson} (hl : l ∈ p.lessons) : IsFile f p (lessonPath l) := by
    rw [lessonPath_eq hp hl]
    exact Or.inr ⟨l, hl, by rw [hlessonPaths]; exact List.mem_singleton.mpr rfl⟩
  intro g hg
  rcases List.mem_cons.mp hg with rfl | hg
  · have htop {path : String} (h : IsFile f p path) : target? indexPath path = some path := by
      have htarget := target?_up "" hindex.isSafePath (by decide) h.isSafePath
      rwa [String.empty_append] at htarget
    refine .cons rfl hstyles (htop hstyles) (LinksLead.append ?_ ?_)
    · exact LinksLead.map fun l hl => .cons rfl (hlessons hl) (htop (hlessons hl)) .nil
    · exact LinksLead.map fun src hsrc =>
        .cons rfl (hscripts src hsrc) (htop (hscripts src hsrc)) .nil
  · obtain ⟨l, hl, hg⟩ := List.mem_flatMap.mp hg
    obtain rfl := List.mem_singleton.mp hg
    have hroot : root.toList =
        (List.replicate ((lessonPath l).toList.count '/') ['.', '.', '/']).flatten := by
      rw [lessonPath_eq hp hl, segmentPath, count_slash_segmentPath]
      rfl
    refine LinksLead.append (.append ?_ (.append (.append ?_ ?_) ?_)) ?_
    · exact .cons_up rfl (hlessons hl) hroot hstyles <| .skip rfl .nil
    · refine LinksLead.map fun q hq => ?_
      have hmem := mem_lessons_of_previous? (Option.mem_toList.mp hq)
      exact .cons rfl (hlessons hmem) (target?_lesson hp hl hmem) .nil
    · exact .cons_up rfl (hlessons hl) hroot hindex .nil
    · refine LinksLead.map fun q hq => ?_
      have hmem := List.mem_of_getElem? (Option.mem_toList.mp hq)
      exact .cons rfl (hlessons hmem) (target?_lesson hp hl hmem) .nil
    · exact LinksLead.map fun src hsrc => .cons_up rfl (hlessons hl) hroot (hscripts src hsrc) .nil

end Bundle

theorem linksLead_pages (f : Format) (hp : Plan.ofCourse ctx.course = .ok p) :
    ∀ g ∈ pages p ctx f, LinksLead (IsFile f p) g.1 g.2 := by
  cases f with
  | scorm version => exact Scorm.linksLead_pages version hp
  | cmi5 => exact Cmi5.linksLead_pages hp
  | xapi => exact Bundle.linksLead_pages hp (by decide) fun _ => rfl
  | html5 => exact Bundle.linksLead_pages hp (by decide) fun _ => rfl

/-! ## The row of lessons -/

/-- Whether an element says how its page is related to what it links to. -/
def hasRelation (relation : String) (part : Part) : Bool :=
  part.attributes.lookup "rel" == some relation

/-- The files that the links of a page with a relation lead to. -/
def related (files : FileTree) (relation path : String) : List String :=
  ((((pageAt? files path).getD []).filter (hasRelation relation)).flatMap linksOf).filterMap
    (target? path)

/-- The pages that are met from a page by following links with a relation. -/
def walk (files : FileTree) (relation : String) : Nat → String → List String
  | 0, _ => []
  | n + 1, path => path :: (related files relation path).flatMap (walk files relation n)

/-- Whether pages are linked in a row: each to the one before and to the one behind. -/
structure IsRow (files : FileTree) (row : List String) : Prop where
  nodup : row.Nodup
  next : ∀ i path, row[i]? = some path → related files "next" path = row[i + 1]?.toList
  previous_first : ∀ path, row[0]? = some path → related files "prev" path = []
  previous : ∀ i path, row[i + 1]? = some path → related files "prev" path = row[i]?.toList

theorem IsRow.walk_eq {row : List String} (h : IsRow files row) {i : Nat} {path : String}
    (hpath : row[i]? = some path) (n : Nat) :
    walk files "next" n path = (row.drop i).take n := by
  induction n generalizing i path with
  | zero => rfl
  | succ n ih =>
    obtain ⟨hi, rfl⟩ := List.getElem?_eq_some_iff.mp hpath
    rw [walk, h.next i _ hpath, List.drop_eq_getElem_cons hi, List.take_succ_cons]
    congr 1
    cases hnext : row[i + 1]? with
    | none => simp [List.drop_eq_nil_of_le (List.getElem?_eq_none_iff.mp hnext)]
    | some path =>
      rw [Option.toList_some, List.flatMap_singleton, ih hnext]

namespace Bundle

variable (scripts : List String) (p : Plan) (l : PlannedLesson)

theorem filter_lessonParts_next :
    (lessonParts scripts p l).filter (hasRelation "next") =
      (p.next? l).toList.map fun q => Page.nextPart (pageName q) := by
  have hstyles : hasRelation "next" (stylesheetPart (root ++ stylesPath)) = false := rfl
  have hbody : hasRelation "next" (namedBody l) = false := rfl
  have hprevious (q : PlannedLesson) :
      hasRelation "next" (Page.previousPart (pageName q)) = false := rfl
  have hhome : hasRelation "next" (Page.homePart (root ++ indexPath)) = false := rfl
  have hnext (q : PlannedLesson) : hasRelation "next" (Page.nextPart (pageName q)) = true := rfl
  have hscript (src : String) : hasRelation "next" (scriptPart (root ++ src)) = false := rfl
  simp [lessonParts, lessonLinkParts, List.filter_map, Function.comp_def, *]

theorem filter_lessonParts_prev :
    (lessonParts scripts p l).filter (hasRelation "prev") =
      (p.previous? l).toList.map fun q => Page.previousPart (pageName q) := by
  have hstyles : hasRelation "prev" (stylesheetPart (root ++ stylesPath)) = false := rfl
  have hbody : hasRelation "prev" (namedBody l) = false := rfl
  have hprevious (q : PlannedLesson) :
      hasRelation "prev" (Page.previousPart (pageName q)) = true := rfl
  have hhome : hasRelation "prev" (Page.homePart (root ++ indexPath)) = false := rfl
  have hnext (q : PlannedLesson) : hasRelation "prev" (Page.nextPart (pageName q)) = false := rfl
  have hscript (src : String) : hasRelation "prev" (scriptPart (root ++ src)) = false := rfl
  simp [lessonParts, lessonLinkParts, List.filter_map, Function.comp_def, *]

variable {scripts p l}

theorem related_next (hp : Plan.ofCourse ctx.course = .ok p) (hl : l ∈ p.lessons)
    (hpage : pageAt? files (lessonPath l) = some (lessonParts scripts p l)) :
    related files "next" (lessonPath l) = (p.next? l).toList.map lessonPath := by
  rw [related, hpage, Option.getD_some, filter_lessonParts_next]
  cases hnext : p.next? l with
  | none => rfl
  | some q =>
    have htarget := target?_lesson hp hl (List.mem_of_getElem? hnext)
    simp [linksOf, Page.nextPart, htarget]

theorem related_prev (hp : Plan.ofCourse ctx.course = .ok p) (hl : l ∈ p.lessons)
    (hpage : pageAt? files (lessonPath l) = some (lessonParts scripts p l)) :
    related files "prev" (lessonPath l) = (p.previous? l).toList.map lessonPath := by
  rw [related, hpage, Option.getD_some, filter_lessonParts_prev]
  cases hprevious : p.previous? l with
  | none => rfl
  | some q =>
    have htarget := target?_lesson hp hl (mem_lessons_of_previous? hprevious)
    simp [linksOf, Page.previousPart, htarget]

theorem isRow_lessons (hp : Plan.ofCourse ctx.course = .ok p)
    (hpages : ∀ l ∈ p.lessons, pageAt? files (lessonPath l) = some (lessonParts scripts p l)) :
    IsRow files (p.lessons.map lessonPath) := by
  have hlesson {i : Nat} {path : String} (h : (p.lessons.map lessonPath)[i]? = some path) :
      ∃ l ∈ p.lessons, l.index = i ∧ lessonPath l = path := by
    rw [List.getElem?_map] at h
    obtain ⟨l, hl, rfl⟩ := Option.map_eq_some_iff.mp h
    exact ⟨l, List.mem_of_getElem? hl, Plan.index_eq hp hl, rfl⟩
  refine ⟨nodup_contentPaths .html5 hp, fun i path h => ?_, fun path h => ?_, fun i path h => ?_⟩
  · obtain ⟨l, hl, rfl, rfl⟩ := hlesson h
    rw [related_next hp hl (hpages l hl), Plan.next?, List.getElem?_map, Option.toList_map]
  · obtain ⟨l, hl, hindex, rfl⟩ := hlesson h
    rw [related_prev hp hl (hpages l hl), Plan.previous?, if_pos hindex]
    rfl
  · obtain ⟨l, hl, hindex, rfl⟩ := hlesson h
    rw [related_prev hp hl (hpages l hl), Plan.previous?, if_neg (by omega), hindex,
      Nat.add_sub_cancel, List.getElem?_map, Option.toList_map]

theorem exists_mem_pages_lesson (p : Plan) (ctx : ExportContext) {f : Format}
    (hf : f = .xapi ∨ f = .html5) :
    ∃ scripts, ∀ l ∈ p.lessons, (lessonPath l, lessonParts scripts p l) ∈ pages p ctx f := by
  have hlesson (scripts : List String) (l : PlannedLesson) (hl : l ∈ p.lessons) :
      (lessonPath l, lessonParts scripts p l) ∈
        p.lessons.flatMap fun l => [(lessonPath l, lessonParts scripts p l)] :=
    List.mem_flatMap.mpr ⟨l, hl, List.mem_singleton.mpr rfl⟩
  rcases hf with rfl | rfl
  · exact ⟨xapiScripts, fun l hl => List.mem_cons_of_mem _ (hlesson _ l hl)⟩
  · exact ⟨[navigationPath], fun l hl => List.mem_cons_of_mem _ (hlesson _ l hl)⟩

end Bundle

/-! ## Packages -/

/-- In a package of an accepted course, every link that is written around the content of
lessons leads to a file of the package. The pages of the lessons of a bundle are linked in a
row, and going to the next one from the first meets all of them in the order of the plan. -/
theorem navigation_buildFiles (f : Format) (hp : Plan.ofCourse ctx.course = .ok p) :
    ∃ files, (Exporter.ofFormat f).buildFiles ctx = .ok files ∧
      (∀ path ∈ files.paths, IsPage path → ∃ parts, pageAt? files path = some parts ∧
        ∀ link ∈ parts.flatMap linksOf,
          ∃ target ∈ files.paths, target? path link = some target) ∧
      (f = .xapi ∨ f = .html5 → IsRow files (p.lessons.map Bundle.lessonPath) ∧
        ∀ path ∈ (p.lessons.map Bundle.lessonPath).head?, ∀ n,
          walk files "next" n path = (p.lessons.map Bundle.lessonPath).take n) := by
  obtain ⟨files, hfiles⟩ := Exporter.exists_planFiles f hp
  refine ⟨files, by rw [Exporter.buildFiles_eq hp, hfiles], ?_, fun hf => ?_⟩
  · intro path hpath hpage
    obtain ⟨parts, hparts⟩ := exists_mem_pages f hfiles hpath hpage
    refine ⟨parts, pageAt?_eq f hfiles hparts, fun link hlink => ?_⟩
    obtain ⟨target, hfile, htarget⟩ := linksLead_pages f hp _ hparts link hlink
    exact ⟨target, (mem_paths_planFiles_iff f hp hfiles target).mpr hfile, htarget⟩
  · obtain ⟨scripts, hmem⟩ := Bundle.exists_mem_pages_lesson p ctx hf
    have hrow : IsRow files (p.lessons.map Bundle.lessonPath) :=
      Bundle.isRow_lessons hp fun l hl => pageAt?_eq f hfiles (hmem l hl)
    refine ⟨hrow, fun path hpath n => ?_⟩
    rw [Option.mem_def, List.head?_eq_getElem?] at hpath
    exact hrow.walk_eq hpath n

theorem navigation_buildFiles_dotted :
    ∃ files, (Exporter.ofFormat .html5).buildFiles dottedContext = .ok files ∧
      (∀ path ∈ files.paths, IsPage path → ∃ parts, pageAt? files path = some parts ∧
        ∀ link ∈ parts.flatMap linksOf,
          ∃ target ∈ files.paths, target? path link = some target) ∧
      ∀ n, walk files "next" (n + 3) "lessons/.._start.html" =
        ["lessons/.._start.html", "lessons/_.html", "lessons/end.html"] := by
  have hplan : Plan.ofCourse dottedContext.course = .ok dottedPlan := ofCourse_dottedCourse
  have hpaths : dottedPlan.lessons.map Bundle.lessonPath =
      ["lessons/.._start.html", "lessons/_.html", "lessons/end.html"] := by decide +kernel
  obtain ⟨files, hfiles, hlinks, hrow⟩ := navigation_buildFiles .html5 hplan
  obtain ⟨-, hwalk⟩ := hrow (Or.inr rfl)
  refine ⟨files, hfiles, hlinks, fun n => ?_⟩
  rw [hpaths] at hwalk
  exact (hwalk _ rfl (n + 3)).trans (List.take_of_length_le (Nat.le_add_left 3 n))

end Courseware.Package
