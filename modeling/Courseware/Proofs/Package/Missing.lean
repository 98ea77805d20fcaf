import Courseware.Proofs.Package.Surroundings

/-!
# Files that are missing

What a check says of the files that a package needs, for every archive that can be read. A file
is there when an entry has its path and is no folder. All others are said to be missing, and so
is a descriptor that is there but is no text; one that is a text which cannot be understood is
said to be unreadable.
-/

namespace Courseware

/-- Whether a file is there but is no text. -/
def PackageContents.isGarbled (p : PackageContents) (path : String) : Bool :=
  (p.get? path).any fun contents => (Text.ofUtf8? contents).isNone

namespace Package

open Zip

/-! ## The files of an archive -/

section Reading

variable {bytes : Bytes} {entries : List Entry} {path : String}

def holdsFile (entries : List Entry) (path : String) : Bool :=
  entries.any fun e => e.name == path && !e.isDirectory

theorem holdsFile_iff :
    holdsFile entries path = true ↔ ∃ e ∈ entries, e.name = path ∧ e.isDirectory = false := by
  simp [holdsFile]

/-- Only the name tells whether an entry is a folder. -/
theorem isDirectory_eq_of_name {e e' : Entry} (h : e.name = e'.name) :
    e.isDirectory = e'.isDirectory := by
  simp only [Entry.isDirectory, h]

theorem mem_of_mem_distinctEntries {e : Entry} (h : e ∈ distinctEntries entries) :
    e ∈ entries := by
  obtain ⟨name, -, hfind⟩ := List.mem_filterMap.mp h
  exact List.mem_reverse.mp (List.mem_of_find?_eq_some hfind)

theorem exists_mem_distinctEntries {e : Entry} (h : e ∈ entries) :
    ∃ e' ∈ distinctEntries entries, e'.name = e.name := by
  have hsome : (entries.reverse.find? fun e' => e'.name == e.name).isSome := by
    rw [List.find?_isSome]
    exact ⟨e, List.mem_reverse.mpr h, beq_self_eq_true _⟩
  obtain ⟨e', hfind⟩ := Option.isSome_iff_exists.mp hsome
  have hname : e'.name = e.name := by
    simpa using List.find?_some hfind
  refine ⟨e', List.mem_filterMap.mpr ⟨e.name, ?_, hfind⟩, hname⟩
  rw [List.mem_eraseDups]
  exact List.mem_map_of_mem h

/-- The entries that count are files with the same paths as all entries. -/
theorem holdsFile_distinctEntries (entries : List Entry) (path : String) :
    holdsFile (distinctEntries entries) path = holdsFile entries path := by
  rw [Bool.eq_iff_iff, holdsFile_iff, holdsFile_iff]
  constructor
  · rintro ⟨e, he, hfile⟩
    exact ⟨e, mem_of_mem_distinctEntries he, hfile⟩
  · rintro ⟨e, he, hname, hfile⟩
    obtain ⟨e', he', hname'⟩ := exists_mem_distinctEntries he
    exact ⟨e', he', hname'.trans hname, (isDirectory_eq_of_name hname').trans hfile⟩

theorem contains_insert (d : Dictionary Bytes) (key : String) (contents : Bytes) :
    (d.insert key contents).contains path = (d.contains path || key == path) := by
  by_cases heq : path = key
  · subst heq
    simp [Dictionary.contains]
  · have hne : (key == path) = false := beq_false_of_ne (Ne.symm heq)
    rw [hne, Bool.or_false, Dictionary.contains, Dictionary.find?_insert_of_ne _ heq,
      Dictionary.contains]

/-- Reading an entry adds its path, unless it is a folder. -/
theorem contains_of_readEntry {d d' : Dictionary Bytes} {e : Entry}
    (h : readEntry bytes d e = .ok d') :
    d'.contains path = (d.contains path || (e.name == path && !e.isDirectory)) := by
  obtain ⟨data, -, h⟩ := bind_eq_ok_iff.mp h
  by_cases hdirectory : e.isDirectory = true
  · rw [if_pos hdirectory] at h
    cases h
    simp [hdirectory]
  · rw [if_neg hdirectory] at h
    obtain ⟨contents, -, h⟩ := bind_eq_ok_iff.mp h
    cases h
    rw [contains_insert]
    simp [hdirectory]

theorem contains_of_foldlM {d d' : Dictionary Bytes}
    (h : entries.foldlM (readEntry bytes) d = .ok d') :
    d'.contains path = (d.contains path || holdsFile entries path) := by
  induction entries generalizing d with
  | nil =>
    cases h
    simp [holdsFile]
  | cons e entries ih =>
    rw [List.foldlM_cons] at h
    obtain ⟨next, hnext, hrest⟩ := bind_eq_ok_iff.mp h
    rw [ih hrest, contains_of_readEntry hnext, Bool.or_assoc]
    rfl

/-- The files that are read from an archive are those that its entries are. -/
theorem contains_ofArchive {archive : Bytes} {p : PackageContents}
    (hread : PackageContents.ofArchive archive = .ok p) :
    ∃ entries, readDirectory archive = .ok entries ∧
      ∀ path, p.contains path = holdsFile entries path := by
  obtain ⟨entries, hentries, hread⟩ := bind_eq_ok_iff.mp hread
  obtain ⟨files, hfiles, hread⟩ := bind_eq_ok_iff.mp hread
  cases hread
  refine ⟨entries, hentries, fun path => ?_⟩
  have hcontains : files.contains path =
      ((∅ : Dictionary Bytes).contains path || holdsFile (distinctEntries entries) path) :=
    contains_of_foldlM hfiles
  rw [holdsFile_distinctEntries] at hcontains
  exact hcontains

end Reading

/-! ## What is said to be missing -/

def saysMissing (message : String) : Bool :=
  "missing ".toList.isPrefixOf message.toList

section Messages

variable {f : Format} {p : PackageContents}

theorem saysMissing_missing (path : String) :
    saysMissing (Problem.missing path).message = true := by
  simp [saysMissing, Problem.message]

/-- No descriptor has a name that could be taken for that mark. -/
theorem saysMissing_descriptorPath (f : Format) (rest : String) :
    saysMissing (descriptorPath f ++ rest) = false := by
  rw [saysMissing, String.toList_append]
  cases f with
  | scorm version => cases version <;> rfl
  | xapi => rfl
  | cmi5 => rfl
  | html5 => rfl

/-- A problem that is not a missing file is told of the descriptor. -/
structure Problem.TellsOf (descriptor : String) (q : Problem) : Prop where
  message : ∃ rest, q.message = descriptor ++ rest
  ne_unreadable : ∀ cause, q ≠ .unreadable descriptor cause

theorem tellsOf_of_mem_pathProblems {descriptor : String} {paths : List String} {q : Problem}
    (h : q ∈ pathProblems descriptor p paths) : q.TellsOf descriptor := by
  rw [pathProblems] at h
  split at h
  · rw [List.mem_singleton.mp h]
    exact ⟨⟨_, rfl⟩, fun _ heq => by cases heq⟩
  · obtain ⟨path, -, rfl⟩ := List.mem_map.mp h
    exact ⟨⟨_, String.append_assoc⟩, fun _ heq => by cases heq⟩

theorem tellsOf_of_mem_scormProblems {version : ScormVersion} {events : List Markup.Event}
    {q : Problem} (h : q ∈ scormProblems version p events) : q.TellsOf Scorm.manifestPath := by
  simp only [scormProblems, List.mem_append] at h
  rcases h with (h | h) | h
  · obtain ⟨r, -, rfl⟩ := List.mem_map.mp h
    exact ⟨⟨_, String.append_assoc⟩, fun _ heq => by cases heq⟩
  · obtain ⟨path, -, rfl⟩ := List.mem_map.mp h
    exact ⟨⟨" schema location " ++ path ++ " is not in the package", by
      simp only [Problem.message, String.append_assoc]⟩, fun _ heq => by cases heq⟩
  · by_cases hversion : Text.trim (declaredVersion false events) = version.schemaVersion
    · rw [if_pos hversion] at h
      cases h
    · rw [if_neg hversion] at h
      rw [List.mem_singleton.mp h]
      exact ⟨⟨_, by simp only [Problem.message, String.append_assoc]; rfl⟩,
        fun _ heq => by cases heq⟩

theorem tellsOf_of_mem_references {text : String} {found : List Problem} {paths : List String}
    (h : references f p text = .ok (found, paths)) {q : Problem} (hq : q ∈ found) :
    q.TellsOf (descriptorPath f) := by
  cases f with
  | scorm version =>
    obtain ⟨events, -, h⟩ := bind_eq_ok_iff.mp h
    cases h
    exact tellsOf_of_mem_scormProblems hq
  | xapi =>
    obtain ⟨events, -, h⟩ := bind_eq_ok_iff.mp h
    cases h
    cases hq
  | cmi5 =>
    obtain ⟨events, -, h⟩ := bind_eq_ok_iff.mp h
    cases h
    cases hq
  | html5 =>
    obtain ⟨v, -, h⟩ := bind_eq_ok_iff.mp h
    cases h
    cases hq

/-- What is wrong with a descriptor that can be understood is told of it. -/
theorem tellsOf_of_references {text : String} {found : List Problem} {paths : List String}
    (h : references f p text = .ok (found, paths)) {q : Problem}
    (hq : q ∈ found ++ pathProblems (descriptorPath f) p paths) :
    q.TellsOf (descriptorPath f) := by
  rcases List.mem_append.mp hq with hfound | hpaths
  · exact tellsOf_of_mem_references h hfound
  · exact tellsOf_of_mem_pathProblems hpaths

theorem filter_saysMissing_map_missing (paths : List String) :
    ((paths.map Problem.missing).map Problem.message).filter saysMissing =
      paths.map ("missing " ++ ·) := by
  rw [List.map_map]
  refine (List.filter_eq_self.mpr fun message hmessage => ?_).trans rfl
  obtain ⟨path, -, rfl⟩ := List.mem_map.mp hmessage
  exact saysMissing_missing path

theorem exists_text_iff {path : String} :
    (∃ text, p.text path = .ok text) ↔ (!p.contains path || p.isGarbled path) = false := by
  have hcontains : p.contains path = (p.get? path).isSome := rfl
  rw [hcontains, PackageContents.isGarbled, PackageContents.text]
  cases hget : p.get? path with
  | none => simp
  | some contents =>
    cases hutf8 : Text.ofUtf8? contents with
    | none => simp [hutf8]
    | some text => simp [hutf8]

/-- A descriptor is said to be missing when it is not there, and when it is no text. -/
theorem filter_saysMissing_descriptorProblems (f : Format) (p : PackageContents) :
    ((descriptorProblems f p).map Problem.message).filter saysMissing =
      ([descriptorPath f].filter fun path => !p.contains path || p.isGarbled path).map
        ("missing " ++ ·) := by
  have htold : ∀ rest, saysMissing (descriptorPath f ++ rest) = false :=
    saysMissing_descriptorPath f
  cases htext : p.text (descriptorPath f) with
  | error cause =>
    have hlacking : (!p.contains (descriptorPath f) || p.isGarbled (descriptorPath f)) = true := by
      rw [← Bool.not_eq_false, ← exists_text_iff, htext]
      rintro ⟨_, ⟨⟩⟩
    rw [List.filter_singleton, hlacking, descriptorProblems, htext]
    exact filter_saysMissing_map_missing [descriptorPath f]
  | ok text =>
    have hpresent : (!p.contains (descriptorPath f) || p.isGarbled (descriptorPath f)) = false :=
      exists_text_iff.mp ⟨text, htext⟩
    rw [List.filter_singleton, hpresent, Bool.cond_false, List.map_nil, List.filter_eq_nil_iff]
    intro message hmessage
    obtain ⟨q, hq, rfl⟩ := List.mem_map.mp hmessage
    rw [descriptorProblems, htext] at hq
    -- All that is told of a descriptor that is a text starts with its path.
    cases hreferences : references f p text with
    | error cause =>
      simp only [hreferences, List.mem_singleton] at hq
      rw [hq, Problem.message, String.append_assoc, htold]
      exact Bool.false_ne_true
    | ok found =>
      simp only [hreferences] at hq
      obtain ⟨rest, hrest⟩ := (tellsOf_of_references hreferences hq).message
      rw [hrest, htold]
      exact Bool.false_ne_true

/-- A descriptor is called unreadable when it is a text that cannot be understood. -/
theorem unreadable_mem_problems_iff {cause : Failure} :
    .unreadable (descriptorPath f) cause ∈ problems f p ↔
      ∃ text, p.text (descriptorPath f) = .ok text ∧ references f p text = .error cause := by
  have hrequired : .unreadable (descriptorPath f) cause ∉
      ((requiredPaths f).filter fun path => !p.contains path).map Problem.missing := by
    simp
  rw [problems, List.mem_append, or_iff_right hrequired, descriptorProblems]
  cases htext : p.text (descriptorPath f) with
  | error other => simp
  | ok text =>
    cases hreferences : references f p text with
    | error other => simp [hreferences, eq_comm]
    | ok found =>
      simp only [hreferences, Except.ok.injEq, exists_eq_left', reduceCtorEq, iff_false]
      intro hq
      exact (tellsOf_of_references hreferences hq).ne_unreadable cause rfl

theorem descriptorPath_notMem_requiredPaths (f : Format) :
    descriptorPath f ∉ requiredPaths f := by
  cases f with
  | scorm version => cases version <;> decide
  | xapi => decide
  | cmi5 => decide
  | html5 => decide

/-- The files that a check says are missing. -/
theorem filter_saysMissing_problems (f : Format) (p : PackageContents) :
    ((problems f p).map Problem.message).filter saysMissing =
      ((requiredPaths f ++ [descriptorPath f]).filter fun path =>
        !p.contains path || (path == descriptorPath f && p.isGarbled path)).map
          ("missing " ++ ·) := by
  have hrequired : ((requiredPaths f).filter fun path =>
      !p.contains path || (path == descriptorPath f && p.isGarbled path)) =
        (requiredPaths f).filter fun path => !p.contains path := by
    refine List.filter_congr fun path hpath => ?_
    have hne : path ≠ descriptorPath f := fun heq =>
      descriptorPath_notMem_requiredPaths f (heq ▸ hpath)
    rw [beq_false_of_ne hne, Bool.false_and, Bool.or_false]
  have hdescriptor : ([descriptorPath f].filter fun path =>
      !p.contains path || (path == descriptorPath f && p.isGarbled path)) =
        [descriptorPath f].filter fun path => !p.contains path || p.isGarbled path := by
    refine List.filter_congr fun path hpath => ?_
    rw [List.mem_singleton.mp hpath, beq_self_eq_true, Bool.true_and]
  rw [problems, List.map_append, List.filter_append, filter_saysMissing_map_missing,
    filter_saysMissing_descriptorProblems, List.filter_append, List.map_append, hrequired,
    hdescriptor]

end Messages

/-! ## Every archive -/

/-- Of the files that a format needs, a check says just of those that are missing which no entry
is, and of a descriptor that is there but is no text. A descriptor that is a text is never
said to be missing; it is called unreadable exactly when it cannot be understood. -/
theorem missing_verify {archive : Bytes} {p : PackageContents}
    (hread : PackageContents.ofArchive archive = .ok p) (f : Format) :
    ∃ entries found, readDirectory archive = .ok entries ∧ verify archive f = .ok found ∧
      ((found.map Problem.message).filter saysMissing =
        ((requiredPaths f ++ [descriptorPath f]).filter fun path =>
          !holdsFile entries path || (path == descriptorPath f && p.isGarbled path)).map
            ("missing " ++ ·)) ∧
      (p.isGarbled (descriptorPath f) = false →
        (found.map Problem.message).filter saysMissing =
          ((requiredPaths f ++ [descriptorPath f]).filter fun path =>
            !holdsFile entries path).map ("missing " ++ ·)) ∧
      ∀ cause, .unreadable (descriptorPath f) cause ∈ found ↔
        ∃ text, p.text (descriptorPath f) = .ok text ∧ references f p text = .error cause := by
  obtain ⟨entries, hentries, hcontains⟩ := contains_ofArchive hread
  have hverify : verify archive f = .ok (problems f p) := by
    rw [verify, hread]
    rfl
  have hmissing := filter_saysMissing_problems f p
  simp only [hcontains] at hmissing
  refine ⟨entries, problems f p, hentries, hverify, hmissing, ?_, ?_⟩
  · intro htext
    rw [hmissing]
    congr 1
    refine List.filter_congr fun path _ => ?_
    by_cases heq : path = descriptorPath f
    · rw [heq, htext, Bool.and_false, Bool.or_false]
    · rw [beq_false_of_ne heq, Bool.false_and, Bool.or_false]
  · exact fun cause => unreadable_mem_problems_iff

/-- A few small files have an archive from which they are read back. -/
theorem exists_archive_of_small {files : FileTree} (hcount : files.size ≤ 1000)
    (hfiles : ∀ f ∈ files.toList,
      (Text.utf8 f.1).length ≤ 65535 ∧ f.2.length ≤ 65535 ∧ IsFilePath f.1) :
    ∃ archive, PackageContents.ofArchive archive = .ok ⟨files.files⟩ := by
  have hsizes : ∀ f ∈ files.toList, (Text.utf8 f.1).length ≤ 65535 ∧ f.2.length ≤ 65535 :=
    fun f hf => ⟨(hfiles f hf).1, (hfiles f hf).2.1⟩
  have hnames : ∀ path ∈ files.paths, (Text.utf8 path).length ≤ longestName := by
    intro path hpath
    obtain ⟨f, hf, rfl⟩ := List.mem_map.mp hpath
    exact (hfiles f hf).1
  have hpaths : ∀ path ∈ files.paths, IsFilePath path := by
    intro path hpath
    obtain ⟨f, hf, rfl⟩ := List.mem_map.mp hpath
    exact (hfiles f hf).2.2
  have hpackable : Packable files ⟨false, 6⟩ ⟨0, false⟩ :=
    ⟨hnames, withinLimits_of_stored rfl hcount hsizes _,
      noLocator_of_size_lt (Nat.lt_of_le_of_lt hcount (by decide))⟩
  exact ⟨_, ofArchive_pack_of_noLocator hpackable.pack_eq hpackable.limits hpaths
    hpackable.locator⟩

/-- Files that are a start page alone. -/
def loneFiles : FileTree :=
  FileTree.empty.attemptAll [("index.html", [])]

/-- The start page is all that is not missing. -/
theorem missing_verify_loneFiles :
    ∃ archive p found, PackageContents.ofArchive archive = .ok p ∧
      verify archive .html5 = .ok found ∧
      (found.map Problem.message).filter saysMissing =
        ["missing js/navigation.js", "missing css/styles.css", "missing manifest.json"] := by
  have hlist : loneFiles.toList = [("index.html", [])] := by decide
  obtain ⟨archive, hread⟩ := @exists_archive_of_small loneFiles (by decide) (by
    rw [hlist]
    simp only [IsFilePath]
    decide)
  obtain ⟨entries, found, hentries, hverify, -, hmissing, -⟩ := missing_verify hread .html5
  obtain ⟨entries', hentries', hcontains⟩ := contains_ofArchive hread
  cases hentries.symm.trans hentries'
  refine ⟨archive, _, found, hread, hverify, ?_⟩
  rw [hmissing (by decide)]
  simp only [← hcontains]
  decide

/-- The files of a package whose descriptor is a byte that starts no character. -/
def garbledFiles : FileTree :=
  FileTree.empty.attemptAll
    [("cmi5.xml", [0xFF]), ("shared/js/cmi5-au.js", []), ("shared/css/styles.css", [])]

/-- A descriptor that is there but is no text is said to be missing, and nothing else is said
of it. -/
theorem verify_garbledFiles :
    ∃ archive p entries, PackageContents.ofArchive archive = .ok p ∧
      readDirectory archive = .ok entries ∧ holdsFile entries "cmi5.xml" = true ∧
      verify archive .cmi5 = .ok [.missing "cmi5.xml"] := by
  have hlist : garbledFiles.toList =
      [("cmi5.xml", [0xFF]), ("shared/css/styles.css", []), ("shared/js/cmi5-au.js", [])] := by
    decide
  obtain ⟨archive, hread⟩ := @exists_archive_of_small garbledFiles (by decide) (by
    rw [hlist]
    simp only [IsFilePath]
    decide)
  obtain ⟨entries, hentries, hcontains⟩ := contains_ofArchive hread
  refine ⟨archive, _, entries, hread, hentries, ?_, ?_⟩
  · rw [← hcontains]
    decide
  · rw [verify, hread]
    change Except.ok (problems .cmi5 ⟨garbledFiles.files⟩) = _
    decide +kernel

end Package

end Courseware
