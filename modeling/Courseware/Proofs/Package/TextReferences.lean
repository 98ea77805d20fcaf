import Courseware.Proofs.Package.Surroundings

/-!
# References in texts

The descriptors of units and of activities name the places where these start in texts between
tags. A check reads such a text run by run, so white space is lost next to a character that is
written as a reference. Every other place is recovered as it was, whatever characters it has,
and then it is looked for in the package.
-/

namespace Courseware.Package

open Descriptor.Cmi5 (AssignableUnit CourseStructure)
open Descriptor.TinCan (ActivityList)
open Markup (readText Apart)

/-- Whether a text can name a file of a package in a descriptor: it has no blanks at its ends,
and it is no folder. -/
structure IsPlace (s : String) : Prop where
  first : ∀ c ∈ s.toList.head?, Text.isBlank c = false
  last : ∀ c ∈ s.toList.getLast?, Text.isBlank c = false
  isFile : IsFilePath s

/-- What a check makes of the places that are written in a document. -/
structure ReadsPlaces (f : Format) (document : String) (places : List String) : Prop where
  /-- It is told of each place what is read of it. -/
  told : ∀ p : PackageContents, references f p document = .ok ([], places.map readText)
  /-- This is the place itself if, and only if, no white space stands next to a character that
  is written as a reference. -/
  recovered : ∀ place ∈ places, readText place = place ↔ place.toList.IsChain Apart
  /-- What it finds is what it does not find in the package of what it has read. -/
  found : ∀ files archive, Surrounds f document [] files →
    PackageContents.ofArchive archive = .ok ⟨files.files⟩ →
      verify archive f = .ok (((places.map readText).filter fun path =>
        !isReachable ⟨files.files⟩ path).map (.missingContent (descriptorPath f)))
  /-- So nothing is wrong with an archive of files for all places, if all are recovered. -/
  passes : (∀ place ∈ places, place.toList.IsChain Apart) →
    ∀ files archive, Surrounds f document places files →
      PackageContents.ofArchive archive = .ok ⟨files.files⟩ → verify archive f = .ok []
  /-- Files that plain records can hold have such an archive. -/
  archives : ∀ files packaging made, Packable files packaging made →
    files.paths ⊆ descriptorPath f :: requiredPaths f ++ places →
      PackageContents.ofArchive
        (archiveOf (packedFiles packaging (.ofInstant made) files.toList)) =
          .ok ⟨files.files⟩

section ReadsPlaces

variable {f : Format} {document : String} {places : List String} {files : FileTree}
  {archive : Bytes}

/-- What is found in an archive of files around a document is what is missing of the places as
they are read. -/
theorem Surrounds.verify_eq (h : Surrounds f document [] files)
    (htold : ∀ p : PackageContents, references f p document = .ok ([], places.map readText))
    (hne : places ≠ []) (hread : PackageContents.ofArchive archive = .ok ⟨files.files⟩) :
    verify archive f = .ok (((places.map readText).filter fun path =>
      !isReachable ⟨files.files⟩ path).map (.missingContent (descriptorPath f))) := by
  rw [verify, hread]
  exact congrArg Except.ok (h.problems_eq (htold _) (by simpa using hne))

theorem Surrounds.nil (h : Surrounds f document places files) : Surrounds f document [] files :=
  ⟨h.descriptor, h.required, by simp⟩

theorem readsPlaces_of_references
    (htold : ∀ p : PackageContents, references f p document = .ok ([], places.map readText))
    (hne : places ≠ []) (hplaces : ∀ place ∈ places, IsPlace place) :
    ReadsPlaces f document places where
  told := htold
  recovered place hplace :=
    Markup.readText_eq_iff (hplaces place hplace).first (hplaces place hplace).last
  found files archive hfiles hread := hfiles.verify_eq htold hne hread
  passes hapart files archive hfiles hread := by
    have hself : places.map readText = places := by
      rw [List.map_congr_left fun place hplace =>
        (Markup.readText_eq_iff (hplaces place hplace).first (hplaces place hplace).last).mpr
          (hapart place hplace)]
      exact List.map_id' places
    have hreachable : (places.filter fun path => !isReachable ⟨files.files⟩ path) = [] := by
      refine List.filter_eq_nil_iff.mpr fun path hpath => ?_
      simp [isReachable, contains_iff_mem_paths.mpr (hfiles.present path hpath)]
    rw [hfiles.nil.verify_eq htold hne hread, hself, hreachable, List.map_nil]
  archives files packaging made hpackable hpaths :=
    ofArchive_packedFiles hpackable (fun place hplace => (hplaces place hplace).isFile) hpaths

/-- A document that is not large has an archive of files for its places. -/
theorem exists_archive_around (hdocument : document.utf8ByteSize ≤ 65535)
    (hcount : places.length ≤ 900) (hnames : ∀ place ∈ places, place.utf8ByteSize ≤ 65535)
    (hplaces : ∀ place ∈ places, IsPlace place) :
    ∃ archive, PackageContents.ofArchive archive =
      .ok ⟨(filesAround f document places).files⟩ := by
  have hpackable := packable_filesAround f document places hdocument hcount hnames ⟨0, false⟩
  exact ⟨_, ofArchive_packedFiles hpackable (fun place hplace => (hplaces place hplace).isFile)
    fun path hpath => (mem_paths_filesAround_iff f document places).mp hpath⟩

end ReadsPlaces

/-! ## Units and activities -/

/-- A structure of one unit that starts at the given place. -/
def unitAt (place : String) : CourseStructure :=
  ⟨"c", "C", "", "en", [⟨"m", "M", "", [⟨"u", "U", "", place, none, "Completed"⟩]⟩]⟩

theorem unquoted_unitAt (place : String) :
    ∀ b ∈ (unitAt place).blocks, ∀ u ∈ b.units, u.Unquoted := by
  simp [unitAt, AssignableUnit.Unquoted]

theorem isPlace_of_decide {s : String} (hfirst : ∀ c ∈ s.toList.head?, Text.isBlank c = false)
    (hlast : ∀ c ∈ s.toList.getLast?, Text.isBlank c = false ∧ c ≠ '/' ∧ c ≠ '\\') :
    IsPlace s :=
  ⟨hfirst, fun c hc => (hlast c hc).1, fun c hc => (hlast c hc).2⟩

/-- A list of one activity that starts at the given place. -/
def activityAt (place : String) : ActivityList :=
  ⟨"en", [⟨"c", .course, "C", "", some place⟩]⟩

end Courseware.Package
