import Mathlib.Algebra.Order.Group.Nat
import Mathlib.Algebra.Ring.Nat
import Mathlib.Data.List.Perm.Subperm
import Courseware.Proofs.Package.Tree
import Courseware.Proofs.Zip.RoundTrip

/-!
# Packages that stay within the limits

A few files of moderate size that are stored as they are make an archive whose records
have room for all sizes.
-/

namespace Courseware.Package

open Zip

/-! ## The length of an archive -/

theorem length_flatMap_le {α β : Type} {f : α → List β} {as : List α} {bound : Nat}
    (h : ∀ a ∈ as, (f a).length ≤ bound) : (as.flatMap f).length ≤ as.length * bound := by
  induction as with
  | nil => simp
  | cons a as ih =>
    obtain ⟨ha, has⟩ := List.forall_mem_cons.mp h
    have hrest := ih has
    rw [List.flatMap_cons, List.length_append, List.length_cons, Nat.succ_mul]
    omega

theorem length_directory_le {es : List PackedFile} {bound : Nat}
    (h : ∀ e ∈ es, e.name.length ≤ bound) (offset : Nat) :
    (directory offset es).length ≤ es.length * (centralHeaderLength + bound) := by
  induction es generalizing offset with
  | nil => simp [directory]
  | cons e es ih =>
    obtain ⟨he, hes⟩ := List.forall_mem_cons.mp h
    have hrest := ih hes (offset + e.localRecord.length)
    rw [directory, List.length_append, length_centralHeader, List.length_cons, Nat.succ_mul]
    omega

/-- An archive is not much longer than what is in it. -/
theorem length_archiveOf_le {es : List PackedFile} {bound : Nat}
    (hnames : ∀ e ∈ es, e.name.length ≤ bound) (hdata : ∀ e ∈ es, e.data.length ≤ bound) :
    (archiveOf es).length ≤
      es.length * (localHeaderLength + 2 * bound) +
        es.length * (centralHeaderLength + bound) + endRecordLength := by
  have hrecords : (es.flatMap PackedFile.localRecord).length ≤
      es.length * (localHeaderLength + 2 * bound) := by
    apply length_flatMap_le
    intro e he
    have hname := hnames e he
    have hcontents := hdata e he
    rw [PackedFile.localRecord, List.length_append, length_localHeader]
    omega
  have hdirectory := length_directory_le hnames 0
  simp only [archiveOf, List.length_append, length_endRecord]
  omega

/-! ## The size of a text -/

theorem utf8ByteSize_ofList_le (cs : List Char) :
    (String.ofList cs).utf8ByteSize ≤ 4 * cs.length := by
  induction cs with
  | nil => simp
  | cons c cs ih =>
    have hsize := c.utf8Size_le_four
    have hsplit : String.ofList (c :: cs) = String.singleton c ++ String.ofList cs := by
      rw [← String.toList_inj]
      simp
    rw [hsplit, String.utf8ByteSize_append, String.utf8ByteSize_singleton, List.length_cons]
    omega

theorem utf8ByteSize_join (parts : List String) :
    (String.join parts).utf8ByteSize = (parts.map (·.utf8ByteSize)).sum := by
  have hfold : ∀ s : String, (parts.foldl (· ++ ·) s).utf8ByteSize =
      s.utf8ByteSize + (parts.map (·.utf8ByteSize)).sum := by
    induction parts with
    | nil => simp
    | cons part parts ih =>
      intro s
      rw [List.foldl_cons, ih, String.utf8ByteSize_append, List.map_cons, List.sum_cons,
        Nat.add_assoc]
  have hempty := hfold ""
  rwa [String.utf8ByteSize_empty, Nat.zero_add] at hempty

/-! ## Stored files -/

variable {files : FileTree} {texts : List TextFile}

/-- A tree has at most as many files as were put into it. -/
theorem size_le_of_holds
    (hholds : FileTree.empty.Holds files (texts.map fun f => (f.1, Text.utf8 f.2))) :
    files.size ≤ texts.length := by
  have hsubset : files.paths ⊆ texts.map Prod.fst := fun path hpath =>
    hholds.mem_paths_iff.mp hpath
  have hlength := (List.subperm_of_subset files.files.nodup_keys hsubset).length_le
  rwa [Dictionary.keys, List.length_map, List.length_map] at hlength

/-- Every file of a tree is one of those that were put into it. -/
theorem exists_text_of_mem
    (hholds : FileTree.empty.Holds files (texts.map fun f => (f.1, Text.utf8 f.2)))
    {f : String × Bytes} (hf : f ∈ files.toList) :
    ∃ t ∈ texts, f = (t.1, Text.utf8 t.2) := by
  have hpath : f.1 ∈ files.paths := List.mem_map.mpr ⟨f, hf, rfl⟩
  obtain ⟨t, ht, hfirst⟩ := List.mem_map.mp (hholds.mem_paths_iff.mp hpath)
  have hget := hholds.get?_eq ht
  have hself : files.get? f.1 = some f.2 := findEntry_of_mem files.files.ordered hf
  rw [hfirst, hself] at hget
  exact ⟨t, ht, Prod.ext hfirst.symm (Option.some.inj hget)⟩

/-- A few files of moderate size that are stored stay within the limits. -/
theorem withinLimits_of_stored {packaging : PackagingSettings} (hstored : packaging.stored = true)
    (hcount : files.size ≤ 1000)
    (hfiles : ∀ f ∈ files.toList, (Text.utf8 f.1).length ≤ 65535 ∧ f.2.length ≤ 65535)
    (made : Time.Instant) :
    WithinLimits files
      (archiveOf (packedFiles packaging (.ofInstant made) files.toList)) where
  count := by omega
  sizes := by
    intro f hf
    have hcontents := (hfiles f hf).2
    omega
  total := by
    have hpacked : ∀ e ∈ packedFiles packaging (.ofInstant made) files.toList,
        e.name.length ≤ 65535 ∧ e.data.length ≤ 65535 := by
      intro e he
      obtain ⟨f, hf, rfl⟩ := List.mem_map.mp he
      refine ⟨(hfiles f hf).1, ?_⟩
      simp only [PackedFile.ofFile, hstored, if_true]
      exact (hfiles f hf).2
    have htotal := length_archiveOf_le (fun e he => (hpacked e he).1)
      fun e he => (hpacked e he).2
    have hentries : (packedFiles packaging (.ofInstant made) files.toList).length =
        files.size := List.length_map _
    rw [hentries] at htotal
    simp only [localHeaderLength, centralHeaderLength, endRecordLength] at htotal
    omega

/-- A few stored texts can be packed. -/
theorem exists_pack
    (hholds : FileTree.empty.Holds files (texts.map fun f => (f.1, Text.utf8 f.2)))
    {packaging : PackagingSettings} (hstored : packaging.stored = true)
    (hcount : texts.length ≤ 1000)
    (hsizes : ∀ f ∈ texts, f.1.utf8ByteSize ≤ 65535 ∧ f.2.utf8ByteSize ≤ 65535)
    (made : Time.Instant) :
    ∃ archive, pack files packaging made = .ok archive ∧ WithinLimits files archive := by
  have hsize := size_le_of_holds hholds
  have hfiles : ∀ f ∈ files.toList, (Text.utf8 f.1).length ≤ 65535 ∧ f.2.length ≤ 65535 := by
    intro f hf
    obtain ⟨t, ht, rfl⟩ := exists_text_of_mem hholds hf
    exact hsizes t ht
  exact ⟨_, pack_eq_ok_iff.mpr ⟨fun f hf => (hfiles f hf).1, rfl⟩,
    withinLimits_of_stored hstored (by omega) hfiles made⟩

end Courseware.Package
