import Courseware.Proofs.Plan
import Courseware.Proofs.Text.Words
import Courseware.Proofs.Zip.RoundTrip

/-!
# The paths of a package

Paths are made of characters that every reader takes for themselves. A package has some
paths that there are once, and each lesson has paths of its own, made of its identifier.
-/

namespace Courseware.Package

open Text (pathSegment isSegmentChar)

/-! ## Paths with a segment in them -/

/-- A path that is made of an identifier. -/
def segmentPath (start id stop : String) : String :=
  start ++ pathSegment id ++ stop

/-- The characters that the fixed parts of paths are made of. -/
def isPathChar (c : Char) : Bool := isSegmentChar c || c == '/'

theorem isPathChar_range {c : Char} (h : isPathChar c = true) :
    32 ≤ c.toNat ∧ c.toNat < 128 ∧ c ≠ '\\' := by
  rw [isPathChar, Bool.or_eq_true, beq_iff_eq] at h
  rcases h with h | rfl
  · obtain ⟨hlow, hhigh, -, -, -, hslash⟩ := Text.isSegmentChar_range h
    refine ⟨by omega, by omega, ?_⟩
    rintro rfl
    exact hslash rfl
  · decide

/-- Whether a path is made of such characters and does not end with a slash. -/
def IsPath (path : String) : Prop :=
  (∀ c ∈ path.toList, isPathChar c = true) ∧
    ∃ c, path.toList.getLast? = some c ∧ c ≠ '/'

theorem isPath_ofList {cs : List Char}
    (h : (∀ c ∈ cs, isPathChar c = true) ∧ ∃ c, cs.getLast? = some c ∧ c ≠ '/') :
    IsPath (String.ofList cs) := by
  rw [IsPath, String.toList_ofList]
  exact h

theorem isPath_segmentPath {start stop : String} (id : String)
    (hstart : ∀ c ∈ start.toList, isPathChar c = true) (hstop : IsPath stop) :
    IsPath (segmentPath start id stop) := by
  obtain ⟨hchars, c, hlast, hslash⟩ := hstop
  have htoList : (segmentPath start id stop).toList =
      start.toList ++ (pathSegment id).toList ++ stop.toList := by
    simp [segmentPath]
  refine ⟨?_, c, ?_, hslash⟩
  · intro x hx
    rw [htoList, List.mem_append, List.mem_append] at hx
    rcases hx with (hx | hx) | hx
    · exact hstart x hx
    · rw [isPathChar, Text.isSegmentChar_of_mem_pathSegment hx, Bool.true_or]
    · exact hchars x hx
  · rw [htoList, List.getLast?_append, hlast]
    rfl

/-- Different segments make different paths with one end. -/
theorem segmentPath_inj {start stop id other : String}
    (h : segmentPath start id stop = segmentPath start other stop) :
    pathSegment id = pathSegment other := by
  have hchars := congrArg String.toList h
  simp only [segmentPath, String.toList_append, List.append_assoc] at hchars
  exact String.toList_inj.mp (List.append_cancel_right (List.append_cancel_left hchars))

theorem takeWhile_segment (id : String) {stop : String}
    (hstop : stop.toList.head? = some '/') :
    ((pathSegment id).toList ++ stop.toList).takeWhile isSegmentChar =
      (pathSegment id).toList := by
  have hslash : isSegmentChar '/' = false := by decide
  rw [List.takeWhile_append_of_pos fun c hc => Text.isSegmentChar_of_mem_pathSegment hc]
  cases hcs : stop.toList with
  | nil => rw [List.takeWhile_nil, List.append_nil]
  | cons c cs =>
    rw [hcs] at hstop
    rw [Option.some.inj hstop]
    simp [hslash]

/-- Different segments make different paths when a slash ends them. -/
theorem segmentPath_inj_of_slash {start stop otherStop id other : String}
    (hstop : stop.toList.head? = some '/') (hother : otherStop.toList.head? = some '/')
    (h : segmentPath start id stop = segmentPath start other otherStop) :
    pathSegment id = pathSegment other := by
  have hchars := congrArg String.toList h
  simp only [segmentPath, String.toList_append, List.append_assoc] at hchars
  have hsegments := congrArg (List.takeWhile isSegmentChar) (List.append_cancel_left hchars)
  rw [takeWhile_segment id hstop, takeWhile_segment other hother] at hsegments
  exact String.toList_inj.mp hsegments

theorem IsPath.portable {path : String} (h : IsPath path) : Portable path where
  ascii c hc := ⟨(isPathChar_range (h.1 c hc)).1, (isPathChar_range (h.1 c hc)).2.1⟩
  isFile c hlast := by
    obtain ⟨x, hx, hslash⟩ := h.2
    rw [hx] at hlast
    obtain rfl := Option.some.inj hlast
    exact ⟨hslash, (isPathChar_range (h.1 x (List.mem_of_getLast? hx))).2.2⟩

/-! ## Path schemes -/

/-- How the paths of packages in a format are made: those that there are once, and
those of a lesson, which have its segment between two fixed parts. -/
structure PathScheme where
  shared : List String
  start : String
  stops : List String
  /-- The path behind all others. -/
  last : String

/-- Whether the paths of a scheme can all be in one package, the last one behind all
others. -/
structure PathScheme.Sound (s : PathScheme) : Prop where
  isPath_shared : ∀ path ∈ s.shared, IsPath path
  isPath_stop : ∀ stop ∈ s.stops, IsPath stop
  start_chars : ∀ c ∈ s.start.toList, isPathChar c = true
  nodup_shared : s.shared.Nodup
  nodup_stops : s.stops.Nodup
  last_mem : s.last ∈ s.shared
  last_max : ∀ path ∈ s.shared, ¬ s.last < path
  ending : SafeEnding s.last
  /-- Where a segment ends can be told from a path. -/
  separated : (∃ stop, s.stops = [stop]) ∨ ∀ stop ∈ s.stops, stop.toList.head? = some '/'
  /-- The paths of lessons start with another letter than the others, and with an
  earlier one than the last. -/
  first : ∃ a rest, s.start.toList = a :: rest ∧
    (∀ path ∈ s.shared, path.toList.head? ≠ some a) ∧
    ∃ b more, s.last.toList = b :: more ∧ a < b

namespace PathScheme

def lessonPaths (s : PathScheme) (l : PlannedLesson) : List String :=
  s.stops.map (segmentPath s.start l.lesson.id)

def paths (s : PathScheme) (p : Plan) : List String :=
  s.shared ++ p.lessons.flatMap s.lessonPaths

theorem mem_paths {s : PathScheme} {p : Plan} {path : String} :
    path ∈ s.paths p ↔ path ∈ s.shared ∨
      ∃ l ∈ p.lessons, ∃ stop ∈ s.stops, path = segmentPath s.start l.lesson.id stop := by
  simp [paths, lessonPaths, eq_comm]

variable {s : PathScheme} {p : Plan}

theorem Sound.isPath (hs : s.Sound) : ∀ path ∈ s.paths p, IsPath path := by
  intro path hpath
  rcases mem_paths.mp hpath with hpath | ⟨l, -, stop, hstop, rfl⟩
  · exact hs.isPath_shared path hpath
  · exact isPath_segmentPath _ hs.start_chars (hs.isPath_stop stop hstop)

theorem Sound.not_lt (hs : s.Sound) : ∀ path ∈ s.paths p, ¬ s.last < path := by
  intro path hpath
  rcases mem_paths.mp hpath with hpath | ⟨l, -, stop, -, rfl⟩
  · exact hs.last_max path hpath
  · obtain ⟨a, rest, hstart, -, b, more, hlast, hlt⟩ := hs.first
    rw [String.lt_iff, hlast, segmentPath, String.toList_append, String.toList_append, hstart]
    simp only [List.cons_append, List.cons_lt_cons_iff, not_or, not_and]
    exact ⟨Char.lt_asymm hlt, fun heq => absurd (heq ▸ hlt) (Char.lt_irrefl _)⟩

/-- The paths of a package are different when its lessons have different segments. -/
theorem Sound.nodup_paths (hs : s.Sound) (hp : (p.lessons.map fun l =>
    pathSegment l.lesson.id).Nodup) : (s.paths p).Nodup := by
  have hlessons : (p.lessons.flatMap s.lessonPaths).Nodup := by
    rw [List.nodup_flatMap]
    refine ⟨?_, ?_⟩
    · intro l _
      refine hs.nodup_stops.map_on ?_
      intro stop _ other _ heq
      have hchars := congrArg String.toList heq
      simp only [segmentPath, String.toList_append] at hchars
      exact String.toList_inj.mp (List.append_cancel_left hchars)
    · rw [List.Nodup, List.pairwise_map] at hp
      refine hp.imp ?_
      intro l other hne path hpath hother
      obtain ⟨stop, hstop, rfl⟩ := List.mem_map.mp hpath
      obtain ⟨otherStop, hotherStop, heq⟩ := List.mem_map.mp hother
      apply hne
      -- A shared path would give both lessons one segment, which ends at a slash or a known end.
      rcases hs.separated with ⟨only, honly⟩ | hslash
      · rw [honly, List.mem_singleton] at hstop hotherStop
        rw [hstop, hotherStop] at heq
        exact segmentPath_inj heq.symm
      · exact segmentPath_inj_of_slash (hslash _ hstop) (hslash _ hotherStop) heq.symm
  refine List.nodup_append.mpr ⟨hs.nodup_shared, hlessons, ?_⟩
  rintro path hshared other hother rfl
  obtain ⟨a, rest, hstart, hfirst, -⟩ := hs.first
  rcases List.mem_flatMap.mp hother with ⟨l, -, hl⟩
  obtain ⟨stop, -, rfl⟩ := List.mem_map.mp hl
  exact hfirst _ hshared (by simp [segmentPath, hstart])

end PathScheme

end Courseware.Package
