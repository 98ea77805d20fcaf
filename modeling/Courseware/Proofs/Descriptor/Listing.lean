import Mathlib.Data.List.Forall2
import Courseware.Plan

/-!
# What descriptors list

Each format has its own way to list the modules and lessons of a package. What they
have in common is a list of modules, each with its lessons.
-/

namespace Courseware

namespace Descriptor

/-- What is read from all members of a list. -/
theorem mapM_eq_some {α β : Type} {f : α → Option β} {g : α → β} {as : List α}
    (h : ∀ a ∈ as, f a = some (g a)) : as.mapM f = some (as.map g) := by
  induction as with
  | nil => rfl
  | cons a as ih =>
    have hrest := ih fun x hx => h x (List.mem_cons_of_mem _ hx)
    simp [List.mapM_cons, h a List.mem_cons_self, hrest]

/-- What holds of members that stand side by side, as members of the first list. -/
theorem forall₂_imp_of_mem {α β : Type} {R S : α → β → Prop} {as : List α} {bs : List β}
    (h : List.Forall₂ R as bs) (himp : ∀ a ∈ as, ∀ b, R a b → S a b) : List.Forall₂ S as bs := by
  have hboth := (List.forall₂_and_left as bs).mpr ⟨fun a ha => ha, h⟩
  exact hboth.imp fun a b hab => himp a hab.1 b hab.2

/-- A lesson as a descriptor lists it. -/
structure ListedLesson where
  /-- What the descriptor calls the lesson. -/
  name : String
  title : String
  /-- The page that the lesson starts with, where the descriptor tells. -/
  launch : Option String
  deriving DecidableEq, Repr

/-- A module as a descriptor lists it. -/
structure ListedModule where
  name : String
  title : String
  lessons : List ListedLesson
  deriving DecidableEq, Repr

/-- What a descriptor lists. -/
abbrev Listing := List ListedModule

def Listing.filled (l : Listing) : Listing :=
  l.filter fun m => !m.lessons.isEmpty

/-- How a descriptor names modules and lessons by their identifiers, and whether it
tells their pages. -/
structure Naming where
  moduleName : String → String
  lessonName : String → String
  launches : Bool

def Naming.lesson (n : Naming) (l : OutlineLesson) : ListedLesson where
  name := n.lessonName l.id
  title := l.title
  launch := if n.launches then some l.launch else none

def Naming.module (n : Naming) (m : OutlineModule) : ListedModule where
  name := n.moduleName m.id
  title := m.title
  lessons := m.lessons.map n.lesson

theorem Naming.filled_map (n : Naming) (o : Outline) :
    Listing.filled (o.map n.module) = o.launchable.map n.module := by
  have hempty : ((fun m : ListedModule => !m.lessons.isEmpty) ∘ n.module) =
      fun m => !m.lessons.isEmpty := by
    funext m
    simp [Naming.module]
  rw [Listing.filled, List.filter_map, hempty]
  rfl

theorem filled_launchable (n : Naming) (o : Outline) :
    Listing.filled (o.launchable.map n.module) = o.launchable.map n.module := by
  rw [n.filled_map, Outline.launchable, Outline.launchable, List.filter_filter]
  simp

end Descriptor

end Courseware
