import Courseware.Plan
import Mathlib.Data.List.Perm.Basic

/-!
# The order in which things are shown

Modules, lessons and blocks are shown in the order of a number that each of them has, and
where two have the same number they keep the order of the document.
-/

namespace Courseware

/-- Whether a list holds the members of another in the order of their keys, and those
with one key in the order of the other list. -/
structure IsStableOrder {α : Type} (key : α → Int) (xs ys : List α) : Prop where
  perm : ys.Perm xs
  sorted : ys.Pairwise fun a b => key a ≤ key b
  stable : ∀ k, ys.filter (fun a => key a = k) = xs.filter fun a => key a = k

theorem isStableOrder_mergeSort {α : Type} (key : α → Int) (xs : List α) :
    IsStableOrder key xs (xs.mergeSort fun a b => key a ≤ key b) := by
  have htrans : ∀ a b c : α, decide (key a ≤ key b) = true → decide (key b ≤ key c) = true →
      decide (key a ≤ key c) = true := by
    intro a b c hab hbc
    exact decide_eq_true (Int.le_trans (of_decide_eq_true hab) (of_decide_eq_true hbc))
  have htotal : ∀ a b : α, (decide (key a ≤ key b) || decide (key b ≤ key a)) = true := by
    intro a b
    simpa using Int.le_total (key a) (key b)
  have hperm := List.mergeSort_perm xs fun a b => decide (key a ≤ key b)
  refine ⟨hperm, (List.pairwise_mergeSort htrans htotal xs).imp of_decide_eq_true, ?_⟩
  intro k
  have hsame : (xs.filter fun a => key a = k).Pairwise
      fun a b => decide (key a ≤ key b) = true := by
    refine List.Pairwise.imp_of_mem ?_ (List.pairwise_of_forall fun _ _ => trivial)
    intro a b ha hb _
    have hka : key a = k := of_decide_eq_true (List.mem_filter.mp ha).2
    have hkb : key b = k := of_decide_eq_true (List.mem_filter.mp hb).2
    exact decide_eq_true (Int.le_of_eq (hka.trans hkb.symm))
  -- Those with one key stand in both lists, in the order that they have in the first.
  have hsublist := (List.sublist_mergeSort htrans htotal hsame List.filter_sublist).filter
    fun a => decide (key a = k)
  rw [List.filter_filter] at hsublist
  simp only [Bool.and_self] at hsublist
  exact (hsublist.eq_of_length (hperm.filter _).length_eq.symm).symm

/-- The blocks of a planned lesson are those of the lesson in order. -/
theorem isStableOrder_orderedBlocks (l : Lesson) :
    IsStableOrder Block.order l.blocks l.orderedBlocks :=
  isStableOrder_mergeSort Block.order l.blocks

end Courseware
