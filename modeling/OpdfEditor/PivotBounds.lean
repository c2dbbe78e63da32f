import Mathlib.Order.MinMax

/-!
A point pushed up to bounds from below and down to bounds from above, over and over. Where some
pivot keeps every lower bound below it and every upper bound above it, the point ends where it
began exactly if it met every bound, in whatever order they came.
-/
namespace PivotBounds

inductive Bound (α : Type) where
  | atLeast (low : α)
  | atMost (high : α)

namespace Bound

variable {α : Type} [LinearOrder α] {pivot p q : α} {bound : Bound α} {bounds : List (Bound α)}

/-- The nearest point that meets the bound. -/
def push (p : α) : Bound α → α
  | atLeast low => max p low
  | atMost high => min p high

def Met (p : α) : Bound α → Prop
  | atLeast low => low ≤ p
  | atMost high => p ≤ high

theorem push_of_met (h : bound.Met p) : bound.push p = p := by
  cases bound with
  | atLeast low => exact max_eq_left h
  | atMost high => exact min_eq_left h

/-- A point at or above another one that meets the bound stays so. -/
theorem le_push (hmet : bound.Met pivot) (hpivot : q ≤ pivot) (h : q ≤ p) : q ≤ bound.push p := by
  cases bound with
  | atLeast low => exact h.trans (le_max_left p low)
  | atMost high => exact le_min h (hpivot.trans hmet)

theorem push_le (hmet : bound.Met pivot) (hpivot : pivot ≤ q) (h : p ≤ q) : bound.push p ≤ q := by
  cases bound with
  | atLeast low => exact max_le h (le_trans hmet hpivot)
  | atMost high => exact (min_le_left p high).trans h

theorem le_pushes (hmet : ∀ bound ∈ bounds, bound.Met pivot) (hpivot : q ≤ pivot) (h : q ≤ p) :
    q ≤ bounds.foldl push p := by
  induction bounds generalizing p with
  | nil => exact h
  | cons bound bounds ih =>
    obtain ⟨hfirst, hrest⟩ := List.forall_mem_cons.1 hmet
    exact ih hrest (le_push hfirst hpivot h)

theorem pushes_le (hmet : ∀ bound ∈ bounds, bound.Met pivot) (hpivot : pivot ≤ q) (h : p ≤ q) :
    bounds.foldl push p ≤ q := by
  induction bounds generalizing p with
  | nil => exact h
  | cons bound bounds ih =>
    obtain ⟨hfirst, hrest⟩ := List.forall_mem_cons.1 hmet
    exact ih hrest (push_le hfirst hpivot h)

/-- A point comes back where it was exactly if it never had to move. -/
theorem pushes_eq_self_iff (hmet : ∀ bound ∈ bounds, bound.Met pivot) :
    bounds.foldl push p = p ↔ ∀ bound ∈ bounds, bound.Met p := by
  induction bounds with
  | nil => exact iff_of_true rfl (List.forall_mem_nil _)
  | cons bound bounds ih =>
    obtain ⟨hfirst, hrest⟩ := List.forall_mem_cons.1 hmet
    rw [List.forall_mem_cons, List.foldl_cons]
    by_cases hbound : bound.Met p
    · rw [push_of_met hbound, ih hrest]
      exact (and_iff_right hbound).symm
    · refine iff_of_false (fun hsame => hbound ?_) fun h => hbound h.1
      -- once pushed past a bound on its way to the pivot, the point never gets back
      cases bound with
      | atLeast low => exact hsame ▸ le_pushes hrest hfirst (le_max_right p low)
      | atMost high => exact hsame ▸ pushes_le hrest hfirst (min_le_right p high)

end Bound
end PivotBounds
