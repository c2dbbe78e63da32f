import OpdfEditor.Page
import Mathlib.Algebra.Order.Field.Rat

/-!
Continuous-scroll layout in points, independent of zoom, and the viewport queries
over it. Lengths are exact.
-/
namespace OpdfEditor

/-- How many elements come before the first one the predicate rejects. -/
def partitionPoint {α : Type} (p : α → Bool) (xs : List α) : Nat := (xs.takeWhile p).length

structure IndexRange where
  start : Nat
  stop : Nat

namespace IndexRange

def indices (range : IndexRange) : List Nat := List.range' range.start (range.stop - range.start)

def slice {α : Type} (range : IndexRange) (xs : List α) : List α :=
  (xs.drop range.start).take (range.stop - range.start)

end IndexRange

structure PagePlacement where
  id : PageId
  index : Nat
  leftPt : ℚ
  topPt : ℚ
  /-- Extents after the page's stored rotation. -/
  widthPt : ℚ
  heightPt : ℚ
  deriving DecidableEq

def PagePlacement.bottomPt (placement : PagePlacement) : ℚ := placement.topPt + placement.heightPt

structure DocumentLayout where
  placements : List PagePlacement
  contentWidthPt : ℚ
  contentHeightPt : ℚ

namespace DocumentLayout

def empty : DocumentLayout := ⟨[], 0, 0⟩

def isEmpty (layout : DocumentLayout) : Bool := layout.placements.isEmpty

def placement (layout : DocumentLayout) (index : Nat) : Option PagePlacement :=
  layout.placements[index]?

end DocumentLayout

def displayWidth (page : PageInfo) : ℚ := page.displaySize.widthPt.value

def displayHeight (page : PageInfo) : ℚ := page.displaySize.heightPt.value

def placePages (contentWidthPt gapPt : ℚ) : Nat → ℚ → List PageInfo → List PagePlacement × ℚ
  | _, cursorPt, [] => ([], cursorPt)
  | index, cursorPt, page :: pages =>
    let rest := placePages contentWidthPt gapPt (index + 1)
      (cursorPt + (displayHeight page + gapPt)) pages
    (⟨page.id, index, (contentWidthPt - displayWidth page) / 2, cursorPt, displayWidth page,
      displayHeight page⟩ :: rest.1, rest.2)

/-- Every page stacked with a gap between two and a margin above the first and below the last. -/
def computeDocumentLayout (snapshot : DocumentSnapshot) (gapPt marginPt : ℚ) : DocumentLayout :=
  if snapshot.pages.isEmpty then .empty
  else
    let widestPt := (snapshot.pages.map displayWidth).foldl max 0
    let contentWidthPt := widestPt + 2 * marginPt
    let placed := placePages contentWidthPt gapPt 0 marginPt snapshot.pages
    ⟨placed.1, contentWidthPt, placed.2 - gapPt + marginPt⟩

def findVisiblePages (layout : DocumentLayout) (topPt heightPt overscanPt : ℚ) : IndexRange :=
  let lowPt := topPt - overscanPt
  let highPt := topPt + heightPt + overscanPt
  let first := partitionPoint (fun placement => decide (placement.bottomPt < lowPt)) layout.placements
  let last := partitionPoint (fun placement => decide (placement.topPt ≤ highPt)) layout.placements
  ⟨first, max last first⟩

def coveredPt (topPt bottomPt : ℚ) (placement : PagePlacement) : ℚ :=
  min placement.bottomPt bottomPt - max placement.topPt topPt

/-- Keep the page that covers more, the earlier one where two cover the same. -/
def keepBetter (topPt bottomPt : ℚ) (best : Option (Nat × ℚ)) (placement : PagePlacement) :
    Option (Nat × ℚ) :=
  let covered := coveredPt topPt bottomPt placement
  if covered ≤ 0 then best
  else
    match best with
    | none => some (placement.index, covered)
    | some (_, bestCovered) => if covered > bestCovered then some (placement.index, covered) else best

/-- The page covering most of the viewport, or the nearest one where none covers any, over exact
arithmetic. -/
def findCurrentPage (layout : DocumentLayout) (topPt heightPt : ℚ) : Option Nat :=
  if layout.isEmpty then none
  else
    let visible := findVisiblePages layout topPt heightPt 0
    match (visible.slice layout.placements).foldl (keepBetter topPt (topPt + heightPt)) none with
    | some (index, _) => some index
    | none =>
      let nearest := partitionPoint (fun placement => decide (placement.bottomPt < topPt)) layout.placements
      some (min nearest (layout.placements.length - 1))

def findScrollTarget (layout : DocumentLayout) (index : Nat) (marginPt : ℚ) : Option ℚ :=
  (layout.placement index).map fun placement => max (placement.topPt - marginPt) 0

end OpdfEditor
