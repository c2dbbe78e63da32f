import Mathlib.Algebra.Order.Round
import Mathlib.Algebra.Order.Field.Rat
import Mathlib.Data.Rat.Floor

/-!
The zoom ladder and its clamp, anchoring, fit modes, and the quantisation that
keeps the scales tiles are rasterized at few. Arithmetic is exact, so the source's
guards against values that are not finite have nothing to guard.
-/
namespace OpdfEditor

def zoomSteps : List ℚ :=
  [25 / 100, 33 / 100, 50 / 100, 67 / 100, 75 / 100, 1, 125 / 100, 150 / 100, 2, 3, 4, 6, 8]

def minZoom : ℚ := 25 / 100

def maxZoom : ℚ := 8

def clampZoom (zoom : ℚ) : ℚ := max minZoom (min zoom maxZoom)

def stepZoomIn (zoom : ℚ) : ℚ :=
  (zoomSteps.find? fun step => decide (step > clampZoom zoom + 1 / 10000)).getD maxZoom

def stepZoomOut (zoom : ℚ) : ℚ :=
  (zoomSteps.reverse.find? fun step => decide (step < clampZoom zoom - 1 / 10000)).getD minZoom

/-- The scroll offset that keeps the point under the anchor where it is, over exact arithmetic. -/
def anchorScrollOffset (offsetPx anchorPx oldZoom newZoom : ℚ) : ℚ :=
  if oldZoom ≤ 0 then max offsetPx 0
  else max ((offsetPx + anchorPx) / oldZoom * newZoom - anchorPx) 0

def fitWidthZoom (contentWidthPt viewportWidthPx : ℚ) : ℚ :=
  if contentWidthPt ≤ 0 ∨ viewportWidthPx ≤ 0 then 1
  else clampZoom (viewportWidthPx / contentWidthPt)

def fitPageZoom (pageWidthPt pageHeightPt viewportWidthPx viewportHeightPx : ℚ) : ℚ :=
  if pageWidthPt ≤ 0 ∨ pageHeightPt ≤ 0 then 1
  else
    let byWidth := fitWidthZoom pageWidthPt viewportWidthPx
    let byHeight := if viewportHeightPx ≤ 0 then 1 else viewportHeightPx / pageHeightPt
    clampZoom (min byWidth byHeight)

def renderScaleSteps : List ℚ :=
  [125 / 1000, 25 / 100, 50 / 100, 75 / 100, 1, 150 / 100, 2, 3, 4]

/-- The smallest step at or above a scale, or the top one. -/
def quantizeRenderScale (effectiveScale : ℚ) : ℚ :=
  if effectiveScale ≤ 0 then 125 / 1000
  else (renderScaleSteps.find? fun step => decide (step ≥ effectiveScale)).getD 4

/-- The largest scale at or below `scale` that keeps the page inside the texture limit. -/
def fitRenderScaleToTextureLimit (scale widthPt heightPt : ℚ) (maxTextureSide : Nat) : ℚ :=
  let longestPt := max widthPt heightPt
  let wanted := quantizeRenderScale scale
  if longestPt ≤ 0 ∨ maxTextureSide = 0 then wanted
  else
    let limit := maxTextureSide / longestPt
    if wanted ≤ limit then wanted
    else
      match renderScaleSteps.reverse.find? fun step => decide (step ≤ limit) with
      | some step => step
      -- rounding could land back above the limit
      | none => max (⌊limit * 256⌋ : ℚ) 1 / 256

def roundHalfAway (q : ℚ) : ℤ := if q < 0 then -⌊-q + 1 / 2⌋ else ⌊q + 1 / 2⌋

def quantizeScale (scale stepsPerUnit : ℚ) : ℚ :=
  if scale ≤ 0 ∨ stepsPerUnit ≤ 0 then 125 / 1000
  else max (roundHalfAway (scale * stepsPerUnit) / stepsPerUnit) (1 / stepsPerUnit)

end OpdfEditor
