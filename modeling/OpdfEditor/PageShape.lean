import OpdfEditor.CanvasFallback
import OpdfEditor.LayoutScan
import OpdfEditor.OpdfApp

/-!
The shape of the rectangle a page is drawn in against the shape of the tile drawn into it.
The layout knows the rotation stored on the page, the tile also the one applied to the
view, so the two part where the view is turned by a quarter.
-/
namespace OpdfEditor

/-! ### What the canvas draws -/

structure Rect where
  min : ℚ × ℚ
  max : ℚ × ℚ

namespace Rect

def fromMinSize (min size : ℚ × ℚ) : Rect := ⟨min, (min.1 + size.1, min.2 + size.2)⟩

def width (rect : Rect) : ℚ := rect.max.1 - rect.min.1

def height (rect : Rect) : ℚ := rect.max.2 - rect.min.2

end Rect

def placePageRect (origin : ℚ × ℚ) (placement : PagePlacement) (zoom : ℚ) : Rect :=
  .fromMinSize (origin.1 + placement.leftPt * zoom, origin.2 + placement.topPt * zoom)
    (placement.widthPt * zoom, placement.heightPt * zoom)

/-- A tile and the rectangle it is drawn into agree to within a pixel on both extents. -/
def DrawnToShape (rect : Rect) (zoom scale : ℚ) (geometry : TileGeometry) : Prop :=
  |geometry.widthPx / scale - rect.width / zoom| ≤ 1 / scale ∧
  |geometry.heightPx / scale - rect.height / zoom| ≤ 1 / scale

theorem placePageRect_width (origin : ℚ × ℚ) (placement : PagePlacement) {zoom : ℚ} (hzoom : 0 < zoom) :
    (placePageRect origin placement zoom).width / zoom = placement.widthPt := by
  simp only [placePageRect, Rect.fromMinSize, Rect.width, add_sub_cancel_left]
  exact mul_div_cancel_right₀ _ hzoom.ne'

theorem placePageRect_height (origin : ℚ × ℚ) (placement : PagePlacement) {zoom : ℚ} (hzoom : 0 < zoom) :
    (placePageRect origin placement zoom).height / zoom = placement.heightPt := by
  simp only [placePageRect, Rect.fromMinSize, Rect.height, add_sub_cancel_left]
  exact mul_div_cancel_right₀ _ hzoom.ne'

theorem clampZoom_pos (zoom : ℚ) : 0 < clampZoom zoom :=
  lt_of_lt_of_le (by norm_num [minZoom]) (le_max_left minZoom (min zoom maxZoom))

/-! ### Rounding an edge to pixels -/

def pixels (edge : ℚ) : ℤ := max ⌊edge + 1 / 2⌋ 1

theorem scaleEdge_eq {sizePt : Binary32.F32} {scale : ℚ} {edge : Nat}
    (h : scaleEdge sizePt scale = .ok edge) : (edge : ℤ) = pixels (sizePt.value * scale) := by
  unfold scaleEdge at h
  split at h
  · rename_i q hq
    dsimp only at h
    split at h
    · cases h
    · cases h
      change _ = max ⌊q * scale + 1 / 2⌋ 1
      omega
  · cases h

/-- Rounding an edge to pixels moves it by at most one pixel, unless it is negative. -/
theorem abs_pixels_sub_le_iff (edge : ℚ) : |(pixels edge : ℚ) - edge| ≤ 1 ↔ 0 ≤ edge := by
  have hpixels : (pixels edge : ℚ) = max (⌊edge + 1 / 2⌋ : ℚ) 1 := by simp [pixels]
  have hlow := Int.floor_le (edge + 1 / 2)
  have hhigh := Int.lt_floor_add_one (edge + 1 / 2)
  rw [hpixels, abs_le]
  constructor
  · intro h
    have hone := le_max_right (⌊edge + 1 / 2⌋ : ℚ) 1
    linarith
  · intro h
    have hround := le_max_left (⌊edge + 1 / 2⌋ : ℚ) 1
    refine ⟨by linarith, sub_le_iff_le_add.2 (max_le (by linarith) (by linarith))⟩

/-- Comparing an extent in points with an edge in pixels. -/
theorem abs_div_sub_le_iff {edge scale : ℚ} (sizePt : ℚ) (hscale : 0 < scale) :
    |edge / scale - sizePt| ≤ 1 / scale ↔ |edge - sizePt * scale| ≤ 1 := by
  have hdiff : edge / scale - sizePt = (edge - sizePt * scale) / scale := by
    rw [sub_div, mul_div_cancel_right₀ _ hscale.ne']
  rw [hdiff, abs_div, abs_of_pos hscale]
  exact div_le_div_iff_of_pos_right hscale

theorem swapsAxes_rotatedBy (a b : Rotation) :
    (a.rotatedBy b).swapsAxes = (a.swapsAxes != b.swapsAxes) := by
  cases a <;> cases b <;> rfl

/-- A page turned further shows its displayed extents, swapped by a quarter turn. -/
theorem turned_extents (page : PageInfo) (rotation : Rotation) :
    ({ page with rotation := page.rotation.rotatedBy rotation } : PageInfo).displaySize.widthPt.value =
      (if rotation.swapsAxes then displayHeight page else displayWidth page) ∧
    ({ page with rotation := page.rotation.rotatedBy rotation } : PageInfo).displaySize.heightPt.value =
      (if rotation.swapsAxes then displayWidth page else displayHeight page) := by
  unfold displayWidth displayHeight PageInfo.displaySize
  dsimp only
  rw [swapsAxes_rotatedBy]
  cases page.rotation.swapsAxes <;> cases rotation.swapsAxes <;> exact ⟨rfl, rfl⟩

/-- A tile's edges are the page's displayed extents, swapped where the view is turned by a quarter. -/
theorem tile_edges {page : PageInfo} {request : RenderRequest} {geometry : TileGeometry}
    (h : computeTileGeometry page request = .ok geometry) :
    (geometry.widthPx : ℤ) = pixels ((if request.rotation.swapsAxes then displayHeight page
      else displayWidth page) * request.scale) ∧
    (geometry.heightPx : ℤ) = pixels ((if request.rotation.swapsAxes then displayWidth page
      else displayHeight page) * request.scale) := by
  have hextents := turned_extents page request.rotation
  unfold computeTileGeometry at h
  dsimp only at h
  split at h
  · cases h
  rename_i widthPx hwidth
  split at h
  · cases h
  rename_i heightPx hheight
  split at h
  · cases h
  · cases h
    rw [← hextents.1, ← hextents.2]
    exact ⟨scaleEdge_eq hwidth, scaleEdge_eq hheight⟩

/-- Each extent of a page, in pixels, is within a pixel of the other one rounded. -/
def NearlySquare (widthPt heightPt scale : ℚ) : Prop :=
  |(pixels (heightPt * scale) : ℚ) - widthPt * scale| ≤ 1 ∧
  |(pixels (widthPt * scale) : ℚ) - heightPt * scale| ≤ 1

/-- Where the drawn shape is the tile's: no extent is negative, and the view is not turned by a
quarter or the page is as good as square. -/
theorem drawnToShape_iff {page : PageInfo} {request : RenderRequest} {geometry : TileGeometry}
    (h : computeTileGeometry page request = .ok geometry) (origin : ℚ × ℚ) {placement : PagePlacement}
    (hwidth : placement.widthPt = displayWidth page) (hheight : placement.heightPt = displayHeight page)
    {zoom : ℚ} (hzoom : 0 < zoom) :
    DrawnToShape (placePageRect origin placement zoom) zoom request.scale geometry ↔
      0 ≤ displayWidth page ∧ 0 ≤ displayHeight page ∧
      (request.rotation.swapsAxes = false ∨
        NearlySquare (displayWidth page) (displayHeight page) request.scale) := by
  obtain ⟨hwidthPx, hheightPx⟩ := tile_edges h
  have hcastWidth : (geometry.widthPx : ℚ) = ((geometry.widthPx : ℤ) : ℚ) := by push_cast; rfl
  have hcastHeight : (geometry.heightPx : ℚ) = ((geometry.heightPx : ℤ) : ℚ) := by push_cast; rfl
  have hone : ∀ edge, (1 : ℚ) ≤ pixels edge := fun edge => by
    exact_mod_cast le_max_right ⌊edge + 1 / 2⌋ 1
  have hnonneg : ∀ sizePt : ℚ, 0 ≤ sizePt * request.scale ↔ 0 ≤ sizePt :=
    fun sizePt => mul_nonneg_iff_of_pos_right request.positive
  unfold DrawnToShape
  rw [placePageRect_width origin placement hzoom, placePageRect_height origin placement hzoom, hwidth,
    hheight, abs_div_sub_le_iff _ request.positive, abs_div_sub_le_iff _ request.positive, hcastWidth,
    hcastHeight, hwidthPx, hheightPx]
  cases hturned : request.rotation.swapsAxes with
  | false =>
    simp only [Bool.false_eq_true, if_false, abs_pixels_sub_le_iff, hnonneg, true_or, and_true]
  | true =>
    simp only [if_true, Bool.true_eq_false, false_or]
    constructor
    · intro hshape
      have hfirst := (abs_le.1 hshape.1).2
      have hsecond := (abs_le.1 hshape.2).2
      have hheightPos := hone (displayHeight page * request.scale)
      have hwidthPos := hone (displayWidth page * request.scale)
      refine ⟨(hnonneg _).1 ?_, (hnonneg _).1 ?_, hshape⟩
      · linarith
      · linarith
    · exact fun hsquare => hsquare.2.2

/-! ### Runs of the view -/

/-- What changes a view: an action, drawing it in the viewport the scroll area realised, and
refitting it to that viewport. -/
inductive ViewEvent where
  | action (action : MenuAction)
  | draw (pixelsPerPoint : ℚ) (maxTextureSide : Nat) (scrollOffsetPx : ℚ) (viewportSizePx : ℚ × ℚ)
    (cache : TextureCache)
  | syncFit

/-- An action that turns the view by a quarter. -/
def ViewEvent.turns : ViewEvent → Bool
  | .action .rotateViewClockwise | .action .rotateViewCounterClockwise => true
  | _ => false

namespace ViewerState

def stepView (v : ViewerState) : ViewEvent → ViewerState
  | .action action => OpdfApp.applyViewAction action v
  | .draw pixelsPerPoint maxTextureSide scrollOffsetPx viewportSizePx cache =>
    (showCanvas pixelsPerPoint maxTextureSide scrollOffsetPx viewportSizePx v cache).1
  | .syncFit => v.syncFitToViewport.2

def runView (v : ViewerState) (events : List ViewEvent) : ViewerState := events.foldl stepView v

/-- What every run keeps: the snapshot and its layout. -/
structure SamePages (v v' : ViewerState) : Prop where
  snapshot : v'.snapshot = v.snapshot
  layout : v'.layout = v.layout
  viewRotation : v'.viewRotation = v.viewRotation

theorem samePages_scrollToPage (v : ViewerState) (index : Nat) (marginPt : ℚ) :
    SamePages v (v.scrollToPage index marginPt) := by
  unfold scrollToPage
  split <;> exact ⟨rfl, rfl, rfl⟩

theorem samePages_reapplyFitMode (v : ViewerState) : SamePages v v.reapplyFitMode := by
  unfold reapplyFitMode
  split
  · exact ⟨rfl, rfl, rfl⟩
  · exact ⟨rfl, rfl, rfl⟩
  · split <;> exact ⟨rfl, rfl, rfl⟩

/-- One event keeps the pages, and turns the view by a quarter or not at all. -/
theorem stepView_keeps (v : ViewerState) (event : ViewEvent) :
    (v.stepView event).snapshot = v.snapshot ∧ (v.stepView event).layout = v.layout ∧
    (v.stepView event).viewRotation.swapsAxes = (v.viewRotation.swapsAxes != event.turns) := by
  have hkept : ∀ {v' : ViewerState}, SamePages v v' → v'.snapshot = v.snapshot ∧ v'.layout = v.layout ∧
      v'.viewRotation.swapsAxes = (v.viewRotation.swapsAxes != false) := by
    intro v' h
    exact ⟨h.snapshot, h.layout, by rw [h.viewRotation, Bool.bne_false]⟩
  cases event with
  | action action =>
    cases action with
    | rotateViewClockwise => exact ⟨rfl, rfl, swapsAxes_rotatedBy _ _⟩
    | rotateViewCounterClockwise => exact ⟨rfl, rfl, swapsAxes_rotatedBy _ _⟩
    | zoomIn => exact hkept ⟨rfl, rfl, rfl⟩
    | zoomOut => exact hkept ⟨rfl, rfl, rfl⟩
    | zoomActual => exact hkept ⟨rfl, rfl, rfl⟩
    | fitWidth =>
      have h := samePages_reapplyFitMode { v with fitMode := .width }
      exact hkept ⟨h.snapshot, h.layout, h.viewRotation⟩
    | fitPage =>
      have h := samePages_reapplyFitMode { v with fitMode := .page }
      exact hkept ⟨h.snapshot, h.layout, h.viewRotation⟩
    | firstPage => exact hkept (samePages_scrollToPage _ _ _)
    | lastPage => exact hkept (samePages_scrollToPage _ _ _)
    | nextPage => exact hkept (samePages_scrollToPage _ _ _)
    | previousPage => exact hkept (samePages_scrollToPage _ _ _)
    | _ => exact hkept ⟨rfl, rfl, rfl⟩
  | draw => exact hkept ⟨rfl, rfl, rfl⟩
  | syncFit =>
    refine hkept ?_
    dsimp only [stepView, syncFitToViewport]
    split
    · exact samePages_reapplyFitMode v
    · exact ⟨rfl, rfl, rfl⟩

/-- A run keeps the pages, and leaves the view on its side after an odd number of turns. -/
theorem runView_keeps (v : ViewerState) (events : List ViewEvent) :
    (v.runView events).snapshot = v.snapshot ∧ (v.runView events).layout = v.layout ∧
    (v.runView events).viewRotation.swapsAxes =
      (v.viewRotation.swapsAxes != decide (events.countP ViewEvent.turns % 2 = 1)) := by
  induction events generalizing v with
  | nil => exact ⟨rfl, rfl, (Bool.bne_false _).symm⟩
  | cons event events ih =>
    obtain ⟨hsnapshot, hlayout, hturned⟩ := ih (v.stepView event)
    obtain ⟨hsnapshot', hlayout', hturned'⟩ := stepView_keeps v event
    refine ⟨hsnapshot.trans hsnapshot', hlayout.trans hlayout', hturned.trans ?_⟩
    rw [hturned', List.countP_cons]
    cases event.turns with
    | false => simp
    | true =>
      rcases Nat.mod_two_eq_zero_or_one (events.countP ViewEvent.turns) with heven | hodd
      · cases v.viewRotation.swapsAxes <;> simp [heven, Nat.add_mod]
      · cases v.viewRotation.swapsAxes <;> simp [hodd, Nat.add_mod]

end ViewerState

/-- A placement has the extents of its page. -/
theorem placePages_extents {contentWidthPt gapPt : ℚ} (pages : List PageInfo) (index : Nat)
    (cursorPt : ℚ) {position : Nat} {page : PageInfo} {placement : PagePlacement}
    (hpage : pages[position]? = some page)
    (hplacement : (placePages contentWidthPt gapPt index cursorPt pages).1[position]? = some placement) :
    placement.id = page.id ∧ placement.widthPt = displayWidth page ∧
      placement.heightPt = displayHeight page := by
  induction pages generalizing index cursorPt position with
  | nil => simp at hpage
  | cons first pages ih =>
    cases position with
    | zero =>
      simp only [List.getElem?_cons_zero, Option.some.injEq] at hpage
      simp only [placePages, List.getElem?_cons_zero, Option.some.injEq] at hplacement
      subst hpage hplacement
      exact ⟨rfl, rfl, rfl⟩
    | succ position => exact ih _ _ hpage hplacement

theorem computeDocumentLayout_extents {snapshot : DocumentSnapshot} {gapPt marginPt : ℚ}
    {position : Nat} {page : PageInfo} {placement : PagePlacement}
    (hpage : snapshot.pages[position]? = some page)
    (hplacement : (computeDocumentLayout snapshot gapPt marginPt).placements[position]? = some placement) :
    placement.id = page.id ∧ placement.widthPt = displayWidth page ∧
      placement.heightPt = displayHeight page := by
  unfold computeDocumentLayout at hplacement
  split at hplacement
  · cases hplacement
  · exact placePages_extents _ _ _ hpage hplacement

/-- In every run of the view over a snapshot, the tile a page's exact request resolves to has the
shape of the rectangle it is drawn into exactly where no extent is negative and the view was turned
an even number of times or the page is as good as square. -/
theorem pages_drawn_to_shape_iff (snapshot : DocumentSnapshot) (events : List ViewEvent)
    (pixelsPerPoint : ℚ) (maxTextureSide : Nat) (origin : ℚ × ℚ) :
    let v := (ViewerState.new snapshot).runView events
    ∀ (position : Nat) (page : PageInfo) (placement : PagePlacement),
      snapshot.pages[position]? = some page → v.layout.placements[position]? = some placement →
      let request := exactRequest v (v.renderSettings pixelsPerPoint maxTextureSide) placement
      request.page = page.id ∧ ∀ geometry, computeTileGeometry page request = .ok geometry →
        (DrawnToShape (placePageRect origin placement (clampZoom v.zoom)) (clampZoom v.zoom)
            request.scale geometry ↔
          0 ≤ displayWidth page ∧ 0 ≤ displayHeight page ∧
          (events.countP ViewEvent.turns % 2 = 0 ∨
            NearlySquare (displayWidth page) (displayHeight page) request.scale)) := by
  intro v position page placement hpage hplacement request
  obtain ⟨hsnapshot, hlayout, hturned⟩ := (ViewerState.new snapshot).runView_keeps events
  rw [show v.layout = _ from hlayout] at hplacement
  obtain ⟨hid, hwidth, hheight⟩ := computeDocumentLayout_extents hpage hplacement
  refine ⟨hid, fun geometry hgeometry => ?_⟩
  have hrotation : request.rotation.swapsAxes = false ↔ events.countP ViewEvent.turns % 2 = 0 := by
    have hfirst : request.rotation.swapsAxes = decide (events.countP ViewEvent.turns % 2 = 1) :=
      hturned.trans (Bool.false_bne _)
    rw [hfirst, decide_eq_false_iff_not]
    omega
  rw [← hrotation]
  exact drawnToShape_iff hgeometry origin hwidth hheight (clampZoom_pos v.zoom)

namespace TurnedSheet

def sheet : PageInfo := ⟨0, .a4, .none⟩

def turned : ViewerState := (ViewerState.new ⟨1, [sheet], 0⟩).runView [.action .rotateViewClockwise]

def placement : PagePlacement := ⟨0, 0, 20, 20, 595, 842⟩

/-- The sheet's tile is 842 pixels wide and is drawn into a rectangle 595 wide. -/
theorem turned_sheet_is_squashed :
    turned.layout.placements[0]? = some placement ∧
    computeTileGeometry sheet (exactRequest turned (turned.renderSettings 1 4096) placement) =
      .ok ⟨842, 595, .quarter⟩ ∧
    ¬ DrawnToShape (placePageRect (0, 0) placement (clampZoom turned.zoom)) (clampZoom turned.zoom)
      (exactRequest turned (turned.renderSettings 1 4096) placement).scale ⟨842, 595, .quarter⟩ := by
  refine ⟨by decide +kernel, by decide +kernel, fun hshape => ?_⟩
  have hwidth : ¬ |(842 : ℚ) / (exactRequest turned (turned.renderSettings 1 4096) placement).scale -
      (placePageRect (0, 0) placement (clampZoom turned.zoom)).width / clampZoom turned.zoom| ≤
      1 / (exactRequest turned (turned.renderSettings 1 4096) placement).scale := by decide +kernel
  exact hwidth hshape.1

def upended : ViewerState :=
  (ViewerState.new ⟨1, [sheet], 0⟩).runView [.action .rotateViewClockwise, .action .rotateViewClockwise]

/-- Turned twice, the sheet's tile is as wide as the rectangle it is drawn into. -/
theorem upended_sheet_keeps_its_shape :
    DrawnToShape (placePageRect (0, 0) placement (clampZoom upended.zoom)) (clampZoom upended.zoom)
      (exactRequest upended (upended.renderSettings 1 4096) placement).scale ⟨595, 842, .half⟩ :=
  ((pages_drawn_to_shape_iff ⟨1, [sheet], 0⟩
    [.action .rotateViewClockwise, .action .rotateViewClockwise] 1 4096 (0, 0) 0 sheet placement rfl
    (by decide +kernel)).2 ⟨595, 842, .half⟩ (by decide +kernel)).2
    ⟨by decide +kernel, by decide +kernel, .inl (by decide)⟩

end TurnedSheet

end OpdfEditor
