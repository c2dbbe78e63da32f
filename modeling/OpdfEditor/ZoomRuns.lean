import OpdfEditor.PageShape
import OpdfEditor.PivotBounds
import OpdfEditor.ViewerSync

/-!
Zooming over and over about one anchor. The document point under the anchor comes to lie
elsewhere only where the scroll range leaves no room for it: too near the top to be put under the
anchor, or too near the bottom for the scroll area to go along.
-/
namespace OpdfEditor

open PivotBounds

theorem clampZoom_clampZoom (zoom : ℚ) : clampZoom (clampZoom zoom) = clampZoom zoom := by
  have hrange : minZoom ≤ maxZoom := by norm_num [minZoom, maxZoom]
  have hlow : minZoom ≤ clampZoom zoom := le_max_left _ _
  have hhigh : clampZoom zoom ≤ maxZoom := max_le hrange (min_le_right _ _)
  rw [clampZoom, min_eq_left hhigh, max_eq_right hlow]

namespace ViewerState

def scrollRangePx (v : ViewerState) : ℚ := v.layout.contentHeightPt * v.zoom - v.viewportSizePx.2

/-- Where the scroll area comes to rest when it is asked for an offset: within the content. -/
def settledPx (v : ViewerState) : ℚ := max 0 (min v.scrollOffsetPx v.scrollRangePx)

/-- The document point so far below the top of the viewport. -/
def pointUnder (anchorPx : ℚ) (v : ViewerState) : ℚ := (v.scrollOffsetPx + anchorPx) / v.zoom

/-- A viewer of some pages at a zoom that is allowed, scrolled downwards, its zoom the user's own. -/
structure Zoomed (v : ViewerState) : Prop where
  zoom : clampZoom v.zoom = v.zoom
  offset : 0 ≤ v.scrollOffsetPx
  free : v.fitMode = .free
  pages : v.pageCount ≠ 0

/-- What zooming leaves as it is. -/
structure SameView (v v' : ViewerState) : Prop where
  snapshot : v'.snapshot = v.snapshot
  layout : v'.layout = v.layout
  viewport : v'.viewportSizePx = v.viewportSizePx

variable {v : ViewerState} {anchorPx : ℚ}

theorem Zoomed.pos (h : v.Zoomed) : 0 < v.zoom := h.zoom ▸ clampZoom_pos v.zoom

/-- The point under an anchor is at least as far down as the anchor is. -/
theorem Zoomed.pointUnder_met (h : v.Zoomed) (anchorPx : ℚ) :
    (Bound.atLeast (anchorPx / v.zoom)).Met (v.pointUnder anchorPx) :=
  div_le_div_of_nonneg_right (le_add_of_nonneg_left h.offset) h.pos.le

/-- A point is under an anchor where the document is scrolled so. -/
theorem Zoomed.offset_eq_iff (h : v.Zoomed) {pointPt : ℚ} :
    v.scrollOffsetPx = pointPt * v.zoom - anchorPx ↔ v.pointUnder anchorPx = pointPt := by
  rw [pointUnder, div_eq_iff h.pos.ne', eq_sub_iff_add_eq]

theorem Zoomed.setZoomAnchored (h : v.Zoomed) (newZoom anchorPx : ℚ) :
    let v' := ({ v with fitMode := .free } : ViewerState).setZoomAnchored newZoom anchorPx
    v'.Zoomed ∧ v.SameView v' ∧
      v'.pointUnder anchorPx = (Bound.atLeast (anchorPx / v'.zoom)).push (v.pointUnder anchorPx) := by
  have hold : ¬ clampZoom v.zoom ≤ 0 := not_le.2 (clampZoom_pos v.zoom)
  have hoffset : anchorScrollOffset v.scrollOffsetPx anchorPx (clampZoom v.zoom) (clampZoom newZoom) =
      max (v.pointUnder anchorPx * clampZoom newZoom - anchorPx) 0 := by
    rw [anchorScrollOffset, if_neg hold, h.zoom]
    rfl
  refine ⟨⟨clampZoom_clampZoom newZoom, ?_, rfl, h.pages⟩, ⟨rfl, rfl, rfl⟩, ?_⟩
  · exact (le_max_right _ _).trans_eq hoffset.symm
  · have hpos := clampZoom_pos newZoom
    calc (anchorScrollOffset v.scrollOffsetPx anchorPx (clampZoom v.zoom) (clampZoom newZoom) +
          anchorPx) / clampZoom newZoom
        = max (v.pointUnder anchorPx * clampZoom newZoom) anchorPx / clampZoom newZoom := by
          rw [hoffset, ← max_add_add_right, sub_add_cancel, zero_add]
      _ = max (v.pointUnder anchorPx) (anchorPx / clampZoom newZoom) := by
          rw [← max_div_div_right hpos.le, mul_div_cancel_right₀ _ hpos.ne']

theorem Zoomed.showCanvas (h : v.Zoomed) (hrange : 0 ≤ v.scrollRangePx) (pixelsPerPoint : ℚ)
    (maxTextureSide : Nat) (cache : TextureCache) :
    let v' := (showCanvas pixelsPerPoint maxTextureSide v.settledPx v.viewportSizePx v cache).1
    v'.Zoomed ∧ v.SameView v' ∧ v'.pointUnder anchorPx =
      (Bound.atMost ((v'.scrollRangePx + anchorPx) / v'.zoom)).push (v.pointUnder anchorPx) := by
  have hsettled : v.settledPx = min v.scrollOffsetPx v.scrollRangePx :=
    max_eq_right (le_min h.offset hrange)
  refine ⟨⟨h.zoom, le_max_left _ _, h.free, h.pages⟩, ⟨rfl, rfl, rfl⟩, ?_⟩
  calc (v.settledPx + anchorPx) / v.zoom
      = min (v.scrollOffsetPx + anchorPx) (v.scrollRangePx + anchorPx) / v.zoom := by
        rw [hsettled, min_add_add_right]
    _ = min (v.pointUnder anchorPx) ((v.scrollRangePx + anchorPx) / v.zoom) :=
        (min_div_div_right h.pos.le _ _).symm

/-! ### Stretches of zooming -/

/-- Where a wheel zoom is anchored: at the pointer, within the viewport, or else in its middle. -/
def wheelAnchorPx (v : ViewerState) (pointerPx : Option ℚ) : ℚ :=
  pointerPx.elim (v.viewportSizePx.2 / 2) fun pointerPx => max 0 (min pointerPx v.viewportSizePx.2)

/-- Something that happens while the user zooms about one anchor: a step of the zoom anchored there,
or part of a frame in which the viewport keeps its size and the scroll area goes where it is asked
to, as far as it can. -/
inductive ZoomsAbout (anchorPx : ℚ) (v : ViewerState) : WindowEvent → Prop
  | menu {action : MenuAction} (haction : action ∈ [.zoomIn, .zoomOut, .zoomActual])
      (hanchor : v.viewportSizePx.2 / 2 = anchorPx) : ZoomsAbout anchorPx v (.action action)
  | wheel (zoomDelta : ℚ) {pointerPx : Option ℚ} (hanchor : v.wheelAnchorPx pointerPx = anchorPx) :
      ZoomsAbout anchorPx v (.wheelZoom zoomDelta pointerPx)
  | exchange (pixelsPerPoint : ℚ) (maxTextureSide : Nat) :
      ZoomsAbout anchorPx v (.exchange pixelsPerPoint maxTextureSide)
  | showRail (maxTextureSide : Nat) (topPx heightPx : ℚ) :
      ZoomsAbout anchorPx v (.showRail maxTextureSide topPx heightPx)
  | showCanvas (pixelsPerPoint : ℚ) (maxTextureSide : Nat) {offsetPx : ℚ} {sizePx : ℚ × ℚ}
      (hsettled : v.settledPx = offsetPx) (hsize : v.viewportSizePx = sizePx) :
      ZoomsAbout anchorPx v (.showCanvas pixelsPerPoint maxTextureSide offsetPx sizePx)
  | syncFit : ZoomsAbout anchorPx v .syncFit
  | work (fault : Option String) : ZoomsAbout anchorPx v (.work fault)

/-- What is asked of the point under the anchor by an event that leaves the viewer so: that it can
be put under the anchor at all, and where the canvas is drawn that the content reaches that far. -/
def bound (anchorPx : ℚ) (v : ViewerState) : WindowEvent → Bound ℚ
  | .showCanvas .. => .atMost ((v.scrollRangePx + anchorPx) / v.zoom)
  | _ => .atLeast (anchorPx / v.zoom)

/-- An event that leaves the point where it is. -/
theorem Zoomed.stays (h : v.Zoomed) (anchorPx : ℚ) :
    v.Zoomed ∧ v.SameView v ∧ v.pointUnder anchorPx =
      (Bound.atLeast (anchorPx / v.zoom)).push (v.pointUnder anchorPx) :=
  ⟨h, ⟨rfl, rfl, rfl⟩, (Bound.push_of_met (h.pointUnder_met anchorPx)).symm⟩

theorem Zoomed.applyWheelZoom (h : v.Zoomed) (zoomDelta : ℚ) (pointerPx : Option ℚ) :
    let v' := v.applyWheelZoom zoomDelta pointerPx
    v'.Zoomed ∧ v.SameView v' ∧ v'.pointUnder (v.wheelAnchorPx pointerPx) =
      (Bound.atLeast (v.wheelAnchorPx pointerPx / v'.zoom)).push
        (v.pointUnder (v.wheelAnchorPx pointerPx)) := by
  unfold ViewerState.applyWheelZoom
  split
  · exact h.stays _
  · cases pointerPx <;> exact h.setZoomAnchored _ _

/-- Where the content fills the viewport, one point of it can be put under the anchor at any zoom. -/
theorem bound_met (h : v.Zoomed) (hanchor : 0 ≤ anchorPx ∧ anchorPx ≤ v.viewportSizePx.2)
    (hviewport : 0 < v.viewportSizePx.2) (hrange : 0 ≤ v.scrollRangePx) (event : WindowEvent) :
    (v.bound anchorPx event).Met (anchorPx * v.layout.contentHeightPt / v.viewportSizePx.2) := by
  have hfills : v.viewportSizePx.2 ≤ v.layout.contentHeightPt * v.zoom := sub_nonneg.1 hrange
  have hlow : anchorPx / v.zoom ≤ anchorPx * v.layout.contentHeightPt / v.viewportSizePx.2 := by
    rw [div_le_div_iff₀ h.pos hviewport, mul_assoc]
    exact mul_le_mul_of_nonneg_left hfills hanchor.1
  have hhigh : anchorPx * v.layout.contentHeightPt / v.viewportSizePx.2 ≤
      (v.scrollRangePx + anchorPx) / v.zoom := by
    rw [div_le_div_iff₀ hviewport h.pos]
    have hroom := mul_nonneg hrange (sub_nonneg.2 hanchor.2)
    unfold scrollRangePx at hroom ⊢
    linarith
  cases event <;> first | exact hhigh | exact hlow

end ViewerState

section Lopdf

variable [Lopdf] [Pdfium]

namespace OpdfApp

variable {app : OpdfApp} {anchorPx : ℚ}

/-- One event of a stretch of zooming moves the point under the anchor no further than it must. -/
theorem zoomed_handle (h : app.surfaces.viewer.Zoomed) {event : WindowEvent × Surroundings}
    (hevent : app.surfaces.viewer.ZoomsAbout anchorPx event.1)
    (hrange : 0 ≤ (app.handle event).surfaces.viewer.scrollRangePx) :
    let v := app.surfaces.viewer
    let v' := (app.handle event).surfaces.viewer
    v'.Zoomed ∧ v.SameView v' ∧
      v'.pointUnder anchorPx = (v'.bound anchorPx event.1).push (v.pointUnder anchorPx) := by
  obtain ⟨event, around⟩ := event
  cases hevent with
  | menu haction hanchor =>
    simp only [List.mem_cons, List.not_mem_nil, or_false] at haction
    rw [← hanchor]
    rcases haction with rfl | rfl | rfl <;> exact h.setZoomAnchored _ _
  | @wheel zoomDelta pointerPx hanchor =>
    rw [← hanchor]
    exact h.applyWheelZoom zoomDelta pointerPx
  | exchange pixelsPerPoint maxTextureSide =>
    have hviewer : (app.handle (.exchange pixelsPerPoint maxTextureSide, around)).surfaces.viewer =
        app.surfaces.viewer := by
      simp only [handle, Surfaces.step_exchange]
    simp only [hviewer]
    exact h.stays anchorPx
  | showRail maxTextureSide topPx heightPx => exact h.stays anchorPx
  | showCanvas pixelsPerPoint maxTextureSide hsettled hsize =>
    subst hsettled hsize
    have hcanvas : (app.handle (.showCanvas pixelsPerPoint maxTextureSide app.surfaces.viewer.settledPx
        app.surfaces.viewer.viewportSizePx, around)).surfaces.viewer =
        (showCanvas pixelsPerPoint maxTextureSide app.surfaces.viewer.settledPx
          app.surfaces.viewer.viewportSizePx app.surfaces.viewer app.surfaces.caches.canvas).1 := by
      simp only [handle, if_neg h.pages]
      rfl
    rw [hcanvas] at hrange ⊢
    exact h.showCanvas hrange pixelsPerPoint maxTextureSide _
  | syncFit =>
    have hviewer : (app.handle (.syncFit, around)).surfaces.viewer = app.surfaces.viewer := by
      simp [handle, modifyState, ViewerState.syncFitToViewport, ViewerState.fitIsStale, h.free]
    simp only [hviewer]
    exact h.stays anchorPx
  | work fault => exact h.stays anchorPx

/-! ### Whole stretches -/

/-- Events that zoom about one anchor, one after the other, none to a zoom at which the content does
not fill the viewport. -/
def ZoomsAbout (anchorPx : ℚ) : OpdfApp → List (WindowEvent × Surroundings) → Prop
  | _, [] => True
  | app, event :: events =>
    app.surfaces.viewer.ZoomsAbout anchorPx event.1 ∧
      0 ≤ (app.handle event).surfaces.viewer.scrollRangePx ∧ ZoomsAbout anchorPx (app.handle event) events

/-- After every event the offset that puts a point under the anchor is none above the content, and
where the canvas is drawn none the content does not reach to. -/
def HasRoomFor (pointPt anchorPx : ℚ) : OpdfApp → List (WindowEvent × Surroundings) → Prop
  | _, [] => True
  | app, event :: events =>
    let v := (app.handle event).surfaces.viewer
    (match event.1 with
      | .showCanvas .. => pointPt * v.zoom - anchorPx ≤ v.scrollRangePx
      | _ => 0 ≤ pointPt * v.zoom - anchorPx) ∧
    HasRoomFor pointPt anchorPx (app.handle event) events

/-- The bounds a stretch of zooming puts on the point under the anchor, one for each event. -/
def bounds (anchorPx : ℚ) : OpdfApp → List (WindowEvent × Surroundings) → List (Bound ℚ)
  | _, [] => []
  | app, event :: events =>
    (app.handle event).surfaces.viewer.bound anchorPx event.1 :: bounds anchorPx (app.handle event) events

/-- The viewport and the content stay as they are in a stretch of zooming, so one point has room
throughout, and the point under the anchor is pushed from bound to bound. -/
theorem zoomed_handleAll (h : app.surfaces.viewer.Zoomed)
    (hanchor : 0 ≤ anchorPx ∧ anchorPx ≤ app.surfaces.viewer.viewportSizePx.2)
    (hviewport : 0 < app.surfaces.viewer.viewportSizePx.2)
    {events : List (WindowEvent × Surroundings)} (hevents : app.ZoomsAbout anchorPx events) :
    let v := app.surfaces.viewer
    (app.handleAll events).surfaces.viewer.Zoomed ∧
      (∀ bound ∈ app.bounds anchorPx events,
        bound.Met (anchorPx * v.layout.contentHeightPt / v.viewportSizePx.2)) ∧
      (app.handleAll events).surfaces.viewer.pointUnder anchorPx =
        (app.bounds anchorPx events).foldl Bound.push (v.pointUnder anchorPx) := by
  induction events generalizing app with
  | nil => exact ⟨h, List.forall_mem_nil _, rfl⟩
  | cons event events ih =>
    obtain ⟨hevent, hrange, hrest⟩ := hevents
    obtain ⟨hzoomed, hsame, hpushed⟩ := zoomed_handle h hevent hrange
    rw [← hsame.viewport] at hanchor hviewport
    obtain ⟨hfinal, hmet, hpoint⟩ := ih hzoomed hanchor hviewport hrest
    have hfirst := ViewerState.bound_met hzoomed hanchor hviewport hrange event.1
    rw [hsame.layout, hsame.viewport] at hfirst hmet
    refine ⟨hfinal, List.forall_mem_cons.2 ⟨hfirst, hmet⟩, ?_⟩
    rw [bounds, List.foldl_cons, ← hpushed]
    exact hpoint

theorem hasRoomFor_iff {pointPt : ℚ} (h : app.surfaces.viewer.Zoomed)
    {events : List (WindowEvent × Surroundings)} (hevents : app.ZoomsAbout anchorPx events) :
    app.HasRoomFor pointPt anchorPx events ↔ ∀ bound ∈ app.bounds anchorPx events, bound.Met pointPt := by
  induction events generalizing app with
  | nil => exact iff_of_true trivial (List.forall_mem_nil _)
  | cons event events ih =>
    obtain ⟨hevent, hrange, hrest⟩ := hevents
    have hzoomed := (zoomed_handle h hevent hrange).1
    rw [bounds, List.forall_mem_cons, HasRoomFor, ih hzoomed hrest]
    refine and_congr_left fun _ => ?_
    have hlow : anchorPx / (app.handle event).surfaces.viewer.zoom ≤ pointPt ↔
        0 ≤ pointPt * (app.handle event).surfaces.viewer.zoom - anchorPx := by
      rw [div_le_iff₀ hzoomed.pos, sub_nonneg]
    have hhigh : pointPt ≤ ((app.handle event).surfaces.viewer.scrollRangePx + anchorPx) /
        (app.handle event).surfaces.viewer.zoom ↔
        pointPt * (app.handle event).surfaces.viewer.zoom - anchorPx ≤
          (app.handle event).surfaces.viewer.scrollRangePx := by
      rw [le_div_iff₀ hzoomed.pos, sub_le_iff_le_add]
    obtain ⟨event, around⟩ := event
    cases event <;> first | exact hhigh.symm | exact hlow.symm

/-- Over exact arithmetic, zooming about one anchor, in whatever steps and with whatever frames
between, ends with the document point that was under the anchor there again exactly if the scroll
range had room for it at every zoom passed through; so back at a zoom the document is scrolled as it
was. Once it did not, the point is lost. -/
theorem zooming_keeps_its_place_iff (app : OpdfApp) (anchorPx : ℚ)
    (events : List (WindowEvent × Surroundings)) (h : app.surfaces.viewer.Zoomed)
    (hanchor : 0 ≤ anchorPx ∧ anchorPx ≤ app.surfaces.viewer.viewportSizePx.2)
    (hviewport : 0 < app.surfaces.viewer.viewportSizePx.2)
    (hevents : app.ZoomsAbout anchorPx events) :
    (app.handleAll events).surfaces.viewer.scrollOffsetPx =
        app.surfaces.viewer.pointUnder anchorPx * (app.handleAll events).surfaces.viewer.zoom - anchorPx ↔
      app.HasRoomFor (app.surfaces.viewer.pointUnder anchorPx) anchorPx events := by
  obtain ⟨hfinal, hmet, hpoint⟩ := zoomed_handleAll h hanchor hviewport hevents
  rw [hasRoomFor_iff h hevents, ← Bound.pushes_eq_self_iff hmet, ← hpoint, hfinal.offset_eq_iff]

end OpdfApp
end Lopdf

namespace ZoomSession

def app [Lopdf] : OpdfApp :=
  (OpdfApp.new ((openSyntheticDocument 1 4).toOption.get rfl)).modifyState fun v =>
    { v with viewportSizePx := (800, 600) }

def events : List (WindowEvent × Surroundings) :=
  [.action .zoomIn, .showCanvas 1 8192 75 (800, 600), .action .zoomOut,
    .showCanvas 1 8192 0 (800, 600)].map (·, FailedCompaction.around)

end ZoomSession

open scoped ReferenceLopdf BlankPdfium in
open ZoomSession in
/-- Zoomed in and back out, four pages are scrolled to the top again. -/
theorem back_at_the_top : (app.handleAll events).surfaces.viewer.scrollOffsetPx =
    app.surfaces.viewer.pointUnder 300 * (app.handleAll events).surfaces.viewer.zoom - 300 :=
  (OpdfApp.zooming_keeps_its_place_iff app 300 events
    ⟨by decide +kernel, by decide +kernel, by decide +kernel, by decide +kernel⟩
    ⟨by decide +kernel, by decide +kernel⟩ (by decide +kernel)
    ⟨.menu List.mem_cons_self (by decide +kernel), by decide +kernel,
      .showCanvas 1 8192 (by decide +kernel) (by decide +kernel), by decide +kernel,
      .menu (by decide) (by decide +kernel), by decide +kernel,
      .showCanvas 1 8192 (by decide +kernel) (by decide +kernel), by decide +kernel, trivial⟩).2
    ⟨by decide +kernel, by decide +kernel, by decide +kernel, by decide +kernel, trivial⟩

end OpdfEditor
