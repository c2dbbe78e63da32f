import OpdfEditor.LayoutScan
import OpdfEditor.ZoomRuns

/-!
Going from page to page. The page the user asked for stays the current one, which page actions act
on, exactly as long as every page shows more of itself than its neighbours where the scroll area
comes to rest.
-/
namespace OpdfEditor

/-! ### How pages are stacked -/

section Stacking

variable {contentWidthPt gapPt : ℚ}

/-- Pages share nothing, and the stack ends below the last of them. -/
theorem placePages_apart (hgap : 0 ≤ gapPt) (pages : List PageInfo)
    (hpages : ∀ page ∈ pages, 0 < displayHeight page) (index : Nat) (cursorPt : ℚ) :
    (placePages contentWidthPt gapPt index cursorPt pages).1.Pairwise
      fun a b => a.bottomPt + gapPt ≤ b.topPt := by
  induction pages generalizing index cursorPt with
  | nil => exact List.Pairwise.nil
  | cons page pages ih =>
    have hrest := fun later hlater => hpages later (List.mem_cons_of_mem page hlater)
    refine List.Pairwise.cons (fun placement hmem => ?_) (ih hrest _ _)
    have htop := (placePages_top_ge hgap pages hrest _ _ placement hmem).1
    unfold PagePlacement.bottomPt
    dsimp only
    linarith

theorem placePages_bottom_le (hgap : 0 ≤ gapPt) (pages : List PageInfo)
    (hpages : ∀ page ∈ pages, 0 < displayHeight page) (index : Nat) (cursorPt : ℚ) :
    cursorPt ≤ (placePages contentWidthPt gapPt index cursorPt pages).2 ∧
    ∀ placement ∈ (placePages contentWidthPt gapPt index cursorPt pages).1,
      placement.bottomPt + gapPt ≤ (placePages contentWidthPt gapPt index cursorPt pages).2 := by
  induction pages generalizing index cursorPt with
  | nil => exact ⟨le_refl _, List.forall_mem_nil _⟩
  | cons page pages ih =>
    have hheight := hpages page List.mem_cons_self
    obtain ⟨hcursor, hbottoms⟩ := ih (fun later hlater => hpages later (List.mem_cons_of_mem page hlater))
      (index + 1) (cursorPt + (displayHeight page + gapPt))
    refine ⟨by rw [placePages]; dsimp only; linarith, fun placement hmem => ?_⟩
    rcases List.mem_cons.1 hmem with rfl | hmem
    · unfold PagePlacement.bottomPt
      rw [placePages]
      dsimp only
      linarith
    · exact hbottoms placement hmem

end Stacking

/-- What every layout of pages with some height has: nothing shared between two pages, and all of
them within the content. -/
structure StackedApart (layout : DocumentLayout) : Prop extends Stacked layout where
  apart : layout.placements.Pairwise fun a b => a.bottomPt ≤ b.topPt
  within : ∀ placement ∈ layout.placements,
    0 ≤ placement.topPt ∧ placement.topPt < placement.bottomPt ∧
      placement.bottomPt ≤ layout.contentHeightPt

theorem stackedApart_layOut {snapshot : DocumentSnapshot}
    (hpages : ∀ page ∈ snapshot.pages, 0 < displayHeight page) :
    StackedApart (ViewerState.layOut snapshot) := by
  have hgap : 0 ≤ pageGapPt := by norm_num [pageGapPt]
  have hmargin : 0 ≤ canvasMarginPt := by norm_num [canvasMarginPt]
  refine ⟨stacked_computeDocumentLayout canvasMarginPt hgap hpages, ?_, ?_⟩
  all_goals unfold ViewerState.layOut computeDocumentLayout
  all_goals split
  · exact List.Pairwise.nil
  · exact (placePages_apart hgap _ hpages _ _).imp fun h => (le_add_of_nonneg_right hgap).trans h
  · exact List.forall_mem_nil _
  · intro placement hmem
    obtain ⟨htop, hheight⟩ := placePages_top_ge hgap _ hpages _ _ placement hmem
    have hbottom := (placePages_bottom_le hgap _ hpages _ _).2 placement hmem
    refine ⟨hmargin.trans htop, lt_add_of_pos_right _ hheight, ?_⟩
    dsimp only
    linarith

/-- The page that shows most of itself, told by its position. -/
theorem EarliestMost.at_position {topPt bottomPt : ℚ} {placements : List PagePlacement}
    {current : PagePlacement} {position : Nat}
    (h : EarliestMost topPt bottomPt placements current position) :
    placements[position]? = some current ∧ ∀ i other, placements[i]? = some other →
      (i < position → coveredPt topPt bottomPt other < coveredPt topPt bottomPt current) ∧
        (position < i → coveredPt topPt bottomPt other ≤ coveredPt topPt bottomPt current) := by
  obtain ⟨before, after, rfl, rfl, -, hbefore, hafter⟩ := h
  refine ⟨by simp, fun i other hother => ⟨fun hearlier => ?_, fun hlater => ?_⟩⟩
  · rw [List.getElem?_append_left hearlier] at hother
    exact hbefore other (List.mem_of_getElem? hother)
  · obtain ⟨k, rfl⟩ := Nat.exists_eq_add_of_lt hlater
    rw [List.getElem?_append_right (by omega), show before.length + k + 1 - before.length = k + 1 by omega,
      List.getElem?_cons_succ] at hother
    exact hafter other (List.mem_of_getElem? hother)

/-! ### Where a page is shown -/

namespace ViewerState

/-- Where the scroll area comes to rest when it is asked to show a page at the top. -/
def pageOffsetPx (v : ViewerState) (placement : PagePlacement) : ℚ :=
  max 0 (min (placement.topPt * v.zoom) v.scrollRangePx)

/-- The document point at the top of the viewport then. -/
def pageViewPt (v : ViewerState) (placement : PagePlacement) : ℚ := v.pageOffsetPx placement / v.zoom

/-- How much of a page is shown when another is asked for. -/
def shownPt (v : ViewerState) (asked placement : PagePlacement) : ℚ :=
  coveredPt (v.pageViewPt asked) (v.pageViewPt asked + v.viewportSizePx.2 / v.zoom) placement

/-- Asked for, the page shows more than any page before it, and no less than any page after it. -/
def KeepsPage (v : ViewerState) (index : Nat) : Prop :=
  ∀ asked, v.layout.placement index = some asked → ∀ i other, v.layout.placement i = some other →
    (i < index → v.shownPt asked other < v.shownPt asked asked) ∧
      (index < i → v.shownPt asked other ≤ v.shownPt asked asked)

/-- A viewer of a document laid out, in a viewport with some height, at a zoom of the user's own. -/
structure Browsing (v : ViewerState) : Prop where
  zoom : clampZoom v.zoom = v.zoom
  free : v.fitMode = .free
  viewport : 0 < v.viewportSizePx.2
  laidOut : v.layout = layOut v.snapshot
  heights : ∀ page ∈ v.snapshot.pages, 0 < displayHeight page
  pages : v.snapshot.pages ≠ []

variable {v : ViewerState}

namespace Browsing

theorem pos (h : v.Browsing) : 0 < v.zoom := h.zoom ▸ clampZoom_pos v.zoom

theorem stackedApart (h : v.Browsing) : StackedApart v.layout := h.laidOut ▸ stackedApart_layOut h.heights

theorem length (h : v.Browsing) : v.layout.placements.length = v.pageCount := by
  rw [h.laidOut]
  exact computeDocumentLayout_length _ _ _

theorem exists_placement (h : v.Browsing) {index : Nat} (hindex : index < v.pageCount) :
    ∃ asked, v.layout.placement index = some asked :=
  ⟨_, List.getElem?_eq_getElem (h.length.symm ▸ hindex)⟩

theorem viewPt_le (h : v.Browsing) {placement : PagePlacement} (hmem : placement ∈ v.layout.placements) :
    v.pageViewPt placement ≤ placement.topPt := by
  have htop := (h.stackedApart.within placement hmem).1
  rw [pageViewPt, div_le_iff₀ h.pos]
  exact max_le (mul_nonneg htop h.pos.le) (min_le_left _ _)

/-- The viewport reaches down past the top of the page asked for. -/
theorem top_lt (h : v.Browsing) {placement : PagePlacement} (hmem : placement ∈ v.layout.placements) :
    placement.topPt < v.pageViewPt placement + v.viewportSizePx.2 / v.zoom := by
  obtain ⟨-, htop, hbottom⟩ := h.stackedApart.within placement hmem
  rw [pageViewPt, ← add_div, lt_div_iff₀ h.pos]
  have hlow : min (placement.topPt * v.zoom) v.scrollRangePx ≤ v.pageOffsetPx placement := le_max_right _ _
  have hcontent : placement.topPt * v.zoom < v.layout.contentHeightPt * v.zoom :=
    mul_lt_mul_of_pos_right (htop.trans_le hbottom) h.pos
  have hviewport := h.viewport
  rcases le_total (placement.topPt * v.zoom) v.scrollRangePx with hreaches | hclamps
  · rw [min_eq_left hreaches] at hlow
    linarith
  · rw [min_eq_right hclamps, scrollRangePx] at hlow
    linarith

theorem shownPt_pos (h : v.Browsing) {placement : PagePlacement} (hmem : placement ∈ v.layout.placements) :
    0 < v.shownPt placement placement := by
  have htop := (h.stackedApart.within placement hmem).2.1
  rw [shownPt, coveredPt, max_eq_left (h.viewPt_le hmem), sub_pos]
  exact lt_min htop (h.top_lt hmem)

/-- Where a page at least as high as the viewport is asked for, the viewport shows nothing else. -/
theorem keepsPage_of_fills (h : v.Browsing)
    (hfills : ∀ placement ∈ v.layout.placements, v.viewportSizePx.2 ≤ placement.heightPt * v.zoom)
    (index : Nat) : v.KeepsPage index := by
  intro asked hasked i other hother
  have hmem : asked ∈ v.layout.placements := List.mem_of_getElem? hasked
  obtain ⟨htop, -, hbottom⟩ := h.stackedApart.within asked hmem
  have hheight : v.viewportSizePx.2 / v.zoom ≤ asked.heightPt := by
    rw [div_le_iff₀ h.pos]
    exact hfills asked hmem
  have hreaches : asked.topPt * v.zoom ≤ v.scrollRangePx := by
    have hcontent := mul_le_mul_of_nonneg_right hbottom h.pos.le
    have hfill := hfills asked hmem
    rw [PagePlacement.bottomPt, add_mul] at hcontent
    rw [scrollRangePx]
    linarith
  have hview : v.pageViewPt asked = asked.topPt := by
    rw [pageViewPt, pageOffsetPx, min_eq_left hreaches, max_eq_right (mul_nonneg htop h.pos.le),
      mul_div_cancel_right₀ _ h.pos.ne']
  have hshown : v.shownPt asked asked = v.viewportSizePx.2 / v.zoom := by
    rw [shownPt, coveredPt, hview, max_self, PagePlacement.bottomPt, min_eq_right (by linarith)]
    ring
  have hpositive : 0 < v.viewportSizePx.2 / v.zoom := div_pos h.viewport h.pos
  rw [hshown]
  refine ⟨fun hearlier => ?_, fun _ => ?_⟩
  · obtain ⟨hindex, rfl⟩ := List.getElem?_eq_some_iff.1 hasked
    obtain ⟨hi, rfl⟩ := List.getElem?_eq_some_iff.1 hother
    have habove := List.pairwise_iff_getElem.1 h.stackedApart.apart i index hi hindex hearlier
    rw [shownPt, coveredPt, hview]
    have hlow := min_le_left (v.layout.placements[i].bottomPt)
      (v.layout.placements[index].topPt + v.viewportSizePx.2 / v.zoom)
    have hhigh := le_max_right (v.layout.placements[i].topPt) (v.layout.placements[index].topPt)
    linarith
  · rw [shownPt, coveredPt, hview]
    have hlow := min_le_right other.bottomPt (asked.topPt + v.viewportSizePx.2 / v.zoom)
    have hhigh := le_max_right other.topPt asked.topPt
    linarith

/-- Drawn where the scroll area comes to rest, the page asked for is the current one exactly if it
keeps it. -/
theorem findCurrentPage_iff (h : v.Browsing) {index : Nat} {asked : PagePlacement}
    (hasked : v.layout.placement index = some asked) :
    findCurrentPage v.layout (v.pageViewPt asked) (v.viewportSizePx.2 / v.zoom) = some index ↔
      v.KeepsPage index := by
  have hmem : asked ∈ v.layout.placements := List.mem_of_getElem? hasked
  obtain ⟨position, hfound, -, ⟨current, hmost⟩ | ⟨hnone, -⟩⟩ :=
    h.stackedApart.findCurrentPage_spec (List.ne_nil_of_mem hmem) (v.pageViewPt asked)
      (v.viewportSizePx.2 / v.zoom)
  swap
  · exact absurd (hnone asked hmem) (not_le.2 (h.shownPt_pos hmem))
  obtain ⟨hcurrent, hbest⟩ := hmost.at_position
  rw [hfound]
  constructor
  · rintro hsame asked' hasked' i other hother
    obtain rfl : position = index := Option.some.inj hsame
    obtain rfl : asked = asked' := Option.some.inj (hasked.symm.trans hasked')
    obtain rfl : asked = current := Option.some.inj (hasked.symm.trans hcurrent)
    exact hbest i other hother
  · intro hkeeps
    refine congrArg some (Nat.le_antisymm (not_lt.1 fun hlater => ?_) (not_lt.1 fun hearlier => ?_))
    · exact absurd ((hkeeps asked hasked position current hcurrent).2 hlater)
        (not_le.2 ((hbest index asked hasked).1 hlater))
    · exact absurd ((hkeeps asked hasked position current hcurrent).1 hearlier)
        (not_lt.2 ((hbest index asked hasked).2 hearlier))

end Browsing
/-! ### One step -/

/-- The pages stay where they are, at the same zoom in the same viewport. -/
structure SameStack (v v' : ViewerState) : Prop where
  snapshot : v'.snapshot = v.snapshot
  layout : v'.layout = v.layout
  zoom : v'.zoom = v.zoom
  viewport : v'.viewportSizePx = v.viewportSizePx
  fitMode : v'.fitMode = v.fitMode

/-- The viewer has gone to a page, and the scroll area rests there or will. -/
structure Reads (v v' : ViewerState) (index : Nat) : Prop extends SameStack v v' where
  within : index < v.pageCount
  current : v'.currentPage = some index
  rests : ∀ asked, v.layout.placement index = some asked → v'.settledPx = v.pageOffsetPx asked

variable {v' : ViewerState} {index : Nat}

theorem SameStack.scrollRangePx (h : v.SameStack v') : v'.scrollRangePx = v.scrollRangePx := by
  rw [ViewerState.scrollRangePx, ViewerState.scrollRangePx, h.layout, h.zoom, h.viewport]

theorem Browsing.scrollToPage_eq (h : v.Browsing) (hsame : v.SameStack v') {asked : PagePlacement}
    (hasked : v.layout.placement index = some asked) : v'.scrollToPage index 0 =
      { v' with
        scrollOffsetPx := asked.topPt * v.zoom
        scrollRequestPx := some (asked.topPt * v.zoom)
        currentPage := some index } := by
  have htop := (h.stackedApart.within asked (List.mem_of_getElem? hasked)).1
  have htarget : findScrollTarget v'.layout index 0 = some asked.topPt := by
    rw [findScrollTarget, hsame.layout, hasked, Option.map_some, sub_zero, max_eq_left htop]
  unfold scrollToPage
  rw [htarget]
  dsimp only
  rw [hsame.zoom, h.zoom]

/-- Asking for a page there is goes to it. -/
theorem Browsing.goTo (h : v.Browsing) (hsame : v.SameStack v') (hindex : index < v.pageCount) :
    v.Reads (v'.scrollToPage index 0) index := by
  obtain ⟨first, hasked⟩ := h.exists_placement hindex
  have hstack : v.SameStack (v'.scrollToPage index 0) := by
    rw [h.scrollToPage_eq hsame hasked]
    exact ⟨hsame.snapshot, hsame.layout, hsame.zoom, hsame.viewport, hsame.fitMode⟩
  refine ⟨hstack, hindex, by rw [h.scrollToPage_eq hsame hasked], fun asked hsome => ?_⟩
  rw [settledPx, hstack.scrollRangePx, h.scrollToPage_eq hsame hsome, pageOffsetPx]

theorem scrollToPage_beyond (h : v.Browsing) (hsame : v.SameStack v') (hindex : v.pageCount ≤ index) :
    v'.scrollToPage index 0 = v' := by
  rw [← h.length] at hindex
  unfold scrollToPage findScrollTarget DocumentLayout.placement
  rw [hsame.layout, List.getElem?_eq_none hindex]
  rfl

/-- At rest the scroll area stays. -/
theorem settle_settle (offsetPx rangePx : ℚ) :
    max 0 (min (max 0 (min offsetPx rangePx)) rangePx) = max 0 (min offsetPx rangePx) := by
  rcases le_total 0 rangePx with hrange | hrange
  · rw [min_eq_left (max_le hrange (min_le_right _ _)), max_eq_right (le_max_left _ _)]
  · rw [max_eq_left ((min_le_right _ _).trans hrange), max_eq_left ((min_le_right _ _).trans hrange)]

/-- A frame drawn where the scroll area comes to rest finds the page asked for exactly if it keeps
it. -/
theorem Reads.drawn_iff (h : v.Browsing) (hreads : v.Reads v' index) (pixelsPerPoint : ℚ)
    (maxTextureSide : Nat) (cache : TextureCache) :
    let drawn := (showCanvas pixelsPerPoint maxTextureSide v'.settledPx v'.viewportSizePx v' cache).1
    drawn.currentPage = some index ↔ v.KeepsPage index := by
  obtain ⟨asked, hasked⟩ := h.exists_placement hreads.within
  have hzoom : clampZoom v'.zoom = v.zoom := by rw [hreads.zoom, h.zoom]
  have hcurrent : (showCanvas pixelsPerPoint maxTextureSide v'.settledPx v'.viewportSizePx v' cache).1.currentPage =
      findCurrentPage v.layout (v.pageViewPt asked)
        (v.viewportSizePx.2 / v.zoom) := by
    simp only [showCanvas, refreshCurrentPage, hzoom, hreads.layout, hreads.viewport, pageViewPt,
      hreads.rests _ hasked]
  intro drawn
  rw [show drawn.currentPage = _ from hcurrent]
  exact h.findCurrentPage_iff hasked

theorem Reads.showCanvas (h : v.Browsing) (hreads : v.Reads v' index) (hkeeps : v.KeepsPage index)
    (pixelsPerPoint : ℚ) (maxTextureSide : Nat) (cache : TextureCache) :
    v.Reads (showCanvas pixelsPerPoint maxTextureSide v'.settledPx v'.viewportSizePx v' cache).1 index := by
  refine ⟨⟨hreads.snapshot, hreads.layout, hreads.zoom, hreads.viewport, hreads.fitMode⟩, hreads.within,
    (hreads.drawn_iff h pixelsPerPoint maxTextureSide cache).2 hkeeps, fun asked hasked => ?_⟩
  rw [← hreads.rests asked hasked]
  exact settle_settle _ _

/-- The user goes to another page, or part of a frame happens in which the viewport keeps its size
and the scroll area goes where it is asked to, as far as it can. -/
inductive Navigates (v : ViewerState) : WindowEvent → Prop
  | page {action : MenuAction} (haction : action ∈ [.firstPage, .lastPage, .nextPage, .previousPage]) :
      Navigates v (.action action)
  | jumpToPage (index : Nat) : Navigates v (.jumpToPage index)
  | clickThumbnail (index : Nat) : Navigates v (.clickThumbnail index)
  | exchange (pixelsPerPoint : ℚ) (maxTextureSide : Nat) :
      Navigates v (.exchange pixelsPerPoint maxTextureSide)
  | showRail (maxTextureSide : Nat) (topPx heightPx : ℚ) :
      Navigates v (.showRail maxTextureSide topPx heightPx)
  | showCanvas (pixelsPerPoint : ℚ) (maxTextureSide : Nat) {offsetPx : ℚ} {sizePx : ℚ × ℚ}
      (hsettled : v.settledPx = offsetPx) (hsize : v.viewportSizePx = sizePx) :
      Navigates v (.showCanvas pixelsPerPoint maxTextureSide offsetPx sizePx)
  | syncFit : Navigates v .syncFit
  | work (fault : Option String) : Navigates v (.work fault)

end ViewerState

/-- Where a user who counts pages takes himself to be. -/
def cursorAfter (pageCount cursor : Nat) : WindowEvent → Nat
  | .action .firstPage => 0
  | .action .lastPage => pageCount - 1
  | .action .nextPage => min (cursor + 1) (pageCount - 1)
  | .action .previousPage => cursor - 1
  | .jumpToPage index | .clickThumbnail index => if index < pageCount then index else cursor
  | _ => cursor

section Lopdf

variable [Lopdf] [Pdfium]

namespace OpdfApp

open ViewerState (Browsing Reads Navigates KeepsPage)

variable {app : OpdfApp} {v : ViewerState} {index : Nat}

/-- Where every page is kept, an event takes the viewer where the cursor goes. -/
theorem reads_handle (h : v.Browsing) (hkeeps : ∀ i < v.pageCount, v.KeepsPage i)
    (hreads : v.Reads app.surfaces.viewer index) (event : WindowEvent × Surroundings)
    (hevent : app.surfaces.viewer.Navigates event.1) :
    v.Reads (app.handle event).surfaces.viewer (cursorAfter v.pageCount index event.1) := by
  obtain ⟨event, around⟩ := event
  have hcount : app.surfaces.viewer.pageCount = v.pageCount := by
    rw [ViewerState.pageCount, ViewerState.pageCount, hreads.snapshot]
  have hindex := hreads.within
  have hjump : ∀ i, v.Reads (app.surfaces.viewer.scrollToPage i 0) (if i < v.pageCount then i else index) := by
    intro i
    split
    · exact h.goTo hreads.toSameStack ‹_›
    · rw [ViewerState.scrollToPage_beyond h hreads.toSameStack (not_lt.1 ‹_›)]
      exact hreads
  cases hevent with
  | page haction =>
    simp only [List.mem_cons, List.not_mem_nil, or_false] at haction
    rcases haction with rfl | rfl | rfl | rfl
    all_goals
      simp only [handle, applyAction, modifyState, applyViewAction, hreads.current, hcount,
        Option.getD_some, cursorAfter]
      exact h.goTo hreads.toSameStack (by omega)
  | jumpToPage i => exact hjump i
  | clickThumbnail i => exact hjump i
  | exchange pixelsPerPoint maxTextureSide =>
    simp only [handle, Surfaces.step_exchange]
    exact hreads
  | showRail maxTextureSide topPx heightPx => exact hreads
  | showCanvas pixelsPerPoint maxTextureSide hsettled hsize =>
    subst hsettled hsize
    have hpages : app.surfaces.viewer.pageCount ≠ 0 := by omega
    simp only [handle, if_neg hpages]
    exact hreads.showCanvas h (hkeeps index hindex) pixelsPerPoint maxTextureSide
      app.surfaces.caches.canvas
  | syncFit =>
    have hfree : app.surfaces.viewer.fitMode = .free := hreads.fitMode.trans h.free
    have hsame : app.handle (.syncFit, around) = app := by
      simp [handle, modifyState, ViewerState.syncFitToViewport, ViewerState.fitIsStale, hfree]
    rw [hsame]
    exact hreads
  | work fault => exact hreads

def NavigatesAlong : OpdfApp → List (WindowEvent × Surroundings) → Prop
  | _, [] => True
  | app, event :: events =>
    app.surfaces.viewer.Navigates event.1 ∧ NavigatesAlong (app.handle event) events

theorem reads_handleAll (h : v.Browsing) (hkeeps : ∀ i < v.pageCount, v.KeepsPage i)
    (hreads : v.Reads app.surfaces.viewer index) {events : List (WindowEvent × Surroundings)}
    (hevents : app.NavigatesAlong events) :
    v.Reads (app.handleAll events).surfaces.viewer
      (events.foldl (fun cursor event => cursorAfter v.pageCount cursor event.1) index) := by
  induction events generalizing app index with
  | nil => exact hreads
  | cons event events ih => exact ih (reads_handle h hkeeps hreads event hevents.1) hevents.2

theorem reads_jump (h : app.surfaces.viewer.Browsing) (hindex : index < app.surfaces.viewer.pageCount)
    (around : Surroundings) :
    app.surfaces.viewer.Reads (app.handle (.jumpToPage index, around)).surfaces.viewer index :=
  h.goTo ⟨rfl, rfl, rfl, rfl, rfl⟩ hindex

/-- Over exact arithmetic, going from page to page in whatever steps, with whatever frames between,
the page that is current, and that deleting or turning a page acts on, is always the one the user
counts himself to be on, exactly if every page shows more than those before it and no less than those
after it where the scroll area comes to rest. Where each page fills the viewport that is so. -/
theorem navigation_follows_cursor_iff (app : OpdfApp) (h : app.surfaces.viewer.Browsing)
    (around : Surroundings) :
    ((∀ start < app.surfaces.viewer.pageCount, ∀ events,
        (app.handle (.jumpToPage start, around)).NavigatesAlong events →
        ((app.handle (.jumpToPage start, around)).handleAll events).surfaces.viewer.currentPage =
          some (events.foldl
            (fun cursor event => cursorAfter app.surfaces.viewer.pageCount cursor event.1) start)) ↔
      ∀ index < app.surfaces.viewer.pageCount, app.surfaces.viewer.KeepsPage index) ∧
    ((∀ placement ∈ app.surfaces.viewer.layout.placements,
        app.surfaces.viewer.viewportSizePx.2 ≤ placement.heightPt * app.surfaces.viewer.zoom) →
      ∀ index, app.surfaces.viewer.KeepsPage index) := by
  refine ⟨⟨fun hfollows index hindex => ?_, fun hkeeps start hstart events hevents => ?_⟩,
    fun hfills => h.keepsPage_of_fills hfills⟩
  · have hreads := reads_jump h hindex around
    let jumped := app.handle (.jumpToPage index, around)
    have hpages : jumped.surfaces.viewer.pageCount ≠ 0 := by
      have hcount : jumped.surfaces.viewer.pageCount = app.surfaces.viewer.pageCount := by
        rw [ViewerState.pageCount, ViewerState.pageCount, hreads.snapshot]
      omega
    have hcurrent := hfollows index hindex
      [(.showCanvas 1 1 jumped.surfaces.viewer.settledPx jumped.surfaces.viewer.viewportSizePx, around)]
      ⟨.showCanvas 1 1 rfl rfl, trivial⟩
    have hdrawn : (jumped.handle (.showCanvas 1 1 jumped.surfaces.viewer.settledPx
        jumped.surfaces.viewer.viewportSizePx, around)).surfaces.viewer =
        (showCanvas 1 1 jumped.surfaces.viewer.settledPx jumped.surfaces.viewer.viewportSizePx
          jumped.surfaces.viewer jumped.surfaces.caches.canvas).1 := by
      simp only [handle, if_neg hpages]
      rfl
    refine (hreads.drawn_iff h 1 1 jumped.surfaces.caches.canvas).1 ?_
    exact (congrArg ViewerState.currentPage hdrawn).symm.trans hcurrent
  · exact (reads_handleAll h hkeeps (reads_jump h hstart around) hevents).current

end OpdfApp
end Lopdf

namespace PageTurns

def app [Lopdf] : OpdfApp :=
  ZoomSession.app.modifyState fun v => { v with viewportSizePx := (800, 400) }

def events : List (WindowEvent × Surroundings) :=
  [.action .nextPage, .showCanvas 1 8192 876 (800, 400), .action .lastPage,
    .showCanvas 1 8192 2308 (800, 400), .action .previousPage].map (·, FailedCompaction.around)

open scoped ReferenceLopdf BlankPdfium in
theorem browsing_app : app.surfaces.viewer.Browsing where
  zoom := by decide +kernel
  free := by decide +kernel
  viewport := by decide +kernel
  laidOut := rfl
  heights := by decide +kernel
  pages := by decide +kernel

end PageTurns

open scoped ReferenceLopdf BlankPdfium in
open PageTurns in
/-- Four pages, each taller than the viewport: the user is on the third, and so is the viewer. -/
theorem third_of_four_is_current :
    ((app.handle (.jumpToPage 0, FailedCompaction.around)).handleAll events).surfaces.viewer.currentPage =
      some 2 := by
  have hnavigation := OpdfApp.navigation_follows_cursor_iff app browsing_app FailedCompaction.around
  refine hnavigation.1.2 (fun index _ => hnavigation.2 (by decide +kernel) index) 0 (by decide +kernel)
    events ?_
  exact ⟨.page (by decide), .showCanvas 1 8192 (by decide +kernel) (by decide +kernel),
    .page (by decide), .showCanvas 1 8192 (by decide +kernel) (by decide +kernel),
    .page (by decide), trivial⟩

end OpdfEditor
