import OpdfEditor.Layout
import OpdfEditor.Zoom
import OpdfEditor.TileCache

/-!
What the viewer knows between frames, which pages it asks the render service for,
and the one function that talks to that service.
-/
namespace OpdfEditor

/-! ### Planning a frame's requests -/

def maxSubmissionsPerFrame : Nat := 8

structure RequestPlan where
  requests : List RenderRequest
  skipped : Nat

/-- How a frame wants its pages rasterized. -/
structure RenderSettings where
  renderScale : ℚ
  viewRotation : Rotation
  maxTextureSide : Nat

/-- The scale to ask for when rasterizing a page. -/
def RenderSettings.scaleForPage (settings : RenderSettings) (page : PageInfo) : ℚ :=
  fitRenderScaleToTextureLimit settings.renderScale (displayWidth page) (displayHeight page)
    settings.maxTextureSide

/-- Distance from the focus, and the later page first where two are as far: the pair of both,
ordered as one number. -/
def focusKey (focus index : Nat) : Nat :=
  2 * (max index focus - min index focus) + if index < focus then 1 else 0

/-- Visible pages nearest the focus first. -/
def orderByDistanceFromFocus (visible : IndexRange) (focus : Nat) : List Nat :=
  visible.indices.insertionSort fun a b => focusKey focus a ≤ focusKey focus b

def requestPage (snapshot : DocumentSnapshot) (settings : RenderSettings) (page : PageInfo) :
    Option RenderRequest :=
  (RenderRequest.new snapshot.document page.id snapshot.revision (settings.scaleForPage page)).toOption.map
    (RenderRequest.withRotation settings.viewRotation)

def planPage (snapshot : DocumentSnapshot) (settings : RenderSettings)
    (isWanted : RenderRequest → Bool) (budget : Nat) (plan : RequestPlan) (index : Nat) : RequestPlan :=
  match snapshot.pages[index]? with
  | none => plan
  | some page =>
    match requestPage snapshot settings page with
    | none => plan
    | some request =>
      if !isWanted request then plan
      else if plan.requests.length ≥ budget then { plan with skipped := plan.skipped + 1 }
      else { plan with requests := plan.requests ++ [request] }

/-- The requests a frame should submit. Planning records nothing. -/
def planRenderRequests (snapshot : DocumentSnapshot) (visible : IndexRange) (focus : Nat)
    (settings : RenderSettings) (isWanted : RenderRequest → Bool) (budget : Nat) : RequestPlan :=
  (orderByDistanceFromFocus visible focus).foldl (planPage snapshot settings isWanted budget) ⟨[], 0⟩

/-- A request made for some page of a snapshot. -/
def RequestsPage (snapshot : DocumentSnapshot) (request : RenderRequest) : Prop :=
  request.document = snapshot.document ∧ request.revision = snapshot.revision ∧
    ∃ page ∈ snapshot.pages, request.page = page.id

theorem requestsPage_of_requestPage {snapshot : DocumentSnapshot} {settings : RenderSettings}
    {page : PageInfo} {request : RenderRequest} (hpage : page ∈ snapshot.pages)
    (h : requestPage snapshot settings page = some request) : RequestsPage snapshot request := by
  unfold requestPage at h
  cases hnew : RenderRequest.new snapshot.document page.id snapshot.revision
      (settings.scaleForPage page) with
  | error e =>
    rw [hnew] at h
    cases h
  | ok plain =>
    obtain ⟨hpos, rfl⟩ := RenderRequest.new_eq_ok.1 hnew
    rw [hnew] at h
    cases h
    exact ⟨rfl, rfl, page, hpage, rfl⟩

/-- Everything planned is a wanted request for a page of the snapshot. -/
theorem planRenderRequests_requests {snapshot : DocumentSnapshot} {visible : IndexRange}
    {focus : Nat} {settings : RenderSettings} {isWanted : RenderRequest → Bool} {budget : Nat} :
    ∀ request ∈ (planRenderRequests snapshot visible focus settings isWanted budget).requests,
      RequestsPage snapshot request ∧ isWanted request = true := by
  have hstep : ∀ (indices : List Nat) (plan : RequestPlan),
      (∀ request ∈ plan.requests, RequestsPage snapshot request ∧ isWanted request = true) →
      ∀ request ∈ (indices.foldl (planPage snapshot settings isWanted budget) plan).requests,
        RequestsPage snapshot request ∧ isWanted request = true := by
    intro indices
    induction indices with
    | nil => exact fun _ h => h
    | cons index indices ih =>
      intro plan hplan
      refine ih _ ?_
      unfold planPage
      split
      · exact hplan
      rename_i page hpage
      split
      · exact hplan
      rename_i request hrequest
      split
      · exact hplan
      rename_i hwanted
      split
      · exact hplan
      · intro request' hrequest'
        rcases List.mem_append.1 hrequest' with hold | hnew
        · exact hplan request' hold
        · obtain rfl := List.mem_singleton.1 hnew
          exact ⟨requestsPage_of_requestPage (List.mem_of_getElem? hpage) hrequest,
            by simpa using hwanted⟩
  exact hstep _ _ (by simp)

/-! ### The viewer's state -/

def overscanScreens : ℚ := 1 / 2

/-- How much the viewport must change before a fit mode is reapplied. -/
def fitViewportTolerancePx : ℚ := 4

/-- Vertical gap between pages, and margin above the first and below the last. -/
def pageGapPt : ℚ := 14

def canvasMarginPt : ℚ := 20

inductive FitMode where
  | free | width | page
  deriving DecidableEq

structure ViewerState where
  snapshot : DocumentSnapshot
  layout : DocumentLayout
  currentPage : Option Nat
  fittedViewportPx : ℚ × ℚ
  zoom : ℚ
  scrollOffsetPx : ℚ
  viewportSizePx : ℚ × ℚ
  fitMode : FitMode
  viewRotation : Rotation
  railVisible : Bool
  scrollRequestPx : Option ℚ

namespace ViewerState

def layOut (snapshot : DocumentSnapshot) : DocumentLayout :=
  computeDocumentLayout snapshot pageGapPt canvasMarginPt

def new (snapshot : DocumentSnapshot) : ViewerState where
  snapshot
  layout := layOut snapshot
  currentPage := if (layOut snapshot).isEmpty then none else some 0
  fittedViewportPx := (0, 0)
  zoom := 1
  scrollOffsetPx := 0
  viewportSizePx := (0, 0)
  fitMode := .free
  viewRotation := .none
  railVisible := true
  scrollRequestPx := none

def pageCount (v : ViewerState) : Nat := v.snapshot.pageCount

def refreshCurrentPage (v : ViewerState) : ViewerState :=
  let zoom := clampZoom v.zoom
  { v with
    currentPage := findCurrentPage v.layout (v.scrollOffsetPx / zoom) (v.viewportSizePx.2 / zoom) }

/-- Change the zoom while keeping the point `anchorPx` below the viewport's top where it is. -/
def setZoomAnchored (newZoom anchorPx : ℚ) (v : ViewerState) : ViewerState :=
  let newZoom := clampZoom newZoom
  let offsetPx := anchorScrollOffset v.scrollOffsetPx anchorPx (clampZoom v.zoom) newZoom
  { v with
    zoom := newZoom
    scrollOffsetPx := offsetPx
    scrollRequestPx := some offsetPx }.refreshCurrentPage

def scrollToPage (index : Nat) (marginPt : ℚ) (v : ViewerState) : ViewerState :=
  match findScrollTarget v.layout index marginPt with
  | none => v
  | some targetPt =>
    let offsetPx := targetPt * clampZoom v.zoom
    { v with
      scrollOffsetPx := offsetPx
      scrollRequestPx := some offsetPx
      currentPage := some index }

def reapplyFitMode (v : ViewerState) : ViewerState :=
  let fitted := { v with fittedViewportPx := v.viewportSizePx }
  match v.fitMode with
  | .free => fitted
  | .width =>
    fitted.setZoomAnchored (fitWidthZoom v.layout.contentWidthPt v.viewportSizePx.1)
      (v.viewportSizePx.2 / 2)
  | .page =>
    match v.currentPage.bind v.layout.placement with
    | none => fitted
    | some placement =>
      fitted.setZoomAnchored (fitPageZoom placement.widthPt placement.heightPt v.viewportSizePx.1
        v.viewportSizePx.2) (v.viewportSizePx.2 / 2)

/-- Whether the viewport has moved since the fit mode was last applied. -/
def fitIsStale (v : ViewerState) : Bool :=
  let widthMoved := |v.viewportSizePx.1 - v.fittedViewportPx.1| > fitViewportTolerancePx
  let heightMoved := |v.viewportSizePx.2 - v.fittedViewportPx.2| > fitViewportTolerancePx
  match v.fitMode with
  | .free => false
  | .width => decide widthMoved
  | .page => decide widthMoved || decide heightMoved

/-- Reapply the fit mode if the viewport has moved, answering whether it had. -/
def syncFitToViewport (v : ViewerState) : Bool × ViewerState :=
  if v.fitIsStale then (true, v.reapplyFitMode) else (false, v)

/-- Adopt the snapshot of a different document; the caches are emptied with it. -/
def openDocument (snapshot : DocumentSnapshot) (v : ViewerState) : ViewerState :=
  ({ v with snapshot, layout := layOut snapshot }.refreshCurrentPage).reapplyFitMode

/-- Adopt a new snapshot of the document already open; the caches keep its revision alone. -/
def replaceSnapshot (snapshot : DocumentSnapshot) (v : ViewerState) : ViewerState :=
  ({ v with snapshot, layout := layOut snapshot }.refreshCurrentPage).reapplyFitMode

def visiblePages (v : ViewerState) : IndexRange :=
  let zoom := clampZoom v.zoom
  let heightPt := v.viewportSizePx.2 / zoom
  findVisiblePages v.layout (v.scrollOffsetPx / zoom) heightPt (heightPt * overscanScreens)

def renderScale (pixelsPerPoint : ℚ) (v : ViewerState) : ℚ :=
  quantizeRenderScale (clampZoom v.zoom * max pixelsPerPoint 1)

def renderSettings (pixelsPerPoint : ℚ) (maxTextureSide : Nat) (v : ViewerState) : RenderSettings :=
  ⟨v.renderScale pixelsPerPoint, v.viewRotation, maxTextureSide⟩

@[simp] theorem refreshCurrentPage_snapshot (v : ViewerState) :
    v.refreshCurrentPage.snapshot = v.snapshot := rfl
@[simp] theorem setZoomAnchored_snapshot (newZoom anchorPx : ℚ) (v : ViewerState) :
    (v.setZoomAnchored newZoom anchorPx).snapshot = v.snapshot := rfl
@[simp] theorem scrollToPage_snapshot (index : Nat) (marginPt : ℚ) (v : ViewerState) :
    (v.scrollToPage index marginPt).snapshot = v.snapshot := by
  unfold scrollToPage
  split <;> rfl
@[simp] theorem reapplyFitMode_snapshot (v : ViewerState) : v.reapplyFitMode.snapshot = v.snapshot := by
  unfold reapplyFitMode
  split
  · rfl
  · rfl
  · split <;> rfl
@[simp] theorem syncFitToViewport_snapshot (v : ViewerState) :
    v.syncFitToViewport.2.snapshot = v.snapshot := by
  unfold syncFitToViewport
  split
  · simp
  · rfl
@[simp] theorem replaceSnapshot_snapshot (snapshot : DocumentSnapshot) (v : ViewerState) :
    (v.replaceSnapshot snapshot).snapshot = snapshot := by simp [replaceSnapshot]
@[simp] theorem openDocument_snapshot (snapshot : DocumentSnapshot) (v : ViewerState) :
    (v.openDocument snapshot).snapshot = snapshot := by simp [openDocument]

end ViewerState

/-! ### The render loop's service half -/

def submitRequests {S : Type} [RenderService S] :
    List RenderRequest → TextureCache → S → TextureCache × S
  | [], cache, service => (cache, service)
  | request :: requests, cache, service =>
    submitRequests requests (cache.markPending request).2 (RenderService.submit request service)

/-- Submitting caches nothing and refuses nothing, and the service is only handed the requests. -/
theorem submitRequests_keeps {S : Type} [RenderService S] {P : RenderRequest → Prop} {Q : S → Prop}
    (hsubmit : ∀ request service, P request → Q service → Q (RenderService.submit request service))
    (requests : List RenderRequest) (hrequests : ∀ request ∈ requests, P request)
    (cache : TextureCache) {service : S} (h : Q service) :
    (submitRequests requests cache service).1.entries = cache.entries ∧
    (submitRequests requests cache service).1.failed = cache.failed ∧
    Q (submitRequests requests cache service).2 := by
  induction requests generalizing cache service with
  | nil => exact ⟨rfl, rfl, h⟩
  | cons request requests ih =>
    obtain ⟨hentries, hfailed, hservice⟩ :=
      ih (fun later hlater => hrequests later (List.mem_cons_of_mem _ hlater))
        (cache.markPending request).2 (hsubmit request service (hrequests request (by simp)) h)
    exact ⟨hentries.trans (TileCache.markPending_entries request cache),
      hfailed.trans (TileCache.markPending_failed request cache), hservice⟩

structure FrameOutcome where
  absorbed : AbsorbReport
  submitted : Nat
  skipped : Nat

/-- Poll once, absorb what arrived, then submit what is still missing. The first cache is the
canvas's. -/
def stepRenderService {S : Type} [RenderService S] (v : ViewerState) (pixelsPerPoint : ℚ)
    (maxTextureSide : Nat) (caches : List TextureCache) (service : S) :
    FrameOutcome × List TextureCache × S :=
  match caches with
  | [] => (⟨⟨0, 0, 0, 0⟩, 0, 0⟩, [], service)
  | canvas :: others =>
    let begun := canvas.beginFrame
    let polled := RenderService.poll service
    let absorbed := absorbResponsesRouted (begun.2 :: others) v.snapshot polled.1 begun.1
    match absorbed.2 with
    | [] => (⟨⟨0, 0, 0, 0⟩, 0, 0⟩, [], polled.2)
    | canvas :: others =>
      let plan := planRenderRequests v.snapshot v.visiblePages (v.currentPage.getD 0)
        (v.renderSettings pixelsPerPoint maxTextureSide) canvas.wants maxSubmissionsPerFrame
      let submitted := submitRequests plan.requests canvas polled.2
      (⟨absorbed.1, plan.requests.length, plan.skipped⟩, submitted.1 :: others, submitted.2)

/-! ### The thumbnail rail -/

def thumbnailWidthPt : ℚ := 132

def thumbnailScaleGrid : ℚ := 512

def thumbnailLabelHeight : ℚ := 16

def gutter : ℚ := 6

structure ThumbnailSlot where
  index : Nat
  topPx : ℚ
  heightPx : ℚ

def computeThumbnailScale (displayWidthPt : ℚ) : ℚ :=
  if displayWidthPt ≤ 0 then quantizeScale 1 thumbnailScaleGrid
  else quantizeScale (thumbnailWidthPt / displayWidthPt) thumbnailScaleGrid

/-- Stack every page's thumbnail downwards from `cursorPx`. -/
def layOutThumbnails (spacingPx : ℚ) : Nat → ℚ → List PageInfo → List ThumbnailSlot
  | _, _, [] => []
  | index, cursorPx, page :: pages =>
    let heightPx := if displayWidth page > 0
      then thumbnailWidthPt * displayHeight page / displayWidth page else thumbnailWidthPt
    ⟨index, cursorPx, heightPx⟩ ::
      layOutThumbnails spacingPx (index + 1) (cursorPx + (heightPx + thumbnailLabelHeight + spacingPx)) pages

def findVisibleThumbnails (slots : List ThumbnailSlot) (topPx heightPx : ℚ) : IndexRange :=
  let first := partitionPoint
    (fun slot => decide (slot.topPx + slot.heightPx + thumbnailLabelHeight < topPx)) slots
  let last := partitionPoint (fun slot => decide (slot.topPx ≤ topPx + heightPx)) slots
  ⟨first, max last first⟩

def requestThumbnail (snapshot : DocumentSnapshot) (maxTextureSide : Nat) (page : PageInfo) :
    Option RenderRequest :=
  (RenderRequest.new snapshot.document page.id snapshot.revision
    (fitRenderScaleToTextureLimit (computeThumbnailScale (displayWidth page)) (displayWidth page)
      (displayHeight page) maxTextureSide)).toOption

theorem requestsPage_of_requestThumbnail {snapshot : DocumentSnapshot} {maxTextureSide : Nat}
    {page : PageInfo} {request : RenderRequest} (hpage : page ∈ snapshot.pages)
    (h : requestThumbnail snapshot maxTextureSide page = some request) :
    RequestsPage snapshot request := by
  unfold requestThumbnail at h
  cases hnew : RenderRequest.new snapshot.document page.id snapshot.revision
      (fitRenderScaleToTextureLimit (computeThumbnailScale (displayWidth page)) (displayWidth page)
        (displayHeight page) maxTextureSide) with
  | error e =>
    rw [hnew] at h
    cases h
  | ok plain =>
    obtain ⟨hpos, rfl⟩ := RenderRequest.new_eq_ok.1 hnew
    rw [hnew] at h
    cases h
    exact ⟨rfl, rfl, page, hpage, rfl⟩

/-- Ask for one thumbnail unless it is cached, in flight or refused, and draw it from the cache. -/
def showThumbnail {S : Type} [RenderService S] (snapshot : DocumentSnapshot) (maxTextureSide : Nat)
    (shown : TextureCache × S) (slot : ThumbnailSlot) : TextureCache × S :=
  match snapshot.pages[slot.index]? with
  | none => shown
  | some page =>
    match requestThumbnail snapshot maxTextureSide page with
    | none => shown
    | some request =>
      let marked := shown.1.markPending request
      ((marked.2.get request).2,
        if marked.1 then RenderService.submit request shown.2 else shown.2)

def showThumbnailRail {S : Type} [RenderService S] (v : ViewerState) (maxTextureSide : Nat)
    (topPx heightPx : ℚ) (cache : TextureCache) (service : S) : TextureCache × S :=
  let slots := layOutThumbnails gutter 0 gutter v.snapshot.pages
  let visible := (findVisibleThumbnails slots topPx heightPx).slice slots
  let begun := cache.beginFrame
  let shown := visible.foldl (showThumbnail v.snapshot maxTextureSide) (begun.2, service)
  ((shown.1.evictToBudget begun.1).2, shown.2)

/-- The requests a frame of the rail submits: those of the visible thumbnails that are wanted. -/
def thumbnailRequests (snapshot : DocumentSnapshot) (maxTextureSide : Nat)
    (slots : List ThumbnailSlot) (cache : TextureCache) : List RenderRequest :=
  slots.filterMap fun slot =>
    (snapshot.pages[slot.index]?.bind (requestThumbnail snapshot maxTextureSide)).filter cache.wants

/-- Drawing thumbnails refuses nothing, and hands the service wanted thumbnails alone. -/
theorem showThumbnails_keep {S : Type} [RenderService S] {P : RenderRequest → Prop} {Q : S → Prop}
    (hsubmit : ∀ request service, P request → Q service → Q (RenderService.submit request service))
    (snapshot : DocumentSnapshot) (maxTextureSide : Nat) (slots : List ThumbnailSlot)
    (shown : TextureCache × S)
    (hrequests : ∀ request ∈ thumbnailRequests snapshot maxTextureSide slots shown.1, P request)
    (h : Q shown.2) :
    (slots.foldl (showThumbnail snapshot maxTextureSide) shown).1.failed = shown.1.failed ∧
    Q (slots.foldl (showThumbnail snapshot maxTextureSide) shown).2 := by
  induction slots generalizing shown with
  | nil => exact ⟨rfl, h⟩
  | cons slot slots ih =>
    have hone : (showThumbnail snapshot maxTextureSide shown slot).1.failed = shown.1.failed ∧
        Q (showThumbnail snapshot maxTextureSide shown slot).2 ∧
        ∀ request, (showThumbnail snapshot maxTextureSide shown slot).1.wants request = true →
          shown.1.wants request = true := by
      unfold showThumbnail
      split
      · exact ⟨rfl, h, fun _ hwants => hwants⟩
      rename_i page hpage
      split
      · exact ⟨rfl, h, fun _ hwants => hwants⟩
      rename_i request hrequest
      refine ⟨TileCache.markPending_failed _ _, ?_, ?_⟩
      · dsimp only
        split
        · rename_i hmarked
          refine hsubmit request shown.2 (hrequests request ?_) h
          have hwanted : shown.1.wants request = true := by
            unfold TileCache.markPending at hmarked
            split at hmarked
            · assumption
            · cases hmarked
          refine List.mem_filterMap.2 ⟨slot, by simp, ?_⟩
          simp [hpage, hrequest, hwanted]
        · exact h
      · intro other hwants
        rw [TileCache.wants_get] at hwants
        exact TileCache.wants_of_wants_markPending hwants
    obtain ⟨hfailed, hservice⟩ := ih (showThumbnail snapshot maxTextureSide shown slot)
      (by
        intro request hrequest
        obtain ⟨later, hlater, hmem⟩ := List.mem_filterMap.1 hrequest
        obtain ⟨hfound, hwants⟩ := Option.filter_eq_some_iff.1 hmem
        exact hrequests request (List.mem_filterMap.2 ⟨later, List.mem_cons_of_mem _ hlater,
          Option.filter_eq_some_iff.2 ⟨hfound, hone.2.2 request hwants⟩⟩))
      hone.2.1
    exact ⟨hfailed.trans hone.1, hservice⟩

/-! ### The canvas -/

/-- The request the canvas draws a placement from: the exact one if cached, else the nearest
scale of the same page. -/
def chooseTile (v : ViewerState) (settings : RenderSettings) (cache : TextureCache)
    (placement : PagePlacement) : Option RenderRequest :=
  let pageScale := fitRenderScaleToTextureLimit settings.renderScale placement.widthPt
    placement.heightPt settings.maxTextureSide
  let exact := (RenderRequest.new v.snapshot.document placement.id v.snapshot.revision pageScale).toOption.map
    (RenderRequest.withRotation settings.viewRotation)
  match exact.filter cache.contains with
  | some request => some request
  | none => cache.findNearestScale v.snapshot.document placement.id v.snapshot.revision pageScale

/-- Draw one placement, marking the tile it is drawn from as used. -/
def drawPlacement (v : ViewerState) (settings : RenderSettings) (cache : TextureCache)
    (placement : PagePlacement) : TextureCache :=
  match chooseTile v settings cache placement with
  | some request => (cache.get request).2
  | none => cache

/-- Draw the pages in the viewport the scroll area realised, and write it back. -/
def showCanvas (pixelsPerPoint : ℚ) (maxTextureSide : Nat) (scrollOffsetPx : ℚ)
    (viewportSizePx : ℚ × ℚ) (v : ViewerState) (cache : TextureCache) :
    ViewerState × TextureCache :=
  let zoom := clampZoom v.zoom
  let settings := v.renderSettings pixelsPerPoint maxTextureSide
  let visible := findVisiblePages v.layout (scrollOffsetPx / zoom) (viewportSizePx.2 / zoom) 0
  ({ v with scrollRequestPx := none, scrollOffsetPx, viewportSizePx }.refreshCurrentPage,
    (visible.slice v.layout.placements).foldl (drawPlacement v settings) cache)

/-- Drawing touches what is cached and nothing else. -/
theorem showCanvas_keeps (pixelsPerPoint : ℚ) (maxTextureSide : Nat) (scrollOffsetPx : ℚ)
    (viewportSizePx : ℚ × ℚ) (v : ViewerState) (cache : TextureCache) :
    let drawn := (showCanvas pixelsPerPoint maxTextureSide scrollOffsetPx viewportSizePx v cache).2
    drawn.pending = cache.pending ∧ drawn.failed = cache.failed ∧
    ∀ request tile, drawn.Holds request tile → cache.Holds request tile := by
  have hdraw : ∀ (placements : List PagePlacement) (settings : RenderSettings) (cache : TextureCache),
      (placements.foldl (drawPlacement v settings) cache).pending = cache.pending ∧
      (placements.foldl (drawPlacement v settings) cache).failed = cache.failed ∧
      ∀ request tile, (placements.foldl (drawPlacement v settings) cache).Holds request tile →
        cache.Holds request tile := by
    intro placements settings
    induction placements with
    | nil => exact fun _ => ⟨rfl, rfl, fun _ _ h => h⟩
    | cons placement placements ih =>
      intro cache
      obtain ⟨hpending, hfailed, hholds⟩ := ih (drawPlacement v settings cache placement)
      have hone : (drawPlacement v settings cache placement).pending = cache.pending ∧
          (drawPlacement v settings cache placement).failed = cache.failed ∧
          ∀ request tile, (drawPlacement v settings cache placement).Holds request tile →
            cache.Holds request tile := by
        unfold drawPlacement
        split
        · exact ⟨rfl, rfl, fun _ _ h => TileCache.holds_get h⟩
        · exact ⟨rfl, rfl, fun _ _ h => h⟩
      exact ⟨hpending.trans hone.1, hfailed.trans hone.2.1,
        fun request tile h => hone.2.2 request tile (hholds request tile h)⟩
  exact hdraw _ _ cache

end OpdfEditor
