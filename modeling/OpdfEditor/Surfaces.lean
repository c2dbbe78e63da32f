import OpdfEditor.Viewer

/-!
The canvas and the thumbnail rail over one render service: what one frame's exchange
does to the two caches, whatever the service is.
-/
namespace OpdfEditor

structure CachePair where
  canvas : TextureCache
  rail : TextureCache

namespace CachePair

/-- Route one response between the two caches: to the rail if it alone asked for it. -/
def route (drawn : DocumentSnapshot) (caches : CachePair) (response : RenderResponse) : CachePair :=
  if response.request ∉ caches.canvas.pending ∧ response.request ∈ caches.rail.pending then
    { caches with rail := fileResponse drawn response caches.rail }
  else { caches with canvas := fileResponse drawn response caches.canvas }

theorem routeResponse_pair (drawn : DocumentSnapshot) (caches : CachePair)
    (response : RenderResponse) :
    routeResponse drawn [caches.canvas, caches.rail] response =
      [(caches.route drawn response).canvas, (caches.route drawn response).rail] := by
  unfold routeResponse findOwner route
  by_cases hcanvas : response.request ∈ caches.canvas.pending
  · simp [List.findIdx?_cons, TileCache.isPending, hcanvas]
  · by_cases hrail : response.request ∈ caches.rail.pending
    · simp [List.findIdx?_cons, TileCache.isPending, hcanvas, hrail]
    · simp [List.findIdx?_cons, TileCache.isPending, hcanvas, hrail]

theorem foldl_routeResponse_pair (drawn : DocumentSnapshot) (responses : List RenderResponse)
    (caches : CachePair) :
    responses.foldl (routeResponse drawn) [caches.canvas, caches.rail] =
      [(responses.foldl (route drawn) caches).canvas, (responses.foldl (route drawn) caches).rail] := by
  induction responses generalizing caches with
  | nil => rfl
  | cons response responses ih => rw [List.foldl_cons, routeResponse_pair, ih]; rfl

end CachePair

structure Surfaces (S : Type) where
  viewer : ViewerState
  caches : CachePair
  service : S

/-- What a frame is made of, and what the user does between frames. -/
inductive SurfaceEvent where
  /-- Exchange requests and responses with the service. -/
  | exchange (pixelsPerPoint : ℚ) (maxTextureSide : Nat)
  | showRail (maxTextureSide : Nat) (topPx heightPx : ℚ)
  | showCanvas (pixelsPerPoint : ℚ) (maxTextureSide : Nat) (scrollOffsetPx : ℚ)
    (viewportSizePx : ℚ × ℚ)
  /-- Scroll, zoom or turn the view: everything but what is shown may change. -/
  | look (viewer : ViewerState)

namespace Surfaces

variable {S : Type} [RenderService S]

def start (snapshot : DocumentSnapshot) (canvasBudget railBudget : Nat) (service : S) : Surfaces S :=
  ⟨.new snapshot, ⟨.new canvasBudget, .new railBudget⟩, service⟩

/-- One surface event, through the functions of the source. -/
def step (s : Surfaces S) : SurfaceEvent → Surfaces S
  | .exchange pixelsPerPoint maxTextureSide =>
    match stepRenderService s.viewer pixelsPerPoint maxTextureSide
      [s.caches.canvas, s.caches.rail] s.service with
    | (_, [canvas, rail], service) => { s with caches := ⟨canvas, rail⟩, service }
    | (_, _, service) => { s with service }
  | .showRail maxTextureSide topPx heightPx =>
    let shown := showThumbnailRail s.viewer maxTextureSide topPx heightPx s.caches.rail s.service
    { s with caches := { s.caches with rail := shown.1 }, service := shown.2 }
  | .showCanvas pixelsPerPoint maxTextureSide scrollOffsetPx viewportSizePx =>
    let shown := OpdfEditor.showCanvas pixelsPerPoint maxTextureSide scrollOffsetPx viewportSizePx
      s.viewer s.caches.canvas
    { s with viewer := shown.1, caches := { s.caches with canvas := shown.2 } }
  | .look viewer =>
    { s with viewer := { viewer with snapshot := s.viewer.snapshot, layout := s.viewer.layout } }

def replaceSnapshot (snapshot : DocumentSnapshot) (s : Surfaces S) : Surfaces S :=
  { s with
    viewer := s.viewer.replaceSnapshot snapshot
    caches := ⟨s.caches.canvas.retainRevision snapshot.revision,
      s.caches.rail.retainRevision snapshot.revision⟩ }

/-- Adopt the snapshot of another document, with its service: no tile of the previous one stays. -/
def openDocument (snapshot : DocumentSnapshot) (service : S) (s : Surfaces S) : Surfaces S where
  viewer := s.viewer.openDocument snapshot
  caches := ⟨s.caches.canvas.clear, s.caches.rail.clear⟩
  service

def begun (s : Surfaces S) : CachePair := { s.caches with canvas := s.caches.canvas.beginFrame.2 }

def filed (s : Surfaces S) : CachePair :=
  (RenderService.poll s.service).1.foldl (CachePair.route s.viewer.snapshot) s.begun

def evicted (s : Surfaces S) : TextureCache :=
  (s.filed.canvas.evictToBudget s.caches.canvas.beginFrame.1).2

def planned (s : Surfaces S) (pixelsPerPoint : ℚ) (maxTextureSide : Nat) : List RenderRequest :=
  (planRenderRequests s.viewer.snapshot s.viewer.visiblePages (s.viewer.currentPage.getD 0)
    (s.viewer.renderSettings pixelsPerPoint maxTextureSide) s.evicted.wants
    maxSubmissionsPerFrame).requests

def visibleThumbnails (s : Surfaces S) (topPx heightPx : ℚ) : List ThumbnailSlot :=
  let slots := layOutThumbnails gutter 0 gutter s.viewer.snapshot.pages
  (findVisibleThumbnails slots topPx heightPx).slice slots

def submits (s : Surfaces S) : SurfaceEvent → List RenderRequest
  | .exchange pixelsPerPoint maxTextureSide => s.planned pixelsPerPoint maxTextureSide
  | .showRail maxTextureSide topPx heightPx =>
    thumbnailRequests s.viewer.snapshot maxTextureSide (s.visibleThumbnails topPx heightPx)
      s.caches.rail
  | _ => []

/-- An exchange files what it polled, evicts, and submits what it planned. -/
theorem step_exchange (s : Surfaces S) (pixelsPerPoint : ℚ) (maxTextureSide : Nat) :
    s.step (.exchange pixelsPerPoint maxTextureSide) =
      let submitted := submitRequests (s.planned pixelsPerPoint maxTextureSide) s.evicted
        (RenderService.poll s.service).2
      { s with caches := ⟨submitted.1, s.filed.rail⟩, service := submitted.2 } := by
  have hfold := CachePair.foldl_routeResponse_pair s.viewer.snapshot
    (RenderService.poll s.service).1 s.begun
  simp only [step, stepRenderService, absorbResponsesRouted]
  rw [show [s.caches.canvas.beginFrame.2, s.caches.rail] = [s.begun.canvas, s.begun.rail] from rfl,
    hfold]
  rfl

@[simp] theorem step_snapshot (s : Surfaces S) (event : SurfaceEvent) :
    (s.step event).viewer.snapshot = s.viewer.snapshot := by
  cases event with
  | exchange => rw [step_exchange]
  | showRail => rfl
  | showCanvas => rfl
  | look => rfl

end Surfaces
end OpdfEditor
