import OpdfEditor.RenderWorker
import OpdfEditor.Zoom

/-!
The services a shell can hold: the worker over a real file, and the synchronous fake
that answers every request with a flat tile when it is polled.
-/
namespace OpdfEditor

open Binary32 (F32)

/-! ### The fake service -/

def maxFlatPixels : Nat := 64 * 1024 * 1024

structure FakeRenderService where
  snapshot : DocumentSnapshot
  pending : List RenderRequest

namespace FakeRenderService

def new (snapshot : DocumentSnapshot) : FakeRenderService := ⟨snapshot, []⟩

def findPage (request : RenderRequest) (service : FakeRenderService) : Option (Nat × PageInfo) :=
  (service.snapshot.pages.findIdx? fun page => page.id == request.page).bind fun index =>
    service.snapshot.pages[index]?.map (index, ·)

/-- A single-precision product with a positive scale. -/
def scaled (scale : ℚ) : F32 → F32
  | .finite q _ => F32.round (q * scale)
  | unbounded => unbounded

/-- Round, keep at least one pixel, and cast as `as u32` saturates. -/
def toPixels : F32 → Nat
  | .finite q _ => min (max (roundHalfAway q).toNat 1) (2 ^ 32 - 1)
  | .inf negative => if negative then 1 else 2 ^ 32 - 1
  | .nan => 1

def renderFlatTile (index : Nat) (page : PageInfo) (request : RenderRequest) : Except String Tile :=
  let size := { page with rotation := page.rotation.rotatedBy request.rotation }.displaySize
  let width := toPixels (scaled request.scale size.widthPt)
  let height := toPixels (scaled request.scale size.heightPt)
  if width * height > maxFlatPixels then
    .error s!"requested tile of {width}x{height} pixels at scale {request.scale} exceeds the fake renderer's limit of {maxFlatPixels} pixels"
  else
    let colour : List UInt8 := [.ofNat (index * 97), .ofNat (index * 53), .ofNat (index * 29), 255]
    match Tile.new width height (List.replicate (width * height) colour).flatten with
    | .error e => .error e.display
    | .ok tile => .ok tile

def answer (service : FakeRenderService) (request : RenderRequest) : RenderResponse :=
  match service.findPage request with
  | none => .failed request s!"unknown page {PageId.display request.page}"
  | some (index, page) =>
    match renderFlatTile index page request with
    | .error reason => .failed request reason
    | .ok tile => .ready request tile

instance : RenderService FakeRenderService where
  submit request service := { service with pending := service.pending ++ [request] }
  poll service := (service.pending.map service.answer, { service with pending := [] })

end FakeRenderService

/-! ### Either service -/

/-- The service behind the trait object. -/
inductive ShellService where
  | pdfium (system : RenderSystem)
  | fake (service : FakeRenderService)

namespace ShellService

def submit (request : RenderRequest) : ShellService → ShellService
  | pdfium system => pdfium (system.submit request)
  | fake service => fake (RenderService.submit request service)

def poll : ShellService → List RenderResponse × ShellService
  | pdfium system => (system.poll.1, pdfium system.poll.2)
  | fake service => ((RenderService.poll service).1, fake (RenderService.poll service).2)

instance : RenderService ShellService := ⟨submit, poll⟩

def work [Pdfium] (fault : Option String) : ShellService → ShellService
  | pdfium system => pdfium (system.work fault)
  | fake service => fake service

end ShellService
end OpdfEditor
