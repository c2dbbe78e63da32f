import OpdfEditor.Page
import Mathlib.Data.Rat.Floor

/-!
The rendering contract: requests, tiles, responses, and what the user interface may
ask of a rasterizer. A scale is the exact number its single-precision value stands for.
-/
namespace OpdfEditor

/-- A request to rasterize one page of one document, and the key its tile is cached under. -/
structure RenderRequest where
  document : DocumentId
  page : PageId
  revision : UInt64
  scale : ℚ
  /-- View rotation on top of the one stored on the page. -/
  rotation : Rotation
  positive : 0 < scale
  deriving DecidableEq

namespace RenderRequest

theorem one_positive : (0 : ℚ) < 1 := by decide

def new (document : DocumentId) (page : PageId) (revision : UInt64) (scale : ℚ) :
    Except Error RenderRequest :=
  if h : 0 < scale then .ok ⟨document, page, revision, scale, .none, h⟩
  else .error (.unsupported s!"render scale {scale} must be finite and positive")

def withRotation (rotation : Rotation) (request : RenderRequest) : RenderRequest :=
  { request with rotation }

theorem new_eq_ok {document : DocumentId} {page : PageId} {revision : UInt64} {scale : ℚ}
    {request : RenderRequest} :
    new document page revision scale = .ok request ↔
      ∃ h : 0 < scale, request = ⟨document, page, revision, scale, .none, h⟩ := by
  unfold new
  split
  · rename_i h
    simp [h, eq_comm]
  · rename_i h
    simp [h]

end RenderRequest

/-- A rasterized image, four bytes a pixel in row-major order. -/
structure Tile where
  width : Nat
  height : Nat
  pixels : List UInt8
  widthPos : 0 < width
  heightPos : 0 < height
  filled : pixels.length = width * height * 4
  deriving DecidableEq

/-- Buffer lengths a 64-bit target can address. -/
def addressLimit : Nat := 2 ^ 64

def Tile.new (width height : Nat) (pixels : List UInt8) : Except Error Tile :=
  if h : 0 < width ∧ 0 < height then
    if width * height * 4 < addressLimit then
      if filled : pixels.length = width * height * 4 then
        .ok ⟨width, height, pixels, h.1, h.2, filled⟩
      else
        .error (.render s!"tile buffer has {pixels.length} bytes, expected {width * height * 4}")
    else
      .error (.render s!"tile dimensions {width}x{height} overflow the addressable buffer length")
  else .error (.render s!"tile dimensions {width}x{height} must both be non-zero")

theorem Tile.new_dimensions {width height : Nat} {pixels : List UInt8} {tile : Tile}
    (h : Tile.new width height pixels = .ok tile) : tile.width = width ∧ tile.height = height := by
  unfold Tile.new at h
  split at h
  · split at h
    · split at h
      · cases h
        exact ⟨rfl, rfl⟩
      · cases h
    · cases h
  · cases h

/-- The outcome of a request. -/
inductive RenderResponse where
  | ready (request : RenderRequest) (tile : Tile)
  | failed (request : RenderRequest) (reason : String)
  deriving DecidableEq

def RenderResponse.request : RenderResponse → RenderRequest
  | ready request _ => request
  | failed request _ => request

/-- Asynchronous rasterization as the user interface sees it. -/
class RenderService (S : Type) where
  submit : RenderRequest → S → S
  /-- Every response completed since the last call. -/
  poll : S → List RenderResponse × S

/-! ### Tile geometry -/

structure TileGeometry where
  widthPx : Nat
  heightPx : Nat
  totalRotation : Rotation
  deriving DecidableEq

def maxTileEdge : Nat := 32768

def maxTilePixels : Nat := 64 * 1024 * 1024

/-- Scale one edge from points to pixels. A product of two single-precision values is exact in
the double precision it is taken in. -/
def scaleEdge (sizePt : Binary32.F32) (scale : ℚ) : Except String Nat :=
  match sizePt with
  | .finite q _ =>
    let rounded := max (⌊q * scale + 1 / 2⌋.toNat) 1
    if rounded > maxTileEdge then
      .error s!"requested tile edge of {rounded} pixels at scale {scale} exceeds the renderer's limit of {maxTileEdge} pixels"
    else .ok rounded
  | _ => .error s!"scale {scale} applied to an unbounded size does not produce a finite pixel count"

def computeTileGeometry (page : PageInfo) (request : RenderRequest) : Except String TileGeometry :=
  let totalRotation := page.rotation.rotatedBy request.rotation
  let display := { page with rotation := totalRotation }.displaySize
  match scaleEdge display.widthPt request.scale with
  | .error reason => .error reason
  | .ok widthPx =>
    match scaleEdge display.heightPt request.scale with
    | .error reason => .error reason
    | .ok heightPx =>
      if widthPx * heightPx > maxTilePixels then
        .error s!"requested tile of {widthPx}x{heightPx} pixels at scale {request.scale} exceeds the renderer's limit of {maxTilePixels} pixels"
      else .ok ⟨widthPx, heightPx, totalRotation⟩

/-- Only a page's size and rotation shape its tiles. -/
theorem computeTileGeometry_congr {page page' : PageInfo} (hsize : page.size = page'.size)
    (hrotation : page.rotation = page'.rotation) (request : RenderRequest) :
    computeTileGeometry page request = computeTileGeometry page' request := by
  obtain ⟨id, size, rotation⟩ := page
  obtain ⟨id', size', rotation'⟩ := page'
  dsimp only at hsize hrotation
  subst hsize hrotation
  rfl

end OpdfEditor
