import OpdfEditor.RevisionHonesty
import OpdfEditor.ShellService
import OpdfEditor.TileSizeLimit

/-!
The flat tiles of the fake renderer beside the tiles Pdfium draws. The fake multiplies an extent by
the scale in single precision where the renderer multiplies exactly, so its tiles are never smaller,
and larger by one pixel where the product is rounded up onto a half.
-/
namespace OpdfEditor

open Binary32 (F32)
open FakeRenderService (toPixels scaled renderFlatTile)

/-! ### One edge -/

/-- The single-precision product lies half a pixel above an edge the exact product stays below. -/
def RoundsUpOnto (edge : Nat) (scale : ℚ) (sizePt : F32) : Prop :=
  sizePt.value * scale < edge + 1 / 2 ∧ (scaled scale sizePt).value = edge + 1 / 2

instance (edge : Nat) (scale : ℚ) (sizePt : F32) : Decidable (RoundsUpOnto edge scale sizePt) :=
  inferInstanceAs (Decidable (_ ∧ _))

/-- The edge the fake gives a tile whose edge is this one. -/
def flatEdge (edge : Nat) (scale : ℚ) (sizePt : F32) : Nat :=
  if RoundsUpOnto edge scale sizePt then edge + 1 else edge

theorem toPixels_half {v : ℚ} (h : Binary32.Representable v) (hhalf : v ≤ 1 / 2) :
    toPixels (.finite v h) = 1 := by
  have hrounded : roundHalfAway v ≤ 1 := by
    unfold roundHalfAway
    split
    · rename_i hneg
      have hfloor : 0 ≤ ⌊-v + 1 / 2⌋ := Int.floor_nonneg.2 (by linarith)
      omega
    · have hfloor : ⌊v + 1 / 2⌋ < 2 := Int.floor_lt.2 (by push_cast; linarith)
      omega
  rw [toPixels]
  omega

theorem toPixels_near {v : ℚ} (h : Binary32.Representable v) {edge : Nat} (hpos : 0 < edge)
    (hlow : (edge : ℚ) - 1 / 2 ≤ v) (hhigh : v < edge + 1 / 2) (hsmall : edge < 2 ^ 32) :
    toPixels (.finite v h) = edge := by
  have hone : (1 : ℚ) ≤ edge := by exact_mod_cast hpos
  have hrounded : roundHalfAway v = edge := by
    rw [roundHalfAway, if_neg (by linarith), Int.floor_eq_iff]
    push_cast
    exact ⟨by linarith, by linarith⟩
  rw [toPixels, hrounded, Int.toNat_natCast]
  omega

/-- The fake gives a tile the renderer's edge, or one pixel more. -/
theorem toPixels_scaled {edge : Nat} {scale : ℚ} {sizePt : F32}
    (h : scaleEdge sizePt scale = .ok edge) :
    toPixels (scaled scale sizePt) = flatEdge edge scale sizePt := by
  have hedge := scaleEdge_eq h
  have hlimit := scaleEdge_le_maxTileEdge h
  cases sizePt with
  | nan => cases h
  | inf negative => cases h
  | finite q hq =>
    have hpixels : (edge : ℤ) = max ⌊q * scale + 1 / 2⌋ 1 := hedge
    have hedgePos : 0 < edge := by omega
    have hone : (1 : ℚ) ≤ edge := by exact_mod_cast hedgePos
    have hlimitQ : (edge : ℚ) ≤ 32768 := by exact_mod_cast hlimit
    have hbelow : q * scale < edge + 1 / 2 := by
      have hfloor : ⌊q * scale + 1 / 2⌋ ≤ edge := by omega
      have hlt := Int.floor_lt.1 (Int.lt_add_one_of_le hfloor)
      push_cast at hlt
      linarith
    have hstays : ∀ v hv, scaled scale (.finite q hq) = .finite v hv → v < edge + 1 / 2 →
        flatEdge edge scale (.finite q hq) = edge := by
      intro v hv hscaled hlt
      refine if_neg fun hup => ?_
      have hvalue : v = edge + 1 / 2 := by
        rw [← hup.2, hscaled]
        rfl
      linarith
    by_cases hneg : q * scale < 0
    · -- nothing is left of the edge but the one pixel both keep
      have hfloor : ⌊q * scale + 1 / 2⌋ < 1 := Int.floor_lt.2 (by push_cast; linarith)
      obtain rfl : edge = 1 := by omega
      rcases Binary32.F32.round_nonpos hneg with hround | ⟨v, hv, hround, hnonpos⟩
      · have hscaled : scaled scale (.finite q hq) = .inf true := hround
        have hflat : flatEdge 1 scale (.finite q hq) = 1 := if_neg fun hup => by
          have hzero : (0 : ℚ) = (1 : ℕ) + 1 / 2 := by
            rw [← hup.2, hscaled]
            rfl
          norm_num at hzero
        rw [hscaled, hflat]
        rfl
      · have hscaled : scaled scale (.finite q hq) = .finite v hv := hround
        rw [hstays v hv hscaled (by push_cast; linarith), hscaled, toPixels_half hv (by linarith)]
    · have hsmall : |q * scale| < 2 ^ 23 := abs_lt.2 ⟨by linarith, by linarith⟩
      obtain ⟨v, hv, hround, hbetween⟩ := Binary32.F32.round_between hsmall
      have hscaled : scaled scale (.finite q hq) = .finite v hv := hround
      have hhigh : v ≤ edge + 1 / 2 := by
        have hle := (hbetween (2 * edge + 1)).1 (by push_cast; linarith)
        push_cast at hle
        linarith
      rcases hhigh.lt_or_eq with hlt | htop
      · rw [hstays v hv hscaled hlt, hscaled]
        by_cases hhalf : q * scale < 1 / 2
        · have hfloor : ⌊q * scale + 1 / 2⌋ < 1 := Int.floor_lt.2 (by push_cast; linarith)
          obtain rfl : edge = 1 := by omega
          have hle := (hbetween 1).1 (by push_cast; linarith)
          exact toPixels_half hv (by push_cast at hle; linarith)
        · have hfloor : 1 ≤ ⌊q * scale + 1 / 2⌋ := Int.le_floor.2 (by push_cast; linarith)
          have hsame : ⌊q * scale + 1 / 2⌋ = edge := by omega
          have hle := Int.floor_le (q * scale + 1 / 2)
          rw [hsame] at hle
          push_cast at hle
          have hlow := (hbetween (2 * edge - 1)).2 (by push_cast; linarith)
          push_cast at hlow
          exact toPixels_near hv hedgePos (by linarith) hlt (by unfold maxTileEdge at hlimit; omega)
      · have hup : RoundsUpOnto edge scale (.finite q hq) := ⟨hbelow, by rw [hscaled]; exact htop⟩
        rw [flatEdge, if_pos hup, hscaled]
        exact toPixels_near hv (Nat.succ_pos edge) (by push_cast; linarith) (by push_cast; linarith)
          (by unfold maxTileEdge at hlimit; omega)

/-! ### One tile -/

theorem toPixels_pos (x : F32) : 0 < toPixels x := by
  cases x with
  | nan => exact one_pos
  | inf negative => cases negative <;> decide
  | finite q h =>
    change 0 < min (max (roundHalfAway q).toNat 1) (2 ^ 32 - 1)
    omega

theorem flatEdge_bounds (edge : Nat) (scale : ℚ) (sizePt : F32) :
    edge ≤ flatEdge edge scale sizePt ∧ flatEdge edge scale sizePt ≤ edge + 1 := by
  unfold flatEdge
  split <;> omega

/-- The size of a page as a request turns it. -/
def turnedSize (page : PageInfo) (request : RenderRequest) : PageSize :=
  ({ page with rotation := page.rotation.rotatedBy request.rotation } : PageInfo).displaySize

/-- A flat tile of this width and height, if it is within the fake's limit, and else a refusal. -/
def DrawsFlat (width height : Nat) (outcome : Except String Tile) : Prop :=
  if width * height ≤ maxFlatPixels then
    ∃ tile, outcome = .ok tile ∧ tile.width = width ∧ tile.height = height
  else ∃ reason, outcome = .error reason

/-- A buffer of one colour wraps into a tile. -/
theorem exists_flat_tile {width height : Nat} (hwidth : 0 < width) (hheight : 0 < height)
    (hfits : width * height ≤ maxFlatPixels) {colour : List UInt8} (hcolour : colour.length = 4) :
    ∃ tile, Tile.new width height (List.replicate (width * height) colour).flatten = .ok tile := by
  have haddressed : width * height * 4 < addressLimit := by
    unfold maxFlatPixels at hfits
    unfold addressLimit
    omega
  have hfilled : (List.replicate (width * height) colour).flatten.length = width * height * 4 := by
    rw [List.length_flatten, List.map_replicate, hcolour, List.sum_replicate_nat]
  rw [Tile.new, dif_pos ⟨hwidth, hheight⟩, if_pos haddressed, dif_pos hfilled]
  exact ⟨_, rfl⟩

theorem drawsFlat_renderFlatTile (index : Nat) (page : PageInfo) (request : RenderRequest) :
    DrawsFlat (toPixels (scaled request.scale (turnedSize page request).widthPt))
      (toPixels (scaled request.scale (turnedSize page request).heightPt))
      (renderFlatTile index page request) := by
  have hwidth := toPixels_pos (scaled request.scale (turnedSize page request).widthPt)
  have hheight := toPixels_pos (scaled request.scale (turnedSize page request).heightPt)
  unfold renderFlatTile turnedSize at *
  dsimp only at *
  generalize toPixels (scaled request.scale _) = width at hwidth ⊢
  generalize toPixels (scaled request.scale _) = height at hheight ⊢
  unfold DrawsFlat
  by_cases hlarge : width * height > maxFlatPixels
  · rw [if_pos hlarge, if_neg (by omega)]
    exact ⟨_, rfl⟩
  · rw [if_neg hlarge, if_pos (by omega)]
    obtain ⟨tile, htile⟩ := exists_flat_tile hwidth hheight (Nat.le_of_not_gt hlarge)
      (show [UInt8.ofNat (index * 97), .ofNat (index * 53), .ofNat (index * 29), 255].length = 4 from rfl)
    refine ⟨tile, ?_, Tile.new_dimensions htile⟩
    rw [htile]

theorem edges_of_geometry {page : PageInfo} {request : RenderRequest} {geometry : TileGeometry}
    (h : computeTileGeometry page request = .ok geometry) :
    scaleEdge (turnedSize page request).widthPt request.scale = .ok geometry.widthPx ∧
    scaleEdge (turnedSize page request).heightPt request.scale = .ok geometry.heightPx := by
  unfold computeTileGeometry at h
  dsimp only at h
  split at h
  · cases h
  rename_i widthPx hwidth
  split at h
  · cases h
  rename_i heightPx hheight
  split at h
  · cases h
  cases h
  exact ⟨hwidth, hheight⟩

/-- Where the renderer resolves a request, the fake draws a tile of its edges. -/
theorem drawsFlat_of_geometry (index : Nat) {page : PageInfo} {request : RenderRequest}
    {geometry : TileGeometry} (h : computeTileGeometry page request = .ok geometry) :
    DrawsFlat (flatEdge geometry.widthPx request.scale (turnedSize page request).widthPt)
      (flatEdge geometry.heightPx request.scale (turnedSize page request).heightPt)
      (renderFlatTile index page request) := by
  obtain ⟨hwidth, hheight⟩ := edges_of_geometry h
  rw [← toPixels_scaled hwidth, ← toPixels_scaled hheight]
  exact drawsFlat_renderFlatTile index page request

/-- One of the page's edges is beyond what the renderer takes, or has no length. -/
def EdgeRefused (page : PageInfo) (request : RenderRequest) : Prop :=
  ∃ reason, scaleEdge (turnedSize page request).widthPt request.scale = .error reason ∨
    scaleEdge (turnedSize page request).heightPt request.scale = .error reason

/-- What the fake draws the renderer resolves, unless it refuses an edge. -/
theorem geometry_of_flat {index : Nat} {page : PageInfo} {request : RenderRequest} {tile : Tile}
    (h : renderFlatTile index page request = .ok tile) :
    (∃ geometry, computeTileGeometry page request = .ok geometry) ∨ EdgeRefused page request := by
  have hflat := drawsFlat_renderFlatTile index page request
  cases hwidth : scaleEdge (turnedSize page request).widthPt request.scale with
  | error reason => exact .inr ⟨reason, .inl hwidth⟩
  | ok widthPx =>
    cases hheight : scaleEdge (turnedSize page request).heightPt request.scale with
    | error reason => exact .inr ⟨reason, .inr hheight⟩
    | ok heightPx =>
      rw [toPixels_scaled hwidth, toPixels_scaled hheight, h] at hflat
      have hlimit : flatEdge widthPx request.scale (turnedSize page request).widthPt *
          flatEdge heightPx request.scale (turnedSize page request).heightPt ≤ maxFlatPixels := by
        by_contra hlarge
        obtain ⟨reason, hreason⟩ : ∃ reason, Except.ok tile = .error reason := by
          rwa [DrawsFlat, if_neg hlarge] at hflat
        cases hreason
      have hwithin : widthPx * heightPx ≤ maxTilePixels :=
        (Nat.mul_le_mul (flatEdge_bounds _ _ _).1 (flatEdge_bounds _ _ _).1).trans hlimit
      refine .inl ⟨⟨widthPx, heightPx, page.rotation.rotatedBy request.rotation⟩, ?_⟩
      unfold computeTileGeometry
      dsimp only
      unfold turnedSize at hwidth hheight
      rw [hwidth]
      dsimp only
      rw [hheight]
      exact if_neg (by omega)

/-! ### One answer -/

theorem fake_findPage (snapshot : DocumentSnapshot) (request : RenderRequest) :
    ((FakeRenderService.new snapshot).findPage request).map Prod.snd = findPage snapshot request := by
  unfold FakeRenderService.findPage findPage
  rw [List.find?_eq_bind_findIdx?_getElem?, Option.map_bind]
  refine Option.bind_congr fun index _ => ?_
  change (snapshot.pages[index]?.map (index, ·)).map Prod.snd = snapshot.pages[index]?
  cases snapshot.pages[index]? <;> rfl

/-- The fake finds the page Pdfium's worker finds, and answers as it draws it. -/
theorem fake_answer_eq {snapshot : DocumentSnapshot} {request : RenderRequest} {page : PageInfo}
    (h : findPage snapshot request = some page) :
    ∃ index, (FakeRenderService.new snapshot).answer request =
      match renderFlatTile index page request with
      | .error reason => .failed request reason
      | .ok tile => .ready request tile := by
  rw [← fake_findPage] at h
  obtain ⟨⟨index, found⟩, hfound, rfl⟩ := Option.map_eq_some_iff.1 h
  refine ⟨index, ?_⟩
  unfold FakeRenderService.answer
  rewrite [hfound]
  rfl

/-- Beside every tile Pdfium's worker sends, the fake over the same snapshot answers with one whose
edges are the same or a pixel longer - longer exactly where the single-precision product is rounded
up onto a half - unless that takes it over the limit on pixels; and it draws nothing the worker
would refuse by its size, but for edges longer than the worker takes or of no finite length. -/
theorem fake_answers_beside_pdfium [Pdfium] (snapshot : DocumentSnapshot) (request : RenderRequest) :
    (∀ fault fileIndices tile,
      answerRequest fault snapshot fileIndices request = .ready request tile →
      ∃ page, findPage snapshot request = some page ∧
        let width := flatEdge tile.width request.scale (turnedSize page request).widthPt
        let height := flatEdge tile.height request.scale (turnedSize page request).heightPt
        (width * height ≤ maxFlatPixels → ∃ flat,
          (FakeRenderService.new snapshot).answer request = .ready request flat ∧
            flat.width = width ∧ flat.height = height) ∧
        (maxFlatPixels < width * height → ∃ reason,
          (FakeRenderService.new snapshot).answer request = .failed request reason)) ∧
    ∀ flat, (FakeRenderService.new snapshot).answer request = .ready request flat →
      ∃ page, findPage snapshot request = some page ∧
        ((∃ geometry, computeTileGeometry page request = .ok geometry) ∨ EdgeRefused page request) := by
  constructor
  · intro fault fileIndices tile hready
    obtain ⟨-, geometry, hgeometry, hdrawn⟩ := answerRequest_ready hready
    obtain ⟨page, hpage, hresolved⟩ := Option.map_eq_some_iff.1 hgeometry
    obtain ⟨index, hanswer⟩ := fake_answer_eq hpage
    have hflat := drawsFlat_of_geometry index hresolved
    rw [← hdrawn.dimensions.1, ← hdrawn.dimensions.2] at hflat
    refine ⟨page, hpage, fun hfits => ?_, fun hlarge => ?_⟩
    · rw [DrawsFlat, if_pos hfits] at hflat
      obtain ⟨flat, hdraws, hedges⟩ := hflat
      rw [hdraws] at hanswer
      exact ⟨flat, hanswer, hedges⟩
    · rw [DrawsFlat, if_neg (by omega)] at hflat
      obtain ⟨reason, hrefuses⟩ := hflat
      rw [hrefuses] at hanswer
      exact ⟨reason, hanswer⟩
  · intro flat hready
    cases hpage : findPage snapshot request with
    | none =>
      rw [← fake_findPage, Option.map_eq_none_iff] at hpage
      rw [FakeRenderService.answer, hpage] at hready
      cases hready
    | some page =>
      obtain ⟨index, hanswer⟩ := fake_answer_eq hpage
      rw [hready] at hanswer
      cases hdraws : renderFlatTile index page request with
      | error reason =>
        rw [hdraws] at hanswer
        cases hanswer
      | ok tile => exact ⟨page, rfl, geometry_of_flat hdraws⟩

/-! ### A pixel between them -/

namespace SmallPage

open scoped BlankPdfium

def size : PageSize :=
  ⟨.finite 3 (by simpa using Binary32.representable_natCast (n := 3) (by decide)),
    .finite 3 (by simpa using Binary32.representable_natCast (n := 3) (by decide))⟩

def snapshot : DocumentSnapshot := ⟨1, [⟨0, size, .none⟩], 0⟩

def request : RenderRequest := ⟨1, 0, 0, 13981013 / 16777216, .none, by norm_num⟩

def tile : Tile := ⟨2, 2, List.replicate 16 255, Nat.two_pos, Nat.two_pos, rfl⟩

end SmallPage

open scoped BlankPdfium in
/-- Pdfium's worker draws two pixels by two, and the fake three by three. -/
theorem small_page_is_a_pixel_larger :
    answerRequest none SmallPage.snapshot [(0, 0)] SmallPage.request =
      .ready SmallPage.request SmallPage.tile ∧
    ∃ flat, (FakeRenderService.new SmallPage.snapshot).answer SmallPage.request =
      .ready SmallPage.request flat ∧ flat.width = 3 ∧ flat.height = 3 := by
  have hready : answerRequest none SmallPage.snapshot [(0, 0)] SmallPage.request =
      .ready SmallPage.request SmallPage.tile := by decide +kernel
  refine ⟨hready, ?_⟩
  obtain ⟨page, hpage, hflat, -⟩ :=
    (fake_answers_beside_pdfium SmallPage.snapshot SmallPage.request).1 none [(0, 0)] _ hready
  obtain rfl : ⟨0, SmallPage.size, .none⟩ = page := by
    have hfound : findPage SmallPage.snapshot SmallPage.request = some ⟨0, SmallPage.size, .none⟩ := rfl
    exact Option.some.inj (hfound.symm.trans hpage)
  obtain ⟨flat, hanswer, hwidth, hheight⟩ := hflat (by decide +kernel)
  refine ⟨flat, hanswer, hwidth.trans ?_, hheight.trans ?_⟩
  · decide +kernel
  · decide +kernel

end OpdfEditor
