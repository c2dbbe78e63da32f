import OpdfEditor.PageShape
import OpdfEditor.RequestPlanning

/-!
When the renderer accepts the size of every tile the canvas and the rail ask for. The shell bounds
the scale and the page's longest side, the renderer each edge and the area, so a texture limit large
enough lets through tiles the renderer refuses.
-/
namespace OpdfEditor

/-! ### Rungs of a ladder -/

section Ladder

variable {α : Type*} [LinearOrder α] {ladder : List α} {bound step : α}

/-- The first rung at or above a bound, going up. -/
theorem first_rung_isLeast (hsorted : ladder.Pairwise (· ≤ ·))
    (h : (ladder.find? fun step => decide (step ≥ bound)) = some step) :
    IsLeast {step | step ∈ ladder ∧ bound ≤ step} step := by
  obtain ⟨hstep, below, above, rfl, hbelow⟩ := List.find?_eq_some_iff_append.1 h
  refine ⟨⟨by simp, of_decide_eq_true hstep⟩, ?_⟩
  rintro other ⟨hother, hbound⟩
  rcases List.mem_append.1 hother with hother | hother
  · exact absurd hbound (by simpa using hbelow other hother)
  · rcases List.mem_cons.1 hother with rfl | hother
    · exact le_refl _
    · exact (List.pairwise_cons.1 (List.pairwise_append.1 hsorted).2.1).1 other hother

/-- The first rung at or below a bound, going down. -/
theorem last_rung_isGreatest (hsorted : ladder.Pairwise (· ≤ ·))
    (h : (ladder.reverse.find? fun step => decide (step ≤ bound)) = some step) :
    IsGreatest {step | step ∈ ladder ∧ step ≤ bound} step := by
  have hdown : ladder.reverse.Pairwise (α := αᵒᵈ) (· ≤ ·) := List.pairwise_reverse.2 hsorted
  obtain ⟨hstep, hgreatest⟩ := first_rung_isLeast (α := αᵒᵈ) hdown h
  exact ⟨⟨List.mem_reverse.1 hstep.1, hstep.2⟩,
    fun other hother => hgreatest ⟨List.mem_reverse.2 hother.1, hother.2⟩⟩

end Ladder

/-! ### The scale chosen -/

theorem renderScaleSteps_sorted : renderScaleSteps.Pairwise (· ≤ ·) := by decide +kernel

theorem quantizeRenderScale_mem (scale : ℚ) : quantizeRenderScale scale ∈ renderScaleSteps := by
  unfold quantizeRenderScale
  split
  · decide +kernel
  · cases hfound : renderScaleSteps.find? fun step => decide (step ≥ scale) with
    | none => decide +kernel
    | some step => exact List.mem_of_find?_eq_some hfound

/-- A scale up to the top step is at most the quantised one where every step that covers the wanted
scale is at least it. -/
theorem le_quantizeRenderScale_iff {scale : ℚ} (wanted : ℚ) (htop : scale ≤ 4) :
    scale ≤ quantizeRenderScale wanted ↔ ∀ step ∈ renderScaleSteps, wanted ≤ step → scale ≤ step := by
  unfold quantizeRenderScale
  split
  · rename_i hwanted
    constructor
    · exact fun h step hstep _ => h.trans (renderScaleSteps_ge step hstep)
    · exact fun h => h _ (by decide +kernel) (by linarith)
  · cases hfound : renderScaleSteps.find? fun step => decide (step ≥ wanted) with
    | none =>
      have hnone := List.find?_eq_none.1 hfound
      constructor
      · exact fun _ step hstep hcovers => absurd (decide_eq_true hcovers) (hnone step hstep)
      · exact fun _ => htop
    | some step =>
      obtain ⟨hmem, hleast⟩ := first_rung_isLeast renderScaleSteps_sorted hfound
      constructor
      · exact fun h other hother hcovers => h.trans (hleast ⟨hother, hcovers⟩)
      · exact fun h => h step hmem.1 hmem.2

def offeredScales : List ℚ := renderScaleSteps ++ (List.range 31).map fun k => ((k + 1 : ℕ) : ℚ) / 256

theorem mem_offeredScales {scale : ℚ} :
    scale ∈ offeredScales ↔ scale ∈ renderScaleSteps ∨ ∃ k : ℕ, 1 ≤ k ∧ k < 32 ∧ scale = k / 256 := by
  unfold offeredScales
  rw [List.mem_append, List.mem_map]
  refine or_congr_right ⟨?_, ?_⟩
  · rintro ⟨k, hk, rfl⟩
    exact ⟨k + 1, by omega, by have := List.mem_range.1 hk; omega, rfl⟩
  · rintro ⟨k, hlow, hhigh, rfl⟩
    exact ⟨k - 1, List.mem_range.2 (by omega), by rw [Nat.sub_add_cancel hlow]⟩

theorem offeredScales_bounds : ∀ scale ∈ offeredScales, 1 / 256 ≤ scale ∧ scale ≤ 4 := by decide +kernel

/-- The offered scales no higher than a step covering what is wanted, whose tile is within the
texture limit; the lowest one is always there. -/
def scalesWithin (covers : ℚ → Prop) (longestPt : ℚ) (maxTextureSide : Nat) : Set ℚ :=
  {scale | scale ∈ offeredScales ∧ (∀ step ∈ renderScaleSteps, covers step → scale ≤ step) ∧
    (scale = 1 / 256 ∨ longestPt * scale ≤ maxTextureSide)}

/-- Below the ladder, rounding down onto the grid gives its largest scale within the limit. -/
theorem grid_floor_isGreatest {limit : ℚ} (hsmall : limit < 125 / 1000) :
    IsGreatest {scale | (∃ k : ℕ, 1 ≤ k ∧ k < 32 ∧ scale = (k : ℚ) / 256) ∧
      (scale = 1 / 256 ∨ scale ≤ limit)} (max (⌊limit * 256⌋ : ℚ) 1 / 256) := by
  have hfloor : ⌊limit * 256⌋ < 32 := Int.floor_lt.2 (by push_cast; linarith)
  have hcast : (max (⌊limit * 256⌋ : ℚ) 1) = ((max ⌊limit * 256⌋ 1).toNat : ℕ) := by
    have hnonneg : 0 ≤ max ⌊limit * 256⌋ 1 := le_max_of_le_right (by decide)
    rw [← Int.cast_natCast, Int.toNat_of_nonneg hnonneg]
    push_cast
    rfl
  refine ⟨⟨⟨(max ⌊limit * 256⌋ 1).toNat, by omega, by omega, by rw [hcast]⟩, ?_⟩, ?_⟩
  · by_cases hone : 1 ≤ limit * 256
    · exact .inr (grid_le_limit_iff.2 hone)
    · have : ⌊limit * 256⌋ < 1 := Int.floor_lt.2 (by push_cast; linarith)
      rw [max_eq_right (by exact_mod_cast this.le)]
      exact .inl rfl
  · rintro scale ⟨⟨k, hlow, -, rfl⟩, hwithin⟩
    refine div_le_div_of_nonneg_right ?_ (by norm_num)
    rcases hwithin with hone | hwithin
    · have : (k : ℚ) = 1 := by linarith
      rw [this]
      exact le_max_right _ _
    · have : (k : ℤ) ≤ ⌊limit * 256⌋ := Int.le_floor.2 (by push_cast; linarith)
      exact le_max_of_le_left (by exact_mod_cast this)

/-- The scale chosen for a page is the largest of them. -/
theorem fitRenderScaleToTextureLimit_isGreatest (wanted : ℚ) {widthPt heightPt : ℚ}
    {maxTextureSide : Nat} (hlongest : 0 < max widthPt heightPt) (hside : 0 < maxTextureSide) :
    IsGreatest (scalesWithin (fun step => wanted ≤ step) (max widthPt heightPt) maxTextureSide)
      (fitRenderScaleToTextureLimit wanted widthPt heightPt maxTextureSide) := by
  have hlimit : ∀ scale : ℚ, max widthPt heightPt * scale ≤ maxTextureSide ↔
      scale ≤ maxTextureSide / max widthPt heightPt := by
    intro scale
    rw [le_div_iff₀ hlongest, mul_comm]
  have hquantized := fun scale (hoffered : scale ∈ offeredScales) =>
    le_quantizeRenderScale_iff wanted (offeredScales_bounds scale hoffered).2
  unfold fitRenderScaleToTextureLimit
  dsimp only
  rw [if_neg (by
    rintro (h | h)
    · exact absurd hlongest (not_lt.2 h)
    · exact absurd hside (by omega))]
  split
  · rename_i hfits
    have hmem := mem_offeredScales.2 (.inl (quantizeRenderScale_mem wanted))
    exact ⟨⟨hmem, (hquantized _ hmem).1 (le_refl _), .inr ((hlimit _).2 hfits)⟩,
      fun scale hscale => (hquantized _ hscale.1).2 hscale.2.1⟩
  rename_i hover
  split
  · rename_i step hfound
    obtain ⟨⟨hmem, hstep⟩, hgreatest⟩ := last_rung_isGreatest renderScaleSteps_sorted hfound
    have hoffered := mem_offeredScales.2 (.inl hmem)
    refine ⟨⟨hoffered, (hquantized _ hoffered).1 (by linarith), .inr ((hlimit _).2 hstep)⟩, ?_⟩
    intro scale hscale
    have hbelow : (32 : ℚ) / 256 ≤ step := by linarith [renderScaleSteps_ge step hmem]
    rcases mem_offeredScales.1 hscale.1 with hladder | ⟨k, -, hk, rfl⟩
    · rcases hscale.2.2 with rfl | hwithin
      · linarith
      · exact hgreatest ⟨hladder, (hlimit _).1 hwithin⟩
    · have : (k : ℚ) < 32 := by exact_mod_cast hk
      linarith
  · rename_i hnone
    have hsmall := limit_lt_of_no_step hnone
    obtain ⟨⟨hgrid, hwithin⟩, hgreatest⟩ := grid_floor_isGreatest hsmall
    refine ⟨⟨mem_offeredScales.2 (.inr hgrid), ?_, hwithin.imp id (hlimit _).2⟩, ?_⟩
    · intro step hstep _
      obtain ⟨k, -, hk, hscale⟩ := hgrid
      have : (k : ℚ) ≤ 31 := by exact_mod_cast Nat.lt_succ_iff.1 hk
      rw [hscale]
      linarith [renderScaleSteps_ge step hstep]
    · intro scale hscale
      have hscaleWithin := hscale.2.2.imp id (hlimit scale).1
      rcases mem_offeredScales.1 hscale.1 with hladder | hgrid'
      · have hlow := renderScaleSteps_ge scale hladder
        rcases hscaleWithin with rfl | hbelow
        · norm_num at hlow
        · linarith
      · exact hgreatest ⟨hgrid', hscaleWithin⟩

/-! ### What the renderer accepts -/

/-- The renderer's bounds, for a page of these extents drawn at this scale. -/
def SizeAccepted (widthPt heightPt scale : ℚ) : Prop :=
  pixels (widthPt * scale) ≤ maxTileEdge ∧ pixels (heightPt * scale) ≤ maxTileEdge ∧
    pixels (widthPt * scale) * pixels (heightPt * scale) ≤ maxTilePixels

instance (widthPt heightPt scale : ℚ) : Decidable (SizeAccepted widthPt heightPt scale) :=
  inferInstanceAs (Decidable (_ ∧ _))

theorem pixels_pos (edge : ℚ) : 0 < pixels edge := lt_of_lt_of_le one_pos (le_max_right _ _)

theorem pixels_mono {edge edge' : ℚ} (h : edge ≤ edge') : pixels edge ≤ pixels edge' :=
  max_le_max (Int.floor_mono (by linarith)) (le_refl _)

theorem SizeAccepted.swap {widthPt heightPt scale : ℚ} (h : SizeAccepted widthPt heightPt scale) :
    SizeAccepted heightPt widthPt scale :=
  ⟨h.2.1, h.1, by rw [mul_comm]; exact h.2.2⟩

/-- A smaller scale is accepted where a larger one is. -/
theorem SizeAccepted.anti {widthPt heightPt scale scale' : ℚ} (hwidth : 0 ≤ widthPt)
    (hheight : 0 ≤ heightPt) (hscale : scale ≤ scale') (h : SizeAccepted widthPt heightPt scale') :
    SizeAccepted widthPt heightPt scale := by
  have hw := pixels_mono (mul_le_mul_of_nonneg_left hscale hwidth)
  have hh := pixels_mono (mul_le_mul_of_nonneg_left hscale hheight)
  exact ⟨hw.trans h.1, hh.trans h.2.1,
    (mul_le_mul hw hh (pixels_pos _).le (pixels_pos _).le).trans h.2.2⟩

/-- The renderer's geometry for a request, within its bounds. -/
def PassesSizeCheck (page : PageInfo) (request : RenderRequest) : Prop :=
  ∃ geometry, computeTileGeometry page request = .ok geometry ∧ geometry.widthPx ≤ maxTileEdge ∧
    geometry.heightPx ≤ maxTileEdge ∧ geometry.widthPx * geometry.heightPx ≤ maxTilePixels

theorem scaleEdge_ok {sizePt : Binary32.F32} {scale : ℚ} (hpos : 0 < sizePt.value)
    (h : pixels (sizePt.value * scale) ≤ maxTileEdge) : ∃ edge, scaleEdge sizePt scale = .ok edge := by
  cases sizePt with
  | finite q hq =>
    have hbound : max ⌊q * scale + 1 / 2⌋ 1 ≤ (maxTileEdge : ℤ) := h
    unfold scaleEdge
    dsimp only
    rw [if_neg (by omega)]
    exact ⟨_, rfl⟩
  | inf negative => exact absurd hpos (lt_irrefl _)
  | nan => exact absurd hpos (lt_irrefl _)

theorem scaleEdge_le_maxTileEdge {sizePt : Binary32.F32} {scale : ℚ} {edge : Nat}
    (h : scaleEdge sizePt scale = .ok edge) : edge ≤ maxTileEdge := by
  unfold scaleEdge at h
  split at h
  · dsimp only at h
    split at h
    · cases h
    · cases h
      omega
  · cases h

/-- The renderer takes a request exactly where the page's extents at its scale are in bounds,
whichever way the view is turned. -/
theorem passesSizeCheck_iff {page : PageInfo} {request : RenderRequest}
    (hwidth : 0 < displayWidth page) (hheight : 0 < displayHeight page) :
    PassesSizeCheck page request ↔
      SizeAccepted (displayWidth page) (displayHeight page) request.scale := by
  obtain ⟨hturnedWidth, hturnedHeight⟩ := turned_extents page request.rotation
  have hturned : SizeAccepted
      ({ page with rotation := page.rotation.rotatedBy request.rotation } : PageInfo).displaySize.widthPt.value
      ({ page with rotation := page.rotation.rotatedBy request.rotation } : PageInfo).displaySize.heightPt.value
      request.scale ↔ SizeAccepted (displayWidth page) (displayHeight page) request.scale := by
    rw [hturnedWidth, hturnedHeight]
    split
    · exact ⟨SizeAccepted.swap, SizeAccepted.swap⟩
    · exact Iff.rfl
  rw [← hturned]
  constructor
  · rintro ⟨geometry, hgeometry, hw, hh, harea⟩
    obtain ⟨hwidthPx, hheightPx⟩ := tile_edges hgeometry
    rw [← hturnedWidth] at hwidthPx
    rw [← hturnedHeight] at hheightPx
    unfold SizeAccepted
    rw [← hwidthPx, ← hheightPx]
    exact ⟨by exact_mod_cast hw, by exact_mod_cast hh, by exact_mod_cast harea⟩
  · intro haccepted
    obtain ⟨widthPx, hw⟩ := scaleEdge_ok (by rw [hturnedWidth]; split <;> assumption) haccepted.1
    obtain ⟨heightPx, hh⟩ := scaleEdge_ok (by rw [hturnedHeight]; split <;> assumption) haccepted.2.1
    have harea : widthPx * heightPx ≤ maxTilePixels := by
      have hbound := haccepted.2.2
      rw [← scaleEdge_eq hw, ← scaleEdge_eq hh] at hbound
      exact_mod_cast hbound
    refine ⟨⟨widthPx, heightPx, page.rotation.rotatedBy request.rotation⟩, ?_,
      scaleEdge_le_maxTileEdge hw, scaleEdge_le_maxTileEdge hh, harea⟩
    simp only [computeTileGeometry, hw, hh, if_neg (not_lt.2 harea)]

/-- The chosen scale is accepted exactly where all the scales it is the largest of are. -/
theorem fitted_scale_accepted_iff (wanted : ℚ) {widthPt heightPt : ℚ} {maxTextureSide : Nat}
    (hwidth : 0 < widthPt) (hheight : 0 < heightPt) (hside : 0 < maxTextureSide) :
    SizeAccepted widthPt heightPt (fitRenderScaleToTextureLimit wanted widthPt heightPt maxTextureSide) ↔
      ∀ scale ∈ scalesWithin (fun step => wanted ≤ step) (max widthPt heightPt) maxTextureSide,
        SizeAccepted widthPt heightPt scale := by
  obtain ⟨hmem, hgreatest⟩ :=
    fitRenderScaleToTextureLimit_isGreatest wanted (lt_max_of_lt_left hwidth) hside
  constructor
  · exact fun h scale hscale => h.anti hwidth.le hheight.le (hgreatest hscale)
  · exact fun h => h _ hmem

/-! ### What the shell asks for -/

/-- A fitted scale depends on the wanted one through the steps that cover it. -/
theorem fitted_scale_covers_iff {covers : ℚ → Prop} {wanted widthPt heightPt : ℚ}
    {maxTextureSide : Nat} (hwidth : 0 < widthPt) (hheight : 0 < heightPt) (hside : 0 < maxTextureSide)
    (hcovers : ∀ step ∈ renderScaleSteps, wanted ≤ step ↔ covers step) :
    SizeAccepted widthPt heightPt (fitRenderScaleToTextureLimit wanted widthPt heightPt maxTextureSide) ↔
      ∀ scale ∈ scalesWithin covers (max widthPt heightPt) maxTextureSide,
        SizeAccepted widthPt heightPt scale := by
  have hsame : scalesWithin (fun step => wanted ≤ step) (max widthPt heightPt) maxTextureSide =
      scalesWithin covers (max widthPt heightPt) maxTextureSide := by
    ext scale
    refine and_congr_right fun _ => and_congr_left fun _ => ?_
    exact forall₂_congr fun step hstep => imp_congr_left (hcovers step hstep)
  rw [fitted_scale_accepted_iff wanted hwidth hheight hside, hsame]

/-- The canvas quantises its scale before a page's size is looked at, which changes nothing. -/
theorem quantizeRenderScale_idem (scale : ℚ) :
    quantizeRenderScale (quantizeRenderScale scale) = quantizeRenderScale scale := by
  have hmem := quantizeRenderScale_mem scale
  have htop := (offeredScales_bounds _ (mem_offeredScales.2 (.inl hmem))).2
  refine le_antisymm ?_ ((le_quantizeRenderScale_iff _ htop).2 fun step _ hcovers => hcovers)
  exact (le_quantizeRenderScale_iff _ (offeredScales_bounds _ (mem_offeredScales.2 (.inl
    (quantizeRenderScale_mem _)))).2).1 (le_refl _) _ hmem (le_refl _)

theorem fitRenderScaleToTextureLimit_quantized (scale widthPt heightPt : ℚ) (maxTextureSide : Nat) :
    fitRenderScaleToTextureLimit (quantizeRenderScale scale) widthPt heightPt maxTextureSide =
      fitRenderScaleToTextureLimit scale widthPt heightPt maxTextureSide := by
  unfold fitRenderScaleToTextureLimit
  rw [quantizeRenderScale_idem]

theorem renderScaleSteps_on_grid : ∀ step ∈ renderScaleSteps, (⌊step * 512⌋ : ℚ) = step * 512 := by
  decide +kernel

/-- The steps that cover a thumbnail's rounded scale are those within half a grid unit below the
exact one. -/
theorem computeThumbnailScale_le_iff {widthPt : ℚ} (hwidth : 0 < widthPt) :
    ∀ step ∈ renderScaleSteps, computeThumbnailScale widthPt ≤ step ↔
      thumbnailWidthPt / widthPt < step + 1 / 1024 := by
  intro step hstep
  have hexact : 0 < thumbnailWidthPt / widthPt := div_pos (by norm_num [thumbnailWidthPt]) hwidth
  have hscale : computeThumbnailScale widthPt =
      max ((⌊thumbnailWidthPt / widthPt * 512 + 1 / 2⌋ : ℚ) / 512) (1 / 512) := by
    unfold computeThumbnailScale quantizeScale roundHalfAway thumbnailScaleGrid
    rw [if_neg (not_le.2 hwidth), if_neg (by rintro (h | h) <;> linarith), if_neg (by linarith)]
  have hlow := renderScaleSteps_ge step hstep
  rw [hscale, max_le_iff, div_le_iff₀ (by norm_num), ← renderScaleSteps_on_grid step hstep,
    and_iff_left (by linarith), Int.cast_le, ← Int.lt_add_one_iff, Int.floor_lt]
  push_cast
  rw [renderScaleSteps_on_grid step hstep]
  constructor
  · intro h
    linarith
  · intro h
    linarith

/-- The scales the canvas may be led to, for a page of this longest side. -/
def canvasScales (zoom pixelsPerPoint longestPt : ℚ) (maxTextureSide : Nat) : Set ℚ :=
  scalesWithin (fun step => clampZoom zoom * max pixelsPerPoint 1 ≤ step) longestPt maxTextureSide

/-- The scales the rail may be led to, for a page of this width and longest side. -/
def thumbnailScales (widthPt longestPt : ℚ) (maxTextureSide : Nat) : Set ℚ :=
  scalesWithin (fun step => thumbnailWidthPt / widthPt < step + 1 / 1024) longestPt maxTextureSide

namespace ViewerState

/-- Every request planned for the canvas or made by the rail, for a page of the viewer's snapshot,
passes the renderer's size check. -/
def NeverRefused (pixelsPerPoint : ℚ) (maxTextureSide : Nat) (v : ViewerState) : Prop :=
  (∀ visible focus isWanted budget,
    ∀ request ∈ (planRenderRequests v.snapshot visible focus
      (v.renderSettings pixelsPerPoint maxTextureSide) isWanted budget).requests,
    ∀ page ∈ v.snapshot.pages,
      requestPage v.snapshot (v.renderSettings pixelsPerPoint maxTextureSide) page = some request →
        PassesSizeCheck page request) ∧
  ∀ page ∈ v.snapshot.pages, ∀ request,
    requestThumbnail v.snapshot maxTextureSide page = some request → PassesSizeCheck page request

/-- Every page of a snapshot is in some frame's plan. -/
theorem exists_plan_of_mem {snapshot : DocumentSnapshot} {settings : RenderSettings} {page : PageInfo}
    {request : RenderRequest} (hpage : page ∈ snapshot.pages)
    (hrequest : requestPage snapshot settings page = some request) :
    ∃ visible focus isWanted budget,
      request ∈ (planRenderRequests snapshot visible focus settings isWanted budget).requests := by
  obtain ⟨index, hindex⟩ := List.mem_iff_getElem?.1 hpage
  let visible : IndexRange := ⟨index, index + 1⟩
  refine ⟨visible, 0, fun _ => true,
    (wantedRequests snapshot visible 0 settings fun _ => true).length, ?_⟩
  rw [planRenderRequests_eq, List.take_length]
  refine List.mem_filter.2 ⟨List.mem_filterMap.2 ⟨index, ?_, ?_⟩, rfl⟩
  · refine (orderByDistanceFromFocus_perm visible 0).mem_iff.2 ?_
    simp [visible, IndexRange.indices]
  · rw [requestAt, hindex, Option.bind_some, hrequest]

theorem displayed_extents_pos {page : PageInfo}
    (h : 0 < page.size.widthPt.value ∧ 0 < page.size.heightPt.value) :
    0 < displayWidth page ∧ 0 < displayHeight page := by
  unfold displayWidth displayHeight PageInfo.displaySize
  split
  · exact h.symm
  · exact h

theorem canvas_request_passes_iff {pixelsPerPoint : ℚ} {maxTextureSide : Nat} {v : ViewerState}
    {page : PageInfo} {request : RenderRequest} (hwidth : 0 < displayWidth page)
    (hheight : 0 < displayHeight page) (hside : 0 < maxTextureSide)
    (hrequest : requestPage v.snapshot (v.renderSettings pixelsPerPoint maxTextureSide) page =
      some request) :
    PassesSizeCheck page request ↔
      ∀ scale ∈ canvasScales v.zoom pixelsPerPoint (max (displayWidth page) (displayHeight page))
        maxTextureSide, SizeAccepted (displayWidth page) (displayHeight page) scale := by
  have hscale : request.scale = fitRenderScaleToTextureLimit (clampZoom v.zoom * max pixelsPerPoint 1)
      (displayWidth page) (displayHeight page) maxTextureSide := by
    rw [requestPage_eq_some] at hrequest
    cases hrequest
    exact fitRenderScaleToTextureLimit_quantized _ _ _ _
  rw [passesSizeCheck_iff hwidth hheight, hscale]
  exact fitted_scale_accepted_iff _ hwidth hheight hside

theorem thumbnail_request_passes_iff {snapshot : DocumentSnapshot} {maxTextureSide : Nat}
    {page : PageInfo} {request : RenderRequest} (hwidth : 0 < displayWidth page)
    (hheight : 0 < displayHeight page) (hside : 0 < maxTextureSide)
    (hrequest : requestThumbnail snapshot maxTextureSide page = some request) :
    PassesSizeCheck page request ↔
      ∀ scale ∈ thumbnailScales (displayWidth page) (max (displayWidth page) (displayHeight page))
        maxTextureSide, SizeAccepted (displayWidth page) (displayHeight page) scale := by
  have hscale : request.scale = fitRenderScaleToTextureLimit (computeThumbnailScale (displayWidth page))
      (displayWidth page) (displayHeight page) maxTextureSide := by
    unfold requestThumbnail RenderRequest.new at hrequest
    split at hrequest
    · cases hrequest
      rfl
    · cases hrequest
  rw [passesSizeCheck_iff hwidth hheight, hscale]
  exact fitted_scale_covers_iff hwidth hheight hside (computeThumbnailScale_le_iff hwidth)

theorem requestThumbnail_isSome (snapshot : DocumentSnapshot) (maxTextureSide : Nat) (page : PageInfo) :
    ∃ request, requestThumbnail snapshot maxTextureSide page = some request := by
  unfold requestThumbnail RenderRequest.new
  rw [dif_pos (fitRenderScaleToTextureLimit_pos _ _ _ _)]
  exact ⟨_, rfl⟩

theorem neverRefused_of_accepted {pixelsPerPoint : ℚ} {maxTextureSide : Nat} {v : ViewerState}
    (hextents : ∀ page ∈ v.snapshot.pages,
      0 < page.size.widthPt.value ∧ 0 < page.size.heightPt.value) (hside : 0 < maxTextureSide)
    (haccepted : ∀ page ∈ v.snapshot.pages, ∀ scale ∈
      canvasScales v.zoom pixelsPerPoint (max (displayWidth page) (displayHeight page)) maxTextureSide ∪
      thumbnailScales (displayWidth page) (max (displayWidth page) (displayHeight page)) maxTextureSide,
        SizeAccepted (displayWidth page) (displayHeight page) scale) :
    v.NeverRefused pixelsPerPoint maxTextureSide := by
  constructor
  · intro visible focus isWanted budget request _ page hpage hrequest
    obtain ⟨hwidth, hheight⟩ := displayed_extents_pos (hextents page hpage)
    exact (canvas_request_passes_iff hwidth hheight hside hrequest).2
      fun scale hscale => haccepted page hpage scale (.inl hscale)
  · intro page hpage request hrequest
    obtain ⟨hwidth, hheight⟩ := displayed_extents_pos (hextents page hpage)
    exact (thumbnail_request_passes_iff hwidth hheight hside hrequest).2
      fun scale hscale => haccepted page hpage scale (.inr hscale)

/-- The renderer refuses no tile for its size exactly where, for every page, each scale its canvas
and thumbnail requests may be led to is within the renderer's bounds. -/
theorem never_refused_iff (pixelsPerPoint : ℚ) (maxTextureSide : Nat) (v : ViewerState)
    (hextents : ∀ page ∈ v.snapshot.pages,
      0 < page.size.widthPt.value ∧ 0 < page.size.heightPt.value) (hside : 0 < maxTextureSide) :
    v.NeverRefused pixelsPerPoint maxTextureSide ↔
      ∀ page ∈ v.snapshot.pages, ∀ scale ∈
        canvasScales v.zoom pixelsPerPoint (max (displayWidth page) (displayHeight page)) maxTextureSide ∪
        thumbnailScales (displayWidth page) (max (displayWidth page) (displayHeight page)) maxTextureSide,
          SizeAccepted (displayWidth page) (displayHeight page) scale := by
  constructor
  · rintro ⟨hcanvas, hrail⟩ page hpage scale (hscale | hscale)
    · obtain ⟨hwidth, hheight⟩ := displayed_extents_pos (hextents page hpage)
      have hrequest := requestPage_eq_some v.snapshot (v.renderSettings pixelsPerPoint maxTextureSide) page
      obtain ⟨visible, focus, isWanted, budget, hplanned⟩ := exists_plan_of_mem hpage hrequest
      exact (canvas_request_passes_iff hwidth hheight hside hrequest).1
        (hcanvas visible focus isWanted budget _ hplanned page hpage hrequest) scale hscale
    · obtain ⟨hwidth, hheight⟩ := displayed_extents_pos (hextents page hpage)
      obtain ⟨request, hrequest⟩ := requestThumbnail_isSome v.snapshot maxTextureSide page
      exact (thumbnail_request_passes_iff hwidth hheight hside hrequest).1
        (hrail page hpage request hrequest) scale hscale
  · exact neverRefused_of_accepted hextents hside

theorem pixels_le {edge : ℚ} {limit : ℕ} (hlimit : 0 < limit) (h : edge ≤ limit) :
    pixels edge ≤ limit := by
  have hfloor : ⌊edge + 1 / 2⌋ < (limit : ℤ) + 1 := Int.floor_lt.2 (by push_cast; linarith)
  exact max_le (Int.lt_add_one_iff.1 hfloor) (by omega)

/-- A tile of at most 8192 by 8192 pixels is within the renderer's bounds. -/
theorem accepted_of_small_texture {covers : ℚ → Prop} {widthPt heightPt scale : ℚ}
    {maxTextureSide : Nat} (hside : 0 < maxTextureSide) (hsmall : maxTextureSide ≤ 8192)
    (hlongest : max widthPt heightPt ≤ 256 * maxTextureSide)
    (hscale : scale ∈ scalesWithin covers (max widthPt heightPt) maxTextureSide) :
    SizeAccepted widthPt heightPt scale := by
  have hpos : 0 ≤ scale := by linarith [(offeredScales_bounds scale hscale.1).1]
  have hwithin : max widthPt heightPt * scale ≤ maxTextureSide := by
    rcases hscale.2.2 with rfl | hwithin
    · linarith
    · exact hwithin
  have hedge : ∀ sizePt ≤ max widthPt heightPt, pixels (sizePt * scale) ≤ maxTextureSide := fun sizePt h =>
    pixels_le hside ((mul_le_mul_of_nonneg_right h hpos).trans hwithin)
  have hwidth := hedge widthPt (le_max_left _ _)
  have hheight := hedge heightPt (le_max_right _ _)
  have hbound : (maxTextureSide : ℤ) ≤ 8192 := by exact_mod_cast hsmall
  refine ⟨hwidth.trans (hbound.trans (by decide)), hheight.trans (hbound.trans (by decide)), ?_⟩
  calc pixels (widthPt * scale) * pixels (heightPt * scale)
      ≤ 8192 * 8192 := mul_le_mul (hwidth.trans hbound) (hheight.trans hbound) (pixels_pos _).le (by decide)
    _ = maxTilePixels := by decide

/-- Up to a texture limit of 8192 pixels nothing is refused, as long as the lowest scale of the grid
keeps every page inside the limit. -/
theorem small_textures_never_refused (pixelsPerPoint : ℚ) {maxTextureSide : Nat} {v : ViewerState}
    (hextents : ∀ page ∈ v.snapshot.pages,
      0 < page.size.widthPt.value ∧ 0 < page.size.heightPt.value)
    (hside : 0 < maxTextureSide) (hsmall : maxTextureSide ≤ 8192)
    (hlongest : ∀ page ∈ v.snapshot.pages,
      max (displayWidth page) (displayHeight page) ≤ 256 * maxTextureSide) :
    v.NeverRefused pixelsPerPoint maxTextureSide := by
  refine neverRefused_of_accepted hextents hside ?_
  rintro page hpage scale (hscale | hscale)
  · exact accepted_of_small_texture hside hsmall (hlongest page hpage) hscale
  · exact accepted_of_small_texture hside hsmall (hlongest page hpage) hscale

end ViewerState

/-! ### An A0 sheet -/

namespace PosterSheet

def size : PageSize :=
  ⟨.finite 2384 (by simpa using Binary32.representable_natCast (n := 2384) (by decide)),
    .finite 3370 (by simpa using Binary32.representable_natCast (n := 3370) (by decide))⟩

def page : PageInfo := ⟨0, size, .none⟩

def viewer : ViewerState := { ViewerState.new ⟨1, [page], 0⟩ with zoom := 4 }

end PosterSheet

namespace ViewerState

open PosterSheet (page viewer)

/-- With textures up to 16384 pixels the sheet is asked for at 9536 by 13480 pixels, twice the area
the renderer allows. -/
theorem poster_sheet_is_refused :
    ¬ ∀ (pixelsPerPoint : ℚ) (maxTextureSide : Nat) (v : ViewerState),
      (∀ page ∈ v.snapshot.pages, 0 < page.size.widthPt.value ∧ 0 < page.size.heightPt.value) →
        0 < maxTextureSide → v.NeverRefused pixelsPerPoint maxTextureSide := by
  intro hnever
  have hextents : ∀ page ∈ viewer.snapshot.pages,
      0 < page.size.widthPt.value ∧ 0 < page.size.heightPt.value := by decide +kernel
  have hpage : page ∈ viewer.snapshot.pages := by decide +kernel
  obtain ⟨hcanvas, -⟩ := hnever 1 16384 viewer hextents (by decide)
  have hrequest := requestPage_eq_some viewer.snapshot (viewer.renderSettings 1 16384) page
  obtain ⟨visible, focus, isWanted, budget, hplanned⟩ := exists_plan_of_mem hpage hrequest
  have hpasses := hcanvas visible focus isWanted budget _ hplanned page hpage hrequest
  rw [passesSizeCheck_iff (by decide +kernel) (by decide +kernel)] at hpasses
  exact absurd hpasses (by decide +kernel)

/-- With textures up to 8192 pixels it is asked for at twice its size, which the renderer allows. -/
theorem poster_sheet_never_refused_iff :
    viewer.NeverRefused 1 8192 ↔
      ∀ page ∈ viewer.snapshot.pages, ∀ scale ∈
        canvasScales viewer.zoom 1 (max (displayWidth page) (displayHeight page)) 8192 ∪
        thumbnailScales (displayWidth page) (max (displayWidth page) (displayHeight page)) 8192,
          SizeAccepted (displayWidth page) (displayHeight page) scale :=
  never_refused_iff 1 8192 viewer (by decide +kernel) (by decide)

end ViewerState
end OpdfEditor
