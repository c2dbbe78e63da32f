import OpdfEditor.Viewer

/-!
When the scale chosen for a page keeps its tile inside the texture limit: as long as the
grid's lowest scale does.
-/
namespace OpdfEditor

theorem renderScaleSteps_ge : ∀ step ∈ renderScaleSteps, (125 / 1000 : ℚ) ≤ step := by decide +kernel

theorem quantizeRenderScale_ge (scale : ℚ) : 125 / 1000 ≤ quantizeRenderScale scale := by
  unfold quantizeRenderScale
  split
  · exact le_refl _
  · cases hfound : renderScaleSteps.find? fun step => decide (step ≥ scale) with
    | none => norm_num
    | some step => exact renderScaleSteps_ge step (List.mem_of_find?_eq_some hfound)

/-- The step found going down the ladder is the largest one within the limit. -/
theorem ladder_step_fits {limit step : ℚ}
    (h : (renderScaleSteps.reverse.find? fun step => decide (step ≤ limit)) = some step) :
    125 / 1000 ≤ step ∧ step ≤ limit :=
  ⟨renderScaleSteps_ge step (List.mem_reverse.1 (List.mem_of_find?_eq_some h)),
    by simpa using List.find?_some h⟩

/-- Below the ladder every step is too large. -/
theorem limit_lt_of_no_step {limit : ℚ}
    (h : (renderScaleSteps.reverse.find? fun step => decide (step ≤ limit)) = none) :
    limit < 125 / 1000 := by
  have hnone := List.find?_eq_none.1 h (125 / 1000) (by decide +kernel)
  simpa using hnone

theorem fitRenderScaleToTextureLimit_pos (scale widthPt heightPt : ℚ) (maxTextureSide : Nat) :
    0 < fitRenderScaleToTextureLimit scale widthPt heightPt maxTextureSide := by
  have hwanted : 0 < quantizeRenderScale scale :=
    lt_of_lt_of_le (by norm_num) (quantizeRenderScale_ge scale)
  unfold fitRenderScaleToTextureLimit
  dsimp only
  split
  · exact hwanted
  split
  · exact hwanted
  split
  · rename_i step hfound
    exact lt_of_lt_of_le (by norm_num) (ladder_step_fits hfound).1
  · exact div_pos (lt_of_lt_of_le one_pos (le_max_right _ _)) (by norm_num)

/-- What the scale chosen for a page has to satisfy for its tile to be uploadable. -/
structure FitsTexture (scale widthPt heightPt : ℚ) (maxTextureSide : Nat) : Prop where
  positive : 0 < fitRenderScaleToTextureLimit scale widthPt heightPt maxTextureSide
  quantized : fitRenderScaleToTextureLimit scale widthPt heightPt maxTextureSide ≤
    quantizeRenderScale scale
  within : max widthPt heightPt *
    fitRenderScaleToTextureLimit scale widthPt heightPt maxTextureSide ≤ maxTextureSide

/-- The grid below the ladder starts at one 256th. -/
theorem grid_le_limit_iff {limit : ℚ} : max (⌊limit * 256⌋ : ℚ) 1 / 256 ≤ limit ↔ 1 ≤ limit * 256 := by
  rw [div_le_iff₀ (by norm_num : (0 : ℚ) < 256), max_le_iff]
  exact ⟨fun h => h.2, fun h => ⟨Int.floor_le _, h⟩⟩

/-- The chosen scale keeps a page inside the texture limit exactly where the lowest scale of the
grid does. -/
theorem fits_texture_iff {widthPt heightPt : ℚ} {maxTextureSide : Nat} (scale : ℚ)
    (hwidth : 0 < widthPt) (hside : 0 < maxTextureSide) :
    FitsTexture scale widthPt heightPt maxTextureSide ↔
      max widthPt heightPt ≤ 256 * maxTextureSide := by
  have hlongest : 0 < max widthPt heightPt := lt_max_of_lt_left hwidth
  have hlimit : ∀ s : ℚ, max widthPt heightPt * s ≤ maxTextureSide ↔
      s ≤ maxTextureSide / max widthPt heightPt := by
    intro s
    rw [le_div_iff₀ hlongest, mul_comm]
  have hcondition : max widthPt heightPt ≤ 256 * maxTextureSide ↔
      1 ≤ maxTextureSide / max widthPt heightPt * 256 := by
    rw [div_mul_eq_mul_div, le_div_iff₀ hlongest, one_mul, mul_comm]
  have hpositive := fitRenderScaleToTextureLimit_pos scale widthPt heightPt maxTextureSide
  have hwanted := quantizeRenderScale_ge scale
  have hchosen : (fitRenderScaleToTextureLimit scale widthPt heightPt maxTextureSide ≤
        quantizeRenderScale scale) ∧
      (fitRenderScaleToTextureLimit scale widthPt heightPt maxTextureSide ≤
        maxTextureSide / max widthPt heightPt ↔
        1 ≤ maxTextureSide / max widthPt heightPt * 256) := by
    unfold fitRenderScaleToTextureLimit
    dsimp only
    rw [if_neg (by
      rintro (h | h)
      · exact absurd hlongest (not_lt.2 h)
      · exact absurd hside (by omega))]
    split
    · rename_i hfits
      exact ⟨le_refl _, iff_of_true hfits (by linarith)⟩
    rename_i hover
    split
    · rename_i step hfound
      obtain ⟨hlow, hstep⟩ := ladder_step_fits hfound
      exact ⟨by linarith, iff_of_true hstep (by linarith)⟩
    · rename_i hnone
      have hsmall := limit_lt_of_no_step hnone
      refine ⟨?_, grid_le_limit_iff⟩
      rw [div_le_iff₀ (by norm_num : (0 : ℚ) < 256), max_le_iff]
      have hfloor := Int.floor_le (maxTextureSide / max widthPt heightPt * 256 : ℚ)
      exact ⟨by linarith, by linarith⟩
  rw [hcondition]
  constructor
  · intro h
    exact hchosen.2.1 ((hlimit _).1 h.within)
  · intro h
    exact ⟨hpositive, hchosen.1, (hlimit _).2 (hchosen.2.2 h)⟩

theorem fits_texture_letter : FitsTexture 2 612 792 8192 ↔ max (612 : ℚ) 792 ≤ 256 * (8192 : Nat) :=
  fits_texture_iff 2 (by norm_num) (by norm_num)

/-- A scroll four million points long is asked for at one 256th, more than 15000 pixels long. -/
theorem scroll_exceeds_texture : ¬ FitsTexture 1 612 4000000 8192 := by
  intro h
  have hscale : fitRenderScaleToTextureLimit 1 612 4000000 8192 = 1 / 256 := by decide +kernel
  have hwithin := h.within
  rw [hscale] at hwithin
  norm_num at hwithin

/-! ### What the canvas and the rail ask for -/

/-- An edge scaled within a whole number of pixels rounds within it. -/
theorem scaleEdge_le {sizePt : Binary32.F32} {scale : ℚ} {edge limit : Nat} (hlimit : 0 < limit)
    (hfits : sizePt.value * scale ≤ limit) (h : scaleEdge sizePt scale = .ok edge) : edge ≤ limit := by
  unfold scaleEdge at h
  split at h
  · rename_i q hq
    dsimp only at h
    split at h
    · cases h
    · cases h
      have hrounded : ⌊q * scale + 1 / 2⌋ ≤ (limit : ℤ) := by
        have hfloor := Int.floor_le (q * scale + 1 / 2)
        have hval : q * scale ≤ limit := hfits
        have : (⌊q * scale + 1 / 2⌋ : ℚ) < (limit : ℤ) + 1 := by
          push_cast
          linarith
        exact Int.le_of_lt_add_one (by exact_mod_cast this)
      omega
  · cases h

/-- Whichever way a page is turned, its tile's edges are its two extents scaled. -/
theorem tile_within {page : PageInfo} {request : RenderRequest} {geometry : TileGeometry} {limit : Nat}
    (hlimit : 0 < limit)
    (hfits : max (displayWidth page) (displayHeight page) * request.scale ≤ limit)
    (h : computeTileGeometry page request = .ok geometry) :
    geometry.widthPx ≤ limit ∧ geometry.heightPx ≤ limit := by
  have hside : ∀ size : Binary32.F32,
      size.value ≤ max (displayWidth page) (displayHeight page) → size.value * request.scale ≤ limit :=
    fun size hsize => (mul_le_mul_of_nonneg_right hsize request.positive.le).trans hfits
  have hextents : ∀ rotation : Rotation,
      ({ page with rotation } : PageInfo).displaySize.widthPt.value ≤
        max (displayWidth page) (displayHeight page) ∧
      ({ page with rotation } : PageInfo).displaySize.heightPt.value ≤
        max (displayWidth page) (displayHeight page) := by
    intro rotation
    unfold displayWidth displayHeight PageInfo.displaySize
    cases page.rotation.swapsAxes <;> cases rotation.swapsAxes <;> simp
  unfold computeTileGeometry at h
  dsimp only at h
  split at h
  · cases h
  rename_i widthPx hwidth
  split at h
  · cases h
  rename_i heightPx hheight
  split at h
  · cases h
  · cases h
    exact ⟨scaleEdge_le hlimit (hside _ (hextents _).1) hwidth,
      scaleEdge_le hlimit (hside _ (hextents _).2) hheight⟩

/-- No page whose longest side is at most 256 times the limit is asked for, on the canvas or in the
rail, at a scale whose tile exceeds the limit. -/
theorem requests_fit_texture {snapshot : DocumentSnapshot} {settings : RenderSettings}
    {page : PageInfo} {request : RenderRequest} {geometry : TileGeometry}
    (hwidth : 0 < displayWidth page) (hside : 0 < settings.maxTextureSide)
    (hsmall : max (displayWidth page) (displayHeight page) ≤ 256 * settings.maxTextureSide)
    (hasked : requestPage snapshot settings page = some request ∨
      requestThumbnail snapshot settings.maxTextureSide page = some request)
    (h : computeTileGeometry page request = .ok geometry) :
    geometry.widthPx ≤ settings.maxTextureSide ∧ geometry.heightPx ≤ settings.maxTextureSide := by
  have hscale : ∃ scale, request.scale = fitRenderScaleToTextureLimit scale (displayWidth page)
      (displayHeight page) settings.maxTextureSide := by
    rcases hasked with hasked | hasked
    · refine ⟨settings.renderScale, ?_⟩
      unfold requestPage RenderRequest.new at hasked
      split at hasked <;> cases hasked
      rfl
    · refine ⟨computeThumbnailScale (displayWidth page), ?_⟩
      unfold requestThumbnail RenderRequest.new at hasked
      split at hasked <;> cases hasked
      rfl
  obtain ⟨scale, hscale⟩ := hscale
  refine tile_within hside ?_ h
  rw [hscale]
  exact ((fits_texture_iff scale hwidth hside).2 hsmall).within

end OpdfEditor
