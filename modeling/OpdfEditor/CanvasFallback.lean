import OpdfEditor.RequestPlanning

/-!
What the canvas draws in place of a missing tile: the nearest cached scale of the same
page, whichever way the view was turned when it was asked for.
-/
namespace OpdfEditor

def exactRequest (v : ViewerState) (settings : RenderSettings) (placement : PagePlacement) :
    RenderRequest where
  document := v.snapshot.document
  page := placement.id
  revision := v.snapshot.revision
  scale := fitRenderScaleToTextureLimit settings.renderScale placement.widthPt placement.heightPt
    settings.maxTextureSide
  rotation := settings.viewRotation
  positive := fitRenderScaleToTextureLimit_pos _ _ _ _

/-- A request for some scale and some rotation of the page another request is for. -/
def SamePage (exact request : RenderRequest) : Prop :=
  request.document = exact.document ∧ request.page = exact.page ∧ request.revision = exact.revision

instance (exact request : RenderRequest) : Decidable (SamePage exact request) :=
  inferInstanceAs (Decidable (_ ∧ _ ∧ _))

def scaleGap (exact request : RenderRequest) : ℚ := |request.scale - exact.scale|

theorem chooseTile_eq (v : ViewerState) (settings : RenderSettings) (cache : TextureCache)
    (placement : PagePlacement) :
    chooseTile v settings cache placement =
      if cache.contains (exactRequest v settings placement) then
        some (exactRequest v settings placement)
      else ((cache.entries.map Prod.fst).filter fun request =>
        SamePage (exactRequest v settings placement) request).argmin
          (scaleGap (exactRequest v settings placement)) := by
  have hnew : ((RenderRequest.new v.snapshot.document placement.id v.snapshot.revision
      (fitRenderScaleToTextureLimit settings.renderScale placement.widthPt placement.heightPt
        settings.maxTextureSide)).toOption.map (RenderRequest.withRotation settings.viewRotation)) =
      some (exactRequest v settings placement) := by
    unfold RenderRequest.new
    rw [dif_pos (fitRenderScaleToTextureLimit_pos _ _ _ _)]
    rfl
  unfold chooseTile
  dsimp only
  rw [hnew]
  cases hcontains : cache.contains (exactRequest v settings placement) with
  | true =>
    simp only [Option.filter_some, hcontains, if_true]
  | false =>
    simp only [Option.filter_some, hcontains, Bool.false_eq_true, if_false]
    rfl

/-- A least element put first is the one found. -/
theorem argmin_cons_of_le {α : Type} {f : α → ℚ} {x : α} {xs : List α} (h : ∀ y ∈ xs, f x ≤ f y) :
    (x :: xs).argmin f = some x := by
  rw [List.argmin_cons]
  cases hmin : xs.argmin f with
  | none => rfl
  | some y =>
    have hle := h y (List.argmin_mem hmin)
    simp [not_lt.2 hle]

/-- Whatever order a cache's keys are met in, the tile drawn in place of a missing one agrees with
it on everything but the scale, and no tile that does is closer in scale. -/
def FallbackKeepsRotation (v : ViewerState) (settings : RenderSettings) (cache : TextureCache)
    (placement : PagePlacement) : Prop :=
  ∀ met : TextureCache, met.entries.Perm cache.entries → ∀ drawn,
    chooseTile v settings met placement = some drawn →
    (SamePage (exactRequest v settings placement) drawn ∧ drawn.rotation = settings.viewRotation) ∧
    ∀ request ∈ cache.entries.map Prod.fst, SamePage (exactRequest v settings placement) request →
      request.rotation = settings.viewRotation →
      ¬ scaleGap (exactRequest v settings placement) request <
        scaleGap (exactRequest v settings placement) drawn

/-- Every cached tile of the page that was turned another way is farther in scale than some cached
tile turned this way. -/
def TurnedTilesFarther (v : ViewerState) (settings : RenderSettings) (cache : TextureCache)
    (placement : PagePlacement) : Prop :=
  ∀ turned ∈ cache.entries.map Prod.fst, SamePage (exactRequest v settings placement) turned →
    turned.rotation ≠ settings.viewRotation →
    ∃ kept ∈ cache.entries.map Prod.fst, SamePage (exactRequest v settings placement) kept ∧
      kept.rotation = settings.viewRotation ∧
      scaleGap (exactRequest v settings placement) kept <
        scaleGap (exactRequest v settings placement) turned

theorem contains_perm {c met : TextureCache} (h : met.entries.Perm c.entries) (request : RenderRequest) :
    met.contains request = c.contains request := by
  rw [Bool.eq_iff_iff, TileCache.contains_iff, TileCache.contains_iff]
  exact (h.map Prod.fst).mem_iff

section Fallback

variable {v : ViewerState} {settings : RenderSettings} {cache : TextureCache} {placement : PagePlacement}

theorem chooseTile_miss (hmiss : cache.contains (exactRequest v settings placement) = false)
    {met : TextureCache} (hmet : met.entries.Perm cache.entries) :
    chooseTile v settings met placement = ((met.entries.map Prod.fst).filter fun request =>
      SamePage (exactRequest v settings placement) request).argmin
        (scaleGap (exactRequest v settings placement)) := by
  rw [chooseTile_eq, contains_perm hmet, hmiss]
  rfl

/-- What the fallback draws is a cached tile of the page, and none of the page is closer in scale. -/
theorem chooseTile_nearest (hmiss : cache.contains (exactRequest v settings placement) = false)
    {met : TextureCache} (hmet : met.entries.Perm cache.entries) {drawn : RenderRequest}
    (h : chooseTile v settings met placement = some drawn) :
    drawn ∈ cache.entries.map Prod.fst ∧ SamePage (exactRequest v settings placement) drawn ∧
    ∀ request ∈ cache.entries.map Prod.fst, SamePage (exactRequest v settings placement) request →
      scaleGap (exactRequest v settings placement) drawn ≤
        scaleGap (exactRequest v settings placement) request := by
  rw [chooseTile_miss hmiss hmet] at h
  obtain ⟨hmem, hsame⟩ := List.mem_filter.1 (List.argmin_mem h)
  refine ⟨(hmet.map Prod.fst).mem_iff.1 hmem, of_decide_eq_true hsame, fun request hrequest hother => ?_⟩
  exact List.le_of_mem_argmin
    (List.mem_filter.2 ⟨(hmet.map Prod.fst).mem_iff.2 hrequest, decide_eq_true hother⟩) h

/-- Any cached tile of the page no farther than the rest is drawn, where its key is met first. -/
theorem chooseTile_met_first (hmiss : cache.contains (exactRequest v settings placement) = false)
    {request : RenderRequest} (hrequest : request ∈ cache.entries.map Prod.fst)
    (hsame : SamePage (exactRequest v settings placement) request)
    (hnearest : ∀ other ∈ cache.entries.map Prod.fst, SamePage (exactRequest v settings placement) other →
      scaleGap (exactRequest v settings placement) request ≤
        scaleGap (exactRequest v settings placement) other) :
    ∃ met : TextureCache, met.entries.Perm cache.entries ∧
      chooseTile v settings met placement = some request := by
  obtain ⟨entry, hentry, rfl⟩ := List.mem_map.1 hrequest
  obtain ⟨before, after, hsplit⟩ := List.append_of_mem hentry
  have hperm : (entry :: (before ++ after)).Perm cache.entries := by
    rw [hsplit]
    exact List.perm_middle.symm
  refine ⟨{ cache with entries := entry :: (before ++ after) }, hperm, ?_⟩
  have hhead : decide (SamePage (exactRequest v settings placement) entry.1) = true := decide_eq_true hsame
  rw [chooseTile_miss hmiss hperm, List.map_cons, List.filter_cons, if_pos hhead]
  refine argmin_cons_of_le fun other hother => ?_
  obtain ⟨hkey, hpage⟩ := List.mem_filter.1 hother
  exact hnearest other ((hperm.map Prod.fst).mem_iff.1 (List.mem_cons_of_mem _ hkey))
    (of_decide_eq_true hpage)

/-- The tile drawn in place of a missing one keeps the view's rotation exactly where every cached
tile turned another way is farther in scale than one that was not. -/
theorem fallback_keeps_rotation_iff (hmiss : cache.contains (exactRequest v settings placement) = false) :
    FallbackKeepsRotation v settings cache placement ↔
      TurnedTilesFarther v settings cache placement := by
  constructor
  · intro hkeeps turned hturned hpage hrotation
    by_contra hnone
    have hclosest : ∀ kept ∈ cache.entries.map Prod.fst,
        SamePage (exactRequest v settings placement) kept → kept.rotation = settings.viewRotation →
        scaleGap (exactRequest v settings placement) turned ≤
          scaleGap (exactRequest v settings placement) kept :=
      fun kept hkept hsame hview => not_lt.1 fun hlt => hnone ⟨kept, hkept, hsame, hview, hlt⟩
    cases hdrawn : chooseTile v settings cache placement with
    | none =>
      rw [chooseTile_miss hmiss (List.Perm.refl _), List.argmin_eq_none] at hdrawn
      exact absurd (List.mem_filter.2 ⟨hturned, decide_eq_true hpage⟩) (by rw [hdrawn]; simp)
    | some drawn =>
      obtain ⟨⟨hsame, hview⟩, -⟩ := hkeeps cache (List.Perm.refl _) drawn hdrawn
      obtain ⟨hcached, -, hnearest⟩ := chooseTile_nearest hmiss (List.Perm.refl _) hdrawn
      -- the turned tile is as near as any, so it is drawn where its key is met first
      obtain ⟨met, hmet, hmetDrawn⟩ := chooseTile_met_first hmiss hturned hpage
        fun other hother hotherPage =>
          (hclosest drawn hcached hsame hview).trans (hnearest other hother hotherPage)
      exact hrotation (hkeeps met hmet turned hmetDrawn).1.2
  · intro hfarther met hmet drawn hdrawn
    obtain ⟨hcached, hsame, hnearest⟩ := chooseTile_nearest hmiss hmet hdrawn
    refine ⟨⟨hsame, ?_⟩, fun request hrequest hpage _ => not_lt.2 (hnearest request hrequest hpage)⟩
    by_contra hrotation
    obtain ⟨kept, hkept, hpage, -, hlt⟩ := hfarther drawn hcached hsame hrotation
    exact absurd hlt (not_lt.2 (hnearest kept hkept hpage))

end Fallback

/-- In every state a run of the surfaces passes through, whatever the service answers: the tiles
drawn in place of missing ones keep the view's rotation exactly where the turned ones are farther in
scale. -/
theorem fallbacks_keep_rotation_iff {S : Type} [RenderService S] (s : Surfaces S)
    (events : List SurfaceEvent) (pixelsPerPoint : ℚ) (maxTextureSide : Nat) :
    (∀ done, done <+: events → ∀ placement ∈ (done.foldl Surfaces.step s).viewer.layout.placements,
      let t := done.foldl Surfaces.step s
      let settings := t.viewer.renderSettings pixelsPerPoint maxTextureSide
      t.caches.canvas.contains (exactRequest t.viewer settings placement) = false →
        FallbackKeepsRotation t.viewer settings t.caches.canvas placement) ↔
    ∀ done, done <+: events → ∀ placement ∈ (done.foldl Surfaces.step s).viewer.layout.placements,
      let t := done.foldl Surfaces.step s
      let settings := t.viewer.renderSettings pixelsPerPoint maxTextureSide
      t.caches.canvas.contains (exactRequest t.viewer settings placement) = false →
        TurnedTilesFarther t.viewer settings t.caches.canvas placement := by
  refine forall_congr' fun done => forall_congr' fun _ => forall_congr' fun placement =>
    forall_congr' fun _ => ?_
  dsimp only
  exact forall_congr' fun hmiss => fallback_keeps_rotation_iff hmiss

namespace TurnedView

def turned : Surfaces FakeRenderService :=
  [.exchange 1 4096, .exchange 1 4096,
    .look { TenPages.opened.viewer with viewRotation := .quarter }].foldl Surfaces.step TenPages.opened

def placement : PagePlacement := ⟨0, 0, 20, 20, 1, 1⟩

/-- The first page's upright tile is drawn in place of its turned one. -/
theorem upright_tile_drawn_turned :
    placement ∈ turned.viewer.layout.placements ∧
    turned.caches.canvas.contains (exactRequest turned.viewer
      (turned.viewer.renderSettings 1 4096) placement) = false ∧
    ¬ FallbackKeepsRotation turned.viewer (turned.viewer.renderSettings 1 4096)
      turned.caches.canvas placement := by
  refine ⟨by decide +kernel, by decide +kernel, fun hkeeps => ?_⟩
  have hdrawn : chooseTile turned.viewer (turned.viewer.renderSettings 1 4096) turned.caches.canvas
      placement = some ⟨1, 0, 1, 1, .none, RenderRequest.one_positive⟩ := by decide +kernel
  have hrotation := (hkeeps turned.caches.canvas (List.Perm.refl _) _ hdrawn).1.2
  exact absurd hrotation (by decide +kernel)

end TurnedView

end OpdfEditor
