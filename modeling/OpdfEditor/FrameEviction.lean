import OpdfEditor.CanvasFallback

/-!
What the eviction inside a frame's exchange leaves for the canvas to draw. It runs before
the canvas does, when the tiles of the pages about to be drawn were last used a frame ago.
-/
namespace OpdfEditor

open LeastRecentlyUsed

namespace TileCache

variable {T : Type} {log : List (Option RenderRequest)} {c : TileCache T}

theorem Accounted.stamp_lt (h : Accounted log c) {a b : RenderRequest × CacheEntry T}
    (ha : a ∈ c.entries) (hb : b ∈ c.entries) (hlog : lastUse log a.1 < lastUse log b.1) :
    a.2.lastUsed < b.2.lastUsed := by
  have hne : a.1 ≠ b.1 := fun heq => absurd hlog (by rw [heq]; exact Nat.lt_irrefl _)
  rcases h.ordered a ha b hb hne with hlt | hgt
  · exact hlt.1
  · exact absurd hlog (Nat.lt_asymm hgt.2)

/-- The candidates ahead of an entry are the entries used before it was. -/
theorem Accounted.notMem_older_iff (h : Accounted log c) {key : RenderRequest} {entry : CacheEntry T}
    (hentry : (key, entry) ∈ c.entries) {protectedSince : Nat} (haged : entry.lastUsed < protectedSince)
    {older newer : List RenderRequest}
    (hsplit : c.evictionCandidates protectedSince = older ++ key :: newer)
    {other : RenderRequest × CacheEntry T} (hother : other ∈ c.entries) :
    other.1 ∉ older ↔ entry.lastUsed ≤ other.2.lastUsed := by
  have horder : InUseOrder log (older ++ key :: newer) :=
    hsplit ▸ h.candidates_inUseOrder protectedSince
  obtain ⟨-, hafter, hbefore⟩ := List.pairwise_append.1 horder
  constructor
  · intro hout
    refine Nat.le_of_not_lt fun hlt => ?_
    have hin : other.1 ∈ older ++ key :: newer := by
      rw [← hsplit]
      exact (evictionCandidates_perm protectedSince c).mem_iff.2 (List.mem_map.2 ⟨other,
        List.mem_filter.2 ⟨hother, decide_eq_true (hlt.trans haged)⟩, rfl⟩)
    rcases List.mem_append.1 hin with hin | hin
    · exact hout hin
    rcases List.mem_cons.1 hin with heq | hin
    · have hsame : other = (key, entry) := List.inj_on_of_nodup_map h.keys hother hentry heq
      rw [hsame] at hlt
      exact Nat.lt_irrefl _ hlt
    · exact Nat.lt_asymm hlt
        (h.stamp_lt hentry hother ((List.pairwise_cons.1 hafter).1 other.1 hin))
  · intro hle hin
    exact absurd (h.stamp_lt hother hentry (hbefore other.1 hin key (by simp))) (Nat.not_lt.2 hle)

/-- An entry survives an eviction exactly where it is protected, or fits the budget together with
everything used no earlier than it was. -/
theorem Accounted.survives_iff (h : Accounted log c) {key : RenderRequest} {entry : CacheEntry T}
    (hentry : (key, entry) ∈ c.entries) (protectedSince : Nat) :
    (c.evictToBudget protectedSince).2.contains key = true ↔
      protectedSince ≤ entry.lastUsed ∨
      footprint CacheEntry.bytes (c.entries.filter fun other => entry.lastUsed ≤ other.2.lastUsed) ≤
        c.budgetBytes := by
  obtain ⟨dropped, hevicts⟩ := h.evicts protectedSince
  by_cases hrecent : protectedSince ≤ entry.lastUsed
  · refine iff_of_true ?_ (.inl hrecent)
    exact contains_iff.2 (List.mem_map_of_mem (hevicts.spares _ hentry hrecent))
  have hlt := Nat.lt_of_not_le hrecent
  have haged : key ∈ c.evictionCandidates protectedSince :=
    hevicts.lists.mem_iff.2 (List.mem_map.2 ⟨(key, entry),
      List.mem_filter.2 ⟨hentry, decide_eq_true hlt⟩, rfl⟩)
  obtain ⟨older, newer, hsplit⟩ := List.append_of_mem haged
  have hleft : without ((c.evictionCandidates protectedSince).take older.length) c.entries =
      c.entries.filter fun other => entry.lastUsed ≤ other.2.lastUsed := by
    rw [hsplit, List.take_left' rfl]
    exact List.filter_congr fun other hother =>
      decide_eq_decide.2 (h.notMem_older_iff hentry hlt hsplit hother)
  have hshort : older.length < (c.evictionCandidates protectedSince).length := by
    rw [hsplit, List.length_append, List.length_cons]
    omega
  -- dropping more of the queue leaves no more behind
  have hposition : older.length < dropped ↔ ¬ footprint CacheEntry.bytes
      (c.entries.filter fun other => entry.lastUsed ≤ other.2.lastUsed) ≤ c.budgetBytes := by
    rw [← hleft]
    refine hevicts.shortest.lt_iff (fun {a b} hab hfit => ?_) hshort
    refine Nat.le_trans (footprint_filter_mono _ fun other _ hkept => ?_) hfit
    have hout := of_decide_eq_true hkept
    exact decide_eq_true fun hin => hout (List.take_subset_take_left _ hab hin)
  have hdropped : key ∈ (c.evictionCandidates protectedSince).take dropped ↔ older.length < dropped := by
    rw [hsplit]
    exact mem_take_iff (hsplit ▸ hevicts.order.nodup) dropped
  have hkept : (c.evictToBudget protectedSince).2.contains key = true ↔
      key ∉ (c.evictionCandidates protectedSince).take dropped := by
    rw [contains_iff, hevicts.entries, List.mem_map]
    constructor
    · rintro ⟨other, hother, rfl⟩
      exact (mem_without.1 hother).2
    · exact fun hout => ⟨(key, entry), mem_without.2 ⟨hentry, hout⟩, rfl⟩
  rw [hkept, hdropped, hposition, not_not, or_iff_right hrecent]

end TileCache

/-! ### The calls a frame makes on the canvas cache -/

/-- Filing a response as a call on the cache that owns it. -/
def fileCall (drawn : DocumentSnapshot) (response : RenderResponse) : TileCache.Call Tile :=
  if response.request.document ≠ drawn.document ∨ response.request.revision ≠ drawn.revision then
    .clearPending response.request
  else
    match response with
    | .ready request tile => .insert request tile (measureTileBytes tile)
    | .failed request _ => .noteFailed request

theorem fileResponse_eq_step (drawn : DocumentSnapshot) (response : RenderResponse)
    (cache : TextureCache) : fileResponse drawn response cache = cache.step (fileCall drawn response) := by
  unfold fileResponse fileCall
  dsimp only
  split
  · rfl
  · cases response <;> rfl

/-- Filing a response drops nothing. -/
theorem contains_fileCall {drawn : DocumentSnapshot} {response : RenderResponse} {cache : TextureCache}
    {request : RenderRequest} (h : cache.contains request = true) :
    (cache.step (fileCall drawn response)).contains request = true := by
  unfold fileCall
  split
  · exact h
  · cases response with
    | ready answered tile => exact (contains_insert _ _ _ _ _).2 (.inr h)
    | failed answered reason => exact h

/-- The calls on the canvas cache that a batch of responses makes. -/
def canvasCalls (drawn : DocumentSnapshot) : CachePair → List RenderResponse → List (TileCache.Call Tile)
  | _, [] => []
  | caches, response :: responses =>
    (if response.request ∉ caches.canvas.pending ∧ response.request ∈ caches.rail.pending then []
      else [fileCall drawn response]) ++ canvasCalls drawn (caches.route drawn response) responses

theorem foldl_route_canvas (drawn : DocumentSnapshot) (responses : List RenderResponse)
    (caches : CachePair) :
    (responses.foldl (CachePair.route drawn) caches).canvas =
        caches.canvas.run (canvasCalls drawn caches responses) ∧
    ∀ request, caches.canvas.contains request = true →
      (responses.foldl (CachePair.route drawn) caches).canvas.contains request = true := by
  induction responses generalizing caches with
  | nil => exact ⟨rfl, fun _ h => h⟩
  | cons response responses ih =>
    obtain ⟨hrun, hcontains⟩ := ih (caches.route drawn response)
    have hone : (caches.route drawn response).canvas = caches.canvas.run
          (if response.request ∉ caches.canvas.pending ∧ response.request ∈ caches.rail.pending then []
            else [fileCall drawn response]) ∧
        ∀ request, caches.canvas.contains request = true →
          (caches.route drawn response).canvas.contains request = true := by
      unfold CachePair.route
      split
      · exact ⟨rfl, fun _ h => h⟩
      · dsimp only
        rw [fileResponse_eq_step]
        exact ⟨rfl, fun _ h => contains_fileCall h⟩
    refine ⟨?_, fun request h => hcontains request (hone.2 request h)⟩
    rw [List.foldl_cons, hrun, hone.1, ← TileCache.run_append]
    rfl

namespace Surfaces

variable {S : Type} [RenderService S]

/-- What a frame's exchange does to the canvas cache before it evicts. -/
def filing (s : Surfaces S) : List (TileCache.Call Tile) :=
  .beginFrame :: canvasCalls s.viewer.snapshot s.begun (RenderService.poll s.service).1

theorem filed_canvas (s : Surfaces S) : s.filed.canvas = s.caches.canvas.run s.filing :=
  (foldl_route_canvas s.viewer.snapshot (RenderService.poll s.service).1 s.begun).1

def drawnPlacements (s : Surfaces S) (scrollOffsetPx : ℚ) (viewportSizePx : ℚ × ℚ) :
    List PagePlacement :=
  (findVisiblePages s.viewer.layout (scrollOffsetPx / clampZoom s.viewer.zoom)
    (viewportSizePx.2 / clampZoom s.viewer.zoom) 0).slice s.viewer.layout.placements

omit [RenderService S] in
theorem showCanvas_draws (s : Surfaces S) (pixelsPerPoint : ℚ) (maxTextureSide : Nat)
    (scrollOffsetPx : ℚ) (viewportSizePx : ℚ × ℚ) (cache : TextureCache) :
    (OpdfEditor.showCanvas pixelsPerPoint maxTextureSide scrollOffsetPx viewportSizePx s.viewer cache).2 =
      (s.drawnPlacements scrollOffsetPx viewportSizePx).foldl
        (drawPlacement s.viewer (s.viewer.renderSettings pixelsPerPoint maxTextureSide)) cache := rfl

def exact (s : Surfaces S) (pixelsPerPoint : ℚ) (maxTextureSide : Nat) (placement : PagePlacement) :
    RenderRequest :=
  exactRequest s.viewer (s.viewer.renderSettings pixelsPerPoint maxTextureSide) placement

/-- The exchange leaves every exact tile cached before it that the canvas is about to draw. -/
def KeepsDrawnTiles (s : Surfaces S) (pixelsPerPoint : ℚ) (maxTextureSide : Nat) (scrollOffsetPx : ℚ)
    (viewportSizePx : ℚ × ℚ) : Prop :=
  ∀ placement ∈ s.drawnPlacements scrollOffsetPx viewportSizePx,
    s.caches.canvas.contains (s.exact pixelsPerPoint maxTextureSide placement) = true →
    (s.step (.exchange pixelsPerPoint maxTextureSide)).caches.canvas.contains
      (s.exact pixelsPerPoint maxTextureSide placement) = true

/-- With the frame's responses filed, each of those tiles arrived in this frame or fits the budget
together with every tile used no earlier than it was. -/
def DrawnTilesFit (s : Surfaces S) (pixelsPerPoint : ℚ) (maxTextureSide : Nat) (scrollOffsetPx : ℚ)
    (viewportSizePx : ℚ × ℚ) : Prop :=
  ∀ placement ∈ s.drawnPlacements scrollOffsetPx viewportSizePx,
    s.caches.canvas.contains (s.exact pixelsPerPoint maxTextureSide placement) = true →
    ∀ entry, (s.exact pixelsPerPoint maxTextureSide placement, entry) ∈ s.filed.canvas.entries →
      s.caches.canvas.beginFrame.1 ≤ entry.lastUsed ∨
      footprint CacheEntry.bytes
        (s.filed.canvas.entries.filter fun other => entry.lastUsed ≤ other.2.lastUsed) ≤
          s.filed.canvas.budgetBytes

theorem exchange_contains (s : Surfaces S) (pixelsPerPoint : ℚ) (maxTextureSide : Nat)
    (request : RenderRequest) :
    (s.step (.exchange pixelsPerPoint maxTextureSide)).caches.canvas.contains request =
      s.evicted.contains request := by
  have hentries : (submitRequests (s.planned pixelsPerPoint maxTextureSide) s.evicted
      (RenderService.poll s.service).2).1.entries = s.evicted.entries :=
    (submitRequests_keeps (P := fun _ => True) (Q := fun _ => True) (fun _ _ _ _ => trivial) _
      (fun _ _ => trivial) _ trivial).1
  rw [step_exchange]
  unfold TileCache.contains
  dsimp only
  rw [hentries]

/-- A frame keeps the tiles it is about to draw exactly where each of them arrived in it or fits the
budget with all that was used since: nothing that was drawn before is protected from its eviction. -/
theorem frame_keeps_drawn_tiles_iff (s : Surfaces S) {budget : Nat} {calls : List (TileCache.Call Tile)}
    (hcanvas : s.caches.canvas = (TileCache.new budget : TextureCache).run calls)
    (hroom : (TileCache.new budget : TextureCache).StaysAddressable (calls ++ s.filing))
    (pixelsPerPoint : ℚ) (maxTextureSide : Nat) (scrollOffsetPx : ℚ) (viewportSizePx : ℚ × ℚ) :
    s.KeepsDrawnTiles pixelsPerPoint maxTextureSide scrollOffsetPx viewportSizePx ↔
      s.DrawnTilesFit pixelsPerPoint maxTextureSide scrollOffsetPx viewportSizePx := by
  have haccounted := (TileCache.accounted_new budget).run hroom
  rw [TileCache.run_append, ← hcanvas, ← filed_canvas] at haccounted
  refine forall_congr' fun placement => forall_congr' fun _ => forall_congr' fun hcached => ?_
  rw [exchange_contains]
  have hsurvives : ∀ entry, (s.exact pixelsPerPoint maxTextureSide placement, entry) ∈
      s.filed.canvas.entries → (s.evicted.contains _ = true ↔ _) :=
    fun _ hentry => haccounted.survives_iff hentry s.caches.canvas.beginFrame.1
  constructor
  · intro hkept entry hentry
    exact (hsurvives entry hentry).1 hkept
  · intro hfits
    have hfiled := (foldl_route_canvas s.viewer.snapshot (RenderService.poll s.service).1 s.begun).2
      (s.exact pixelsPerPoint maxTextureSide placement) hcached
    obtain ⟨⟨request, entry⟩, hentry, hkey⟩ := List.mem_map.1 (TileCache.contains_iff.1 hfiled)
    dsimp only at hkey
    subst hkey
    exact (hsurvives entry hentry).2 (hfits entry hentry)

end Surfaces

namespace OversizedTile

def opened : Surfaces FakeRenderService where
  viewer := { ViewerState.new ⟨1, [⟨0, ⟨.ofInt 1, .ofInt 1⟩, .none⟩], 1⟩ with viewportSizePx := (100, 1000) }
  caches := ⟨.new 3, .new 4096⟩
  service := ⟨⟨1, [⟨0, ⟨.ofInt 1, .ofInt 1⟩, .none⟩], 1⟩, []⟩

def drawn : Surfaces FakeRenderService :=
  [.exchange 1 4096, .exchange 1 4096, .showCanvas 1 4096 0 (100, 1000)].foldl Surfaces.step opened

/-- A frame in which nothing has arrived yet evicts nothing. -/
theorem first_frame_keeps_drawn_tiles :
    opened.KeepsDrawnTiles 1 4096 0 (100, 1000) ↔ opened.DrawnTilesFit 1 4096 0 (100, 1000) :=
  @Surfaces.frame_keeps_drawn_tiles_iff _ _ opened 3 [] rfl (by decide +kernel) 1 4096 0 (100, 1000)

/-- The next frame evicts the page's tile before the canvas draws the page again. -/
theorem next_frame_evicts_drawn_tile : ¬ drawn.KeepsDrawnTiles 1 4096 0 (100, 1000) := by
  intro hkeeps
  have hplacement : (⟨0, 0, 20, 20, 1, 1⟩ : PagePlacement) ∈ drawn.drawnPlacements 0 (100, 1000) := by
    decide +kernel
  have hcached : drawn.caches.canvas.contains (drawn.exact 1 4096 ⟨0, 0, 20, 20, 1, 1⟩) = true := by
    decide +kernel
  have hgone : (drawn.step (.exchange 1 4096)).caches.canvas.contains
      (drawn.exact 1 4096 ⟨0, 0, 20, 20, 1, 1⟩) = false := by
    decide +kernel
  exact Bool.noConfusion (hgone.symm.trans (hkeeps _ hplacement hcached))

end OversizedTile

end OpdfEditor
