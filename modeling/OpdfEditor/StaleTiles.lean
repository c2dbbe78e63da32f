import OpdfEditor.Surfaces

/-!
No tile outlives what it was asked for. Every key either surface's cache holds - of a
cached tile, of a request in flight, of a refusal - names the document and the revision
of the snapshot being drawn, whatever a service answers and whenever it does.
-/
namespace OpdfEditor

namespace TileCache

variable {T : Type}

/-- Every request a cache holds anything about. -/
def keys (c : TileCache T) : Finset RenderRequest :=
  (c.entries.map Prod.fst).toFinset ∪ c.pending ∪ c.failed

theorem mem_keys {request : RenderRequest} {c : TileCache T} :
    request ∈ c.keys ↔
      request ∈ c.entries.map Prod.fst ∨ request ∈ c.pending ∨ request ∈ c.failed := by
  simp [keys]

theorem keys_new (budgetBytes : Nat) : (new budgetBytes : TileCache T).keys = ∅ := rfl

theorem keys_clear (c : TileCache T) : c.clear.keys = ∅ := rfl

theorem keys_beginFrame (c : TileCache T) : c.beginFrame.2.keys = c.keys := rfl

theorem keys_get (request : RenderRequest) (c : TileCache T) : (c.get request).2.keys = c.keys := by
  have hentries : (c.get request).2.entries.map Prod.fst = c.entries.map Prod.fst := by
    simp only [get, List.map_map]
    refine List.map_congr_left fun entry _ => ?_
    by_cases h : entry.1 = request <;> simp [h]
  unfold keys
  rw [hentries]
  rfl

theorem keys_clearPending (request : RenderRequest) (c : TileCache T) :
    (c.clearPending request).keys ⊆ c.keys := by
  intro other h
  rw [mem_keys] at h ⊢
  exact h.imp_right (Or.imp_left Finset.mem_of_mem_erase)

/-- Storing a value adds no request but its own. -/
theorem keys_insert (request : RenderRequest) (value : T) (bytes : Nat) (c : TileCache T) :
    (c.insert request value bytes).keys ⊆ Insert.insert request c.keys := by
  intro other h
  rw [mem_keys] at h
  rw [Finset.mem_insert, mem_keys]
  rcases h with hentry | hpending | hfailed
  · simp only [insert, List.map_cons, List.mem_cons] at hentry
    refine hentry.imp_right fun hold => .inl ?_
    obtain ⟨entry, hmem, rfl⟩ := List.mem_map.1 hold
    exact List.mem_map_of_mem (List.mem_of_mem_filter hmem)
  · exact .inr (.inr (.inl (Finset.mem_of_mem_erase hpending)))
  · exact .inr (.inr (.inr (Finset.mem_of_mem_erase hfailed)))

/-- Recording a refusal adds none but the one refused. -/
theorem keys_noteFailed (request : RenderRequest) (c : TileCache T) :
    (c.noteFailed request).keys ⊆ Insert.insert request c.keys := by
  intro other h
  rw [mem_keys] at h
  rw [Finset.mem_insert, mem_keys]
  rcases h with hentry | hpending | hfailed
  · exact .inr (.inl hentry)
  · exact .inr (.inr (.inl (Finset.mem_of_mem_erase hpending)))
  · exact (Finset.mem_insert.1 hfailed).imp_right fun hold => .inr (.inr hold)

/-- Recording a submission adds none but the one submitted. -/
theorem keys_markPending (request : RenderRequest) (c : TileCache T) :
    (c.markPending request).2.keys ⊆ Insert.insert request c.keys := by
  intro other h
  rw [Finset.mem_insert]
  rcases markPending_cases request c with ⟨-, -, hpending⟩ | hsame
  · rw [mem_keys, markPending_entries, markPending_failed, hpending, Finset.mem_insert] at h
    rw [mem_keys]
    rcases h with hentry | (rfl | hold) | hfailed
    · exact .inr (.inl hentry)
    · exact .inl rfl
    · exact .inr (.inr (.inl hold))
    · exact .inr (.inr (.inr hfailed))
  · rw [hsame] at h
    exact .inr h

/-- Eviction adds none. -/
theorem keys_evictToBudget (protectedSince : Nat) (c : TileCache T) :
    (c.evictToBudget protectedSince).2.keys ⊆ c.keys := by
  obtain ⟨hpending, hfailed, -, hentries⟩ := evictToBudget_keeps protectedSince c
  intro other h
  rw [mem_keys, hpending, hfailed] at h
  rw [mem_keys]
  refine h.imp_left fun hentry => ?_
  obtain ⟨entry, hmem, rfl⟩ := List.mem_map.1 hentry
  exact List.mem_map_of_mem (hentries entry hmem)

/-- What is retained names the revision retained. -/
theorem keys_retainRevision {revision : UInt64} {c : TileCache T} {request : RenderRequest}
    (h : request ∈ (c.retainRevision revision).keys) :
    request ∈ c.keys ∧ request.revision = revision := by
  rw [mem_keys] at h
  rw [mem_keys]
  rcases h with hentry | hpending | hfailed
  · obtain ⟨entry, hmem, rfl⟩ := List.mem_map.1 hentry
    obtain ⟨hold, hrevision⟩ := List.mem_filter.1 hmem
    exact ⟨.inl (List.mem_map_of_mem hold), by simpa using hrevision⟩
  · obtain ⟨hold, hrevision⟩ := Finset.mem_filter.1 hpending
    exact ⟨.inr (.inl hold), hrevision⟩
  · obtain ⟨hold, hrevision⟩ := Finset.mem_filter.1 hfailed
    exact ⟨.inr (.inr hold), hrevision⟩

/-- What the nearest scale finds is cached, for the page and at the revision asked for. -/
theorem findNearestScale_eq_some {document : DocumentId} {page : PageId} {revision : UInt64}
    {wantedScale : ℚ} {c : TileCache T} {request : RenderRequest}
    (h : c.findNearestScale document page revision wantedScale = some request) :
    request ∈ c.entries.map Prod.fst ∧ request.page = page := by
  have hmem := List.argmin_mem (Option.mem_def.2 h)
  obtain ⟨hcached, hsame⟩ := List.mem_filter.1 hmem
  have hsame' : request.document = document ∧ request.page = page ∧ request.revision = revision := by
    simpa using hsame
  exact ⟨hcached, hsame'.2.1⟩

theorem contains_eq_true {request : RenderRequest} {c : TileCache T} (h : c.contains request = true) :
    request ∈ c.entries.map Prod.fst := by
  unfold contains at h
  obtain ⟨entry, hentry⟩ := Option.isSome_iff_exists.1 h
  have hmem : ∀ entries : List (RenderRequest × CacheEntry T),
      entries.lookup request = some entry → request ∈ entries.map Prod.fst := by
    intro entries
    induction entries with
    | nil => nofun
    | cons first rest ih =>
      intro hlookup
      by_cases hkey : request = first.1
      · simp [hkey]
      · have hbeq : (request == first.1) = false := by simpa using hkey
        rw [List.lookup_cons, hbeq] at hlookup
        exact List.mem_cons_of_mem _ (ih hlookup)
  exact hmem _ hentry

end TileCache

/-- The request names the document and the revision being drawn. -/
def RenderRequest.Names (drawn : DocumentSnapshot) (request : RenderRequest) : Prop :=
  request.document = drawn.document ∧ request.revision = drawn.revision

theorem RequestsPage.names {snapshot : DocumentSnapshot} {request : RenderRequest}
    (h : RequestsPage snapshot request) : request.Names snapshot := ⟨h.1, h.2.1⟩

/-- Nothing in the cache is about anything but the snapshot being drawn. -/
def Current (drawn : DocumentSnapshot) (cache : TextureCache) : Prop :=
  ∀ request ∈ cache.keys, request.Names drawn

/-- A cache that loses requests stays current. -/
theorem Current.of_subset {drawn : DocumentSnapshot} {cache cache' : TextureCache}
    (h : Current drawn cache) (hkeys : cache'.keys ⊆ cache.keys) : Current drawn cache' :=
  fun request hrequest => h request (hkeys hrequest)

/-- So does one that takes up a request of the snapshot drawn. -/
theorem Current.of_insert {drawn : DocumentSnapshot} {cache cache' : TextureCache}
    {request : RenderRequest} (h : Current drawn cache) (hrequest : request.Names drawn)
    (hkeys : cache'.keys ⊆ Insert.insert request cache.keys) : Current drawn cache' := by
  intro other hother
  cases Finset.mem_insert.1 (hkeys hother) with
  | inl heq => exact heq ▸ hrequest
  | inr hold => exact h other hold

/-- Whatever a response answers, filing it keeps the cache current: only one that names what is
drawn is let in. -/
theorem Current.fileResponse {drawn : DocumentSnapshot} {cache : TextureCache}
    (h : Current drawn cache) (response : RenderResponse) :
    Current drawn (fileResponse drawn response cache) := by
  unfold OpdfEditor.fileResponse
  dsimp only
  split
  · exact h.of_subset (TileCache.keys_clearPending _ _)
  · rename_i hnames
    have hrequest : response.request.Names drawn := by
      rw [not_or, not_not, not_not] at hnames
      exact hnames
    cases response with
    | ready request tile => exact h.of_insert hrequest (TileCache.keys_insert _ _ _ _)
    | failed request reason => exact h.of_insert hrequest (TileCache.keys_noteFailed _ _)

/-- Both surfaces' caches are current. -/
structure CachePair.Current (drawn : DocumentSnapshot) (caches : CachePair) : Prop where
  canvas : OpdfEditor.Current drawn caches.canvas
  rail : OpdfEditor.Current drawn caches.rail

/-- Whoever a response is routed to. -/
theorem CachePair.Current.route {drawn : DocumentSnapshot} {caches : CachePair}
    (h : caches.Current drawn) (response : RenderResponse) :
    (caches.route drawn response).Current drawn := by
  unfold CachePair.route
  split
  · exact ⟨h.canvas, h.rail.fileResponse response⟩
  · exact ⟨h.canvas.fileResponse response, h.rail⟩

/-- Filing the responses of a frame keeps both caches current. -/
theorem CachePair.Current.foldl_route {drawn : DocumentSnapshot} {caches : CachePair}
    (h : caches.Current drawn) (responses : List RenderResponse) :
    (responses.foldl (CachePair.route drawn) caches).Current drawn := by
  induction responses generalizing caches with
  | nil => exact h
  | cons response responses ih => exact ih (h.route response)

section Service

variable {S : Type} [RenderService S]

theorem Current.submitRequests {drawn : DocumentSnapshot} (requests : List RenderRequest)
    {cache : TextureCache} (h : Current drawn cache)
    (hrequests : ∀ request ∈ requests, request.Names drawn) (service : S) :
    Current drawn (submitRequests requests cache service).1 := by
  induction requests generalizing cache service with
  | nil => exact h
  | cons request requests ih =>
    refine ih ?_ (fun later hlater => hrequests later (by simp [hlater])) _
    exact h.of_insert (hrequests request (by simp)) (TileCache.keys_markPending _ _)

theorem Current.showThumbnails {drawn : DocumentSnapshot} (maxTextureSide : Nat)
    (slots : List ThumbnailSlot) {shown : TextureCache × S} (h : Current drawn shown.1) :
    Current drawn (slots.foldl (showThumbnail drawn maxTextureSide) shown).1 := by
  induction slots generalizing shown with
  | nil => exact h
  | cons slot slots ih =>
    refine ih ?_
    unfold showThumbnail
    split
    · exact h
    rename_i page hpage
    split
    · exact h
    rename_i request hrequest
    have hnames := (requestsPage_of_requestThumbnail (List.mem_of_getElem? hpage) hrequest).names
    have hmarked := h.of_insert hnames (TileCache.keys_markPending request shown.1)
    exact hmarked.of_subset (TileCache.keys_get _ _).subset

/-- Drawing looks tiles up and holds nothing new. -/
theorem Current.drawPlacements {drawn : DocumentSnapshot} (v : ViewerState)
    (settings : RenderSettings) (placements : List PagePlacement) {cache : TextureCache}
    (h : Current drawn cache) :
    Current drawn (placements.foldl (drawPlacement v settings) cache) := by
  induction placements generalizing cache with
  | nil => exact h
  | cons placement placements ih =>
    refine ih ?_
    unfold drawPlacement
    split
    · exact h.of_subset (TileCache.keys_get _ _).subset
    · exact h

/-- What can advance to the viewer: part of a frame, an edit of the document shown, another
document opened, and anything at all on the side of the service. -/
inductive ViewerEvent (S : Type) where
  | surface (event : SurfaceEvent)
  /-- A new snapshot of the document already open. -/
  | edit (pages : List PageInfo) (revision : UInt64)
  | openDocument (snapshot : DocumentSnapshot) (service : S)
  | serve (service : S)

namespace Surfaces

def advance (s : Surfaces S) : ViewerEvent S → Surfaces S
  | .surface event => s.step event
  | .edit pages revision => s.replaceSnapshot ⟨s.viewer.snapshot.document, pages, revision⟩
  | .openDocument snapshot service => s.openDocument snapshot service
  | .serve service => { s with service }

/-- Both caches are current for the snapshot shown. -/
def Fresh (s : Surfaces S) : Prop := s.caches.Current s.viewer.snapshot

/-- So does the whole exchange of a frame. -/
theorem Fresh.exchange {s : Surfaces S} (h : s.Fresh) (pixelsPerPoint : ℚ) (maxTextureSide : Nat) :
    (s.step (.exchange pixelsPerPoint maxTextureSide)).Fresh := by
  unfold Fresh
  rw [step_exchange]
  have hbegun : s.begun.Current s.viewer.snapshot :=
    ⟨h.canvas.of_subset (TileCache.keys_beginFrame _).subset, h.rail⟩
  have hfiled := hbegun.foldl_route (RenderService.poll s.service).1
  have hevicted : Current s.viewer.snapshot s.evicted :=
    hfiled.canvas.of_subset (TileCache.keys_evictToBudget _ _)
  refine ⟨?_, hfiled.rail⟩
  refine hevicted.submitRequests _ ?_ _
  intro request hrequest
  exact (planRenderRequests_requests request hrequest).1.names

/-- Every surface event does. -/
theorem Fresh.step {s : Surfaces S} (h : s.Fresh) (event : SurfaceEvent) : (s.step event).Fresh := by
  cases event with
  | exchange pixelsPerPoint maxTextureSide => exact h.exchange pixelsPerPoint maxTextureSide
  | showRail maxTextureSide topPx heightPx =>
    refine ⟨h.canvas, ?_⟩
    have hbegun := h.rail.of_subset (TileCache.keys_beginFrame _).subset
    have hstart : Current s.viewer.snapshot (s.caches.rail.beginFrame.2, s.service).1 := hbegun
    have hshown := hstart.showThumbnails maxTextureSide
      ((findVisibleThumbnails (layOutThumbnails gutter 0 gutter s.viewer.snapshot.pages) topPx
        heightPx).slice (layOutThumbnails gutter 0 gutter s.viewer.snapshot.pages))
    exact hshown.of_subset (TileCache.keys_evictToBudget _ _)
  | showCanvas pixelsPerPoint maxTextureSide scrollOffsetPx viewportSizePx =>
    exact ⟨h.canvas.drawPlacements _ _ _, h.rail⟩
  | look viewer => exact ⟨h.canvas, h.rail⟩

omit [RenderService S] in
/-- An edit of the document shown keeps what its revision keeps. -/
theorem Fresh.edit {s : Surfaces S} (h : s.Fresh) (pages : List PageInfo) (revision : UInt64) :
    (s.replaceSnapshot ⟨s.viewer.snapshot.document, pages, revision⟩).Fresh := by
  have hretained : ∀ cache, Current s.viewer.snapshot cache →
      Current ⟨s.viewer.snapshot.document, pages, revision⟩ (cache.retainRevision revision) := by
    intro cache hcache request hrequest
    obtain ⟨hold, hrevision⟩ := TileCache.keys_retainRevision hrequest
    exact ⟨(hcache request hold).1, hrevision⟩
  unfold Fresh
  simp only [replaceSnapshot, ViewerState.replaceSnapshot_snapshot]
  exact ⟨hretained _ h.canvas, hretained _ h.rail⟩

/-- Every event of the viewer does. -/
theorem Fresh.after {s : Surfaces S} (h : s.Fresh) (event : ViewerEvent S) :
    (s.advance event).Fresh := by
  cases event with
  | surface event => exact h.step event
  | edit pages revision => exact h.edit pages revision
  | openDocument snapshot service =>
    refine ⟨?_, ?_⟩
    · intro request hrequest
      simp [Surfaces.advance, Surfaces.openDocument, TileCache.keys_clear] at hrequest
    · intro request hrequest
      simp [Surfaces.advance, Surfaces.openDocument, TileCache.keys_clear] at hrequest
  | serve service => exact h

/-- Both caches stay current in every run. -/
theorem Fresh.run {s : Surfaces S} (h : s.Fresh) (events : List (ViewerEvent S)) :
    (events.foldl advance s).Fresh := by
  induction events generalizing s with
  | nil => exact h
  | cons event events ih => exact ih (h.after event)

omit [RenderService S] in
theorem fresh_start (snapshot : DocumentSnapshot) (canvasBudget railBudget : Nat) (service : S) :
    (start snapshot canvasBudget railBudget service).Fresh := by
  refine ⟨?_, ?_⟩
  · intro request hrequest
    simp [start, TileCache.keys_new] at hrequest
  · intro request hrequest
    simp [start, TileCache.keys_new] at hrequest

/-- The tile chosen for a placement is cached. -/
theorem chooseTile_cached {v : ViewerState} {settings : RenderSettings} {cache : TextureCache}
    {placement : PagePlacement} {request : RenderRequest}
    (h : chooseTile v settings cache placement = some request) :
    request ∈ cache.entries.map Prod.fst := by
  unfold chooseTile at h
  dsimp only at h
  split at h
  · rename_i exact hexact
    cases h
    exact TileCache.contains_eq_true (Option.filter_eq_some_iff.1 hexact).2
  · exact (TileCache.findNearestScale_eq_some h).1

/-- After any run - frames, edits, openings, and services answering what they like when they like -
every key of either cache names the document and the revision being drawn, and so does every tile
the canvas is drawn from. -/
theorem stale_tiles_are_never_drawn (snapshot : DocumentSnapshot) (canvasBudget railBudget : Nat)
    (service : S) (events : List (ViewerEvent S)) :
    let s := events.foldl advance (start snapshot canvasBudget railBudget service)
    (∀ cache, cache = s.caches.canvas ∨ cache = s.caches.rail → ∀ request,
      (∃ entry, (request, entry) ∈ cache.entries) ∨ request ∈ cache.pending ∨
        request ∈ cache.failed →
      request.document = s.viewer.snapshot.document ∧
        request.revision = s.viewer.snapshot.revision) ∧
    ∀ settings placement request, chooseTile s.viewer settings s.caches.canvas placement = some request →
      (∃ entry, (request, entry) ∈ s.caches.canvas.entries) ∧
      request.document = s.viewer.snapshot.document ∧
        request.revision = s.viewer.snapshot.revision := by
  intro s
  have hfresh : s.Fresh := (fresh_start snapshot canvasBudget railBudget service).run events
  constructor
  · intro cache hcache request hrequest
    have hkey : request ∈ cache.keys := by
      rw [TileCache.mem_keys]
      refine hrequest.imp_left ?_
      rintro ⟨entry, hentry⟩
      exact List.mem_map.2 ⟨_, hentry, rfl⟩
    rcases hcache with rfl | rfl
    · exact hfresh.canvas request hkey
    · exact hfresh.rail request hkey
  · intro settings placement request hchosen
    have hcached := chooseTile_cached hchosen
    obtain ⟨⟨key, entry⟩, hentry, rfl⟩ := List.mem_map.1 hcached
    exact ⟨⟨entry, hentry⟩, hfresh.canvas key (TileCache.mem_keys.2 (.inl hcached))⟩

end Surfaces
end Service
end OpdfEditor
