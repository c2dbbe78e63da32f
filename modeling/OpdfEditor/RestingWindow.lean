import OpdfEditor.FrameEviction
import OpdfEditor.PageShape
import OpdfEditor.RequestPlanning
import OpdfEditor.SharedService
import OpdfEditor.ViewerSync
import OpdfEditor.WorkerProgress

/-!
A window that is left alone comes to rest. No request of the canvas is ever forgotten by the
service, each frame asks for what is missing a budget at a time, and a worker that catches up answers
all of it.
-/
namespace OpdfEditor

/-! ### What filing does to the canvas -/

variable {drawn : DocumentSnapshot}

/-- An answer leaves every other request as wanted as it was. -/
theorem wants_fileResponse_other {cache : TextureCache} {response : RenderResponse}
    {request : RenderRequest} (hne : request ≠ response.request) :
    (fileResponse drawn response cache).wants request = cache.wants request := by
  unfold fileResponse
  dsimp only
  split
  · exact wants_congr rfl (by simp [hne]) Iff.rfl
  cases response with
  | ready answered tile =>
    refine wants_congr ?_ (by simp [show request ≠ answered from hne])
      (by simp [show request ≠ answered from hne])
    rw [Bool.eq_iff_iff, contains_insert]
    exact ⟨fun h => h.resolve_left hne, .inr⟩
  | failed answered reason =>
    exact wants_congr rfl (by simp [show request ≠ answered from hne])
      (by simp [show request ≠ answered from hne])

/-- An answer makes no request for what is drawn wanted that was not, whether it was asked for or
not. -/
theorem wants_of_wants_fileResponse {cache : TextureCache} {response : RenderResponse}
    {request : RenderRequest} (hdocument : request.document = drawn.document)
    (hrevision : request.revision = drawn.revision)
    (h : (fileResponse drawn response cache).wants request = true) : cache.wants request = true := by
  by_cases heq : request = response.request
  · obtain ⟨hcontains, -, hfailed⟩ := TileCache.wants_eq_true.1 h
    unfold fileResponse at hcontains hfailed
    rw [if_neg (by simp [← heq, hdocument, hrevision])] at hcontains hfailed
    cases response with
    | ready answered tile =>
      have hin := (contains_insert answered tile (measureTileBytes tile) cache request).2 (.inl heq)
      exact Bool.noConfusion (hin.symm.trans hcontains)
    | failed answered reason => exact absurd (Finset.mem_insert.2 (.inl heq)) hfailed
  · rwa [wants_fileResponse_other heq] at h

/-- Filing responses makes the canvas want nothing it did not want. -/
theorem wants_of_wants_foldl_route {caches : CachePair} {responses : List RenderResponse}
    {request : RenderRequest} (hdocument : request.document = drawn.document)
    (hrevision : request.revision = drawn.revision)
    (h : (responses.foldl (CachePair.route drawn) caches).canvas.wants request = true) :
    caches.canvas.wants request = true := by
  induction responses generalizing caches with
  | nil => exact h
  | cons response responses ih =>
    have hafter := ih h
    unfold CachePair.route at hafter
    split at hafter
    · exact hafter
    · exact wants_of_wants_fileResponse hdocument hrevision hafter

/-- What the canvas still waits for has not been answered. -/
theorem pending_foldl_route {caches : CachePair} {responses : List RenderResponse}
    {request : RenderRequest}
    (h : request ∈ (responses.foldl (CachePair.route drawn) caches).canvas.pending) :
    request ∈ caches.canvas.pending ∧ ∀ response ∈ responses, response.request ≠ request := by
  induction responses generalizing caches with
  | nil => exact ⟨h, List.forall_mem_nil _⟩
  | cons response responses ih =>
    obtain ⟨hafter, hrest⟩ := ih h
    suffices hone : request ∈ caches.canvas.pending ∧ response.request ≠ request from
      ⟨hone.1, List.forall_mem_cons.2 ⟨hone.2, hrest⟩⟩
    unfold CachePair.route at hafter
    split at hafter
    · rename_i hrail
      exact ⟨hafter, fun heq => hrail.1 (heq ▸ hafter)⟩
    · rw [CachePair.fileResponse_pending, Finset.mem_erase] at hafter
      exact ⟨hafter.2, hafter.1.symm⟩

/-! ### What is missing -/

namespace Surfaces

variable {s : Surfaces ShellService} {pixelsPerPoint : ℚ} {maxTextureSide : Nat}

def visibleRequests (pixelsPerPoint : ℚ) (maxTextureSide : Nat) (s : Surfaces ShellService) :
    List RenderRequest :=
  requestsOf s.viewer.snapshot (s.viewer.renderSettings pixelsPerPoint maxTextureSide)
    s.viewer.visiblePages.indices

/-- Those the canvas has yet to ask for. -/
def missing (pixelsPerPoint : ℚ) (maxTextureSide : Nat) (s : Surfaces ShellService) :
    List RenderRequest :=
  (s.visibleRequests pixelsPerPoint maxTextureSide).filter s.caches.canvas.wants

theorem visibleRequests_drawn {request : RenderRequest}
    (h : request ∈ s.visibleRequests pixelsPerPoint maxTextureSide) :
    request.document = s.viewer.snapshot.document ∧ request.revision = s.viewer.snapshot.revision := by
  obtain ⟨index, -, hat⟩ := List.mem_filterMap.1 h
  obtain ⟨page, -, -, hdocument, hrevision⟩ := requestAt_eq_some hat
  exact ⟨hdocument, hrevision⟩

/-- What a frame wants is among the pages in view, in another order. -/
theorem wanted_perm (s : Surfaces ShellService) :
    (s.wanted pixelsPerPoint maxTextureSide).Perm
      ((s.visibleRequests pixelsPerPoint maxTextureSide).filter s.evicted.wants) :=
  ((orderByDistanceFromFocus_perm s.viewer.visiblePages _).filterMap _).filter _

/-- Unless it evicts, a frame's exchange asks for as much of what is missing as the budget allows. -/
theorem missing_exchange (hids : (s.viewer.snapshot.pages.map PageInfo.id).Nodup)
    (hkept : (s.filed.canvas.evictToBudget s.caches.canvas.beginFrame.1).1 = 0) :
    ((s.step (.exchange pixelsPerPoint maxTextureSide)).missing pixelsPerPoint maxTextureSide).length ≤
      (s.missing pixelsPerPoint maxTextureSide).length - maxSubmissionsPerFrame := by
  have hevicted : s.evicted = s.filed.canvas := evictToBudget_none hkept
  have hplanned : ∀ request ∈ s.planned pixelsPerPoint maxTextureSide, s.evicted.wants request = true := by
    intro request hmem
    rw [planned_eq] at hmem
    exact (List.mem_filter.1 (List.mem_of_mem_take hmem)).2
  have hnodup : (s.planned pixelsPerPoint maxTextureSide).Nodup := by
    rw [planned_eq]
    exact (wanted_nodup hids).sublist (List.take_sublist _ _)
  have hafter : (s.step (.exchange pixelsPerPoint maxTextureSide)).missing pixelsPerPoint maxTextureSide =
      ((s.visibleRequests pixelsPerPoint maxTextureSide).filter s.evicted.wants).filter
        fun request => request ∉ s.planned pixelsPerPoint maxTextureSide := by
    rw [missing, step_exchange, List.filter_filter]
    refine List.filter_congr fun request _ => ?_
    rw [Bool.and_comm]
    exact wants_submitRequests _ _ _ hplanned hnodup request
  have hleft : (((s.wanted pixelsPerPoint maxTextureSide).filter
      fun request => request ∉ s.planned pixelsPerPoint maxTextureSide)).length =
        (s.wanted pixelsPerPoint maxTextureSide).length - maxSubmissionsPerFrame := by
    rw [planned_eq, filter_notMem_take (wanted_nodup hids), List.length_drop]
  have hfewer : ((s.visibleRequests pixelsPerPoint maxTextureSide).filter s.evicted.wants).length ≤
      (s.missing pixelsPerPoint maxTextureSide).length := by
    rw [missing, ← List.countP_eq_length_filter, ← List.countP_eq_length_filter]
    refine List.countP_mono_left fun request hrequest hwants => ?_
    obtain ⟨hdocument, hrevision⟩ := visibleRequests_drawn hrequest
    rw [hevicted] at hwants
    have hbegun : s.begun.canvas.wants request = true :=
      wants_of_wants_foldl_route hdocument hrevision hwants
    exact hbegun
  rw [hafter, ← ((wanted_perm s).filter _).length_eq, hleft, (wanted_perm s).length_eq]
  exact Nat.sub_le_sub_right hfewer _

end Surfaces
/-! ### What the canvas draws is what was asked for -/

theorem placePages_page {contentWidthPt gapPt : ℚ} (pages : List PageInfo) (index : Nat) (cursorPt : ℚ)
    {i : Nat} {placement : PagePlacement}
    (h : (placePages contentWidthPt gapPt index cursorPt pages).1[i]? = some placement) :
    ∃ page, pages[i]? = some page ∧ placement.id = page.id ∧
      placement.widthPt = displayWidth page ∧ placement.heightPt = displayHeight page := by
  induction pages generalizing index cursorPt i with
  | nil => cases h
  | cons page pages ih =>
    rw [placePages] at h
    cases i with
    | zero =>
      obtain rfl := Option.some.inj h
      exact ⟨page, rfl, rfl, rfl, rfl⟩
    | succ i => exact ih _ _ h

/-- A placement has the identity and the extents of its page. -/
theorem layOut_page {snapshot : DocumentSnapshot} {i : Nat} {placement : PagePlacement}
    (h : (ViewerState.layOut snapshot).placements[i]? = some placement) :
    ∃ page, snapshot.pages[i]? = some page ∧ placement.id = page.id ∧
      placement.widthPt = displayWidth page ∧ placement.heightPt = displayHeight page := by
  unfold ViewerState.layOut computeDocumentLayout at h
  split at h
  · cases h
  · exact placePages_page _ _ _ h

/-- The point moves right where more is accepted. -/
theorem partitionPoint_mono {α : Type} {p q : α → Bool} (hpq : ∀ x, p x = true → q x = true)
    (xs : List α) : partitionPoint p xs ≤ partitionPoint q xs := by
  unfold partitionPoint
  induction xs with
  | nil => exact Nat.le_refl _
  | cons x xs ih =>
    cases hp : p x with
    | false => simp [hp]
    | true => simp [hp, hpq x hp, ih]

theorem exists_index_of_mem_slice {α : Type} {range : IndexRange} {xs : List α} {x : α}
    (h : x ∈ range.slice xs) : ∃ i ∈ range.indices, xs[i]? = some x := by
  obtain ⟨k, hk⟩ := List.mem_iff_getElem?.1 h
  rw [IndexRange.slice, List.getElem?_take] at hk
  split at hk
  · rename_i hlt
    rw [List.getElem?_drop] at hk
    refine ⟨range.start + k, ?_, hk⟩
    rw [IndexRange.indices, List.mem_range'_1]
    omega
  · cases hk

/-- The pages in the viewport are among those in the band around it. -/
theorem findVisiblePages_overscan (layout : DocumentLayout) (topPt heightPt : ℚ) {overscanPt : ℚ}
    (hoverscan : 0 ≤ overscanPt) {i : Nat}
    (h : i ∈ (findVisiblePages layout topPt heightPt 0).indices) :
    i ∈ (findVisiblePages layout topPt heightPt overscanPt).indices := by
  have hfirst := partitionPoint_mono
    (p := fun placement : PagePlacement => decide (placement.bottomPt < topPt - overscanPt))
    (q := fun placement => decide (placement.bottomPt < topPt - 0))
    (fun placement hlow => by simp only [decide_eq_true_eq] at hlow ⊢; linarith) layout.placements
  have hlast := partitionPoint_mono
    (p := fun placement : PagePlacement => decide (placement.topPt ≤ topPt + heightPt + 0))
    (q := fun placement => decide (placement.topPt ≤ topPt + heightPt + overscanPt))
    (fun placement hhigh => by simp only [decide_eq_true_eq] at hhigh ⊢; linarith) layout.placements
  simp only [findVisiblePages, IndexRange.indices, List.mem_range'_1] at h ⊢
  omega

namespace Surfaces

variable {s : Surfaces ShellService} {pixelsPerPoint : ℚ} {maxTextureSide : Nat}

/-- The exact tile of every page the canvas draws is among those its frames ask for. -/
theorem exact_visible (hlayout : s.viewer.layout = ViewerState.layOut s.viewer.snapshot)
    (hheight : 0 ≤ s.viewer.viewportSizePx.2) {placement : PagePlacement}
    (h : placement ∈ s.drawnPlacements s.viewer.scrollOffsetPx s.viewer.viewportSizePx) :
    s.exact pixelsPerPoint maxTextureSide placement ∈ s.visibleRequests pixelsPerPoint maxTextureSide := by
  obtain ⟨i, hi, hat⟩ := exists_index_of_mem_slice h
  obtain ⟨page, hpage, hid, hwidth, hheight'⟩ := layOut_page (hlayout ▸ hat)
  have hband : 0 ≤ s.viewer.viewportSizePx.2 / clampZoom s.viewer.zoom * overscanScreens :=
    mul_nonneg (div_nonneg hheight (clampZoom_pos _).le) (by decide +kernel)
  refine List.mem_filterMap.2 ⟨i, findVisiblePages_overscan _ _ _ hband hi, ?_⟩
  rw [requestAt, hpage, Option.bind_some, requestPage_eq_some]
  simp only [exact, exactRequest, RenderSettings.scaleForPage, hid, hwidth, hheight']

/-- Where nothing is missing and nothing waited for, every page drawn has its tile or was refused. -/
theorem shown_or_refused (hlayout : s.viewer.layout = ViewerState.layOut s.viewer.snapshot)
    (hheight : 0 ≤ s.viewer.viewportSizePx.2) (hpending : s.caches.canvas.pending = ∅)
    (hmissing : s.missing pixelsPerPoint maxTextureSide = []) {placement : PagePlacement}
    (h : placement ∈ s.drawnPlacements s.viewer.scrollOffsetPx s.viewer.viewportSizePx) :
    s.caches.canvas.contains (s.exact pixelsPerPoint maxTextureSide placement) = true ∨
      s.caches.canvas.hasFailed (s.exact pixelsPerPoint maxTextureSide placement) = true := by
  have hasked := List.filter_eq_nil_iff.1 hmissing _ (exact_visible hlayout hheight h)
  by_contra hneither
  rw [not_or, Bool.not_eq_true] at hneither
  refine hasked (TileCache.wants_eq_true.2 ⟨hneither.1, ?_, fun hfailed => hneither.2 (decide_eq_true hfailed)⟩)
  rw [hpending]
  exact Finset.notMem_empty _

end Surfaces

/-- Drawing leaves wanted what was wanted. -/
theorem wants_foldl_drawPlacement (v : ViewerState) (settings : RenderSettings)
    (placements : List PagePlacement) (cache : TextureCache) (request : RenderRequest) :
    (placements.foldl (drawPlacement v settings) cache).wants request = cache.wants request := by
  induction placements generalizing cache with
  | nil => rfl
  | cons placement placements ih =>
    rw [List.foldl_cons, ih]
    unfold drawPlacement
    split
    · exact TileCache.wants_get _ _ _
    · rfl

/-! ### Frames with nobody touching anything -/

/-- What happens to a window nobody touches: frames of the view it has, none of which evicts, and the
render worker's steps. -/
inductive Rests (pixelsPerPoint : ℚ) (maxTextureSide : Nat) (s : Surfaces ShellService) :
    WindowEvent → Prop
  | exchange (hkept : (s.filed.canvas.evictToBudget s.caches.canvas.beginFrame.1).1 = 0) :
      Rests pixelsPerPoint maxTextureSide s (.exchange pixelsPerPoint maxTextureSide)
  | showRail (maxTextureSide' : Nat) (topPx heightPx : ℚ) :
      Rests pixelsPerPoint maxTextureSide s (.showRail maxTextureSide' topPx heightPx)
  | showCanvas (pixelsPerPoint' : ℚ) (maxTextureSide' : Nat) {offsetPx : ℚ} {sizePx : ℚ × ℚ}
      (hoffset : s.viewer.scrollOffsetPx = offsetPx) (hsize : s.viewer.viewportSizePx = sizePx) :
      Rests pixelsPerPoint maxTextureSide s (.showCanvas pixelsPerPoint' maxTextureSide' offsetPx sizePx)
  | syncFit (hfits : s.viewer.fitIsStale = false) : Rests pixelsPerPoint maxTextureSide s .syncFit
  | work (fault : Option String) : Rests pixelsPerPoint maxTextureSide s (.work fault)

def WindowEvent.isExchange : WindowEvent → Bool
  | .exchange .. => true
  | _ => false

/-- The same pages in view, at the same size. -/
structure ViewerState.SameBand (v v' : ViewerState) : Prop where
  snapshot : v'.snapshot = v.snapshot
  layout : v'.layout = v.layout
  zoom : v'.zoom = v.zoom
  offset : v'.scrollOffsetPx = v.scrollOffsetPx
  viewport : v'.viewportSizePx = v.viewportSizePx
  rotation : v'.viewRotation = v.viewRotation

theorem ViewerState.SameBand.refl (v : ViewerState) : v.SameBand v := ⟨rfl, rfl, rfl, rfl, rfl, rfl⟩

theorem ViewerState.SameBand.trans {v v' v'' : ViewerState} (h : v.SameBand v') (h' : v'.SameBand v'') :
    v.SameBand v'' :=
  ⟨h'.snapshot.trans h.snapshot, h'.layout.trans h.layout, h'.zoom.trans h.zoom,
    h'.offset.trans h.offset, h'.viewport.trans h.viewport, h'.rotation.trans h.rotation⟩

section Pdfium

variable [Pdfium]

/-! ### What the service owes -/

namespace RenderSystem

variable {s : RenderSystem} {request : RenderRequest}

omit [Pdfium] in
/-- An answer to a request is due, or waits to be collected. -/
def Coming (s : RenderSystem) (request : RenderRequest) : Prop :=
  request ∈ s.due ∨ ∃ response ∈ s.outbox ++ s.responses, response.request = request

omit [Pdfium] in
theorem Steady.submit (h : s.Steady) (request : RenderRequest) : (s.submit request).Steady := by
  unfold RenderSystem.submit
  rw [if_neg h.running]
  exact ⟨h.toOrderly.send nofun, h.turningAway⟩

omit [Pdfium] in
theorem Steady.poll (h : s.Steady) : s.poll.2.Steady :=
  ⟨⟨h.running, h.unasked, h.messages, h.capacity, h.bounded, h.nodup⟩, h.turningAway⟩

omit [Pdfium] in
/-- A request submitted will be answered, and so will those before it. -/
theorem coming_submit {submitted : RenderRequest} (h : s.Coming request ∨ submitted = request) :
    (s.submit submitted).Coming request := by
  unfold RenderSystem.submit
  split
  · rcases h with (hdue | ⟨response, hmem, heq⟩) | rfl
    · exact .inl hdue
    · rw [List.mem_append] at hmem
      exact .inr ⟨response, by simp only [List.mem_append]; tauto, heq⟩
    · exact .inr ⟨_, by simp only [List.mem_append, List.mem_singleton]; exact .inl (.inr rfl), rfl⟩
  · unfold Coming
    rw [due_send, Multiset.mem_add]
    rcases h with (hdue | hcollected) | rfl
    · exact .inl (.inr hdue)
    · exact .inr hcollected
    · exact .inl (.inl (Multiset.mem_coe.2 (List.mem_singleton_self _)))

omit [Pdfium] in
/-- Pushing a request keeps every one queued, itself included, but for the one it pushes out. -/
theorem queued_push (first : RenderRequest) (b : Backlog) (h : request = first ∨ request ∈ b.queued) :
    request ∈ (b.push first).2.queued ∨ (b.push first).1 = some request := by
  rcases push_cases first b with ⟨hin, hpush⟩ | ⟨-, evicted, queued, hqueue, hpush, -⟩ | ⟨-, hpush, -⟩
  · rw [hpush]
    rcases h with rfl | hqueued
    · exact .inl hin
    · exact .inl hqueued
  · have hin : request ∈ b.queued ++ [first] := by
      simp only [List.mem_append, List.mem_singleton]
      tauto
    rw [hqueue, List.mem_cons] at hin
    rw [hpush]
    rcases hin with rfl | hkept
    · exact .inr rfl
    · exact .inl hkept
  · rw [hpush]
    simp only [List.mem_append, List.mem_singleton]
    tauto

/-- An answer to a request is due, or was sent. -/
def DueOrSent (s : RenderSystem) (request : RenderRequest) : Prop :=
  request ∈ s.due ∨ ∃ response ∈ s.responses, response.request = request

omit [Pdfium] in
/-- What a message taken in pushes out of the backlog is answered. -/
theorem dueOrSent_accept {message : WorkerMessage} {requests : List WorkerMessage}
    (hrequests : s.requests = message :: requests) (h : request ∈ s.due) :
    (s.accept message requests).DueOrSent request := by
  cases message with
  | render first =>
    rw [due_render hrequests, Multiset.mem_cons, Multiset.mem_add] at h
    have hqueued : (request = first ∨ request ∈ s.worker.backlog.queued) →
        (s.accept (.render first) requests).DueOrSent request := by
      intro hmem
      rcases queued_push first s.worker.backlog hmem with hkept | hout
      · exact .inl (Multiset.mem_add.2 (.inr hkept))
      · refine .inr ⟨.failed request Worker.supersededReason, List.mem_append_right _ ?_, rfl⟩
        simp [Worker.acceptMessage, hout]
    rcases h with hfirst | hmessages | hkept
    · exact hqueued (.inl hfirst)
    · exact .inl (Multiset.mem_add.2 (.inl hmessages))
    · exact hqueued (.inr hkept)
  | rebind snapshot =>
    rw [due_other hrequests rfl, Multiset.mem_add] at h
    rcases h with hmessages | hqueued
    · exact .inl (Multiset.mem_add.2 (.inl hmessages))
    · exact .inr ⟨_, List.mem_append_right _
        (List.mem_map_of_mem (List.mem_reverse.2 (Multiset.mem_coe.1 hqueued))), rfl⟩
  | shutdown =>
    rw [due_other hrequests rfl] at h
    exact .inl h

/-- The request that is served is answered, and the others stay queued. -/
theorem dueOrSent_serve {fault : Option String} {served : RenderRequest} {backlog : Backlog}
    (hnewest : s.worker.backlog.takeNewest = some (served, backlog)) (h : request ∈ s.due) :
    (s.serve fault served backlog).DueOrSent request := by
  obtain ⟨hqueue, -⟩ := takeNewest_eq_some hnewest
  have hserved := serveRequest_backlog fault served { s.worker with backlog }
  unfold DueOrSent
  simp only [due, serve, hserved, Multiset.mem_add] at h ⊢
  rw [hqueue, Multiset.mem_coe, Multiset.mem_coe, List.mem_append, List.mem_singleton] at h
  rcases h with hmessages | hqueued | rfl
  · exact .inl (.inl hmessages)
  · exact .inl (.inr hqueued)
  · exact .inr ⟨_, List.mem_append_right _ (List.mem_singleton_self _), request_serveRequest _ _ _⟩

omit [Pdfium] in
/-- A request that is turned away is answered. -/
theorem dueOrSent_turnAway {reason : String} {message : WorkerMessage}
    {requests : List WorkerMessage} (hrequests : s.requests = message :: requests)
    (h : request ∈ s.due) : (s.turnAway reason message requests).DueOrSent request := by
  cases message with
  | render first =>
    rw [due_render hrequests, Multiset.mem_cons] at h
    rcases h with rfl | hrest
    · exact .inr ⟨_, List.mem_append_right _ (List.mem_singleton_self _), rfl⟩
    · exact .inl hrest
  | rebind snapshot =>
    rw [due_other hrequests rfl] at h
    exact .inl h
  | shutdown =>
    rw [due_other hrequests rfl] at h
    exact .inl h

/-- A request that is due before a step is due after it, or the step answers it. -/
theorem due_or_answered (s : RenderSystem) (fault : Option String) (h : request ∈ s.due) :
    (s.work fault).DueOrSent request := by
  rcases work_cases fault s with ⟨phase, -, hwork⟩ | ⟨message, requests, -, hrequests, hwork⟩ |
    ⟨served, backlog, -, hnewest, hwork⟩ | ⟨reason, message, requests, -, hrequests, hwork⟩
  · rw [hwork]
    exact .inl h
  · rw [hwork]
    exact dueOrSent_accept hrequests h
  · rw [hwork]
    exact dueOrSent_serve hnewest h
  · rw [hwork]
    exact dueOrSent_turnAway hrequests h

theorem work_outbox (s : RenderSystem) (fault : Option String) : (s.work fault).outbox = s.outbox := by
  rcases work_cases fault s with ⟨phase, -, hwork⟩ | ⟨message, requests, -, -, hwork⟩ |
    ⟨served, backlog, -, -, hwork⟩ | ⟨reason, message, requests, -, -, hwork⟩
  · rw [hwork]; rfl
  · rw [hwork]; rfl
  · rw [hwork]; rfl
  · rw [hwork]; cases message <;> rfl

theorem coming_work (h : s.Coming request) (fault : Option String) : (s.work fault).Coming request := by
  obtain ⟨sent, hresponses, -⟩ := answers_due s fault
  rcases h with hdue | ⟨response, hmem, heq⟩
  · rcases due_or_answered s fault hdue with hdue' | ⟨response, hmem, heq⟩
    · exact .inl hdue'
    · exact .inr ⟨response, List.mem_append_right _ hmem, heq⟩
  · refine .inr ⟨response, ?_, heq⟩
    rw [work_outbox, hresponses, ← List.append_assoc]
    exact List.mem_append_left _ hmem

omit [Pdfium] in
/-- A worker with nothing left to do owes nothing. -/
theorem due_of_workLeft (hleft : s.workLeft = 0) : s.due = 0 := by
  unfold workLeft at hleft
  have hrequests : s.requests = [] := List.length_eq_zero_iff.1 (by omega)
  have hqueued : s.worker.backlog.queued = [] := List.length_eq_zero_iff.1 (by omega)
  rw [due, hrequests, hqueued]
  rfl

end RenderSystem

namespace ShellService

variable {service : ShellService} {request : RenderRequest}

omit [Pdfium] in
/-- A service whose worker is in order. -/
def Attended : ShellService → Prop
  | pdfium system => system.Steady
  | fake _ => True

omit [Pdfium] in
def Coming (request : RenderRequest) : ShellService → Prop
  | pdfium system => system.Coming request
  | fake service => request ∈ service.pending

omit [Pdfium] in
def workLeft : ShellService → Nat
  | pdfium system => system.workLeft
  | fake _ => 0

omit [Pdfium] in
theorem Attended.submit (h : service.Attended) (request : RenderRequest) :
    (RenderService.submit request service).Attended := by
  cases service with
  | pdfium system => exact RenderSystem.Steady.submit h request
  | fake service => trivial

omit [Pdfium] in
theorem Attended.poll (h : service.Attended) : (RenderService.poll service).2.Attended := by
  cases service with
  | pdfium system => exact RenderSystem.Steady.poll h
  | fake service => trivial

theorem Attended.work (h : service.Attended) (fault : Option String) : (service.work fault).Attended := by
  cases service with
  | pdfium system => exact RenderSystem.Steady.work h fault
  | fake service => trivial

omit [Pdfium] in
theorem coming_submit {submitted : RenderRequest} (h : service.Coming request ∨ submitted = request) :
    (RenderService.submit submitted service).Coming request := by
  cases service with
  | pdfium system => exact RenderSystem.coming_submit h
  | fake service => exact List.mem_append.2 (h.imp id fun heq => List.mem_singleton.2 heq.symm)

theorem coming_work (h : service.Coming request) (fault : Option String) :
    (service.work fault).Coming request := by
  cases service with
  | pdfium system => exact RenderSystem.coming_work h fault
  | fake service => exact h

omit [Pdfium] in
/-- What is coming is collected, or still coming. -/
theorem coming_poll (h : service.Coming request) :
    (∃ response ∈ (RenderService.poll service).1, response.request = request) ∨
      (RenderService.poll service).2.Coming request := by
  cases service with
  | pdfium system => exact h.symm.imp id .inl
  | fake service =>
    refine .inl ⟨service.answer request, List.mem_map_of_mem h, ?_⟩
    unfold FakeRenderService.answer
    split
    · rfl
    · split <;> rfl

omit [Pdfium] in
/-- From a worker that has caught up everything is collected. -/
theorem collected_of_workLeft (hleft : service.workLeft = 0) (h : service.Coming request) :
    ∃ response ∈ (RenderService.poll service).1, response.request = request := by
  cases service with
  | pdfium system =>
    refine h.resolve_left fun hdue => ?_
    rw [RenderSystem.due_of_workLeft hleft] at hdue
    exact absurd hdue (Multiset.notMem_zero request)
  | fake service => exact (coming_poll h).resolve_right nofun

/-- A worker given the steps it needs has nothing left to do. -/
theorem Attended.catchesUp (h : service.Attended) {faults : List (Option String)}
    (hlong : service.workLeft ≤ faults.length) :
    (faults.foldl (fun service fault => service.work fault) service).workLeft = 0 := by
  cases service with
  | pdfium system =>
    have hfold : ∀ system : RenderSystem,
        faults.foldl (fun service fault => service.work fault) (pdfium system) =
          pdfium (faults.foldl (fun system fault => system.work fault) system) := by
      clear hlong
      induction faults with
      | nil => exact fun _ => rfl
      | cons fault faults ih => exact fun system => ih (system.work fault)
    rw [hfold]
    exact (RenderSystem.Steady.catchesUp h faults hlong).2
  | fake service =>
    have hfold : faults.foldl (fun service fault => service.work fault) (fake service) = fake service := by
      clear hlong
      induction faults with
      | nil => rfl
      | cons fault faults ih => exact ih
    rw [hfold]
    rfl

end ShellService

/-! ### What the surfaces wait for -/

namespace Surfaces

variable {s s' : Surfaces ShellService}

omit [Pdfium] in
/-- Every request the canvas waits for is one the service will answer. -/
structure Attended (s : Surfaces ShellService) : Prop where
  service : s.service.Attended
  coming : ∀ request ∈ s.caches.canvas.pending, s.service.Coming request

omit [Pdfium] in
/-- All that a frame marks as in flight will be answered. -/
theorem attended_submitRequests (requests : List RenderRequest) {cache : TextureCache}
    {service : ShellService} (hservice : service.Attended)
    (hcoming : ∀ request ∈ cache.pending, service.Coming request) :
    (submitRequests requests cache service).2.Attended ∧
      ∀ request ∈ (submitRequests requests cache service).1.pending,
        (submitRequests requests cache service).2.Coming request := by
  induction requests generalizing cache service with
  | nil => exact ⟨hservice, hcoming⟩
  | cons submitted requests ih =>
    refine ih (hservice.submit submitted) fun request hrequest => ShellService.coming_submit ?_
    rcases TileCache.markPending_cases submitted cache with ⟨-, -, hpending⟩ | hsame
    · rw [hpending, Finset.mem_insert] at hrequest
      exact hrequest.symm.imp (hcoming request) Eq.symm
    · rw [hsame] at hrequest
      exact .inl (hcoming request hrequest)

omit [Pdfium] in
/-- What is still in flight once a frame has filed was not among the answers. -/
theorem pending_filed {request : RenderRequest} (h : request ∈ s.filed.canvas.pending) :
    request ∈ s.caches.canvas.pending ∧
      ∀ response ∈ (RenderService.poll s.service).1, response.request ≠ request := by
  have hfiled : request ∈ ((RenderService.poll s.service).1.foldl (CachePair.route s.viewer.snapshot)
      s.begun).canvas.pending := h
  obtain ⟨hpending, hunanswered⟩ := pending_foldl_route hfiled
  exact ⟨hpending, hunanswered⟩

omit [Pdfium] in
/-- Every surface event leaves the service attended. -/
theorem Attended.step (h : s.Attended) (event : SurfaceEvent) : (s.step event).Attended := by
  cases event with
  | exchange pixelsPerPoint maxTextureSide =>
    have hcoming : ∀ request ∈ s.evicted.pending, (RenderService.poll s.service).2.Coming request := by
      intro request hrequest
      rw [evicted, (TileCache.evictToBudget_keeps _ _).1] at hrequest
      obtain ⟨hpending, hunanswered⟩ := pending_filed hrequest
      refine (ShellService.coming_poll (h.coming request hpending)).resolve_left ?_
      rintro ⟨response, hmem, heq⟩
      exact hunanswered response hmem heq
    obtain ⟨hservice, hafter⟩ :=
      attended_submitRequests (s.planned pixelsPerPoint maxTextureSide) h.service.poll hcoming
    rw [step_exchange]
    exact ⟨hservice, hafter⟩
  | showRail maxTextureSide topPx heightPx =>
    obtain ⟨-, hservice, hcoming⟩ := showThumbnails_keep (P := fun _ => True)
      (Q := fun service : ShellService => service.Attended ∧
        ∀ request ∈ s.caches.canvas.pending, service.Coming request)
      (fun submitted service _ hkept => ⟨hkept.1.submit submitted,
        fun request hrequest => ShellService.coming_submit (.inl (hkept.2 request hrequest))⟩)
      s.viewer.snapshot maxTextureSide (s.visibleThumbnails topPx heightPx)
      (s.caches.rail.beginFrame.2, s.service) (fun _ _ => trivial) ⟨h.service, h.coming⟩
    exact ⟨hservice, hcoming⟩
  | showCanvas pixelsPerPoint maxTextureSide scrollOffsetPx viewportSizePx =>
    refine ⟨h.service, fun request hrequest => h.coming request ?_⟩
    exact (showCanvas_keeps pixelsPerPoint maxTextureSide scrollOffsetPx viewportSizePx s.viewer
      s.caches.canvas).1 ▸ hrequest
  | look viewer => exact ⟨h.service, h.coming⟩

/-- What an event of the shell can do to the surfaces. -/
inductive Moves (s : Surfaces ShellService) : Surfaces ShellService → Prop
  | view (viewer : ViewerState) : Moves s { s with viewer }
  | redraw (snapshot : DocumentSnapshot) : Moves s (s.replaceSnapshot snapshot)
  | opened (viewer : ViewerState) {service : ShellService} (hservice : service.Attended) :
      Moves s ⟨viewer, ⟨s.caches.canvas.clear, s.caches.rail.clear⟩, service⟩
  | step (event : SurfaceEvent) : Moves s (s.step event)
  | work (fault : Option String) : Moves s { s with service := s.service.work fault }

theorem Moves.stays : s.Moves s := .view s.viewer

theorem Attended.moves (h : s.Attended) (hmoves : s.Moves s') : s'.Attended := by
  cases hmoves with
  | view viewer => exact ⟨h.service, h.coming⟩
  | redraw snapshot =>
    exact ⟨h.service, fun request hrequest => h.coming request (Finset.mem_filter.1 hrequest).1⟩
  | opened viewer hservice => exact ⟨hservice, nofun⟩
  | step event => exact h.step event
  | work fault =>
    exact ⟨h.service.work fault,
      fun request hrequest => ShellService.coming_work (h.coming request hrequest) fault⟩

end Surfaces

/-! ### Whole sessions -/

section Lopdf

variable [Lopdf]

omit [Pdfium] in
/-- A document handed over with its own snapshot and a service in order. -/
structure OpenedDocument.Ready (opened : OpenedDocument) : Prop where
  own : opened.Matches
  service : opened.service.Attended

omit [Pdfium] in
def Surroundings.OpensReady (around : Surroundings) : Prop :=
  ∀ path opened, around.openPath path = .ok opened → opened.Ready

omit [Pdfium] in
theorem ready_openSyntheticDocument {id : DocumentId} {pageCount : Nat} {opened : OpenedDocument}
    (h : openSyntheticDocument id pageCount = .ok opened) : opened.Ready := by
  refine ⟨matches_openSyntheticDocument h, ?_⟩
  unfold openSyntheticDocument at h
  split at h
  · cases h
  split at h
  · cases h
  · cases h
    trivial

omit [Pdfium] in
theorem ready_openPdf {id : DocumentId} {path : String} {file : Except Error LopdfDocument}
    {pdfiumError : Option String} {opened : OpenedDocument}
    (h : openPdf id path file pdfiumError = .ok opened) : opened.Ready := by
  refine ⟨matches_openPdf h, ?_⟩
  obtain ⟨system, hservice, -, -, rfl | ⟨reason, rfl⟩⟩ := OpdfApp.openPdf_eq_ok h
  · rw [hservice]
    exact RenderSystem.steady_start opened.snapshot
  · rw [hservice]
    exact RenderSystem.steady_startFailing opened.snapshot reason

namespace OpdfApp

open Surfaces (Moves)

variable {app : OpdfApp} {around : Surroundings}

theorem moves_installDocument (document : Option EditableDocument) (path : Option String)
    {service : ShellService} (hservice : service.Attended) (snapshot : DocumentSnapshot) (app : OpdfApp) :
    app.surfaces.Moves (app.installDocument document path service snapshot).surfaces :=
  .opened _ hservice

theorem moves_openChosenPath (hopens : around.OpensReady) (app : OpdfApp) :
    app.surfaces.Moves (app.openChosenPath around).surfaces := by
  unfold openChosenPath
  split
  · exact .stays
  · unfold absorbOpen
    split
    · rename_i opened hopened
      exact moves_installDocument _ _ (hopens _ opened hopened).service _ app
    · exact .stays

theorem moves_carryOut (hopens : around.OpensReady) (intent : ExitIntent) (app : OpdfApp) :
    app.surfaces.Moves (app.carryOut around intent).surfaces := by
  cases intent with
  | close =>
    have hfake : (ShellService.fake (.new ⟨around.freshId, [], 0⟩)).Attended := trivial
    exact moves_installDocument _ _ hfake _ app
  | quit => exact .stays
  | «open» => exact moves_openChosenPath hopens app

theorem moves_requestExit (hopens : around.OpensReady) (intent : ExitIntent) (app : OpdfApp) :
    app.surfaces.Moves (app.requestExit around intent).surfaces := by
  unfold requestExit mayAbandonDocument
  split
  · rename_i hmay
    split at hmay
    · cases hmay
    · cases hmay
      exact moves_carryOut hopens intent app
  · rename_i hmay
    split at hmay
    · cases hmay
      exact .stays
    · cases hmay

theorem moves_confirmDiscard (hopens : around.OpensReady) (app : OpdfApp) :
    app.surfaces.Moves (app.confirmDiscard around).surfaces := by
  unfold confirmDiscard
  split
  · exact .stays
  · exact moves_carryOut hopens _ { app with exitPending := none }

theorem moves_saveFirst (hopens : around.OpensReady) (app : OpdfApp) :
    app.surfaces.Moves (app.saveFirst around).surfaces := by
  unfold saveFirst
  split
  · exact .stays
  have hsaved := (saved_saveInPlace around app).surfaces
  dsimp only
  split
  · rw [cancelDiscard, hsaved]
    exact .stays
  · rw [← hsaved]
    exact moves_confirmDiscard hopens _

theorem Redraws.moves {app' : OpdfApp} (h : Redraws app app') : app.surfaces.Moves app'.surfaces := by
  rcases h with ⟨hsame, -⟩ | ⟨-, d', -, -, -, hsurfaces⟩
  · rw [hsame]
    exact .stays
  · rw [hsurfaces]
    exact .redraw _

theorem Saved.moves {app' : OpdfApp} (h : Saved app app') : app.surfaces.Moves app'.surfaces := by
  rw [h.surfaces]
  exact .stays

/-- Every event of the shell moves the surfaces in one of these ways. -/
theorem moves_handle (h : app.Sound) (event : WindowEvent × Surroundings)
    (hopens : event.2.OpensReady) : app.surfaces.Moves (app.handle event).surfaces := by
  obtain ⟨event, around⟩ := event
  cases event with
  | action action =>
    cases action with
    | openDocument => exact moves_requestExit hopens .open app
    | closeDocument => exact moves_requestExit hopens .close app
    | quit => exact moves_requestExit hopens .quit app
    | save => exact (saved_saveInPlace around app).moves
    | saveAs => exact (saved_saveToChosenPath around app).moves
    | undo => exact (redraws_undoEdit h).moves
    | redo => exact (redraws_redoEdit h).moves
    | rotatePageClockwise => exact (redraws_rotateCurrentPage h).moves
    | deletePage => exact (redraws_deleteCurrentPage h).moves
    | compact =>
      simp only [handle, applyAction, askToCompact]
      split <;> exact .stays
    | generateSynthetic pageCount =>
      simp only [handle, applyAction, loadSynthetic]
      split
      · exact .stays
      · rename_i opened hopened
        exact moves_installDocument _ _ (ready_openSyntheticDocument hopened).service _ app
    | _ => exact .view _
  | confirmDiscard => exact moves_confirmDiscard hopens app
  | saveFirst => exact moves_saveFirst hopens app
  | confirmCompaction => exact (saved_confirmCompaction around app).moves
  | exchange pixelsPerPoint maxTextureSide => exact .step (.exchange pixelsPerPoint maxTextureSide)
  | showRail maxTextureSide topPx heightPx => exact .step (.showRail maxTextureSide topPx heightPx)
  | showCanvas pixelsPerPoint maxTextureSide scrollOffsetPx viewportSizePx =>
    simp only [handle]
    split
    · exact .stays
    · exact .step (.showCanvas pixelsPerPoint maxTextureSide scrollOffsetPx viewportSizePx)
  | work fault => exact .work fault
  | _ => exact .view _

/-- Wherever a session goes, the canvas waits only for what the service will answer. -/
theorem attended_handleAll (hstep : app.InStep) (h : app.surfaces.Attended)
    (events : List (WindowEvent × Surroundings)) (hopens : ∀ event ∈ events, event.2.OpensReady) :
    (app.handleAll events).InStep ∧ (app.handleAll events).surfaces.Attended := by
  induction events generalizing app with
  | nil => exact ⟨hstep, h⟩
  | cons event events ih =>
    have hready := hopens event List.mem_cons_self
    refine ih (inStep_handle hstep event fun path opened hopened => (hready path opened hopened).own)
      (h.moves (moves_handle hstep.sound event hready))
      fun later hlater => hopens later (List.mem_cons_of_mem _ hlater)

end OpdfApp

/-! ### Coming to rest -/

namespace OpdfApp

variable {app : OpdfApp} {pixelsPerPoint : ℚ} {maxTextureSide : Nat}

def RestsAlong (pixelsPerPoint : ℚ) (maxTextureSide : Nat) :
    OpdfApp → List (WindowEvent × Surroundings) → Prop
  | _, [] => True
  | app, event :: events =>
    Rests pixelsPerPoint maxTextureSide app.surfaces event.1 ∧
      RestsAlong pixelsPerPoint maxTextureSide (app.handle event) events

/-- At rest the view stays, nothing already asked for goes missing, and each frame asks for more. -/
theorem rests_handle (hids : (app.surfaces.viewer.snapshot.pages.map PageInfo.id).Nodup)
    (event : WindowEvent × Surroundings) (h : Rests pixelsPerPoint maxTextureSide app.surfaces event.1) :
    app.surfaces.Moves (app.handle event).surfaces ∧
      app.surfaces.viewer.SameBand (app.handle event).surfaces.viewer ∧
      ((app.handle event).surfaces.missing pixelsPerPoint maxTextureSide).length ≤
        (app.surfaces.missing pixelsPerPoint maxTextureSide).length -
          if event.1.isExchange then maxSubmissionsPerFrame else 0 := by
  obtain ⟨event, around⟩ := event
  cases h with
  | exchange hkept =>
    refine ⟨.step (.exchange pixelsPerPoint maxTextureSide), ?_, Surfaces.missing_exchange hids hkept⟩
    simp only [handle, Surfaces.step_exchange]
    exact .refl _
  | showRail maxTextureSide' topPx heightPx =>
    exact ⟨.step (.showRail maxTextureSide' topPx heightPx), .refl _, Nat.le_refl _⟩
  | showCanvas pixelsPerPoint' maxTextureSide' hoffset hsize =>
    subst hoffset hsize
    simp only [handle]
    split
    · exact ⟨.stays, .refl _, Nat.le_refl _⟩
    · refine ⟨.step (.showCanvas pixelsPerPoint' maxTextureSide' app.surfaces.viewer.scrollOffsetPx
        app.surfaces.viewer.viewportSizePx), ⟨rfl, rfl, rfl, rfl, rfl, rfl⟩,
        Nat.le_of_eq (congrArg List.length ?_)⟩
      exact List.filter_congr fun request _ => wants_foldl_drawPlacement _ _ _ _ _
  | syncFit hfits =>
    have hsame : app.handle (.syncFit, around) = app := by
      simp [handle, modifyState, ViewerState.syncFitToViewport, hfits]
    rw [hsame]
    exact ⟨.stays, .refl _, Nat.le_refl _⟩
  | work fault => exact ⟨.work fault, .refl _, Nat.le_refl _⟩

/-- At rest every frame asks for as much of what is missing as it may. -/
theorem rests_handleAll (hids : (app.surfaces.viewer.snapshot.pages.map PageInfo.id).Nodup)
    (hattended : app.surfaces.Attended) {events : List (WindowEvent × Surroundings)}
    (h : app.RestsAlong pixelsPerPoint maxTextureSide events) :
    (app.handleAll events).surfaces.Attended ∧
      app.surfaces.viewer.SameBand (app.handleAll events).surfaces.viewer ∧
      ((app.handleAll events).surfaces.missing pixelsPerPoint maxTextureSide).length ≤
        (app.surfaces.missing pixelsPerPoint maxTextureSide).length -
          maxSubmissionsPerFrame * events.countP fun event => event.1.isExchange := by
  induction events generalizing app with
  | nil => exact ⟨hattended, .refl _, Nat.le_refl _⟩
  | cons event events ih =>
    obtain ⟨hmoves, hsame, hfewer⟩ := rests_handle hids event h.1
    obtain ⟨hattended', hsame', hfewer'⟩ :=
      ih (by rw [hsame.snapshot]; exact hids) (hattended.moves hmoves) h.2
    refine ⟨hattended', hsame.trans hsame', hfewer'.trans ?_⟩
    rw [List.countP_cons, Nat.mul_add]
    split at hfewer
    · rw [if_pos ‹_›]
      omega
    · rw [if_neg ‹_›]
      omega

theorem rests_works (app : OpdfApp) (faults : List (Option String)) (around : Surroundings) :
    app.RestsAlong pixelsPerPoint maxTextureSide (faults.map fun fault => (.work fault, around)) := by
  induction faults generalizing app with
  | nil => trivial
  | cons fault faults ih => exact ⟨.work fault, ih _⟩

/-- Steps of the worker touch the service alone. -/
theorem handleAll_works (app : OpdfApp) (faults : List (Option String)) (around : Surroundings) :
    (app.handleAll (faults.map fun fault => (.work fault, around))).surfaces =
      { app.surfaces with
        service := faults.foldl (fun service fault => service.work fault) app.surfaces.service } := by
  induction faults generalizing app with
  | nil => rfl
  | cons fault faults ih => exact ih _

omit [Pdfium] [Lopdf] in
/-- A frame that misses nothing asks for nothing, and once the worker has caught up it is left
waiting for nothing. -/
theorem pending_exchange {s : Surfaces ShellService} (h : s.Attended) (hcaughtUp : s.service.workLeft = 0)
    (hkept : (s.filed.canvas.evictToBudget s.caches.canvas.beginFrame.1).1 = 0)
    (hmissing : s.missing pixelsPerPoint maxTextureSide = []) :
    (s.step (.exchange pixelsPerPoint maxTextureSide)).caches.canvas.pending = ∅ := by
  have hevicted : s.evicted = s.filed.canvas := evictToBudget_none hkept
  have hwanted : s.wanted pixelsPerPoint maxTextureSide = [] := by
    refine List.eq_nil_of_length_eq_zero ((s.wanted_perm).length_eq.trans (List.length_eq_zero_iff.2 ?_))
    refine List.filter_eq_nil_iff.2 fun request hrequest hwants => ?_
    obtain ⟨hdocument, hrevision⟩ := Surfaces.visibleRequests_drawn hrequest
    rw [hevicted] at hwants
    have hbegun : s.begun.canvas.wants request = true :=
      wants_of_wants_foldl_route hdocument hrevision hwants
    exact List.filter_eq_nil_iff.1 hmissing request hrequest hbegun
  have hplanned : s.planned pixelsPerPoint maxTextureSide = [] := by
    rw [Surfaces.planned_eq, hwanted, List.take_nil]
  rw [Surfaces.step_exchange, hplanned]
  refine Finset.eq_empty_of_forall_notMem fun request hrequest => ?_
  rw [submitRequests, hevicted] at hrequest
  obtain ⟨hpending, hunanswered⟩ := Surfaces.pending_filed hrequest
  obtain ⟨response, hmem, heq⟩ := ShellService.collected_of_workLeft hcaughtUp (h.coming request hpending)
  exact hunanswered response hmem heq

omit [Pdfium] in
theorem InStep.ids_nodup (h : app.InStep) : (app.surfaces.viewer.snapshot.pages.map PageInfo.id).Nodup := by
  have hdraws := h.draws
  cases hdocument : app.document with
  | none =>
    rw [hdocument] at hdraws
    obtain ⟨id, hsnapshot⟩ := hdraws
    rw [hsnapshot]
    exact List.nodup_nil
  | some d =>
    rw [hdocument] at hdraws
    have hsnapshot : app.surfaces.viewer.snapshot = snapshotOf d := by
      simpa [Draws, of_eq_snapshotOf] using hdraws.symm
    rw [hsnapshot]
    exact (roster d).live_nodup

/-- Wherever a session has got to, a window that nobody touches any more and whose frames evict
nothing comes to rest: once they have had room for all that is missing and the render worker has
caught up, the canvas waits for nothing, and every page it draws is drawn from its exact tile or was
refused. -/
theorem window_at_rest_settles (opened : OpenedDocument) (hopened : opened.Ready)
    (events : List (WindowEvent × Surroundings)) (hopens : ∀ event ∈ events, event.2.OpensReady)
    (pixelsPerPoint : ℚ) (maxTextureSide : Nat) (rest : List (WindowEvent × Surroundings))
    (faults : List (Option String)) (around : Surroundings) :
    let app := (OpdfApp.new opened).handleAll events
    let worked := (app.handleAll rest).handleAll (faults.map fun fault => (.work fault, around))
    let settled := (worked.handle (.exchange pixelsPerPoint maxTextureSide, around)).surfaces
    0 ≤ app.surfaces.viewer.viewportSizePx.2 →
    app.RestsAlong pixelsPerPoint maxTextureSide rest →
    Rests pixelsPerPoint maxTextureSide worked.surfaces (.exchange pixelsPerPoint maxTextureSide) →
    (app.surfaces.missing pixelsPerPoint maxTextureSide).length ≤
      maxSubmissionsPerFrame * rest.countP (fun event => event.1.isExchange) →
    (app.handleAll rest).surfaces.service.workLeft ≤ faults.length →
    settled.caches.canvas.pending = ∅ ∧
      ∀ placement ∈ settled.drawnPlacements settled.viewer.scrollOffsetPx settled.viewer.viewportSizePx,
        settled.caches.canvas.contains (settled.exact pixelsPerPoint maxTextureSide placement) = true ∨
          settled.caches.canvas.hasFailed (settled.exact pixelsPerPoint maxTextureSide placement) = true := by
  intro app worked settled hheight hrest hlast hframes hworked
  obtain ⟨hstep, hattended⟩ : app.InStep ∧ app.surfaces.Attended :=
    attended_handleAll (inStep_new hopened.own) ⟨hopened.service, nofun⟩ events hopens
  have hids := hstep.ids_nodup
  obtain ⟨hrested, hsame, hmissing⟩ := rests_handleAll hids hattended hrest
  rw [Nat.sub_eq_zero_of_le hframes] at hmissing
  have hids' := hsame.snapshot ▸ hids
  obtain ⟨hattended', hsame', hmissing'⟩ := rests_handleAll hids' hrested (rests_works _ faults around)
  have hcaughtUp : worked.surfaces.service.workLeft = 0 := by
    have hworks := handleAll_works (app.handleAll rest) faults around
    rw [show worked.surfaces = _ from hworks]
    exact hrested.service.catchesUp hworked
  obtain ⟨-, hsettled, hfewer⟩ :=
    rests_handle (hsame'.snapshot ▸ hids') (.exchange pixelsPerPoint maxTextureSide, around) hlast
  have hnone : worked.surfaces.missing pixelsPerPoint maxTextureSide = [] :=
    List.length_eq_zero_iff.1 (Nat.le_zero.1 (hmissing'.trans ((Nat.sub_le _ _).trans hmissing)))
  have hpending : settled.caches.canvas.pending = ∅ := by
    cases hlast with
    | exchange hkept => exact pending_exchange hattended' hcaughtUp hkept hnone
  refine ⟨hpending, fun placement hplacement => ?_⟩
  have hview : app.surfaces.viewer.SameBand settled.viewer := (hsame.trans hsame').trans hsettled
  have hlayout : settled.viewer.layout = ViewerState.layOut settled.viewer.snapshot := by
    rw [hview.layout, hview.snapshot]
    exact hstep.onPage.layout
  have hsettledNone : settled.missing pixelsPerPoint maxTextureSide = [] := by
    rw [hnone] at hfewer
    exact List.length_eq_zero_iff.1 (Nat.le_zero.1 (hfewer.trans (Nat.sub_le _ _)))
  exact Surfaces.shown_or_refused hlayout (hview.viewport.symm ▸ hheight) hpending hsettledNone hplacement

end OpdfApp
end Lopdf
end Pdfium

namespace WidePage

def atRest : List (WindowEvent × Surroundings) :=
  [.exchange 1 4096, .showCanvas 1 4096 0 (200, 200), .syncFit].map (·, around)

theorem around_opensReady [Lopdf] : around.OpensReady := fun _ _ h => by cases h

end WidePage

namespace OpdfApp

open WidePage (opened around atRest openPdf_file around_opensReady)
open scoped ReferenceLopdf BlankPdfium

/-- A frame asks for the one page there is, the worker draws it, and the next frame has it. -/
theorem wide_page_settles :
    let app := (OpdfApp.new opened).handleAll [(.showCanvas 1 4096 0 (200, 200), around)]
    let worked := (app.handleAll atRest).handleAll
      ((List.replicate 7 none).map fun fault => (.work fault, around))
    let settled := (worked.handle (.exchange 1 4096, around)).surfaces
    (settled.drawnPlacements 0 (200, 200)).length = 1 ∧ settled.caches.canvas.pending = ∅ ∧
      ∀ placement ∈ settled.drawnPlacements settled.viewer.scrollOffsetPx settled.viewer.viewportSizePx,
        settled.caches.canvas.contains (settled.exact 1 4096 placement) = true ∨
          settled.caches.canvas.hasFailed (settled.exact 1 4096 placement) = true :=
  ⟨by decide +kernel,
    window_at_rest_settles opened (ready_openPdf openPdf_file) [(.showCanvas 1 4096 0 (200, 200), around)]
      (List.forall_mem_singleton.2 around_opensReady) 1 4096 atRest (List.replicate 7 none) around
      (by decide +kernel)
      ⟨.exchange (by decide +kernel), .showCanvas 1 4096 (by decide +kernel) (by decide +kernel),
        .syncFit (by decide +kernel), trivial⟩
      (.exchange (by decide +kernel)) (by decide +kernel) (by decide +kernel)⟩

end OpdfApp
end OpdfEditor
