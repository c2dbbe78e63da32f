import OpdfEditor.SharedService
import OpdfEditor.RevisionHonesty

/-!
Refusals at one document and revision: as long as the worker's backlog never has to
supersede a request to make room, a surface records a request as refused only if the
worker tried to answer it.
-/
namespace OpdfEditor

section Pdfium

variable [Pdfium]

namespace RenderSystem

/-- The requests refused in one step of the worker after an attempt to answer them, or because
the document never opened. -/
def refusals (fault : Option String) (s : RenderSystem) : List RenderRequest :=
  match s.worker.phase, s.nextServed, s.requests with
  | .failing _, _, .render request :: _ => [request]
  | _, some (request, _), _ =>
    match s.worker.cache.get request, answerRequest fault s.worker.snapshot s.worker.fileIndices request with
    | none, .failed refused _ => [refused]
    | _, _ => []
  | _, _, _ => []

/-- Whether a message can be taken without superseding a queued request. -/
def HasRoom (s : RenderSystem) : WorkerMessage → Prop
  | .render request =>
    request ∈ s.worker.backlog.queued ∨ s.worker.backlog.queued.length < s.worker.backlog.capacity
  | _ => True

omit [Pdfium] in
instance (s : RenderSystem) (message : WorkerMessage) : Decidable (s.HasRoom message) :=
  match message with
  | .render _ => inferInstanceAs (Decidable (_ ∨ _))
  | .rebind _ => .isTrue trivial
  | .shutdown => .isTrue trivial

/-- Only requests are on their way to the worker, and every refusal on its way back is one the
worker tried. -/
structure Trusted (tried : List RenderRequest) (s : RenderSystem) : Prop where
  requests : ∀ message ∈ s.requests, ∃ request, message = .render request
  running : s.worker.phase ≠ .stopped
  staying : s.worker.shuttingDown = false
  responses : ∀ request reason, RenderResponse.failed request reason ∈ s.outbox ++ s.responses →
    request ∈ tried

omit [Pdfium] in
theorem trusted_start (snapshot : DocumentSnapshot) : Trusted [] (start snapshot) where
  requests _ h := by cases h
  running := nofun
  staying := rfl
  responses _ _ h := by cases h

omit [Pdfium] in
theorem trusted_startFailing (snapshot : DocumentSnapshot) (reason : String) :
    Trusted [] (startFailing snapshot reason) where
  requests _ h := by cases h
  running := nofun
  staying := rfl
  responses _ _ h := by cases h

omit [Pdfium] in
theorem Trusted.submit {tried : List RenderRequest} {s : RenderSystem} (h : Trusted tried s)
    (request : RenderRequest) : Trusted tried (s.submit request) := by
  unfold RenderSystem.submit
  rw [if_neg h.running]
  refine ⟨?_, h.running, h.staying, h.responses⟩
  intro message hmessage
  rcases List.mem_append.1 hmessage with hold | hnew
  · exact h.requests message hold
  · exact ⟨request, List.mem_singleton.1 hnew⟩

omit [Pdfium] in
theorem Trusted.poll {tried : List RenderRequest} {s : RenderSystem} (h : Trusted tried s) :
    Trusted tried s.poll.2 :=
  ⟨h.requests, h.running, h.staying, by rintro _ _ ⟨⟩⟩

omit [Pdfium] in
theorem Trusted.mono {tried tried' : List RenderRequest} {s : RenderSystem} (h : Trusted tried s)
    (hsub : ∀ request ∈ tried, request ∈ tried') : Trusted tried' s :=
  ⟨h.requests, h.running, h.staying, fun request reason hmem =>
    hsub request (h.responses request reason hmem)⟩

omit [Pdfium] in
/-- A request taken into a backlog with room supersedes nothing. -/
theorem Trusted.accept {tried : List RenderRequest} {s : RenderSystem} (h : Trusted tried s)
    {message : WorkerMessage} {requests : List WorkerMessage}
    (hrequests : s.requests = message :: requests) (hroom : s.HasRoom message) :
    Trusted tried (s.accept message requests) := by
  obtain ⟨request, rfl⟩ := h.requests message (by simp [hrequests])
  have hrest : ∀ later ∈ requests, ∃ request, later = WorkerMessage.render request :=
    fun later hlater => h.requests later (by simp [hrequests, hlater])
  have hpush : (s.worker.backlog.push request).1 = none := by
    unfold Backlog.push
    rcases hroom with hqueued | hshort
    · rw [if_pos hqueued]
    · by_cases hqueued : request ∈ s.worker.backlog.queued
      · rw [if_pos hqueued]
      · rw [if_neg hqueued, if_neg]
        simp only [List.length_append, List.length_singleton]
        omega
  refine ⟨hrest, nofun, h.staying, ?_⟩
  intro refused reason hmem
  simp only [RenderSystem.accept, Worker.acceptMessage, hpush, Option.toList_none, List.map_nil,
    List.append_nil] at hmem
  exact h.responses refused reason hmem

/-- A request the worker serves and refuses is one it tried. -/
theorem mem_refusals_of_serve {s : RenderSystem} {fault : Option String}
    {request refused : RenderRequest} {backlog : Backlog} {reason : String}
    (hserved : s.nextServed = some (request, backlog))
    (h : ({ s.worker with backlog }.serveRequest fault request).1 = .failed refused reason) :
    refused ∈ s.refusals fault := by
  have hphase : s.worker.phase = .serving := by
    unfold nextServed at hserved
    split at hserved
    · assumption
    · cases hserved
  unfold Worker.serveRequest at h
  dsimp only at h
  split at h
  · cases h
  rename_i hget
  split at h
  · cases h
  rename_i hanswer
  cases h
  simp [refusals, hphase, hserved, hget, hanswer]

theorem Trusted.work {tried : List RenderRequest} {s : RenderSystem} (h : Trusted tried s)
    (fault : Option String)
    (hroom : ∀ message, s.nextMessage = some message → s.HasRoom message) :
    Trusted (tried ++ s.refusals fault) (s.work fault) := by
  have hgrow : Trusted (tried ++ s.refusals fault) s :=
    h.mono fun request hrequest => List.mem_append_left _ hrequest
  rcases work_cases fault s with ⟨phase, hstop, hwork⟩ | ⟨message, requests, hnext, hrequests, hwork⟩ |
    ⟨request, backlog, hserved, -, hwork⟩ | ⟨reason, message, requests, hphase, hrequests, hwork⟩
  · rw [hwork]
    refine ⟨hgrow.requests, ?_, hgrow.staying, hgrow.responses⟩
    intro hphase
    rcases hstop hphase with hstopped | hdown
    · exact h.running hstopped
    · rw [h.staying] at hdown
      cases hdown
  · rw [hwork]
    exact hgrow.accept hrequests (hroom message hnext)
  · rw [hwork]
    refine ⟨h.requests, nofun, (serveRequest_shuttingDown _ _ _).trans h.staying, ?_⟩
    intro refused why hmem
    simp only [serve, ← List.append_assoc, List.mem_append, List.mem_singleton] at hmem
    rcases hmem with hold | hnew
    · exact hgrow.responses refused why (List.mem_append.2 hold)
    · exact List.mem_append_right _ (mem_refusals_of_serve hserved hnew.symm)
  · rw [hwork]
    obtain ⟨request, rfl⟩ := h.requests message (by simp [hrequests])
    have hrest : ∀ later ∈ requests, ∃ request, later = WorkerMessage.render request :=
      fun later hlater => h.requests later (by simp [hrequests, hlater])
    refine ⟨hrest, ?_, h.staying, ?_⟩
    · show s.worker.phase ≠ .stopped
      exact h.running
    · intro refused why hmem
      simp only [turnAway, ← List.append_assoc, List.mem_append, List.mem_singleton] at hmem
      rcases hmem with hold | hnew
      · exact hgrow.responses refused why (List.mem_append.2 hold)
      · cases hnew
        simp [refusals, hphase, hrequests]

end RenderSystem

/-! ### The surfaces' side -/

namespace CachePair

/-- Some surface records the request as refused. -/
def Refused (caches : CachePair) (request : RenderRequest) : Prop :=
  request ∈ caches.canvas.failed ∨ request ∈ caches.rail.failed

omit [Pdfium] in
theorem failed_fileResponse {drawn : DocumentSnapshot} {response : RenderResponse}
    {cache : TextureCache} {request : RenderRequest}
    (h : request ∈ (fileResponse drawn response cache).failed) :
    request ∈ cache.failed ∨ ∃ reason, response = .failed request reason := by
  unfold fileResponse at h
  dsimp only at h
  split at h
  · exact .inl h
  · cases response with
    | ready _ _ => exact .inl (Finset.mem_of_mem_erase h)
    | failed refused reason =>
      rcases Finset.mem_insert.1 h with rfl | hold
      · exact .inr ⟨reason, rfl⟩
      · exact .inl hold

omit [Pdfium] in
theorem refused_foldl_route {drawn : DocumentSnapshot} {responses : List RenderResponse}
    {caches : CachePair} {request : RenderRequest}
    (h : (responses.foldl (route drawn) caches).Refused request) :
    caches.Refused request ∨ ∃ reason, RenderResponse.failed request reason ∈ responses := by
  induction responses generalizing caches with
  | nil => exact .inl h
  | cons response responses ih =>
    rcases ih h with hrouted | ⟨reason, hreason⟩
    · unfold route at hrouted
      split at hrouted
      · rcases hrouted with hcanvas | hrail
        · exact .inl (.inl hcanvas)
        · rcases failed_fileResponse hrail with hold | ⟨reason, rfl⟩
          · exact .inl (.inr hold)
          · exact .inr ⟨reason, by simp⟩
      · rcases hrouted with hcanvas | hrail
        · rcases failed_fileResponse hcanvas with hold | ⟨reason, rfl⟩
          · exact .inl (.inl hold)
          · exact .inr ⟨reason, by simp⟩
        · exact .inl (.inr hrail)
    · exact .inr ⟨reason, List.mem_cons_of_mem _ hreason⟩

end CachePair

/-- The surfaces, and every request refused so far after an attempt to answer it. -/
structure WatchedSurfaces where
  surfaces : Surfaces RenderSystem
  tried : List RenderRequest

inductive WatchedEvent where
  | surface (event : SurfaceEvent)
  | work (fault : Option String)

namespace WatchedSurfaces

def step (w : WatchedSurfaces) : WatchedEvent → WatchedSurfaces
  | .surface event => { w with surfaces := w.surfaces.step event }
  | .work fault =>
    ⟨{ w.surfaces with service := w.surfaces.service.work fault },
      w.tried ++ w.surfaces.service.refusals fault⟩

/-- A step that makes the worker supersede nothing for want of room. -/
def Roomy (w : WatchedSurfaces) : WatchedEvent → Prop
  | .surface _ => True
  | .work _ => ∀ message ∈ w.surfaces.service.nextMessage, w.surfaces.service.HasRoom message

omit [Pdfium] in
instance (w : WatchedSurfaces) (event : WatchedEvent) : Decidable (w.Roomy event) :=
  match event with
  | .surface _ => .isTrue trivial
  | .work _ => inferInstanceAs (Decidable (∀ message ∈ w.surfaces.service.nextMessage, _))

def RoomyRun : WatchedSurfaces → List WatchedEvent → Prop
  | _, [] => True
  | w, event :: events => w.Roomy event ∧ (w.step event).RoomyRun events

instance decidableRoomyRun : ∀ (w : WatchedSurfaces) (events : List WatchedEvent),
    Decidable (w.RoomyRun events)
  | _, [] => .isTrue trivial
  | w, event :: events =>
    have := decidableRoomyRun (w.step event) events
    inferInstanceAs (Decidable (w.Roomy event ∧ (w.step event).RoomyRun events))

/-- Only requests the worker tried are refused, on either surface or on their way there. -/
structure Earned (w : WatchedSurfaces) : Prop where
  trusted : w.surfaces.service.Trusted w.tried
  refused : ∀ request, w.surfaces.caches.Refused request → request ∈ w.tried

omit [Pdfium] in
theorem earned_surface {w : WatchedSurfaces} (h : w.Earned) (event : SurfaceEvent) :
    Earned { w with surfaces := w.surfaces.step event } := by
  cases event with
  | exchange pixelsPerPoint maxTextureSide =>
    rw [Surfaces.step_exchange]
    obtain ⟨-, hfailed, htrusted⟩ := submitRequests_keeps (P := fun _ => True)
      (Q := RenderSystem.Trusted w.tried) (fun request _ _ htrusted => htrusted.submit request)
      (w.surfaces.planned pixelsPerPoint maxTextureSide) (fun _ _ => trivial)
      w.surfaces.evicted h.trusted.poll
    refine ⟨htrusted, ?_⟩
    intro request hrefused
    have hfiled : w.surfaces.filed.Refused request := by
      rcases hrefused with hcanvas | hrail
      · refine .inl ?_
        have hcanvas : request ∈ w.surfaces.evicted.failed := hfailed ▸ hcanvas
        rwa [Surfaces.evicted, (TileCache.evictToBudget_keeps _ _).2.1] at hcanvas
      · exact .inr hrail
    rcases CachePair.refused_foldl_route hfiled with hold | ⟨reason, hreason⟩
    · exact h.refused request hold
    · exact h.trusted.responses request reason hreason
  | showRail maxTextureSide topPx heightPx =>
    obtain ⟨hfailed, htrusted⟩ := showThumbnails_keep (P := fun _ => True)
      (Q := RenderSystem.Trusted w.tried) (fun request _ _ htrusted => htrusted.submit request)
      w.surfaces.viewer.snapshot maxTextureSide (w.surfaces.visibleThumbnails topPx heightPx)
      (w.surfaces.caches.rail.beginFrame.2, w.surfaces.service) (fun _ _ => trivial) h.trusted
    refine ⟨htrusted, ?_⟩
    intro request hrefused
    rcases hrefused with hcanvas | hrail
    · exact h.refused request (.inl hcanvas)
    · refine h.refused request (.inr ?_)
      simp only [Surfaces.step, showThumbnailRail, (TileCache.evictToBudget_keeps _ _).2.1] at hrail
      have hshown : request ∈ w.surfaces.caches.rail.beginFrame.2.failed := hfailed ▸ hrail
      exact hshown
  | showCanvas pixelsPerPoint maxTextureSide scrollOffsetPx viewportSizePx =>
    refine ⟨h.trusted, ?_⟩
    intro request hrefused
    have hkeeps := showCanvas_keeps pixelsPerPoint maxTextureSide scrollOffsetPx viewportSizePx
      w.surfaces.viewer w.surfaces.caches.canvas
    rcases hrefused with hcanvas | hrail
    · exact h.refused request (.inl (hkeeps.2.1 ▸ hcanvas))
    · exact h.refused request (.inr hrail)
  | look viewer => exact ⟨h.trusted, h.refused⟩

theorem earned_step {w : WatchedSurfaces} (h : w.Earned) {event : WatchedEvent}
    (hroomy : w.Roomy event) : (w.step event).Earned := by
  cases event with
  | surface event => exact earned_surface h event
  | work fault =>
    refine ⟨h.trusted.work fault fun message hnext => hroomy message hnext, ?_⟩
    intro request hrefused
    exact List.mem_append_left _ (h.refused request hrefused)

theorem earned_run {w : WatchedSurfaces} (h : w.Earned) {events : List WatchedEvent}
    (hroomy : w.RoomyRun events) : (events.foldl step w).Earned := by
  induction events generalizing w with
  | nil => exact h
  | cons event events ih => exact ih (earned_step h hroomy.1) hroomy.2

def start (snapshot : DocumentSnapshot) (canvasBudget railBudget : Nat)
    (openError : Option String) : WatchedSurfaces :=
  ⟨.start snapshot canvasBudget railBudget
    (match openError with
      | none => .start snapshot
      | some reason => .startFailing snapshot reason), []⟩

omit [Pdfium] in
theorem earned_start (snapshot : DocumentSnapshot) (canvasBudget railBudget : Nat)
    (openError : Option String) : (start snapshot canvasBudget railBudget openError).Earned := by
  refine ⟨?_, ?_⟩
  · cases openError with
    | none => exact RenderSystem.trusted_start snapshot
    | some reason => exact RenderSystem.trusted_startFailing snapshot reason
  · rintro request (h | h)
    · exact absurd h (Finset.notMem_empty request)
    · exact absurd h (Finset.notMem_empty request)

/-- In every run of frames and worker steps in which the worker never supersedes a request for
want of room, both caches record as refused only requests the worker tried, and whatever was not
tried is wanted again once it is neither in flight nor cached. -/
theorem refusals_are_earned (snapshot : DocumentSnapshot) (canvasBudget railBudget : Nat)
    (openError : Option String) (events : List WatchedEvent)
    (hroomy : (start snapshot canvasBudget railBudget openError).RoomyRun events) :
    let w := events.foldl step (start snapshot canvasBudget railBudget openError)
    (∀ request, w.surfaces.caches.Refused request → request ∈ w.tried) ∧
    ∀ cache ∈ [w.surfaces.caches.canvas, w.surfaces.caches.rail], ∀ request ∉ w.tried,
      cache.isPending request = false → cache.contains request = false →
        cache.wants request = true := by
  intro w
  have hearned : w.Earned :=
    earned_run (earned_start snapshot canvasBudget railBudget openError) hroomy
  refine ⟨hearned.refused, ?_⟩
  intro cache hcache request huntried hpending hcontains
  have hfailed : request ∉ cache.failed := by
    intro hfailed
    refine huntried (hearned.refused request ?_)
    rcases List.mem_cons.1 hcache with rfl | hcache
    · exact .inl hfailed
    · obtain rfl := List.mem_singleton.1 hcache
      exact .inr hfailed
  exact TileCache.wants_eq_true.2 ⟨hcontains, by simpa [TileCache.isPending] using hpending, hfailed⟩

end WatchedSurfaces
end Pdfium

/-! ### A rail longer than the backlog -/

namespace LongRail

def opened : DocumentSnapshot :=
  ⟨1, (List.range (maxBacklog + 1)).map fun page => ⟨page, SquarePage.size, .none⟩, 0⟩

def first : RenderRequest := ⟨1, 0, 0, 1, .none, RenderRequest.one_positive⟩

def start : WatchedSurfaces := .start opened 1000 1000 none

/-- A window high enough to show some thumbnails, and a worker that takes the requests in. -/
def showAndTake (heightPx : ℚ) (steps : Nat) : List WatchedEvent :=
  .surface (.showRail 4096 0 heightPx) :: List.replicate steps (.work none)

def refuseOne : List WatchedEvent :=
  showAndTake 200 3 ++ [.work (some "out of memory"), .surface (.exchange 1 4096)]

end LongRail

namespace WatchedSurfaces

open scoped BlankPdfium

/-- The first thumbnail is superseded unanswered and refused for good. -/
theorem superseded_request_is_refused :
    let w := (LongRail.showAndTake 12000 65 ++
      [WatchedEvent.surface (.exchange 1 4096)]).foldl step LongRail.start
    LongRail.first ∈ w.surfaces.caches.rail.failed ∧ w.tried = [] := by
  decide +kernel

/-- What the worker tried in vain is all that is refused. -/
theorem short_window_refusals_are_earned :
    let w := LongRail.refuseOne.foldl step LongRail.start
    w.tried.length = 1 ∧ ∀ request, w.surfaces.caches.Refused request → request ∈ w.tried :=
  ⟨by decide +kernel,
    (refusals_are_earned LongRail.opened 1000 1000 none LongRail.refuseOne (by decide +kernel)).1⟩

end WatchedSurfaces
end OpdfEditor
